import Mathlib.Tactic

/-! Circular buffers read as lists. `contents` walks `n` slots from `head`,
wrapping at `size`; the lemmas say what storing, taking and skipping a slot do
to that list. -/
namespace HarlinKernel.RingBuffer

open Function (update update_self update_of_ne)
variable {α : Type*}

/-- The values of `n` consecutive slots, oldest first. -/
def contents (size : ℕ) (buf : ℕ → α) (head n : ℕ) : List α :=
  (List.range n).map fun k => buf ((head+k) % size)

@[simp] lemma contents_zero (size : ℕ) (buf : ℕ → α) (head : ℕ) :
    contents size buf head 0 = [] := rfl

@[simp] lemma contents_length (size : ℕ) (buf : ℕ → α) (head n : ℕ) :
    (contents size buf head n).length = n := by simp [contents]

lemma contents_getElem? (size : ℕ) (buf : ℕ → α) (head n k : ℕ) (hk : k < n) :
    (contents size buf head n)[k]? = some (buf ((head+k) % size)) := by
  simp [contents,hk]

variable {size k n head : ℕ}

lemma slot_ne (head : ℕ) (hkn : k < n) (hn : n < size) : (head+k) % size ≠ (head+n) % size := by
  intro h
  have hm : n ≡ k [MOD size] := Nat.ModEq.add_left_cancel' head h.symm
  have he : n = k := by
    have h' : n % size = k % size := hm
    rwa [Nat.mod_eq_of_lt hn,Nat.mod_eq_of_lt (by omega)] at h'
  omega

lemma contents_congr {buf buf' : ℕ → α}
    (h : ∀ k < n, buf' ((head+k) % size) = buf ((head+k) % size)) :
    contents size buf' head n = contents size buf head n := by
  apply List.map_congr_left
  intro k hk
  exact h k (List.mem_range.mp hk)

lemma contents_succ_last (size : ℕ) (buf : ℕ → α) (head n : ℕ) :
    contents size buf head (n+1) = contents size buf head n ++ [buf ((head+n) % size)] := by
  simp [contents,List.range_succ]

/-- Storing behind the last value appends, as long as one slot stays unused. -/
theorem contents_push (buf : ℕ → α) (head : ℕ) (hn : n < size) (v : α) :
    contents size (update buf ((head+n) % size) v) head (n+1) =
      contents size buf head n ++ [v] := by
  rw [contents_succ_last,update_self]
  congr 1
  apply contents_congr
  intro k hk
  exact update_of_ne (slot_ne _ hk hn) _ _

lemma contents_update (buf : ℕ → α) (head : ℕ) (hk : k < n) (hn : n ≤ size)
    (v : α) : contents size (update buf ((head+k) % size) v) head n =
      (contents size buf head n).set k v := by
  apply List.ext_getElem (by simp)
  intro i hi hi'
  have hin : i < n := by simpa using hi
  rw [List.getElem_set]
  simp only [contents,List.getElem_map,List.getElem_range]
  split_ifs with hik
  · subst hik
    exact update_self _ _ _
  · apply update_of_ne
    obtain hlt | hlt := Nat.lt_or_gt_of_ne hik
    · exact (slot_ne _ hlt (by omega)).symm
    · exact slot_ne _ hlt (by omega)

lemma contents_add (size : ℕ) (buf : ℕ → α) (head m n : ℕ) :
    contents size buf head (m+n) =
      contents size buf head m ++ contents size buf ((head+m) % size) n := by
  simp only [contents,List.range_add,List.map_append,List.map_map,List.append_cancel_left_eq]
  apply List.map_congr_left
  intro k _
  simp only [Function.comp_apply,Nat.mod_add_mod]
  congr 2
  omega

lemma contents_succ_first (size : ℕ) (buf : ℕ → α) (head n : ℕ) :
    contents size buf head (n+1) = buf (head % size) :: contents size buf ((head+1) % size) n := by
  rw [Nat.add_comm,contents_add]
  simp [contents]

/-- The loop that moves `n` values down by one slot each, oldest slot first. -/
def shiftDown (size head : ℕ) : ℕ → (ℕ → α) → ℕ → α
  | 0, buf => buf
  | n+1, buf =>
    let moved := shiftDown size head n buf
    update moved ((head+n) % size) (moved ((head+(n+1)) % size))

lemma shiftDown_above {m : ℕ} (buf : ℕ → α) (hnm : n ≤ m) (hm : m < size) :
    shiftDown size head n buf ((head+m) % size) = buf ((head+m) % size) := by
  induction n with
  | zero => rfl
  | succ n ih =>
    rw [shiftDown,update_of_ne (slot_ne _ (by omega) hm).symm]
    exact ih (by omega)

lemma shiftDown_below {j : ℕ} (buf : ℕ → α) (hj : j < n) (hn : n < size) :
    shiftDown size head n buf ((head+j) % size) = buf ((head+(j+1)) % size) := by
  induction n with
  | zero => omega
  | succ n ih =>
    rw [shiftDown]
    obtain rfl | hlt := Nat.eq_or_lt_of_le (Nat.le_of_lt_succ hj)
    · rw [update_self]
      exact shiftDown_above buf (by omega) hn
    · rw [update_of_ne (slot_ne _ hlt (by omega))]
      exact ih hlt (by omega)

lemma contents_shiftDown (buf : ℕ → α) (head : ℕ) (hn : n < size) :
    contents size (shiftDown size head n buf) head n = contents size buf ((head+1) % size) n := by
  apply List.map_congr_left
  intro j hj
  rw [shiftDown_below buf (List.mem_range.mp hj) hn,Nat.mod_add_mod]
  congr 2
  omega

end HarlinKernel.RingBuffer
