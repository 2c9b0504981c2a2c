import Mathlib.Tactic

/-! Reads from a memory some of whose cells cannot be read: a computation that touches such a
cell does not return. What a computation returns depends on certain cells only if and only if
it returns on a memory that has no others. -/
namespace HarlinKernel.BoundedReads

variable {A V α β : Type*}

/-- What each cell holds, if it can be read. -/
abbrev Memory (A V : Type*) := A → Option V

/-- Every cell can be read. -/
def full (image : A → V) : Memory A V := fun a => some (image a)

/-- Only the given cells can be read. -/
def only (inside : A → Prop) [DecidablePred inside] (image : A → V) : Memory A V :=
  fun a => if inside a then some (image a) else none

/-- The memory holds the image on the given cells. -/
def Holds (inside : A → Prop) (image : A → V) (m : Memory A V) : Prop :=
  ∀ a, inside a → m a = some (image a)

/-- The outcome is the same on all memories that hold the image on the given cells. -/
def DependsOn (inside : A → Prop) (image : A → V) (x : Memory A V → Option α) : Prop :=
  ∀ m m', Holds inside image m → Holds inside image m' → x m = x m'

/-- The first outcome of a numbered computation that is one. -/
def scan (p : ℕ → Memory A V → Option (Option β)) (m : Memory A V) : ℕ → ℕ → Option (Option β)
  | 0, _ => some none
  | n+1, i => (p i m).bind fun
    | some b => some (some b)
    | none => scan p m n (i+1)

/-- All outcomes of a numbered computation, if each is one. -/
def collect (p : ℕ → Memory A V → Option (Option β)) (m : Memory A V) :
    ℕ → ℕ → Option (Option (List β))
  | 0, _ => some (some [])
  | n+1, i => (p i m).bind fun
    | none => some none
    | some b => (collect p m n (i+1)).map fun bs => bs.map (b :: ·)

/-- A computation that uses the memory by reading cells: with more cells it returns the same. With
the whole image it returns `a`, and with the given cells only it returns exactly if `c`. -/
structure Reads (inside : A → Prop) [DecidablePred inside] (image : A → V)
    (x : Memory A V → Option α) (c : Prop) (a : α) : Prop where
  mono : ∀ m m' r, (∀ b v, m b = some v → m' b = some v) → x m = some r → x m' = some r
  full : x (full image) = some a
  only : (x (only inside image)).isSome ↔ c

variable {inside : A → Prop} [DecidablePred inside] {image : A → V} {x y : Memory A V → Option α}
  {c d : Prop} {a b : α}

lemma holds_full (inside : A → Prop) (image : A → V) : Holds inside image (full image) :=
  fun _ _ => rfl

lemma holds_only : Holds inside image (only inside image) := fun _ hb => if_pos hb

lemma Reads.congr (h : Reads inside image x c a) (hc : c ↔ d) (ha : a = b) :
    Reads inside image x d b :=
  ⟨h.mono,ha ▸ h.full,h.only.trans hc⟩

lemma Reads.holds (h : Reads inside image x c a) {m : Memory A V} {r : α}
    (hm : Holds inside image m) (hr : x (BoundedReads.only inside image) = some r) :
    x m = some r := by
  refine h.mono _ m r ?_ hr
  intro b v hv
  unfold BoundedReads.only at hv
  split_ifs at hv with hb
  rw [hm b hb,hv]

lemma Reads.only_eq (h : Reads inside image x c a) (hc : c) :
    x (BoundedReads.only inside image) = some a := by
  obtain ⟨r,hr⟩ := Option.isSome_iff_exists.mp (h.only.mpr hc)
  have hfl := h.holds (holds_full inside image) hr
  rw [hr,← hfl,h.full]

lemma Reads.dependsOn_iff (h : Reads inside image x c a) : DependsOn inside image x ↔ c := by
  constructor
  · intro hdp
    rw [← h.only,hdp _ _ holds_only (holds_full inside image),h.full]
    rfl
  · intro hc m m' hm hm'
    rw [h.holds hm (h.only_eq hc),h.holds hm' (h.only_eq hc)]

lemma Reads.read (b : A) : Reads inside image (fun m => m b) (inside b) (image b) := by
  refine ⟨fun _ _ _ h hr => h _ _ hr,rfl,?_⟩
  by_cases hb : inside b <;> simp [BoundedReads.only,hb]

lemma Reads.pure (a : α) : Reads inside image (fun _ => some a) True a :=
  ⟨fun _ _ _ _ hr => hr,rfl,iff_of_true rfl trivial⟩

lemma Reads.bind_at {f : α → Memory A V → Option β} (hx : Reads inside image x c a)
    (hf : ∀ a, ∃ c b, Reads inside image (f a) c b) {c' : Prop} {b : β}
    (ha : Reads inside image (f a) c' b) :
    Reads inside image (fun m => (x m).bind fun a => f a m) (c ∧ c') b := by
  refine ⟨fun m m' r hle hr => ?_,?_,?_⟩
  · obtain ⟨a',ha',hr⟩ := Option.bind_eq_some_iff.mp hr
    obtain ⟨_,_,hfa⟩ := hf a'
    exact Option.bind_eq_some_iff.mpr ⟨a',hx.mono m m' a' hle ha',hfa.mono m m' r hle hr⟩
  · rw [hx.full]
    exact ha.full
  · by_cases hc : c
    · simp [hx.only_eq hc,hc,ha.only]
    · simp [Option.not_isSome_iff_eq_none.mp (hx.only.not.mpr hc),hc]

lemma Reads.bind {f : α → Memory A V → Option β} {c' : α → Prop} {b : α → β}
    (hx : Reads inside image x c a) (hf : ∀ a, Reads inside image (f a) (c' a) (b a)) :
    Reads inside image (fun m => (x m).bind fun a => f a m) (c ∧ c' a) (b a) :=
  hx.bind_at (fun a => ⟨_,_,hf a⟩) (hf a)

lemma Reads.exists_bind {f : α → Memory A V → Option β} {c' : α → Prop}
    (hx : Reads inside image x c a) (hf : ∀ a, ∃ b, Reads inside image (f a) (c' a) b)
    (hd : c ∧ c' a ↔ d) : ∃ b, Reads inside image (fun m => (x m).bind fun a => f a m) d b := by
  choose b hb using hf
  exact ⟨_,(hx.bind hb).congr hd rfl⟩

lemma Reads.map (hx : Reads inside image x c a) (g : α → β) :
    Reads inside image (fun m => (x m).map g) c (g a) := by
  have heq : (fun m => (x m).map g) = fun m => (x m).bind fun a => some (g a) := by
    funext m
    cases x m <;> rfl
  rw [heq]
  exact (hx.bind fun a => .pure (g a)).congr (iff_of_eq (and_true c)) rfl

lemma Reads.ite {p : Prop} [Decidable p] (hx : Reads inside image x c a)
    (hy : Reads inside image y d b) :
    Reads inside image (fun m => if p then x m else y m) (if p then c else d)
      (if p then a else b) := by
  by_cases hp : p
  · simpa only [hp,if_true] using hx
  · simpa only [hp,if_false] using hy

lemma Reads.guard {p : Prop} [Decidable p] (a : α) (hy : Reads inside image y d b) :
    Reads inside image (fun m => if p then some a else y m) (¬ p → d) (if p then a else b) := by
  refine (Reads.ite (.pure a) hy).congr ?_ rfl
  by_cases hp : p <;> simp [hp]

section Loops

variable {p : ℕ → Memory A V → Option (Option β)} {ok : ℕ → Prop} {value : ℕ → Option β}

lemma forall_lt_succ (P Q : ℕ → Prop) (n i : ℕ) : (∀ k < n+1, (∀ j < k, Q (i+j)) → P (i+k)) ↔
    P i ∧ (Q i → ∀ k < n, (∀ j < k, Q (i+1+j)) → P (i+1+k)) := by
  simp only [Nat.forall_lt_succ_left,Nat.add_assoc,Nat.add_comm 1,Nat.not_lt_zero,false_implies,
    implies_true,true_implies,Nat.add_zero]
  exact and_congr_right fun _ => ⟨fun h hi k hk hall => h k hk ⟨hi,hall⟩,
    fun h k hk hall => h hall.1 k hk hall.2⟩

/-- A search returns if each computation does that it comes to. -/
theorem Reads.scan (hp : ∀ i, Reads inside image (p i) (ok i) (value i)) (n i : ℕ) :
    Reads inside image (fun m => scan p m n i)
      (∀ k < n, (∀ j < k, value (i+j) = none) → ok (i+k)) ((List.range' i n).findSome? value) := by
  induction n generalizing i with
  | zero => exact (Reads.pure none).congr (by simp) rfl
  | succ n ih =>
    have hrs : ∀ r : Option β, Reads inside image (fun m => match r with
        | some b => some (some b)
        | none => BoundedReads.scan p m n (i+1))
        (r = none → ∀ k < n, (∀ j < k, value (i+1+j) = none) → ok (i+1+k))
        (r.or ((List.range' (i+1) n).findSome? value)) := by
      intro r
      cases r with
      | some b => exact (Reads.pure (some b)).congr (by simp) rfl
      | none => exact (ih (i+1)).congr (by simp) rfl
    refine ((hp i).bind hrs).congr (forall_lt_succ ok (fun j => value j = none) n i).symm ?_
    rw [List.range'_succ,List.findSome?_cons]
    cases value i <;> rfl

/-- Computing all returns if each computation does up to the first without an outcome. -/
theorem Reads.collect (hp : ∀ i, Reads inside image (p i) (ok i) (value i)) (n i : ℕ) :
    Reads inside image (fun m => collect p m n i)
      (∀ k < n, (∀ j < k, value (i+j) ≠ none) → ok (i+k))
      (if ∀ k < n, value (i+k) ≠ none then some ((List.range' i n).filterMap value) else none) := by
  induction n generalizing i with
  | zero => exact (Reads.pure (some [])).congr (by simp) rfl
  | succ n ih =>
    have hrs : ∀ r : Option β, Reads inside image (fun m => match r with
        | none => some none
        | some b => (BoundedReads.collect p m n (i+1)).map fun bs => bs.map (b :: ·))
        (r ≠ none → ∀ k < n, (∀ j < k, value (i+1+j) ≠ none) → ok (i+1+k))
        (r.bind fun b => (if ∀ k < n, value (i+1+k) ≠ none then
          some ((List.range' (i+1) n).filterMap value) else none).map (b :: ·)) := by
      intro r
      cases r with
      | none => exact (Reads.pure none).congr (by simp) rfl
      | some b => exact ((ih (i+1)).map _).congr (by simp) rfl
    refine ((hp i).bind hrs).congr (forall_lt_succ ok (fun j => value j ≠ none) n i).symm ?_
    simp only [Nat.forall_lt_succ_left,List.range'_succ,Nat.add_zero,Nat.add_assoc,Nat.add_comm 1]
    cases hi : value i with
    | none => simp
    | some b => split_ifs <;> simp_all

end Loops

end HarlinKernel.BoundedReads
