import Mathlib.Tactic

/-! Bits in an array of bytes, bit `i` in byte `i / 8` at position `i % 8`. -/
namespace HarlinKernel.Bitmap

abbrev Bytes := ℕ → BitVec 8

def get (m : Bytes) (i : ℕ) : Bool := (m (i / 8)).getLsbD (i % 8)

def setBit (m : Bytes) (i : ℕ) : Bytes :=
  Function.update m (i / 8) (m (i / 8) ||| BitVec.twoPow 8 (i % 8))

def clearBit (m : Bytes) (i : ℕ) : Bytes :=
  Function.update m (i / 8) (m (i / 8) &&& ~~~ BitVec.twoPow 8 (i % 8))

variable {i j n b : ℕ} {m : Bytes} {accept : ℕ → Bool}

lemma eq_iff_mod (h : j / 8 = i / 8) : i % 8 = j % 8 ↔ j = i := by omega

@[simp] lemma get_setBit (m : Bytes) (i j : ℕ) :
    get (setBit m i) j = (decide (j = i) || get m j) := by
  by_cases h : j / 8 = i / 8
  · have hi : i % 8 < 8 := Nat.mod_lt i (by decide)
    simp [get,setBit,h,hi,eq_iff_mod h,Bool.or_comm]
  · have hne : j ≠ i := fun heq => h (by rw [heq])
    simp [get,setBit,Function.update_of_ne h,hne]

@[simp] lemma get_clearBit (m : Bytes) (i j : ℕ) :
    get (clearBit m i) j = (decide (j ≠ i) && get m j) := by
  by_cases h : j / 8 = i / 8
  · have hj : j % 8 < 8 := Nat.mod_lt j (by decide)
    have hpos : j % 8 = i % 8 ↔ j = i := eq_comm.trans (eq_iff_mod h)
    simp [get,clearBit,h,hj,hpos,Bool.and_comm]
  · have hne : j ≠ i := fun heq => h (by rw [heq])
    simp [get,clearBit,Function.update_of_ne h,hne]

lemma and_twoPow_eq_zero (m : Bytes) (i : ℕ) (hj : j < 8) :
    m i &&& BitVec.twoPow 8 j = 0 ↔ get m (i*8+j) = false := by
  have hby : (i*8+j) / 8 = i := by omega
  have hpos : (i*8+j) % 8 = j := by omega
  have hne : BitVec.twoPow 8 j ≠ 0 := by
    intro h
    have hbit : (BitVec.twoPow 8 j).getLsbD j = true := by simp [hj]
    simp [h] at hbit
  rw [get,hby,hpos,BitVec.and_twoPow]
  cases (m i).getLsbD j with
  | true => simpa using hne
  | false => simp

lemma get_of_full (h : m (j / 8) = 0xFF) : get m j = true := by
  have hall : ∀ k : Fin 8, (0xFF : BitVec 8).getLsbD k = true := by decide
  rw [get,h]
  exact hall ⟨j % 8,Nat.mod_lt j (by decide)⟩

/-- Setting the bits from `base` on, one after the other. -/
def setRun (m : Bytes) (base : ℕ) : ℕ → Bytes
  | 0 => m
  | n+1 => setBit (setRun m base n) (base+n)

@[simp] lemma get_setRun (m : Bytes) (base n j : ℕ) :
    get (setRun m base n) j = (decide (base ≤ j ∧ j < base+n) || get m j) := by
  induction n with
  | zero => simp [setRun]
  | succ n ih =>
    have hsp : (j = base+n ∨ base ≤ j ∧ j < base+n) ↔ base ≤ j ∧ j < base+(n+1) := by omega
    rw [setRun,get_setBit,ih,← Bool.or_assoc,← Bool.decide_or]
    simp [hsp]

/-- The first accepted bit, byte by byte from byte `i` on over `n` bytes; bytes of ones
are skipped. -/
def findBit (m : Bytes) (accept : ℕ → Bool) : ℕ → ℕ → Option ℕ
  | 0, _ => none
  | n+1, i =>
    if m i = 0xFF then findBit m accept n (i+1)
    else
      match (List.range 8).find? fun j => accept (i*8+j) with
      | some j => some (i*8+j)
      | none => findBit m accept n (i+1)

lemma findBit_some
    (h : findBit m accept n i = some b) : accept b = true ∧ i*8 ≤ b ∧ b < (i+n)*8 := by
  induction n generalizing i with
  | zero => cases h
  | succ n ih =>
    rw [findBit] at h
    have hla : findBit m accept n (i+1) = some b → accept b = true ∧ i*8 ≤ b ∧
        b < (i+(n+1))*8 := by
      intro hrs
      obtain ⟨hacc,hle,hlt⟩ := ih hrs
      exact ⟨hacc,by omega,by omega⟩
    split at h
    · exact hla h
    · split at h
      · rename_i j hj
        cases h
        have hj8 : j < 8 := List.mem_range.mp (List.mem_of_find?_eq_some hj)
        have hacc : accept (i*8+j) = true := List.find?_some (p:=fun j => accept (i*8+j)) hj
        exact ⟨hacc,by omega,by omega⟩
      · exact hla h

lemma findBit_before (hle : i*8 ≤ b) (hlt : b < (findBit m accept n i).getD ((i+n)*8)) :
    m (b / 8) = 0xFF ∨ accept b = false := by
  induction n generalizing i with
  | zero => exact absurd hlt (not_lt.2 hle)
  | succ n ih =>
    rw [findBit,show i+(n+1) = i+1+n by omega] at hlt
    have hla (hb : b / 8 ≠ i) (hlt : b < (findBit m accept n (i+1)).getD ((i+1+n)*8)) :=
      ih (by omega) hlt
    have hrj (h : ¬accept (i*8+(b-i*8)) = true) : accept b = false := by
      rwa [Nat.add_sub_cancel' hle,Bool.not_eq_true] at h
    split at hlt
    · rename_i hfl
      by_cases hb : b / 8 = i
      · exact .inl (hb ▸ hfl)
      · exact hla hb hlt
    split at hlt
    · rename_i j hj
      have hbj : b < i*8+j := hlt
      have hnot := (List.find?_range_eq_some.mp hj).2.2 (b-i*8) (by omega)
      exact .inr (hrj (by simpa using hnot))
    · rename_i hno
      by_cases hb : b / 8 = i
      · exact .inr (hrj (List.find?_eq_none.mp hno _ (List.mem_range.mpr (by omega))))
      · exact hla hb hlt

lemma findBit_none (h : findBit m accept n i = none)
    (hle : i*8 ≤ b) (hlt : b < (i+n)*8) : m (b / 8) = 0xFF ∨ accept b = false :=
  findBit_before hle (by rwa [h])

end HarlinKernel.Bitmap
