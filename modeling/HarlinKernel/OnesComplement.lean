import Mathlib.Tactic

/-! Sums with end-around carry. In base `b` a carry out of the low digit is added back to
it, which keeps the sum modulo `b-1`; a nonzero sum ends as a number from `1` to `b-1`. -/
namespace HarlinKernel.OnesComplement

/-- What repeated end-around carries leave of a sum. -/
def residue (b s : ℕ) : ℕ := if s = 0 then 0 else (s-1) % (b-1)+1

/-- The sum of the 16-bit words of a byte string, most significant byte first; a last byte
without a partner is a high byte. -/
def wordSum : List UInt8 → ℕ
  | a :: b :: rest => a.toNat*2^8+b.toNat+wordSum rest
  | [a] => a.toNat*2^8
  | [] => 0

variable {b s : ℕ}

lemma residue_of_lt (h : s < b) : residue b s = s := by
  by_cases hs : s = 0
  · rw [residue,if_pos hs,hs]
  · rw [residue,if_neg hs,Nat.mod_eq_of_lt (by omega)]
    omega

lemma residue_carry (hb : 1 < b) : residue b (s % b+s / b) = residue b s := by
  obtain ⟨m,rfl⟩ : ∃ m, b = m+1 := ⟨b-1,by omega⟩
  have hdiv := Nat.mod_add_div s (m+1)
  generalize s % (m+1) = low at hdiv ⊢
  generalize s / (m+1) = high at hdiv ⊢
  have hsum : s = low+high+m*high := by
    rw [← hdiv,Nat.add_mul,Nat.one_mul]
    omega
  by_cases hs : low+high = 0
  · obtain rfl : high = 0 := by omega
    rw [hsum,Nat.mul_zero,Nat.add_zero]
  · have hpr : low+high+m*high-1 = (low+high-1)+m*high := by omega
    rw [hsum,residue,residue,if_neg hs,if_neg (by omega),Nat.add_sub_cancel,hpr,
      Nat.add_mul_mod_self_left]

lemma residue_eq_top (hb : 1 < b) : residue b s = b-1 ↔ s ≠ 0 ∧ b-1 ∣ s := by
  obtain ⟨m,rfl⟩ : ∃ m, b = m+1 := ⟨b-1,by omega⟩
  rw [residue,Nat.add_sub_cancel]
  split
  · rename_i hs
    constructor
    · omega
    · rintro ⟨hne,-⟩
      exact absurd hs hne
  rename_i hs
  have hdiv := Nat.mod_add_div (s-1) m
  constructor
  · intro htop
    refine ⟨hs,(s-1) / m+1,?_⟩
    rw [Nat.mul_add,Nat.mul_one]
    omega
  · rintro ⟨-,k,rfl⟩
    obtain ⟨j,rfl⟩ : ∃ j, k = j+1 := ⟨k-1,by
      have : k ≠ 0 := by
        rintro rfl
        exact hs rfl
      omega⟩
    have hls : m*(j+1)-1 = (m-1)+m*j := by
      rw [Nat.mul_add,Nat.mul_one]
      omega
    rw [hls,Nat.add_mul_mod_self_left,Nat.mod_eq_of_lt (by omega)]
    omega

lemma wordSum_le (l : List UInt8) : 2*wordSum l ≤ 65535*(l.length+1) := by
  induction l using wordSum.induct with
  | case1 a b rest ih =>
    have ha := a.toNat_lt
    have hb := b.toNat_lt
    simp only [wordSum,List.length_cons] at *
    omega
  | case2 a =>
    have ha := a.toNat_lt
    simp only [wordSum,List.length_cons,List.length_nil]
    omega
  | case3 => simp [wordSum]

lemma wordSum_append {l : List UInt8} (hev : l.length % 2 = 0) (r : List UInt8) :
    wordSum (l ++ r) = wordSum l+wordSum r := by
  induction l using wordSum.induct with
  | case1 a b rest ih =>
    have hrs : rest.length % 2 = 0 := by
      simp only [List.length_cons] at hev
      omega
    simp only [List.cons_append,wordSum,ih hrs]
    omega
  | case2 a => simp at hev
  | case3 => simp [wordSum]

/-- A field `r` of one word complements a sum `s` when the two add up to a multiple of
`b-1`; zero and `b-1` both stand for zero, and only `b-1` is in the range of `r`. -/
theorem complement_iff (hb : 1 < b) {r : ℕ} (hs : s ≠ 0) (hr : r < b) :
    (r = if b-1-residue b s = 0 then b-1 else b-1-residue b s) ↔ r ≠ 0 ∧ b-1 ∣ r+s := by
  obtain ⟨m,rfl⟩ : ∃ m, b = m+1 := ⟨b-1,by omega⟩
  have hm : 0 < m := by omega
  rw [residue,if_neg hs,Nat.add_sub_cancel]
  have hlt := Nat.mod_lt (s-1) hm
  have hdiv := Nat.mod_add_div (s-1) m
  have hsum : ∀ r, m ∣ r+s ↔ m ∣ r+((s-1) % m+1) := by
    intro r
    have heq : r+s = r+((s-1) % m+1)+m*((s-1) / m) := by omega
    rw [heq]
    exact (Nat.dvd_add_iff_left (Dvd.intro _ rfl)).symm
  rw [hsum]
  constructor
  · intro heq
    split at heq
    · refine ⟨by omega,2,by omega⟩
    · refine ⟨by omega,1,by omega⟩
  · rintro ⟨hr0,k,hk⟩
    have hk0 : k ≠ 0 := by
      rintro rfl
      omega
    have hk2 : k < 3 := by
      by_contra hge
      have hmul : m*3 ≤ m*k := Nat.mul_le_mul_left m (by omega)
      omega
    obtain rfl | rfl : k = 1 ∨ k = 2 := by omega
    · rw [if_neg (by omega)]
      omega
    · rw [if_pos (by omega)]
      omega

end HarlinKernel.OnesComplement
