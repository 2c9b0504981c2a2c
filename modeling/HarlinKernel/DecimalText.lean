import Mathlib.Data.Nat.Digits.Defs
import Mathlib.Tactic

/-! Numbers as text: `Harlin_FromInt` and `Harlin_ToInt` of `syscall/harlin_API.c`, in 32-bit
arithmetic that wraps around. -/
namespace HarlinKernel.DecimalText

/-- The cast to `s32`. -/
def toS32 (x : ℤ) : ℤ := (x+2^31) % 2^32-2^31

/-- The cast to `u32`. -/
def toU32 (x : ℤ) : ℕ := (x % 2^32).toNat

def minus : UInt8 := 0x2D
def zeroChar : UInt8 := 0x30

/-- The digits in `tmp`, lowest first; none if they do not fit into its `room` bytes. -/
def fillTmp : ℕ → ℤ → Option (List UInt8)
  | 0, val => if 0 < toU32 val then none else some []
  | room+1, val =>
    if 0 < toU32 val then
      (fillTmp room (toS32 (toU32 val / 10 : ℕ))).map fun tmp =>
        (zeroChar+UInt8.ofNat (toU32 val % 10)) :: tmp
    else some []

/-- The bytes that `Harlin_FromInt` stores, the terminator with them. -/
def harlinFromInt (val : ℤ) : Option (List UInt8) :=
  if val = 0 then some [zeroChar,0]
  else
    let sign := if val < 0 then [minus] else []
    let val := if val < 0 then toS32 ((toU32 (toS32 (-(toS32 (val+1))))+1) % 2^32 : ℕ) else val
    (fillTmp 12 val).map fun tmp => sign ++ tmp.reverse ++ [0]

/-- The loop of `Harlin_ToInt`. -/
def toIntLoop (val : ℤ) : List UInt8 → ℤ
  | [] => val
  | c :: str =>
    if zeroChar ≤ c ∧ c ≤ 0x39 then toIntLoop (toS32 (toS32 (val*10)+(c.toNat-48))) str else val

def harlinToInt (str : List UInt8) : ℤ :=
  if str.head? = some minus then toS32 (toIntLoop 0 str.tail*(-1)) else toS32 (toIntLoop 0 str*1)

/-- The decimal representation: no leading zeros, and a sign for negative numbers. -/
def decimal (v : ℤ) : List UInt8 :=
  (if v < 0 then [minus] else []) ++ if v = 0 then [zeroChar]
    else ((Nat.digits 10 v.natAbs).map fun d => zeroChar+UInt8.ofNat d).reverse

variable {room : ℕ} {v val : ℤ}

lemma fillTmp_eq (h : toU32 val < 10^room) :
    fillTmp room val =
      some ((Nat.digits 10 (toU32 val)).map fun d => zeroChar+UInt8.ofNat d) := by
  induction room generalizing val with
  | zero =>
    have hzr : toU32 val = 0 := by omega
    simp [fillTmp,hzr]
  | succ room ih =>
    rw [fillTmp]
    split_ifs with hpos
    · have hlt : toU32 val < 2^32 := by rw [toU32]; omega
      have hnx : toU32 (toS32 (toU32 val / 10 : ℕ)) = toU32 val / 10 := by
        rw [toS32,toU32]
        omega
      rw [ih (by rw [hnx]; omega),hnx,Nat.digits_def' (by decide) hpos]
      rfl
    · have hzr : toU32 val = 0 := by omega
      simp [hzr]

lemma toS32_step (val d : ℤ) : toS32 (toS32 (toS32 val*10)+d) = toS32 (val*10+d) := by
  rw [toS32,toS32,toS32,toS32]
  omega

lemma toIntLoop_digits {ds : List ℕ} (h : ∀ d ∈ ds, d < 10) (val : ℤ) :
    toIntLoop (toS32 val) ((ds.map fun d => zeroChar+UInt8.ofNat d) ++ [0]) =
      toS32 (ds.foldl (fun a (d : ℕ) => a*10+d) val) := by
  induction ds generalizing val with
  | nil => rfl
  | cons d ds ih =>
    have hd := h d List.mem_cons_self
    have hch : zeroChar ≤ zeroChar+UInt8.ofNat d ∧ zeroChar+UInt8.ofNat d ≤ 0x39 ∧
        (zeroChar+UInt8.ofNat d).toNat = 48+d := by
      interval_cases d <;> decide
    rw [List.map_cons,List.cons_append,toIntLoop,if_pos ⟨hch.1,hch.2.1⟩,hch.2.2,toS32_step,
      List.foldl_cons,← ih fun x hx => h x (List.mem_cons_of_mem d hx)]
    congr 2
    omega

lemma foldl_digits (n : ℕ) :
    (Nat.digits 10 n).reverse.foldl (fun (a : ℤ) (d : ℕ) => a*10+d) 0 = n := by
  have hvl := Nat.ofDigits_digits 10 n
  rw [Nat.ofDigits_eq_foldr] at hvl
  rw [List.foldl_reverse]
  conv_rhs => rw [← hvl]
  generalize Nat.digits 10 n = ds
  induction ds with
  | nil => rfl
  | cons d ds ih =>
    rw [List.foldr_cons,List.foldr_cons,ih]
    push_cast
    ring

lemma toIntLoop_decimal (n : ℕ) :
    toIntLoop 0 (((Nat.digits 10 n).map fun d => zeroChar+UInt8.ofNat d).reverse ++ [0]) =
      toS32 n := by
  have hlp := toIntLoop_digits (fun d (hd : d ∈ (Nat.digits 10 n).reverse) =>
    Nat.digits_lt_base (by decide) (List.mem_reverse.mp hd)) 0
  rwa [foldl_digits,List.map_reverse] at hlp

/-- Every 32-bit number is written in decimal and read back. -/
theorem decimal_round_trip (hlo : -2^31 ≤ v) (hhi : v < 2^31) :
    harlinFromInt v = some (decimal v ++ [0]) ∧ (decimal v ++ [0]).length ≤ 12 ∧
      harlinToInt (decimal v ++ [0]) = v := by
  by_cases hzr : v = 0
  · subst hzr
    decide
  have habs : toU32 (if v < 0 then toS32 ((toU32 (toS32 (-(toS32 (v+1))))+1) % 2^32 : ℕ) else v) =
      v.natAbs := by
    split_ifs <;> simp only [toU32,toS32] <;> omega
  have hlen : (Nat.digits 10 v.natAbs).length ≤ 10 := by
    rw [Nat.digits_length_le_iff (by decide)]
    omega
  have hlp := toIntLoop_decimal v.natAbs
  rw [decimal,if_neg hzr]
  refine ⟨?_,?_,?_⟩
  · rw [harlinFromInt,if_neg hzr]
    simp only
    rw [fillTmp_eq (by rw [habs]; omega),habs]
    simp
  · split_ifs <;> simp <;> omega
  by_cases hneg : v < 0
  · rw [if_pos hneg,List.append_assoc,List.singleton_append,harlinToInt,List.head?_cons,if_pos rfl,
      List.tail_cons,hlp,toS32,toS32]
    omega
  rw [if_neg hneg,List.nil_append,harlinToInt,if_neg,hlp,toS32,toS32]
  · omega
  · intro hhd
    have hmem := List.mem_of_mem_head? hhd
    simp only [List.mem_append,List.mem_reverse,List.mem_map,List.mem_singleton] at hmem
    rcases hmem with ⟨d,hd,hch⟩ | hch
    · have hlt := Nat.digits_lt_base (by decide) hd
      interval_cases d <;> cases hch
    · cases hch

/-- The smallest number, whose absolute value is no 32-bit number. -/
theorem decimal_round_trip_min :
    harlinFromInt (-2^31) = some (decimal (-2^31) ++ [0]) ∧
      harlinToInt (decimal (-2^31) ++ [0]) = -2^31 := by
  obtain ⟨hfr,-,hto⟩ := decimal_round_trip (v := -2^31) le_rfl (by decide)
  exact ⟨hfr,hto⟩

end HarlinKernel.DecimalText
