import HarlinKernel.LabelledWalk
import HarlinKernel.PageAllocator

/-! The page tables of `mem/vmm.c`. Physical memory is read as frames of 512 words. The
window of `read_pt_entry` and `write_pt_entry` and the identity mapping behind
`clear_page_phys` are taken as direct access to the words of the frame they are given. -/
namespace HarlinKernel.PageTable

open Bitmap PageAllocator LabelledWalk
open Function (update update_of_ne)

def vmmPresent : ℕ := 0x001
def vmmWritable : ℕ := 0x002
def vmmUser : ℕ := 0x004
def vmmHuge : ℕ := 0x080

def frameMask : ℕ := 0x000FFFFFFFFFF000

def userAddrStart : ℕ := 0x400000
def userAddrEnd : ℕ := 0x800000

structure Vmm where
  mem : ℕ → ℕ → ℕ
  pmm : Pmm
  kernelPml4Phys : ℕ
  currentPml4Phys : ℕ
  lastReplacedPhys : ℕ

/-- The frame of the current PML4. -/
abbrev rootFrame (s : Vmm) : ℕ := s.currentPml4Phys &&& frameMask

def readPtEntry (s : Vmm) (pt idx : ℕ) : ℕ := s.mem (pt &&& frameMask) idx

def setWord (mem : ℕ → ℕ → ℕ) (frame idx value : ℕ) : ℕ → ℕ → ℕ :=
  update mem frame (update (mem frame) idx value)

def writePtEntry (s : Vmm) (pt idx value : ℕ) : Vmm :=
  { s with mem := setWord s.mem (pt &&& frameMask) idx value }

def clearPagePhys (s : Vmm) (phys : ℕ) : Vmm :=
  { s with mem := update s.mem phys fun _ => 0 }

def allocPage (s : Vmm) : ℕ × Vmm := ((pmmAlloc s.pmm).1,{ s with pmm := (pmmAlloc s.pmm).2 })

def pml4Idx (virt : ℕ) : ℕ := virt >>> 39 &&& 0x1FF
def pdptIdx (virt : ℕ) : ℕ := virt >>> 30 &&& 0x1FF
def pdIdx (virt : ℕ) : ℕ := virt >>> 21 &&& 0x1FF
def ptIdx (virt : ℕ) : ℕ := virt >>> 12 &&& 0x1FF

/-- A present entry as `get_or_alloc_table` leaves it. -/
def userEntry (entry flags : ℕ) : ℕ :=
  if flags &&& vmmUser ≠ 0 ∧ entry &&& vmmUser = 0 then entry ||| vmmUser else entry

/-- The next table, which is created if the entry is absent; 0 if no frame is free. -/
def getOrAllocTable (s : Vmm) (table idx flags : ℕ) : ℕ × Vmm :=
  let entry := readPtEntry s table idx
  if entry &&& vmmPresent ≠ 0 then
    let newEntry := userEntry entry flags
    (entry &&& frameMask,if newEntry ≠ entry then writePtEntry s table idx newEntry else s)
  else
    let r := allocPage s
    if r.1 = 0 then (0,r.2)
    else
      (r.1,writePtEntry (clearPagePhys r.2 r.1) table idx
        (r.1 ||| vmmPresent ||| vmmWritable ||| (flags &&& vmmUser)))

def tableEntry (page flags : ℕ) : ℕ :=
  (page &&& frameMask) ||| vmmPresent ||| vmmWritable ||| (flags &&& vmmUser)

def pageEntry (phys flags : ℕ) : ℕ := (phys &&& frameMask) ||| vmmPresent ||| flags

/-- Entry `i` of the table that replaces a 2 MiB entry. -/
def splitEntry (old i : ℕ) : ℕ :=
  ((old &&& frameMask)+i*4096) ||| (old &&& 0xFFF &&& (2^64-1-vmmHuge))

def fillSplit (s : Vmm) (pt old : ℕ) : ℕ → Vmm
  | 0 => s
  | n+1 => writePtEntry (fillSplit s pt old n) pt n (splitEntry old n)

def noteReplaced (s : Vmm) (pt idx : ℕ) : Vmm :=
  let oldPte := readPtEntry s pt idx
  if oldPte &&& vmmPresent ≠ 0 then { s with lastReplacedPhys := oldPte &&& frameMask } else s

/-- The last lines of `vmm_map`. -/
def mapInPt (s : Vmm) (pt virt phys flags : ℕ) : ℤ × Vmm :=
  (0,writePtEntry (noteReplaced s pt (ptIdx virt)) pt (ptIdx virt) (pageEntry phys flags))

/-- `vmm_map` from the page directory on. -/
def mapInPd (s : Vmm) (pd virt phys flags : ℕ) : ℤ × Vmm :=
  let oldEntry := readPtEntry s pd (pdIdx virt)
  if oldEntry &&& vmmPresent ≠ 0 then
    if oldEntry &&& vmmHuge ≠ 0 then
      let r := allocPage s
      if r.1 = 0 then (-1,r.2)
      else
        let s := fillSplit (clearPagePhys r.2 r.1) r.1 oldEntry 512
        let s := noteReplaced s r.1 (ptIdx virt)
        let s := writePtEntry s r.1 (ptIdx virt) (pageEntry phys flags)
        (0,writePtEntry s pd (pdIdx virt) (tableEntry r.1 flags))
    else mapInPt s (oldEntry &&& frameMask) virt phys flags
  else
    let r := allocPage s
    if r.1 = 0 then (-1,r.2)
    else
      let s := writePtEntry (clearPagePhys r.2 r.1) pd (pdIdx virt) (tableEntry r.1 flags)
      mapInPt s r.1 virt phys flags

def vmmMap (s : Vmm) (virt phys flags : ℕ) : ℤ × Vmm :=
  if flags &&& vmmUser ≠ 0 ∧ (virt < userAddrStart ∨ userAddrEnd ≤ virt) then (-1,s)
  else
    let pdpt := getOrAllocTable s s.currentPml4Phys (pml4Idx virt) flags
    if pdpt.1 = 0 then (-1,pdpt.2)
    else
      let pd := getOrAllocTable pdpt.2 pdpt.1 (pdptIdx virt) flags
      if pd.1 = 0 then (-1,pd.2)
      else mapInPd { pd.2 with lastReplacedPhys := 0 } pd.1 virt phys flags

def vmmUnmap (s : Vmm) (virt : ℕ) : Vmm :=
  let entry := readPtEntry s s.currentPml4Phys (pml4Idx virt)
  if entry &&& vmmPresent = 0 then s
  else
    let entry := readPtEntry s (entry &&& frameMask) (pdptIdx virt)
    if entry &&& vmmPresent = 0 then s
    else
      let pdPhys := entry &&& frameMask
      let entry := readPtEntry s pdPhys (pdIdx virt)
      if entry &&& vmmPresent = 0 then s
      else if entry &&& vmmHuge ≠ 0 then writePtEntry s pdPhys (pdIdx virt) 0
      else writePtEntry s (entry &&& frameMask) (ptIdx virt) 0

def vmmGetPhysLocked (s : Vmm) (virt : ℕ) : ℕ :=
  if s.currentPml4Phys = 0 then 0
  else
    let entry := readPtEntry s s.currentPml4Phys (pml4Idx virt)
    if entry &&& vmmPresent = 0 then 0
    else
      let entry := readPtEntry s (entry &&& frameMask) (pdptIdx virt)
      if entry &&& vmmPresent = 0 then 0
      else
        let entry := readPtEntry s (entry &&& frameMask) (pdIdx virt)
        if entry &&& vmmPresent = 0 then 0
        else if entry &&& vmmHuge ≠ 0 then (entry &&& frameMask) ||| (virt &&& 0x1FFFFF)
        else
          let entry := readPtEntry s (entry &&& frameMask) (ptIdx virt)
          if entry &&& vmmPresent = 0 then 0 else (entry &&& frameMask) ||| (virt &&& 0xFFF)

lemma frameMask_eq : frameMask = (2^40-1) <<< 12 := by decide

lemma testBit_frameMask (i : ℕ) : frameMask.testBit i = decide (12 ≤ i ∧ i < 52) := by
  rw [frameMask_eq,Nat.testBit_shiftLeft,Nat.testBit_two_pow_sub_one]
  by_cases h : 12 ≤ i
  · have hlt : i-12 < 40 ↔ i < 52 := by omega
    simp [h,hlt]
  · simp [h]

lemma and_frameMask_and (e : ℕ) : e &&& frameMask &&& frameMask = e &&& frameMask := by
  rw [Nat.and_assoc,Nat.and_self]

variable {b a base i k entry frame f f' : ℕ} {q : List ℕ}

lemma small_and_frameMask (h : b < 4096) : b &&& frameMask = 0 := by
  apply Nat.eq_of_testBit_eq
  intro i
  rw [Nat.testBit_and,testBit_frameMask,Nat.zero_testBit]
  by_cases hi : 12 ≤ i
  · have hlr : b < 2^i := lt_of_lt_of_le h (Nat.pow_le_pow_right Nat.two_pos hi)
    simp [Nat.testBit_lt_two_pow hlr]
  · simp [hi]

lemma aligned_and_frameMask (h : a < 2^52) (ha : a % 4096 = 0) : a &&& frameMask = a := by
  apply Nat.eq_of_testBit_eq
  intro i
  rw [Nat.testBit_and,testBit_frameMask]
  by_cases hi : 12 ≤ i ∧ i < 52
  · simp [hi]
  have hbit : a.testBit i = false := by
    by_cases hlow : i < 12
    · have hzr : (a % 2^12).testBit i = false := by
        rw [show a % 2^12 = 0 from ha,Nat.zero_testBit]
      rwa [Nat.testBit_mod_two_pow,decide_eq_true hlow,Bool.true_and] at hzr
    · have hlr : a < 2^i := lt_of_lt_of_le h (Nat.pow_le_pow_right Nat.two_pos (by omega))
      exact Nat.testBit_lt_two_pow hlr
  simp [hbit]

lemma entry_frame (ha : a &&& frameMask = a) (hb : b < 4096) : (a ||| b) &&& frameMask = a := by
  rw [Nat.and_or_distrib_right,ha,small_and_frameMask hb,Nat.or_zero]

lemma or_lt_page (ha : a < 4096) (hb : b < 4096) : a ||| b < 4096 :=
  Nat.or_lt_two_pow (n:=12) ha hb

lemma user_lt_page (flags : ℕ) : flags &&& vmmUser < 4096 :=
  lt_of_le_of_lt Nat.and_le_right (by decide)

lemma tableEntry_frame (page flags : ℕ) :
    tableEntry page flags &&& frameMask = page &&& frameMask := by
  rw [tableEntry,Nat.or_assoc,Nat.or_assoc]
  refine entry_frame (and_frameMask_and page) (or_lt_page (by decide) (or_lt_page (by decide) ?_))
  exact user_lt_page flags

lemma or_present (a b : ℕ) : (a ||| vmmPresent ||| b) &&& vmmPresent ≠ 0 := by
  intro h
  have hbit := congrArg (fun x => x.testBit 0) h
  simp [vmmPresent] at hbit

lemma tableEntry_present (page flags : ℕ) : tableEntry page flags &&& vmmPresent ≠ 0 := by
  rw [tableEntry,Nat.or_assoc]
  exact or_present _ _

lemma tableEntry_huge (page flags : ℕ) : tableEntry page flags &&& vmmHuge = 0 := by
  have hms : frameMask &&& vmmHuge = 0 := by decide
  have hus : vmmUser &&& vmmHuge = 0 := by decide
  have hlow : vmmPresent &&& vmmHuge = 0 := by decide
  have hwr : vmmWritable &&& vmmHuge = 0 := by decide
  simp [tableEntry,Nat.and_or_distrib_right,Nat.and_assoc,hms,hus,hlow,hwr]

lemma pageEntry_frame (phys : ℕ) {flags : ℕ} (hfl : flags < 8) :
    pageEntry phys flags &&& frameMask = phys &&& frameMask := by
  rw [pageEntry,Nat.or_assoc]
  exact entry_frame (and_frameMask_and phys) (or_lt_page (by decide) (by omega))

lemma split_frame (hbs : base &&& frameMask = base) (hal : base % 2^21 = 0)
    (hi : i < 512) : (base+i*4096) &&& frameMask = base+i*4096 := by
  have hle : base ≤ frameMask := by
    rw [← hbs]
    exact Nat.and_le_right
  have hms : frameMask < 2^52 := by decide
  exact aligned_and_frameMask (by omega) (by omega)

lemma splitEntry_frame {old : ℕ} (hal : (old &&& frameMask) % 2^21 = 0) (hi : i < 512) :
    splitEntry old i &&& frameMask = (old &&& frameMask)+i*4096 := by
  have hlow : old &&& 0xFFF < 4096 := lt_of_le_of_lt Nat.and_le_right (by decide)
  refine entry_frame (split_frame (and_frameMask_and old) hal hi) ?_
  exact lt_of_le_of_lt Nat.and_le_left hlow

lemma splitEntry_present (old i : ℕ) : splitEntry old i &&& vmmPresent = old &&& vmmPresent := by
  have hms : (2^64-1-vmmHuge) &&& vmmPresent = vmmPresent := by decide
  have hlow : 0xFFF &&& vmmPresent = vmmPresent := by decide
  have hpage : ((old &&& frameMask)+i*4096) &&& vmmPresent = 0 := by
    have hbit : frameMask &&& 1 = 0 := by decide
    have hev : (old &&& frameMask) % 2 = 0 := by
      rw [← Nat.and_one_is_mod,Nat.and_assoc,hbit,Nat.and_zero]
    rw [vmmPresent,Nat.and_one_is_mod]
    omega
  rw [splitEntry,Nat.and_or_distrib_right,hpage,Nat.zero_or,Nat.and_assoc,hms,Nat.and_assoc,hlow]

lemma aligned_or_mod {n : ℕ} (ha : a % 2^n = 0) (x : ℕ) : a ||| x % 2^n = a+x % 2^n := by
  have hsh : a = (a / 2^n) <<< n := by
    rw [Nat.shiftLeft_eq]
    exact (Nat.div_mul_cancel (Nat.dvd_of_mod_eq_zero ha)).symm
  have hlt : x % 2^n < 2^n := Nat.mod_lt x (Nat.two_pow_pos n)
  rw [hsh]
  exact (Nat.shiftLeft_add_eq_or_of_lt hlt _).symm

lemma page_offset (virt : ℕ) : virt &&& 0xFFF = virt % 2^12 :=
  Nat.and_two_pow_sub_one_eq_mod virt 12

lemma huge_offset (virt : ℕ) : virt &&& 0x1FFFFF = virt % 2^21 :=
  Nat.and_two_pow_sub_one_eq_mod virt 21

lemma index_eq (virt n : ℕ) : virt >>> n &&& 0x1FF = virt / 2^n % 2^9 := by
  rw [Nat.shiftRight_eq_div_pow]
  exact Nat.and_two_pow_sub_one_eq_mod _ 9

lemma split_offset (hal : base % 2^21 = 0) (virt : ℕ) :
    (base+ptIdx virt*4096) ||| (virt &&& 0xFFF) = base ||| (virt &&& 0x1FFFFF) := by
  have hpage : (base+ptIdx virt*4096) % 2^12 = 0 := by omega
  rw [page_offset,huge_offset,aligned_or_mod hpage,aligned_or_mod hal,ptIdx,index_eq]
  omega

/-- A table: its level, 0 for the PML4, and its frame. -/
abbrev Node := ℕ × ℕ

/-- Where a walk ends in a page: its first byte and the mask of the offset. -/
abbrev Leaf := ℕ × ℕ

/-- What an entry of a table of level `k` says to the walk of the processor and of
`vmm_get_phys_locked`. -/
def entryStep (k entry : ℕ) : Step Node (Option Leaf) :=
  if entry &&& vmmPresent = 0 then .stop none
  else if k = 2 ∧ entry &&& vmmHuge ≠ 0 then .stop (some (entry &&& frameMask,0x1FFFFF))
  else if k = 3 then .stop (some (entry &&& frameMask,0xFFF))
  else .go (k+1,entry &&& frameMask)

def next (mem : ℕ → ℕ → ℕ) (n : Node) (i : ℕ) : Step Node (Option Leaf) := entryStep n.1 (mem n.2 i)

def labels (virt : ℕ) : List ℕ := [pml4Idx virt,pdptIdx virt,pdIdx virt,ptIdx virt]

def Leaf.at (leaf : Option Leaf) (virt : ℕ) : Option ℕ := leaf.map fun l => l.1 ||| (virt &&& l.2)

/-- The physical address of `virt` under the tables of a root frame. -/
def physAddr (mem : ℕ → ℕ → ℕ) (root virt : ℕ) : Option ℕ :=
  (follow (next mem) (0,root) (labels virt)).bind fun leaf => Leaf.at leaf virt

lemma labels_eq_iff (v w : ℕ) : labels v = labels w ↔ v / 2^12 % 2^36 = w / 2^12 % 2^36 := by
  simp only [labels,pml4Idx,pdptIdx,pdIdx,ptIdx,index_eq,List.cons.injEq,and_true]
  omega

lemma index_lt (virt n : ℕ) : virt >>> n &&& 0x1FF < 512 := by
  rw [index_eq]
  exact Nat.mod_lt _ (by decide)

lemma pml4Idx_lt (virt : ℕ) : pml4Idx virt < 512 := index_lt virt 39
lemma pdptIdx_lt (virt : ℕ) : pdptIdx virt < 512 := index_lt virt 30
lemma pdIdx_lt (virt : ℕ) : pdIdx virt < 512 := index_lt virt 21
lemma ptIdx_lt (virt : ℕ) : ptIdx virt < 512 := index_lt virt 12

variable {m n : Node}

lemma entryStep_go_iff : entryStep k entry = .go m ↔ entry &&& vmmPresent ≠ 0 ∧
    ¬ (k = 2 ∧ entry &&& vmmHuge ≠ 0) ∧ k ≠ 3 ∧ m = (k+1,entry &&& frameMask) := by
  rw [entryStep]
  split
  · simp [*]
  · split
    · simp [*]
    · split
      · simp [*]
      · simp only [Step.go.injEq]
        tauto

lemma entryStep_congr {entry' : ℕ} (k : ℕ) (hfr : entry' &&& frameMask = entry &&& frameMask)
    (hpr : entry' &&& vmmPresent = entry &&& vmmPresent)
    (hhg : entry' &&& vmmHuge = entry &&& vmmHuge) : entryStep k entry' = entryStep k entry := by
  simp [entryStep,hfr,hpr,hhg]

lemma entryStep_absent (k : ℕ) (h : entry &&& vmmPresent = 0) :
    entryStep k entry = .stop none := by
  rw [entryStep,if_pos h]

lemma entryStep_page (h : entry &&& vmmPresent ≠ 0) :
    entryStep 3 entry = .stop (some (entry &&& frameMask,0xFFF)) := by
  simp [entryStep,h]

lemma entryStep_huge (h : entry &&& vmmPresent ≠ 0) (hhg : entry &&& vmmHuge ≠ 0) :
    entryStep 2 entry = .stop (some (entry &&& frameMask,0x1FFFFF)) := by
  simp [entryStep,h,hhg]

lemma entryStep_leaf {l : Leaf} (h : entryStep k entry = .stop (some l)) :
    (k = 2 ∧ l = (entry &&& frameMask,0x1FFFFF)) ∨ (k = 3 ∧ l = (entry &&& frameMask,0xFFF)) := by
  rw [entryStep] at h
  split_ifs at h with hab hhg hls
  · cases h
  · cases h
    exact .inl ⟨hhg.1,rfl⟩
  · cases h
    exact .inr ⟨hls,rfl⟩

lemma entryStep_table (hk : k ≤ 2) (h : entry &&& vmmPresent ≠ 0)
    (hhg : k = 2 → entry &&& vmmHuge = 0) : entryStep k entry = .go (k+1,entry &&& frameMask) :=
  entryStep_go_iff.mpr ⟨h,fun hd => hd.2 (hhg hd.1),by omega,rfl⟩

lemma entryStep_last (entry : ℕ) :
    (∀ m, entryStep 3 entry ≠ .go m) ∧
    ∀ base, entryStep 3 entry ≠ .stop (some (base,0x1FFFFF)) := by
  by_cases h : entry &&& vmmPresent = 0
  · simp [entryStep_absent 3 h]
  · simp [entryStep_page h]

lemma vmmGetPhysLocked_eq (s : Vmm) (virt : ℕ) :
    vmmGetPhysLocked s virt =
      if s.currentPml4Phys = 0 then 0
      else (physAddr s.mem (s.currentPml4Phys &&& frameMask) virt).getD 0 := by
  simp only [vmmGetPhysLocked,physAddr,labels,follow,readPtEntry,and_frameMask_and,next]
  by_cases hzr : s.currentPml4Phys = 0
  · simp [hzr]
  generalize s.mem (s.currentPml4Phys &&& frameMask) (pml4Idx virt) = e₀
  by_cases h₀ : e₀ &&& vmmPresent = 0
  · simp only [h₀,if_true,entryStep_absent _ h₀]
    rfl
  simp only [h₀,if_false,entryStep_table (Nat.zero_le 2) h₀ (fun hk => by cases hk)]
  generalize s.mem (e₀ &&& frameMask) (pdptIdx virt) = e₁
  by_cases h₁ : e₁ &&& vmmPresent = 0
  · simp only [h₁,if_true,entryStep_absent _ h₁]
    rfl
  have hgo₁ : entryStep (0+1) e₁ = .go (2,e₁ &&& frameMask) :=
    entryStep_table one_le_two h₁ fun hk => by simp at hk
  simp only [h₁,if_false,hgo₁]
  generalize s.mem (e₁ &&& frameMask) (pdIdx virt) = e₂
  by_cases h₂ : e₂ &&& vmmPresent = 0
  · simp only [h₂,if_true,entryStep_absent _ h₂]
    rfl
  by_cases hhg : e₂ &&& vmmHuge = 0
  · simp only [h₂,hhg,entryStep_table le_rfl h₂ (fun _ => hhg),ne_eq,not_true_eq_false,if_false]
    generalize s.mem (e₂ &&& frameMask) (ptIdx virt) = e₃
    by_cases h₃ : e₃ &&& vmmPresent = 0
    · simp only [h₃,if_true,entryStep_absent _ h₃]
      rfl
    · simp only [h₃,if_false,entryStep_page h₃]
      rfl
  · simp only [h₂,hhg,ne_eq,not_false_eq_true,if_true,if_false,entryStep_huge h₂ hhg]
    rfl

lemma descend_depth {mem : ℕ → ℕ → ℕ}
    (h : descend (next mem) n q = some m) : m.1 = n.1+q.length := by
  induction q generalizing n with
  | nil =>
    cases h
    rfl
  | cons i q ih =>
    simp only [descend] at h
    cases hnx : next mem n i with
    | stop r =>
      rw [hnx] at h
      cases h
    | go k =>
      rw [hnx] at h
      obtain ⟨-,-,-,rfl⟩ := entryStep_go_iff.mp hnx
      rw [ih h,List.length_cons]
      omega

/-- The frame can be returned by `pmm_alloc`. -/
def FreeFrame (p : Pmm) (frame : ℕ) : Prop :=
  ∃ i < p.totalPages, frame = frameAddr i ∧ get p.bitmap i = false

/-- The tables below the given root frames form a tree: a frame is a table at one place
only, 2 MiB pages are aligned and no frame that can be allocated is a table. -/
structure Tables (mem : ℕ → ℕ → ℕ) (p : Pmm) (roots : Set ℕ) : Prop where
  sized : Sized p
  unshared : Unshared Prod.snd (next mem) {n | n.1 = 0 ∧ n.2 ∈ roots}
  aligned : ∀ r ∈ roots, ∀ q n i base, descend (next mem) (0,r) q = some n →
    next mem n i = .stop (some (base,0x1FFFFF)) → base % 2^21 = 0
  taken : ∀ r ∈ roots, ∀ q n, descend (next mem) (0,r) q = some n → ¬ FreeFrame p n.2

variable {mem mem' : ℕ → ℕ → ℕ} {p p' : Pmm} {roots : Set ℕ}

lemma Tables.node_eq (h : Tables mem p roots) {r r' : ℕ} (hr : r ∈ roots) (hr' : r' ∈ roots)
    {q' : List ℕ} (hn : descend (next mem) (0,r) q = some n)
    (hm : descend (next mem) (0,r') q' = some m) (hfr : n.2 = m.2) : n = m := by
  have hpt : q = q' := h.unshared (0,r) ⟨rfl,hr⟩ (0,r') ⟨rfl,hr'⟩ q q' n m hn hm hfr
  have hn₁ := descend_depth hn
  have hm₁ := descend_depth hm
  refine Prod.ext ?_ hfr
  rw [hn₁,hm₁,hpt]

lemma Tables.frame_ne (h : Tables mem p roots) {r r' : ℕ} (hr : r ∈ roots) (hr' : r' ∈ roots)
    {q' : List ℕ} (hn : descend (next mem) (0,r) q = some n)
    (hm : descend (next mem) (0,r') q' = some m) (hlv : n.1 ≠ m.1) : n.2 ≠ m.2 :=
  fun hfr => hlv (congrArg Prod.fst (h.node_eq hr hr' hn hm hfr))

lemma low_not_free (h : frame < pmmBaseAddr) : ¬ FreeFrame p frame := by
  rintro ⟨i,-,rfl,-⟩
  rw [frameAddr] at h
  omega

lemma Taken.not_free (h : Taken p base 1 p') : ¬ FreeFrame p' (frameAddr base) := by
  rintro ⟨i,-,had,hfr⟩
  have hidx : base = i := by
    rw [← frameIndex_frameAddr base,had,frameIndex_frameAddr]
  rw [h.bits,decide_eq_true (by omega)] at hfr
  cases hfr

lemma Taken.free (h : Taken p base 1 p') : FreeFrame p (frameAddr base) :=
  ⟨base,h.run.inside,rfl,h.run.free base le_rfl (Nat.lt_succ_self base)⟩

/-- What is free later was free before. -/
structure Shrunk (p p' : Pmm) : Prop where
  sized : Sized p'
  total : p'.totalPages = p.totalPages
  free : ∀ frame, FreeFrame p' frame → FreeFrame p frame

lemma Taken.shrunk (h : Taken p base 1 p') (hs : Sized p) : Shrunk p p' := by
  refine ⟨h.sized hs,h.total,?_⟩
  rintro frame ⟨i,hi,rfl,hbit⟩
  rw [h.bits,Bool.or_eq_false_iff] at hbit
  exact ⟨i,h.total ▸ hi,rfl,hbit.2⟩

lemma Shrunk.refl (hs : Sized p) : Shrunk p p := ⟨hs,rfl,fun _ hfr => hfr⟩

lemma Shrunk.trans {p'' : Pmm} (h : Shrunk p p') (h' : Shrunk p' p'') : Shrunk p p'' :=
  ⟨h'.sized,h'.total.trans h.total,fun frame hfr => h.free frame (h'.free frame hfr)⟩

lemma Tables.shrink (h : Tables mem p roots) (hp : Shrunk p p') : Tables mem p' roots :=
  ⟨hp.sized,h.unshared,h.aligned,fun r hr q n hn hfr => h.taken r hr q n hn (hp.free _ hfr)⟩

/-- The frame is not one of the tables. -/
def Outside (mem : ℕ → ℕ → ℕ) (roots : Set ℕ) (frame : ℕ) : Prop :=
  ∀ r ∈ roots, ∀ q n, descend (next mem) (0,r) q = some n → n.2 ≠ frame

lemma Tables.outside (h : Tables mem p roots) (hfr : FreeFrame p frame) :
    Outside mem roots frame :=
  fun r hr q n hn hbad => h.taken r hr q n hn (hbad ▸ hfr)

lemma tables_empty_root {root : ℕ} (hs : Sized p) (hus : ¬ FreeFrame p root)
    (hab : ∀ i, mem root i &&& vmmPresent = 0) : Tables mem p {root} := by
  have hst : ∀ i, next mem (0,root) i = .stop none := fun i => entryStep_absent 0 (hab i)
  have hpt : ∀ r ∈ ({root} : Set ℕ), ∀ q n, descend (next mem) (0,r) q = some n →
      q = [] ∧ n = (0,root) := by
    rintro r rfl q n hn
    cases q with
    | nil => exact ⟨rfl,(Option.some.inj hn).symm⟩
    | cons i q =>
      simp only [descend,hst] at hn
      cases hn
  refine ⟨hs,?_,?_,?_⟩
  · rintro ⟨k,r⟩ ⟨rfl,hr⟩ ⟨k',r'⟩ ⟨rfl,hr'⟩ q q' m n hm hn -
    rw [(hpt r hr q m hm).1,(hpt r' hr' q' n hn).1]
  · intro r hr q n i base hn hbad
    rw [(hpt r hr q n hn).2,hst] at hbad
    cases hbad
  · intro r hr q n hn
    rw [(hpt r hr q n hn).2]
    exact hus

/-- An entry of table `n` that leads to no table is replaced by one to a new table without
tables below it. -/
structure NewTable (mem mem' : ℕ → ℕ → ℕ) (n : Node) (i frame : ℕ) : Prop where
  words : ∀ f l, f ≠ frame → f ≠ n.2 ∨ l ≠ i → mem' f l = mem f l
  stopped : ∀ k, next mem n i ≠ .go k
  linked : next mem' n i = .go (n.1+1,frame)
  leaf : ∀ l k, next mem' (n.1+1,frame) l ≠ .go k
  aligned : ∀ l base, next mem' (n.1+1,frame) l = .stop (some (base,0x1FFFFF)) → base % 2^21 = 0

section NewTable

variable {r₀ r i frame : ℕ} {n : Node} {q₀ : List ℕ}

lemma Tables.editedAt (htab : Tables mem p roots) (hr₀ : r₀ ∈ roots)
    (hn : descend (next mem) (0,r₀) q₀ = some n) (hr : r ∈ roots)
    (hwr : ∀ q m l, descend (next mem) (0,r) q = some m → m.2 ≠ n.2 ∨ l ≠ i →
      mem' m.2 l = mem m.2 l) : EditedAt (next mem) (next mem') (0,r) n i := by
  intro q m l hm hne
  rw [next,next,hwr q m l hm (hne.imp_left fun hne hbad => hne (htab.node_eq hr hr₀ hm hn hbad))]

lemma NewTable.link (h : NewTable mem mem' n i frame) (htab : Tables mem p roots)
    (hr₀ : r₀ ∈ roots) (hn : descend (next mem) (0,r₀) q₀ = some n) (hout : Outside mem roots frame)
    (hr : r ∈ roots) : Linked (next mem) (next mem') (0,r) n i (n.1+1,frame) :=
  ⟨htab.editedAt hr₀ hn hr fun q m l hm => h.words m.2 l (hout r hr q m hm),h.stopped,h.linked,
    h.leaf⟩

lemma NewTable.tables (h : NewTable mem mem' n i frame) (htab : Tables mem p roots)
    (hr₀ : r₀ ∈ roots) (hn : descend (next mem) (0,r₀) q₀ = some n) (hout : Outside mem roots frame)
    (hp : Shrunk p p') (hus : ¬ FreeFrame p' frame) : Tables mem' p' roots := by
  have hln := fun r (hr : r ∈ roots) => h.link htab hr₀ hn hout hr
  refine ⟨hp.sized,?_,?_,?_⟩
  · have hrt : ∀ x ∈ {x : Node | x.1 = 0 ∧ x.2 ∈ roots},
        Linked (next mem) (next mem') x n i (n.1+1,frame) := by
      rintro ⟨k,r⟩ ⟨rfl,hr⟩
      exact hln r hr
    refine htab.unshared.link hrt ?_
    rintro ⟨k,r⟩ ⟨rfl,hr⟩ q m hm
    exact hout r hr q m hm
  · intro r hr q m l b hm hst
    rcases (hln r hr).descend_cases hm with hm | ⟨rfl,-⟩
    · by_cases hne : m ≠ n ∨ l ≠ i
      · rw [(hln r hr).edited q m l hm hne] at hst
        exact htab.aligned r hr q m l b hm hst
      · push Not at hne
        obtain ⟨rfl,rfl⟩ := hne
        rw [h.linked] at hst
        cases hst
    · exact h.aligned l b hst
  · intro r hr q m hm hfr
    rcases (hln r hr).descend_cases hm with hm | ⟨rfl,-⟩
    · exact htab.taken r hr q m hm (hp.free _ hfr)
    · exact hus hfr

/-- No address is translated differently if the new table stands for what the entry was. -/
theorem NewTable.translate_eq (h : NewTable mem mem' n i frame)
    (hln : Linked (next mem) (next mem') (0,r) n i (n.1+1,frame)) (hdp : n.1 ≤ 2)
    (hsm : ∀ v q l rest, labels v = q ++ i :: l :: rest → q.length = n.1 →
      ∃ a b, next mem n i = .stop a ∧ next mem' (n.1+1,frame) l = .stop b ∧
        Leaf.at b v = Leaf.at a v) (v : ℕ) : physAddr mem' r v = physAddr mem r v := by
  by_cases huse : Uses (next mem) (0,r) n i (labels v)
  · obtain ⟨q,rest,hq,hd⟩ := huse
    have hlen : q.length = n.1 := by
      have hn₁ := descend_depth hd
      omega
    cases rest with
    | nil =>
      have hfr : (labels v).length = 4 := rfl
      rw [hq,List.length_append,List.length_singleton] at hfr
      omega
    | cons l rest =>
      obtain ⟨a,b,ha,hb,hab⟩ := hsm v q l rest hq hlen
      rw [physAddr,physAddr,hq,follow_append hd,follow_append (hln.descend_old hd)]
      simp [follow,ha,h.linked,hb,hab]
  · rw [physAddr,hln.edited.follow_eq huse,physAddr]

end NewTable

@[simp] lemma setWord_same (mem : ℕ → ℕ → ℕ) (f i v : ℕ) : setWord mem f i v f i = v := by
  simp [setWord]

lemma setWord_other (mem : ℕ → ℕ → ℕ) {i' : ℕ} (v : ℕ) (h : f' ≠ f ∨ i' ≠ i) :
    setWord mem f i v f' i' = mem f' i' := by
  by_cases hf : f' = f
  · subst hf
    have hi : i' ≠ i := h.resolve_left fun hne => hne rfl
    simp [setWord,hi]
  · simp [setWord,hf]

lemma setWord_frame (mem : ℕ → ℕ → ℕ) (i v : ℕ) (h : f' ≠ f) : setWord mem f i v f' = mem f' :=
  update_of_ne h _ _

lemma setWord_comm (mem : ℕ → ℕ → ℕ) (i i' v v' : ℕ) (h : f ≠ f') :
    setWord (setWord mem f i v) f' i' v' = setWord (setWord mem f' i' v') f i v := by
  simp only [setWord,update_of_ne h,update_of_ne h.symm]
  exact Function.update_comm h _ _ mem

lemma tableEntry_step {page : ℕ} (flags : ℕ) (hk : k ≤ 2) (hpage : page &&& frameMask = page) :
    entryStep k (tableEntry page flags) = .go (k+1,page) := by
  rw [entryStep_table hk (tableEntry_present page flags) fun _ => tableEntry_huge page flags,
    tableEntry_frame,hpage]

lemma newTable_write {content : ℕ → ℕ} (hne : n.2 ≠ frame) (hst : ∀ k, next mem n i ≠ .go k)
    (hln : entryStep n.1 entry = .go (n.1+1,frame))
    (hlf : ∀ l k, entryStep (n.1+1) (content l) ≠ .go k) (hal : ∀ l base, entryStep (n.1+1)
    (content l) = .stop (some (base,0x1FFFFF)) → base % 2^21 = 0) :
    NewTable mem (setWord (update mem frame content) n.2 i entry) n i frame := by
  have hcn : ∀ l, next (setWord (update mem frame content) n.2 i entry)
      (n.1+1,frame) l = entryStep (n.1+1) (content l) := by
    intro l
    rw [next,setWord_other _ _ (.inl hne.symm),Function.update_self]
  refine ⟨?_,hst,?_,?_,?_⟩
  · intro f l hf hwr
    rw [setWord_other _ _ hwr,update_of_ne hf]
  · rw [next,setWord_same,hln]
  · intro l k
    rw [hcn]
    exact hlf l k
  · intro l base
    rw [hcn]
    exact hal l base

/-- An entry that leads to no table is written, again with one that leads to none. -/
structure LeafSet (mem mem' : ℕ → ℕ → ℕ) (n : Node) (i : ℕ) : Prop where
  words : ∀ f l, f ≠ n.2 ∨ l ≠ i → mem' f l = mem f l
  before : ∀ k, next mem n i ≠ .go k
  after : ∀ k, next mem' n i ≠ .go k
  small : ∀ base, next mem' n i ≠ .stop (some (base,0x1FFFFF))

section LeafSet

variable {r₀ r i frame : ℕ} {n : Node} {q₀ : List ℕ}

lemma LeafSet.edited (h : LeafSet mem mem' n i) (htab : Tables mem p roots) (hr₀ : r₀ ∈ roots)
    (hn : descend (next mem) (0,r₀) q₀ = some n) (hr : r ∈ roots) :
    EditedAt (next mem) (next mem') (0,r) n i :=
  htab.editedAt hr₀ hn hr fun _ m l _ => h.words m.2 l

lemma LeafSet.descend_eq (h : LeafSet mem mem' n i) (htab : Tables mem p roots) (hr₀ : r₀ ∈ roots)
    (hn : descend (next mem) (0,r₀) q₀ = some n) (hr : r ∈ roots) (q : List ℕ) :
    descend (next mem') (0,r) q = descend (next mem) (0,r) q := by
  refine descend_congr ?_ q
  intro q m l k hm
  by_cases hne : m ≠ n ∨ l ≠ i
  · rw [h.edited htab hr₀ hn hr q m l hm hne]
  · push Not at hne
    obtain ⟨rfl,rfl⟩ := hne
    exact ⟨fun hgo => (h.after k hgo).elim,fun hgo => (h.before k hgo).elim⟩

lemma leafSet_page : LeafSet mem (setWord mem frame i entry) (3,frame) i := by
  refine ⟨fun f l hwr => setWord_other _ _ hwr,?_,?_,?_⟩
  · exact (entryStep_last _).1
  · exact (entryStep_last _).1
  · exact (entryStep_last _).2

lemma translate_setOther (htab : Tables mem p roots) (hr₀ : r₀ ∈ roots)
    (hn : descend (next mem) (0,r₀) q₀ = some (3,frame)) (hr : r ∈ roots) {v : ℕ}
    (huse : ¬(labels v = q₀ ++ [i] ∧ descend (next mem) (0,r) q₀ = some (3,frame))) :
    physAddr (setWord mem frame i entry) r v = physAddr mem r v := by
  rw [physAddr,(leafSet_page.edited htab hr₀ hn hr).follow_eq,physAddr]
  rintro ⟨q,rest,hq,hd⟩
  have hpt : q = q₀ :=
    htab.unshared (0,r) ⟨rfl,hr⟩ (0,r₀) ⟨rfl,hr₀⟩ q q₀ (3,frame) (3,frame) hd hn rfl
  obtain rfl := hpt
  have hlen := descend_depth hd
  have hfr : (labels v).length = 4 := rfl
  rw [hq,List.length_append,List.length_cons] at hfr
  have hrs : rest = [] := List.length_eq_zero_iff.mp (by simp only at hlen; omega)
  exact huse ⟨by rw [hq,hrs],hd⟩

lemma translate_setPage (hen : entry &&& vmmPresent ≠ 0)
    (htab : Tables mem p roots) (hr₀ : r₀ ∈ roots)
    (hn : descend (next mem) (0,r₀) q₀ = some (3,frame)) (hr : r ∈ roots) (v : ℕ) :
    physAddr (setWord mem frame i entry) r v =
      if labels v = q₀ ++ [i] ∧ descend (next mem) (0,r) q₀ = some (3,frame) then
        some ((entry &&& frameMask) ||| (v &&& 0xFFF))
      else physAddr mem r v := by
  split_ifs with huse
  · have hd : descend (next (setWord mem frame i entry)) (0,r) q₀ = some (3,frame) := by
      rw [leafSet_page.descend_eq htab hr₀ hn hr,huse.2]
    rw [physAddr,huse.1,follow_append hd]
    simp only [follow,next,setWord_same,entryStep_page hen,Option.bind_some]
    rfl
  · exact translate_setOther htab hr₀ hn hr huse

end LeafSet

end HarlinKernel.PageTable
