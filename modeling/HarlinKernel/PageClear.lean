import HarlinKernel.AddressSpace

/-! Where `clear_page_phys` clears. It stores at the virtual address that has the number of the
frame, so that its stores go through the current page tables; only where these map the page to
itself they reach the frame. `vmm_map` is given here once more with these stores, over any way to
read and write the entries of tables. -/
namespace HarlinKernel.PageClear

open Bitmap PageAllocator LabelledWalk PageTable AddressSpace
open Function (update update_self update_of_ne)
open Option (bind_some map_some bind_eq_bind)

/-- A load of 8 bytes, none if it faults. -/
def loadVirt (s : Vmm) (va : ℕ) : Option ℕ :=
  (physAddr s.mem (s.currentPml4Phys &&& frameMask) va).map fun phys =>
    s.mem (phys &&& frameMask) (phys % 4096 / 8)

def storeVirt (s : Vmm) (va value : ℕ) : Option Vmm :=
  (physAddr s.mem (s.currentPml4Phys &&& frameMask) va).map fun phys =>
    { s with mem := setWord s.mem (phys &&& frameMask) (phys % 4096 / 8) value }

/-- The first `n` rounds of the loop of `clear_page_phys`. -/
def clearWords (s : Vmm) (phys : ℕ) : ℕ → Option Vmm
  | 0 => some s
  | n+1 => (clearWords s phys n).bind fun s => storeVirt s (phys+n*8) 0

def clearPagePhys (s : Vmm) (phys : ℕ) : Option Vmm := clearWords s phys 512

/-- How the entries of tables are read and written; none if an access faults. -/
structure Access where
  readPtEntry : Vmm → ℕ → ℕ → Option (ℕ × Vmm)
  writePtEntry : Vmm → ℕ → ℕ → ℕ → Option Vmm

namespace Access

variable (a : Access)

def getOrAllocTable (s : Vmm) (table idx flags : ℕ) : Option (ℕ × Vmm) := do
  let (entry,s) ← a.readPtEntry s table idx
  if entry &&& vmmPresent ≠ 0 then
    let newEntry := userEntry entry flags
    if newEntry ≠ entry then
      let s ← a.writePtEntry s table idx newEntry
      return (entry &&& frameMask,s)
    else return (entry &&& frameMask,s)
  else
    let r := allocPage s
    if r.1 = 0 then return (0,r.2)
    else
      let s ← clearPagePhys r.2 r.1
      let s ← a.writePtEntry s table idx
        (r.1 ||| vmmPresent ||| vmmWritable ||| (flags &&& vmmUser))
      return (r.1,s)

def fillSplit (s : Vmm) (pt old : ℕ) : ℕ → Option Vmm
  | 0 => some s
  | n+1 => do
    let s ← fillSplit s pt old n
    a.writePtEntry s pt n (splitEntry old n)

def noteReplaced (s : Vmm) (pt idx : ℕ) : Option Vmm := do
  let (oldPte,s) ← a.readPtEntry s pt idx
  if oldPte &&& vmmPresent ≠ 0 then return { s with lastReplacedPhys := oldPte &&& frameMask }
  else return s

def mapInPt (s : Vmm) (pt virt phys flags : ℕ) : Option (ℤ × Vmm) := do
  let s ← a.noteReplaced s pt (ptIdx virt)
  let s ← a.writePtEntry s pt (ptIdx virt) (pageEntry phys flags)
  return (0,s)

def mapInPd (s : Vmm) (pd virt phys flags : ℕ) : Option (ℤ × Vmm) := do
  let (oldEntry,s) ← a.readPtEntry s pd (pdIdx virt)
  if oldEntry &&& vmmPresent ≠ 0 then
    if oldEntry &&& vmmHuge ≠ 0 then
      let r := allocPage s
      if r.1 = 0 then return (-1,r.2)
      else
        let s ← clearPagePhys r.2 r.1
        let s ← a.fillSplit s r.1 oldEntry 512
        let s ← a.noteReplaced s r.1 (ptIdx virt)
        let s ← a.writePtEntry s r.1 (ptIdx virt) (pageEntry phys flags)
        let s ← a.writePtEntry s pd (pdIdx virt) (tableEntry r.1 flags)
        return (0,s)
    else a.mapInPt s (oldEntry &&& frameMask) virt phys flags
  else
    let r := allocPage s
    if r.1 = 0 then return (-1,r.2)
    else
      let s ← clearPagePhys r.2 r.1
      let s ← a.writePtEntry s pd (pdIdx virt) (tableEntry r.1 flags)
      a.mapInPt s r.1 virt phys flags

def vmmMap (s : Vmm) (virt phys flags : ℕ) : Option (ℤ × Vmm) :=
  if flags &&& vmmUser ≠ 0 ∧ (virt < userAddrStart ∨ userAddrEnd ≤ virt) then some (-1,s)
  else do
    let (pdpt,s) ← a.getOrAllocTable s s.currentPml4Phys (pml4Idx virt) flags
    if pdpt = 0 then return (-1,s)
    else
      let (pd,s) ← a.getOrAllocTable s pdpt (pdptIdx virt) flags
      if pd = 0 then return (-1,s)
      else a.mapInPd { s with lastReplacedPhys := 0 } pd virt phys flags

end Access

/-- The words of the named frame are read and written. -/
def direct : Access where
  readPtEntry s pt idx := some (readPtEntry s pt idx,s)
  writePtEntry s pt idx value := some (writePtEntry s pt idx value)

/-- `vmm_map` where `read_pt_entry` and `write_pt_entry` access the named frame. -/
def vmmMap (s : Vmm) (virt phys flags : ℕ) : Option (ℤ × Vmm) := direct.vmmMap s virt phys flags

/-- A frame has 512 words. -/
def Words (s : Vmm) : Prop := ∀ f l, 512 ≤ l → s.mem f l = 0

/-- The page that has the number of the frame is mapped to the frame. -/
def Identity (s : Vmm) (frame : ℕ) : Prop :=
  physAddr s.mem (s.currentPml4Phys &&& frameMask) frame = some frame

/-- The tables over the page of `virt` that do not exist. -/
def missingTables (s : Vmm) (virt : ℕ) : List (List ℕ) :=
  [[pml4Idx virt],[pml4Idx virt,pdptIdx virt],tablePath virt].filter fun q =>
    descend (next s.mem) (0,s.currentPml4Phys &&& frameMask) q = none

/-- Each frame that `pmm_alloc` has for these tables is found at its own number. -/
def InPlace (s : Vmm) (virt : ℕ) : Prop :=
  ∀ k < (missingTables s virt).length, (pmmAlloc (after k s.pmm)).1 ≠ 0 →
    Identity s (pmmAlloc (after k s.pmm)).1

instance (s : Vmm) (frame : ℕ) : Decidable (Identity s frame) :=
  inferInstanceAs (Decidable (_ = _))

instance (s : Vmm) (virt : ℕ) : Decidable (InPlace s virt) :=
  inferInstanceAs (Decidable (∀ k < _, _ → _))

variable {s t u : Vmm} {roots : Set ℕ} {mem : ℕ → ℕ → ℕ}
  {root v x k virt phys table idx flags pd i f frame : ℕ} {q : List ℕ} {n : Node}

section Clear

lemma offset_or {v m k : ℕ} (hv : v % 2^12 = 0) (hk : k < 2^12)
    (hm : m = 2^12-1 ∨ m = 2^21-1) : (v+k) &&& m = (v &&& m) ||| k := by
  have hor := aligned_or_mod hv k
  rw [Nat.mod_eq_of_lt hk] at hor
  have hkm : k &&& m = k := by
    rcases hm with rfl | rfl <;> rw [Nat.and_two_pow_sub_one_eq_mod] <;> omega
  rw [← hor,Nat.and_or_distrib_right,hkm]

/-- The bytes of a page follow one another in its frame. -/
theorem physAddr_offset (h : physAddr mem root v = some x) (hv : v % 2^12 = 0) (hk : k < 2^12) :
    physAddr mem root (v+k) = some (x ||| k) := by
  have hlb : labels (v+k) = labels v := by
    rw [labels_eq_iff]
    omega
  rw [physAddr,Option.bind_eq_some_iff] at h
  obtain ⟨leaf,hfl,hat⟩ := h
  obtain ⟨l,rfl,rfl⟩ := Option.map_eq_some_iff.mp hat
  obtain ⟨q,i,rest,m,-,-,hst⟩ := follow_some hfl
  have hms : l.2 = 2^12-1 ∨ l.2 = 2^21-1 := by
    rcases entryStep_leaf hst with ⟨-,rfl⟩ | ⟨-,rfl⟩
    · exact .inr rfl
    · exact .inl rfl
  rw [physAddr,hlb,hfl,bind_some,Leaf.at,map_some,offset_or hv hk hms,Nat.or_assoc]

lemma frame_aligned (h : x &&& frameMask = x) : x % 2^12 = 0 := by
  rw [← h,← Nat.and_two_pow_sub_one_eq_mod,Nat.and_assoc]
  exact Nat.and_zero x

/-- As long as they do not change tables, the stores go to the frame that the page of the address
is mapped to. -/
theorem clearWords_eq (htab : Tables s.mem s.pmm roots)
    (hrt : rootFrame s ∈ roots) (hout : Outside s.mem roots x)
    (hx : x &&& frameMask = x) (hv : v % 2^12 = 0)
    (hph : physAddr s.mem (rootFrame s) v = some x) (hn : k ≤ 512) :
    clearWords s v k =
      some { s with mem := update s.mem x fun l => if l < k then 0 else s.mem x l } := by
  induction k with
  | zero => simp [clearWords]
  | succ k ih =>
    have hkp := kept_frame
      (t := { s with mem := update s.mem x fun l => if l < k then 0 else s.mem x l }) htab hout
      (fun f hf => update_of_ne hf _ _) (Shrunk.refl htab.sized) ⟨rfl,rfl⟩
    obtain ⟨hfr,hwr⟩ := word_of_frame hx (show k < 512 by omega)
    rw [clearWords,ih (by omega),bind_some,storeVirt,hkp.same _ hrt,
      physAddr_offset hph hv (by omega),map_some,hfr,hwr]
    simp only [setWord,update_self,Function.update_idem]
    congr 3
    funext l
    by_cases hl : l = k
    · simp [hl]
    · have hlt : l < k+1 ↔ l < k := by omega
      simp only [update_of_ne hl,hlt]

lemma clearPagePhys_eq (htab : Tables s.mem s.pmm roots)
    (hrt : rootFrame s ∈ roots) (hwd : Words s) (hout : Outside s.mem roots x)
    (hx : x &&& frameMask = x) (hv : v % 2^12 = 0)
    (hph : physAddr s.mem (rootFrame s) v = some x) :
    clearPagePhys s v = some (PageTable.clearPagePhys s x) := by
  rw [clearPagePhys,clearWords_eq htab hrt hout hx hv hph le_rfl,PageTable.clearPagePhys]
  congr 3
  funext l
  split_ifs with hl
  · rfl
  · exact hwd x l (by omega)

lemma clear_allocated (htab : Tables s.mem s.pmm roots)
    (hrt : rootFrame s ∈ roots) (hwd : Words s) (h : (allocPage s).1 ≠ 0)
    (hid : Identity s (allocPage s).1) : clearPagePhys (allocPage s).2 (allocPage s).1 =
      some (PageTable.clearPagePhys (allocPage s).2 (allocPage s).1) := by
  obtain ⟨base,hbs,htk⟩ := (allocPage_spec htab.sized).resolve_left fun hfl => h (by rw [hfl])
  have hfr := Taken.free htk
  rw [hbs] at hid ⊢
  have hx := hfr.aligned htab.sized
  have htab' : Tables (allocPage s).2.mem (allocPage s).2.pmm roots :=
    (kept_frame (t := (allocPage s).2) htab (htab.outside hfr) (fun _ _ => rfl)
      (allocPage_pmm htab.sized) ⟨rfl,rfl⟩).tables
  exact clearPagePhys_eq htab' hrt hwd (htab.outside hfr) hx (frame_aligned hx) hid

end Clear

section Steps

lemma direct_getOrAllocTable
    (h : s.mem (table &&& frameMask) idx &&& vmmPresent = 0 → (allocPage s).1 ≠ 0 →
      clearPagePhys (allocPage s).2 (allocPage s).1 =
        some (PageTable.clearPagePhys (allocPage s).2 (allocPage s).1)) (flags : ℕ) :
    direct.getOrAllocTable s table idx flags =
      some (PageTable.getOrAllocTable s table idx flags) := by
  simp only [Access.getOrAllocTable,PageTable.getOrAllocTable,direct,bind_eq_bind,bind_some]
  by_cases hpr : readPtEntry s table idx &&& vmmPresent = 0
  · by_cases hzr : (allocPage s).1 = 0
    · simp [hpr,hzr]
    · simp [hpr,hzr,h hpr hzr]
  · by_cases hsm : userEntry (readPtEntry s table idx) flags = readPtEntry s table idx
    · simp [hpr,hsm]
    · simp [hpr,hsm]

lemma direct_mapInPt (s : Vmm) (pt virt phys flags : ℕ) :
    direct.mapInPt s pt virt phys flags = some (PageTable.mapInPt s pt virt phys flags) := by
  simp only [Access.mapInPt,PageTable.mapInPt,Access.noteReplaced,PageTable.noteReplaced,direct,
    bind_eq_bind,bind_some]
  split_ifs <;> rfl

lemma direct_fillSplit (s : Vmm) (pt old n : ℕ) :
    direct.fillSplit s pt old n = some (PageTable.fillSplit s pt old n) := by
  induction n with
  | zero => rfl
  | succ n ih =>
    rw [Access.fillSplit,ih]
    rfl

lemma direct_mapInPd_absent (hab : readPtEntry s pd (pdIdx virt) &&& vmmPresent = 0)
    (hne : (allocPage s).1 ≠ 0) (hcl : clearPagePhys (allocPage s).2 (allocPage s).1 = some u)
    (phys flags : ℕ) :
    direct.mapInPd s pd virt phys flags =
      some (PageTable.mapInPt (writePtEntry u pd (pdIdx virt) (tableEntry (allocPage s).1 flags))
        (allocPage s).1 virt phys flags) := by
  rw [← direct_mapInPt]
  simp [Access.mapInPd,direct,hab,hne,hcl]

lemma direct_mapInPd
    (h : (s.mem (pd &&& frameMask) (pdIdx virt) &&& vmmPresent ≠ 0 →
        s.mem (pd &&& frameMask) (pdIdx virt) &&& vmmHuge ≠ 0) → (allocPage s).1 ≠ 0 →
      clearPagePhys (allocPage s).2 (allocPage s).1 =
        some (PageTable.clearPagePhys (allocPage s).2 (allocPage s).1)) (phys flags : ℕ) :
    direct.mapInPd s pd virt phys flags = some (PageTable.mapInPd s pd virt phys flags) := by
  have hrd : direct.readPtEntry s pd (pdIdx virt) = some (readPtEntry s pd (pdIdx virt),s) := rfl
  have hwr : ∀ s a b c, direct.writePtEntry s a b c = some (writePtEntry s a b c) :=
    fun _ _ _ _ => rfl
  simp only [Access.mapInPd,PageTable.mapInPd,hrd,bind_eq_bind,bind_some]
  by_cases hpr : readPtEntry s pd (pdIdx virt) &&& vmmPresent = 0
  · by_cases hzr : (allocPage s).1 = 0
    · simp [hpr,hzr]
    · have hcl := h (fun hbad => absurd hpr hbad) hzr
      have heq := direct_mapInPd_absent hpr hzr hcl phys flags
      simpa [Access.mapInPd,hrd,hpr,hzr] using heq
  by_cases hhg : readPtEntry s pd (pdIdx virt) &&& vmmHuge = 0
  · simp [hpr,hhg,direct_mapInPt]
  by_cases hzr : (allocPage s).1 = 0
  · simp [hpr,hhg,hzr]
  have hnt : ∀ s pt i, direct.noteReplaced s pt i = some (PageTable.noteReplaced s pt i) := by
    intro s pt i
    simp only [Access.noteReplaced,PageTable.noteReplaced,direct,bind_eq_bind,bind_some]
    split_ifs <;> rfl
  simp [hpr,hhg,hzr,h (fun _ => hhg) hzr,direct_fillSplit,hnt,hwr]

lemma vmmMap_present (pdpt pd : ℕ) (hus : flags &&& vmmUser = 0)
    (h₁ : readPtEntry s s.currentPml4Phys (pml4Idx virt) = pdpt)
    (hpr₁ : pdpt &&& vmmPresent ≠ 0 ∧ pdpt &&& frameMask ≠ 0)
    (h₂ : readPtEntry s (pdpt &&& frameMask) (pdptIdx virt) = pd)
    (hpr₂ : pd &&& vmmPresent ≠ 0 ∧ pd &&& frameMask ≠ 0) (phys : ℕ) :
    vmmMap s virt phys flags =
      direct.mapInPd { s with lastReplacedPhys := 0 } (pd &&& frameMask) virt phys flags := by
  have hgo : ∀ table idx, readPtEntry s table idx &&& vmmPresent ≠ 0 →
      direct.getOrAllocTable s table idx flags =
        some (readPtEntry s table idx &&& frameMask,s) := by
    intro table idx hpr
    rw [direct_getOrAllocTable fun hab => absurd hab hpr,PageTable.getOrAllocTable]
    simp [hpr,userEntry,hus]
  subst h₁ h₂
  simp [vmmMap,Access.vmmMap,hus,hgo _ _ hpr₁.1,hgo _ _ hpr₂.1,hpr₁.2,hpr₂.2]

end Steps

section Tables

lemma Words.setWord (h : Words s) (hi : i < 512) (frame value : ℕ) :
    Words { s with mem := setWord s.mem frame i value } := by
  intro f l hl
  rw [← h f l hl]
  exact setWord_other _ _ (.inr (by omega))

lemma Words.linkTable (h : Words s) (hi : i < 512) {content : ℕ → ℕ}
    (hct : ∀ l, 512 ≤ l → content l = 0) (base table flags : ℕ) :
    Words (linkTable s base content table i flags) := by
  refine Words.setWord (s := { s with mem := update s.mem (frameAddr base) content,pmm := _ })
    ?_ hi _ _
  intro f l hl
  by_cases hf : f = frameAddr base
  · simp [hf,hct l hl]
  · simp [hf,h f l hl]

lemma getOrAllocTable_words (h : Words s) (hs : Sized s.pmm) (hi : idx < 512) (table flags : ℕ) :
    Words (getOrAllocTable s table idx flags).2 := by
  rcases getOrAllocTable_cases hs rfl idx flags with
    ⟨-,heq⟩ | ⟨-,heq | ⟨base,-,heq⟩⟩ <;> rw [heq]
  · exact h.setWord hi _ _
  · exact h
  · exact h.linkTable hi (fun _ _ => rfl) _ _ _

lemma mapInPd_words (h : Words s) (hs : Sized s.pmm) (hus : ¬ FreeFrame s.pmm (pd &&& frameMask))
    (virt phys flags : ℕ) : Words (mapInPd s pd virt phys flags).2 := by
  have hpt : ∀ u pt, Words u → Words (mapInPt u pt virt phys flags).2 := by
    intro u pt hu
    rw [Words,mapInPt_mem]
    exact hu.setWord (ptIdx_lt virt) _ _
  rcases mapInPd_cases hs rfl hus rfl phys flags with
    ⟨-,-,heq⟩ | ⟨-,heq | ⟨base,-,heq⟩⟩ <;> rw [heq]
  · exact hpt _ _ h
  · exact h
  · refine hpt _ _ (h.linkTable (pdIdx_lt virt) (fun l hl => if_neg ?_) _ _ _)
    omega

/-- What a step towards the page of `virt` leaves for the next ones. -/
lemma InPlace.step (h : InPlace s virt) (hcr : t.currentPml4Phys = s.currentPml4Phys)
    (hsm : ∀ v, physAddr t.mem (rootFrame s) v =
      physAddr s.mem (rootFrame s) v) (m : ℕ) (hpmm : t.pmm = after m s.pmm)
    (hms : (missingTables t virt).length+m ≤ (missingTables s virt).length) : InPlace t virt := by
  intro k hk hne
  rw [hpmm,after_add] at hne ⊢
  rw [Identity,hcr,hsm]
  exact h (k+m) (by omega) hne

lemma missing_le (hcr : t.currentPml4Phys = s.currentPml4Phys)
    (hold : ∀ q n, descend (next s.mem) (0,rootFrame s) q = some n →
      descend (next t.mem) (0,rootFrame s) q = some n) (virt : ℕ) :
    (missingTables t virt).Sublist (missingTables s virt) := by
  refine List.monotone_filter_right _ fun q hq => ?_
  rw [decide_eq_true_iff] at hq ⊢
  rw [hcr] at hq
  by_contra hne
  obtain ⟨n,hn⟩ := Option.ne_none_iff_exists'.mp hne
  rw [hold q n hn] at hq
  cases hq

lemma missing_lt (hsb : (missingTables t virt).Sublist (missingTables s virt))
    (hq : q ∈ missingTables s virt)
    (hn : descend (next t.mem) (0,rootFrame t) q = some n) :
    (missingTables t virt).length+1 ≤ (missingTables s virt).length := by
  by_contra hlt
  have heq := hsb.eq_of_length_le (by omega)
  rw [← heq,missingTables,List.mem_filter,hn] at hq
  simp at hq

lemma mem_missingTables {leaf : Option Leaf} (virt : ℕ)
    (hn : descend (next s.mem) (0,rootFrame s) q = some n)
    (hst : next s.mem n i = .stop leaf)
    (hq : q ++ [i] ∈ [[pml4Idx virt],[pml4Idx virt,pdptIdx virt],tablePath virt]) :
    q ++ [i] ∈ missingTables s virt := by
  rw [missingTables,List.mem_filter,decide_eq_true_iff]
  refine ⟨hq,Option.eq_none_iff_forall_ne_some.mpr fun m hm => ?_⟩
  obtain ⟨k,hk,hgo⟩ := descend_snoc.mp hm
  rw [hn] at hk
  cases hk
  rw [hst] at hgo
  cases hgo

/-- A level of the walk of `vmm_map`: the table at the path `q` is looked up at the index `i`. -/
lemma InPlace.getOrAllocTable (h : InPlace s virt) (htab : Tables s.mem s.pmm roots)
    (hrt : rootFrame s ∈ roots)
    (hn : descend (next s.mem) (0,rootFrame s) q = some n) (hdp : n.1 ≤ 1)
    (hfr : table &&& frameMask = n.2)
    (hq : q ++ [i] ∈ [[pml4Idx virt],[pml4Idx virt,pdptIdx virt],tablePath virt]) (flags : ℕ) :
    InPlace (PageTable.getOrAllocTable s table i flags).2 virt ∧
      (s.mem (table &&& frameMask) i &&& vmmPresent = 0 → (allocPage s).1 ≠ 0 →
        Identity s (allocPage s).1) := by
  have hkp := (getOrAllocTable_spec (i := i) flags htab hrt hn hdp hfr).1
  have hsb := missing_le hkp.current (hkp.old _ hrt) virt
  have hmem : s.mem n.2 i &&& vmmPresent = 0 → q ++ [i] ∈ missingTables s virt :=
    fun hab => mem_missingTables virt hn (entryStep_absent n.1 hab) hq
  refine ⟨?_,fun hab hne => ?_⟩
  · rcases getOrAllocTable_cases htab.sized hfr i flags with
      ⟨-,heq⟩ | ⟨hab,heq | ⟨base,hbs,heq⟩⟩
    · exact h.step hkp.current (hkp.same _ hrt) 0 (by rw [heq]; rfl) hsb.length_le
    · rw [heq]
      exact h
    · have hln := (link_empty flags htab hrt hn (by omega) hab hbs).2
      refine h.step hkp.current (hkp.same _ hrt) 1 (by rw [heq]; rfl) ?_
      refine missing_lt hsb (hmem hab) (n := (n.1+1,frameAddr base)) ?_
      rw [hkp.rootFrame_eq,heq]
      exact hln
  · rw [hfr] at hab
    exact h 0 (List.length_pos_of_mem (hmem hab)) hne

lemma InPlace.mapInPd (h : InPlace s virt)
    (hn : descend (next s.mem) (0,rootFrame s)
      [pml4Idx virt,pdptIdx virt] = some (2,pd))
    (hab : s.mem pd (pdIdx virt) &&& vmmPresent ≠ 0 → s.mem pd (pdIdx virt) &&& vmmHuge ≠ 0)
    (hne : (allocPage s).1 ≠ 0) : Identity s (allocPage s).1 := by
  have hst : ∃ leaf, next s.mem (2,pd) (pdIdx virt) = .stop leaf := by
    by_cases hpr : s.mem pd (pdIdx virt) &&& vmmPresent = 0
    · exact ⟨_,entryStep_absent 2 hpr⟩
    · exact ⟨_,entryStep_huge hpr (hab hpr)⟩
  obtain ⟨leaf,hst⟩ := hst
  have hmem := mem_missingTables virt hn hst (by simp [tablePath])
  exact h 0 (List.length_pos_of_mem hmem) hne

/-- The rule for `vmm_map` with other accesses: a relation to the states of plain ones that each
level of the walk keeps is kept. -/
theorem Access.vmmMap_rule (a : Access) (R : Vmm → Vmm → Prop) (phys flags : ℕ)
    (h : InPlace s virt) (hwd : Words s)
    (htab : Tables s.mem s.pmm roots) (hrt : rootFrame s ∈ roots) (hst : R s t)
    (hcr : t.currentPml4Phys = s.currentPml4Phys)
    (hgo : ∀ u w q n table i, Kept s u roots → Words u → R u w →
      descend (next u.mem) (0,rootFrame s) q = some n → n.1 ≤ 1 →
      table &&& frameMask = n.2 → i < 512 →
      (u.mem (table &&& frameMask) i &&& vmmPresent = 0 → (allocPage u).1 ≠ 0 →
        Identity u (allocPage u).1) →
      ∃ w', a.getOrAllocTable w table i flags =
        some ((PageTable.getOrAllocTable u table i flags).1,w') ∧
          R (PageTable.getOrAllocTable u table i flags).2 w')
    (hpd : ∀ u w pd, Kept s u roots → Words u → R u w →
      descend (next u.mem) (0,rootFrame s) [pml4Idx virt,pdptIdx virt] =
        some (2,pd) → pd &&& frameMask = pd →
      ((u.mem pd (pdIdx virt) &&& vmmPresent ≠ 0 → u.mem pd (pdIdx virt) &&& vmmHuge ≠ 0) →
        (allocPage u).1 ≠ 0 → Identity u (allocPage u).1) →
      ∃ w', a.mapInPd { w with lastReplacedPhys := 0 } pd virt phys flags =
        some ((PageTable.mapInPd { u with lastReplacedPhys := 0 } pd virt phys flags).1,w') ∧
          R (PageTable.mapInPd { u with lastReplacedPhys := 0 } pd virt phys flags).2 w') :
    ∃ t', a.vmmMap t virt phys flags = some ((PageTable.vmmMap s virt phys flags).1,t') ∧
      (R (PageTable.vmmMap s virt phys flags).2 t') := by
  rw [Access.vmmMap,PageTable.vmmMap,hcr]
  split_ifs
  · exact ⟨t,rfl,hst⟩
  have hds : descend (next s.mem) (0,rootFrame s) [] = some (0,rootFrame s) := rfl
  have hsp := getOrAllocTable_spec (i := pml4Idx virt) flags htab hrt hds (Nat.zero_le 1) rfl
  obtain ⟨hin₁,hid⟩ := h.getOrAllocTable (i := pml4Idx virt) htab hrt hds (Nat.zero_le 1) rfl
    (by simp) flags
  have hwd₁ := getOrAllocTable_words hwd htab.sized (pml4Idx_lt virt) s.currentPml4Phys flags
  obtain ⟨t₁,ht₁,hR₁⟩ := hgo s t [] _ _ _ (Kept.refl htab) hwd hst hds (Nat.zero_le 1) rfl
    (pml4Idx_lt virt) hid
  rw [ht₁]
  generalize PageTable.getOrAllocTable s s.currentPml4Phys (pml4Idx virt) flags = pdpt
    at hsp hin₁ hwd₁ hR₁ ⊢
  obtain ⟨hkp₁,hsp⟩ := hsp
  simp only [bind_eq_bind,bind_some]
  by_cases hzr : pdpt.1 = 0
  · simp only [hzr,if_true]
    exact ⟨t₁,rfl,hR₁⟩
  obtain ⟨hds₁,hms₁⟩ := hsp.resolve_left hzr
  have hsp := getOrAllocTable_spec (i := pdptIdx virt) flags hkp₁.tables hrt hds₁ le_rfl hms₁
  have hds₁' := hds₁
  rw [← hkp₁.rootFrame_eq] at hds₁'
  obtain ⟨hin₂,hid⟩ := hin₁.getOrAllocTable (i := pdptIdx virt) hkp₁.tables
    (hkp₁.rootFrame_eq ▸ hrt) hds₁' le_rfl hms₁ (by simp) flags
  have hwd₂ := getOrAllocTable_words hwd₁ hkp₁.tables.sized (pdptIdx_lt virt) pdpt.1 flags
  obtain ⟨t₂,ht₂,hR₂⟩ := hgo _ t₁ _ _ _ _ hkp₁ hwd₁ hR₁ hds₁ le_rfl hms₁ (pdptIdx_lt virt) hid
  simp only [hzr,if_false,ht₂,bind_some]
  generalize PageTable.getOrAllocTable pdpt.2 pdpt.1 (pdptIdx virt) flags = pd
    at hsp hin₂ hwd₂ hR₂ ⊢
  obtain ⟨hkp₂,hsp⟩ := hsp
  by_cases hzr' : pd.1 = 0
  · simp only [hzr',if_true]
    exact ⟨t₂,rfl,hR₂⟩
  obtain ⟨hds₂,hms₂⟩ := hsp.resolve_left hzr'
  have hkp := hkp₁.trans hkp₂
  simp only [hzr',if_false]
  refine hpd pd.2 t₂ pd.1 hkp hwd₂ hR₂ hds₂ hms₂ (hin₂.mapInPd ?_)
  rw [hkp.rootFrame_eq]
  exact hds₂

/-- Where the frames for tables are found at their own numbers, `vmm_map` does what it does if it
clears the frames themselves. -/
theorem vmmMap_eq (h : InPlace s virt) (hwd : Words s) (htab : Tables s.mem s.pmm roots)
    (hrt : rootFrame s ∈ roots) (phys flags : ℕ) :
    vmmMap s virt phys flags = some (PageTable.vmmMap s virt phys flags) := by
  have hrl := Access.vmmMap_rule direct (fun u w => w = u) phys flags h hwd htab hrt rfl rfl ?_ ?_
  · obtain ⟨t,ht,rfl⟩ := hrl
    exact ht
  · rintro _ u q n table i hkp hu rfl _ _ _ _ hid
    have hrt' : rootFrame u ∈ roots := hkp.rootFrame_eq ▸ hrt
    exact ⟨_,direct_getOrAllocTable (fun hab hne =>
      clear_allocated hkp.tables hrt' hu hne (hid hab hne)) flags,rfl⟩
  · rintro _ u pd hkp hu rfl _ hms hid
    have hrt' : rootFrame u ∈ roots := hkp.rootFrame_eq ▸ hrt
    refine ⟨_,direct_mapInPd (fun hab hne => ?_) phys flags,rfl⟩
    rw [hms] at hab
    exact clear_allocated (s := { u with lastReplacedPhys := 0 }) hkp.tables hrt' hu hne
      (hid hab hne)

lemma vmmMap_words (h : Words s) (htab : Tables s.mem s.pmm roots)
    (hrt : rootFrame s ∈ roots) (virt phys flags : ℕ) :
    Words (PageTable.vmmMap s virt phys flags).2 := by
  refine vmmMap_rule (P := Words) (Q := fun r => Words r.2) htab hrt (fun _ hu => hu) h
    (getOrAllocTable_words h htab.sized (pml4Idx_lt virt) _ _) ?_ ?_
  · intro u pdpt hext _ _ hu
    exact getOrAllocTable_words hu hext.tables.sized (pdptIdx_lt virt) _ _
  · intro u pd hext hds hms hu
    refine mapInPd_words (s := { u with lastReplacedPhys := 0 }) hu hext.tables.sized ?_ _ _ _
    rw [hms]
    exact hext.tables.taken _ hrt _ _ hds

end Tables

/-- The tables that the boot code leaves over a memory, with 2 MiB pages for the first GiB. -/
def bootTablesOver (mem : ℕ → ℕ → ℕ) : Vmm :=
  { bootState mem emptyTables.pmm with currentPml4Phys := bootPml4 }

def bootTables : Vmm := bootTablesOver fun _ _ => 0

lemma bootTablesOver_tables (mem : ℕ → ℕ → ℕ) :
    Tables (bootTablesOver mem).mem (bootTablesOver mem).pmm
      {rootFrame (bootTablesOver mem)} := by
  have hrt : rootFrame (bootTablesOver mem) = bootPml4 :=
    (by decide : bootPml4 &&& frameMask = bootPml4)
  rw [hrt]
  exact (bootMem_tables mem emptyTables_tables.sized).1

lemma bootTables_tables :
    Tables bootTables.mem bootTables.pmm {rootFrame bootTables} :=
  bootTablesOver_tables _

lemma bootMem_words (h : ∀ f l, 512 ≤ l → mem f l = 0) (f l : ℕ) (hl : 512 ≤ l) :
    bootMem mem f l = 0 := by
  have hl₀ : l ≠ 0 := by omega
  have hpd : bootPd l = 0 := if_neg (by omega)
  simp only [bootMem,Function.update_apply]
  split_ifs
  exacts [hpd,if_neg hl₀,if_neg hl₀,h f l hl]

lemma bootTablesOver_words (h : ∀ f l, 512 ≤ l → mem f l = 0) : Words (bootTablesOver mem) :=
  bootMem_words h

lemma bootTables_words : Words bootTables := bootTablesOver_words fun _ _ _ => rfl

/-- The page at the number of the next free frame is mapped to another frame. -/
def movedPage : Vmm := (PageTable.vmmMap emptyTables 0x303000 0x10000 3).2

/-- The free frame holds an old word. -/
def stalePage : Vmm := { movedPage with mem := setWord movedPage.mem 0x303000 1 0x5003 }

lemma emptyTables_outside {x : ℕ} (hx : x ≠ 0x20000) :
    Outside emptyTables.mem {rootFrame emptyTables} x := by
  intro r hr q n hn
  obtain rfl : r = 0x20000 := hr
  cases q with
  | nil =>
    cases hn
    exact hx.symm
  | cons i q => exact absurd hn (by simp [descend,next,emptyTables,entryStep])

lemma stalePage_tables :
    Tables stalePage.mem stalePage.pmm {rootFrame stalePage} ∧
      Outside stalePage.mem {rootFrame stalePage} 0x10000 := by
  rcases vmmMap_spec 0x303000 0x10000 emptyTables_tables rfl (by decide : 3 < 8) with
    ⟨hrc,-⟩ | ⟨-,hmp⟩
  · exact absurd hrc (by decide)
  have hfr : FreeFrame movedPage.pmm 0x303000 := ⟨3,by decide,rfl,by decide⟩
  have hkp : Kept movedPage stalePage {rootFrame stalePage} :=
    kept_frame (t := stalePage) hmp.tables (hmp.tables.outside hfr)
      (fun f hf => setWord_frame _ _ _ hf) (Shrunk.refl hmp.tables.sized) ⟨rfl,rfl⟩
  refine ⟨hkp.tables,(hmp.toExtended.trans hkp.toExtended).outside ?_ ?_⟩
  · exact emptyTables_outside (by decide)
  · exact low_not_free (by decide)

end HarlinKernel.PageClear
