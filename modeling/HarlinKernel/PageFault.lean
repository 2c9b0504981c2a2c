import HarlinKernel.PageClear

/-! The page-fault entry `isr14_stub` and the handler of `mem/page_fault.c`. The two resolution
routines fill the new frame at the virtual address that has its number, through the current page
tables. -/
namespace HarlinKernel.PageTable

open Bitmap PageAllocator LabelledWalk AddressSpace

section Frames

variable {s : Vmm} {roots : Set ℕ} {x : ℕ}

lemma getOrAllocTable_data {table : ℕ} (idx flags : ℕ) (hs : Sized s.pmm)
    (hus : ¬ FreeFrame s.pmm x) (hx : x ≠ table &&& frameMask) :
    (getOrAllocTable s table idx flags).2.mem x = s.mem x := by
  rcases getOrAllocTable_cases hs rfl idx flags with ⟨-,heq⟩ | ⟨-,heq | ⟨base,hbs,heq⟩⟩ <;> rw [heq]
  · exact setWord_frame _ _ _ hx
  · funext l
    exact linkTable_other hbs hus (.inl hx)

lemma mapInPd_data {pd r virt : ℕ} (phys flags : ℕ) (htab : Tables s.mem s.pmm roots)
    (hr : r ∈ roots) (hn : descend (next s.mem) (0,r) [pml4Idx virt,pdptIdx virt] = some (2,pd))
    (hms : pd &&& frameMask = pd) (hus : ¬ FreeFrame s.pmm x)
    (hout : ∀ q k f, descend (next s.mem) (0,r) q = some (k,f) → k ≠ 1 → x ≠ f) :
    (mapInPd s pd virt phys flags).2.mem x = s.mem x := by
  rcases mapInPd_cases htab.sized hms (htab.taken r hr _ _ hn) rfl phys flags with
    ⟨hpr,hhg,heq⟩ | ⟨-,heq | ⟨base,hbs,heq⟩⟩ <;> rw [heq]
  · have hpt := descend_snoc.mpr ⟨_,hn,entryStep_table le_rfl hpr fun _ => hhg⟩
    rw [mapInPt_mem,and_frameMask_and,setWord_frame _ _ _ (hout _ _ _ hpt (by simp))]
  · have hne : x ≠ frameAddr base := fun heq => hus (heq ▸ Taken.free hbs)
    rw [mapInPt_mem,frameAddr_frame htab.sized hbs,setWord_frame _ _ _ hne]
    funext l
    exact linkTable_other hbs hus (.inl (hout _ _ _ hn (by simp)))

/-- `vmm_map` changes the words of tables and of free frames only. -/
theorem vmmMap_data (virt phys flags : ℕ) (htab : Tables s.mem s.pmm roots)
    (hrt : rootFrame s ∈ roots) (hus : ¬ FreeFrame s.pmm x)
    (hout : Outside s.mem roots x) : (vmmMap s virt phys flags).2.mem x = s.mem x := by
  have hap : ∀ t, Extended s t roots → ∀ q n,
      descend (next t.mem) (0,rootFrame s) q = some n → x ≠ n.2 :=
    fun t hext q n hn => (hext.outside hout hus _ hrt q n hn).symm
  have hus' : ∀ t, Extended s t roots → ¬ FreeFrame t.pmm x :=
    fun t hext hfr => hus (hext.pmm.free x hfr)
  refine vmmMap_rule (P := fun u => u.mem x = s.mem x) (Q := fun r => r.2.mem x = s.mem x) htab
    hrt (fun _ hu => hu) rfl ?_ ?_ ?_
  · exact getOrAllocTable_data (pml4Idx virt) flags htab.sized hus
      (hap s (Kept.refl htab).toExtended [] _ rfl)
  · intro u pdpt hext hds hms hu
    refine (getOrAllocTable_data (pdptIdx virt) flags hext.tables.sized (hus' u hext) ?_).trans hu
    rw [hms]
    exact hap u hext _ _ hds
  · intro u pd hext hds hms hu
    exact (mapInPd_data (s := { u with lastReplacedPhys := 0 }) phys flags hext.tables hrt hds hms
      (hus' u hext) fun q k f hn _ => hap u hext q (k,f) hn).trans hu

end Frames

end HarlinKernel.PageTable

namespace HarlinKernel.PageFault

open Bitmap PageAllocator LabelledWalk PageTable AddressSpace PageClear
open PageClear (clearPagePhys vmmMap)
open Option (bind_some bind_eq_bind)

def pfPresent : ℕ := 0x01
def pfWrite : ℕ := 0x02
def pfUser : ℕ := 0x04

def freePage (s : Vmm) (phys : ℕ) : Vmm := { s with pmm := pmmFree s.pmm phys }

/-- The routine and its stores; none if one of them faults again. -/
def pageFaultDemandInstall (s : Vmm) (virt flags : ℕ) : Option (ℤ × Vmm) :=
  let page := allocPage s
  if page.1 = 0 then some (-1,page.2)
  else do
    let s ← clearPagePhys page.2 page.1
    let r ← vmmMap s virt page.1 flags
    if r.1 ≠ 0 then return (-1,freePage r.2 page.1) else return (0,r.2)

/-- The first `n` words of a page are copied to another one. -/
def copyWords (s : Vmm) (src dst : ℕ) : ℕ → Option Vmm
  | 0 => some s
  | n+1 => do
    let s ← copyWords s src dst n
    let value ← loadVirt s (src+n*8)
    storeVirt s (dst+n*8) value

def pageFaultCowResolve (s : Vmm) (virt flags : ℕ) : Option (ℤ × Vmm) :=
  let phys := vmmGetPhysLocked s virt
  if phys = 0 then some (-1,s)
  else
    let newPage := allocPage s
    if newPage.1 = 0 then some (-1,newPage.2)
    else do
      let s ← copyWords newPage.2 phys newPage.1 512
      let r ← vmmMap (vmmUnmap s virt) virt newPage.1 flags
      if r.1 ≠ 0 then return (-1,freePage r.2 newPage.1) else return (0,r.2)

/-- `fault_addr & ~0xFFF` -/
def faultPage (faultAddr : ℕ) : ℕ := faultAddr &&& 0xFFFFFFFFFFFFF000

def faultFlags (errorCode : ℕ) : ℕ :=
  vmmPresent ||| vmmWritable ||| if errorCode &&& pfUser ≠ 0 then vmmUser else 0

/-- The state of a resolved fault; there is none after a panic. -/
def resolved (r : Option (ℤ × Vmm)) : Option Vmm :=
  r.bind fun r => if r.1 = 0 then some r.2 else none

/-- The state the handler returns with. -/
def pageFaultHandler (s : Vmm) (faultAddr errorCode : ℕ) : Option Vmm :=
  if errorCode &&& pfPresent = 0 then
    resolved (pageFaultDemandInstall s (faultPage faultAddr) (faultFlags errorCode))
  else if errorCode &&& pfWrite ≠ 0 then
    resolved (pageFaultCowResolve s (faultPage faultAddr) (faultFlags errorCode))
  else none

/-- The stub loads CR2 into the first argument and clears the second one. The error code that the
hardware has pushed stays on the stack and is dropped. -/
def isr14Stub (s : Vmm) (cr2 _errorCode : ℕ) : Option Vmm := pageFaultHandler s cr2 0

/-- Word `i` of the page of an address, as it is seen through the current page tables. -/
def pageWord (s : Vmm) (addr i : ℕ) : Option ℕ :=
  (physAddr s.mem (s.currentPml4Phys &&& frameMask) (faultPage addr)).map (s.mem · i)

/-- A fault on a mapped page from which the handler returns leaves the 4096 bytes of the page. -/
def DataKept (s : Vmm) (cr2 errorCode : ℕ) : Prop :=
  ∀ t, isr14Stub s cr2 errorCode = some t →
    physAddr s.mem (s.currentPml4Phys &&& frameMask) (faultPage cr2) ≠ none →
      ∀ i < 512, pageWord t cr2 i = pageWord s cr2 i

/-- The frames that the handler takes, for the page and for tables over it, are found at their own
numbers. -/
def FramesInPlace (s : Vmm) (virt : ℕ) : Prop :=
  ∀ k ≤ (missingTables s virt).length, (pmmAlloc (after k s.pmm)).1 ≠ 0 →
    Identity s (pmmAlloc (after k s.pmm)).1

/-- There are frames for the page and for the tables over it, and no such table at 0, which
`vmm_map` takes for a failure. -/
def Served (s : Vmm) (virt : ℕ) : Prop :=
  (∀ k ≤ (missingTables s virt).length, (pmmAlloc (after k s.pmm)).1 ≠ 0) ∧
  ∀ q ∈ [[pml4Idx virt],[pml4Idx virt,pdptIdx virt]],
    (descend (next s.mem) (0,s.currentPml4Phys &&& frameMask) q).map Prod.snd ≠ some 0

instance (s : Vmm) (virt : ℕ) : Decidable (FramesInPlace s virt) :=
  inferInstanceAs (Decidable (∀ k ≤ _, _ → _))

instance (s : Vmm) (virt : ℕ) : Decidable (Served s virt) :=
  inferInstanceAs (Decidable ((∀ k ≤ _, _) ∧ ∀ q ∈ [_,_], _ ≠ _))

section Faults

variable {s t u : Vmm} {roots : Set ℕ} {x virt flags : ℕ}

lemma faultPage_offset (addr : ℕ) : faultPage addr &&& 0xFFF = 0 := by
  rw [faultPage,Nat.and_assoc]
  exact Nat.and_zero addr

/-- The tables over a page that is mapped. -/
lemma physAddr_tables {mem : ℕ → ℕ → ℕ} {root : ℕ} (h : physAddr mem root virt = some x) :
    ∃ pdpt pd, next mem (0,root) (pml4Idx virt) = .go (1,pdpt) ∧
      next mem (1,pdpt) (pdptIdx virt) = .go (2,pd) ∧ mem pd (pdIdx virt) &&& vmmPresent ≠ 0 := by
  rw [physAddr,labels] at h
  cases h₀ : next mem (0,root) (pml4Idx virt) with
  | stop leaf =>
    simp only [follow,h₀] at h
    obtain ⟨l,rfl,-⟩ := Option.map_eq_some_iff.mp h
    rcases entryStep_leaf h₀ with ⟨hk,-⟩ | ⟨hk,-⟩ <;> cases hk
  | go m =>
    obtain ⟨hpr₀,-,-,rfl⟩ := entryStep_go_iff.mp h₀
    cases h₁ : next mem (0+1,mem root (pml4Idx virt) &&& frameMask) (pdptIdx virt) with
    | stop leaf =>
      simp only [follow,h₀,h₁] at h
      obtain ⟨l,rfl,-⟩ := Option.map_eq_some_iff.mp h
      rcases entryStep_leaf h₁ with ⟨hk,-⟩ | ⟨hk,-⟩ <;> cases hk
    | go m =>
      obtain ⟨hpr₁,-,-,rfl⟩ := entryStep_go_iff.mp h₁
      refine ⟨_,_,rfl,h₁,fun hab => ?_⟩
      have hst : next mem (0+1+1,_) (pdIdx virt) = .stop none := entryStep_absent _ hab
      simp only [follow,h₀,h₁,hst] at h
      cases h

lemma missing_mapped (h : physAddr s.mem (rootFrame s) virt = some x) :
    (missingTables s virt).length ≤ 1 := by
  obtain ⟨pdpt,pd,h₀,h₁,-⟩ := physAddr_tables h
  have hms : missingTables s virt = [tablePath virt].filter fun q =>
      descend (next s.mem) (0,rootFrame s) q = none := by
    simp [missingTables,descend,h₀,h₁]
  rw [hms]
  exact List.length_filter_le _ _

/-- `vmm_map` of a page that is mapped, for the kernel: it fails if a table over the page is at 0 or
if there is no frame to split a 2 MiB page. -/
lemma vmmMap_mapped (h : physAddr s.mem (rootFrame s) virt = some x)
    (hus : flags &&& vmmUser = 0) (phys : ℕ) :
    (PageTable.vmmMap s virt phys flags).1 = 0 ↔
      (missingTables s virt ≠ [] → (allocPage s).1 ≠ 0) ∧
      ∀ q ∈ [[pml4Idx virt],[pml4Idx virt,pdptIdx virt]],
        (descend (next s.mem) (0,rootFrame s) q).map Prod.snd ≠ some 0 := by
  obtain ⟨pdpt,pd,h₀,h₁,hpr⟩ := physAddr_tables h
  have hgo : ∀ (m m' : Node) table idx, table &&& frameMask = m.2 →
      next s.mem m idx = .go m' →
      PageTable.getOrAllocTable s table idx flags = (m'.2,s) := by
    intro m m' table idx htb hgo
    obtain ⟨hen,-,-,rfl⟩ := entryStep_go_iff.mp hgo
    simp [PageTable.getOrAllocTable,readPtEntry,htb,hen,userEntry,hus]
  have hms : ∀ (m m' : Node) idx, next s.mem m idx = .go m' → m'.2 &&& frameMask = m'.2 := by
    intro m m' idx hgo
    obtain ⟨-,-,-,rfl⟩ := entryStep_go_iff.mp hgo
    exact and_frameMask_and _
  simp only [List.forall_mem_cons,List.not_mem_nil,false_implies,implies_true,and_true,descend,h₀,
    h₁,Option.map_some,ne_eq,Option.some.injEq]
  rw [PageTable.vmmMap,if_neg (by simp [hus]),hgo _ _ _ _ rfl h₀]
  dsimp only
  rw [hgo _ _ _ _ (hms _ _ _ h₀) h₁]
  by_cases hz₀ : pdpt = 0
  · simp [hz₀]
  by_cases hz₁ : pd = 0
  · simp [hz₀,hz₁]
  have hpd : pd &&& frameMask = pd := hms _ _ _ h₁
  by_cases hhg : s.mem pd (pdIdx virt) &&& vmmHuge = 0
  · have h₂ : next s.mem (2,pd) (pdIdx virt) = .go (3,s.mem pd (pdIdx virt) &&& frameMask) :=
      entryStep_table le_rfl hpr fun _ => hhg
    simp [hz₀,hz₁,PageTable.mapInPd,readPtEntry,hpd,hpr,hhg,PageTable.mapInPt,missingTables,
      descend,h₀,h₁,h₂,tablePath]
  · have h₂ : next s.mem (2,pd) (pdIdx virt) = .stop (some (_,0x1FFFFF)) := entryStep_huge hpr hhg
    have hal : (allocPage { s with lastReplacedPhys := 0 }).1 = (allocPage s).1 := rfl
    by_cases hzr : (allocPage s).1 = 0 <;>
      simp [hz₀,hz₁,PageTable.mapInPd,readPtEntry,hpd,hpr,hhg,hal,hzr,missingTables,descend,h₀,h₁,
        h₂,tablePath]

/-- The frame that the handler has cleared. -/
lemma cleared_frame (htab : Tables s.mem s.pmm roots) (hne : (allocPage s).1 ≠ 0)
    (hu : u = PageTable.clearPagePhys (allocPage s).2 (allocPage s).1) :
    Kept s u roots ∧ Outside u.mem roots (allocPage s).1 ∧ ¬ FreeFrame u.pmm (allocPage s).1 ∧
      (allocPage s).1 &&& frameMask = (allocPage s).1 ∧
      ∀ r ∈ roots, descend (next u.mem) (0,r) = descend (next s.mem) (0,r) := by
  obtain ⟨base,hbs,htk⟩ := allocPage_taken htab.sized hne
  have hfr := Taken.free htk
  rw [hbs] at hu ⊢
  have hmem : ∀ f ≠ frameAddr base, u.mem f = s.mem f := by
    intro f hf
    rw [hu]
    exact Function.update_of_ne hf _ _
  have hpmm : u.pmm = (allocPage s).2.pmm := by
    rw [hu]
    rfl
  refine ⟨?_,outside_frame (htab.outside hfr) hmem,?_,frameAddr_frame htab.sized htk,?_⟩
  · refine kept_frame htab (htab.outside hfr) hmem ?_ ⟨by rw [hu]; rfl,by rw [hu]; rfl⟩
    rw [hpmm]
    exact Taken.shrunk htk htab.sized
  · rw [hpmm]
    exact Taken.not_free htk
  · intro r hr
    funext q
    exact descend_outside (w := [frameAddr base]) (by simpa using htab.outside hfr)
      (fun f hf => hmem f (by simpa using hf)) hr q

/-- A fault on a mapped page: with the frames in place the handler returns exactly if it is served,
and a page of zeroes is mapped then. -/
lemma demandInstall_mapped (htab : Tables s.mem s.pmm roots)
    (hrt : rootFrame s ∈ roots) (hwd : Words s) (hin : FramesInPlace s virt)
    (hph : physAddr s.mem (rootFrame s) virt = some x)
    (hfg : flags < 8) (hus : flags &&& vmmUser = 0) (hvr : virt &&& 0xFFF = 0) :
    (Served s virt → ∃ t, resolved (pageFaultDemandInstall s virt flags) = some t ∧
      t.currentPml4Phys = s.currentPml4Phys ∧
      ∃ y, physAddr t.mem (rootFrame s) virt = some y ∧
        t.mem y = fun _ => 0) ∧
    (¬ Served s virt → resolved (pageFaultDemandInstall s virt flags) = none) := by
  by_cases hne : (allocPage s).1 = 0
  · refine ⟨fun hsv => absurd hne (hsv.1 0 (Nat.zero_le _)),fun _ => ?_⟩
    simp [pageFaultDemandInstall,hne,resolved]
  obtain ⟨u,hu⟩ : ∃ u, u = PageTable.clearPagePhys (allocPage s).2 (allocPage s).1 := ⟨_,rfl⟩
  have hcl := clear_allocated htab hrt hwd hne (hin 0 (Nat.zero_le _) hne)
  obtain ⟨hkp,hout,hnf,hfm,hds⟩ := cleared_frame htab hne hu
  rw [← hu] at hcl
  have hrt' : rootFrame u ∈ roots := hkp.rootFrame_eq ▸ hrt
  have hpmm : u.pmm = after 1 s.pmm := by
    rw [hu]
    rfl
  have hms : missingTables u virt = missingTables s virt := by
    simp only [missingTables,hkp.current,hds _ hrt]
  have hwd' : Words u := by
    intro f l hl
    rw [hu,PageTable.clearPagePhys]
    simp only [Function.update_apply]
    split_ifs
    · rfl
    · exact hwd f l hl
  have hin' : InPlace u virt := by
    intro k hk hne'
    rw [hpmm,after_add] at hne' ⊢
    rw [Identity,hkp.current,hkp.same _ hrt]
    exact hin (k+1) (by rw [← hms]; omega) hne'
  have hmp := vmmMap_eq hin' hwd' hkp.tables hrt' (allocPage s).1 flags
  have hph' : physAddr u.mem (rootFrame u) virt = some x := by
    rw [hkp.rootFrame_eq,hkp.same _ hrt,hph]
  have hrc := vmmMap_mapped hph' hus (allocPage s).1
  have hsv : (PageTable.vmmMap u virt (allocPage s).1 flags).1 = 0 ↔ Served s virt := by
    rw [hrc,hms,hkp.rootFrame_eq,hds _ hrt,Served,and_congr_left_iff]
    intro _
    have hle := missing_mapped hph
    have hal : (allocPage u).1 = (pmmAlloc (after 1 s.pmm)).1 := by rw [← hpmm]; rfl
    rw [hal,← List.length_pos_iff]
    refine ⟨fun h k hk => ?_,fun h hlt => h 1 hlt⟩
    rcases Nat.eq_zero_or_pos k with rfl | hlt
    · exact hne
    · obtain rfl : k = 1 := by omega
      exact h hk
  rw [← hsv]
  simp only [pageFaultDemandInstall,if_neg hne,hcl,hmp,bind_eq_bind,bind_some]
  rcases vmmMap_spec virt (allocPage s).1 hkp.tables hrt' hfg with ⟨hrc,-⟩ | ⟨hrc,hmp⟩
  · simp [hrc,resolved]
  refine ⟨fun _ => ⟨_,by simp [hrc,resolved],hmp.current.trans hkp.current,(allocPage s).1,?_,?_⟩,
    fun hbad => absurd hrc hbad⟩
  · rw [← hkp.rootFrame_eq,hmp.page _ hrt',if_pos ⟨rfl,rfl⟩,hfm,hvr,Nat.or_zero]
  · rw [vmmMap_data virt (allocPage s).1 flags hkp.tables hrt' hnf hout,hu]
    exact Function.update_self _ _ _

/-- With the frames in place a fault on a mapped page keeps its bytes exactly where they are all
zero, as far as the handler is served: the stub never reports a present page. -/
theorem fault_keeps_data_iff (s : Vmm) (cr2 errorCode : ℕ)
    (htab : Tables s.mem s.pmm {s.currentPml4Phys &&& frameMask}) (hwords : Words s)
    (hplace : FramesInPlace s (faultPage cr2)) :
    DataKept s cr2 errorCode ↔
      (Served s (faultPage cr2) →
        ∀ f, physAddr s.mem (s.currentPml4Phys &&& frameMask) (faultPage cr2) = some f →
          ∀ i < 512, s.mem f i = 0) := by
  have hst : isr14Stub s cr2 errorCode =
      resolved (pageFaultDemandInstall s (faultPage cr2) (faultFlags 0)) := by
    rw [isr14Stub,pageFaultHandler,if_pos (Nat.zero_and pfPresent)]
  have hdm := fun f (hf : physAddr s.mem (rootFrame s) (faultPage cr2) =
    some f) => demandInstall_mapped htab rfl hwords hplace hf (by decide : faultFlags 0 < 8)
      (by decide) (faultPage_offset cr2)
  rw [← hst] at hdm
  constructor
  · intro hkp hsv f hf i hi
    obtain ⟨t,ht,hcr,y,hy,hzr⟩ := (hdm f hf).1 hsv
    have hsm := hkp t ht (by rw [hf]; exact Option.some_ne_none f) i hi
    rw [pageWord,pageWord,hcr,hy,hf,Option.map_some,Option.map_some,hzr] at hsm
    exact (Option.some.inj hsm).symm
  · intro hem t ht hne i hi
    obtain ⟨f,hf⟩ := Option.ne_none_iff_exists'.mp hne
    by_cases hsv : Served s (faultPage cr2)
    · obtain ⟨t',ht',hcr,y,hy,hzr⟩ := (hdm f hf).1 hsv
      obtain rfl : t' = t := Option.some.inj (ht'.symm.trans ht)
      rw [pageWord,pageWord,hcr,hy,hf,Option.map_some,Option.map_some,hzr,hem hsv f hf i hi]
    · rw [(hdm f hf).2 hsv] at ht
      cases ht

/-- A page that may only be read, over the boot code's tables, and the same page with data. -/
def readPage : Vmm := (PageTable.vmmMap bootTables 0x40000000 0x10000 1).2

def dataPage : Vmm :=
  (PageTable.vmmMap (bootTablesOver (setWord (fun _ _ => 0) 0x10000 0 0x1234)) 0x40000000 0x10000
    1).2

lemma readPage_tables :
    Tables readPage.mem readPage.pmm {rootFrame readPage} :=
  vmmMap_tables 0x40000000 0x10000 1 bootTables_tables

lemma dataPage_tables :
    Tables dataPage.mem dataPage.pmm {rootFrame dataPage} :=
  vmmMap_tables 0x40000000 0x10000 1 (bootTablesOver_tables _)

theorem fault_keeps_data_iff_zero_page :
    FramesInPlace readPage 0x40000000 ∧ Served readPage 0x40000000 ∧
      DataKept readPage 0x40000010 3 := by
  have hin : FramesInPlace readPage 0x40000000 := by decide
  have hwd : Words readPage := vmmMap_words bootTables_words bootTables_tables rfl _ _ _
  refine ⟨hin,by decide,(fault_keeps_data_iff readPage 0x40000010 3 readPage_tables hwd hin).mpr ?_⟩
  intro _ f hf i _
  have hph : physAddr readPage.mem (rootFrame readPage) 0x40000000 =
      some 0x10000 := by decide
  obtain rfl : 0x10000 = f := Option.some.inj (hph.symm.trans hf)
  rfl

/-- A write to the page with data in it: afterwards the page reads as zero. -/
theorem fault_clears_page :
    Tables dataPage.mem dataPage.pmm {dataPage.currentPml4Phys &&& frameMask} ∧
      pageWord dataPage 0x40000010 0 = some 0x1234 ∧
      (∃ t, isr14Stub dataPage 0x40000010 3 = some t ∧ pageWord t 0x40000010 0 = some 0) ∧
      ¬ DataKept dataPage 0x40000010 3 := by
  have hwd : Words dataPage := by
    refine vmmMap_words (bootTablesOver_words fun f l hl => ?_) (bootTablesOver_tables _) rfl _ _ _
    exact setWord_other _ _ (.inr (by omega))
  have hph : physAddr dataPage.mem (rootFrame dataPage) 0x40000000 =
      some 0x10000 := by decide
  have hbf : pageWord dataPage 0x40000010 0 = some 0x1234 := by decide
  obtain ⟨t,ht,hcr,y,hy,hzr⟩ := (demandInstall_mapped dataPage_tables rfl hwd (by decide) hph
    (by decide : 3 < 8) (by decide) (by decide)).1 (by decide)
  have haf : pageWord t 0x40000010 0 = some 0 := by
    rw [pageWord,hcr,show faultPage 0x40000010 = 0x40000000 by decide,hy,Option.map_some,hzr]
  refine ⟨dataPage_tables,hbf,⟨t,ht,haf⟩,fun hkp => ?_⟩
  have hsm := hkp t ht ?_ 0 (by decide)
  · rw [hbf,haf] at hsm
    cases hsm
  · intro hno
    rw [pageWord,hno] at hbf
    cases hbf

end Faults

end HarlinKernel.PageFault
