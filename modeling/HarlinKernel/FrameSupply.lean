import HarlinKernel.AddressSpace
import HarlinKernel.Kmalloc

/-! Mapping a page succeeds as long as three frames are free. The frames that are taken one
after the other are counted, so that a supply at the start is a supply in every later state. -/
namespace HarlinKernel.FrameSupply

open PageAllocator Bitmap LabelledWalk PageTable AddressSpace Kmalloc

variable {p : Pmm} {s t : Vmm} {roots : Set ℕ} {m n virt : ℕ}

/-- The next `n` allocations succeed. -/
def Enough (n : ℕ) (p : Pmm) : Prop := ∀ k < n, (pmmAlloc (after k p)).1 ≠ 0

lemma Enough.mono (h : Enough n p) (hm : m ≤ n) : Enough m p := fun k hk => h k (by omega)

lemma Enough.rest (h : Enough (n+m) p) : Enough n (after m p) := by
  intro k hk
  rw [after_add]
  exact h (k+m) (by omega)

lemma after_succ (n : ℕ) (p : Pmm) : after (n+1) p = (pmmAlloc (after n p)).2 := by
  rw [Nat.add_comm,← after_add]
  rfl

lemma not_exhausted (h : takenFrames p < p.totalPages / 8*8) : ¬ Exhausted p := by
  intro hfl
  have hsub : Finset.range (p.totalPages / 8*8) ⊆
      (Finset.range p.totalPages).filter fun i => get p.bitmap i = true := by
    intro i hi
    rw [Finset.mem_range] at hi
    rw [Finset.mem_filter,Finset.mem_range]
    exact ⟨by omega,hfl i hi⟩
  have hcr := Finset.card_le_card hsub
  rw [Finset.card_range] at hcr
  exact absurd (h.trans_le hcr) (lt_irrefl _)

lemma pmmAlloc_taken (hs : Sized p) (h : takenFrames p < p.totalPages / 8*8) :
    (pmmAlloc p).1 ≠ 0 ∧ Sized (pmmAlloc p).2 ∧ (pmmAlloc p).2.totalPages = p.totalPages ∧
      takenFrames (pmmAlloc p).2 = takenFrames p+1 := by
  have hne : (pmmAlloc p).1 ≠ 0 := fun hzr =>
    not_exhausted h ((pmmAlloc_eq_zero_iff hs).mp hzr)
  rcases pmmAlloc_spec hs with hfl | ⟨base,-,htk⟩
  · rw [hfl] at hne
    exact (hne rfl).elim
  · exact ⟨hne,htk.sized hs,htk.total,Taken.takenFrames htk⟩

lemma after_taken (hs : Sized p) (hn : takenFrames p+n ≤ p.totalPages / 8*8) : Sized (after n p) ∧
    (after n p).totalPages = p.totalPages ∧ takenFrames (after n p) = takenFrames p+n := by
  induction n with
  | zero => exact ⟨hs,rfl,rfl⟩
  | succ n ih =>
    obtain ⟨hsz,htl,hcn⟩ := ih (by omega)
    obtain ⟨-,hsz',htl',hcn'⟩ := pmmAlloc_taken hsz (by rw [htl,hcn]; omega)
    rw [after_succ]
    exact ⟨hsz',htl'.trans htl,by omega⟩

lemma enough_of_taken (hs : Sized p) (hn : takenFrames p+n ≤ p.totalPages / 8*8) :
    Enough n p := by
  intro k hk
  obtain ⟨hsz,htl,hcn⟩ := after_taken hs (n:=k) (by omega)
  exact (pmmAlloc_taken hsz (by rw [htl,hcn]; omega)).1

lemma freshPmm_enough : Enough 32000 freshPmm := by
  have hpmm : freshPmm = ⟨fun i => if i < 4000 then 0 else 0,pmmTotalPagesMin,
      frameAddr pmmTotalPagesMin,0⟩ := pmmInit_low _ (by decide)
  have hbt : ∀ i, get freshPmm.bitmap i = false := by
    intro i
    rw [hpmm]
    simp [Bitmap.get]
  have htl : freshPmm.totalPages = pmmTotalPagesMin := by rw [hpmm]
  have hzr : takenFrames freshPmm = 0 := by
    simp [takenFrames,hbt]
  refine enough_of_taken (pmmInit_sized _ _) ?_
  rw [hzr,htl]
  decide

lemma getOrAllocTable_after (s : Vmm) (table idx flags : ℕ) :
    ∃ j ≤ 1, (getOrAllocTable s table idx flags).2.pmm = after j s.pmm := by
  rw [getOrAllocTable]
  dsimp only
  split_ifs
  · exact ⟨0,by omega,rfl⟩
  · exact ⟨0,by omega,rfl⟩
  all_goals exact ⟨1,le_rfl,rfl⟩

lemma mapInPd_after (s : Vmm) (pd virt phys flags : ℕ) :
    ∃ j ≤ 1, (mapInPd s pd virt phys flags).2.pmm = after j s.pmm := by
  rw [mapInPd]
  dsimp only
  split_ifs
  · exact ⟨1,le_rfl,rfl⟩
  · rw [fillSplit_eq,noteReplaced_eq]
    exact ⟨1,le_rfl,rfl⟩
  · rw [mapInPt_pmm]
    exact ⟨0,by omega,rfl⟩
  · exact ⟨1,le_rfl,rfl⟩
  · rw [mapInPt_pmm]
    exact ⟨1,le_rfl,rfl⟩

/-- The tables over the page table of an address are not at address 0. -/
structure Passable (mem : ℕ → ℕ → ℕ) (root virt : ℕ) : Prop where
  pdpt : ∀ n, descend (next mem) (0,root) [pml4Idx virt] = some n → n.2 ≠ 0
  pd : ∀ n, descend (next mem) (0,root) [pml4Idx virt,pdptIdx virt] = some n → n.2 ≠ 0

lemma FreeFrame.ne_zero {f : ℕ} (h : FreeFrame p f) : f ≠ 0 := by
  obtain ⟨i,-,rfl,-⟩ := h
  exact frameAddr_ne_zero i

lemma Passable.extended {root : ℕ} (h : Passable s.mem root virt) (hext : Extended s t roots)
    (hrt : root ∈ roots) : Passable t.mem root virt := by
  refine ⟨?_,?_⟩
  · intro n hn
    rcases hext.new root hrt _ n hn with hold | hfr
    · exact h.pdpt n hold
    · exact FreeFrame.ne_zero hfr
  · intro n hn
    rcases hext.new root hrt _ n hn with hold | hfr
    · exact h.pd n hold
    · exact FreeFrame.ne_zero hfr

lemma getOrAllocTable_ne_zero {table idx k : ℕ} (flags : ℕ) (hk : k ≤ 1)
    (hpr : ∀ n, next s.mem (k,table &&& frameMask) idx = .go n → n.2 ≠ 0)
    (hfr : (pmmAlloc s.pmm).1 ≠ 0) : (getOrAllocTable s table idx flags).1 ≠ 0 := by
  by_cases h : s.mem (table &&& frameMask) idx &&& vmmPresent = 0
  · have hal : (allocPage s).1 ≠ 0 := hfr
    simp [getOrAllocTable,readPtEntry,h,hal]
  · rw [getOrAllocTable_present flags rfl h]
    exact hpr _ (entryStep_table (by omega) h fun hbad => by omega)

lemma mapInPd_succeeds (pd virt phys flags : ℕ) (hfr : (pmmAlloc s.pmm).1 ≠ 0) :
    (mapInPd s pd virt phys flags).1 = 0 := by
  have hal : (allocPage s).1 ≠ 0 := hfr
  rw [mapInPd]
  dsimp only
  split_ifs <;> rfl

lemma vmmMap_after (s : Vmm) (virt phys flags : ℕ) :
    ∃ j ≤ 3, (vmmMap s virt phys flags).2.pmm = after j s.pmm := by
  rw [vmmMap]
  split
  · exact ⟨0,by omega,rfl⟩
  obtain ⟨j,hj,hpmm⟩ := getOrAllocTable_after s s.currentPml4Phys (pml4Idx virt) flags
  dsimp only
  generalize getOrAllocTable s s.currentPml4Phys (pml4Idx virt) flags = pdpt at hpmm ⊢
  split
  · exact ⟨j,by omega,hpmm⟩
  obtain ⟨j',hj',hpmm'⟩ := getOrAllocTable_after pdpt.2 pdpt.1 (pdptIdx virt) flags
  generalize getOrAllocTable pdpt.2 pdpt.1 (pdptIdx virt) flags = pd at hpmm' ⊢
  rw [hpmm,after_add] at hpmm'
  split
  · exact ⟨j'+j,by omega,hpmm'⟩
  obtain ⟨i,hi,hls⟩ := mapInPd_after { pd.2 with lastReplacedPhys := 0 } pd.1 virt phys flags
  refine ⟨i+(j'+j),by omega,?_⟩
  rw [hls]
  rw [hpmm',after_add]

lemma vmmMap_succeeds (phys flags : ℕ) (htab : Tables s.mem s.pmm roots)
    (hrt : rootFrame s ∈ roots)
    (hus : ¬ (flags &&& vmmUser ≠ 0 ∧ (virt < userAddrStart ∨ userAddrEnd ≤ virt)))
    (hps : Passable s.mem (rootFrame s) virt) (hfr : Enough 3 s.pmm) :
    (vmmMap s virt phys flags).1 = 0 := by
  rw [vmmMap,if_neg hus]
  have hst : descend (next s.mem) (0,rootFrame s) [] = some (0,rootFrame s) := rfl
  obtain ⟨hkp,hpd⟩ :=
    getOrAllocTable_spec (i:=pml4Idx virt) flags htab hrt hst (Nat.zero_le 1) rfl
  obtain ⟨j,hj,hpmm⟩ := getOrAllocTable_after s s.currentPml4Phys (pml4Idx virt) flags
  have hne : (getOrAllocTable s s.currentPml4Phys (pml4Idx virt) flags).1 ≠ 0 := by
    refine getOrAllocTable_ne_zero flags (Nat.zero_le 1) ?_ (hfr 0 (by omega))
    intro n hn
    exact hps.pdpt n (descend_snoc.mpr ⟨_,hst,hn⟩)
  generalize getOrAllocTable s s.currentPml4Phys (pml4Idx virt) flags = pdpt at hkp hpd hpmm hne
  obtain ⟨hds,hms⟩ := hpd.resolve_left hne
  have hps' := hps.extended hkp.toExtended hrt
  obtain ⟨j',hj',hpmm'⟩ := getOrAllocTable_after pdpt.2 pdpt.1 (pdptIdx virt) flags
  have hne' : (getOrAllocTable pdpt.2 pdpt.1 (pdptIdx virt) flags).1 ≠ 0 := by
    refine getOrAllocTable_ne_zero flags (le_refl 1) ?_ ?_
    · intro n hn
      rw [hms] at hn
      exact hps'.pd n (descend_snoc.mpr ⟨_,hds,hn⟩)
    · rw [hpmm]
      exact hfr j (by omega)
  dsimp only
  generalize getOrAllocTable pdpt.2 pdpt.1 (pdptIdx virt) flags = pd at hpmm' hne' ⊢
  rw [if_neg hne,if_neg hne']
  rw [hpmm,after_add] at hpmm'
  refine mapInPd_succeeds _ _ _ _ ?_
  rw [hpmm']
  exact hfr (j'+j) (by omega)

lemma mapPagesFrom_succeeds (h : Enough (4*n) s.pmm) (virt i : ℕ) :
    (mapPagesFrom s virt i n).1 = 0 ∧
      ∃ j ≤ 4*n, (mapPagesFrom s virt i n).2.pmm = after j s.pmm := by
  induction n generalizing s i with
  | zero => exact ⟨rfl,0,le_rfl,rfl⟩
  | succ n ih =>
    have hne : (allocPage s).1 ≠ 0 := h 0 (by omega)
    obtain ⟨j,hj,hpmm⟩ := vmmMap_after (allocPage s).2 ((virt+i*4096) % 2^64) (allocPage s).1
      (vmmPresent ||| vmmWritable)
    have hal : (allocPage s).2.pmm = after 1 s.pmm := rfl
    rw [hal,after_add] at hpmm
    rw [mapPagesFrom_succ]
    simp only [hne,if_false]
    generalize vmmMap (allocPage s).2 ((virt+i*4096) % 2^64) (allocPage s).1
      (vmmPresent ||| vmmWritable) = r at hpmm
    obtain ⟨hrc,j',hj',hpmm'⟩ := ih (s := r.2) (hpmm ▸ Enough.rest (h.mono (by omega))) (i+1)
    refine ⟨hrc,j'+(j+1),by omega,?_⟩
    rw [hpmm',hpmm,after_add]

end HarlinKernel.FrameSupply
