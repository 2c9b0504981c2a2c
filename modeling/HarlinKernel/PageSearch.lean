import HarlinKernel.PageAllocator

/-! The searches of `mem/pmm.c` miss nothing: they give up only when no frame, or no run of
the wanted length, is free. -/
namespace HarlinKernel.PageSearch

open TransitionSystem Bitmap PageAllocator

lemma pmmInit_total (s : Pmm) (bssEnd : ℕ) : (pmmInit s bssEnd).totalPages = pmmTotalPagesMin := by
  have htop : ¬ (pmmBaseAddr+pmmTotalPagesMin*pmmPageSize ≤ pmmBaseAddr) := by decide
  have hpg : managedPages (pmmBaseAddr+pmmTotalPagesMin*pmmPageSize) = pmmTotalPagesMin := by
    decide
  have hly : pmmCheckLayout pmmTotalPagesMin = 0 := by decide
  simp only [pmmInit,pmmInitFromE820,if_neg htop,hpg,hly,ne_eq,not_true_eq_false,if_false]

lemma pmm_total (s : Pmm) (c : Call) :
    (c.pmm s).2.totalPages = s.totalPages ∧ (c.pmm s).2.topAddr = s.topAddr := by
  cases c with
  | alloc =>
    simp only [Call.pmm,pmmAlloc]
    split <;> exact ⟨rfl,rfl⟩
  | contiguous count =>
    simp only [Call.pmm,pmmAllocContiguous]
    split
    · exact ⟨rfl,rfl⟩
    · split <;> exact ⟨rfl,rfl⟩
  | low count =>
    simp only [Call.pmm,pmmAllocLow]
    split
    · exact ⟨rfl,rfl⟩
    · split <;> exact ⟨rfl,rfl⟩
  | free addr =>
    simp only [Call.pmm,pmmFree]
    split
    · exact ⟨rfl,rfl⟩
    · split <;> exact ⟨rfl,rfl⟩

/-- Any calls with any arguments after `pmm_init`. -/
def anyRuns : System Pmm (Call × ℕ) := calls (fun s => ∃ s₀ bssEnd, s = pmmInit s₀ bssEnd) Call.pmm

lemma anyRuns_step (s : Pmm) (c : Call) : anyRuns.step s (c,(c.pmm s).1) (c.pmm s).2 := rfl

/-- The range that `pmm_init` sets up. -/
structure Managed (s : Pmm) : Prop where
  sized : Sized s
  total : s.totalPages = pmmTotalPagesMin

lemma Managed.reached {l : List (Call × ℕ)} {s : Pmm} (h : Trace anyRuns l s) : Managed s := by
  refine h.invariant (fun _ => Managed) ?_ ?_
  · rintro _ ⟨s₀,bssEnd,rfl⟩
    exact ⟨pmmInit_sized s₀ bssEnd,pmmInit_total s₀ bssEnd⟩
  · rintro _ s ⟨c,out⟩ t hs hst
    obtain ⟨htl,htop⟩ := pmm_total s c
    have ht : (c.pmm s).2 = t := congrArg Prod.snd hst
    rw [ht] at htl htop
    exact ⟨⟨htl ▸ hs.sized.min,htl ▸ hs.sized.max,by rw [htop,htl]; exact hs.sized.top⟩,
      htl.trans hs.total⟩

lemma freeRun_not_full {s : Pmm} {base count : ℕ} (h : FreeRun s base count) (hpos : 1 ≤ count) :
    s.bitmap (base / 8) ≠ 0xFF := by
  intro hfl
  have hget := get_of_full hfl
  rw [h.free base le_rfl (by omega)] at hget
  cases hget

section Searches

variable {s : Pmm} {count : ℕ}

lemma contiguousFrom_none (hs : Managed s) (hpos : 1 ≤ count)
    (hno : contiguousFrom s count 0 = none) (base : ℕ) : ¬ FreeRun s base count := by
  intro h
  have hmin : pmmTotalPagesMin = 32000 := rfl
  have hin := h.inside
  have htl := hs.total
  simp only [contiguousFrom,hs.sized.total_mod] at hno
  rcases findBit_none hno (Nat.zero_le _) (b:=base) (by omega) with hfl | hacc
  · exact freeRun_not_full h hpos hfl
  · refine absurd ((contiguousFits_iff (by omega) hpos).mpr ⟨Nat.zero_le _,?_,fun k hk => ?_⟩)
      (Bool.eq_false_iff.mp hacc)
    · rwa [Nat.mod_eq_of_lt (by omega)]
    · exact h.free _ (by omega) (by omega)

lemma lowSearch_none (hs : Managed s) (hpos : 1 ≤ count)
    (hno : findBit s.bitmap (lowFits s.bitmap (s.totalPages % 2^32) count)
      (s.totalPages % 2^32 / 8) 0 = none) {base : ℕ} (h : FreeRun s base count) :
    isaDmaLimit < frameAddr base+count*pmmPageSize := by
  by_contra hlow
  have hmin : pmmTotalPagesMin = 32000 := rfl
  have hpage : pmmPageSize = 4096 := rfl
  have hin := h.inside
  have htl := hs.total
  rw [hs.sized.total_mod] at hno
  rcases findBit_none hno (Nat.zero_le _) (b:=base) (by omega) with hfl | hacc
  · exact freeRun_not_full h hpos hfl
  · refine absurd ((lowFits_iff (by omega) hpos).mpr ⟨?_,fun k hk => ?_⟩)
      (Bool.eq_false_iff.mp hacc)
    · rwa [Nat.mod_eq_of_lt (by omega)]
    · refine ⟨h.free _ (by omega) (by omega),?_⟩
      -- a frame of the run ends no later than the run
      simp only [pmmIdxInRange,frameAddr,hpage,decide_eq_true_eq] at hlow ⊢
      omega

lemma pmmAllocContiguous_zero (hs : Managed s) (hpos : 1 ≤ count)
    (hzr : (pmmAllocContiguous s count).1 = 0) (base : ℕ) : ¬ FreeRun s base count := by
  simp only [pmmAllocContiguous,if_neg (Nat.ne_of_gt hpos)] at hzr
  split at hzr
  · rename_i found _
    exact (frameAddr_ne_zero found hzr).elim
  · rename_i hno
    -- the second round starts at the first frame, whatever the saved index is
    exact contiguousFrom_none hs hpos (Option.or_eq_none_iff.mp hno).2 base

lemma pmmAllocLow_zero (hs : Managed s) (hpos : 1 ≤ count) (hzr : (pmmAllocLow s count).1 = 0)
    {base : ℕ} (h : FreeRun s base count) : isaDmaLimit < frameAddr base+count*pmmPageSize := by
  simp only [pmmAllocLow,if_neg (Nat.ne_of_gt hpos)] at hzr
  split at hzr
  · rename_i found _
    exact (frameAddr_ne_zero found hzr).elim
  · rename_i hno
    exact lowSearch_none hs hpos hno h

lemma pmmAlloc_zero (hs : Managed s) (hzr : (pmmAlloc s).1 = 0) :
    ∀ f < s.totalPages, get s.bitmap f = true := by
  have hmin : pmmTotalPagesMin = 32000 := rfl
  have htl := hs.total
  intro f hf
  exact (pmmAlloc_eq_zero_iff hs.sized).mp hzr f (by omega)

end Searches

/-- After any calls, and with any saved index, an allocation fails only when there is
nothing to allocate. -/
theorem searches_complete (l : List (Call × ℕ)) (s : Pmm) (h : Trace anyRuns l s) (lastIdx : ℕ) :
    s.totalPages = 32000 ∧
    ((pmmAlloc { s with lastIdx := lastIdx }).1 = 0 → ∀ f < s.totalPages, get s.bitmap f = true) ∧
    ∀ count, 1 ≤ count → count ≤ 32000 →
      ((pmmAllocContiguous { s with lastIdx := lastIdx } count).1 = 0 →
          ¬ ∃ base, FreeRun s base count) ∧
        ((pmmAllocLow { s with lastIdx := lastIdx } count).1 = 0 →
          ¬ ∃ base, FreeRun s base count ∧ frameAddr base+count*pmmPageSize ≤ isaDmaLimit) := by
  have hs : Managed s := .reached h
  have hany : Managed { s with lastIdx := lastIdx } :=
    ⟨⟨hs.sized.min,hs.sized.max,hs.sized.top⟩,hs.total⟩
  refine ⟨hs.total,pmmAlloc_zero hany,fun count hpos _ => ⟨?_,?_⟩⟩
  · rintro hzr ⟨base,hrun⟩
    exact pmmAllocContiguous_zero hany hpos hzr base ⟨hrun.inside,hrun.free⟩
  · rintro hzr ⟨base,hrun,hlow⟩
    have hhg := pmmAllocLow_zero hany hpos hzr ⟨hrun.inside,hrun.free⟩
    omega

/-- A machine whose bitmap held ones before `pmm_init`, after a run of three frames. -/
theorem searches_complete_booted :
    (Call.pmm (pmmInit ⟨fun _ => 0xFF,0,0,0⟩ 0x100000) (.contiguous 3)).2.totalPages = 32000 ∧
    ((pmmAllocContiguous
        { (Call.pmm (pmmInit ⟨fun _ => 0xFF,0,0,0⟩ 0x100000) (.contiguous 3)).2 with
          lastIdx := 31999 } 2).1 = 0 →
      ¬ ∃ base, FreeRun (Call.pmm (pmmInit ⟨fun _ => 0xFF,0,0,0⟩ 0x100000) (.contiguous 3)).2
        base 2) := by
  have hany : ∀ p, (∃ s₀ bssEnd, p = pmmInit s₀ bssEnd) →
      (Call.pmm p (.contiguous 3)).2.totalPages = 32000 ∧
      ((pmmAllocContiguous { (Call.pmm p (.contiguous 3)).2 with lastIdx := 31999 } 2).1 = 0 →
        ¬ ∃ base, FreeRun (Call.pmm p (.contiguous 3)).2 base 2) := by
    intro p hp
    have hst : Trace anyRuns [] p := .start hp
    have hrun := hst.next (anyRuns_step p (.contiguous 3))
    have hall := searches_complete _ _ hrun 31999
    exact ⟨hall.1,(hall.2.2 2 (by decide) (by decide)).1⟩
  exact hany _ ⟨_,_,rfl⟩

end HarlinKernel.PageSearch
