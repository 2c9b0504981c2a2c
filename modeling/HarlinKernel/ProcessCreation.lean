import HarlinKernel.ProcessFrames
import HarlinKernel.FrameSupply

/-! `process_create` succeeds while there are 21 free frames: five for the stack, four for the
cloned tables and three for each page of the stack that is mapped. -/
namespace HarlinKernel.ProcessTable

open PageAllocator LabelledWalk PageTable AddressSpace FrameSupply

variable {s t : Kernel} {slot : ℕ} {roots : Set ℕ}

/-- The frames that the next allocations return. -/
def nextFrames (p : Pmm) (n : ℕ) : List ℕ := (List.range n).map fun k => (pmmAlloc (after k p)).1

lemma nextFrames_succ (p : Pmm) (n : ℕ) :
    nextFrames p (n+1) = (pmmAlloc p).1 :: nextFrames (pmmAlloc p).2 n := by
  rw [nextFrames,List.range_succ_eq_map,List.map_cons,List.map_map]
  rfl

variable {n f virt r : ℕ} {v : Vmm} {frames : List ℕ}

lemma allocStack_enough (slot : ℕ) (h : Enough n s.vmm.pmm) :
    (allocStack s slot n).1 = nextFrames s.vmm.pmm n ∧
      (allocStack s slot n).2.vmm = { s.vmm with pmm := after n s.vmm.pmm } := by
  induction n generalizing s with
  | zero => exact ⟨rfl,rfl⟩
  | succ n ih =>
    have hne : (s.alloc slot).1 ≠ 0 := h 0 (by omega)
    have hrs : Enough n (s.alloc slot).2.vmm.pmm := Enough.rest (m:=1) h
    obtain ⟨hfr,hvmm⟩ := ih hrs
    rw [allocStack]
    simp only [hne,if_false]
    rw [hfr,hvmm,nextFrames_succ]
    exact ⟨rfl,rfl⟩

lemma FreeFrame.frame {p : Pmm} (hs : Sized p) (h : FreeFrame p f) : f &&& frameMask = f := by
  obtain ⟨i,hi,rfl,-⟩ := h
  have hmax := hs.small
  have had : frameAddr i = 0x300000+i*4096 := rfl
  exact aligned_and_frameMask (by omega) (by omega)

/-- What must hold to map pages one after the other from `virt` on. -/
structure Mappable (s : Vmm) (roots : Set ℕ) (virt n : ℕ) : Prop where
  tables : Tables s.mem s.pmm roots
  root : s.currentPml4Phys &&& frameMask ∈ roots
  pass : ∀ k < n, Passable s.mem (s.currentPml4Phys &&& frameMask) (virt+k*4096)
  enough : Enough (3*n) s.pmm

lemma Mappable.step (h : Mappable v roots virt (n+1)) (phys : ℕ) :
    (vmmMap v virt phys (vmmPresent ||| vmmWritable)).1 = 0 ∧
    Mapped v (vmmMap v virt phys (vmmPresent ||| vmmWritable)).2 roots
      (rootFrame v) virt phys ∧
    Mappable (vmmMap v virt phys (vmmPresent ||| vmmWritable)).2 roots (virt+4096) n := by
  have hfr := h.pass 0 (by omega)
  rw [Nat.zero_mul,Nat.add_zero] at hfr
  have hrc := vmmMap_succeeds phys (vmmPresent ||| vmmWritable) h.tables h.root
    (fun hbad => hbad.1 (by decide)) hfr (h.enough.mono (by omega))
  obtain ⟨j,hj,hpmm⟩ := vmmMap_after v virt phys (vmmPresent ||| vmmWritable)
  rcases vmmMap_spec virt phys h.tables h.root (by decide : vmmPresent ||| vmmWritable < 8) with
    ⟨hbad,-⟩ | ⟨-,hmp⟩
  · rw [hbad] at hrc
    cases hrc
  refine ⟨hrc,hmp,hmp.tables,hmp.current ▸ h.root,?_,?_⟩
  · intro k hk
    have hps := (h.pass (k+1) (by omega)).extended hmp.toExtended h.root
    rw [hmp.current]
    rwa [Nat.add_mul,Nat.one_mul,Nat.add_comm (k*4096),← Nat.add_assoc] at hps
  · rw [hpmm]
    exact Enough.rest (h.enough.mono (by omega))

lemma mapStack_succeeds (h : Mappable s.vmm roots virt frames.length) :
    (mapStack s virt frames).1 = true ∧
    (mapStack s virt frames).2.vmm.currentPml4Phys = s.vmm.currentPml4Phys ∧
    ∀ v, (∀ k < frames.length, labels v ≠ labels (virt+k*4096)) →
      physAddr (mapStack s virt frames).2.vmm.mem (rootFrame s.vmm) v =
        physAddr s.vmm.mem (rootFrame s.vmm) v := by
  induction frames generalizing s virt with
  | nil => exact ⟨rfl,rfl,fun _ _ => rfl⟩
  | cons f frames ih =>
    obtain ⟨hrc,hmp,hnx⟩ := h.step f
    obtain ⟨htr,hcr,hsm⟩ := ih (s := (s.map virt f (vmmPresent ||| vmmWritable)).2) hnx
    rw [mapStack]
    have hzr : (s.map virt f (vmmPresent ||| vmmWritable)).1 = 0 := hrc
    rw [if_neg (not_not.mpr hzr)]
    refine ⟨htr,hcr.trans hmp.current,?_⟩
    intro v hv
    have hrs := hsm v fun k hk => by
      have hne := hv (k+1) (by simpa using hk)
      rwa [Nat.add_mul,Nat.one_mul,Nat.add_comm (k*4096),← Nat.add_assoc] at hne
    have hcur : rootFrame (s.map virt f (vmmPresent ||| vmmWritable)).2.vmm = rootFrame s.vmm :=
      hmp.rootFrame_eq
    rw [hcur] at hrs
    rw [hrs]
    have hne := hv 0 (by simp)
    exact (hmp.page _ h.root v).trans (if_neg fun hbad => hne hbad.1)

lemma mapStack_first (h : Mappable s.vmm roots virt (f :: frames).length)
    (hfm : f &&& frameMask = f) (hpage : virt % 4096 = 0) (hlt : frames.length < 2^36)
    (hne : s.vmm.currentPml4Phys ≠ 0) : (mapStack s virt (f :: frames)).2.phys virt = f := by
  obtain ⟨hrc,hmp,hnx⟩ := h.step f
  have hcur : (s.map virt f (vmmPresent ||| vmmWritable)).2.vmm.currentPml4Phys =
      s.vmm.currentPml4Phys := hmp.current
  obtain ⟨-,hcr,hsm⟩ :=
    mapStack_succeeds (s := (s.map virt f (vmmPresent ||| vmmWritable)).2) hnx
  have hzr : (s.map virt f (vmmPresent ||| vmmWritable)).1 = 0 := hrc
  have hvr : physAddr (mapStack (s.map virt f (vmmPresent ||| vmmWritable)).2 (virt+4096)
      frames).2.vmm.mem (rootFrame s.vmm) virt = some f := by
    rw [rootFrame,hcur] at hsm
    have hof : virt &&& 0xFFF = 0 := (Nat.and_two_pow_sub_one_eq_mod virt 12).trans hpage
    have hfr := hmp.page _ h.root virt
    rw [if_pos ⟨rfl,rfl⟩,hfm,hof,Nat.or_zero] at hfr
    refine (hsm virt ?_).trans hfr
    intro k hk hbad
    rw [labels_eq_iff] at hbad
    omega
  rw [mapStack,if_neg (not_not.mpr hzr),Kernel.phys,vmmGetPhysLocked_eq,hcr,hcur,if_neg hne,
    hvr]
  rfl

lemma Cloned.passable {w : Vmm} {new : ℕ} (h : Cloned v w roots new)
    (hps : ∀ r ∈ roots, Passable v.mem r virt) (hr : r ∈ insert new roots) :
    Passable w.mem r virt := by
  refine ⟨?_,?_⟩
  · intro n hn
    rcases h.tree r hr _ n hn with ⟨r',hr',hold⟩ | hfr
    · exact (hps r' hr').pdpt n hold
    · exact FrameSupply.FreeFrame.ne_zero hfr
  · intro n hn
    rcases h.tree r hr _ n hn with ⟨r',hr',hold⟩ | hfr
    · exact (hps r' hr').pd n hold
    · exact FrameSupply.FreeFrame.ne_zero hfr

lemma cloneStack_succeeds (hlen : frames.length = 5) (hfm : ∀ f ∈ frames, f &&& frameMask = f)
    (htab : Tables s.vmm.mem s.vmm.pmm roots) (hsc : ∀ r ∈ roots, Space s.vmm.mem r)
    (hcur : s.vmm.currentPml4Phys ∈ roots)
    (hps : ∀ r ∈ roots, ∀ k < 4, Passable s.vmm.mem r (stackBaseOf slot+k*4096))
    (hen : Enough 16 s.vmm.pmm) :
    (cloneStack s slot frames).1 = true ∧ (cloneStack s slot frames).2.1 ≠ 0 := by
  obtain ⟨hnew,hpmm⟩ := clone_some (s := s.vmm) fun k hk => hen k (by omega)
  have hne : (s.clone slot).1 ≠ 0 := by
    change (vmmCloneKernelPml4 s.vmm).1 ≠ 0
    rw [hnew]
    exact hen 0 (by omega)
  rcases vmmCloneKernelPml4_spec htab hsc hcur with ⟨hbad,-⟩ | hcl
  · exact (hne hbad).elim
  obtain ⟨u,hu⟩ : ∃ u, u = (s.clone slot).2.switch (s.clone slot).1 := ⟨_,rfl⟩
  have hu_vmm : u.vmm.mem = (vmmCloneKernelPml4 s.vmm).2.mem ∧
      u.vmm.pmm = (vmmCloneKernelPml4 s.vmm).2.pmm ∧
      u.vmm.currentPml4Phys = (vmmCloneKernelPml4 s.vmm).1 := by
    rw [hu]
    exact ⟨rfl,rfl,rfl⟩
  have hsp := hcl.spaces _ (Set.mem_insert _ roots)
  obtain ⟨f,rest,rfl⟩ := List.exists_cons_of_length_pos (l:=frames) (by omega)
  have hrs : (rest.take 3).length = 3 := by
    rw [List.length_take]
    simp only [List.length_cons] at hlen
    omega
  have hmp : Mappable u.vmm (insert (vmmCloneKernelPml4 s.vmm).1 roots) (stackBaseOf slot)
      (f :: rest.take 3).length := by
    refine ⟨?_,?_,?_,?_⟩
    · rw [hu_vmm.1,hu_vmm.2.1]
      exact hcl.tables
    · rw [hu_vmm.2.2,hsp.frame]
      exact Set.mem_insert _ _
    · intro k hk
      rw [List.length_cons,hrs] at hk
      rw [hu_vmm.1,hu_vmm.2.2,hsp.frame]
      exact Cloned.passable hcl (fun r hr => hps r hr k hk) (Set.mem_insert _ _)
    · rw [hu_vmm.2.1,hpmm,List.length_cons,hrs]
      exact Enough.rest hen
  have hma := mapStack_succeeds hmp
  have hfr := mapStack_first hmp (hfm f List.mem_cons_self)
    (by rw [stackBaseOf,kernelStackBase,kernelStackSize]; omega) (by omega)
    (by rw [hu_vmm.2.2]; exact hne)
  rw [cloneStack]
  simp only [hne,if_false]
  rw [← hu,List.take_succ_cons,hma.1,hfr]
  exact ⟨by simp,hne⟩

lemma prepare_succeeds (slot : ℕ) (htab : Tables s.vmm.mem s.vmm.pmm roots)
    (hsp : ∀ r ∈ roots, Space s.vmm.mem r) (hcur : s.vmm.currentPml4Phys ∈ roots)
    (hps : ∀ r ∈ roots, ∀ k < 4, Passable s.vmm.mem r (stackBaseOf slot+k*4096))
    (hen : Enough 21 s.vmm.pmm) :
    let stack := allocStack s slot 5
    stack.1.length = 5 ∧ (cloneStack stack.2 slot stack.1).1 = true ∧
      (cloneStack stack.2 slot stack.1).2.1 ≠ 0 := by
  have hst := allocStack_spec htab.sized slot 5
  obtain ⟨hfr,hvmm⟩ := allocStack_enough slot (hen.mono (by omega : 5 ≤ 21))
  generalize allocStack s slot 5 = stack at hst hfr hvmm ⊢
  have hlen : stack.1.length = 5 := by rw [hfr,nextFrames,List.length_map,List.length_range]
  have hms : ∀ f ∈ stack.1, f &&& frameMask = f :=
    fun f hf => FreeFrame.frame htab.sized (hst.free f hf)
  have hmem : stack.2.vmm.mem = s.vmm.mem := by rw [hvmm]
  have hcr : stack.2.vmm.currentPml4Phys = s.vmm.currentPml4Phys := by rw [hvmm]
  have hpmm : stack.2.vmm.pmm = after 5 s.vmm.pmm := by rw [hvmm]
  exact ⟨hlen,cloneStack_succeeds hlen hms (hmem ▸ htab.shrink hst.took.pmm) (hmem ▸ hsp)
    (hcr ▸ hcur) (hmem ▸ hps) (hpmm ▸ Enough.rest hen)⟩

lemma processCreate_succeeds (hsl : findSlot s.processes = some slot)
    (htab : Tables s.vmm.mem s.vmm.pmm roots) (hsp : ∀ r ∈ roots, Space s.vmm.mem r)
    (hcur : s.vmm.currentPml4Phys ∈ roots)
    (hps : ∀ r ∈ roots, ∀ k < 4, Passable s.vmm.mem r (stackBaseOf slot+k*4096))
    (hen : Enough 21 s.vmm.pmm) (rip rsp : ℕ) :
    (processCreate s rip rsp).1 = slot ∧
    ∀ j < 4,
      ((processCreate s rip rsp).2.processes slot).kernelStackPagesPhys j =
        (pmmAlloc (after j s.vmm.pmm)).1 := by
  obtain ⟨hlen,hcl⟩ := prepare_succeeds slot htab hsp hcur hps hen
  obtain ⟨hfr,-⟩ := allocStack_enough slot (hen.mono (by omega : 5 ≤ 21))
  rw [processCreate,hsl]
  dsimp only
  rw [if_neg (not_not.mpr hlen),if_neg hcl.2,hcl.1]
  refine ⟨rfl,?_⟩
  intro j hj
  simp only [Bool.true_eq_false,if_false,Kernel.free,modify_processes_self,Process.started,hj,
    if_true]
  rw [hfr,nextFrames,List.getD_eq_getElem _ _ (by simp; omega)]
  simp

lemma processCreate_started {rip rsp : ℕ} (hs : Sized s.vmm.pmm)
    (hsl : findSlot s.processes = some slot) (hrc : (processCreate s rip rsp).1 = slot) :
    ∃ cloned, Started s (processCreate s rip rsp).2 slot cloned := by
  have hot := processCreate_outcome hs hsl rip rsp
  generalize processCreate s rip rsp = r at hrc hot ⊢
  cases hot with
  | refused _ _ => simp only at hrc; omega
  | leaked _ _ _ => simp only at hrc; omega
  | started _ hst => exact ⟨_,hst⟩

lemma TempTable.passable {mem : ℕ → ℕ → ℕ} {pt : ℕ} (h : TempTable mem r pt)
    (hvr : virt / 2^30 % 2^18 = 2^17) : Passable mem r virt := by
  obtain ⟨pdpt,pd,hpp,hpd,hpp',hpd'⟩ := h.upper
  have hidx : pml4Idx virt = pml4Idx tempMapVa ∧ pdptIdx virt = pdptIdx tempMapVa := by
    simp only [pml4Idx,pdptIdx,index_eq,tempMapVa]
    omega
  refine ⟨?_,?_⟩
  · intro n hn
    rw [hidx.1,hpp'] at hn
    cases hn
    exact hpp
  · intro n hn
    rw [hidx.1,hidx.2,hpd'] at hn
    cases hn
    exact hpd

/-- The kernel after `vmm_init` and `scheduler_init`. -/
def bootKernel (v : Vmm) : Kernel := schedulerInit ⟨v,fun _ => Process.zero,none,[]⟩

lemma bootKernel_slot (v : Vmm) : findSlot (bootKernel v).processes = some 0 := rfl

/-- The first process of a machine with 28 free frames. -/
lemma boot_create_over {p : Pmm} (hs : Sized p) (hen : Enough 28 p) :
    ∃ v, vmmInit (bootState (fun _ _ => 0) p) bootPml4 = some v ∧ Shrunk p v.pmm ∧
      ∀ rip rsp, (processCreate (bootKernel v) rip rsp).1 = 0 ∧
        ∀ j < 4, ((processCreate (bootKernel v) rip rsp).2.processes 0).kernelStackPagesPhys j =
          (pmmAlloc (after (j+7) p)).1 := by
  obtain ⟨v,hin,hpmm⟩ := vmmInit_some fun k hk => hen k (by omega)
  obtain ⟨htab,hcr,hsp,-,pt,htm⟩ := vmmInit_spec hs hin
  obtain ⟨_,_,_,_,_,_,_,hall,-⟩ := vmmInit_cases hs hin
  refine ⟨v,hin,hall.shrunk hs,?_⟩
  intro rip rsp
  have hvmm : (bootKernel v).vmm = v := rfl
  have hsc := processCreate_succeeds (s := bootKernel v) (bootKernel_slot v) htab
    (fun r hr => hr ▸ hsp) hcr ?_ ?_ rip rsp
  · refine ⟨hsc.1,?_⟩
    intro j hj
    rw [hsc.2 j hj,hvmm,hpmm,after_add]
  · rintro r rfl k hk
    refine TempTable.passable htm ?_
    rw [stackBaseOf,kernelStackBase,kernelStackSize]
    omega
  · rw [hvmm,hpmm]
    exact Enough.rest hen

lemma boot_create : ∃ v, vmmInit (bootState (fun _ _ => 0) freshPmm) bootPml4 = some v ∧
    Sized v.pmm ∧ ∀ rip rsp, (processCreate (bootKernel v) rip rsp).1 = 0 ∧
      ∀ j < 4, ((processCreate (bootKernel v) rip rsp).2.processes 0).kernelStackPagesPhys j =
        frameAddr (j+7) := by
  obtain ⟨v,hin,hsh,hcr⟩ := boot_create_over (p := freshPmm) (pmmInit_sized _ _)
    (freshPmm_enough.mono (by decide))
  refine ⟨v,hin,hsh.sized,fun rip rsp => ⟨(hcr rip rsp).1,fun j hj => ?_⟩⟩
  rw [(hcr rip rsp).2 j hj,freshPmm_alloc _ (by omega)]

end HarlinKernel.ProcessTable
