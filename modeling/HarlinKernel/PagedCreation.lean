import HarlinKernel.AddressIsolation
import HarlinKernel.ProcessFrames

/-! The page tables while processes are created. Each function of the process table is a
sequence of paging calls by a caller that frees only frames it holds, so that the tables of all
address spaces stay a tree whether it succeeds or fails. -/
namespace HarlinKernel.ProcessTable

open PageAllocator LabelledWalk PageTable
open List (mem_cons mem_cons_self mem_cons_of_mem append_nil)

variable {s t : Kernel} {clones keep : List ℕ} {slot f : ℕ}

/-- What is known about the paging state, with the listed frames held by other code. -/
def Within (I : AddressSpace.Kernel → Prop) (s : Kernel) (clones keep : List ℕ) : Prop :=
  ∃ held, I ⟨s.vmm,clones,held⟩ ∧ ∀ f ∈ keep, f ∈ held

/-- The tables after a creation: there may be one address space more, that of the new process. -/
def GrownWithin (I : AddressSpace.Kernel → Prop) (t : Kernel) (clones : List ℕ) (slot : ℕ) : Prop :=
  ∃ clones', Within I t clones' [] ∧ (∀ r ∈ clones, r ∈ clones') ∧
    ((t.processes slot).state ≠ .none → (t.processes slot).pml4Phys ∈ clones')

/-- The tables of the address spaces are sound. -/
def Paged : Kernel → List ℕ → List ℕ → Prop := Within AddressSpace.Sound

def Grown : Kernel → List ℕ → ℕ → Prop := GrownWithin AddressSpace.Sound

variable {virt : ℕ} {frames : List ℕ} {image : ElfImage}

lemma stack_labels (hlow : kernelStackBase ≤ virt) (hhg : virt < kernelStackBase+2^30) :
    labels virt ≠ labels AddressSpace.kernelPml4Virt := by
  rw [Ne,labels_eq_iff,AddressSpace.kernelPml4Virt]
  rw [kernelStackBase] at hlow hhg
  omega

lemma stackBaseOf_bounds (hsl : slot < maxProcesses) (hlen : frames.length ≤ 4) :
    kernelStackBase ≤ stackBaseOf slot ∧
    stackBaseOf slot+frames.length*4096 ≤ kernelStackBase+2^30 := by
  rw [maxProcesses] at hsl
  rw [stackBaseOf,kernelStackSize]
  omega

section Calls

variable {I : AddressSpace.Kernel → Prop} {clones₀ : List ℕ}

lemma Within.mono {keep' : List ℕ} (h : Within I s clones keep) (hsub : ∀ f ∈ keep', f ∈ keep) :
    Within I s clones keep' := by
  obtain ⟨held,hk,hkp⟩ := h
  exact ⟨held,hk,fun f hf => hkp f (hsub f hf)⟩

lemma Within.modify (h : Within I s clones keep) (slot : ℕ) (change : Process → Process) :
    Within I (s.modify slot change) clones keep := h

lemma Within.grown (h : Within I t clones []) (hcl : ∀ r ∈ clones₀, r ∈ clones)
    (hde : (t.processes slot).state = .none) : GrownWithin I t clones₀ slot :=
  ⟨clones,h,hcl,fun hlv => (hlv hde).elim⟩

variable (hI : AddressSpace.Stable I)
include hI

lemma Within.sized (h : Within I s clones keep) : Sized s.vmm.pmm := by
  obtain ⟨held,hk,-⟩ := h
  exact (hI.sound _ hk).tables.sized

lemma Within.alloc (h : Within I s clones keep) (hne : (s.alloc slot).1 ≠ 0) :
    Within I (s.alloc slot).2 clones ((s.alloc slot).1 :: keep) := by
  obtain ⟨held,hk,hkp⟩ := h
  have hpage : (allocPage s.vmm).1 ≠ 0 := hne
  have hnx := hI.call _ .alloc hk trivial
  simp only [AddressSpace.Call.run,hpage,if_false] at hnx
  refine ⟨_,hnx,?_⟩
  intro f hf
  rcases mem_cons.mp hf with rfl | hf
  · exact mem_cons_self
  · exact mem_cons_of_mem _ (hkp f hf)

lemma Within.free (h : Within I s clones (f :: keep)) (hf : f ∉ keep) :
    Within I (s.free slot f) clones keep := by
  obtain ⟨held,hk,hkp⟩ := h
  have hnx := hI.call _ (.free f) hk (hkp f mem_cons_self)
  refine ⟨held.erase f,hnx,?_⟩
  intro g hg
  have hne : g ≠ f := fun hbad => hf (hbad ▸ hg)
  exact (List.mem_erase_of_ne hne).mpr (hkp g (mem_cons_of_mem f hg))

lemma Within.freeAll (h : Within I s clones (frames ++ keep))
    (hnd : (frames ++ keep).Nodup) : Within I (freeAll s slot frames) clones keep := by
  induction frames generalizing s with
  | nil => exact h
  | cons f frames ih =>
    rw [List.cons_append,List.nodup_cons] at hnd
    exact ih (h.free hI hnd.1) hnd.2

lemma Within.clone (h : Within I s clones keep) (slot : ℕ) :
    Within I (s.clone slot).2
      (if (s.clone slot).1 = 0 then clones else (s.clone slot).1 :: clones) keep := by
  obtain ⟨held,hk,hkp⟩ := h
  exact ⟨held,hI.call _ .clone hk trivial,hkp⟩

lemma Within.switch (h : Within I s clones keep) {pml4Phys : ℕ}
    (hrt : pml4Phys = AddressSpace.bootPml4 ∨ pml4Phys ∈ clones) :
    Within I (s.switch pml4Phys) clones keep := by
  obtain ⟨held,hk,hkp⟩ := h
  exact ⟨held,hI.call _ (.switch pml4Phys) hk hrt,hkp⟩

lemma Within.current (h : Within I s clones keep) :
    s.vmm.currentPml4Phys = AddressSpace.bootPml4 ∨ s.vmm.currentPml4Phys ∈ clones := by
  obtain ⟨held,hk,-⟩ := h
  exact (hI.sound _ hk).current

lemma Within.map (h : Within I s clones keep) {flags : ℕ} (phys : ℕ) (hfl : flags < 8)
    (hvr : labels virt ≠ labels AddressSpace.kernelPml4Virt) :
    Within I (s.map virt phys flags).2 clones keep := by
  obtain ⟨held,hk,hkp⟩ := h
  exact ⟨held,hI.call _ (.map virt phys flags) hk ⟨hfl,hvr⟩,hkp⟩

lemma Within.mapUser (h : Within I s clones keep) (virt phys : ℕ) :
    Within I (s.map virt phys (vmmPresent ||| vmmWritable ||| vmmUser)).2 clones keep := by
  by_cases hvr : labels virt = labels AddressSpace.kernelPml4Virt
  · have hout : userAddrEnd ≤ virt := by
      rw [labels_eq_iff,AddressSpace.kernelPml4Virt] at hvr
      rw [userAddrEnd]
      omega
    have hsm : (s.map virt phys (vmmPresent ||| vmmWritable ||| vmmUser)).2 = s := by
      have hfl : vmmMap s.vmm virt phys (vmmPresent ||| vmmWritable ||| vmmUser) = (-1,s.vmm) := by
        rw [vmmMap,if_pos ⟨by decide,.inr hout⟩]
      rw [Kernel.map,hfl]
    rw [hsm]
    exact h
  · exact h.map hI phys (by decide) hvr

lemma Within.clear (h : Within I s clones (f :: keep)) :
    Within I { s with vmm := clearPagePhys s.vmm f } clones (f :: keep) := by
  obtain ⟨held,hk,hkp⟩ := h
  exact ⟨held,hI.store _ f (fun _ => 0) hk (hkp f mem_cons_self),hkp⟩

lemma Within.allocStack (h : Within I s clones keep) (slot n : ℕ) :
    Within I (allocStack s slot n).2 clones ((allocStack s slot n).1 ++ keep) := by
  induction n generalizing s keep with
  | zero => exact h
  | succ n ih =>
    rw [ProcessTable.allocStack]
    rcases Kernel.alloc_cases (h.sized hI) slot with hfl | ⟨hne,-,-⟩
    · simp only [hfl,if_true]
      exact h
    · simp only [hne,if_false]
      refine (ih (h.alloc hI hne)).mono fun f hf => ?_
      simp only [List.mem_append,mem_cons] at hf ⊢
      tauto

lemma Within.mapStack (h : Within I s clones keep)
    (hlow : kernelStackBase ≤ virt) (hhg : virt+frames.length*4096 ≤ kernelStackBase+2^30) :
    Within I (mapStack s virt frames).2 clones keep := by
  induction frames generalizing s virt with
  | nil => exact h
  | cons f frames ih =>
    rw [List.length_cons] at hhg
    have hmap := h.map hI f (by decide : vmmPresent ||| vmmWritable < 8)
      (stack_labels hlow (by omega))
    rw [ProcessTable.mapStack]
    split
    · exact hmap
    · exact ih hmap (by omega) (by omega)

lemma Within.cloneStack (h : Within I s clones keep) (hsl : slot < maxProcesses)
    (frames : List ℕ) : Within I (cloneStack s slot frames).2.2 (if (cloneStack s slot frames).2.1 =
    0 then clones else (cloneStack s slot frames).2.1 :: clones) keep := by
  have hcl := h.clone hI slot
  rw [ProcessTable.cloneStack]
  by_cases hzr : (s.clone slot).1 = 0
  · simp only [hzr,if_true] at hcl ⊢
    exact hcl
  · simp only [hzr,if_false] at hcl ⊢
    have hlen : (frames.take 4).length ≤ 4 := by rw [List.length_take]; omega
    obtain ⟨hlow,hhg⟩ := stackBaseOf_bounds hsl hlen
    exact (hcl.switch hI (.inr mem_cons_self)).mapStack hI hlow hhg

lemma Within.not_free (h : Within I s clones keep) (hf : f ∈ keep) : ¬ FreeFrame s.vmm.pmm f := by
  obtain ⟨held,hk,hkp⟩ := h
  exact ((hI.sound _ hk).held f (hkp f hf)).used

lemma Within.addUserPage (h : Within I s clones keep) (slot virt : ℕ) :
    Within I (addUserPage s slot virt).2 clones keep := by
  rw [ProcessTable.addUserPage]
  rcases Kernel.alloc_cases (h.sized hI) slot with hfl | ⟨hne,hgot,-⟩
  · simp only [hfl,if_true]
    exact h
  · simp only [hne,if_false]
    have hmp := ((h.alloc hI hne).clear hI).mapUser hI virt (s.alloc slot).1
    split
    · exact hmp.free hI fun hbad => h.not_free hI hbad hgot.free
    · exact hmp.mono fun f hf => mem_cons_of_mem _ hf

lemma Within.elfLoadExec (h : Within I s clones keep) (slot : ℕ) (image : ElfImage) :
    Within I (elfLoadExec s slot image).2 clones keep :=
  elfLoadExec_keeps (P := fun t => Within I t clones keep)
    (fun _ virt ht => ht.addUserPage hI slot virt) h image

lemma Within.addUserStack (h : Within I s clones keep) (slot virt n : ℕ) :
    Within I (addUserStack s slot virt n) clones keep :=
  addUserStack_keeps (P := fun t => Within I t clones keep)
    (fun _ virt ht => ht.addUserPage hI slot virt) h virt n

lemma Within.last (h : Within I s clones frames) (hlen : frames.length = 5)
    (slot : ℕ) (change : Process → Process) :
    Within I ((s.modify slot change).free slot (frames.getD 4 0)) clones [] := by
  have hmem : frames.getD 4 0 ∈ frames := by
    rw [List.getD_eq_getElem _ _ (by omega)]
    exact List.getElem_mem _
  refine Within.free hI (Within.mono (h.modify slot change) ?_) List.not_mem_nil
  intro f hf
  rw [List.mem_singleton.mp hf]
  exact hmem

/-- The address spaces after the kernel stack was mapped in a new one, and the frames that are
given back if that failed. -/
theorem Within.prepare (h : Within I s clones []) (hlt : slot < maxProcesses) :
    let stack := ProcessTable.allocStack s slot 5
    let r := ProcessTable.cloneStack stack.2 slot stack.1
    stack.1.Nodup ∧ stack.2.processes = s.processes ∧ Within I stack.2 clones stack.1 ∧
      Within I r.2.2 (if r.2.1 = 0 then clones else r.2.1 :: clones) stack.1 := by
  have hst := allocStack_spec (h.sized hI) slot 5
  have hpg := h.allocStack hI slot 5
  rw [append_nil] at hpg
  exact ⟨hst.nodup,hst.processes,hpg,hpg.cloneStack hI hlt _⟩

lemma Within.dropAll (h : Within I s clones frames) (hnd : frames.Nodup)
    (slot : ℕ) : Within I (ProcessTable.freeAll s slot frames) clones [] := by
  refine Within.freeAll hI ?_ ?_
  · rw [append_nil]
    exact h
  · rw [append_nil]
    exact hnd

lemma Within.abandon (h : Within I s clones frames) (hnd : frames.Nodup)
    (hcl : ∀ r ∈ clones₀, r ∈ clones) (hde : (s.processes slot).state = .none) :
    GrownWithin I (ProcessTable.freeAll s slot frames) clones₀ slot := by
  refine (h.dropAll hI hnd slot).grown hcl ?_
  rw [freeAll_processes]
  exact hde

lemma Within.processCreate (h : Within I s clones []) (hsl : findSlot s.processes = some slot)
    (rip rsp : ℕ) : GrownWithin I (processCreate s rip rsp).2 clones slot := by
  obtain ⟨hlt,hde⟩ := findSlot_some hsl
  obtain ⟨hnd,hpr,hpg,hcl⟩ := h.prepare hI hlt
  have hsv := h.current hI
  rw [ProcessTable.processCreate,hsl]
  dsimp only
  generalize ProcessTable.allocStack s slot 5 = stack at hnd hpr hpg hcl ⊢
  by_cases hlen : stack.1.length = 5
  · have hfl : (ProcessTable.cloneStack stack.2 slot stack.1).2.1 = 0 → _ := cloneStack_fails
    have hsm := cloneStack_processes stack.2 slot stack.1
    rw [if_neg (not_not.mpr hlen)]
    generalize ProcessTable.cloneStack stack.2 slot stack.1 = r at hcl hfl hsm ⊢
    have hst : (r.2.2.processes slot).state = .none := by
      rw [hsm,hpr]
      exact hde
    by_cases hzr : r.2.1 = 0
    · rw [if_pos hzr] at hcl
      rw [if_pos hzr,if_pos (hfl hzr)]
      exact hcl.abandon hI hnd (fun _ hr => hr) hst
    rw [if_neg hzr] at hcl
    rw [if_neg hzr]
    have hbc := hcl.switch hI (hsv.imp_right (mem_cons_of_mem r.2.1))
    split
    · exact hbc.abandon hI hnd (fun _ hr => mem_cons_of_mem _ hr) hst
    · refine ⟨_,hbc.last hI hlen slot _,fun _ hr => mem_cons_of_mem _ hr,fun _ => ?_⟩
      simp only [Kernel.free,modify_processes_self,Process.started]
      exact mem_cons_self
  · rw [if_pos hlen]
    exact hpg.abandon hI hnd (fun _ hr => hr) (by rwa [hpr])

lemma Within.processCreateElf (h : Within I s clones [])
    (him : ¬ (image.accepted = false ∨ image.entry < elfUserLoadBase))
    (hsl : findSlot s.processes = some slot) :
    GrownWithin I (processCreateElf s image).2 clones slot := by
  obtain ⟨hlt,hde⟩ := findSlot_some hsl
  obtain ⟨hnd,hpr,hpg,hcl⟩ := h.prepare hI hlt
  have hsv := h.current hI
  rw [ProcessTable.processCreateElf,if_neg him,hsl]
  dsimp only
  generalize ProcessTable.allocStack s slot 5 = stack at hnd hpr hpg hcl ⊢
  by_cases hlen : stack.1.length = 5
  · have hfl : (ProcessTable.cloneStack stack.2 slot stack.1).2.1 = 0 → _ := cloneStack_fails
    have hsm := cloneStack_processes stack.2 slot stack.1
    rw [if_neg (not_not.mpr hlen)]
    generalize ProcessTable.cloneStack stack.2 slot stack.1 = r at hcl hfl hsm ⊢
    have hst : (r.2.2.processes slot).state = .none := by
      rw [hsm,hpr]
      exact hde
    by_cases hzr : r.2.1 = 0
    · rw [if_pos hzr] at hcl
      rw [if_pos (hfl hzr),if_pos hzr]
      exact hcl.abandon hI hnd (fun _ hr => hr) hst
    rw [if_neg hzr] at hcl
    rw [if_neg hzr]
    have hkp : ∀ r' ∈ clones, r' ∈ r.2.1 :: clones := fun _ hr => mem_cons_of_mem _ hr
    have hrt := hsv.imp_right (hkp _)
    by_cases hmp : r.1 = false
    · rw [if_pos hmp]
      exact (hcl.switch hI hrt).abandon hI hnd hkp hst
    rw [if_neg hmp]
    have hld := (hcl.modify slot fun p => { p with state := .blocked }).elfLoadExec hI
      slot image
    generalize ProcessTable.elfLoadExec (r.2.2.modify slot fun p => { p with state := .blocked })
      slot image = loaded at hld ⊢
    split
    · refine (((hld.switch hI hrt).dropAll hI hnd slot).modify slot _).grown hkp ?_
      rw [modify_processes_self]
    · have hsc := (hld.addUserStack hI slot (elfUserStackTop-elfUserStackPages*4096)
        elfUserStackPages).switch hI hrt
      refine ⟨_,hsc.last hI hlen slot _,hkp,fun _ => ?_⟩
      simp only [Kernel.free,modify_processes_self,Process.started]
      exact mem_cons_self
  · rw [if_pos hlen]
    exact hpg.abandon hI hnd (fun _ hr => hr) (by rwa [hpr])

end Calls

lemma Paged.processCreate (h : Paged s clones []) (hsl : findSlot s.processes = some slot)
    (rip rsp : ℕ) : Grown (processCreate s rip rsp).2 clones slot :=
  Within.processCreate AddressSpace.stable_sound h hsl rip rsp

lemma Paged.processCreateElf (h : Paged s clones [])
    (him : ¬ (image.accepted = false ∨ image.entry < elfUserLoadBase))
    (hsl : findSlot s.processes = some slot) : Grown (processCreateElf s image).2 clones slot :=
  Within.processCreateElf AddressSpace.stable_sound h him hsl

end HarlinKernel.ProcessTable
