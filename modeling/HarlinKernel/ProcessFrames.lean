import HarlinKernel.ProcessTable
import Mathlib.Data.List.GetD

/-! Which frames the functions of the process table take from the allocator and give back to
it. All that `process_create` and `process_create_elf` do between taking the cloned tables and
their last frees is described by one relation: frames that are in use stay in use, and the log
tells of frames only that were free. -/
namespace HarlinKernel
namespace PageTable

open PageAllocator Bitmap

section Allocated

variable {p p' : Pmm} {f g : ℕ}

/-- The frame is marked as allocated. -/
def Allocated (p : Pmm) (frame : ℕ) : Prop :=
  ∃ i < p.totalPages, frame = frameAddr i ∧ get p.bitmap i = true

/-- The frame is one of those that the allocator manages. -/
def InPool (p : Pmm) (frame : ℕ) : Prop := ∃ i < p.totalPages, frame = frameAddr i

lemma Allocated.inPool (h : Allocated p f) : InPool p f := by
  obtain ⟨i,hi,hf,-⟩ := h
  exact ⟨i,hi,hf⟩

lemma FreeFrame.inPool (h : FreeFrame p f) : InPool p f := by
  obtain ⟨i,hi,hf,-⟩ := h
  exact ⟨i,hi,hf⟩

lemma frameAddr_injective {i j : ℕ} (h : frameAddr i = frameAddr j) : i = j := by
  rw [← frameIndex_frameAddr i,h,frameIndex_frameAddr]

lemma Allocated.not_free (h : Allocated p f) : ¬ FreeFrame p f := by
  rintro ⟨j,-,hj,hbit⟩
  obtain ⟨i,-,rfl,hset⟩ := h
  rw [frameAddr_injective hj,hbit] at hset
  cases hset

lemma InPool.allocated (h : InPool p f) (hfr : ¬ FreeFrame p f) : Allocated p f := by
  obtain ⟨i,hi,rfl⟩ := h
  refine ⟨i,hi,rfl,?_⟩
  by_contra hbit
  exact hfr ⟨i,hi,rfl,by simpa using hbit⟩

lemma Allocated.ne (h : Allocated p f) (hg : FreeFrame p g) : g ≠ f := by
  rintro rfl
  exact h.not_free hg

lemma Shrunk.allocated (h : Shrunk p p') (hf : Allocated p f) : Allocated p' f := by
  have hpl : InPool p' f := by
    obtain ⟨i,hi,heq⟩ := hf.inPool
    exact ⟨i,h.total ▸ hi,heq⟩
  exact hpl.allocated fun hfr => hf.not_free (h.free f hfr)

lemma Allocated.pmmFree (hf : Allocated p f) (hs : Sized p) (hg : InPool p g) (hne : f ≠ g) :
    Allocated (PageAllocator.pmmFree p g) f := by
  obtain ⟨i,hi,rfl,hbit⟩ := hf
  obtain ⟨j,hj,rfl⟩ := hg
  rw [pmmFree_frame hs hj]
  refine ⟨i,hi,rfl,?_⟩
  have hij : i ≠ j := fun hbad => hne (congrArg frameAddr hbad)
  simp [hij,hbit]

lemma pmmFree_sized (hs : Sized p) (hg : InPool p g) :
    Sized (PageAllocator.pmmFree p g) ∧ (PageAllocator.pmmFree p g).totalPages = p.totalPages := by
  obtain ⟨j,hj,rfl⟩ := hg
  rw [pmmFree_frame hs hj]
  exact ⟨⟨hs.min,hs.max,hs.top⟩,rfl⟩

end Allocated

end PageTable

namespace AddressSpace

open PageAllocator PageTable

lemma Got.allocated {p p' : Pmm} {x : ℕ} (h : Got p x p') : Allocated p' x := by
  have hnot := h.not_free
  obtain ⟨base,rfl,htk⟩ := h.taken
  refine InPool.allocated ⟨base,?_,rfl⟩ hnot
  rw [htk.total]
  exact htk.run.inside

/-- What `vmm_clone_kernel_pml4` does to the allocator, whatever the tables look like. -/
theorem vmmCloneKernelPml4_pmm {s : Vmm} (hs : Sized s.pmm) :
    Shrunk s.pmm (vmmCloneKernelPml4 s).2.pmm ∧ ((vmmCloneKernelPml4 s).1 ≠ 0 →
    Allocated (vmmCloneKernelPml4 s).2.pmm (vmmCloneKernelPml4 s).1 ∧
    (vmmCloneKernelPml4 s).1 ∈ ProcessTable.cloneFrames s ∧ ∀ f ∈ ProcessTable.cloneFrames s,
    FreeFrame s.pmm f) := by
  have hall := gotAll_clone hs
  dsimp only at hall
  simp only [vmmCloneKernelPml4,ProcessTable.cloneFrames]
  generalize hN : allocPage s = N at hall ⊢
  by_cases hN₀ : N.1 = 0
  · simp only [hN₀,if_true]
    exact ⟨hN ▸ allocPage_pmm hs,fun hbad => (hbad rfl).elim⟩
  simp only [hN₀,if_false]
  generalize allocPage N.2 = A at hall ⊢
  generalize allocPage A.2 = B at hall ⊢
  generalize allocPage B.2 = C at hall ⊢
  by_cases hzr : A.1 = 0 ∨ B.1 = 0 ∨ C.1 = 0
  · simp only [hzr,if_true]
    exact ⟨(foldl_release [A.1,B.1,C.1,N.1] (hall.shrunk hs)
      fun f hf => hall.free (by grind)).1,fun hbad => (hbad rfl).elim⟩
  · simp only [hzr,if_false]
    have hcp := copyPml4_pmm ([N.1,A.1,B.1,C.1].foldl clearWindow C.2) N.1 512
    simp only [writePtEntry,hcp]
    have hne : 0 ∉ [N.1,A.1,B.1,C.1] := by grind
    obtain ⟨q,hgot,hq,hrs⟩ := hall.uncons
    exact ⟨hall.shrunk hs,fun _ => ⟨(hrs.shrunk hq.sized).allocated
      (hgot.resolve_left hN₀).allocated,List.mem_cons_self,hall.freeFrame hne⟩⟩

end AddressSpace

namespace ProcessTable

open PageAllocator PageTable AddressSpace

variable {s t u : Kernel} {slot : ℕ}

/-- The frame stands in the table of user pages. -/
def UserFrame (p : Process) (f : ℕ) : Prop := ∃ j < p.pageCount, p.userPages j = f

/-- Between the states frames were taken for the slot, and no frame was given back that was in
use before. -/
structure Took (s t : Kernel) (slot : ℕ) : Prop where
  pmm : Shrunk s.vmm.pmm t.vmm.pmm
  current : t.current = s.current
  others : ∀ i, i ≠ slot → t.processes i = s.processes i
  pages : ∀ f, UserFrame (t.processes slot) f →
    UserFrame (s.processes slot) f ∨ FreeFrame s.vmm.pmm f
  log : ∃ es, t.log = s.log ++ es ∧
    ∀ e ∈ es, ∃ f, FreeFrame s.vmm.pmm f ∧ (e = .alloc slot f ∨ e = .free slot f)

lemma Took.refl (hs : Sized s.vmm.pmm) (slot : ℕ) : Took s s slot :=
  ⟨Shrunk.refl hs,rfl,fun _ _ => rfl,fun _ hf => .inl hf,[],by simp,by simp⟩

lemma Took.trans (h : Took s t slot) (h' : Took t u slot) : Took s u slot := by
  obtain ⟨es,hes,hfr⟩ := h.log
  obtain ⟨es',hes',hfr'⟩ := h'.log
  refine ⟨h.pmm.trans h'.pmm,h'.current.trans h.current,?_,?_,es ++ es',?_,?_⟩
  · intro i hi
    rw [h'.others i hi,h.others i hi]
  · intro f hf
    rcases h'.pages f hf with hold | hnew
    · exact h.pages f hold
    · exact .inr (h.pmm.free f hnew)
  · rw [hes',hes,List.append_assoc]
  · intro e he
    rcases List.mem_append.mp he with he | he
    · exact hfr e he
    · obtain ⟨f,hf,hef⟩ := hfr' e he
      exact ⟨f,h.pmm.free f hf,hef⟩

lemma Took.sized (h : Took s t slot) : Sized t.vmm.pmm := h.pmm.sized

variable {f cloned n next : ℕ} {change : Process → Process} {frames : List ℕ} {p : Process}

lemma Took.silent (h : Took s t slot) (hf : ¬ FreeFrame s.vmm.pmm f) :
    ∃ es, t.log = s.log ++ es ∧ .alloc slot f ∉ es ∧ .free slot f ∉ es := by
  obtain ⟨es,hes,hfr⟩ := h.log
  refine ⟨es,hes,?_,?_⟩
  · intro he
    obtain ⟨g,hg,hge | hge⟩ := hfr _ he
    · cases hge
      exact hf hg
    · cases hge
  · intro he
    obtain ⟨g,hg,hge | hge⟩ := hfr _ he
    · cases hge
    · cases hge
      exact hf hg

lemma Kernel.alloc_cases (hs : Sized s.vmm.pmm) (slot : ℕ) : s.alloc slot = (0,s) ∨
    (s.alloc slot).1 ≠ 0 ∧ Got s.vmm.pmm (s.alloc slot).1 (s.alloc slot).2.vmm.pmm ∧
    (s.alloc slot).2.log = s.log ++ [.alloc slot (s.alloc slot).1] := by
  rcases allocPage_spec hs with hfl | ⟨base,hbs,htk⟩
  · left
    rw [Kernel.alloc,hfl]
    rfl
  · right
    have hne : (allocPage s.vmm).1 ≠ 0 := by
      rw [hbs]
      exact frameAddr_ne_zero base
    refine ⟨hne,⟨base,hbs,htk⟩,?_⟩
    simp [Kernel.alloc,hne]

lemma took_alloc (hs : Sized s.vmm.pmm) (slot : ℕ) : Took s (s.alloc slot).2 slot := by
  rcases Kernel.alloc_cases hs slot with hfl | ⟨-,hgot,hlog⟩
  · rw [hfl]
    exact Took.refl hs slot
  · refine ⟨hgot.shrunk hs,rfl,fun _ _ => rfl,fun _ hf => .inl hf,_,hlog,?_⟩
    intro e he
    rw [List.mem_singleton] at he
    exact ⟨_,hgot.free,.inl he⟩

lemma took_clone (hs : Sized s.vmm.pmm) (slot : ℕ) : Took s (s.clone slot).2 slot := by
  obtain ⟨hsh,hfr⟩ := vmmCloneKernelPml4_pmm hs
  refine ⟨hsh,rfl,fun _ _ => rfl,fun _ hf => .inl hf,?_⟩
  by_cases hzr : (vmmCloneKernelPml4 s.vmm).1 = 0
  · exact ⟨[],by simp [Kernel.clone,hzr],by simp⟩
  · refine ⟨(cloneFrames s.vmm).map (.alloc slot),by simp [Kernel.clone,hzr],?_⟩
    intro e he
    obtain ⟨f,hf,rfl⟩ := List.mem_map.mp he
    exact ⟨f,(hfr hzr).2.2 f hf,.inl rfl⟩

lemma took_map (hs : Sized s.vmm.pmm) (virt phys flags : ℕ) (slot : ℕ) :
    Took s (s.map virt phys flags).2 slot :=
  ⟨vmmMap_pmm hs virt phys flags,rfl,fun _ _ => rfl,fun _ hf => .inl hf,[],
    (List.append_nil _).symm,by simp⟩

lemma Took.switch (h : Took s t slot) (pml4Phys : ℕ) : Took s (t.switch pml4Phys) slot :=
  ⟨h.pmm,h.current,h.others,h.pages,h.log⟩

lemma Took.clear (h : Took s t slot) (phys : ℕ) :
    Took s { t with vmm := clearPagePhys t.vmm phys } slot :=
  ⟨h.pmm,h.current,h.others,h.pages,h.log⟩

lemma Took.free (h : Took s t slot) (hf : FreeFrame s.vmm.pmm f) :
    Took s (t.free slot f) slot := by
  obtain ⟨es,hes,hfr⟩ := h.log
  refine ⟨Shrunk.pmmFree h.pmm hf,h.current,h.others,h.pages,es ++ [.free slot f],?_,?_⟩
  · rw [Kernel.free,hes,List.append_assoc]
  · intro e he
    rcases List.mem_append.mp he with he | he
    · exact hfr e he
    · rw [List.mem_singleton] at he
      exact ⟨f,hf,.inr he⟩

lemma Took.modify (h : Took s t slot)
    (hpg : ∀ f, UserFrame (change (t.processes slot)) f →
      UserFrame (t.processes slot) f ∨ FreeFrame s.vmm.pmm f) :
    Took s (t.modify slot change) slot := by
  refine ⟨h.pmm,h.current,?_,?_,h.log⟩
  · intro i hi
    exact (Function.update_of_ne hi _ _).trans (h.others i hi)
  · intro f hf
    rw [Kernel.modify] at hf
    simp only [Function.update_self] at hf
    exact (hpg f hf).elim (h.pages f) .inr

lemma Took.freeAll (h : Took s t slot)
    (hfr : ∀ f ∈ frames, FreeFrame s.vmm.pmm f) : Took s (freeAll t slot frames) slot := by
  induction frames generalizing t with
  | nil => exact h
  | cons f frames ih =>
    exact ih (h.free (hfr f List.mem_cons_self)) fun g hg => hfr g (List.mem_cons_of_mem f hg)

@[simp] lemma freeAll_log (s : Kernel) (slot : ℕ) (frames : List ℕ) :
    (freeAll s slot frames).log = s.log ++ frames.map (.free slot) := by
  induction frames generalizing s with
  | nil => simp [freeAll]
  | cons f frames ih =>
    have hst := ih (s.free slot f)
    rw [freeAll] at hst ⊢
    rw [List.foldl_cons,hst]
    simp [Kernel.free]

@[simp] lemma freeAll_processes (s : Kernel) (slot : ℕ) (frames : List ℕ) :
    (freeAll s slot frames).processes = s.processes := by
  induction frames generalizing s with
  | nil => rfl
  | cons f frames ih => exact ih (s.free slot f)

/-- The state after the frames of a kernel stack were taken. -/
structure StackTaken (s t : Kernel) (slot : ℕ) (frames : List ℕ) : Prop where
  took : Took s t slot
  processes : t.processes = s.processes
  log : t.log = s.log ++ frames.map (.alloc slot)
  free : ∀ f ∈ frames, FreeFrame s.vmm.pmm f
  allocated : ∀ f ∈ frames, Allocated t.vmm.pmm f
  nodup : frames.Nodup

lemma allocStack_spec (hs : Sized s.vmm.pmm) (slot n : ℕ) :
    StackTaken s (allocStack s slot n).2 slot (allocStack s slot n).1 := by
  induction n generalizing s with
  | zero => exact ⟨Took.refl hs slot,rfl,by simp [allocStack],by simp [allocStack],
      by simp [allocStack],by simp [allocStack]⟩
  | succ n ih =>
    rw [allocStack]
    rcases Kernel.alloc_cases hs slot with hfl | ⟨hne,hgot,hlog⟩
    · simp only [hfl,if_true]
      exact ⟨Took.refl hs slot,rfl,by simp,by simp,by simp,List.nodup_nil⟩
    simp only [hne,if_false]
    have htk := took_alloc hs slot
    have hrs := ih htk.sized
    have hfr := hrs.took.pmm.allocated hgot.allocated
    refine ⟨htk.trans hrs.took,hrs.processes,?_,?_,?_,?_⟩
    · rw [hrs.log,hlog,List.map_cons,List.append_assoc,List.singleton_append]
    · intro f hf
      rcases List.mem_cons.mp hf with rfl | hf
      · exact hgot.free
      · exact htk.pmm.free f (hrs.free f hf)
    · intro f hf
      rcases List.mem_cons.mp hf with rfl | hf
      · exact hfr
      · exact hrs.allocated f hf
    · refine List.nodup_cons.mpr ⟨?_,hrs.nodup⟩
      intro hbad
      exact hgot.not_free (hrs.free _ hbad)

lemma took_mapStack (hs : Sized s.vmm.pmm) (slot virt : ℕ) (frames : List ℕ) :
    Took s (mapStack s virt frames).2 slot := by
  induction frames generalizing s virt with
  | nil => exact Took.refl hs slot
  | cons f frames ih =>
    rw [mapStack]
    have hmap := took_map hs virt f (vmmPresent ||| vmmWritable) slot
    split
    · exact hmap
    · exact hmap.trans (ih hmap.sized (virt+4096))

@[simp] lemma mapStack_processes (s : Kernel) (virt : ℕ) (frames : List ℕ) :
    (mapStack s virt frames).2.processes = s.processes := by
  induction frames generalizing s virt with
  | nil => rfl
  | cons f frames ih =>
    rw [mapStack]
    split
    · rfl
    · exact ih _ _

@[simp] lemma cloneStack_processes (s : Kernel) (slot : ℕ) (frames : List ℕ) :
    (cloneStack s slot frames).2.2.processes = s.processes := by
  rw [cloneStack]
  split
  · rfl
  · exact mapStack_processes _ _ _

lemma cloneStack_fails (h : (cloneStack s slot frames).2.1 = 0) :
    (cloneStack s slot frames).1 = false := by
  rw [cloneStack] at h ⊢
  split
  · rfl
  · rename_i hne
    rw [if_neg hne] at h
    exact (hne h).elim

/-- The frames of a kernel stack and cloned tables are in the hands of the slot. -/
structure Prepared (s t : Kernel) (slot cloned : ℕ) (frames : List ℕ) : Prop where
  took : Took s t slot
  nodup : frames.Nodup
  free : ∀ f ∈ frames, FreeFrame s.vmm.pmm f
  allocated : ∀ f ∈ frames, Allocated t.vmm.pmm f
  fresh : FreeFrame s.vmm.pmm cloned
  held : Allocated t.vmm.pmm cloned
  apart : cloned ∉ frames
  log : ∃ es, t.log = s.log ++ es ∧ .alloc slot cloned ∈ es ∧ .free slot cloned ∉ es

lemma Prepared.later (h : Prepared s t slot cloned frames)
    (htk : Took t u slot) : Prepared s u slot cloned frames := by
  obtain ⟨es,hes,hal,hfr⟩ := h.log
  obtain ⟨es',hes',-,hfr'⟩ := htk.silent h.held.not_free
  refine ⟨h.took.trans htk,h.nodup,h.free,fun f hf => htk.pmm.allocated (h.allocated f hf),
    h.fresh,htk.pmm.allocated h.held,h.apart,es ++ es',?_,?_,?_⟩
  · rw [hes',hes,List.append_assoc]
  · exact List.mem_append_left es' hal
  · rw [List.mem_append,not_or]
    exact ⟨hfr,hfr'⟩

/-- What is left when frames of the stack are given back. -/
structure Leaked (s t : Kernel) (slot cloned : ℕ) : Prop where
  took : Took s t slot
  fresh : FreeFrame s.vmm.pmm cloned
  held : Allocated t.vmm.pmm cloned
  log : ∃ es, t.log = s.log ++ es ∧ .alloc slot cloned ∈ es ∧ .free slot cloned ∉ es

lemma Prepared.leaked (h : Prepared s t slot cloned frames) : Leaked s t slot cloned :=
  ⟨h.took,h.fresh,h.held,h.log⟩

lemma Leaked.free (h : Leaked s t slot cloned) (hf : FreeFrame s.vmm.pmm f)
    (hne : cloned ≠ f) : Leaked s (t.free slot f) slot cloned := by
  obtain ⟨es,hes,hal,hfr⟩ := h.log
  have hpl : InPool t.vmm.pmm f := by
    obtain ⟨i,hi,heq⟩ := hf.inPool
    exact ⟨i,h.took.pmm.total ▸ hi,heq⟩
  refine ⟨h.took.free hf,h.fresh,h.held.pmmFree h.took.sized hpl hne,es ++ [.free slot f],
    ?_,?_,?_⟩
  · rw [Kernel.free,hes,List.append_assoc]
  · exact List.mem_append_left _ hal
  · rw [List.mem_append,List.mem_singleton,not_or]
    refine ⟨hfr,?_⟩
    intro hbad
    cases hbad
    exact hne rfl

lemma Leaked.freeAll (h : Leaked s t slot cloned) (hfr : ∀ f ∈ frames, FreeFrame s.vmm.pmm f)
    (hap : cloned ∉ frames) : Leaked s (freeAll t slot frames) slot cloned := by
  induction frames generalizing t with
  | nil => exact h
  | cons f frames ih =>
    rw [List.mem_cons,not_or] at hap
    exact ih (h.free (hfr f List.mem_cons_self) hap.1)
      (fun g hg => hfr g (List.mem_cons_of_mem f hg)) hap.2

/-- A creation gets as far as its cloned tables. -/
def clones (s : Kernel) (slot : ℕ) : Bool :=
  let stack := allocStack s slot 5
  decide (stack.1.length = 5) && decide ((stack.2.clone slot).1 ≠ 0)

/-- All frames that were taken were given back. -/
structure Refused (s t : Kernel) (slot : ℕ) : Prop where
  took : Took s t slot
  processes : t.processes = s.processes
  log : ∃ frames : List ℕ,
    t.log = s.log ++ (frames.map (.alloc slot) ++ frames.map (.free slot))

lemma StackTaken.refused (h : StackTaken s t slot frames)
    (htk : Took t u slot) (hpr : u.processes = t.processes) (hlog : u.log = t.log) :
    Refused s (freeAll u slot frames) slot := by
  refine ⟨(h.took.trans htk).freeAll h.free,?_,frames,?_⟩
  · rw [freeAll_processes,hpr,h.processes]
  · rw [freeAll_log,hlog,h.log,List.append_assoc]

/-- The process owns its cloned tables and the frames of its kernel stack. -/
structure Started (s t : Kernel) (slot cloned : ℕ) : Prop extends Leaked s t slot cloned where
  pml4 : (t.processes slot).pml4Phys = cloned
  state : (t.processes slot).state = .ready
  count : (t.processes slot).kernelStackPagesCount = 4
  stack : ∀ j < 4, FreeFrame s.vmm.pmm ((t.processes slot).kernelStackPagesPhys j) ∧
    Allocated t.vmm.pmm ((t.processes slot).kernelStackPagesPhys j) ∧
    (t.processes slot).kernelStackPagesPhys j ≠ cloned
  own : ∀ f, UserFrame (t.processes slot) f → UserFrame (s.processes slot) f ∨ f ≠ cloned

/-- What a creation can come to. -/
inductive Outcome (s : Kernel) (slot : ℕ) : ℤ × Kernel → Prop
  | refused {t : Kernel} : clones s slot = false → Refused s t slot → Outcome s slot (-1,t)
  | leaked {t : Kernel} {cloned : ℕ} : clones s slot = true → Leaked s t slot cloned →
    (t.processes slot).state = .none → Outcome s slot (-1,t)
  | started {t : Kernel} {cloned : ℕ} : clones s slot = true → Started s t slot cloned →
    Outcome s slot (slot,t)

lemma Outcome.took {r : ℤ × Kernel} (h : Outcome s slot r) : Took s r.2 slot := by
  cases h with
  | refused _ h => exact h.took
  | leaked _ h _ => exact h.took
  | started _ h => exact h.took

lemma findSlot_some {processes : ℕ → Process} (h : findSlot processes = some slot) :
    slot < maxProcesses ∧ (processes slot).state = .none := by
  have hmem := List.mem_of_find?_eq_some h
  have hst := List.find?_some h
  exact ⟨List.mem_range.mp hmem,of_decide_eq_true hst⟩

lemma cloneStack_zero (frames : List ℕ) (hs : Sized t.vmm.pmm) (h : (t.clone slot).1 = 0) :
    (cloneStack t slot frames).1 = false ∧ (cloneStack t slot frames).2.1 = 0 ∧
    Took t (cloneStack t slot frames).2.2 slot ∧ (cloneStack t slot frames).2.2.log = t.log := by
  have hvmm : (vmmCloneKernelPml4 t.vmm).1 = 0 := h
  have htk := took_clone hs slot
  rw [cloneStack]
  simp only [h,if_true]
  refine ⟨trivial,trivial,htk,?_⟩
  simp [Kernel.clone,hvmm]

lemma cloneStack_prepared (hst : StackTaken s t slot frames) (h : (t.clone slot).1 ≠ 0) :
    (cloneStack t slot frames).2.1 ≠ 0 ∧
    Prepared s (cloneStack t slot frames).2.2 slot (cloneStack t slot frames).2.1 frames := by
  have hs := hst.took.sized
  have hvmm : (vmmCloneKernelPml4 t.vmm).1 ≠ 0 := h
  obtain ⟨hhl,hmem,hfr⟩ := (vmmCloneKernelPml4_pmm hs).2 hvmm
  have htk := took_clone hs slot
  have hap : (t.clone slot).1 ∉ frames := fun hbad =>
    (hst.allocated _ hbad).not_free (hfr _ hmem)
  have hpr : Prepared s (t.clone slot).2 slot (t.clone slot).1 frames := by
    refine ⟨hst.took.trans htk,hst.nodup,hst.free,
      fun f hf => htk.pmm.allocated (hst.allocated f hf),hst.took.pmm.free _ (hfr _ hmem),
      hhl,hap,frames.map (.alloc slot) ++ (cloneFrames t.vmm).map (.alloc slot),?_,?_,?_⟩
    · simp [Kernel.clone,hvmm,hst.log]
    · exact List.mem_append_right _ (List.mem_map_of_mem hmem)
    · simp
  rw [cloneStack]
  simp only [h,if_false]
  have hsw : Took (t.clone slot).2 ((t.clone slot).2.switch (t.clone slot).1) slot :=
    (Took.refl htk.sized slot).switch _
  have hmap := took_mapStack hsw.sized slot (stackBaseOf slot) (frames.take 4)
  exact ⟨h,hpr.later (hsw.trans hmap)⟩

lemma modify_processes_self (s : Kernel) (slot : ℕ) (change : Process → Process) :
    (s.modify slot change).processes slot = change (s.processes slot) := by
  simp [Kernel.modify]

lemma Prepared.started (h : Prepared s t slot cloned frames) (hlen : frames.length = 5)
    (hpml4 : ∀ p, (change p).pml4Phys = cloned) (hse : ∀ p, (change p).state = .ready)
    (hcn : ∀ p, (change p).kernelStackPagesCount = 4)
    (hst : ∀ p, ∀ j < 4, (change p).kernelStackPagesPhys j = frames.getD j 0)
    (hpg : ∀ f, UserFrame (change (t.processes slot)) f → UserFrame (t.processes slot) f)
    (hown : ∀ f, UserFrame (t.processes slot) f → UserFrame (s.processes slot) f ∨ f ≠ cloned) :
    Started s ((t.modify slot change).free slot (frames.getD 4 0)) slot cloned := by
  have hmem : ∀ j < 5, frames.getD j 0 ∈ frames := by
    intro j hj
    rw [List.getD_eq_getElem _ _ (hlen ▸ hj)]
    exact List.getElem_mem _
  have hls : ∀ j < 4, frames.getD j 0 ≠ frames.getD 4 0 := by
    intro j hj hbad
    rw [List.getD_eq_getElem _ _ (by omega),List.getD_eq_getElem _ _ (by omega),
      h.nodup.getElem_inj_iff] at hbad
    omega
  have hne : ∀ f ∈ frames, f ≠ cloned := fun f hf hbad => h.apart (hbad ▸ hf)
  have hpr : ((t.modify slot change).free slot (frames.getD 4 0)).processes slot =
      change (t.processes slot) := modify_processes_self t slot change
  have hlk : Leaked s (t.modify slot change) slot cloned :=
    ⟨h.took.modify fun f hf => .inl (hpg f hf),h.fresh,h.held,h.log⟩
  refine ⟨hlk.free (h.free _ (hmem 4 (by omega))) (hne _ (hmem 4 (by omega))).symm,?_,?_,?_,?_,?_⟩
  · rw [hpr,hpml4]
  · rw [hpr,hse]
  · rw [hpr,hcn]
  · intro j hj
    rw [hpr,hst _ j hj]
    have hin := hmem j (by omega)
    refine ⟨h.free _ hin,?_,hne _ hin⟩
    exact (h.allocated _ hin).pmmFree h.took.sized (h.allocated _ (hmem 4 (by omega))).inPool
      (hls j hj)
  · intro f hf
    rw [hpr] at hf
    exact hown f (hpg f hf)

/-- How far a creation can come before the tables are filled. -/
theorem creation_cases (hs : Sized s.vmm.pmm) (slot : ℕ) :
    let stack := allocStack s slot 5
    let r := cloneStack stack.2 slot stack.1
    (stack.1.length ≠ 5 ∧ clones s slot = false ∧ Refused s (freeAll stack.2 slot stack.1) slot) ∨
      (stack.1.length = 5 ∧ r.1 = false ∧ r.2.1 = 0 ∧ clones s slot = false ∧
        Refused s (freeAll r.2.2 slot stack.1) slot) ∨
      (stack.1.length = 5 ∧ r.2.1 ≠ 0 ∧ clones s slot = true ∧
        Prepared s r.2.2 slot r.2.1 stack.1 ∧ r.2.2.processes = s.processes) := by
  have hst := allocStack_spec hs slot 5
  intro stack r
  by_cases hlen : stack.1.length = 5
  · right
    by_cases hzr : (stack.2.clone slot).1 = 0
    · obtain ⟨hfl,hcl,htk,hlog⟩ := cloneStack_zero stack.1 hst.took.sized hzr
      refine .inl ⟨hlen,hfl,hcl,?_,hst.refused htk (cloneStack_processes _ _ _) hlog⟩
      simp only [clones]
      simp [stack,hzr]
    · obtain ⟨hcl,hpr⟩ := cloneStack_prepared hst hzr
      refine .inr ⟨hlen,hcl,?_,hpr,(cloneStack_processes _ _ _).trans hst.processes⟩
      simp only [clones]
      simpa [stack,hzr] using hlen
  · left
    refine ⟨hlen,?_,hst.refused (Took.refl hst.took.sized slot) rfl rfl⟩
    simp only [clones]
    simp [stack,hlen]

lemma processCreate_outcome (hs : Sized s.vmm.pmm) (hsl : findSlot s.processes = some slot)
    (rip rsp : ℕ) : Outcome s slot (processCreate s rip rsp) := by
  have hcs := creation_cases hs slot
  rw [processCreate,hsl]
  dsimp only at hcs ⊢
  generalize allocStack s slot 5 = stack at hcs ⊢
  rcases hcs with ⟨hlen,hno,hrf⟩ | ⟨hlen,hfl,hcl,hno,hrf⟩ |
    ⟨hlen,hcl,hyes,hpr,hpc⟩
  · rw [if_pos hlen]
    exact .refused hno hrf
  · rw [if_neg (not_not.mpr hlen),if_pos hcl,if_pos hfl]
    exact .refused hno hrf
  have hsw := hpr.later ((Took.refl hpr.took.sized slot).switch
    s.vmm.currentPml4Phys)
  have hsm := congrFun hpc slot
  rw [if_neg (not_not.mpr hlen),if_neg hcl]
  split
  · refine .leaked hyes (hsw.leaked.freeAll hpr.free hpr.apart) ?_
    rw [freeAll_processes]
    exact (congrArg Process.state hsm).trans (findSlot_some hsl).2
  refine .started hyes (hsw.started hlen ?_ ?_ ?_ ?_ ?_ ?_)
  · exact fun p => rfl
  · exact fun p => rfl
  · exact fun p => rfl
  · intro p j hj
    exact if_pos hj
  · rintro f ⟨j,hj,-⟩
    cases hj
  · intro f hf
    exact .inl (hsm ▸ hf)

lemma userFrame_record {virt phys : ℕ} (h : UserFrame (p.record virt phys) f) :
    UserFrame p f ∨ f = phys := by
  obtain ⟨j,hj,rfl⟩ := h
  rw [Process.record] at hj ⊢
  split at hj
  · rename_i hrm
    rw [if_pos hrm]
    by_cases hls : j = p.pageCount
    · right
      simp [hls]
    · left
      exact ⟨j,by simp only at hj; omega,by simp [hls]⟩
  · rename_i hfl
    rw [if_neg hfl]
    exact .inl ⟨j,hj,rfl⟩

lemma took_addUserPage (hs : Sized s.vmm.pmm) (slot virt : ℕ) :
    Took s (addUserPage s slot virt).2 slot := by
  rw [addUserPage]
  rcases Kernel.alloc_cases hs slot with hfl | ⟨hne,hgot,-⟩
  · simp only [hfl,if_true]
    exact Took.refl hs slot
  have hcl := (took_alloc hs slot).clear (s.alloc slot).1
  have hmp := hcl.trans (took_map hcl.sized virt (s.alloc slot).1
    (vmmPresent ||| vmmWritable ||| vmmUser) slot)
  simp only [hne,if_false]
  split
  · exact hmp.free hgot.free
  · refine hmp.modify fun f hf => ?_
    rcases userFrame_record hf with hold | rfl
    · exact .inl hold
    · exact .inr hgot.free

section Loading

variable {P : Kernel → Prop} (hpage : ∀ s virt, P s → P (addUserPage s slot virt).2)
include hpage

lemma loadFirst_keeps (h : P s) (segs : List Segment) : P (loadFirst s slot segs).2 := by
  induction segs generalizing s with
  | nil => exact h
  | cons seg segs ih =>
    have hnx := hpage s seg.vaddr h
    rw [loadFirst,elfAllocUserPageCb]
    split
    · exact hnx
    · exact ih hnx

lemma loadChunks_keeps (h : P s) (fuel vaddr left : ℕ) :
    P (loadChunks s slot fuel vaddr left).2 := by
  induction fuel generalizing s vaddr left with
  | zero => exact h
  | succ fuel ih =>
    have hnx := hpage s vaddr h
    rw [loadChunks,elfAllocUserPageCb]
    split
    · exact h
    · dsimp only
      split
      · exact hnx
      · exact ih hnx _ _

lemma loadBytes_keeps (h : P s) (size : ℕ) (segs : List Segment) :
    P (loadBytes s slot size segs).2 := by
  induction segs generalizing s with
  | nil => exact h
  | cons seg segs ih =>
    have hch := loadChunks_keeps hpage h seg.filesz seg.vaddr seg.filesz
    rw [loadBytes]
    split
    · exact ih h
    · split
      · exact h
      · dsimp only
        split
        · exact hch
        · exact ih hch

lemma elfLoadExec_keeps (h : P s) (image : ElfImage) : P (elfLoadExec s slot image).2 := by
  have hfr := loadFirst_keeps hpage h image.segments
  rw [elfLoadExec]
  split
  · exact h
  · dsimp only
    split
    · exact hfr
    · exact loadBytes_keeps hpage hfr image.size image.segments

lemma addUserStack_keeps (h : P s) (virt n : ℕ) : P (addUserStack s slot virt n) := by
  induction n generalizing s virt with
  | zero => exact h
  | succ n ih =>
    have hnx := hpage s virt h
    rw [addUserStack]
    split
    · exact hnx
    · exact ih hnx _

end Loading

lemma Took.addUserPage (h : Took s t slot) (virt : ℕ) : Took s (addUserPage t slot virt).2 slot :=
  h.trans (took_addUserPage h.sized slot virt)

lemma Took.elfLoadExec (h : Took s t slot) (image : ElfImage) :
    Took s (elfLoadExec t slot image).2 slot :=
  elfLoadExec_keeps (P := fun u => Took s u slot) (fun _ virt hu => hu.addUserPage virt) h image

lemma Took.addUserStack (h : Took s t slot) (virt n : ℕ) :
    Took s (addUserStack t slot virt n) slot :=
  addUserStack_keeps (P := fun u => Took s u slot) (fun _ virt hu => hu.addUserPage virt) h virt n

lemma Prepared.own (h : Prepared s t slot cloned frames)
    (hpr : UserFrame (t.processes slot) = UserFrame (s.processes slot)) (htk : Took t u slot) :
    ∀ f, UserFrame (u.processes slot) f → UserFrame (s.processes slot) f ∨ f ≠ cloned := by
  intro f hf
  rcases htk.pages f hf with hold | hfr
  · exact .inl (hpr ▸ hold)
  · exact .inr (h.held.ne hfr)

lemma processCreateElf_outcome (hs : Sized s.vmm.pmm) {image : ElfImage}
    (him : ¬ (image.accepted = false ∨ image.entry < elfUserLoadBase))
    (hsl : findSlot s.processes = some slot) : Outcome s slot (processCreateElf s image) := by
  have hcs := creation_cases hs slot
  rw [processCreateElf,if_neg him,hsl]
  dsimp only at hcs ⊢
  generalize allocStack s slot 5 = stack at hcs ⊢
  generalize cloneStack stack.2 slot stack.1 = r at hcs ⊢
  rcases hcs with ⟨hlen,hno,hrf⟩ | ⟨hlen,hfl,hcl,hno,hrf⟩ |
    ⟨hlen,hcl,hyes,hpr,hpc⟩
  · rw [if_pos hlen]
    exact .refused hno hrf
  · rw [if_neg (not_not.mpr hlen),if_pos hfl,if_pos hcl]
    exact .refused hno hrf
  have hsm := congrFun hpc slot
  rw [if_neg (not_not.mpr hlen),if_neg hcl]
  by_cases hmp : r.1 = false
  · rw [if_pos hmp]
    have hsw := hpr.later ((Took.refl hpr.took.sized slot).switch
      s.vmm.currentPml4Phys)
    refine .leaked hyes (hsw.leaked.freeAll hpr.free hpr.apart) ?_
    rw [freeAll_processes]
    exact (congrArg Process.state hsm).trans (findSlot_some hsl).2
  rw [if_neg hmp]
  have hbl : Took r.2.2 (r.2.2.modify slot fun p => { p with state := .blocked }) slot :=
    (Took.refl hpr.took.sized slot).modify fun f hf => .inl hf
  have hld := hbl.elfLoadExec image
  generalize elfLoadExec (r.2.2.modify slot fun p => { p with state := .blocked }) slot image =
    loaded at hld ⊢
  split
  · have hlk := (hpr.later (hld.switch s.vmm.currentPml4Phys)).leaked.freeAll
      hpr.free hpr.apart
    refine .leaked hyes ⟨hlk.took.modify fun f hf => .inl hf,hlk.fresh,hlk.held,
      hlk.log⟩ ?_
    rw [modify_processes_self]
  have hst := hld.addUserStack (elfUserStackTop-elfUserStackPages*4096)
    elfUserStackPages
  have hfn := hst.switch s.vmm.currentPml4Phys
  have hown := hpr.own (congrArg UserFrame hsm) hfn
  refine .started hyes ((hpr.later hfn).started hlen ?_ ?_ ?_ ?_ ?_ hown)
  · exact fun p => rfl
  · exact fun p => rfl
  · exact fun p => rfl
  · intro p j hj
    exact if_pos hj
  · rintro f ⟨j,hj,hf⟩
    exact ⟨j,lt_of_lt_of_le hj (min_le_left _ _),hf⟩

/-- The frame is recorded as one of the kernel stack. -/
def StackFrame (p : Process) (f : ℕ) : Prop :=
  ∃ j < p.kernelStackPagesCount, p.kernelStackPagesPhys j = f

/-- Between the states frames of the given kind were given back for the slot, and no others. -/
structure Gave (s t : Kernel) (slot : ℕ) (kind : ℕ → Prop) : Prop where
  others : ∀ i, i ≠ slot → t.processes i = s.processes i
  pmm : Sized s.vmm.pmm → (∀ f, kind f → InPool s.vmm.pmm f) →
    Sized t.vmm.pmm ∧ t.vmm.pmm.totalPages = s.vmm.pmm.totalPages ∧
      ∀ f, Allocated s.vmm.pmm f → ¬ kind f → Allocated t.vmm.pmm f
  log : ∃ es, t.log = s.log ++ es ∧ ∀ e ∈ es, ∃ f, kind f ∧ e = .free slot f

variable {kind kind' : ℕ → Prop}

lemma Gave.refl (s : Kernel) (slot : ℕ) (kind : ℕ → Prop) : Gave s s slot kind :=
  ⟨fun _ _ => rfl,fun hs _ => ⟨hs,rfl,fun _ hf _ => hf⟩,[],by simp,by simp⟩

lemma Gave.trans (h : Gave s t slot kind) (h' : Gave t u slot kind) : Gave s u slot kind := by
  obtain ⟨es,hes,hfr⟩ := h.log
  obtain ⟨es',hes',hfr'⟩ := h'.log
  refine ⟨?_,?_,es ++ es',?_,?_⟩
  · intro i hi
    rw [h'.others i hi,h.others i hi]
  · intro hs hpl
    obtain ⟨ht,htl,hkp⟩ := h.pmm hs hpl
    obtain ⟨hu,htl',hkp'⟩ := h'.pmm ht fun f hf => by
      obtain ⟨i,hi,heq⟩ := hpl f hf
      exact ⟨i,htl ▸ hi,heq⟩
    exact ⟨hu,htl'.trans htl,fun f hf hnot => hkp' f (hkp f hf hnot) hnot⟩
  · rw [hes',hes,List.append_assoc]
  · intro e he
    rcases List.mem_append.mp he with he | he
    · exact hfr e he
    · exact hfr' e he

lemma Gave.mono (h : Gave s t slot kind) (hkn : ∀ f, kind f → kind' f) :
    Gave s t slot kind' := by
  obtain ⟨es,hes,hfr⟩ := h.log
  refine ⟨h.others,?_,es,hes,?_⟩
  · intro hs hpl
    obtain ⟨ht,htl,hkp⟩ := h.pmm hs fun f hf => hpl f (hkn f hf)
    exact ⟨ht,htl,fun f hf hnot => hkp f hf fun hbad => hnot (hkn f hbad)⟩
  · intro e he
    obtain ⟨f,hf,hef⟩ := hfr e he
    exact ⟨f,hkn f hf,hef⟩

lemma gave_free (hf : kind f) : Gave s (s.free slot f) slot kind := by
  refine ⟨fun _ _ => rfl,?_,[.free slot f],rfl,?_⟩
  · intro hs hpl
    obtain ⟨hsz,htl⟩ := pmmFree_sized hs (hpl f hf)
    refine ⟨hsz,htl,fun g hg hnot => hg.pmmFree hs (hpl f hf) ?_⟩
    rintro rfl
    exact hnot hf
  · intro e he
    exact ⟨f,hf,List.mem_singleton.mp he⟩

lemma gave_unmap (s : Kernel) (slot virt : ℕ) (kind : ℕ → Prop) :
    Gave s (s.unmap virt) slot kind := by
  have hpmm : (s.unmap virt).vmm.pmm = s.vmm.pmm := vmmUnmap_pmm s.vmm virt
  refine ⟨fun _ _ => rfl,?_,[],(List.append_nil _).symm,by simp⟩
  intro hs _
  rw [hpmm]
  exact ⟨hs,rfl,fun _ hf _ => hf⟩

lemma gave_modify (s : Kernel) (slot : ℕ) (change : Process → Process) (kind : ℕ → Prop) :
    Gave s (s.modify slot change) slot kind := by
  refine ⟨?_,fun hs _ => ⟨hs,rfl,fun _ hf _ => hf⟩,[],(List.append_nil _).symm,by simp⟩
  intro i hi
  exact Function.update_of_ne hi _ _

lemma gave_freePages (s : Kernel) (pid : ℕ) (p : Process) (hn : n ≤ p.pageCount) :
    Gave s (freePages s pid p n) pid (UserFrame p) ∧
      (freePages s pid p n).processes = s.processes := by
  induction n with
  | zero => exact ⟨Gave.refl s pid _,rfl⟩
  | succ n ih =>
    obtain ⟨hgv,hpr⟩ := ih (by omega)
    rw [freePages]
    generalize freePages s pid p n = t at hgv hpr
    have hun : Gave s (if p.userVaddrs n ≠ 0 then t.unmap (p.userVaddrs n) else t) pid
        (UserFrame p) ∧ (if p.userVaddrs n ≠ 0 then t.unmap (p.userVaddrs n) else t).processes =
          s.processes := by
      split
      · exact ⟨hgv.trans (gave_unmap t pid _ _),hpr⟩
      · exact ⟨hgv,hpr⟩
    split
    · exact ⟨hun.1.trans (gave_free ⟨n,by omega,rfl⟩),hun.2⟩
    · exact hun

lemma gave_freeStack (s : Kernel) (pid : ℕ) (p : Process) (hn : n ≤ p.kernelStackPagesCount) :
    Gave s (freeStack s pid p n) pid (StackFrame p) ∧
    (freeStack s pid p n).processes = s.processes := by
  induction n with
  | zero => exact ⟨Gave.refl s pid _,rfl⟩
  | succ n ih =>
    obtain ⟨hgv,hpr⟩ := ih (by omega)
    rw [freeStack]
    have hun := hgv.trans (gave_unmap _ pid ((p.kernelStackBase+n*4096) % 2^64) _)
    split
    · exact ⟨hun.trans (gave_free ⟨n,by omega,rfl⟩),hpr⟩
    · exact ⟨hun,hpr⟩

lemma processExit_gave {pid : ℕ} (h : s.current = some pid) :
    Gave s (processExit s) pid
      (fun f => UserFrame (s.processes pid) f ∨ StackFrame (s.processes pid) f) ∧
    ((processExit s).processes pid).state = .none ∧ (processExit s).current = none := by
  rw [processExit,h]
  dsimp only
  refine ⟨?_,?_,rfl⟩
  · generalize ha : (s.modify pid fun p => { p with handleCount := 0 }) = a
    have hmd : Gave s a pid fun f => UserFrame (s.processes pid) f ∨
        StackFrame (s.processes pid) f := ha ▸ gave_modify s pid _ _
    have hus : UserFrame (a.processes pid) = UserFrame (s.processes pid) := by
      rw [← ha,modify_processes_self]
      rfl
    have hst : StackFrame (a.processes pid) = StackFrame (s.processes pid) := by
      rw [← ha,modify_processes_self]
      rfl
    obtain ⟨hpg,hpr⟩ := gave_freePages a pid (a.processes pid) le_rfl
    generalize hb : processFreePages a pid = b
    have hb_gave : Gave a b pid (UserFrame (a.processes pid)) := by
      rw [← hb,processFreePages]
      exact hpg.trans (gave_modify _ pid _ _)
    have hb_stack : StackFrame (b.processes pid) = StackFrame (a.processes pid) := by
      rw [← hb,processFreePages,modify_processes_self,hpr]
      rfl
    have hc_gave : Gave b (processFreeKernelStack b pid) pid (StackFrame (b.processes pid)) := by
      rw [processFreeKernelStack]
      split
      · exact Gave.refl b pid _
      · exact (gave_freeStack b pid _ le_rfl).1.trans (gave_modify _ pid _ _)
    rw [hus] at hb_gave
    rw [hb_stack,hst] at hc_gave
    have hall := (hmd.trans (hb_gave.mono fun f hf => .inl hf)).trans
      (hc_gave.mono fun f hf => .inr hf)
    have hls := hall.trans (gave_modify _ pid (fun p => { p with state := .none }) _)
    exact ⟨hls.others,hls.pmm,hls.log⟩
  · rw [modify_processes_self]

/-- Both processes have the same frames, and both or none of them is live. -/
structure SameFrames (p q : Process) : Prop where
  pml4 : p.pml4Phys = q.pml4Phys
  user : UserFrame p = UserFrame q
  stack : StackFrame p = StackFrame q
  state : p.state = .none ↔ q.state = .none

lemma SameFrames.refl (p : Process) : SameFrames p p := ⟨rfl,rfl,rfl,Iff.rfl⟩

lemma sameFrames_modify (change : Process → Process) {j : ℕ}
    (hch : SameFrames (change (s.processes j)) (s.processes j)) (i : ℕ) :
    SameFrames ((s.modify j change).processes i) (s.processes i) := by
  by_cases hij : i = j
  · subst hij
    rw [modify_processes_self]
    exact hch
  · rw [Kernel.modify]
    simp only [Function.update_of_ne hij]
    exact SameFrames.refl _

lemma SameFrames.trans {q r : Process} (h : SameFrames p q) (h' : SameFrames q r) :
    SameFrames p r :=
  ⟨h.pml4.trans h'.pml4,h.user.trans h'.user,h.stack.trans h'.stack,h.state.trans h'.state⟩

lemma dispatch_same (hnx : (s.processes next).state ≠ .none) (hvmm : t.vmm = s.vmm)
    (hlog : t.log = s.log) (hfr : ∀ i, SameFrames (t.processes i) (s.processes i)) :
    let b : Kernel := { t.modify next fun p => { p with
      state := .running
      timeSlice := defaultTimeSlice
      cpu := 0
      firstRun := false } with current := some next }
    let c := if (b.processes next).pml4Phys ≠ 0 then b.switch (b.processes next).pml4Phys else b
    c.vmm.pmm = s.vmm.pmm ∧ c.current = some next ∧ c.log = s.log ∧
      ∀ i, SameFrames (c.processes i) (s.processes i) := by
  have hlv : (t.processes next).state ≠ .none := fun hbad => hnx ((hfr next).state.mp hbad)
  intro b c
  have hrun : ∀ i, SameFrames (b.processes i) (s.processes i) := by
    intro i
    have hsl : SameFrames { t.processes next with
        state := .running
        timeSlice := defaultTimeSlice
        cpu := 0
        firstRun := false } (t.processes next) := ⟨rfl,rfl,rfl,by simp [hlv]⟩
    refine SameFrames.trans ?_ (hfr i)
    exact sameFrames_modify (fun p => { p with
      state := .running
      timeSlice := defaultTimeSlice
      cpu := 0
      firstRun := false }) hsl i
  have hpmm : t.vmm.pmm = s.vmm.pmm := congrArg Vmm.pmm hvmm
  simp only [c]
  split <;> exact ⟨hpmm,rfl,hlog,hrun⟩

lemma schedule_same (hnx : (s.processes next).state ≠ .none) :
    (schedule s next).vmm.pmm = s.vmm.pmm ∧ (schedule s next).current = some next ∧
      (schedule s next).log = s.log ∧
      ∀ i, SameFrames ((schedule s next).processes i) (s.processes i) := by
  rw [schedule]
  cases s.current with
  | none => exact dispatch_same hnx rfl rfl fun i => SameFrames.refl _
  | some prev =>
    refine dispatch_same hnx rfl rfl fun i => sameFrames_modify _ ?_ i
    split
    · rename_i hrn
      exact ⟨rfl,rfl,rfl,by simp [hrn]⟩
    · exact SameFrames.refl _

end ProcessTable
end HarlinKernel
