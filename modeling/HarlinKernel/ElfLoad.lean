import HarlinKernel.ElfBounds
import HarlinKernel.ProcessTable
import HarlinKernel.UserCopy

/-! Loading an ELF image: `elf_load_all` and `elf_load_exec` of `proc/elf.c`, and
`process_create_elf` of `proc/scheduler.c` with the bytes that it stores in the pages of the new
process. The process table is that of `ProcessTable`; the bytes of the frames are kept beside
it. -/
namespace HarlinKernel.ElfLoad

open BoundedReads (Holds)
open ElfParse PageTable ProcessTable UserCopy

def ptLoad : ℕ := 1
def etExec : ℕ := 2
def etDyn : ℕ := 3
def emX8664 : ℕ := 62

/-- The length of `segs` in `elf_load_exec`. -/
def maxSegments : ℕ := 16

/-- The loop of `elf_load_all` over `n` headers from `i` on; headers that do not load are left
out. -/
def loadAllFrom (m : ElfParse.Memory) (size : ℕ) (info : ElfInfo) : ℕ → ℕ → Option (List ElfSegment)
  | 0, _ => some []
  | n+1, i => (elfLoadSegment m size info i).bind fun seg =>
    (loadAllFrom m size info n (i+1)).map (seg.toList ++ ·)

def elfLoadAll (m : ElfParse.Memory) (size : ℕ) (info : ElfInfo) (outMax : ℕ) :
    Option (List ElfSegment) :=
  loadAllFrom m size info (min info.ePhnum outMax) 0

structure ElfExecInfo where
  entry : ℕ
  phdrVaddr : ℕ
  phdrMemsz : ℕ
  loadBias : ℕ
  lowestVaddr : ℕ
  highestVaddr : ℕ
  is64 : Bool
  loadedSegments : ℕ
  totalSegments : ℕ
  deriving DecidableEq

/-- What `elf_load_exec` says about the segments that are to be loaded. -/
def execInfo (info : ElfInfo) (loads : List ElfSegment) : ElfExecInfo where
  entry := info.eEntry
  phdrVaddr := 0
  phdrMemsz := 0
  loadBias := 0
  lowestVaddr := loads.foldl (fun low seg => min seg.pVaddr low) (2^64-1)
  highestVaddr := loads.foldl (fun high seg => max high ((seg.pVaddr+seg.pMemsz) % 2^64)) 0
  is64 := info.is64
  loadedSegments := 0
  totalSegments := loads.length

/-- `elf_load_exec` without a callback, which is `elf_load_exec_simple`, and the segments that
the callback would get. -/
def elfLoadExecSimple (m : ElfParse.Memory) (size : ℕ) :
    Option (Option (ElfExecInfo × List ElfSegment)) :=
  (elfCheckMagic m size).bind fun ok =>
    if ok = false then some none
    else
      (elfParseHeader m size).bind fun
        | none => some none
        | some info =>
          if (info.eType ≠ etExec ∧ info.eType ≠ etDyn) ∨ info.eMachine ≠ emX8664 then some none
          else
            (elfLoadAll m size info maxSegments).map fun segs =>
              let loads := segs.filter fun seg => seg.pType = ptLoad
              if loads.length = 0 then none else some (execInfo info loads,loads)

/-- The process table and the bytes of each frame. -/
structure Machine where
  kernel : Kernel
  data : ℕ → ℕ → UInt8

/-- A cleared frame for a page of the process. -/
def addPage (s : Machine) (slot virt : ℕ) : ℤ × Machine :=
  let frame := (s.kernel.alloc slot).1
  let r := addUserPage s.kernel slot virt
  (r.1,⟨r.2,if frame = 0 then s.data else Function.update s.data frame fun _ => 0⟩)

/-- `src` is where the bytes come from, if there are any; nobody looks at what
`Harlin_CopyToUser` returns. -/
def elfAllocUserPageCb (s : Machine) (slot vaddr : ℕ) (src : Option (ℕ → UInt8)) (filesz : ℕ) :
    ℤ × Machine :=
  let chunk := min filesz (0x1000-vaddr % 0x1000)
  let r := addPage s slot vaddr
  if r.1 ≠ 0 then (-1,r.2)
  else
    match src with
    | none => (0,r.2)
    | some bytes =>
      (0,⟨r.2.kernel,(copyToUser ⟨r.2.kernel.vmm,r.2.data⟩ vaddr bytes chunk).mem.data⟩)

/-- One empty page for each segment. -/
def loadFirst (s : Machine) (slot : ℕ) : List ElfSegment → ℤ × Machine
  | [] => (0,s)
  | seg :: segs =>
    let r := elfAllocUserPageCb s slot seg.pVaddr none (min seg.pFilesz seg.pMemsz)
    if r.1 ≠ 0 then (-1,r.2) else loadFirst r.2 slot segs

/-- The bytes of the image from `off` on. -/
def imageBytes (m : ElfParse.Memory) (off : ℕ) : ℕ → UInt8 := fun i => (byteAt m (off+i)).getD 0

/-- The bytes of a segment, one page after the other; each round loads a byte at least. -/
def loadChunks (s : Machine) (slot : ℕ) (m : ElfParse.Memory) : ℕ → ℕ → ℕ → ℕ → ℤ × Machine
  | 0, _, _, _ => (0,s)
  | fuel+1, off, vaddr, left =>
    if left = 0 then (0,s)
    else
      let chunk := min left (0x1000-vaddr % 0x1000)
      let r := elfAllocUserPageCb s slot vaddr (some (imageBytes m off)) chunk
      if r.1 ≠ 0 then (-1,r.2)
      else loadChunks r.2 slot m fuel (off+chunk) ((vaddr+chunk) % 2^64) (left-chunk)

def loadBytes (s : Machine) (slot : ℕ) (m : ElfParse.Memory) (size : ℕ) :
    List ElfSegment → ℤ × Machine
  | [] => (0,s)
  | seg :: segs =>
    if seg.pFilesz = 0 then loadBytes s slot m size segs
    else if size < seg.pOffset ∨ size-seg.pOffset < seg.pFilesz then (-1,s)
    else
      let r := loadChunks s slot m seg.pFilesz seg.pOffset seg.pVaddr seg.pFilesz
      if r.1 ≠ 0 then (-1,r.2) else loadBytes r.2 slot m size segs

/-- `elf_load_exec` with the callback. -/
def elfLoadExec (s : Machine) (slot : ℕ) (m : ElfParse.Memory) (size : ℕ) : Option (ℤ × Machine) :=
  (elfLoadExecSimple m size).map fun
    | none => (-1,s)
    | some (_,loads) =>
      let r := loadFirst s slot loads
      if r.1 ≠ 0 then (-1,r.2) else loadBytes r.2 slot m size loads

/-- The user stack, until a page is missing. -/
def addStack (s : Machine) (slot virt : ℕ) : ℕ → Machine
  | 0 => s
  | n+1 =>
    let r := addPage s slot virt
    if r.1 ≠ 0 then r.2 else addStack r.2 slot (virt+4096) n

/-- `process_create_elf` once the image has been found to be one. -/
def createProcess (s : Machine) (m : ElfParse.Memory) (size entry : ℕ) : Option (ℤ × Machine) :=
  match findSlot s.kernel.processes with
  | none => some (-1,s)
  | some slot =>
    let stack := allocStack s.kernel slot 5
    if stack.1.length ≠ 5 then some (-1,⟨freeAll stack.2 slot stack.1,s.data⟩)
    else
      let saved := s.kernel.vmm.currentPml4Phys
      let r := cloneStack stack.2 slot stack.1
      if r.1 = false then
        let t := if r.2.1 = 0 then r.2.2 else r.2.2.switch saved
        some (-1,⟨freeAll t slot stack.1,s.data⟩)
      else
        (elfLoadExec ⟨r.2.2.modify slot fun p => { p with state := .blocked },s.data⟩
          slot m size).map fun loaded =>
            if loaded.1 ≠ 0 then
              let t := freeAll (loaded.2.kernel.switch saved) slot stack.1
              (-1,⟨t.modify slot fun p => { p with state := .none },loaded.2.data⟩)
            else
              let t := addStack loaded.2 slot (elfUserStackTop-elfUserStackPages*4096)
                elfUserStackPages
              let k := (t.kernel.switch saved).modify slot fun p =>
                { p.started slot r.2.1 stack.1 with
                  rip := entry
                  rsp := elfUserStackTop
                  rdi := 0
                  pageCount := min p.pageCount userPagesMax
                  nextAllocVirt := elfUserLoadBase+0x100000 }
              (slot,⟨k.free slot (stack.1.getD 4 0),t.data⟩)

/-- The return value and the machine afterwards; none if a read of the image faults. -/
def processCreateElf (s : Machine) (m : ElfParse.Memory) (size : ℕ) : Option (ℤ × Machine) :=
  if size < 16 then some (-1,s)
  else
    (elfCheckMagic m size).bind fun ok =>
      if ok = false then some (-1,s)
      else
        (elfLoadExecSimple m size).bind fun
          | none => some (-1,s)
          | some (info,_) =>
            if info.entry < elfUserLoadBase then some (-1,s) else createProcess s m size info.entry

/-- A segment as the process table's model of loading has it. -/
def toSegment (seg : ElfSegment) : Segment := ⟨seg.pVaddr,seg.pFilesz,seg.pMemsz,seg.pOffset⟩

/-- The image as its headers describe it. -/
def elfImage (size : ℕ) : Option (ElfExecInfo × List ElfSegment) → ElfImage
  | none => ⟨false,0,size,[]⟩
  | some (info,loads) => ⟨true,info.entry,size,loads.map toSegment⟩

/-- The code and the process table that a call leaves. -/
def outcome (r : ℤ × Machine) : ℤ × Kernel := (r.1,r.2.kernel)

variable {size : ℕ} {r : Option (ElfExecInfo × List ElfSegment)}

section Kernel

variable {s : Machine} {slot : ℕ} {m : ElfParse.Memory}

lemma addUserPage_rc (k : Kernel) (slot virt : ℕ) :
    (addUserPage k slot virt).1 = -1 ∨ (addUserPage k slot virt).1 = 0 := by
  unfold addUserPage
  dsimp only
  split
  · exact .inl rfl
  · split
    · exact .inl rfl
    · exact .inr rfl

lemma outcome_callback (s : Machine) (slot vaddr : ℕ) (src : Option (ℕ → UInt8)) (filesz : ℕ) :
    outcome (elfAllocUserPageCb s slot vaddr src filesz) =
      ProcessTable.elfAllocUserPageCb s.kernel slot vaddr := by
  have hpage : (addPage s slot vaddr).1 = (addUserPage s.kernel slot vaddr).1 := rfl
  unfold elfAllocUserPageCb
  rcases addUserPage_rc s.kernel slot vaddr with hrc | hrc
  · simp only [hpage,hrc]
    exact Prod.ext hrc.symm rfl
  · simp only [hpage,hrc]
    cases src with
    | none => exact Prod.ext hrc.symm rfl
    | some bytes => exact Prod.ext hrc.symm rfl

lemma outcome_then {r : ℤ × Machine} {k : ℤ × Kernel} (hr : outcome r = k)
    {f : Machine → ℤ × Machine} {g : Kernel → ℤ × Kernel} (hf : ∀ s, outcome (f s) = g s.kernel) :
    outcome (if r.1 ≠ 0 then (-1,r.2) else f r.2) = if k.1 ≠ 0 then (-1,k.2) else g k.2 := by
  subst hr
  by_cases hrc : r.1 ≠ 0
  · rw [if_pos hrc]
    exact (if_pos hrc).symm
  · rw [if_neg hrc]
    exact (hf r.2).trans (if_neg hrc).symm

lemma outcome_loadFirst (segs : List ElfSegment) : outcome (loadFirst s slot segs) =
    ProcessTable.loadFirst s.kernel slot (segs.map toSegment) := by
  induction segs generalizing s with
  | nil => rfl
  | cons seg segs ih =>
    exact outcome_then (f := fun s => loadFirst s slot segs)
      (g := fun k => ProcessTable.loadFirst k slot _) (outcome_callback ..) fun _ => ih

lemma outcome_loadChunks (fuel off vaddr left : ℕ) :
    outcome (loadChunks s slot m fuel off vaddr left) =
      ProcessTable.loadChunks s.kernel slot fuel vaddr left := by
  induction fuel generalizing s off vaddr left with
  | zero => rfl
  | succ fuel ih =>
    rw [loadChunks,ProcessTable.loadChunks]
    by_cases hlf : left = 0
    · simp only [if_pos hlf]
      rfl
    · simp only [if_neg hlf]
      exact outcome_then (f := fun s => loadChunks s slot m fuel _ _ _)
        (g := fun k => ProcessTable.loadChunks k slot fuel _ _) (outcome_callback ..) fun _ => ih ..

lemma outcome_loadBytes (size : ℕ) (segs : List ElfSegment) :
    outcome (loadBytes s slot m size segs) =
      ProcessTable.loadBytes s.kernel slot size (segs.map toSegment) := by
  induction segs generalizing s with
  | nil => rfl
  | cons seg segs ih =>
    rw [loadBytes,List.map_cons,ProcessTable.loadBytes,toSegment]
    dsimp only
    by_cases hem : seg.pFilesz = 0
    · rw [if_pos hem,if_pos hem]
      exact ih
    · rw [if_neg hem,if_neg hem]
      by_cases hout : size < seg.pOffset ∨ size-seg.pOffset < seg.pFilesz
      · rw [if_pos hout,if_pos hout]
        rfl
      · rw [if_neg hout,if_neg hout]
        exact outcome_then (f := fun s => loadBytes s slot m size segs)
          (g := fun k => ProcessTable.loadBytes k slot size _) (outcome_loadChunks ..) fun _ => ih

lemma outcome_elfLoadExec (slot : ℕ)
    (h : elfLoadExecSimple m size = some r) : ∃ t, elfLoadExec s slot m size = some t ∧
      outcome t = ProcessTable.elfLoadExec s.kernel slot (elfImage size r) := by
  rw [elfLoadExec,h,Option.map_some]
  refine ⟨_,rfl,?_⟩
  cases r with
  | none => rfl
  | some r =>
    exact outcome_then (f := fun s => loadBytes s slot m size r.2)
      (g := fun k => ProcessTable.loadBytes k slot size _) (outcome_loadFirst r.2)
      fun _ => outcome_loadBytes size r.2

lemma addStack_kernel (virt n : ℕ) :
    (addStack s slot virt n).kernel = addUserStack s.kernel slot virt n := by
  induction n generalizing s virt with
  | zero => rfl
  | succ n ih =>
    have hrc : (addPage s slot virt).1 = (addUserPage s.kernel slot virt).1 := rfl
    rw [addStack,addUserStack,hrc]
    split
    · rfl
    · exact ih _

lemma outcome_createProcess {info : ElfExecInfo} {loads : List ElfSegment}
    (h : elfLoadExecSimple m size = some (some (info,loads)))
    (hen : ¬ info.entry < elfUserLoadBase) :
    ∃ t, createProcess s m size info.entry = some t ∧
      outcome t = ProcessTable.processCreateElf s.kernel (elfImage size (some (info,loads))) := by
  have him : ¬ ((elfImage size (some (info,loads))).accepted = false ∨
      (elfImage size (some (info,loads))).entry < elfUserLoadBase) := by
    simpa [elfImage] using hen
  rw [createProcess,ProcessTable.processCreateElf,if_neg him]
  cases findSlot s.kernel.processes with
  | none => exact ⟨_,rfl,rfl⟩
  | some slot =>
    dsimp only
    generalize allocStack s.kernel slot 5 = stack
    by_cases hlen : stack.1.length ≠ 5
    · rw [if_pos hlen,if_pos hlen]
      exact ⟨_,rfl,rfl⟩
    rw [if_neg hlen,if_neg hlen]
    generalize cloneStack stack.2 slot stack.1 = r
    by_cases hcl : r.1 = false
    · rw [if_pos hcl,if_pos hcl]
      exact ⟨_,rfl,rfl⟩
    rw [if_neg hcl,if_neg hcl]
    obtain ⟨loaded,hld,hot⟩ := outcome_elfLoadExec
      (s := ⟨r.2.2.modify slot fun p => { p with state := .blocked },s.data⟩) slot h
    rw [hld,Option.map_some]
    refine ⟨_,rfl,?_⟩
    rw [← hot]
    by_cases hrc : loaded.1 ≠ 0
    · have hrc' : (outcome loaded).1 ≠ 0 := hrc
      rw [if_pos hrc,if_pos hrc']
      rfl
    · have hrc' : ¬ (outcome loaded).1 ≠ 0 := hrc
      rw [if_neg hrc,if_neg hrc']
      simp only [outcome,addStack_kernel]
      rfl

/-- The process table that `process_create_elf` leaves is that of the model without bytes. -/
theorem outcome_processCreateElf
    (h : elfLoadExecSimple m size = some r) : ∃ t, processCreateElf s m size = some t ∧
      outcome t = ProcessTable.processCreateElf s.kernel (elfImage size r) := by
  obtain ⟨ok,hok,hrs⟩ := Option.bind_eq_some_iff.mp h
  rw [processCreateElf]
  by_cases hsm : size < 16
  · rw [elfCheckMagic,if_pos hsm] at hok
    cases hok
    cases hrs
    rw [if_pos hsm]
    exact ⟨_,rfl,rfl⟩
  rw [if_neg hsm,hok,Option.bind_some,h]
  cases ok with
  | false =>
    cases hrs
    exact ⟨_,rfl,rfl⟩
  | true =>
    cases r with
    | none => exact ⟨_,rfl,rfl⟩
    | some r =>
      obtain ⟨info,loads⟩ := r
      simp only [Bool.true_eq_false,if_false,Option.bind_some]
      by_cases hen : info.entry < elfUserLoadBase
      · rw [if_pos hen,ProcessTable.processCreateElf,
          if_pos (.inr hen : _ ∨ (elfImage size (some (info,loads))).entry < elfUserLoadBase)]
        exact ⟨_,rfl,rfl⟩
      · rw [if_neg hen]
        exact outcome_createProcess h hen

end Kernel

end HarlinKernel.ElfLoad
