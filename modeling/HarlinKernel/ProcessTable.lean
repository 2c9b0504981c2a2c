import HarlinKernel.AddressSpace

/-! The process table of `proc/scheduler.c` as far as memory is concerned: creating processes,
forking and exiting. The frames that these functions take from `pmm_alloc` and pass to
`pmm_free` are kept in a log. Locks, saved registers and the closing of handles are left out; an
ELF image comes in as the result of parsing its headers, and what is copied into its pages is
not kept. -/
namespace HarlinKernel.ProcessTable

open PageAllocator PageTable AddressSpace

def maxProcesses : ℕ := 16
def defaultTimeSlice : ℕ := 10
def kernelStackBase : ℕ := 0xFFFF800001000000
def kernelStackSize : ℕ := 0x5000
def elfUserLoadBase : ℕ := 0x400000
def elfUserStackTop : ℕ := 0x7FFFF000
def elfUserStackPages : ℕ := 4
def userPagesMax : ℕ := 64

inductive ProcState
  | none | ready | running | sleeping | blocked
  deriving DecidableEq

/-- What `process_wake` makes of a state: only a blocked process becomes ready. -/
def ProcState.wake : ProcState → ProcState
  | .blocked => .ready
  | st => st

lemma ProcState.wake_of_ne {st : ProcState} (h : st ≠ .blocked) : st.wake = st := by
  cases st with
  | blocked => exact absurd rfl h
  | _ => rfl

structure Process where
  rip : ℕ
  rsp : ℕ
  rdi : ℕ
  rflags : ℕ
  state : ProcState
  firstRun : Bool
  cpu : ℤ
  priority : ℕ
  timeSlice : ℕ
  sleepUntil : ℕ
  nice : ℤ
  runtimeNs : ℕ
  fairKey : ℕ
  userPages : ℕ → ℕ
  userVaddrs : ℕ → ℕ
  pageCount : ℕ
  nextAllocVirt : ℕ
  pml4Phys : ℕ
  kernelStackTop : ℕ
  kernelStackBase : ℕ
  kernelStackPagesPhys : ℕ → ℕ
  kernelStackPagesCount : ℕ
  handles : ℕ → ℤ
  handleCount : ℕ

/-- A slot of the table before anything is stored in it. -/
def Process.zero : Process where
  rip := 0
  rsp := 0
  rdi := 0
  rflags := 0
  state := .none
  firstRun := false
  cpu := 0
  priority := 0
  timeSlice := 0
  sleepUntil := 0
  nice := 0
  runtimeNs := 0
  fairKey := 0
  userPages := fun _ => 0
  userVaddrs := fun _ => 0
  pageCount := 0
  nextAllocVirt := 0
  pml4Phys := 0
  kernelStackTop := 0
  kernelStackBase := 0
  kernelStackPagesPhys := fun _ => 0
  kernelStackPagesCount := 0
  handles := fun _ => 0
  handleCount := 0

/-- A frame that a function takes or gives back for the process in a slot. -/
inductive Event
  | alloc (slot frame : ℕ)
  | free (slot frame : ℕ)
  deriving DecidableEq

structure Kernel where
  vmm : Vmm
  processes : ℕ → Process
  current : Option ℕ
  log : List Event

/-- `pmm_alloc` for a slot. -/
def Kernel.alloc (s : Kernel) (slot : ℕ) : ℕ × Kernel :=
  let r := allocPage s.vmm
  (r.1,{ s with
    vmm := r.2
    log := if r.1 = 0 then s.log else s.log ++ [.alloc slot r.1] })

/-- `pmm_free` for a slot. -/
def Kernel.free (s : Kernel) (slot frame : ℕ) : Kernel :=
  { s with
    vmm := { s.vmm with pmm := pmmFree s.vmm.pmm frame }
    log := s.log ++ [.free slot frame] }

/-- The four frames that `vmm_clone_kernel_pml4` takes. -/
def cloneFrames (s : Vmm) : List ℕ :=
  let new := allocPage s
  let pdpt := allocPage new.2
  let pd := allocPage pdpt.2
  [new.1,pdpt.1,pd.1,(allocPage pd.2).1]

def Kernel.clone (s : Kernel) (slot : ℕ) : ℕ × Kernel :=
  let r := vmmCloneKernelPml4 s.vmm
  (r.1,{ s with
    vmm := r.2
    log := if r.1 = 0 then s.log else s.log ++ (cloneFrames s.vmm).map (.alloc slot) })

def Kernel.switch (s : Kernel) (pml4Phys : ℕ) : Kernel := { s with vmm := vmmSwitch s.vmm pml4Phys }

def Kernel.map (s : Kernel) (virt phys flags : ℕ) : ℤ × Kernel :=
  let r := vmmMap s.vmm virt phys flags
  (r.1,{ s with vmm := r.2 })

def Kernel.unmap (s : Kernel) (virt : ℕ) : Kernel := { s with vmm := vmmUnmap s.vmm virt }

/-- `vmm_get_phys`. -/
def Kernel.phys (s : Kernel) (virt : ℕ) : ℕ := vmmGetPhysLocked s.vmm virt

def Kernel.modify (s : Kernel) (slot : ℕ) (f : Process → Process) : Kernel :=
  { s with processes := Function.update s.processes slot (f (s.processes slot)) }

def findSlot (processes : ℕ → Process) : Option ℕ :=
  (List.range maxProcesses).find? fun i => (processes i).state = .none

/-- The frames of a kernel stack, until one is missing. -/
def allocStack (s : Kernel) (slot : ℕ) : ℕ → List ℕ × Kernel
  | 0 => ([],s)
  | n+1 =>
    let r := s.alloc slot
    if r.1 = 0 then ([],r.2)
    else
      let rest := allocStack r.2 slot n
      (r.1 :: rest.1,rest.2)

def freeAll (s : Kernel) (slot : ℕ) (frames : List ℕ) : Kernel :=
  frames.foldl (fun s frame => s.free slot frame) s

/-- The pages of a kernel stack, until one cannot be mapped. -/
def mapStack (s : Kernel) (virt : ℕ) : List ℕ → Bool × Kernel
  | [] => (true,s)
  | frame :: frames =>
    let r := s.map virt frame (vmmPresent ||| vmmWritable)
    if r.1 ≠ 0 then (false,r.2) else mapStack r.2 (virt+4096) frames

def stackBaseOf (slot : ℕ) : ℕ := kernelStackBase+slot*kernelStackSize

/-- The members that both ways to create a process set in the same way. -/
def Process.started (p : Process) (slot cloned : ℕ) (frames : List ℕ) : Process :=
  { p with
    rflags := 0x202
    state := .ready
    firstRun := true
    cpu := -1
    priority := 1
    timeSlice := defaultTimeSlice
    sleepUntil := 0
    nice := 0
    runtimeNs := 0
    fairKey := 0
    pml4Phys := cloned
    kernelStackTop := stackBaseOf slot+kernelStackSize-4096
    kernelStackBase := stackBaseOf slot
    kernelStackPagesCount := 4
    kernelStackPagesPhys := fun j => if j < 4 then frames.getD j 0 else p.kernelStackPagesPhys j
    handleCount := 0 }

/-- The kernel stack in a cloned address space, which is current afterwards if there is one:
whether it was mapped, and the PML4. -/
def cloneStack (s : Kernel) (slot : ℕ) (frames : List ℕ) : Bool × ℕ × Kernel :=
  let cloned := s.clone slot
  if cloned.1 = 0 then (false,0,cloned.2)
  else
    let mapped := mapStack (cloned.2.switch cloned.1) (stackBaseOf slot) (frames.take 4)
    (mapped.1 && mapped.2.phys (stackBaseOf slot) == frames.getD 0 0,cloned.1,mapped.2)

def processCreate (s : Kernel) (rip rsp : ℕ) : ℤ × Kernel :=
  match findSlot s.processes with
  | none => (-1,s)
  | some slot =>
    let stack := allocStack s slot 5
    if stack.1.length ≠ 5 then (-1,freeAll stack.2 slot stack.1)
    else
      let saved := s.vmm.currentPml4Phys
      let r := cloneStack stack.2 slot stack.1
      let t := if r.2.1 = 0 then r.2.2 else r.2.2.switch saved
      if r.1 = false then (-1,freeAll t slot stack.1)
      else
        let t := t.modify slot fun p =>
          { p.started slot r.2.1 stack.1 with
            rip := rip
            rsp := rsp
            pageCount := 0
            nextAllocVirt := 0 }
        (slot,t.free slot (stack.1.getD 4 0))

/-- A page of the process, as long as its table has room. -/
def Process.record (p : Process) (virt phys : ℕ) : Process :=
  if p.pageCount < userPagesMax then
    { p with
      userVaddrs := Function.update p.userVaddrs p.pageCount virt
      userPages := Function.update p.userPages p.pageCount phys
      pageCount := p.pageCount+1 }
  else p

/-- A cleared frame for a page of the process, as both loops of `process_create_elf` get one. -/
def addUserPage (s : Kernel) (slot virt : ℕ) : ℤ × Kernel :=
  let r := s.alloc slot
  if r.1 = 0 then (-1,r.2)
  else
    let s : Kernel := { r.2 with vmm := clearPagePhys r.2.vmm r.1 }
    let mapped := s.map virt r.1 (vmmPresent ||| vmmWritable ||| vmmUser)
    if mapped.1 ≠ 0 then (-1,mapped.2.free slot r.1)
    else (0,mapped.2.modify slot fun p => p.record virt r.1)

/-- `elf_alloc_user_page_cb`. -/
def elfAllocUserPageCb (s : Kernel) (slot vaddr : ℕ) : ℤ × Kernel := addUserPage s slot vaddr

/-- A `PT_LOAD` segment. -/
structure Segment where
  vaddr : ℕ
  filesz : ℕ
  memsz : ℕ
  offset : ℕ

/-- An image as its headers describe it; `accepted` if `elf_load_exec` finds nothing wrong with
them and there is a segment to load. -/
structure ElfImage where
  accepted : Bool
  entry : ℕ
  size : ℕ
  segments : List Segment

/-- One page for each segment. -/
def loadFirst (s : Kernel) (slot : ℕ) : List Segment → ℤ × Kernel
  | [] => (0,s)
  | seg :: segs =>
    let r := elfAllocUserPageCb s slot seg.vaddr
    if r.1 ≠ 0 then (-1,r.2) else loadFirst r.2 slot segs

/-- The bytes of a segment, one page after the other; each round loads a byte at least. -/
def loadChunks (s : Kernel) (slot : ℕ) : ℕ → ℕ → ℕ → ℤ × Kernel
  | 0, _, _ => (0,s)
  | fuel+1, vaddr, left =>
    if left = 0 then (0,s)
    else
      let chunk := min left (0x1000-vaddr % 0x1000)
      let r := elfAllocUserPageCb s slot vaddr
      if r.1 ≠ 0 then (-1,r.2) else loadChunks r.2 slot fuel ((vaddr+chunk) % 2^64) (left-chunk)

def loadBytes (s : Kernel) (slot size : ℕ) : List Segment → ℤ × Kernel
  | [] => (0,s)
  | seg :: segs =>
    if seg.filesz = 0 then loadBytes s slot size segs
    else if size < seg.offset ∨ size-seg.offset < seg.filesz then (-1,s)
    else
      let r := loadChunks s slot seg.filesz seg.vaddr seg.filesz
      if r.1 ≠ 0 then (-1,r.2) else loadBytes r.2 slot size segs

/-- `elf_load_exec` with the callback. -/
def elfLoadExec (s : Kernel) (slot : ℕ) (image : ElfImage) : ℤ × Kernel :=
  if image.accepted = false then (-1,s)
  else
    let r := loadFirst s slot image.segments
    if r.1 ≠ 0 then (-1,r.2) else loadBytes r.2 slot image.size image.segments

/-- The user stack, until a page is missing. -/
def addUserStack (s : Kernel) (slot virt : ℕ) : ℕ → Kernel
  | 0 => s
  | n+1 =>
    let r := addUserPage s slot virt
    if r.1 ≠ 0 then r.2 else addUserStack r.2 slot (virt+4096) n

def processCreateElf (s : Kernel) (image : ElfImage) : ℤ × Kernel :=
  if image.accepted = false ∨ image.entry < elfUserLoadBase then (-1,s)
  else
    match findSlot s.processes with
    | none => (-1,s)
    | some slot =>
      let stack := allocStack s slot 5
      if stack.1.length ≠ 5 then (-1,freeAll stack.2 slot stack.1)
      else
        let saved := s.vmm.currentPml4Phys
        let r := cloneStack stack.2 slot stack.1
        if r.1 = false then
          let t := if r.2.1 = 0 then r.2.2 else r.2.2.switch saved
          (-1,freeAll t slot stack.1)
        else
          let loaded :=
            elfLoadExec (r.2.2.modify slot fun p => { p with state := .blocked }) slot image
          if loaded.1 ≠ 0 then
            let t := freeAll (loaded.2.switch saved) slot stack.1
            (-1,t.modify slot fun p => { p with state := .none })
          else
            let t := addUserStack loaded.2 slot (elfUserStackTop-elfUserStackPages*4096)
              elfUserStackPages
            let t := (t.switch saved).modify slot fun p =>
              { p.started slot r.2.1 stack.1 with
                rip := image.entry
                rsp := elfUserStackTop
                rdi := 0
                pageCount := min p.pageCount userPagesMax
                nextAllocVirt := elfUserLoadBase+0x100000 }
            (slot,t.free slot (stack.1.getD 4 0))

/-- The child of a fork: the parent's pages, and frames and addresses one page further. -/
def Process.forked (child parent : Process) : Process :=
  { child with
    rip := parent.rip
    rsp := parent.rsp
    rflags := 0x202
    state := .ready
    firstRun := true
    pageCount := parent.pageCount
    userVaddrs := fun p =>
      if p < parent.pageCount ∧ p < userPagesMax then parent.userVaddrs p else child.userVaddrs p
    userPages := fun p =>
      if p < parent.pageCount ∧ p < userPagesMax then parent.userPages p else child.userPages p
    nextAllocVirt := parent.nextAllocVirt
    cpu := -1
    priority := parent.priority
    timeSlice := defaultTimeSlice
    sleepUntil := 0
    nice := parent.nice
    runtimeNs := 0
    fairKey := 0
    pml4Phys := (parent.pml4Phys+0x1000) % 2^64
    kernelStackTop := (parent.kernelStackTop+0x1000) % 2^64
    kernelStackBase := (parent.kernelStackBase+0x1000) % 2^64
    kernelStackPagesCount := parent.kernelStackPagesCount
    kernelStackPagesPhys := fun p =>
      if p < 4 then (parent.kernelStackPagesPhys p+0x1000) % 2^64 else child.kernelStackPagesPhys p
    handleCount := parent.handleCount
    handles := fun h =>
      if h < parent.handleCount ∧ h < 16 then parent.handles h else child.handles h }

/-- `Harlin_Fork`: the return code and the child's pid. -/
def fork (s : Kernel) (parentPid : ℕ) : (ℤ × Option ℕ) × Kernel :=
  if maxProcesses ≤ parentPid ∨ (s.processes parentPid).state = .none then ((-1,none),s)
  else
    match findSlot s.processes with
    | none => ((-1,none),s)
    | some child => ((0,some child),s.modify child fun p => p.forked (s.processes parentPid))

/-- The loop of `process_free_pages` over the first `n` entries. -/
def freePages (s : Kernel) (pid : ℕ) (p : Process) : ℕ → Kernel
  | 0 => s
  | n+1 =>
    let s := freePages s pid p n
    let s := if p.userVaddrs n ≠ 0 then s.unmap (p.userVaddrs n) else s
    if p.userPages n ≠ 0 then s.free pid (p.userPages n) else s

def processFreePages (s : Kernel) (pid : ℕ) : Kernel :=
  let p := s.processes pid
  (freePages s pid p p.pageCount).modify pid fun p => { p with pageCount := 0 }

/-- The loop of `process_free_kernel_stack` over the first `n` pages. -/
def freeStack (s : Kernel) (pid : ℕ) (p : Process) : ℕ → Kernel
  | 0 => s
  | n+1 =>
    let s := (freeStack s pid p n).unmap ((p.kernelStackBase+n*4096) % 2^64)
    if p.kernelStackPagesPhys n ≠ 0 then s.free pid (p.kernelStackPagesPhys n) else s

def processFreeKernelStack (s : Kernel) (pid : ℕ) : Kernel :=
  let p := s.processes pid
  if p.kernelStackBase = 0 then s
  else
    (freeStack s pid p p.kernelStackPagesCount).modify pid fun p =>
      { p with
        kernelStackPagesPhys :=
          fun j => if j < p.kernelStackPagesCount then 0 else p.kernelStackPagesPhys j
        kernelStackBase := 0
        kernelStackTop := 0
        kernelStackPagesCount := 0 }

/-- `process_exit` up to its call of `schedule`. -/
def processExit (s : Kernel) : Kernel :=
  match s.current with
  | none => s
  | some pid =>
    let s := s.modify pid fun p => { p with handleCount := 0 }
    let s := processFreeKernelStack (processFreePages s pid) pid
    { s.modify pid (fun p => { p with state := .none }) with current := none }

/-- `schedule` with the process that `pick_next_process` chooses. -/
def schedule (s : Kernel) (next : ℕ) : Kernel :=
  let s : Kernel :=
    match s.current with
    | none => s
    | some prev =>
      s.modify prev fun p => if p.state = .running then { p with state := .ready } else p
  let s := s.modify next fun p =>
    { p with
      state := .running
      timeSlice := defaultTimeSlice
      cpu := 0
      firstRun := false }
  let s := { s with current := some next }
  if (s.processes next).pml4Phys ≠ 0 then s.switch (s.processes next).pml4Phys else s

/-- The table after `scheduler_init`, whatever it held before. -/
def schedulerInit (s : Kernel) : Kernel :=
  { s with
    processes := fun i =>
      { s.processes i with
        state := .none
        cpu := -1
        priority := 1
        timeSlice := defaultTimeSlice
        sleepUntil := 0
        nice := 0
        runtimeNs := 0
        fairKey := 0
        nextAllocVirt := 0
        pml4Phys := 0
        kernelStackTop := 0
        kernelStackBase := 0
        kernelStackPagesCount := 0
        kernelStackPagesPhys := fun j => if j < 4 then 0 else (s.processes i).kernelStackPagesPhys j
        handleCount := 0 }
    current := none }

end HarlinKernel.ProcessTable
