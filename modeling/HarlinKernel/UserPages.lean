import HarlinKernel.ProcessTable
import HarlinKernel.UserCopy

/-! The system calls of `syscall.c` that give pages to the calling process and take them back:
`sys_alloc`, `sys_free`, `sys_mmap` and `sys_munmap`. The pages of a process stand in a table of
64 entries, from which an entry is removed by moving the later ones down. -/
namespace HarlinKernel.UserPages

open PageAllocator PageTable ProcessTable UserCopy

/-- `process_current`, with its slot. -/
def currentPid (s : Kernel) : Option ℕ := s.current.filter (· < maxProcesses)

/-- The first entry of the table with an address. -/
def findPage (p : Process) (virt : ℕ) : Option ℕ :=
  (List.range p.pageCount).find? fun i => p.userVaddrs i = virt

/-- The entries behind `j` are moved down. -/
def shiftDown (a : ℕ → ℕ) (j count : ℕ) : ℕ → ℕ :=
  fun k => if j ≤ k ∧ k+1 < count then a (k+1) else a k

/-- The first entry with an address is removed. -/
def Process.forget (p : Process) (virt : ℕ) : Process :=
  match findPage p virt with
  | none => p
  | some j =>
    { p with
      userVaddrs := shiftDown p.userVaddrs j p.pageCount
      userPages := shiftDown p.userPages j p.pageCount
      pageCount := p.pageCount-1 }

def allocStart : ℕ := userAddrStart+0x100000

/-- What the search for a page without translation comes to. -/
inductive Search
  | found (virt : ℕ)
  | full
  | running
  deriving DecidableEq

def searchPage (s : Kernel) (start : ℕ) : ℕ → ℕ → Search
  | 0, _ => .running
  | fuel+1, virt =>
    if s.phys virt = 0 then .found virt
    else
      let virt := if userAddrEnd ≤ virt+4096 then allocStart else virt+4096
      if virt = start then .full else searchPage s start fuel virt

/-- The address at which the next search starts. -/
def wrapAlloc (virt : ℕ) : ℕ := if userAddrEnd ≤ virt then allocStart else virt

/-- A page for the process, without a look at what `vmm_map` returns. -/
def givePage (s : Kernel) (pid virt phys : ℕ) : Kernel :=
  (s.map virt phys (vmmPresent ||| vmmWritable ||| vmmUser)).2.modify pid fun p =>
    p.record virt phys

/-- There are 768 pages to search; a search that has not ended by then does not end. -/
def sysAlloc (s : Kernel) : Option (ℤ × Kernel) :=
  match currentPid s with
  | none => some (0,s)
  | some pid =>
    if 16 ≤ (s.processes pid).pageCount then some (0,s)
    else
      let next := (s.processes pid).nextAllocVirt
      let start := if next = 0 ∨ next < allocStart ∨ userAddrEnd ≤ next then allocStart else next
      let s := s.modify pid fun p => { p with nextAllocVirt := start }
      match searchPage s start 769 start with
      | .running => none
      | .full => some (0,s)
      | .found virt =>
        let s := s.modify pid fun p => { p with nextAllocVirt := wrapAlloc (virt+4096) }
        let r := s.alloc pid
        if r.1 = 0 then some (0,r.2) else some (virt,givePage r.2 pid virt r.1)

def sysFree (s : Kernel) (virt : ℕ) : ℤ × Kernel :=
  if virt % 4096 ≠ 0 then (-1,s)
  else if userPtrValid s.vmm virt 4096 = false then (-1,s)
  else
    let phys := s.phys virt
    if phys = 0 then (-1,s)
    else
      match currentPid s with
      | none => (-1,s)
      | some pid =>
        if (findPage (s.processes pid) virt).isNone then (-1,s)
        else (0,((s.unmap virt).free pid phys).modify pid fun p => Process.forget p virt)

/-- `vmm_unmap_and_free` for a slot. -/
def unmapAndFree (s : Kernel) (pid virt : ℕ) : Kernel :=
  let phys := s.phys virt
  if phys = 0 then s else (s.unmap virt).free pid phys

/-- The pages before `i` are given back, last page first. -/
def mmapUndo (s : Kernel) (pid virt : ℕ) : ℕ → Kernel
  | 0 => s
  | i+1 => mmapUndo (unmapAndFree s pid (virt+i*4096)) pid virt i

def mmapLoop (s : Kernel) (pid virt i : ℕ) : ℕ → ℤ × Kernel
  | 0 => (virt,s)
  | n+1 =>
    let r := s.alloc pid
    if r.1 = 0 then (-1,mmapUndo r.2 pid virt i)
    else mmapLoop (givePage r.2 pid (virt+i*4096) r.1) pid virt (i+1) n

/-- The number of pages as both calls compute it. -/
def pagesOf (size : ℕ) : ℕ := (size+4095) % 2^64 / 4096

def sysMmap (s : Kernel) (virt size : ℕ) : ℤ × Kernel :=
  if virt % 4096 ≠ 0 then (-1,s)
  else if virt < userAddrStart ∨ userAddrEnd < (virt+size) % 2^64 ∨ (virt+size) % 2^64 < virt then
    (-1,s)
  else if size = 0 then (-1,s)
  else
    match currentPid s with
    | none => (-1,s)
    | some pid =>
      if (List.range (pagesOf size)).any fun i => s.phys (virt+i*4096) ≠ 0 then (-1,s)
      else mmapLoop s pid virt 0 (pagesOf size)

/-- A page loses its entry in the table of the process, if there is one, and its frame. -/
def munmapPage (s : Kernel) (virt : ℕ) : Kernel :=
  match currentPid s with
  | none => unmapAndFree s maxProcesses virt
  | some pid => unmapAndFree (s.modify pid fun p => Process.forget p virt) pid virt

def munmapLoop (s : Kernel) (virt i : ℕ) : ℕ → Kernel
  | 0 => s
  | n+1 => munmapLoop (munmapPage s ((virt+i*4096) % 2^64)) virt (i+1) n

def sysMunmap (s : Kernel) (virt size : ℕ) : ℤ × Kernel :=
  if virt % 4096 ≠ 0 then (-1,s)
  else if virt < userAddrStart ∨ userAddrEnd < (virt+size) % 2^64 then (-1,s)
  else (0,munmapLoop s virt 0 (pagesOf size))

end HarlinKernel.UserPages
