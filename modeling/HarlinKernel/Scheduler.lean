import HarlinKernel.ProcessTable
import HarlinKernel.TransitionSystem

/-! The scheduler of `proc/scheduler.c`: the states of the processes, the CPU each belongs to, its
saved registers, and the current process of each CPU. Address spaces, kernel stacks and handles
are left out; whether a creation finds its memory comes in with the call. -/
namespace HarlinKernel.Scheduler

open ProcessTable (ProcState maxProcesses defaultTimeSlice elfUserStackTop)
open TransitionSystem

def smpMaxCpus : ℕ := 8
def userCs : ℕ := 0x2B
def userSs : ℕ := 0x33

abbrev Pid : Type := Fin maxProcesses
abbrev Cpu : Type := Fin smpMaxCpus

instance : NeZero maxProcesses := ⟨by decide⟩
instance : NeZero smpMaxCpus := ⟨by decide⟩

inductive Reg
  | rax | rcx | rdx | rbx | rbp | rsi | rdi
  | r8 | r9 | r10 | r11 | r12 | r13 | r14 | r15
  deriving DecidableEq

/-- The registers of a CPU, or the fields of `struct process` that hold them. -/
structure Context where
  gpr : Reg → ℕ
  rip : ℕ
  rsp : ℕ
  rflags : ℕ
  fsBase : ℕ

def Context.zero : Context := ⟨fun _ => 0,0,0,0,0⟩

/-- In `cpu`, `none` is the value -1. -/
structure Process where
  context : Context
  state : ProcState
  firstRun : Bool
  cpu : Option Cpu
  timeSlice : ℕ
  sleepUntil : ℕ
  nice : ℤ
  runtimeNs : ℕ
  fairKey : ℕ

/-- `processes`, `current_process_percpu`, where `none` is -1, and `tick_count`. -/
structure Sched where
  processes : Pid → Process
  current : Cpu → Option Pid
  tickCount : ℕ

/-- The variables before `scheduler_init`. -/
def Sched.zero : Sched where
  processes _ := ⟨.zero,.none,false,some 0,0,0,0,0,0⟩
  current _ := none
  tickCount := 0

def Sched.modify (s : Sched) (p : Pid) (f : Process → Process) : Sched :=
  { s with processes := Function.update s.processes p (f (s.processes p)) }

def Sched.setState (s : Sched) (p : Pid) (st : ProcState) : Sched :=
  s.modify p fun q => { q with state := st }

def Sched.setCurrent (s : Sched) (c : Cpu) (p : Option Pid) : Sched :=
  { s with current := Function.update s.current c p }

/-- What `scheduler_init` stores, whatever the table held before. -/
def schedulerInit (s : Sched) : Sched :=
  { s with
    processes := fun p =>
      { s.processes p with
        state := .none
        cpu := none
        timeSlice := defaultTimeSlice
        sleepUntil := 0
        nice := 0
        runtimeNs := 0
        fairKey := 0 }
    current := fun _ => none }

/-- The test of `pick_next_process`. -/
def Eligible (s : Sched) (c : Cpu) (p : Pid) : Prop :=
  ((s.processes p).state = .ready ∨ (s.processes p).state = .running) ∧
    ((s.processes p).cpu = none ∨ (s.processes p).cpu = some c)

instance (s : Sched) (c : Cpu) (p : Pid) : Decidable (Eligible s c p) :=
  inferInstanceAs (Decidable (_ ∧ _))

def pickStep (s : Sched) (c : Cpu) (best : Option Pid) (p : Pid) : Option Pid :=
  if Eligible s c p then
    match best with
    | none => some p
    | some b => if (s.processes p).fairKey < (s.processes b).fairKey then some p else some b
  else best

def pickNextProcess (s : Sched) (c : Cpu) : Option Pid :=
  (List.finRange maxProcesses).foldl (pickStep s c) none

/-- `save_context`: all registers but the instruction pointer. -/
def saveContext (p : Process) (live : Context) : Process :=
  { p with
    context := { p.context with gpr := live.gpr,rsp := live.rsp,rflags := live.rflags } }

/-- The assignments by which a process becomes the current one of a CPU. -/
def giveCpu (s : Sched) (c : Cpu) (next : Pid) : Sched :=
  (s.setCurrent c (some next)).modify next fun p =>
    { p with
      state := .running
      timeSlice := defaultTimeSlice
      cpu := some c }

def clearFirstRun (s : Sched) (p : Pid) : Sched := s.modify p fun q => { q with firstRun := false }

/-- `jump_to_user`, with the general registers as they happen to be. -/
def jumpToUser (left : Reg → ℕ) (rip rsp rdi fsBase : ℕ) : Context where
  gpr := Function.update left .rdi rdi
  rip := rip
  rsp := rsp
  rflags := 0x202
  fsBase := fsBase

/-- `schedule` up to the choice of the next process. -/
def scheduleRelease (s : Sched) (c : Cpu) (live : Context) : Sched :=
  let s : Sched :=
    match s.current c with
    | none => s
    | some prev =>
      if (s.processes prev).state = .running then
        s.modify prev fun p =>
          let p := saveContext p live
          { p with context := { p.context with fsBase := live.fsBase },state := .ready }
      else s
  s.setCurrent c none

/-- `schedule`, with the registers at its call and the general registers left at its jump. With
nobody to pick the CPU waits without a current process; the end of the wait is this function
again. -/
def schedule (s : Sched) (c : Cpu) (live : Context) (left : Reg → ℕ) : Sched × Option Context :=
  let s := scheduleRelease s c live
  match pickNextProcess s c with
  | none => (s,none)
  | some next =>
    let s := clearFirstRun (giveCpu s c next) next
    let p := s.processes next
    (s,some (jumpToUser left p.context.rip p.context.rsp (p.context.gpr .rdi) p.context.fsBase))

def processExit (s : Sched) (c : Cpu) (live : Context) (left : Reg → ℕ) : Sched × Option Context :=
  let s : Sched :=
    match s.current c with
    | none => s
    | some cp => (s.setState cp .none).setCurrent c none
  schedule s c live left

def schedulerTick (s : Sched) : Sched :=
  let tick := (s.tickCount+1) % 2^32
  { s with
    tickCount := tick
    processes := fun p =>
      let q := s.processes p
      if q.state = .sleeping ∧ q.sleepUntil ≠ 0 ∧ q.sleepUntil ≤ tick then
        { q with state := .ready }
      else q }

def schedulerSleep (s : Sched) (c : Cpu) (ms : ℕ) (live : Context) (left : Reg → ℕ) :
    Sched × Option Context :=
  match s.current c with
  | none => (s,none)
  | some cp =>
    let s := s.modify cp fun p => saveContext p live
    let s := s.modify cp fun p => { p with sleepUntil := (s.tickCount+ms) % 2^32 }
    schedule (s.setState cp .sleeping) c live left

def processBlockCurrent (s : Sched) (c : Cpu) (live : Context) (left : Reg → ℕ) :
    Sched × Option Context :=
  match s.current c with
  | none => (s,none)
  | some cp =>
    let s := s.modify cp fun p => saveContext p live
    schedule (s.setState cp .blocked) c live left

/-- An `int` that indexes the table. -/
def pidOf (pid : ℤ) : Option Pid :=
  if h : 0 ≤ pid ∧ pid.toNat < maxProcesses then some ⟨pid.toNat,h.2⟩ else none

def processWake (s : Sched) (pid : ℤ) : Sched :=
  match pidOf pid with
  | none => s
  | some p => s.setState p (s.processes p).state.wake

/-- The frame that `irq_common` builds: the registers are pushed from `rax` to `r15`, so the last
one has the lowest index. -/
def irqFrame (r : Context) (irq cs ss : ℕ) : ℕ → ℕ
  | 0 => r.gpr .r15
  | 1 => r.gpr .r14
  | 2 => r.gpr .r13
  | 3 => r.gpr .r12
  | 4 => r.gpr .r11
  | 5 => r.gpr .r10
  | 6 => r.gpr .r9
  | 7 => r.gpr .r8
  | 8 => r.gpr .rdi
  | 9 => r.gpr .rsi
  | 10 => r.gpr .rbp
  | 11 => r.gpr .rbx
  | 12 => r.gpr .rdx
  | 13 => r.gpr .rcx
  | 14 => r.gpr .rax
  | 15 => irq
  | 16 => r.rip
  | 17 => cs
  | 18 => r.rflags
  | 19 => r.rsp
  | 20 => ss
  | _ => 0

/-- The registers after the pops of `irq_common` and `iretq`. -/
def irqReturn (frame : ℕ → ℕ) (fsBase : ℕ) : Context where
  gpr
    | .r15 => frame 0
    | .r14 => frame 1
    | .r13 => frame 2
    | .r12 => frame 3
    | .r11 => frame 4
    | .r10 => frame 5
    | .r9 => frame 6
    | .r8 => frame 7
    | .rdi => frame 8
    | .rsi => frame 9
    | .rbp => frame 10
    | .rbx => frame 11
    | .rdx => frame 12
    | .rcx => frame 13
    | .rax => frame 14
  rip := frame 16
  rsp := frame 19
  rflags := frame 18
  fsBase := fsBase

/-- The fields that `timer_handler` fills from the frame. -/
def frameContext (frame : ℕ → ℕ) (fsBase : ℕ) : Context where
  gpr
    | .rax => frame 0
    | .rcx => frame 1
    | .rdx => frame 2
    | .rbx => frame 3
    | .rbp => frame 4
    | .rsi => frame 5
    | .rdi => frame 6
    | .r8 => frame 7
    | .r9 => frame 8
    | .r10 => frame 9
    | .r11 => frame 10
    | .r12 => frame 11
    | .r13 => frame 12
    | .r14 => frame 13
    | .r15 => frame 14
  rip := frame 16
  rsp := frame 19
  rflags := frame 18
  fsBase := fsBase

/-- The assignments to `frame[0]` up to `frame[14]`. -/
def storeRegs (frame : ℕ → ℕ) (gpr : Reg → ℕ) : ℕ → ℕ
  | 0 => gpr .rax
  | 1 => gpr .rcx
  | 2 => gpr .rdx
  | 3 => gpr .rbx
  | 4 => gpr .rbp
  | 5 => gpr .rsi
  | 6 => gpr .rdi
  | 7 => gpr .r8
  | 8 => gpr .r9
  | 9 => gpr .r10
  | 10 => gpr .r11
  | 11 => gpr .r12
  | 12 => gpr .r13
  | 13 => gpr .r14
  | 14 => gpr .r15
  | i => frame i

/-- The assignments to `frame[16]` up to `frame[20]`. -/
def storeReturn (frame : ℕ → ℕ) (r : Context) : ℕ → ℕ
  | 16 => r.rip
  | 17 => userCs
  | 18 => r.rflags
  | 19 => r.rsp
  | 20 => userSs
  | i => frame i

/-- The `delta` of one tick at a nice value. -/
def fairDelta (nice : ℤ) : ℕ :=
  let n := if nice < -20 then -20 else nice
  let n := if 19 < n then 19 else n
  let weight := if n < 0 then 1024 <<< (-n).toNat else 1024 >>> n.toNat
  let weight := if weight = 0 then 1 else weight
  1000000/weight

def chargeTick (p : Process) : Process :=
  let runtime := (p.runtimeNs+fairDelta p.nice) % 2^64
  { p with
    timeSlice := if 0 < p.timeSlice then p.timeSlice-1 else p.timeSlice
    runtimeNs := runtime
    fairKey := runtime }

/-- Every `RUNNING` process becomes `READY`. -/
def requeueRunning (s : Sched) : Sched :=
  { s with
    processes := fun p =>
      if (s.processes p).state = .running then { s.processes p with state := .ready }
      else s.processes p }

/-- `timer_handler` on a CPU without a current process. -/
def timerIdle (s : Sched) (c : Cpu) (frame : ℕ → ℕ) (fsBase : ℕ) : Sched × (ℕ → ℕ) × ℕ :=
  match pickNextProcess s c with
  | none => (s,frame,fsBase)
  | some next =>
    let s := giveCpu (requeueRunning s) c next
    let p := s.processes next
    if p.firstRun then (clearFirstRun s next,frame,p.context.fsBase)
    else (s,storeReturn (storeRegs frame p.context.gpr) p.context,p.context.fsBase)

/-- `timer_handler` once the current process has been charged for the tick. -/
def timerSwitch (s : Sched) (c : Cpu) (cp : Pid) (frame : ℕ → ℕ) (fsBase : ℕ) :
    Sched × (ℕ → ℕ) × ℕ :=
  if 0 < (s.processes cp).timeSlice ∧ (s.processes cp).state = .running then (s,frame,fsBase)
  else
    let s := s.setState cp .ready
    let keep := s.modify cp fun p =>
      { p with
        state := .running
        timeSlice := defaultTimeSlice }
    match pickNextProcess s c with
    | none => (keep,frame,fsBase)
    | some next =>
      if next = cp then (keep,frame,fsBase)
      else
        let s := giveCpu s c next
        let p := s.processes next
        let frame := if p.firstRun then frame else storeRegs frame p.context.gpr
        (clearFirstRun s next,storeReturn frame p.context,p.context.fsBase)

def timerHandler (s : Sched) (c : Cpu) (frame : ℕ → ℕ) (fsBase : ℕ) : Sched × (ℕ → ℕ) × ℕ :=
  let s := schedulerTick s
  match s.current c with
  | none => timerIdle s c frame fsBase
  | some cp =>
    let s := s.modify cp fun p => chargeTick { p with context := frameContext frame fsBase }
    timerSwitch s c cp frame fsBase

def schedulerTryRunUser (s : Sched) (c : Cpu) : Sched :=
  match s.current c with
  | some _ => s
  | none =>
    match pickNextProcess s c with
    | none => s
    | some next => clearFirstRun (giveCpu s c next) next

/-- The first slot in state `NONE`. -/
def freeSlot (s : Sched) : Option Pid :=
  (List.finRange maxProcesses).find? fun p => (s.processes p).state = .none

/-- The fields that every creation of a process sets in the same way. -/
def newProcess (p : Process) (rip rsp : ℕ) (nice : ℤ) : Process :=
  { p with
    context := { p.context with rip := rip,rsp := rsp,rflags := 0x202 }
    state := .ready
    firstRun := true
    cpu := none
    timeSlice := defaultTimeSlice
    sleepUntil := 0
    nice := nice
    runtimeNs := 0
    fairKey := 0 }

/-- `process_create`; `ok` says that the kernel stack could be allocated and mapped. -/
def processCreate (s : Sched) (rip rsp : ℕ) (ok : Bool) : Sched :=
  match freeSlot s with
  | none => s
  | some i => if ok then s.modify i fun p => newProcess p rip rsp 0 else s

/-- `process_create_elf`; `ok` says that the image could be loaded. -/
def processCreateElf (s : Sched) (entry : ℕ) (ok : Bool) : Sched :=
  match freeSlot s with
  | none => s
  | some i =>
    let s := s.setState i .blocked
    if ok then
      s.modify i fun p =>
        let p := newProcess p entry elfUserStackTop 0
        { p with context := { p.context with gpr := Function.update p.context.gpr .rdi 0 } }
    else s.setState i .none

def harlinFork (s : Sched) (parentPid : ℤ) : Sched :=
  match pidOf parentPid with
  | none => s
  | some parent =>
    let q := s.processes parent
    if q.state = .none then s
    else
      match freeSlot s with
      | none => s
      | some child => s.modify child fun p => newProcess p q.context.rip q.context.rsp q.nice

/-- The calls, each with the CPU that makes it where the function asks for it, and with the
registers of that CPU where the function reads them. -/
inductive Call
  | schedule (c : Cpu) (live : Context) (left : Reg → ℕ)
  | timerHandler (c : Cpu) (frame : ℕ → ℕ) (fsBase : ℕ)
  | schedulerTryRunUser (c : Cpu)
  | processExit (c : Cpu) (live : Context) (left : Reg → ℕ)
  | processCreate (rip rsp : ℕ) (ok : Bool)
  | processCreateElf (entry : ℕ) (ok : Bool)
  | harlinFork (parent : ℤ)
  | processBlockCurrent (c : Cpu) (live : Context) (left : Reg → ℕ)
  | schedulerSleep (c : Cpu) (ms : ℕ) (live : Context) (left : Reg → ℕ)
  | processWake (pid : ℤ)

def act (s : Sched) : Call → Sched
  | .schedule c live left => (schedule s c live left).1
  | .timerHandler c frame fsBase => (timerHandler s c frame fsBase).1
  | .schedulerTryRunUser c => schedulerTryRunUser s c
  | .processExit c live left => (processExit s c live left).1
  | .processCreate rip rsp ok => processCreate s rip rsp ok
  | .processCreateElf entry ok => processCreateElf s entry ok
  | .harlinFork parent => harlinFork s parent
  | .processBlockCurrent c live left => (processBlockCurrent s c live left).1
  | .schedulerSleep c ms live left => (schedulerSleep s c ms live left).1
  | .processWake pid => processWake s pid

/-- All orders of calls of all CPUs from `scheduler_init`. -/
def schedulerRuns : System Sched Call :=
  actions (fun s => ∃ s₀, s = schedulerInit s₀) fun s a => some (act s a)

end HarlinKernel.Scheduler
