import HarlinKernel.MessageQueue
import HarlinKernel.WaitLists
import HarlinKernel.ProcessTable

/-! The queues and semaphores of `proc/ipc.c` together with the processes that call them. A call
that has to wait is split at `process_block_current`, which returns once the process has been woken;
all other code between those points is one step. A process that goes on after it was woken runs the
loop of its call again and does not look up the queue or the semaphore anew. -/
namespace HarlinKernel.Ipc

open TransitionSystem MessageQueue WaitLists
open ProcessTable (maxProcesses)
open Function (update update_eq_self)

def ipcMaxSems : ℕ := 16

/-- The waiter array with its count is a list, oldest waiter first. -/
structure IpcSemaphore where
  used : Bool
  count : ℤ
  blockedProcs : List ℕ

abbrev SemTable := ℕ → IpcSemaphore

/-- The part of `ipc_init` for the semaphores. -/
def initSems (t : SemTable) : SemTable := fun i => { t i with used := i ≥ ipcMaxSems && (t i).used }

def findFreeSem (t : SemTable) : Option ℕ := (List.range ipcMaxSems).find? fun i => !(t i).used

def harlinSemCreate (t : SemTable) (initial : ℤ) : Option ℕ × SemTable :=
  match findFreeSem t with
  | none => (none,t)
  | some sid => (some sid,update t sid ⟨true,if initial < 0 then 0 else initial,[]⟩)

/-- One turn of the loop of `Harlin_SemWait`. -/
def waitBody (s : IpcSemaphore) (pid : ℕ) : Outcome × IpcSemaphore :=
  if s.count ≤ 0 then
    if 16 ≤ s.blockedProcs.length then (.failed,s)
    else (.blocked,{ s with blockedProcs := s.blockedProcs ++ [pid] })
  else (.sent,{ s with count := s.count-1 })

def semValid (t : SemTable) (sid : ℤ) : Prop := ¬ (sid < 0 ∨ ipcMaxSems ≤ sid ∨ !(t sid.toNat).used)

instance (t : SemTable) (sid : ℤ) : Decidable (semValid t sid) :=
  inferInstanceAs (Decidable (¬ _))

def harlinSemWait (t : SemTable) (pid : ℕ) (sid : ℤ) : Outcome × SemTable :=
  if semValid t sid then
    let r := waitBody (t sid.toNat) pid
    (r.1,update t sid.toNat r.2)
  else (.failed,t)

/-- The 32-bit counter wraps. -/
def harlinSemPost (t : SemTable) (sid : ℤ) : Outcome × List ℕ × SemTable :=
  if semValid t sid then
    let s := t sid.toNat
    (.sent,s.blockedProcs.take 1,update t sid.toNat
      { s with
        count := Int.bmod (s.count+1) (2^32)
        blockedProcs := s.blockedProcs.tail })
  else (.failed,[],t)

def harlinSemDestroy (t : SemTable) (sid : ℤ) : Outcome × List ℕ × SemTable :=
  if semValid t sid then
    let s := t sid.toNat
    (.sent,s.blockedProcs,update t sid.toNat { s with used := false })
  else (.failed,[],t)

/-- What a process waits for, with the arguments its loop goes on with. -/
inductive Wait
  | send (qid type : ℕ) (data : List UInt8)
  | recv (qid len expected : ℕ)
  | sem (sid : ℕ)
  deriving DecidableEq

/-- A process is outside of these calls, or in `process_block_current` of one of them: not yet
woken, or woken and not yet running. -/
abbrev Proc := WaitLists.Proc Wait

structure State where
  queues : Table
  sems : SemTable
  procs : ℕ → Proc

/-- The processes after one of them has run up to its outcome, and has woken others. -/
def processesAfter (procs : ℕ → Proc) (pid : ℕ) (w : Wait) (o : Outcome) (woken : List ℕ) :
    ℕ → Proc :=
  let procs := woken.foldl wakeOne (update procs pid .free)
  if o = .blocked then update procs pid (.asleep w) else procs

inductive Call
  | msgCreate
  | msgSend (qid : ℤ) (type : ℕ) (data : List UInt8)
  | msgRecv (qid : ℤ) (present : Bool) (len expected : ℕ)
  | msgDestroy (qid : ℤ)
  | semCreate (initial : ℤ)
  | semWait (sid : ℤ)
  | semPost (sid : ℤ)
  | semDestroy (sid : ℤ)
  deriving DecidableEq

inductive Reply
  | created (id : Option ℕ)
  | outcome (o : Outcome)
  deriving DecidableEq

/-- A call, up to its return or up to `process_block_current`. -/
def enter (s : State) (pid : ℕ) : Call → Reply × State
  | .msgCreate =>
    let r := harlinMsgCreate s.queues
    (.created r.1,{ s with queues := r.2 })
  | .msgSend qid type data =>
    let r := harlinMsgSend s.queues pid qid type data
    (.outcome r.1,{ s with
      queues := r.2.2
      procs := processesAfter s.procs pid (.send qid.toNat type data) r.1 r.2.1 })
  | .msgRecv qid present len expected =>
    let r := harlinMsgRecv s.queues pid qid present len expected
    (.outcome r.1,{ s with
      queues := r.2.2
      procs := processesAfter s.procs pid (.recv qid.toNat len expected) r.1 r.2.1 })
  | .msgDestroy qid =>
    let r := harlinMsgDestroy s.queues qid
    (.outcome r.1,{ s with
      queues := r.2.2
      procs := r.2.1.foldl wakeOne s.procs })
  | .semCreate initial =>
    let r := harlinSemCreate s.sems initial
    (.created r.1,{ s with sems := r.2 })
  | .semWait sid =>
    let r := harlinSemWait s.sems pid sid
    (.outcome r.1,{ s with
      sems := r.2
      procs := processesAfter s.procs pid (.sem sid.toNat) r.1 [] })
  | .semPost sid =>
    let r := harlinSemPost s.sems sid
    (.outcome r.1,{ s with
      sems := r.2.2
      procs := r.2.1.foldl wakeOne s.procs })
  | .semDestroy sid =>
    let r := harlinSemDestroy s.sems sid
    (.outcome r.1,{ s with
      sems := r.2.2
      procs := r.2.1.foldl wakeOne s.procs })

/-- A woken process goes on in the loop of its call. -/
def goOn (s : State) (pid : ℕ) (w : Wait) : Outcome × State :=
  match w with
  | .send qid type data =>
    let r := sendBody (s.queues qid) pid type data
    (r.1,{ s with
      queues := update s.queues qid r.2.2
      procs := processesAfter s.procs pid w r.1 r.2.1 })
  | .recv qid len expected =>
    let r := recvBody (s.queues qid) pid len expected
    (r.1,{ s with
      queues := update s.queues qid r.2.2
      procs := processesAfter s.procs pid w r.1 r.2.1 })
  | .sem sid =>
    let r := waitBody (s.sems sid) pid
    (r.1,{ s with
      sems := update s.sems sid r.2
      procs := processesAfter s.procs pid w r.1 [] })

inductive Action
  | call (pid : ℕ) (c : Call)
  | resume (pid : ℕ)
  deriving DecidableEq

/-- One step, if the process can take it. -/
def act (s : State) : Action → Option (Reply × State)
  | .call pid c => if pid < maxProcesses ∧ s.procs pid = .free then some (enter s pid c) else none
  | .resume pid =>
    match s.procs pid with
    | .woken w => some (.outcome (goOn s pid w).1,(goOn s pid w).2)
    | _ => none

/-- After `ipc_init`, with no process in one of the calls. -/
def started (s : State) : Prop :=
  ∃ queues sems, s = ⟨ipcInit queues,initSems sems,fun _ => .free⟩

def ipcRuns : System State (Action × Reply) := replies started act

section Steps

/-- The queue can be used. -/
def queueValid (t : Table) (qid : ℤ) : Prop :=
  ¬ (qid < 0 ∨ ipcMaxQueues ≤ qid ∨ !(t qid.toNat).used)

instance (t : Table) (qid : ℤ) : Decidable (queueValid t qid) := inferInstanceAs (Decidable (¬ _))

/-- What a call that passes its checks goes on with. -/
def loopOf (s : State) : Call → Option Wait
  | .msgSend qid type data =>
    if queueValid s.queues qid ∧ data.length ≤ ipcMsgDataSize then some (.send qid.toNat type data)
    else none
  | .msgRecv qid present len expected =>
    if queueValid s.queues qid ∧ present = true then some (.recv qid.toNat len expected) else none
  | .semWait sid => if semValid s.sems sid then some (.sem sid.toNat) else none
  | _ => none

/-- The calls that pass their checks. -/
inductive Loops (s : State) : Call → Wait → Prop
  | send {qid type data} : queueValid s.queues qid → data.length ≤ ipcMsgDataSize →
    Loops s (.msgSend qid type data) (.send qid.toNat type data)
  | recv {qid len expected} : queueValid s.queues qid →
    Loops s (.msgRecv qid true len expected) (.recv qid.toNat len expected)
  | wait {sid} : semValid s.sems sid → Loops s (.semWait sid) (.sem sid.toNat)

lemma loopOf_loops {s : State} {c : Call} {w : Wait} (h : loopOf s c = some w) : Loops s c w := by
  cases c with
  | msgSend qid type data =>
    rw [loopOf] at h
    split_ifs at h with hvl
    cases h
    exact .send hvl.1 hvl.2
  | msgRecv qid present len expected =>
    rw [loopOf] at h
    split_ifs at h with hvl
    obtain ⟨hqu,rfl⟩ := hvl
    cases h
    exact .recv hqu
  | semWait sid =>
    rw [loopOf] at h
    split_ifs at h with hvl
    cases h
    exact .wait hvl
  | _ => cases h

/-- The loop that a step runs. -/
def Action.loop (s : State) : Action → Option Wait
  | .call _ c => loopOf s c
  | .resume pid =>
    match s.procs pid with
    | .woken w => some w
    | _ => none

/-- The process can run the loop of the call. -/
inductive Runs (s : State) : Action → ℕ → Wait → Prop
  | call {pid c w} : pid < maxProcesses → s.procs pid = .free → loopOf s c = some w →
    Runs s (.call pid c) pid w
  | resume {pid w} : s.procs pid = .woken w → Runs s (.resume pid) pid w

lemma Runs.loop {s : State} {a : Action} {pid : ℕ} {w : Wait} (h : Runs s a pid w) :
    a.loop s = some w := by
  cases h with
  | call hpid hfr hlp => exact hlp
  | resume hw => simp [Action.loop,hw]

/-- The state after `Harlin_SemPost`. -/
def posted (s : State) (sid : ℕ) : State :=
  { s with
    sems := update s.sems sid { s.sems sid with
      count := Int.bmod ((s.sems sid).count+1) (2^32)
      blockedProcs := (s.sems sid).blockedProcs.tail }
    procs := ((s.sems sid).blockedProcs.take 1).foldl wakeOne s.procs }

/-- The state after `Harlin_MsgDestroy`. -/
def withoutQueue (s : State) (qid : ℕ) : State :=
  { s with
    queues := update s.queues qid { s.queues qid with used := false }
    procs := ((s.queues qid).blockedSenders ++ (s.queues qid).blockedReceivers).foldl wakeOne
      s.procs }

/-- The state after `Harlin_SemDestroy`. -/
def withoutSem (s : State) (sid : ℕ) : State :=
  { s with
    sems := update s.sems sid { s.sems sid with used := false }
    procs := (s.sems sid).blockedProcs.foldl wakeOne s.procs }

/-- What a step can do. -/
inductive Effect (s : State) : Action → Reply → State → Prop
  | nothing {pid c r} : loopOf s c = none → r = .created none ∨ r = .outcome .failed →
    Effect s (.call pid c) r s
  | ran {a pid w} : Runs s a pid w → Effect s a (.outcome (goOn s pid w).1) (goOn s pid w).2
  | createdQueue {pid qid queues} : harlinMsgCreate s.queues = (some qid,queues) →
    Effect s (.call pid .msgCreate) (.created (some qid)) { s with queues := queues }
  | createdSem {pid initial sid sems} : harlinSemCreate s.sems initial = (some sid,sems) →
    Effect s (.call pid (.semCreate initial)) (.created (some sid)) { s with sems := sems }
  | destroyedQueue {pid qid} : queueValid s.queues qid →
    Effect s (.call pid (.msgDestroy qid)) (.outcome .sent) (withoutQueue s qid.toNat)
  | destroyedSem {pid sid} : semValid s.sems sid →
    Effect s (.call pid (.semDestroy sid)) (.outcome .sent) (withoutSem s sid.toNat)
  | posted {pid sid} : semValid s.sems sid →
    Effect s (.call pid (.semPost sid)) (.outcome .sent) (posted s sid.toNat)

variable {s s' : State} {pid : ℕ}

lemma harlinMsgSend_eq (t : Table) (pid : ℕ) (qid : ℤ) (type : ℕ) (data : List UInt8) :
    harlinMsgSend t pid qid type data =
      if queueValid t qid ∧ data.length ≤ ipcMsgDataSize then
        ((sendBody (t qid.toNat) pid type data).1,(sendBody (t qid.toNat) pid type data).2.1,
          update t qid.toNat (sendBody (t qid.toNat) pid type data).2.2)
      else (.failed,[],t) := by
  rw [harlinMsgSend]
  by_cases hvl : queueValid t qid
  · rw [if_neg hvl]
    by_cases hln : ipcMsgDataSize < data.length
    · rw [if_pos hln,if_neg fun h => absurd h.2 (Nat.not_le.mpr hln)]
    · rw [if_neg hln,if_pos ⟨hvl,Nat.not_lt.mp hln⟩]
  · rw [if_pos (not_not.mp hvl),if_neg fun h => hvl h.1]

lemma harlinMsgRecv_eq (t : Table) (pid : ℕ) (qid : ℤ) (present : Bool) (len expected : ℕ) :
    harlinMsgRecv t pid qid present len expected =
      if queueValid t qid ∧ present = true then
        ((recvBody (t qid.toNat) pid len expected).1,(recvBody (t qid.toNat) pid len expected).2.1,
          update t qid.toNat (recvBody (t qid.toNat) pid len expected).2.2)
      else (.failed,[],t) := by
  rw [harlinMsgRecv]
  by_cases hvl : queueValid t qid
  · rw [if_neg hvl]
    cases present with
    | false => simp
    | true => rw [if_neg (by decide),if_pos ⟨hvl,rfl⟩]
  · rw [if_pos (not_not.mp hvl),if_neg fun h => hvl h.1]

lemma processesAfter_failed {procs : ℕ → Proc} (hfr : procs pid = .free) (w : Wait) :
    processesAfter procs pid w .failed [] = procs := by
  simp only [processesAfter,List.foldl_nil]
  rw [if_neg (by decide),← hfr,update_eq_self]

lemma enter_loop {c : Call} {w : Wait} (h : loopOf s c = some w) :
    enter s pid c = (.outcome (goOn s pid w).1,(goOn s pid w).2) := by
  cases loopOf_loops h with
  | send hvl hlen =>
    rw [enter,harlinMsgSend_eq,if_pos ⟨hvl,hlen⟩]
    rfl
  | recv hvl =>
    rw [enter,harlinMsgRecv_eq,if_pos ⟨hvl,rfl⟩]
    rfl
  | wait hvl =>
    rw [enter,harlinSemWait,if_pos hvl]
    rfl

lemma enter_effect (c : Call) (hpid : pid < maxProcesses) (hfr : s.procs pid = .free) :
    Effect s (.call pid c) (enter s pid c).1 (enter s pid c).2 := by
  cases hlp : loopOf s c with
  | some w =>
    rw [enter_loop hlp]
    exact .ran (.call hpid hfr hlp)
  | none =>
    cases c with
    | msgCreate =>
      rw [enter]
      cases hcr : harlinMsgCreate s.queues with
      | mk id queues =>
        cases id with
        | some qid => exact .createdQueue hcr
        | none =>
          rw [harlinMsgCreate] at hcr
          split at hcr
          · cases hcr
            exact .nothing hlp (.inl rfl)
          · cases hcr
    | msgSend qid type data =>
      have hbad : ¬ (queueValid s.queues qid ∧ data.length ≤ ipcMsgDataSize) := by
        simpa [loopOf] using hlp
      rw [enter,harlinMsgSend_eq,if_neg hbad]
      simp only [processesAfter_failed hfr]
      exact .nothing hlp (.inr rfl)
    | msgRecv qid present len expected =>
      have hbad : ¬ (queueValid s.queues qid ∧ present = true) := by simpa [loopOf] using hlp
      rw [enter,harlinMsgRecv_eq,if_neg hbad]
      simp only [processesAfter_failed hfr]
      exact .nothing hlp (.inr rfl)
    | msgDestroy qid =>
      rw [enter,harlinMsgDestroy]
      by_cases hvl : queueValid s.queues qid
      · rw [if_neg hvl]
        exact .destroyedQueue hvl
      · rw [if_pos (not_not.mp hvl)]
        exact .nothing hlp (.inr rfl)
    | semCreate initial =>
      rw [enter]
      cases hcr : harlinSemCreate s.sems initial with
      | mk id sems =>
        cases id with
        | some sid => exact .createdSem hcr
        | none =>
          rw [harlinSemCreate] at hcr
          split at hcr
          · cases hcr
            exact .nothing hlp (.inl rfl)
          · cases hcr
    | semWait sid =>
      have hbad : ¬ semValid s.sems sid := by simpa [loopOf] using hlp
      rw [enter,harlinSemWait,if_neg hbad]
      simp only [processesAfter_failed hfr]
      exact .nothing hlp (.inr rfl)
    | semPost sid =>
      rw [enter,harlinSemPost]
      by_cases hvl : semValid s.sems sid
      · rw [if_pos hvl]
        exact .posted hvl
      · rw [if_neg hvl]
        exact .nothing hlp (.inr rfl)
    | semDestroy sid =>
      rw [enter,harlinSemDestroy]
      by_cases hvl : semValid s.sems sid
      · rw [if_pos hvl]
        exact .destroyedSem hvl
      · rw [if_neg hvl]
        exact .nothing hlp (.inr rfl)

lemma act_effect {a : Action} {r : Reply} (h : act s a = some (r,s')) : Effect s a r s' := by
  cases a with
  | call pid c =>
    rw [act] at h
    split_ifs at h with hpid
    have hef := enter_effect c hpid.1 hpid.2
    rw [Option.some.inj h] at hef
    exact hef
  | resume pid =>
    rw [act] at h
    split at h
    · rename_i w hw
      cases h
      exact .ran (.resume hw)
    · cases h

end Steps

end HarlinKernel.Ipc
