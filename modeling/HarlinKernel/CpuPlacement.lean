import HarlinKernel.Scheduler

/-! Which process is on which CPU. The states, the CPU fields and the current processes form the
control part of the scheduler; the calls are described by what they do to it, and the runs by the
invariants of that description. -/
namespace HarlinKernel.Scheduler

open ProcessTable (ProcState maxProcesses)
open TransitionSystem
open Function (update update_self update_of_ne)

structure Control where
  state : Pid → ProcState
  cpu : Pid → Option Cpu
  current : Cpu → Option Pid

def Sched.control (s : Sched) : Control where
  state p := (s.processes p).state
  cpu p := (s.processes p).cpu
  current := s.current

namespace Control

def setState (k : Control) (p : Pid) (st : ProcState) : Control :=
  { k with state := update k.state p st }

def clear (k : Control) (c : Cpu) : Control :=
  { k with current := update k.current c none }

/-- A process becomes the current one of a CPU. -/
def give (k : Control) (c : Cpu) (p : Pid) : Control where
  state := update k.state p .running
  cpu := update k.cpu p (some c)
  current := update k.current c (some p)

/-- A process is created in a slot. -/
def create (k : Control) (p : Pid) : Control :=
  { k with
    state := update k.state p .ready
    cpu := update k.cpu p none }

def requeue (k : Control) : Control :=
  { k with state := fun p => if k.state p = .running then .ready else k.state p }

def Eligible (k : Control) (c : Cpu) (p : Pid) : Prop :=
  (k.state p = .ready ∨ k.state p = .running) ∧ (k.cpu p = none ∨ k.cpu p = some c)

/-- What `schedule` does before it picks. -/
def release (k : Control) (c : Cpu) : Control :=
  match k.current c with
  | none => k.clear c
  | some p => if k.state p = .running then (k.setState p .ready).clear c else k.clear c

/-- What `schedule` does. -/
inductive Scheduled (k : Control) (c : Cpu) : Control → Prop
  | wait : (∀ p, ¬ (k.release c).Eligible c p) → Scheduled k c (k.release c)
  | run {p} : (k.release c).Eligible c p → Scheduled k c ((k.release c).give c p)

/-- What `timer_handler` does after `scheduler_tick`. -/
inductive Interrupted (k : Control) (c : Cpu) : Control → Prop
  | idle : k.current c = none → Interrupted k c k
  | fill {p} : k.current c = none → k.Eligible c p → Interrupted k c (k.requeue.give c p)
  | keep {p} : k.current c = some p → k.state p = .running → Interrupted k c k
  | again {p} : k.current c = some p → Interrupted k c (k.setState p .running)
  | switch {p q} : k.current c = some p → q ≠ p → (k.setState p .ready).Eligible c q →
      Interrupted k c ((k.setState p .ready).give c q)

/-- What `scheduler_tick` does. -/
structure Ticked (k k' : Control) : Prop where
  cpu : k'.cpu = k.cpu
  current : k'.current = k.current
  state : ∀ p, k'.state p = k.state p ∨ (k.state p = .sleeping ∧ k'.state p = .ready)

end Control

section Effects

variable {s : Sched} {c : Cpu} {p : Pid}

lemma control_modify (f : Process → Process)
    (hst : (f (s.processes p)).state = (s.processes p).state)
    (hcpu : (f (s.processes p)).cpu = (s.processes p).cpu) :
    (s.modify p f).control = s.control := by
  have hpr (q : Pid) : ((s.modify p f).processes q).state = (s.processes q).state ∧
      ((s.modify p f).processes q).cpu = (s.processes q).cpu := by
    by_cases hq : q = p
    · subst hq
      simp [Sched.modify,hst,hcpu]
    · simp [Sched.modify,hq]
  simp only [Sched.control,hpr]
  rfl

lemma control_setState (st : ProcState) :
    (s.setState p st).control = s.control.setState p st := by
  simp only [Sched.control,Sched.setState,Sched.modify,Control.setState,Control.mk.injEq,and_true]
  constructor <;> funext q <;> by_cases hq : q = p <;> simp [hq]

lemma setState_self (p : Pid) : s.control.setState p (s.control.state p) = s.control :=
  congrArg (Control.mk · s.control.cpu s.control.current) (Function.update_eq_self p _)

lemma control_setCurrent : (s.setCurrent c none).control = s.control.clear c := rfl

lemma control_give : (giveCpu s c p).control = s.control.give c p := by
  simp only [Sched.control,giveCpu,Sched.setCurrent,Sched.modify,Control.give,Control.mk.injEq,
    and_true]
  constructor <;> funext q <;> by_cases hq : q = p <;> simp [hq]

lemma control_clearFirstRun : (clearFirstRun s p).control = s.control :=
  control_modify _ rfl rfl

lemma control_create {f : Process → Process} (hst : (f (s.processes p)).state = .ready)
    (hcpu : (f (s.processes p)).cpu = none) : (s.modify p f).control = s.control.create p := by
  simp only [Sched.control,Sched.modify,Control.create,Control.mk.injEq,and_true]
  constructor <;> funext q <;> by_cases hq : q = p <;> simp [hq,hst,hcpu]

lemma control_requeue : (requeueRunning s).control = s.control.requeue := by
  simp only [Sched.control,requeueRunning,Control.requeue,Control.mk.injEq,and_true]
  constructor <;> funext q <;> by_cases hq : (s.processes q).state = .running <;> simp [hq]

/-- What the loop of `pick_next_process` has found among the processes of a list. -/
def Best (s : Sched) (c : Cpu) (l : List Pid) : Option Pid → Prop
  | none => ∀ q ∈ l, ¬ Eligible s c q
  | some b => Eligible s c b ∧
      ∀ q ∈ l, Eligible s c q → (s.processes b).fairKey ≤ (s.processes q).fairKey

lemma best_foldl (l : List Pid) : Best s c l (l.foldl (pickStep s c) none) := by
  induction l using List.reverseRecOn with
  | nil => simp [Best]
  | append_singleton l q ih =>
    rw [List.foldl_append]
    cases hbs : l.foldl (pickStep s c) none <;> rw [hbs] at ih <;>
      by_cases hq : Eligible s c q <;>
        simp only [Best,pickStep,List.foldl_cons,List.foldl_nil] at ih ⊢ <;> grind

lemma pick_best (h : pickNextProcess s c = r) : Best s c (List.finRange maxProcesses) r :=
  h ▸ best_foldl _

lemma pick_some (h : pickNextProcess s c = some p) : s.control.Eligible c p := (pick_best h).1

lemma pick_none (h : pickNextProcess s c = none) (p : Pid) : ¬ s.control.Eligible c p :=
  pick_best h p (List.mem_finRange p)

lemma control_release (live : Context) :
    (scheduleRelease s c live).control = s.control.release c := by
  rw [scheduleRelease,control_setCurrent,Control.release]
  cases hcur : s.current c with
  | none => simp [Sched.control,hcur]
  | some p =>
    have hcur' : s.control.current c = some p := hcur
    rw [hcur']
    by_cases hrun : (s.processes p).state = .running
    · have hrun' : s.control.state p = .running := hrun
      simp only [hrun,hrun',if_true]
      rw [← control_setState]
      simp only [Sched.control,Control.clear,Sched.setState,Sched.modify,Control.mk.injEq,and_true]
      constructor <;> funext q <;> by_cases hq : q = p <;> simp [hq,saveContext]
    · have hrun' : s.control.state p ≠ .running := hrun
      simp [hrun,hrun']

lemma schedule_control (live : Context) (left : Reg → ℕ) :
    s.control.Scheduled c (schedule s c live left).1.control := by
  rw [schedule]
  cases hpc : pickNextProcess (scheduleRelease s c live) c with
  | none =>
    rw [control_release]
    exact .wait fun p hp => pick_none hpc p (by rwa [control_release])
  | some p =>
    rw [control_clearFirstRun,control_give,control_release]
    refine .run ?_
    rw [← control_release live]
    exact pick_some hpc

lemma tick_control (s : Sched) : s.control.Ticked (schedulerTick s).control := by
  refine ⟨?_,rfl,?_⟩
  · funext p
    simp only [Sched.control,schedulerTick]
    split_ifs <;> rfl
  · intro p
    simp only [Sched.control,schedulerTick]
    split_ifs with hdue
    · exact .inr ⟨hdue.1,rfl⟩
    · exact .inl rfl

lemma timerIdle_control (frame : ℕ → ℕ) (fsBase : ℕ) (hcur : s.current c = none) :
    s.control.Interrupted c (timerIdle s c frame fsBase).1.control := by
  rw [timerIdle]
  cases hpc : pickNextProcess s c with
  | none => exact .idle hcur
  | some p =>
    simp only
    have hgv : (giveCpu (requeueRunning s) c p).control = s.control.requeue.give c p := by
      rw [control_give,control_requeue]
    split_ifs
    · rw [control_clearFirstRun,hgv]
      exact .fill hcur (pick_some hpc)
    · rw [hgv]
      exact .fill hcur (pick_some hpc)

lemma timerSwitch_control (frame : ℕ → ℕ) (fsBase : ℕ) (hcur : s.current c = some p) :
    s.control.Interrupted c (timerSwitch s c p frame fsBase).1.control := by
  have hkp : ((s.setState p .ready).modify p fun q =>
      { q with
        state := .running
        timeSlice := ProcessTable.defaultTimeSlice }).control = s.control.setState p .running := by
    simp only [Sched.control,Sched.setState,Sched.modify,Control.setState,Control.mk.injEq,and_true]
    constructor <;> funext q <;> by_cases hq : q = p <;> simp [hq]
  rw [timerSwitch]
  split_ifs with hsl
  · exact .keep hcur hsl.2
  simp only
  split
  · simp only [hkp]
    exact .again hcur
  rename_i next hpc
  by_cases hnx : next = p
  · rw [if_pos hnx,hkp]
    exact .again hcur
  · rw [if_neg hnx]
    rw [control_clearFirstRun,control_give,control_setState]
    refine .switch hcur hnx ?_
    rw [← control_setState]
    exact pick_some hpc

lemma timer_control (frame : ℕ → ℕ) (fsBase : ℕ) :
    (schedulerTick s).control.Interrupted c (timerHandler s c frame fsBase).1.control := by
  rw [timerHandler]
  cases hcur : s.current c with
  | none =>
    have hcur' : (schedulerTick s).current c = none := hcur
    simp only [hcur']
    exact timerIdle_control frame fsBase hcur'
  | some p =>
    have hcur' : (schedulerTick s).current c = some p := hcur
    simp only [hcur']
    have hsm := control_modify (s := schedulerTick s) (p := p)
      (fun q => chargeTick { q with context := frameContext frame fsBase }) rfl rfl
    rw [← hsm]
    exact timerSwitch_control frame fsBase hcur'

end Effects

variable {k' : Control} {st : ProcState} {d : Cpu}

section Placement

variable {k : Control} {c : Cpu} {p : Pid}

/-- The current process of a CPU belongs to it and exists. -/
def Placed (k : Control) : Prop :=
  ∀ c p, k.current c = some p → k.cpu p = some c ∧ k.state p ≠ .none

lemma Placed.unique (h : Placed k) {c' : Cpu} (hp : k.current c = some p)
    (hp' : k.current c' = some p) : c = c' :=
  Option.some.inj ((h c p hp).1.symm.trans (h c' p hp').1)

lemma Placed.of_states (h : Placed k) (hcpu : k'.cpu = k.cpu) (hcur : k'.current = k.current)
    (hst : ∀ p, k'.state p = .none → k.state p = .none) : Placed k' := by
  intro c p hp
  rw [hcur] at hp
  rw [hcpu]
  exact ⟨(h c p hp).1,fun hno => (h c p hp).2 (hst p hno)⟩

lemma Placed.setState (h : Placed k) (hst : st ≠ .none) : Placed (k.setState p st) := by
  refine h.of_states rfl rfl fun q hq => ?_
  by_cases hqp : q = p
  · subst hqp
    exact absurd (by simpa [Control.setState] using hq) hst
  · simpa [Control.setState,hqp] using hq

lemma Placed.clear (h : Placed k) : Placed (k.clear c) := by
  intro d p hp
  by_cases hd : d = c
  · subst hd
    simp [Control.clear] at hp
  · exact h d p (by simpa [Control.clear,hd] using hp)

lemma Placed.drop (h : Placed k) (hp : k.current c = some p) (st : ProcState) :
    Placed ((k.setState p st).clear c) := by
  intro d q hq
  by_cases hd : d = c
  · subst hd
    simp [Control.clear] at hq
  · have hq' : k.current d = some q := by simpa [Control.clear,Control.setState,hd] using hq
    have hqp : q ≠ p := fun heq => hd (h.unique hq' (heq ▸ hp))
    simpa [Control.clear,Control.setState,hqp] using h d q hq'

lemma Placed.give (h : Placed k) (he : k.Eligible c p) : Placed (k.give c p) := by
  intro d q hq
  by_cases hd : d = c
  · subst hd
    obtain rfl : p = q := by simpa [Control.give] using hq
    simp [Control.give]
  have hq' : k.current d = some q := by simpa [Control.give,hd] using hq
  have hqp : q ≠ p := by
    rintro rfl
    -- the process would belong to another CPU
    have hcpu := (h d q hq').1
    rcases he.2 with hno | hsm
    · rw [hcpu] at hno
      cases hno
    · exact hd (Option.some.inj (hcpu.symm.trans hsm))
  simpa [Control.give,hqp] using h d q hq'

lemma Placed.create (h : Placed k) (hp : k.state p = .none) : Placed (k.create p) := by
  intro d q hq
  have hq' : k.current d = some q := hq
  have hqp : q ≠ p := fun heq => (h d q hq').2 (heq ▸ hp)
  simpa [Control.create,hqp] using h d q hq'

lemma Placed.release (h : Placed k) : Placed (k.release c) := by
  rw [Control.release]
  split
  · exact h.clear
  · split_ifs
    · exact h.drop ‹_› _
    · exact h.clear

lemma Placed.scheduled (h : Placed k) (hs : k.Scheduled c k') : Placed k' := by
  cases hs with
  | wait => exact h.release
  | run he => exact h.release.give he

lemma Placed.requeue (h : Placed k) : Placed k.requeue := by
  refine h.of_states rfl rfl fun p hp => ?_
  simp only [Control.requeue] at hp
  split_ifs at hp
  exact hp

lemma Placed.interrupted (h : Placed k) (hs : k.Interrupted c k') : Placed k' := by
  cases hs with
  | idle => exact h
  | fill _ he =>
    refine h.requeue.give ⟨.inl ?_,he.2⟩
    rcases he.1 with hrd | hrun
    · simp [Control.requeue,hrd]
    · simp [Control.requeue,hrun]
  | keep => exact h
  | again => exact h.setState (by decide)
  | switch _ _ he => exact (h.setState (by decide)).give he

lemma Placed.ticked (h : Placed k) (ht : k.Ticked k') : Placed k' := by
  refine h.of_states ht.cpu ht.current fun p hp => ?_
  rcases ht.state p with heq | ⟨_,hrd⟩
  · rwa [← heq]
  · rw [hp] at hrd
    cases hrd

end Placement

section Calls

variable {s : Sched}

lemma freeSlot_state {p : Pid} (h : freeSlot s = some p) : s.control.state p = .none := by
  have hp := List.find?_some h
  exact of_decide_eq_true hp

/-- The CPU that a function asks for. -/
def Call.cpu : Call → Option Cpu
  | .schedule c _ _ => some c
  | .timerHandler c _ _ => some c
  | .schedulerTryRunUser c => some c
  | .processExit c _ _ => some c
  | .processBlockCurrent c _ _ => some c
  | .schedulerSleep c _ _ _ => some c
  | _ => none

/-- The calls that run `schedule` in any case. -/
def Call.jumps : Call → Bool
  | .schedule _ _ _ => true
  | .processExit _ _ _ => true
  | _ => false

/-- What the calls do. -/
inductive Called (s : Sched) : Call → Control → Prop
  | same {a} : a.jumps = false → Called s a s.control
  | schedule {c live left k} : s.control.Scheduled c k → Called s (.schedule c live left) k
  | timer {c frame fsBase k} : (schedulerTick s).control.Interrupted c k →
      Called s (.timerHandler c frame fsBase) k
  | tryRun {c p} : s.current c = none → s.control.Eligible c p →
      Called s (.schedulerTryRunUser c) (s.control.give c p)
  | exit {c live left p k} : s.current c = some p →
      ((s.control.setState p .none).clear c).Scheduled c k → Called s (.processExit c live left) k
  | exitIdle {c live left k} : s.control.Scheduled c k → Called s (.processExit c live left) k
  | create {a p} : a.cpu = none → s.control.state p = .none → Called s a (s.control.create p)
  | block {c live left p k} : s.current c = some p →
      (s.control.setState p .blocked).Scheduled c k →
      Called s (.processBlockCurrent c live left) k
  | sleep {c ms live left p k} : s.current c = some p →
      (s.control.setState p .sleeping).Scheduled c k →
      Called s (.schedulerSleep c ms live left) k
  | wake {pid p} : pidOf pid = some p → s.control.state p = .blocked →
      Called s (.processWake pid) (s.control.setState p .ready)

lemma called_exit (c : Cpu) (live : Context) (left : Reg → ℕ) :
    Called s (.processExit c live left) (processExit s c live left).1.control := by
  rw [processExit]
  cases hcur : s.current c with
  | none => exact .exitIdle (schedule_control live left)
  | some p =>
    refine .exit hcur ?_
    rw [← control_setState,← control_setCurrent]
    exact schedule_control live left

lemma called_block (c : Cpu) (live : Context) (left : Reg → ℕ) :
    Called s (.processBlockCurrent c live left) (processBlockCurrent s c live left).1.control := by
  rw [processBlockCurrent]
  cases hcur : s.current c with
  | none => exact .same rfl
  | some p =>
    refine .block hcur ?_
    rw [← control_modify (fun q => saveContext q live) rfl rfl,← control_setState]
    exact schedule_control live left

lemma called_sleep (c : Cpu) (ms : ℕ) (live : Context) (left : Reg → ℕ) :
    Called s (.schedulerSleep c ms live left) (schedulerSleep s c ms live left).1.control := by
  rw [schedulerSleep]
  cases hcur : s.current c with
  | none => exact .same rfl
  | some p =>
    refine .sleep hcur ?_
    rw [← control_modify (fun q => saveContext q live) rfl rfl,
      ← control_modify (s := s.modify p fun q => saveContext q live)
        (fun q => { q with sleepUntil := (s.tickCount+ms) % 2^32 }) rfl rfl,← control_setState]
    exact schedule_control live left

lemma called_create (rip rsp : ℕ) (ok : Bool) :
    Called s (.processCreate rip rsp ok) (processCreate s rip rsp ok).control := by
  rw [processCreate]
  split
  · exact .same rfl
  · split_ifs
    · rw [control_create rfl rfl]
      exact .create rfl (freeSlot_state ‹_›)
    · exact .same rfl

lemma called_createElf (entry : ℕ) (ok : Bool) :
    Called s (.processCreateElf entry ok) (processCreateElf s entry ok).control := by
  rw [processCreateElf]
  split
  · exact .same rfl
  rename_i i hfr
  have hno := freeSlot_state hfr
  split_ifs
  · have htw : ((s.setState i .blocked).control.create i) = s.control.create i := by
      simp [control_setState,Control.setState,Control.create]
    rw [control_create rfl rfl,htw]
    exact .create rfl hno
  · have hbc : ((s.setState i .blocked).setState i .none).control = s.control := by
      rw [control_setState,control_setState]
      simp [Control.setState,← hno]
    rw [hbc]
    exact .same rfl

lemma called_fork (parent : ℤ) : Called s (.harlinFork parent) (harlinFork s parent).control := by
  rw [harlinFork]
  split
  · exact .same rfl
  · simp only
    split_ifs
    · exact .same rfl
    · split
      · exact .same rfl
      · rw [control_create rfl rfl]
        exact .create rfl (freeSlot_state ‹_›)

lemma called_wake (pid : ℤ) : Called s (.processWake pid) (processWake s pid).control := by
  rw [processWake]
  split
  · exact .same rfl
  · rename_i p hp
    rw [control_setState]
    by_cases hst : (s.processes p).state = .blocked
    · rw [hst]
      exact .wake hp hst
    · have hsm : s.control.setState p (s.processes p).state = s.control := setState_self p
      rw [ProcState.wake_of_ne hst,hsm]
      exact .same rfl

lemma called_tryRun (c : Cpu) :
    Called s (.schedulerTryRunUser c) (schedulerTryRunUser s c).control := by
  rw [schedulerTryRunUser]
  split
  · exact .same rfl
  · split
    · exact .same rfl
    · rw [control_clearFirstRun,control_give]
      exact .tryRun ‹_› (pick_some ‹_›)

lemma called (s : Sched) (a : Call) : Called s a (act s a).control := by
  cases a with
  | schedule c live left => exact .schedule (schedule_control live left)
  | timerHandler c frame fsBase => exact .timer (timer_control frame fsBase)
  | schedulerTryRunUser c => exact called_tryRun c
  | processExit c live left => exact called_exit c live left
  | processCreate rip rsp ok => exact called_create rip rsp ok
  | processCreateElf entry ok => exact called_createElf entry ok
  | harlinFork parent => exact called_fork parent
  | processBlockCurrent c live left => exact called_block c live left
  | schedulerSleep c ms live left => exact called_sleep c ms live left
  | processWake pid => exact called_wake pid

lemma Placed.called {a : Call} {k : Control} (h : Placed s.control) (hc : Called s a k) :
    Placed k := by
  cases hc with
  | same => exact h
  | schedule hs => exact h.scheduled hs
  | timer hi => exact (h.ticked (tick_control s)).interrupted hi
  | tryRun _ he => exact h.give he
  | exit hp hs => exact (h.drop hp _).scheduled hs
  | exitIdle hs => exact h.scheduled hs
  | create _ hp => exact h.create hp
  | block _ hs => exact (h.setState (by decide)).scheduled hs
  | sleep _ hs => exact (h.setState (by decide)).scheduled hs
  | wake => exact h.setState (by decide)

lemma placed_of_reach (h : Reach schedulerRuns s) : Placed s.control := by
  refine h.invariant (fun s => Placed s.control) ?_ ?_
  · rintro _ ⟨s₀,rfl⟩ c p hp
    cases hp
  · intro s a t hs hst
    obtain rfl : act s a = t := Option.some.inj hst
    exact hs.called (called s a)

/-- In every run the current process of a CPU belongs to that CPU and exists, so that it is the
current process of no other CPU. -/
theorem current_placed {l : List Call} (h : Trace schedulerRuns l s) (c : Cpu) (p : Pid)
    (hp : s.current c = some p) :
    (s.processes p).cpu = some c ∧ (s.processes p).state ≠ .none ∧
      ∀ c', s.current c' = some p → c' = c := by
  have hpl := placed_of_reach h.reach
  exact ⟨(hpl c p hp).1,(hpl c p hp).2,fun c' hp' => hpl.unique hp' hp⟩

/-- Two processes are created and the first one is started on CPU 0. -/
def startFirst (more : List Call) : List Call :=
  [.processCreate 0x1000 0x2000 true,.processCreate 0x3000 0x4000 true,
    .schedule 0 .zero fun _ => 0] ++ more

theorem current_placed_first : ∃ l s, Trace schedulerRuns l s ∧ s.current 0 = some 0 ∧
    (s.processes 0).cpu = some 0 ∧ (s.processes 0).state ≠ .none ∧
      ∀ c', s.current c' = some 0 → c' = 0 := by
  let s := (startFirst []).foldl act (schedulerInit .zero)
  have hrun : Trace schedulerRuns (startFirst []) s := by
    rw [← System.guarded_true schedulerRuns]
    exact trace_of_actions ⟨_,rfl⟩ ⟨trivial,trivial,trivial,rfl⟩
  have hcur : s.current 0 = some 0 := by decide
  exact ⟨_,s,hrun,hcur,current_placed hrun 0 0 hcur⟩

section Running

variable {k k' : Control} {c : Cpu} {p : Pid}

/-- The `RUNNING` processes are the current ones. -/
def RunningCurrent (k : Control) : Prop := ∀ p, k.state p = .running ↔ ∃ c, k.current c = some p

lemma RunningCurrent.drop (h : RunningCurrent k) (hk : Placed k) (hp : k.current c = some p)
    (hst : st ≠ .running) : RunningCurrent ((k.setState p st).clear c) := by
  intro q
  by_cases hq : q = p
  · subst hq
    simp only [Control.clear,Control.setState,update_self,hst,false_iff]
    rintro ⟨d,hd⟩
    by_cases hdc : d = c
    · simp [hdc] at hd
    · rw [update_of_ne hdc] at hd
      exact hdc (hk.unique hd hp)
  · simp only [Control.clear,Control.setState,update_of_ne hq]
    rw [h q]
    refine exists_congr fun d => ?_
    by_cases hdc : d = c
    · subst hdc
      simp [hp,Ne.symm hq]
    · rw [update_of_ne hdc]

lemma RunningCurrent.give (h : RunningCurrent k) (hno : k.current c = none) :
    RunningCurrent (k.give c p) := by
  intro q
  by_cases hq : q = p
  · subst hq
    simp only [Control.give,update_self,true_iff]
    exact ⟨c,update_self ..⟩
  · simp only [Control.give,update_of_ne hq]
    rw [h q]
    refine exists_congr fun d => ?_
    by_cases hdc : d = c
    · subst hdc
      simp [hno,Ne.symm hq]
    · rw [update_of_ne hdc]

lemma RunningCurrent.create (h : RunningCurrent k) (hp : k.state p = .none) :
    RunningCurrent (k.create p) := by
  intro q
  by_cases hq : q = p
  · subst hq
    have hnot : ¬ ∃ d, k.current d = some q := fun hcur => by
      have hrun := (h q).2 hcur
      rw [hp] at hrun
      cases hrun
    simpa [Control.create] using hnot
  · simpa [Control.create,hq] using h q

lemma RunningCurrent.setState (h : RunningCurrent k)
    (hp : k.state p ≠ .running) (hst : st ≠ .running) : RunningCurrent (k.setState p st) := by
  intro q
  by_cases hq : q = p
  · subst hq
    have hnot : ¬ ∃ d, k.current d = some q := fun hcur => hp ((h q).2 hcur)
    simpa [Control.setState,hst] using hnot
  · simpa [Control.setState,hq] using h q

lemma RunningCurrent.release (h : RunningCurrent k) (hk : Placed k) :
    RunningCurrent (k.release c) := by
  rw [Control.release]
  split
  · rename_i hcur
    have hsm : k.clear c = k := by simp [Control.clear,← hcur]
    rwa [hsm]
  · rename_i p hcur
    rw [if_pos ((h p).2 ⟨c,hcur⟩)]
    exact h.drop hk hcur (by decide)

lemma release_current : (k.release c).current c = none := by
  rw [Control.release]
  split
  · simp [Control.clear]
  · split_ifs <;> simp [Control.clear]

lemma release_setState (hp : k.current c = some p) (hst : st ≠ .running) :
    (k.setState p st).release c = (k.setState p st).clear c := by
  have hp' : (k.setState p st).current c = some p := hp
  rw [Control.release,hp']
  simp [Control.setState,hst]

lemma release_clear : (k.clear c).release c = k.clear c := by
  have hno : (k.clear c).current c = none := by simp [Control.clear]
  rw [Control.release,hno]
  simp [Control.clear]

lemma RunningCurrent.scheduled (hs : k.Scheduled c k') (h : RunningCurrent (k.release c)) :
    RunningCurrent k' := by
  cases hs with
  | wait => exact h
  | run _ => exact h.give release_current

lemma RunningCurrent.ticked (h : RunningCurrent k) (ht : k.Ticked k') : RunningCurrent k' := by
  intro p
  rw [ht.current,← h p]
  rcases ht.state p with heq | ⟨hsl,hrd⟩
  · rw [heq]
  · simp [hsl,hrd]

lemma RunningCurrent.interrupted (h : RunningCurrent k) (hk : Placed k) (hs : k.Interrupted c k')
    (hfl : k.current c = none → (∃ p, k.Eligible c p) → ∀ p, k.state p ≠ .running) :
    RunningCurrent k' := by
  cases hs with
  | idle => exact h
  | fill hnn he =>
    have hsm : k.requeue = k := by
      have hno := hfl hnn ⟨_,he⟩
      simp [Control.requeue,hno]
    rw [hsm]
    exact h.give hnn
  | keep => exact h
  | @again p hcur =>
    have hsm : k.setState p .running = k := by
      simp [Control.setState,← (h p).2 ⟨c,hcur⟩]
    rwa [hsm]
  | @switch p q hcur hne he =>
    have hgv : (k.setState p .ready).give c q = ((k.setState p .ready).clear c).give c q := by
      simp [Control.give,Control.clear]
    rw [hgv]
    exact (h.drop hk hcur (by decide)).give (by simp [Control.clear])

end Running

/-- A timer interrupt on a CPU without a current process finds no process to run, or no process
is `RUNNING`. -/
def Undisturbed (s : Sched) (a : Call) : Prop :=
  match a with
  | .timerHandler c _ _ =>
    s.current c = none → (∃ p, Eligible (schedulerTick s) c p) →
      ∀ p, (s.processes p).state ≠ .running
  | _ => True

lemma RunningCurrent.called {a : Call} {k : Control} (h : RunningCurrent s.control)
    (hk : Placed s.control) (hc : Called s a k) (hok : Undisturbed s a) : RunningCurrent k := by
  cases hc with
  | same => exact h
  | schedule hs => exact .scheduled hs (h.release hk)
  | timer hi =>
    have ht := tick_control s
    refine (h.ticked ht).interrupted (hk.ticked ht) hi fun hno he p hrun => ?_
    refine hok hno he p ?_
    rcases ht.state p with heq | ⟨_,hrd⟩
    · exact heq.symm.trans hrun
    · rw [hrun] at hrd
      cases hrd
  | tryRun hno _ => exact h.give hno
  | exit hp hs =>
    refine .scheduled hs ?_
    rw [release_clear]
    exact h.drop hk hp (by decide)
  | exitIdle hs => exact .scheduled hs (h.release hk)
  | create _ hp => exact h.create hp
  | block hp hs =>
    refine .scheduled hs ?_
    rw [release_setState hp (by decide)]
    exact h.drop hk hp (by decide)
  | sleep hp hs =>
    refine .scheduled hs ?_
    rw [release_setState hp (by decide)]
    exact h.drop hk hp (by decide)
  | wake _ hp => exact h.setState (by rw [hp]; decide) (by decide)

lemma release_other {k : Control} {c : Cpu} (hd : d ≠ c) :
    (k.release c).current d = k.current d := by
  rw [Control.release]
  split
  · simp [Control.clear,hd]
  · split_ifs <;> simp [Control.clear,Control.setState,hd]

lemma scheduled_other {k : Control} {c : Cpu} (hs : k.Scheduled c k') (hd : d ≠ c) :
    k'.current d = k.current d := by
  cases hs with
  | wait => exact release_other hd
  | run => simpa [Control.give,hd] using release_other hd

lemma interrupted_other {k : Control} {c : Cpu} (hs : k.Interrupted c k') (hd : d ≠ c) :
    k'.current d = k.current d := by
  cases hs with
  | idle => rfl
  | fill => simp [Control.give,Control.requeue,hd]
  | keep => rfl
  | again => rfl
  | switch => simp [Control.give,Control.setState,hd]

lemma called_other {a : Call} {k : Control} (hc : Called s a k)
    (hd : a.cpu ≠ some d) : k.current d = s.current d := by
  cases hc with
  | same => rfl
  | schedule hs => exact scheduled_other hs fun heq => hd (by rw [heq]; rfl)
  | timer hi => exact interrupted_other hi fun heq => hd (by rw [heq]; rfl)
  | tryRun =>
    have hne : d ≠ _ := fun heq => hd (by rw [heq]; rfl)
    simp [Control.give,Sched.control,hne]
  | exit hp hs =>
    have hne : d ≠ _ := fun heq => hd (by rw [heq]; rfl)
    rw [scheduled_other hs hne]
    simp [Control.clear,Control.setState,Sched.control,hne]
  | exitIdle hs => exact scheduled_other hs fun heq => hd (by rw [heq]; rfl)
  | create => rfl
  | block _ hs => exact scheduled_other hs fun heq => hd (by rw [heq]; rfl)
  | sleep _ hs => exact scheduled_other hs fun heq => hd (by rw [heq]; rfl)
  | wake => rfl

lemma running_of_reach (h : Reach (schedulerRuns.guarded Undisturbed) s) :
    Placed s.control ∧ RunningCurrent s.control := by
  refine h.invariant (fun s => Placed s.control ∧ RunningCurrent s.control) ?_ ?_
  · rintro _ ⟨s₀,rfl⟩
    refine ⟨fun c p hp => (nomatch hp),fun p => ?_⟩
    simp [Sched.control,schedulerInit]
  · intro s a t hs hst
    obtain rfl : act s a = t := Option.some.inj hst.1
    have hc := called s a
    exact ⟨hs.1.called hc,hs.2.called hs.1 hc hst.2⟩

end Calls

end HarlinKernel.Scheduler
