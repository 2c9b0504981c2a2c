import HarlinKernel.CpuPlacement

/-! `process_block_current` and `scheduler_sleep` statement by statement, with interrupts between
the statements. The functions of the scheduler that run with interrupts off are single steps. -/
namespace HarlinKernel.Scheduler

open ProcessTable (ProcState)
open TransitionSystem
open Function (update update_self update_of_ne)

/-- The statement of the two functions that a process is about to execute. -/
inductive Pc
  | away
  | blockSave
  | blockState
  | sleepSave (ms : ℕ)
  | sleepUntil (ms : ℕ)
  | sleepState
  | calling
  deriving DecidableEq

structure Window where
  sched : Sched
  pc : Pid → Pc

/-- A call of the scheduler, with the place at which the process that it starts goes on; the
beginning of one of the two functions; the next statement of one of them. -/
inductive Action
  | call (a : Call) (resume : Pc)
  | enterBlock (c : Cpu)
  | enterSleep (c : Cpu) (ms : ℕ)
  | statement (c : Cpu) (live : Context)

/-- Where the current process of the CPU has to be for a call. The two functions that are taken
apart are no calls. -/
def Call.Enabled (w : Window) : Call → Prop
  | .schedule c _ _ =>
    ∀ p, w.sched.current c = some p → w.pc p = .away ∨ w.pc p = .calling
  | .processExit c _ _ => ∀ p, w.sched.current c = some p → w.pc p = .away
  | .processBlockCurrent _ _ _ => False
  | .schedulerSleep _ _ _ _ => False
  | _ => True

instance (w : Window) (a : Call) : Decidable (a.Enabled w) :=
  match a with
  | .schedule _ _ _ => inferInstanceAs (Decidable (∀ _, _))
  | .processExit _ _ _ => inferInstanceAs (Decidable (∀ _, _))
  | .processBlockCurrent _ _ _ => inferInstanceAs (Decidable False)
  | .schedulerSleep _ _ _ _ => inferInstanceAs (Decidable False)
  | .timerHandler _ _ _ => inferInstanceAs (Decidable True)
  | .schedulerTryRunUser _ => inferInstanceAs (Decidable True)
  | .processCreate _ _ _ => inferInstanceAs (Decidable True)
  | .processCreateElf _ _ => inferInstanceAs (Decidable True)
  | .harlinFork _ => inferInstanceAs (Decidable True)
  | .processWake _ => inferInstanceAs (Decidable True)

/-- The process that a call starts or resumes. -/
def Call.started (a : Call) (s : Sched) : Option Pid :=
  match a.cpu with
  | none => none
  | some c => if a.jumps ∨ (act s a).current c ≠ s.current c then (act s a).current c else none

def Window.move (w : Window) (p : Pid) (pc : Pc) : Window :=
  { w with pc := update w.pc p pc }

def Window.call (w : Window) (a : Call) (resume : Pc) : Window :=
  let t : Window := { w with sched := act w.sched a }
  match a.started w.sched with
  | none => t
  | some p => t.move p resume

def statement (w : Window) (p : Pid) (live : Context) : Option Window :=
  match w.pc p with
  | .blockSave =>
    some ({ w with sched := w.sched.modify p fun q => saveContext q live }.move p .blockState)
  | .blockState => some ({ w with sched := w.sched.setState p .blocked }.move p .calling)
  | .sleepSave ms =>
    some ({ w with sched := w.sched.modify p fun q => saveContext q live }.move p (.sleepUntil ms))
  | .sleepUntil ms =>
    let deadline := (w.sched.tickCount+ms) % 2^32
    some ({ w with sched := w.sched.modify p fun q => { q with sleepUntil := deadline } }.move p
      .sleepState)
  | .sleepState => some ({ w with sched := w.sched.setState p .sleeping }.move p .calling)
  | _ => none

def Window.act (w : Window) : Action → Option Window
  | .call a resume => if a.Enabled w then some (w.call a resume) else none
  | .enterBlock c =>
    match w.sched.current c with
    | none => none
    | some p => if w.pc p = .away then some (w.move p .blockSave) else none
  | .enterSleep c ms =>
    match w.sched.current c with
    | none => none
    | some p => if w.pc p = .away then some (w.move p (.sleepSave ms)) else none
  | .statement c live =>
    match w.sched.current c with
    | none => none
    | some p => statement w p live

/-- All runs from `scheduler_init`. -/
def windowRuns : System Window Action :=
  actions (fun w => ∃ s₀, w = ⟨schedulerInit s₀,fun _ => .away⟩) Window.act

/-- A step takes a process out of `BLOCKED` only by waking it, and out of `SLEEPING` only in a
tick that reaches its deadline, which a deadline of 0 never is. -/
structure Released (s : Sched) (a : Action) (t : Sched) : Prop where
  blocked : ∀ p, (s.processes p).state = .blocked → (t.processes p).state ≠ .blocked →
    ∃ pid resume, a = .call (.processWake pid) resume ∧ pidOf pid = some p
  sleeping : ∀ p, (s.processes p).state = .sleeping → (t.processes p).state ≠ .sleeping →
    ∃ c frame fsBase resume, a = .call (.timerHandler c frame fsBase) resume ∧
      (s.processes p).sleepUntil ≠ 0 ∧ (s.processes p).sleepUntil ≤ t.tickCount

/-- A timer interrupt finds the current process of its CPU neither `BLOCKED` nor `SLEEPING` with
a deadline that is 0 or after the tick. -/
def OutsideWindow (w : Window) : Action → Prop
  | .call (.timerHandler c _ _) _ =>
    ∀ p, w.sched.current c = some p →
      (w.sched.processes p).state ≠ .blocked ∧
      ((w.sched.processes p).state = .sleeping →
        (w.sched.processes p).sleepUntil ≠ 0 ∧
          (w.sched.processes p).sleepUntil ≤ (w.sched.tickCount+1) % 2^32)
  | _ => True

/-- The two states that a process gives itself. -/
def Parked (st : ProcState) : Prop := st = .blocked ∨ st = .sleeping

variable {st : ProcState} {k' : Control} {c : Cpu} {pc : Pc} {w' : Window} {b : Action}

section Parked

variable {k k' : Control} {c : Cpu} {p q : Pid}

lemma Control.Eligible.not_parked (h : k.Eligible c p) : ¬ Parked (k.state p) := by
  rintro (hp | hp) <;> rcases h.1 with hrd | hrun <;> simp_all

/-- A store of another state takes a process out of a parked state and puts none into it. -/
lemma update_parked {f : Pid → ProcState} {x : ProcState} {q : Pid} (hx : ¬ Parked x)
    (hst : Parked st) : update f q x p = st ↔ f p = st ∧ p ≠ q := by
  by_cases hpq : p = q
  · subst hpq
    have hne : x ≠ st := fun heq => hx (heq ▸ hst)
    simp [hne]
  · simp [hpq]

lemma not_parked_ready : ¬ Parked .ready := by simp [Parked]

lemma not_parked_running : ¬ Parked .running := by simp [Parked]

lemma give_parked (he : k.Eligible c q) (p : Pid) (hst : Parked st) :
    (k.give c q).state p = st ↔ k.state p = st := by
  refine (update_parked not_parked_running hst).trans (and_iff_left_of_imp ?_)
  rintro heq rfl
  exact he.not_parked (heq ▸ hst)

lemma scheduled_parked (h : k.Scheduled c k') (p : Pid) (hst : Parked st) :
    k'.state p = st ↔ k.state p = st := by
  have hrl : (k.release c).state p = st ↔ k.state p = st := by
    rw [Control.release]
    split
    · rfl
    · split_ifs with hrun
      · refine (update_parked not_parked_ready hst).trans (and_iff_left_of_imp ?_)
        rintro heq rfl
        exact not_parked_running (hrun ▸ heq ▸ hst)
      · rfl
  cases h with
  | wait => exact hrl
  | run he => exact (give_parked he p hst).trans hrl

/-- `timer_handler` parks nobody, and after its tick it releases the current process. -/
theorem interrupted_parked (h : k.Interrupted c k') (p : Pid) (hst : Parked st) :
    k'.state p = st ↔ k.state p = st ∧ k.current c ≠ some p := by
  cases h with
  | idle hcur => simp [hcur]
  | @fill q hcur he =>
    have hrq : k.requeue.state p = st ↔ k.state p = st := by
      simp only [Control.requeue]
      split_ifs with hrun
      · rw [hrun]
        exact iff_of_false (fun heq => not_parked_ready (heq ▸ hst))
          fun heq => not_parked_running (heq ▸ hst)
      · rfl
    have hne : k.state p = st → p ≠ q := by
      rintro heq rfl
      exact he.not_parked (heq ▸ hst)
    refine (update_parked not_parked_running hst).trans ?_
    rw [hrq]
    simpa [hcur] using hne
  | @keep q hcur hrun =>
    simp only [hcur,ne_eq,Option.some.injEq]
    refine (and_iff_left_of_imp ?_).symm
    rintro heq rfl
    exact not_parked_running (hrun ▸ heq ▸ hst)
  | @again q hcur =>
    rw [hcur,ne_eq,Option.some.injEq,eq_comm (a := q)]
    exact update_parked not_parked_running hst
  | @switch q r hcur hrq he =>
    rw [give_parked he p hst,hcur,ne_eq,Option.some.injEq,eq_comm (a := q)]
    exact update_parked not_parked_ready hst

end Parked

section Runs

variable {s : Sched} {a : Call} {k : Control} {p : Pid} {st : ProcState} {w : Window}

lemma tick_blocked : (schedulerTick s).control.state p = .blocked ↔
    (s.processes p).state = .blocked := by
  simp only [Sched.control,schedulerTick]
  split_ifs with hdue
  · simp [hdue.1]
  · rfl

lemma tick_sleeping :
    (schedulerTick s).control.state p = .sleeping ↔
    (s.processes p).state = .sleeping ∧
      ¬ ((s.processes p).sleepUntil ≠ 0 ∧ (s.processes p).sleepUntil ≤ (s.tickCount+1) % 2^32) := by
  simp only [Sched.control,schedulerTick]
  split_ifs with hdue
  · exact ⟨fun hbad => (by cases hbad),fun hp => absurd hdue.2 hp.2⟩
  · constructor
    · exact fun hp => ⟨hp,fun hbad => hdue ⟨hp,hbad⟩⟩
    · exact fun hp => hp.1

lemma timer_tickCount (c : Cpu) (frame : ℕ → ℕ) (fsBase : ℕ) :
    (timerHandler s c frame fsBase).1.tickCount = (s.tickCount+1) % 2^32 := by
  rw [timerHandler]
  cases hcur : s.current c with
  | none =>
    have hcur' : (schedulerTick s).current c = none := hcur
    simp only [hcur',timerIdle]
    split
    · rfl
    · split_ifs <;> rfl
  | some p =>
    have hcur' : (schedulerTick s).current c = some p := hcur
    simp only [hcur',timerSwitch]
    split_ifs
    · rfl
    · split
      · rfl
      · split_ifs <;> rfl

lemma called_parked (hc : Called w.sched a k) (hen : a.Enabled w) (hst : Parked st)
    (hp : k.state p = st) : w.sched.control.state p = st := by
  cases hc with
  | same => exact hp
  | schedule hs => exact (scheduled_parked hs p hst).1 hp
  | timer hi =>
    have hp' := ((interrupted_parked hi p hst).1 hp).1
    rcases hst with rfl | rfl
    · exact tick_blocked.1 hp'
    · exact (tick_sleeping.1 hp').1
  | tryRun => exact ((update_parked not_parked_running hst).1 hp).1
  | exit _ hs =>
    have hp' := (scheduled_parked hs p hst).1 hp
    exact ((update_parked (by simp [Parked]) hst).1 hp').1
  | exitIdle hs => exact (scheduled_parked hs p hst).1 hp
  | create => exact ((update_parked not_parked_ready hst).1 hp).1
  | block => exact hen.elim
  | sleep => exact hen.elim
  | wake => exact ((update_parked not_parked_ready hst).1 hp).1

/-- The process that a CPU is executing is parked only when it is about to call `schedule`. -/
def Calm (w : Window) : Prop :=
  ∀ c p, w.sched.current c = some p → Parked (w.sched.processes p).state → w.pc p = .calling

lemma called_released (hca : Calm w) (hc : Called w.sched a k) (hen : a.Enabled w)
    (htm : ∀ c frame fsBase, a ≠ .timerHandler c frame fsBase) (hst : Parked st)
    (hp : w.sched.control.state p = st) (hp' : k.state p ≠ st) :
    st = .blocked ∧ ∃ pid, a = .processWake pid ∧ pidOf pid = some p := by
  cases hc with
  | same => exact absurd hp hp'
  | schedule hs => exact absurd ((scheduled_parked hs p hst).2 hp) hp'
  | timer => exact absurd rfl (htm _ _ _)
  | tryRun _ he => exact absurd ((give_parked he p hst).2 hp) hp'
  | @exit c _ _ q _ hcur hs =>
    have hpq : p ≠ q := by
      rintro rfl
      have hpr : Parked (w.sched.control.state p) := by rwa [hp]
      have hcl := hca c p hcur hpr
      rw [hen p hcur] at hcl
      cases hcl
    refine absurd ((scheduled_parked hs p hst).2 ?_) hp'
    exact (update_parked (by simp [Parked]) hst).2 ⟨hp,hpq⟩
  | exitIdle hs => exact absurd ((scheduled_parked hs p hst).2 hp) hp'
  | @create _ q _ hno =>
    have hpq : p ≠ q := by
      rintro rfl
      rw [hno] at hp
      rcases hst with rfl | rfl <;> cases hp
    exact absurd ((update_parked not_parked_ready hst).2 ⟨hp,hpq⟩) hp'
  | block => exact hen.elim
  | sleep => exact hen.elim
  | @wake pid q hpid hbl =>
    by_cases hpq : p = q
    · subst hpq
      exact ⟨hp.symm.trans hbl,pid,rfl,hpid⟩
    · exact absurd ((update_parked not_parked_ready hst).2 ⟨hp,hpq⟩) hp'

lemma scheduled_running (h : k.Scheduled c k')
    (hp : k'.current c = some p) : k'.state p = .running := by
  cases h with
  | wait =>
    rw [release_current] at hp
    cases hp
  | @run q _ =>
    obtain rfl : q = p := by simpa [Control.give] using hp
    simp [Control.give]

lemma interrupted_running (h : k.Interrupted c k')
    (hp : k'.current c = some p) (hne : k.current c ≠ some p) : k'.state p = .running := by
  cases h with
  | idle => exact absurd hp hne
  | @fill q _ _ =>
    obtain rfl : q = p := by simpa [Control.give] using hp
    simp [Control.give]
  | keep => exact absurd hp hne
  | again => exact absurd hp hne
  | @switch _ q _ _ _ =>
    obtain rfl : q = p := by simpa [Control.give] using hp
    simp [Control.give]

lemma started_spec (h : a.started s = some p) : ∃ c, a.cpu = some c ∧
    (act s a).current c = some p ∧ (a.jumps = true ∨ s.current c ≠ some p) := by
  rw [Call.started] at h
  split at h
  · cases h
  · rename_i c hc
    split_ifs at h with hnew
    refine ⟨c,hc,h,hnew.imp_right fun hne heq => hne ?_⟩
    rw [h,heq]

lemma started_running (hen : a.Enabled w) (h : a.started w.sched = some p) :
    ((act w.sched a).processes p).state = .running := by
  obtain ⟨c,hcpu,hcur,hnew⟩ := started_spec h
  have hcur' : (act w.sched a).control.current c = some p := hcur
  have hc := called w.sched a
  change (act w.sched a).control.state p = .running
  generalize (act w.sched a).control = k at hc hcur'
  cases hc with
  | same hj =>
    rcases hnew with hnew | hnew
    · rw [hj] at hnew
      cases hnew
    · exact absurd hcur' hnew
  | schedule hs =>
    obtain ⟨⟩ := hcpu
    exact scheduled_running hs hcur'
  | timer hi =>
    obtain ⟨⟩ := hcpu
    exact interrupted_running hi hcur' (hnew.resolve_left (by simp [Call.jumps]))
  | @tryRun _ q _ _ =>
    obtain ⟨⟩ := hcpu
    obtain rfl : q = p := by simpa [Control.give] using hcur'
    simp [Control.give]
  | exit _ hs =>
    obtain ⟨⟩ := hcpu
    exact scheduled_running hs hcur'
  | exitIdle hs =>
    obtain ⟨⟩ := hcpu
    exact scheduled_running hs hcur'
  | create hno =>
    rw [hno] at hcpu
    cases hcpu
  | block => exact hen.elim
  | sleep => exact hen.elim
  | wake => cases hcpu

lemma call_pc (resume : Pc) (hp : a.started w.sched ≠ some p) :
    (w.call a resume).pc p = w.pc p := by
  rw [Window.call]
  split
  · rfl
  · rename_i q hq
    have hpq : p ≠ q := fun heq => hp (heq ▸ hq)
    simp [Window.move,hpq]

lemma call_sched (resume : Pc) : (w.call a resume).sched = act w.sched a := by
  rw [Window.call]
  split <;> rfl

lemma Calm.call (h : Calm w) (hen : a.Enabled w) (resume : Pc) : Calm (w.call a resume) := by
  intro d p hp hpr
  rw [call_sched] at hp hpr
  have hc := called w.sched a
  have hnot : a.started w.sched ≠ some p := by
    intro hst
    rw [started_running hen hst] at hpr
    rcases hpr with hbad | hbad <;> cases hbad
  rw [call_pc resume hnot]
  have hsm : (w.sched.processes p).state = _ := called_parked hc hen hpr rfl
  refine h d p ?_ (by rwa [hsm])
  -- a process that has just become current would be running
  by_contra hne
  refine hnot ?_
  have hcpu : a.cpu = some d := by
    by_contra hot
    exact hne ((called_other hc hot).symm.trans hp)
  have hch : (act w.sched a).current d ≠ w.sched.current d := by
    rw [hp]
    exact Ne.symm hne
  simp only [Call.started,hcpu]
  rw [if_pos (.inr hch),hp]

/-- What a process does to itself in the two functions: it moves on, and it may park itself if it
calls `schedule` next. -/
def OwnStep (w : Window) (p : Pid) (w' : Window) : Prop :=
  w.pc p ≠ .calling ∧ ∃ pc st, w'.pc = update w.pc p pc ∧
    w'.sched.control = w.sched.control.setState p st ∧
    (st = w.sched.control.state p ∨ pc = .calling)

lemma ownStep_same {t : Sched} (hpc : w.pc p ≠ .calling)
    (ht : t.control = w.sched.control) : OwnStep w p ({ w with sched := t }.move p pc) :=
  ⟨hpc,pc,_,rfl,ht.trans (setState_self p).symm,.inl rfl⟩

lemma ownStep_park (hpc : w.pc p ≠ .calling) (st : ProcState) :
    OwnStep w p ({ w with sched := w.sched.setState p st }.move p .calling) :=
  ⟨hpc,.calling,st,rfl,control_setState st,.inr rfl⟩

lemma ownStep_statement {live : Context} (hst : statement w p live = some w') :
    OwnStep w p w' := by
  rw [statement] at hst
  split at hst
  · cases hst
    exact ownStep_same (by simp [*]) (control_modify (fun q => saveContext q live) rfl rfl)
  · cases hst
    exact ownStep_park (by simp [*]) _
  · cases hst
    exact ownStep_same (by simp [*]) (control_modify (fun q => saveContext q live) rfl rfl)
  · rename_i ms _
    cases hst
    exact ownStep_same (by simp [*]) (control_modify
      (fun q => { q with sleepUntil := (w.sched.tickCount+ms) % 2^32 }) rfl rfl)
  · cases hst
    exact ownStep_park (by simp [*]) _
  · cases hst

lemma ownStep_enter (hpc : w.pc p = .away) : OwnStep w p (w.move p pc) :=
  ownStep_same (by simp [hpc]) rfl

lemma ownStep_of_act (hcl : ∀ a resume, b ≠ .call a resume)
    (hst : w.act b = some w') : ∃ c p, w.sched.current c = some p ∧ OwnStep w p w' := by
  cases b with
  | call a resume => exact absurd rfl (hcl a resume)
  | enterBlock c =>
    simp only [Window.act] at hst
    split at hst
    · cases hst
    · split_ifs at hst with hpc
      cases hst
      exact ⟨c,_,‹_›,ownStep_enter hpc⟩
  | enterSleep c ms =>
    simp only [Window.act] at hst
    split at hst
    · cases hst
    · split_ifs at hst with hpc
      cases hst
      exact ⟨c,_,‹_›,ownStep_enter hpc⟩
  | statement c live =>
    simp only [Window.act] at hst
    split at hst
    · cases hst
    · exact ⟨c,_,‹_›,ownStep_statement hst⟩

lemma OwnStep.parked (ho : OwnStep w p w') (h : Calm w)
    (hcur : w.sched.current c = some p) {q : Pid} (hq : Parked (w.sched.processes q).state) :
    (w'.sched.processes q).state = (w.sched.processes q).state := by
  obtain ⟨hpc,_,st,_,hset,_⟩ := ho
  have hqp : q ≠ p := by
    rintro rfl
    exact hpc (h c q hcur hq)
  change w'.sched.control.state q = w.sched.control.state q
  rw [hset]
  exact update_of_ne hqp _ _

lemma OwnStep.calm (ho : OwnStep w p w') (h : Calm w) : Calm w' := by
  obtain ⟨hpc,pc,st,hmv,hset,hst⟩ := ho
  have hcr : w'.sched.current = w.sched.current := congrArg Control.current hset
  intro d q hq hpr
  have hst' : w'.sched.control.state = update w.sched.control.state p st := by rw [hset]; rfl
  have hpr' : Parked (w'.sched.control.state q) := hpr
  rw [hcr] at hq
  rw [hst'] at hpr'
  rw [hmv]
  by_cases hqp : q = p
  · subst hqp
    rw [update_self] at hpr' ⊢
    refine hst.resolve_left fun hsm => hpc (h d q hq ?_)
    rwa [hsm] at hpr'
  · rw [update_of_ne hqp] at hpr' ⊢
    exact h d q hq hpr'

lemma Calm.step (h : Calm w) (hst : w.act b = some w') : Calm w' := by
  by_cases hcl : ∃ a resume, b = .call a resume
  · obtain ⟨a,resume,rfl⟩ := hcl
    simp only [Window.act] at hst
    split_ifs at hst with hen
    cases hst
    exact h.call hen resume
  · push Not at hcl
    obtain ⟨_,_,_,ho⟩ := ownStep_of_act hcl hst
    exact ho.calm h

lemma calm_of_reach (h : Reach windowRuns w) : Calm w := by
  refine h.invariant Calm ?_ fun _ _ _ h hst => h.step hst
  rintro _ ⟨s₀,rfl⟩ c p hp
  cases hp

lemma timer_released_iff {frame : ℕ → ℕ} {fsBase : ℕ} {resume : Pc} :
    Released w.sched (.call (.timerHandler c frame fsBase) resume)
      (timerHandler w.sched c frame fsBase).1 ↔
    OutsideWindow w (.call (.timerHandler c frame fsBase) resume) := by
  have hi := timer_control (s := w.sched) (c := c) frame fsBase
  have hbl (p : Pid) := (interrupted_parked hi p (.inl rfl)).trans
    (and_congr_left fun _ => tick_blocked)
  have hsl (p : Pid) := (interrupted_parked hi p (.inr rfl)).trans
    (and_congr_left fun _ => tick_sleeping)
  have htc := timer_tickCount (s := w.sched) c frame fsBase
  constructor
  · intro h p hcur
    refine ⟨fun hp => ?_,fun hp => ?_⟩
    · obtain ⟨_,_,hbad,_⟩ := h.blocked p hp fun hst => ((hbl p).1 hst).2 hcur
      cases hbad
    · obtain ⟨_,_,_,_,_,hrc⟩ := h.sleeping p hp fun hst => ((hsl p).1 hst).2 hcur
      rwa [htc] at hrc
  · intro h
    refine ⟨fun p hp hlf => ?_,fun p hp hlf => ⟨c,frame,fsBase,resume,rfl,?_⟩⟩
    · refine absurd ((hbl p).2 ⟨hp,fun hcur => ?_⟩) hlf
      exact (h p hcur).1 hp
    · rw [htc]
      by_contra hnot
      refine hlf ((hsl p).2 ⟨⟨hp,hnot⟩,fun hcur => ?_⟩)
      exact hnot ((h p hcur).2 hp)

/-- In every run, a step takes a process out of `BLOCKED` or `SLEEPING` in another way than by
waking it or by a tick that reaches its deadline exactly if it is a timer interrupt in the window
before `schedule`. -/
theorem released_iff_outside_window {l : List Action} (h : Trace windowRuns l w) (b : Action)
    (w' : Window) (hstep : w.act b = some w') :
    Released w.sched b w'.sched ↔ OutsideWindow w b := by
  have hca := calm_of_reach h.reach
  by_cases hcl : ∃ a resume, b = .call a resume
  · obtain ⟨a,resume,rfl⟩ := hcl
    simp only [Window.act] at hstep
    split_ifs at hstep with hen
    cases hstep
    rw [call_sched]
    by_cases htm : ∃ c frame fsBase, a = .timerHandler c frame fsBase
    · obtain ⟨c,frame,fsBase,rfl⟩ := htm
      exact timer_released_iff
    push Not at htm
    have hc := called w.sched a
    have hout : OutsideWindow w (.call a resume) := by
      cases a with
      | timerHandler c frame fsBase => exact absurd rfl (htm c frame fsBase)
      | _ => trivial
    refine iff_of_true ⟨fun p hp hp' => ?_,fun p hp hp' => ?_⟩ hout
    · obtain ⟨_,pid,rfl,hpid⟩ := called_released hca hc hen htm (.inl rfl) hp hp'
      exact ⟨pid,resume,rfl,hpid⟩
    · obtain ⟨hbad,_⟩ := called_released hca hc hen htm (.inr rfl) hp hp'
      cases hbad
  · push Not at hcl
    obtain ⟨c,p,hcur,ho⟩ := ownStep_of_act hcl hstep
    have hout : OutsideWindow w b := by
      cases b with
      | call a resume => exact absurd rfl (hcl a resume)
      | _ => trivial
    refine iff_of_true ⟨fun q hq hq' => ?_,fun q hq hq' => ?_⟩ hout
    · exact absurd ((ho.parked hca hcur (.inl hq)).trans hq) hq'
    · exact absurd ((ho.parked hca hcur (.inr hq)).trans hq) hq'

/-- A process is created, started on CPU 0, and goes through the first statements of
`process_block_current`. -/
def blockFirst : List Action :=
  [.call (.processCreate 0x1000 0x2000 true) .away,.call (.schedule 0 .zero fun _ => 0) .away,
    .enterBlock 0,.statement 0 .zero,.statement 0 .zero]

def timerFirst : Action := .call (.timerHandler 0 (fun _ => 0) 0) .away

def blockFirstRun : Option Window :=
  runActions Window.act (fun _ _ => True) ⟨schedulerInit .zero,fun _ => .away⟩ blockFirst

lemma blockFirstRun_trace (hw : blockFirstRun = some w) : Trace windowRuns blockFirst w := by
  rw [← System.guarded_true windowRuns]
  exact trace_of_actions ⟨_,rfl⟩ (actionsMeet_of_run hw)

theorem released_iff_outside_window_blocked : ∃ w w', Trace windowRuns blockFirst w ∧
    w.act timerFirst = some w' ∧ (w.sched.processes 0).state = .blocked ∧
    (Released w.sched timerFirst w'.sched ↔ OutsideWindow w timerFirst) := by
  have hsm : blockFirstRun.any (fun w => (w.sched.processes 0).state = .blocked) = true := by
    decide
  obtain ⟨w,hw,hbl⟩ := (Option.any_eq_true _ _).mp hsm
  have hrun := blockFirstRun_trace hw
  have hst : w.act timerFirst = some (w.call (.timerHandler 0 (fun _ => 0) 0) .away) := rfl
  exact ⟨w,_,hrun,hst,of_decide_eq_true hbl,released_iff_outside_window hrun _ _ hst⟩

/-- The timer interrupts `process_block_current` after it has stored `BLOCKED`; the process is
running afterwards, though nobody has woken it. -/
theorem timer_unblocks : ∃ w w', Trace windowRuns blockFirst w ∧ w.act timerFirst = some w' ∧
    (w.sched.processes 0).state = .blocked ∧ (w'.sched.processes 0).state = .running := by
  have hsm : blockFirstRun.any (fun w => (w.sched.processes 0).state = .blocked ∧
      (w.act timerFirst).any fun w' => (w'.sched.processes 0).state = .running) = true := by
    decide
  obtain ⟨w,hw,hp⟩ := (Option.any_eq_true _ _).mp hsm
  obtain ⟨hbl,hnx⟩ := of_decide_eq_true hp
  obtain ⟨w',hst,hrn⟩ := (Option.any_eq_true _ _).mp hnx
  exact ⟨w,w',blockFirstRun_trace hw,hst,hbl,of_decide_eq_true hrn⟩

end Runs

end HarlinKernel.Scheduler
