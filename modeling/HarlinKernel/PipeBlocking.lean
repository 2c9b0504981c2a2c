import HarlinKernel.PipeTable
import HarlinKernel.ProcessTable

/-! A reader in `pipe_read_blocking` and a writer in `pipe_write_blocking` on one pipe,
with a third process that may close it. The atomic steps are the locked sections, the
unlocked test between them and `process_block_current`, which returns once its process
is no longer blocked. -/
namespace HarlinKernel.PipeBlocking

open TransitionSystem RingBuffer PipeTable
open ProcessTable (ProcState maxProcesses)
open Function (update update_self update_of_ne)

/-- `process_wake` on the states alone. -/
def wakeState (procs : ℕ → ProcState) (pid : ℕ) : ℕ → ProcState :=
  if pid < maxProcesses then update procs pid (procs pid).wake else procs

def wakeAll (procs : ℕ → ProcState) (pids : List ℕ) : ℕ → ProcState := pids.foldl wakeState procs

/-- Where a process is in the loop of its blocking call. -/
inductive Pc
  | transfer | test | enqueue | block | asleep | returned (rc : ℤ)
  deriving DecidableEq

/-- Between the transfer that moved nothing and `process_block_current`. -/
def Pc.inWindow : Pc → Bool
  | .test | .enqueue | .block => true
  | _ => false

structure Reader where
  pid : ℕ
  len : ℕ
  total : ℕ
  pc : Pc

structure Writer where
  pid : ℕ
  src : List UInt8
  total : ℕ
  pc : Pc

/-- `toWake` are the waiters that `pipe_close` saved and has not woken yet. -/
structure State where
  table : Table
  procs : ℕ → ProcState
  reader : Reader
  writer : Writer
  toWake : List ℕ

/-- The loop conditions compare with the length as a signed 32-bit number. -/
def toInt32 (n : ℕ) : ℤ := if n % 2^32 < 2^31 then n % 2^32 else (n % 2^32 : ℤ) - 2^32

def Reader.more (r : Reader) : Prop := (r.total : ℤ) < toInt32 r.len
def Writer.more (w : Writer) : Prop := (w.total : ℤ) < toInt32 w.src.length

instance (r : Reader) : Decidable r.more := inferInstanceAs (Decidable (_ < _))
instance (w : Writer) : Decidable w.more := inferInstanceAs (Decidable (_ < _))

def State.readerAt (s : State) (pc : Pc) : State := { s with reader := { s.reader with pc := pc } }
def State.writerAt (s : State) (pc : Pc) : State := { s with writer := { s.writer with pc := pc } }

/-- The checks at the entry of a blocking call. -/
def readerCall (id : ℕ) (s : State) (len : ℕ) : Option State :=
  match s.reader.pc with
  | .returned _ =>
    let p := s.table id
    let pc := if !p.used ∨ p.buffer.isNone then Pc.returned harlinInvalid else .transfer
    some { s with reader := { s.reader with len := len, total := 0, pc := pc } }
  | _ => none

def writerCall (id : ℕ) (s : State) (src : List UInt8) : Option State :=
  match s.writer.pc with
  | .returned _ =>
    let p := s.table id
    let pc := if !p.used ∨ p.buffer.isNone ∨ p.readers = 0 then Pc.returned harlinInvalid
      else .transfer
    some { s with writer := { s.writer with src := src, total := 0, pc := pc } }
  | _ => none

def readerTransfer (id : ℕ) (s : State) : State :=
  if s.reader.more then
    let r := pipeRead s.table id true (s.reader.len-s.reader.total)
    let s' := { s with table := r.2, procs := wakeAll s.procs r.1.woken }
    if r.1.rc < 0 then s'.readerAt (.returned r.1.rc)
    else if r.1.rc = 0 then s'.readerAt .test
    else { s' with reader := { s.reader with total := s.reader.total+r.1.rc.toNat } }
  else s.readerAt (.returned s.reader.total)

def writerTransfer (id : ℕ) (s : State) : State :=
  if s.writer.more then
    let r := pipeWrite s.table id (some (s.writer.src.drop s.writer.total))
    let s' := { s with table := r.2, procs := wakeAll s.procs r.1.woken }
    if r.1.rc < 0 then s'.writerAt (.returned r.1.rc)
    else if r.1.rc = 0 then s'.writerAt .test
    else { s' with writer := { s.writer with total := s.writer.total+r.1.rc.toNat } }
  else s.writerAt (.returned s.writer.total)

def readerEnqueue (id : ℕ) (s : State) : State :=
  let p := s.table id
  let w := pipeAddWaiter p.readWaiters p.readWaitCount s.reader.pid
  { s.readerAt .block with
    table := update s.table id { p with readWaiters := w.2.1, readWaitCount := w.2.2 } }

def writerEnqueue (id : ℕ) (s : State) : State :=
  let p := s.table id
  let w := pipeAddWaiter p.writeWaiters p.writeWaitCount s.writer.pid
  { s.writerAt .block with
    table := update s.table id { p with writeWaiters := w.2.1, writeWaitCount := w.2.2 } }

/-- One step of the process in `pipe_read_blocking`. -/
def readerStep (id : ℕ) (s : State) : Option State :=
  match s.reader.pc with
  | .transfer => some (readerTransfer id s)
  | .test =>
    if !(s.table id).used ∨ (s.table id).writers = 0 then
      some (s.readerAt (.returned s.reader.total))
    else some (s.readerAt .enqueue)
  | .enqueue => some (readerEnqueue id s)
  | .block =>
    some { s.readerAt .asleep with procs := update s.procs s.reader.pid .blocked }
  | .asleep => if s.procs s.reader.pid = .blocked then none else some (s.readerAt .transfer)
  | .returned _ => none

/-- One step of the process in `pipe_write_blocking`. -/
def writerStep (id : ℕ) (s : State) : Option State :=
  match s.writer.pc with
  | .transfer => some (writerTransfer id s)
  | .test =>
    if !(s.table id).used ∨ (s.table id).readers = 0 then
      some (s.writerAt (.returned s.writer.total))
    else some (s.writerAt .enqueue)
  | .enqueue => some (writerEnqueue id s)
  | .block =>
    some { s.writerAt .asleep with procs := update s.procs s.writer.pid .blocked }
  | .asleep => if s.procs s.writer.pid = .blocked then none else some (s.writerAt .transfer)
  | .returned _ => none

/-- The locked section of `pipe_close`; its wake-ups follow one by one. -/
def closeStep (id : ℕ) (s : State) : Option State :=
  if (s.table id).used then
    some { s with
      table := update s.table id (s.table id).close
      toWake := (s.table id).closeWakes }
  else some s

def wakeNext (s : State) : Option State :=
  match s.toWake with
  | [] => none
  | pid :: rest => some { s with procs := wakeState s.procs pid, toWake := rest }

inductive Action
  | readerCall (len : ℕ)
  | writerCall (src : List UInt8)
  | reader
  | writer
  | close
  | wakeNext

def act (id : ℕ) (s : State) : Action → Option State
  | .readerCall len => readerCall id s len
  | .writerCall src => writerCall id s src
  | .reader => readerStep id s
  | .writer => writerStep id s
  | .close => closeStep id s
  | .wakeNext => wakeNext s

/-- Two processes that have not called yet, on a pipe fresh from `pipe_create`. -/
structure Start (id : ℕ) (s : State) : Prop where
  pipe : ∃ buf, s.table id = freshPipe buf
  id_lt : id < pipeCount
  reader_lt : s.reader.pid < maxProcesses
  writer_lt : s.writer.pid < maxProcesses
  pids_ne : s.reader.pid ≠ s.writer.pid
  reader_idle : ∃ rc, s.reader.pc = .returned rc
  writer_idle : ∃ rc, s.writer.pc = .returned rc
  reader_runs : s.procs s.reader.pid ≠ .blocked
  writer_runs : s.procs s.writer.pid ≠ .blocked
  nobody : s.toWake = []

def pipeUsers (id : ℕ) : System State Action := actions (Start id) (act id)

def State.readerBlocked (s : State) : Prop :=
  s.reader.pc = .asleep ∧ s.procs s.reader.pid = .blocked

def State.writerBlocked (s : State) : Prop :=
  s.writer.pc = .asleep ∧ s.procs s.writer.pid = .blocked

/-- A blocked reader with something to read, or whose last writer closed, is about to
be woken; so is a blocked writer with room to write. -/
def NoLostWakeup (id : ℕ) (s : State) : Prop :=
  (s.readerBlocked → (s.table id).head ≠ (s.table id).tail ∨ (s.table id).writers = 0 →
    s.reader.pid ∈ s.toWake) ∧
  (s.writerBlocked → ((s.table id).tail+1) % (s.table id).size ≠ (s.table id).head →
    s.writer.pid ∈ s.toWake)

/-- The steps that do not fall into the other party's window: no byte is moved while the
other party is between its empty-handed transfer and its blocking; the pipe is not closed
while the reader is about to enqueue itself, nor while a reader with pid 0 waits; and
`pipe_close` wakes the reader only once it is blocked. -/
def OutsideWindow (id : ℕ) (s : State) : Action → Prop
  | .writer => s.writer.pc = .transfer → s.writer.more → 0 < pipeSpace s.table id →
      s.reader.pc.inWindow = false
  | .reader => s.reader.pc = .transfer → s.reader.more → pipeReady s.table id = true →
      s.writer.pc.inWindow = false
  | .close => s.reader.pc ≠ .enqueue ∧
      (s.reader.pid = 0 → s.reader.pc ≠ .block ∧ ¬ s.readerBlocked)
  | .wakeNext => s.toWake.head? = some s.reader.pid → s.reader.pc ≠ .block
  | _ => True

lemma wakeAll_apply (procs : ℕ → ProcState) (pids : List ℕ) (q : ℕ) :
    wakeAll procs pids q =
      if q ∈ pids ∧ q < maxProcesses ∧ procs q = .blocked then .ready else procs q := by
  induction pids generalizing procs with
  | nil => simp [wakeAll]
  | cons pid pids ih =>
    have hrs := ih (wakeState procs pid)
    rw [wakeAll,List.foldl_cons,← wakeAll,hrs]
    by_cases hq : q = pid
    · subst hq
      by_cases hlt : q < maxProcesses
      · cases hst : procs q <;> simp [wakeState,hlt,hst,ProcState.wake]
      · simp [wakeState,hlt]
    · have hsm : wakeState procs pid q = procs q := by
        unfold wakeState
        split
        · exact update_of_ne hq _ _
        · rfl
      simp [hsm,hq]

variable {procs : ℕ → ProcState} {q count pid count' id len : ℕ} {waits waits' : ℕ → ℕ}
  {b c moved : Prop} {pc : Pc} {s t : State} {r : Reader} {w : Writer} {buf : ℕ → UInt8}
  {src : List UInt8} {p : Pipe}

lemma wakeAll_blocked {pids : List ℕ}
    (h : wakeAll procs pids q = .blocked) : procs q = .blocked ∧ (q < maxProcesses → q ∉ pids) := by
  rw [wakeAll_apply] at h
  split_ifs at h with hn
  exact ⟨h,fun hlt hmem => hn ⟨hmem,hlt,h⟩⟩

/-- A party that waits: from its empty-handed transfer until it is woken. -/
def Waits (procs : ℕ → ProcState) (pid : ℕ) (pc : Pc) : Prop :=
  pc.inWindow = true ∨ pc = .asleep ∧ procs pid = .blocked

/-- A party that is on its waiter list: from its enqueuing until it is woken. -/
def Enqueued (procs : ℕ → ProcState) (pid : ℕ) (pc : Pc) : Prop :=
  pc = .block ∨ pc = .asleep ∧ procs pid = .blocked

lemma waits_of_enqueued (h : Enqueued procs pid pc) : Waits procs pid pc :=
  h.imp_left fun hpc => by rw [hpc]; rfl

/-- A waiter list that holds one pid, or nobody. -/
def Listed (waits : ℕ → ℕ) (count pid : ℕ) (b : Prop) : Prop :=
  (b → waits = update (fun _ => 0) 0 pid ∧ count = 1) ∧
    (¬ b → waits = (fun _ => 0) ∧ count = 0)

lemma Listed.congr (h : Listed waits count pid b) (hbc : b ↔ c) : Listed waits count pid c := by
  rwa [← propext hbc]

lemma Listed.add (h : Listed waits count pid b) (hb : ¬ b) (hc : c) :
    Listed (pipeAddWaiter waits count pid).2.1 (pipeAddWaiter waits count pid).2.2 pid c := by
  obtain ⟨hw,hn⟩ := h.2 hb
  subst hw hn
  exact ⟨fun _ => ⟨rfl,rfl⟩,fun hnc => (hnc hc).elim⟩

/-- A transfer that moved something wakes and clears the other party's list, if anybody
is on it; one that moved nothing leaves it. -/
structure WokeIf (moved : Prop) (waits : ℕ → ℕ) (count : ℕ) (woken : List ℕ) (waits' : ℕ → ℕ)
    (count' : ℕ) : Prop where
  kept : ¬ moved → woken = [] ∧ waits' = waits ∧ count' = count
  woke : moved → 0 < count →
    woken = (List.range count).map waits ∧
      waits' = (fun i => if i < count then 0 else waits i) ∧ count' = 0
  empty : moved → count = 0 → woken = [] ∧ waits' = waits ∧ count' = 0

lemma Listed.wokeIf {woken : List ℕ} (h : Listed waits count pid b)
    (hw : WokeIf moved waits count woken waits' count') (hmv : moved → ¬ c)
    (hkp : ¬ moved → (b ↔ c)) : Listed waits' count' pid c := by
  by_cases hm : moved
  · refine ⟨fun hc => (hmv hm hc).elim,fun _ => ?_⟩
    by_cases hb : b
    · obtain ⟨hl,rfl⟩ := h.1 hb
      obtain ⟨-,hl',hn'⟩ := hw.woke hm Nat.one_pos
      refine ⟨?_,hn'⟩
      rw [hl',hl]
      funext i
      cases i with
      | zero => rfl
      | succ i => simp
    · obtain ⟨hl,hn⟩ := h.2 hb
      obtain ⟨-,hl',hn'⟩ := hw.empty hm hn
      exact ⟨hl'.trans hl,hn'⟩
  · obtain ⟨-,hl,hn⟩ := hw.kept hm
    rw [hl,hn]
    exact h.congr (hkp hm)

lemma Listed.woken {woken : List ℕ} (h : Listed waits count pid b)
    (hw : WokeIf moved waits count woken waits' count') (hm : moved) (hb : b) : pid ∈ woken := by
  obtain ⟨hl,rfl⟩ := h.1 hb
  rw [(hw.woke hm Nat.one_pos).1,hl]
  simp

/-- A party of an open pipe: if it waits it found the pipe idle, and it is on its waiter list
exactly from its enqueuing to its waking. -/
structure Seat (procs : ℕ → ProcState) (pid : ℕ) (pc : Pc) (waits : ℕ → ℕ) (count : ℕ)
    (idle : Prop) : Prop where
  state : procs pid = .blocked → pc = .asleep
  idle : Waits procs pid pc → idle
  listed : Listed waits count pid (Enqueued procs pid pc)

section Seat

variable {pc' : Pc} {idle idle' : Prop} {procs' : ℕ → ProcState} {woken : List ℕ}

lemma Seat.move (h : Seat procs pid pc waits count idle) (hfr : ¬ Enqueued procs pid pc)
    (hto : pc' ≠ .block) (hid : pc'.inWindow = true → idle) :
    Seat procs pid pc' waits count idle := by
  have hrun : procs pid ≠ .blocked := fun hb => hfr (.inr ⟨h.state hb,hb⟩)
  refine ⟨fun hb => (hrun hb).elim,fun hwt => hwt.elim hid fun hb => (hrun hb.2).elim,?_⟩
  exact h.listed.congr (iff_of_false hfr (by simp [Enqueued,hto,hrun]))

lemma Seat.frame (h : Seat procs pid pc waits count idle) (hpr : procs' pid = procs pid) :
    Seat procs' pid pc waits count idle := by
  obtain ⟨hst,hid,hls⟩ := h
  simp only [Waits,Enqueued,← hpr] at hst hid hls
  exact ⟨hst,hid,hls⟩

lemma Seat.enqueue (h : Seat procs pid .enqueue waits count idle) :
    Seat procs pid .block (pipeAddWaiter waits count pid).2.1 (pipeAddWaiter waits count pid).2.2
      idle :=
  ⟨fun hb => Pc.noConfusion (h.state hb),fun _ => h.idle (.inl rfl),
    h.listed.add (by simp [Enqueued]) (.inl rfl)⟩

lemma Seat.block (h : Seat procs pid .block waits count idle) :
    Seat (update procs pid .blocked) pid .asleep waits count idle :=
  ⟨fun _ => rfl,fun _ => h.idle (.inl rfl),
    h.listed.congr (iff_of_true (.inl rfl) (.inr ⟨rfl,update_self _ _ _⟩))⟩

lemma Seat.own (h : Seat procs pid .transfer waits count idle) (woken : List ℕ) :
    Seat (wakeAll procs woken) pid .transfer waits count idle' :=
  ⟨fun hb => h.state (wakeAll_blocked hb).1,by simp [Waits,Pc.inWindow],
    h.listed.congr (iff_of_false (by simp [Enqueued]) (by simp [Enqueued]))⟩

/-- After a transfer of the other party: only one that moved nothing leaves the party
waiting. -/
theorem Seat.other (h : Seat procs pid pc waits count idle)
    (hw : WokeIf moved waits count woken waits' count') (hlt : pid < maxProcesses)
    (hwin : moved → pc.inWindow = false) (hid : ¬ moved → idle → idle') :
    Seat (wakeAll procs woken) pid pc waits' count' idle' := by
  have hwa : Waits (wakeAll procs woken) pid pc → ¬ moved ∧ Waits procs pid pc := by
    intro hwt
    by_cases hm : moved
    · rcases hwt with hwt | hb
      · exact Bool.noConfusion (hwt.symm.trans (hwin hm))
      · obtain ⟨hb₀,hout⟩ := wakeAll_blocked hb.2
        exact (hout hlt (h.listed.woken hw hm (.inr ⟨hb.1,hb₀⟩))).elim
    · rw [(hw.kept hm).1] at hwt
      exact ⟨hm,hwt⟩
  refine ⟨fun hb => h.state (wakeAll_blocked hb).1,fun hwt => ?_,?_⟩
  · exact hid (hwa hwt).1 (h.idle (hwa hwt).2)
  · refine h.listed.wokeIf hw (fun hm hl => (hwa (waits_of_enqueued hl)).1 hm) fun hm => ?_
    rw [(hw.kept hm).1]
    rfl

end Seat

structure OpenPhase (id : ℕ) (s : State) : Prop where
  isOpen : ∃ buf, (s.table id).Open buf
  reader : Seat s.procs s.reader.pid s.reader.pc (s.table id).readWaiters (s.table id).readWaitCount
    ((s.table id).occupancy = 0)
  writer : Seat s.procs s.writer.pid s.writer.pc (s.table id).writeWaiters
    (s.table id).writeWaitCount ((s.table id).occupancy = pipeBufferSize-1)
  nobody : s.toWake = []

/-- After the close, a reader that is on its way to sleep or asleep is about to be woken, and
a writer that waits found the pipe full. -/
structure ClosedPhase (id : ℕ) (s : State) : Prop where
  unused : (s.table id).used = false
  reader_state : s.procs s.reader.pid = .blocked → s.reader.pc = .asleep
  writer_state : s.procs s.writer.pid = .blocked → s.writer.pc = .asleep
  no_enqueue : s.reader.pc ≠ .enqueue
  due : Enqueued s.procs s.reader.pid s.reader.pc → s.reader.pid ∈ s.toWake
  full : Waits s.procs s.writer.pid s.writer.pc →
    ((s.table id).tail+1) % (s.table id).size = (s.table id).head

structure Calm (id : ℕ) (s : State) : Prop where
  id_lt : id < pipeCount
  reader_lt : s.reader.pid < maxProcesses
  writer_lt : s.writer.pid < maxProcesses
  pids_ne : s.reader.pid ≠ s.writer.pid
  phase : OpenPhase id s ∨ ClosedPhase id s

lemma OpenPhase.not_unused (h : OpenPhase id s) : (s.table id).used = true := by
  obtain ⟨buf,hop⟩ := h.isOpen
  exact hop.used

lemma OpenPhase.full (h : OpenPhase id s) (hw : Waits s.procs s.writer.pid s.writer.pc) :
    ((s.table id).tail+1) % (s.table id).size = (s.table id).head := by
  obtain ⟨buf,hp⟩ := h.isOpen
  have hfl := h.writer.idle hw
  have hsz := hp.size
  have hhd := hp.head_lt
  rw [Pipe.occupancy,hsz] at hfl
  rw [hsz]
  unfold pipeBufferSize at *
  omega

lemma Calm.noLostWakeup (h : Calm id s) : NoLostWakeup id s := by
  refine ⟨fun hb hrd => ?_,fun hb hsp => ?_⟩
  · rcases h.phase with hop | hcl
    · obtain ⟨buf,hp⟩ := hop.isOpen
      have heq := tail_eq hp
      rw [hop.reader.idle (.inr hb),Nat.add_zero,Nat.mod_eq_of_lt hp.head_lt] at heq
      have hw := hp.writers
      omega
    · exact hcl.due (.inr hb)
  · exact (hsp (h.phase.elim (·.full (.inr hb)) (·.full (.inr hb)))).elim

lemma Seat.start {rc : ℤ} {idle : Prop} (hpc : pc = .returned rc) (hrun : procs pid ≠ .blocked) :
    Seat procs pid pc (fun _ => 0) 0 idle := by
  subst hpc
  exact ⟨fun hb => (hrun hb).elim,by simp [Waits,Pc.inWindow],by simp [Listed,Enqueued]⟩

lemma Calm.start (h : Start id s) : Calm id s := by
  obtain ⟨buf,hp⟩ := h.pipe
  obtain ⟨rc,hr⟩ := h.reader_idle
  obtain ⟨rc',hw⟩ := h.writer_idle
  refine ⟨h.id_lt,h.reader_lt,h.writer_lt,h.pids_ne,
    .inl ⟨⟨buf,hp ▸ freshPipe_open buf⟩,?_,?_,h.nobody⟩⟩
  all_goals rw [hp]
  · exact .start hr h.reader_runs
  · exact .start hw h.writer_runs

lemma Calm.moveReader (h : Calm id s) {total : ℕ}
    (hfr : ¬ Enqueued s.procs s.reader.pid s.reader.pc) (hto : pc ≠ .block)
    (hid : pc.inWindow = true → (s.table id).used = true ∧ (s.table id).occupancy = 0) :
    Calm id { s with reader := ⟨s.reader.pid,len,total,pc⟩ } := by
  refine { h with phase := h.phase.imp (fun hp => ?_) fun hp => ?_ }
  · exact { hp with reader := hp.reader.move hfr hto fun hwin => (hid hwin).2 }
  · have hrun : s.procs s.reader.pid ≠ .blocked := fun hb => hfr (.inr ⟨hp.reader_state hb,hb⟩)
    refine { hp with
      reader_state := fun hb => (hrun hb).elim
      no_enqueue := ?_
      due := fun hl => (hl.elim hto fun hb => hrun hb.2).elim }
    rintro rfl
    exact Bool.noConfusion (hp.unused.symm.trans (hid rfl).1)

lemma Calm.moveWriter (h : Calm id s) {total : ℕ}
    (hfr : ¬ Enqueued s.procs s.writer.pid s.writer.pc) (hto : pc ≠ .block)
    (hid : pc.inWindow = true → Waits s.procs s.writer.pid s.writer.pc ∨
      (s.table id).used = true ∧ (s.table id).occupancy = pipeBufferSize-1) :
    Calm id { s with writer := ⟨s.writer.pid,src,total,pc⟩ } := by
  refine { h with phase := h.phase.imp (fun hp => ?_) fun hp => ?_ }
  · exact { hp with writer := hp.writer.move hfr hto fun hwin =>
      (hid hwin).elim hp.writer.idle And.right }
  · have hrun : s.procs s.writer.pid ≠ .blocked := fun hb => hfr (.inr ⟨hp.writer_state hb,hb⟩)
    refine { hp with
      writer_state := fun hb => (hrun hb).elim
      full := fun hw => (hw.elim hid fun hb => (hrun hb.2).elim).elim hp.full fun hbad => ?_ }
    exact Bool.noConfusion (hp.unused.symm.trans hbad.1)

lemma Reader.more_lt (h : r.more) : r.len-r.total ≠ 0 := by
  unfold Reader.more toInt32 at h
  split at h <;> omega

lemma Writer.more_lt (h : w.more) : (w.src.drop w.total).length ≠ 0 := by
  unfold Writer.more toInt32 at h
  rw [List.length_drop]
  split at h <;> omega

lemma pipeReady_open {t : Table} (hid : id < pipeCount)
    (h : (t id).Open buf) (hocc : (t id).occupancy ≠ 0) : pipeReady t id = true := by
  have hne : (t id).head ≠ (t id).tail := by
    rintro heq
    simp [Pipe.occupancy,heq] at hocc
  simp [pipeReady,h.used,h.buffer,hne,hid]

lemma pipeRead_unused {t : Table} (h : (t id).used = false) (hlen : len ≠ 0) :
    pipeRead t id true len = (.fail harlinInvalid,t) := by
  simp [pipeRead,hlen,h]

lemma pipeWrite_unused {t : Table} (h : (t id).used = false)
    (hsrc : src.length ≠ 0) : pipeWrite t id (some src) = (.fail harlinInvalid,t) := by
  simp [pipeWrite,hsrc,h]

lemma read_effect (h : p.Open buf) (len : ℕ) :
    (p.read buf len).2.occupancy = p.occupancy-min len p.occupancy ∧
    (p.read buf len).2.readWaiters = p.readWaiters ∧
    (p.read buf len).2.readWaitCount = p.readWaitCount ∧
    WokeIf (0 < min len p.occupancy) p.writeWaiters p.writeWaitCount (p.read buf len).1.woken
      (p.read buf len).2.writeWaiters (p.read buf len).2.writeWaitCount := by
  obtain ⟨-,hocc⟩ := advance_head_open h (Nat.min_le_right len p.occupancy)
  rw [read_eq h]
  dsimp only
  split
  · rename_i hw
    exact ⟨hocc,rfl,rfl,fun hm => (hm hw.1).elim,fun _ _ => ⟨rfl,rfl,rfl⟩,
      fun _ hn => by omega⟩
  · rename_i hw
    exact ⟨hocc,rfl,rfl,fun _ => ⟨rfl,rfl,rfl⟩,fun hm hn => (hw ⟨hm,hn⟩).elim,
      fun _ hn => ⟨rfl,rfl,hn⟩⟩

lemma write_effect (h : p.Open buf) (src : List UInt8) :
    (p.write buf src).2.occupancy = p.occupancy+min src.length (pipeBufferSize-1-p.occupancy) ∧
    (p.write buf src).2.writeWaiters = p.writeWaiters ∧
    (p.write buf src).2.writeWaitCount = p.writeWaitCount ∧
    WokeIf (0 < min src.length (pipeBufferSize-1-p.occupancy)) p.readWaiters p.readWaitCount
      (p.write buf src).1.woken (p.write buf src).2.readWaiters
      (p.write buf src).2.readWaitCount := by
  have hlt := occupancy_lt h
  obtain ⟨buf',-,hwr⟩ := write_eq h src
  obtain ⟨-,hocc⟩ := advance_tail_open h buf'
    (k:=min src.length (pipeBufferSize-1-p.occupancy)) (by omega)
  rw [hwr]
  split
  · rename_i hw
    exact ⟨hocc,rfl,rfl,fun hm => (hm hw.1).elim,fun _ _ => ⟨rfl,rfl,rfl⟩,
      fun _ hn => by omega⟩
  · rename_i hw
    exact ⟨hocc,rfl,rfl,fun _ => ⟨rfl,rfl,rfl⟩,fun hm hn => (hw ⟨hm,hn⟩).elim,
      fun _ hn => ⟨rfl,rfl,hn⟩⟩

lemma Calm.read (h : Calm id s) (hp : OpenPhase id s)
    (hop : (s.table id).Open buf) (hpc : s.reader.pc = .transfer) (len : ℕ)
    (hwin : 0 < min len (s.table id).occupancy → s.writer.pc.inWindow = false) :
    Calm id { s with
      table := update s.table id ((s.table id).read buf len).2
      procs := wakeAll s.procs ((s.table id).read buf len).1.woken } := by
  obtain ⟨hop',-,-⟩ := read_open hop len
  obtain ⟨hocc,hls,hcn,hwk⟩ := read_effect hop len
  refine { h with phase := .inl ⟨?_,?_,?_,hp.nobody⟩ } <;> simp only [update_self]
  · exact ⟨buf,hop'⟩
  · rw [hpc,hls,hcn]
    exact (hpc ▸ hp.reader).own _
  · exact hp.writer.other hwk h.writer_lt hwin fun hm hfl => by omega

lemma Calm.write (h : Calm id s) (hp : OpenPhase id s)
    (hop : (s.table id).Open buf) (hpc : s.writer.pc = .transfer) (src : List UInt8)
    (hwin : 0 < min src.length (pipeBufferSize-1-(s.table id).occupancy) →
      s.reader.pc.inWindow = false) :
    Calm id { s with
      table := update s.table id ((s.table id).write buf src).2
      procs := wakeAll s.procs ((s.table id).write buf src).1.woken } := by
  obtain ⟨hop',-,-⟩ := write_open hop src
  obtain ⟨hocc,hls,hcn,hwk⟩ := write_effect hop src
  refine { h with phase := .inl ⟨?_,?_,?_,hp.nobody⟩ } <;> simp only [update_self]
  · exact hop'
  · exact hp.reader.other hwk h.reader_lt hwin fun hm hem => by omega
  · rw [hpc,hls,hcn]
    exact (hpc ▸ hp.writer).own _

lemma Calm.readerTransfer (h : Calm id s) (hpc : s.reader.pc = .transfer)
    (hwin : s.reader.more → pipeReady s.table id = true → s.writer.pc.inWindow = false) :
    Calm id (readerTransfer id s) := by
  have hfr : ¬ Enqueued s.procs s.reader.pid s.reader.pc := by simp [Enqueued,hpc]
  unfold PipeBlocking.readerTransfer
  by_cases hmr : s.reader.more
  · rw [if_pos hmr]
    have hlen := Reader.more_lt hmr
    rcases h.phase with hp | hp
    · obtain ⟨buf,hop⟩ := hp.isOpen
      have hrd := h.read hp hop hpc (s.reader.len-s.reader.total) fun hm =>
        hwin hmr (pipeReady_open h.id_lt hop (by omega))
      obtain ⟨hop',hrc,-⟩ := read_open hop (s.reader.len-s.reader.total)
      obtain ⟨hocc,-⟩ := read_effect hop (s.reader.len-s.reader.total)
      rw [pipeRead_open h.id_lt hop _ hlen]
      dsimp only
      rw [if_neg (by omega)]
      split
      · refine hrd.moveReader (by simp [Enqueued,hpc]) (by simp) fun _ => ?_
        simp only [update_self]
        exact ⟨hop'.used,by omega⟩
      · exact hrd.moveReader (by simp [Enqueued,hpc]) (by simp [hpc]) (by simp [hpc,Pc.inWindow])
    · rw [pipeRead_unused hp.unused hlen]
      exact h.moveReader hfr (by simp) (by simp [Pc.inWindow])
  · rw [if_neg hmr]
    exact h.moveReader hfr (by simp) (by simp [Pc.inWindow])

lemma Calm.writerTransfer (h : Calm id s) (hpc : s.writer.pc = .transfer)
    (hwin : s.writer.more → 0 < pipeSpace s.table id → s.reader.pc.inWindow = false) :
    Calm id (writerTransfer id s) := by
  have hfr : ¬ Enqueued s.procs s.writer.pid s.writer.pc := by simp [Enqueued,hpc]
  unfold PipeBlocking.writerTransfer
  by_cases hmr : s.writer.more
  · rw [if_pos hmr]
    have hlen := Writer.more_lt hmr
    rcases h.phase with hp | hp
    · obtain ⟨buf,hop⟩ := hp.isOpen
      have hsp := pipeSpace_open h.id_lt hop
      have hwr := h.write hp hop hpc (s.writer.src.drop s.writer.total) fun hm =>
        hwin hmr (by omega)
      obtain ⟨⟨buf',hop'⟩,hrc,-⟩ := write_open hop (s.writer.src.drop s.writer.total)
      obtain ⟨hocc,-⟩ := write_effect hop (s.writer.src.drop s.writer.total)
      have hlt := occupancy_lt hop
      rw [pipeWrite_open h.id_lt hop _ hlen]
      dsimp only
      rw [if_neg (by omega)]
      split
      · refine hwr.moveWriter (by simp [Enqueued,hpc]) (by simp) fun _ => .inr ?_
        simp only [update_self]
        exact ⟨hop'.used,by omega⟩
      · exact hwr.moveWriter (by simp [Enqueued,hpc]) (by simp [hpc]) (by simp [hpc,Pc.inWindow])
    · rw [pipeWrite_unused hp.unused hlen]
      exact h.moveWriter hfr (by simp) (by simp [Pc.inWindow])
  · rw [if_neg hmr]
    exact h.moveWriter hfr (by simp) (by simp [Pc.inWindow])

lemma Calm.readerEnqueue (h : Calm id s) (hpc : s.reader.pc = .enqueue) :
    Calm id (readerEnqueue id s) := by
  rcases h.phase with hp | hp
  · obtain ⟨buf,hop⟩ := hp.isOpen
    refine { h with phase := .inl ⟨?_,?_,?_,hp.nobody⟩ } <;>
      simp only [PipeBlocking.readerEnqueue,State.readerAt,update_self]
    · exact ⟨buf,{ hop with }⟩
    · exact (hpc ▸ hp.reader).enqueue
    · exact hp.writer
  · exact (hp.no_enqueue hpc).elim

lemma Calm.writerEnqueue (h : Calm id s) (hpc : s.writer.pc = .enqueue) :
    Calm id (writerEnqueue id s) := by
  rcases h.phase with hp | hp
  · obtain ⟨buf,hop⟩ := hp.isOpen
    refine { h with phase := .inl ⟨?_,?_,?_,hp.nobody⟩ } <;>
      simp only [PipeBlocking.writerEnqueue,State.writerAt,update_self]
    · exact ⟨buf,{ hop with }⟩
    · exact hp.reader
    · exact (hpc ▸ hp.writer).enqueue
  · have hfl := hp.full (.inl (by rw [hpc]; rfl))
    have hrun : s.procs s.writer.pid ≠ .blocked := fun hb => by simpa [hpc] using hp.writer_state hb
    refine { h with
      phase := .inr ⟨?_,hp.reader_state,fun hb => (hrun hb).elim,hp.no_enqueue,hp.due,?_⟩ } <;>
      simp only [PipeBlocking.writerEnqueue,State.writerAt,update_self]
    · exact hp.unused
    · exact fun _ => hfl

lemma Calm.readerBlock (h : Calm id s) (hpc : s.reader.pc = .block) :
    Calm id { s.readerAt .asleep with procs := update s.procs s.reader.pid .blocked } := by
  have hot : update s.procs s.reader.pid .blocked s.writer.pid = s.procs s.writer.pid :=
    update_of_ne h.pids_ne.symm _ _
  refine { h with phase := h.phase.imp (fun hp => ?_) fun hp => ?_ }
  · exact ⟨hp.isOpen,(hpc ▸ hp.reader).block,hp.writer.frame hot,hp.nobody⟩
  · refine ⟨hp.unused,fun _ => rfl,fun hb => hp.writer_state (hot ▸ hb),Pc.noConfusion,
      fun _ => hp.due (.inl hpc),fun hw => hp.full (hw.imp_right fun hb => ⟨hb.1,?_⟩)⟩
    exact hot ▸ hb.2

lemma Calm.writerBlock (h : Calm id s) (hpc : s.writer.pc = .block) :
    Calm id { s.writerAt .asleep with procs := update s.procs s.writer.pid .blocked } := by
  have hot : update s.procs s.writer.pid .blocked s.reader.pid = s.procs s.reader.pid :=
    update_of_ne h.pids_ne _ _
  refine { h with phase := h.phase.imp (fun hp => ?_) fun hp => ?_ }
  · exact ⟨hp.isOpen,hp.reader.frame hot,(hpc ▸ hp.writer).block,hp.nobody⟩
  · refine ⟨hp.unused,fun hb => hp.reader_state (hot ▸ hb),fun _ => rfl,hp.no_enqueue,
      fun hl => hp.due (hl.imp_right fun hb => ⟨hb.1,?_⟩),
      fun _ => hp.full (.inl (by rw [hpc]; rfl))⟩
    exact hot ▸ hb.2

lemma Calm.readerStep (h : Calm id s)
    (hok : OutsideWindow id s .reader) (hst : readerStep id s = some t) : Calm id t := by
  unfold PipeBlocking.readerStep at hst
  split at hst
  · rename_i hpc
    cases hst
    exact h.readerTransfer hpc (hok hpc)
  · rename_i hpc
    have hfr : ¬ Enqueued s.procs s.reader.pid s.reader.pc := by simp [Enqueued,hpc]
    split at hst
    · cases hst
      exact h.moveReader hfr (by simp) (by simp [Pc.inWindow])
    · rename_i hus
      cases hst
      refine h.moveReader hfr (by simp) fun _ => ?_
      rcases h.phase with hp | hp
      · exact ⟨hp.not_unused,hp.reader.idle (.inl (by rw [hpc]; rfl))⟩
      · simp [hp.unused] at hus
  · rename_i hpc
    cases hst
    exact h.readerEnqueue hpc
  · rename_i hpc
    cases hst
    exact h.readerBlock hpc
  · rename_i hpc
    split_ifs at hst with hrun
    cases hst
    exact h.moveReader (by simp [Enqueued,hpc,hrun]) (by simp) (by simp [Pc.inWindow])
  · cases hst

lemma Calm.writerStep (h : Calm id s)
    (hok : OutsideWindow id s .writer) (hst : writerStep id s = some t) : Calm id t := by
  unfold PipeBlocking.writerStep at hst
  split at hst
  · rename_i hpc
    cases hst
    exact h.writerTransfer hpc (hok hpc)
  · rename_i hpc
    have hfr : ¬ Enqueued s.procs s.writer.pid s.writer.pc := by simp [Enqueued,hpc]
    split at hst
    · cases hst
      exact h.moveWriter hfr (by simp) (by simp [Pc.inWindow])
    · cases hst
      exact h.moveWriter hfr (by simp) fun _ => .inl (.inl (by rw [hpc]; rfl))
  · rename_i hpc
    cases hst
    exact h.writerEnqueue hpc
  · rename_i hpc
    cases hst
    exact h.writerBlock hpc
  · rename_i hpc
    split_ifs at hst with hrun
    cases hst
    exact h.moveWriter (by simp [Enqueued,hpc,hrun]) (by simp) (by simp [Pc.inWindow])
  · cases hst

lemma Calm.readerCall (h : Calm id s) (hst : readerCall id s len = some t) : Calm id t := by
  unfold PipeBlocking.readerCall at hst
  split at hst
  · rename_i rc hpc
    cases hst
    refine h.moveReader (by simp [Enqueued,hpc]) ?_ ?_ <;> split <;> simp [Pc.inWindow]
  · cases hst

lemma Calm.writerCall (h : Calm id s) (hst : writerCall id s src = some t) : Calm id t := by
  unfold PipeBlocking.writerCall at hst
  split at hst
  · rename_i rc hpc
    cases hst
    refine h.moveWriter (by simp [Enqueued,hpc]) ?_ ?_ <;> split <;> simp [Pc.inWindow]
  · cases hst

lemma mem_closeWakes (h : Listed p.readWaiters p.readWaitCount pid b) (hb : b) (hpid : pid ≠ 0) :
    pid ∈ p.closeWakes := by
  obtain ⟨hl,hn⟩ := h.1 hb
  simp [Pipe.closeWakes,hl,hn,hpid]

lemma close_open (h : p.Open buf) : p.close.used = false ∧ p.close.size = p.size ∧
    p.close.head = p.head ∧ p.close.tail = p.tail := by
  simp [Pipe.close,h.readers,h.writers]

lemma Calm.close (h : Calm id s) (hok : OutsideWindow id s .close)
    (hst : closeStep id s = some t) : Calm id t := by
  unfold closeStep at hst
  rcases h.phase with hp | hp
  · obtain ⟨buf,hop⟩ := hp.isOpen
    obtain ⟨hus,hsz,hhd,htl⟩ := close_open hop
    rw [if_pos hop.used] at hst
    cases hst
    obtain ⟨henq,hzr⟩ := hok
    refine { h with
      phase := .inr ⟨?_,hp.reader.state,hp.writer.state,henq,fun hl => ?_,fun hw => ?_⟩ }
    · simpa using hus
    · refine mem_closeWakes hp.reader.listed hl fun hpid => ?_
      rcases hl with hb | hb
      · exact (hzr hpid).1 hb
      · exact (hzr hpid).2 hb
    · simpa [hhd,htl,hsz] using hp.full hw
  · simp only [hp.unused,Bool.false_eq_true,if_false] at hst
    cases hst
    exact h

lemma wakeState_blocked (h : wakeState procs pid q = .blocked) : procs q = .blocked ∧
    (q < maxProcesses → q ≠ pid) := by
  have hall := wakeAll_blocked (show wakeAll procs [pid] q = .blocked from h)
  simpa using hall

lemma Calm.wakeNext (h : Calm id s)
    (hok : OutsideWindow id s .wakeNext) (hst : wakeNext s = some t) : Calm id t := by
  unfold PipeBlocking.wakeNext at hst
  split at hst
  · cases hst
  rename_i pid rest hwk
  cases hst
  rcases h.phase with hp | hp
  · simp [hp.nobody] at hwk
  have hbl : ∀ q, wakeState s.procs pid q = .blocked → s.procs q = .blocked :=
    fun q hb => (wakeState_blocked hb).1
  refine { h with phase := .inr ⟨hp.unused,fun hb => hp.reader_state (hbl _ hb),
    fun hb => hp.writer_state (hbl _ hb),hp.no_enqueue,fun hl => ?_,
    fun hw => hp.full (hw.imp_right fun hb => ⟨hb.1,hbl _ hb.2⟩)⟩ }
  have hdue := hp.due (hl.imp_right fun hb => ⟨hb.1,hbl _ hb.2⟩)
  rw [hwk] at hdue
  rcases List.mem_cons.mp hdue with hpid | hrs
  · rcases hl with hb | hb
    · exact (hok (by rw [hwk,hpid]; rfl) hb).elim
    · exact ((wakeState_blocked hb.2).2 h.reader_lt hpid).elim
  · exact hrs

lemma Calm.step {a : Action} (h : Calm id s)
    (hok : OutsideWindow id s a) (hst : act id s a = some t) : Calm id t := by
  cases a with
  | readerCall len => exact h.readerCall hst
  | writerCall src => exact h.writerCall hst
  | reader => exact h.readerStep hok hst
  | writer => exact h.writerStep hok hst
  | close => exact h.close hok hst
  | wakeNext => exact h.wakeNext hok hst

/-- In a run whose steps all stay outside the other party's window no wake-up is lost. -/
theorem no_lost_wakeup_outside_window (id : ℕ) (s : State)
    (h : Reach ((pipeUsers id).guarded (OutsideWindow id)) s) : NoLostWakeup id s := by
  have hcl : Calm id s := by
    refine h.invariant (Calm id) (fun _ hs => .start hs) ?_
    rintro s a t hs ⟨hst,hok⟩
    exact hs.step hok hst
  exact hcl.noLostWakeup

/-- Process 1 reads and process 2 writes the first pipe. -/
def idleUsers : State where
  table := update pipeInit 0 (freshPipe fun _ => 0)
  procs := fun _ => .running
  reader := ⟨1,0,0,.returned 0⟩
  writer := ⟨2,[],0,.returned 0⟩
  toWake := []

lemma idleUsers_start : Start 0 idleUsers where
  pipe := ⟨fun _ => 0,rfl⟩
  id_lt := by decide
  reader_lt := by decide
  writer_lt := by decide
  pids_ne := by decide
  reader_idle := ⟨0,rfl⟩
  writer_idle := ⟨0,rfl⟩
  reader_runs := by decide
  writer_runs := by decide
  nobody := rfl

theorem no_lost_wakeup_read_first :
    ∃ s t, Trace ((pipeUsers 0).guarded (OutsideWindow 0))
        [.readerCall 1,.reader,.reader,.reader,.reader] s ∧ s.readerBlocked ∧ NoLostWakeup 0 s ∧
      Trace ((pipeUsers 0).guarded (OutsideWindow 0))
        [.readerCall 1,.reader,.reader,.reader,.reader,.writerCall [7],.writer] t ∧
      t.procs 1 = .ready ∧ NoLostWakeup 0 t := by
  have hrun : Trace ((pipeUsers 0).guarded (OutsideWindow 0))
      [.readerCall 1,.reader,.reader,.reader,.reader] _ := trace_of_actions idleUsers_start
    ⟨trivial,fun _ _ _ => rfl,fun _ _ _ => rfl,fun _ _ _ => rfl,fun _ _ _ => rfl,rfl⟩
  have hrun' := trace_actions hrun [.writerCall [7],.writer] ⟨trivial,fun _ _ _ => rfl,rfl⟩
  exact ⟨_,_,hrun,⟨rfl,rfl⟩,no_lost_wakeup_outside_window 0 _ hrun.reach,hrun',rfl,
    no_lost_wakeup_outside_window 0 _ hrun'.reach⟩

/-- The writer stores its byte while the reader is between its empty read and its
enqueuing; the reader then blocks with a byte in the ring and nobody left to wake it. -/
theorem reader_blocked_on_stored_byte :
    ∃ s, Reach (pipeUsers 0) s ∧ s.readerBlocked ∧ s.writer.pc = .returned 1 ∧
      (s.table 0).head ≠ (s.table 0).tail ∧ s.toWake = [] ∧ ¬ NoLostWakeup 0 s := by
  have hrun : Trace ((pipeUsers 0).guarded fun _ _ => True)
      [.readerCall 1,.reader,.writerCall [7],.writer,.writer,.reader,.reader,.reader] _ :=
    trace_of_actions idleUsers_start
      ⟨trivial,trivial,trivial,trivial,trivial,trivial,trivial,trivial,rfl⟩
  rw [System.guarded_true] at hrun
  have hne : (0 : ℕ) ≠ 1 := by decide
  refine ⟨_,hrun.reach,⟨rfl,rfl⟩,rfl,hne,rfl,fun hno => ?_⟩
  exact List.not_mem_nil (hno.1 ⟨rfl,rfl⟩ (.inl hne))

end HarlinKernel.PipeBlocking
