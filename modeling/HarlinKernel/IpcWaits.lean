import HarlinKernel.Ipc

/-! The waiter arrays of the queues and semaphores as lists of sleeping processes. -/
namespace HarlinKernel.Ipc

open TransitionSystem MessageQueue WaitLists
open ProcessTable (maxProcesses)
open Function (update update_self update_of_ne)

/-- The arrays `blocked_senders`, `blocked_receivers` and `blocked_procs`. -/
inductive WaitList
  | senders (qid : ℕ)
  | receivers (qid : ℕ)
  | sem (sid : ℕ)
  deriving DecidableEq

def Wait.list : Wait → WaitList
  | .send qid _ _ => .senders qid
  | .recv qid _ _ => .receivers qid
  | .sem sid => .sem sid

/-- A queue or a semaphore. -/
inductive Object
  | queue (qid : ℕ)
  | sem (sid : ℕ)
  deriving DecidableEq

def WaitList.object : WaitList → Object
  | .senders qid => .queue qid
  | .receivers qid => .queue qid
  | .sem sid => .sem sid

def waits (s : State) : Waits ℕ Wait WaitList where
  procs := s.procs
  lists
    | .senders qid => (s.queues qid).blockedSenders
    | .receivers qid => (s.queues qid).blockedReceivers
    | .sem sid => (s.sems sid).blockedProcs

/-- The array belongs to a queue or semaphore that can be used. -/
def Live (s : State) : WaitList → Prop
  | .senders qid => qid < ipcMaxQueues ∧ (s.queues qid).used = true
  | .receivers qid => qid < ipcMaxQueues ∧ (s.queues qid).used = true
  | .sem sid => sid < ipcMaxSems ∧ (s.sems sid).used = true

/-- The array one turn of the loop wakes from, and how many it wakes. -/
def wakes (s : State) : Wait → WaitList × ℕ
  | .send qid _ _ =>
    (.receivers qid,if ipcMaxMsgPerQueue ≤ (s.queues qid).count then
      (s.queues qid).blockedReceivers.length else 1)
  | .recv qid _ expected =>
    (.senders qid,if (findMessage (s.queues qid) expected).isSome then 1 else 0)
  | .sem sid => (.sem sid,0)

/-- The waiters after one turn: the process runs, wakes others, and may go to sleep. -/
def turned (s : State) (pid : ℕ) (w : Wait) : Waits ℕ Wait WaitList :=
  let x := ((waits s).leave pid).wake (wakes s w).1 (wakes s w).2
  if (goOn s pid w).1 = .blocked then x.join Wait.list pid w else x

variable {s s' : State} {pid : ℕ} {w : Wait}

lemma goOn_procs (s : State) (pid : ℕ) (w : Wait) :
    (goOn s pid w).2.procs = (turned s pid w).procs := by
  have hpr : ∀ o,
      processesAfter s.procs pid w o (((waits s).lists (wakes s w).1).take (wakes s w).2) =
        (if o = .blocked then
            (((waits s).leave pid).wake (wakes s w).1 (wakes s w).2).join Wait.list pid w
          else ((waits s).leave pid).wake (wakes s w).1 (wakes s w).2).procs := by
    intro o
    rw [processesAfter]
    split_ifs <;> rfl
  rw [turned,← hpr]
  cases w with
  | send qid type data =>
    simp only [goOn,wakes,waits]
    congr 1
    rw [sendBody]
    split_ifs <;> simp
  | recv qid len expected =>
    simp only [goOn,wakes,waits]
    congr 1
    rw [recvBody]
    cases findMessage (s.queues qid) expected with
    | some k => simp
    | none => by_cases hfl : 16 ≤ (s.queues qid).blockedReceivers.length <;> simp [hfl]
  | sem sid => simp [goOn,wakes]

lemma sendBody_senders (q : IpcQueue) (pid type : ℕ) (data : List UInt8) :
    (sendBody q pid type data).2.2.blockedSenders = if (sendBody q pid type data).1 = .blocked then
    q.blockedSenders ++ [pid] else q.blockedSenders := by
  rw [sendBody]
  split_ifs <;> simp_all

lemma sendBody_receivers (q : IpcQueue) (pid type : ℕ) (data : List UInt8) :
    (sendBody q pid type data).2.2.blockedReceivers =
      q.blockedReceivers.drop
        (if ipcMaxMsgPerQueue ≤ q.count then q.blockedReceivers.length else 1) := by
  rw [sendBody]
  split_ifs <;> simp

lemma recvBody_senders (q : IpcQueue) (pid len expected : ℕ) :
    (recvBody q pid len expected).2.2.blockedSenders =
      q.blockedSenders.drop (if (findMessage q expected).isSome then 1 else 0) := by
  rw [recvBody]
  cases findMessage q expected with
  | some k => simp
  | none => by_cases hfl : 16 ≤ q.blockedReceivers.length <;> simp [hfl]

lemma recvBody_receivers (q : IpcQueue) (pid len expected : ℕ) :
    (recvBody q pid len expected).2.2.blockedReceivers = if (recvBody q pid len expected).1 =
    .blocked then q.blockedReceivers ++ [pid] else q.blockedReceivers := by
  rw [recvBody]
  cases findMessage q expected with
  | some k => simp
  | none => by_cases hfl : 16 ≤ q.blockedReceivers.length <;> simp [hfl]

lemma waitBody_procs (q : IpcSemaphore) (pid : ℕ) :
    (waitBody q pid).2.blockedProcs =
      if (waitBody q pid).1 = .blocked then q.blockedProcs ++ [pid] else q.blockedProcs := by
  rw [waitBody]
  split_ifs <;> simp_all

lemma turned_lists (s : State) (pid : ℕ) (w : Wait) (l : WaitList) :
    (turned s pid w).lists l =
      if l = w.list then
        if (goOn s pid w).1 = .blocked then (waits s).lists l ++ [pid] else (waits s).lists l
      else if l = (wakes s w).1 then ((waits s).lists l).drop (wakes s w).2
      else (waits s).lists l := by
  have hown : (((waits s).leave pid).wake (wakes s w).1 (wakes s w).2).lists w.list =
      (waits s).lists w.list := by
    cases w <;> simp [wakes,Wait.list]
  rw [turned]
  by_cases hl : l = w.list
  · subst hl
    rw [if_pos rfl]
    split_ifs with hbl
    · simp [hown]
    · exact hown
  · split_ifs with hbl hwk <;> simp_all

lemma goOn_lists (s : State) (pid : ℕ) (w : Wait) :
    (waits (goOn s pid w).2).lists = (turned s pid w).lists := by
  funext l
  rw [turned_lists]
  cases w with
  | send qid type data =>
    have hsn := sendBody_senders (s.queues qid) pid type data
    have hrc := sendBody_receivers (s.queues qid) pid type data
    cases l with
    | senders i =>
      by_cases hi : i = qid
      · subst hi
        refine Eq.trans ?_ (if_pos rfl).symm
        exact (congrArg IpcQueue.blockedSenders (update_self i _ _)).trans hsn
      · simp [waits,wakes,Wait.list,goOn,hi]
    | receivers i =>
      by_cases hi : i = qid
      · subst hi
        simpa [waits,wakes,Wait.list,goOn] using hrc
      · simp [waits,wakes,Wait.list,goOn,hi]
    | sem i => simp [waits,wakes,Wait.list,goOn]
  | recv qid len expected =>
    have hsn := recvBody_senders (s.queues qid) pid len expected
    have hrc := recvBody_receivers (s.queues qid) pid len expected
    cases l with
    | senders i =>
      by_cases hi : i = qid
      · subst hi
        simpa [waits,wakes,Wait.list,goOn] using hsn
      · simp [waits,wakes,Wait.list,goOn,hi]
    | receivers i =>
      by_cases hi : i = qid
      · subst hi
        refine Eq.trans ?_ (if_pos rfl).symm
        exact (congrArg IpcQueue.blockedReceivers (update_self i _ _)).trans hrc
      · simp [waits,wakes,Wait.list,goOn,hi]
    | sem i => simp [waits,wakes,Wait.list,goOn]
  | sem sid =>
    have hbl := waitBody_procs (s.sems sid) pid
    cases l with
    | senders i => simp [waits,wakes,Wait.list,goOn]
    | receivers i => simp [waits,wakes,Wait.list,goOn]
    | sem i =>
      by_cases hi : i = sid
      · subst hi
        refine Eq.trans ?_ (if_pos rfl).symm
        exact (congrArg IpcSemaphore.blockedProcs (update_self i _ _)).trans hbl
      · simp [waits,wakes,Wait.list,goOn,hi]

lemma goOn_waits (s : State) (pid : ℕ) (w : Wait) : waits (goOn s pid w).2 = turned s pid w :=
  Waits.ext (goOn_procs s pid w) (goOn_lists s pid w)

lemma queueValid.live {qid : ℤ} (h : queueValid s.queues qid) :
    qid.toNat < ipcMaxQueues ∧ (s.queues qid.toNat).used = true := by
  rw [queueValid,not_or,not_or] at h
  obtain ⟨hneg,hid,hus⟩ := h
  exact ⟨by omega,by simpa using hus⟩

lemma semValid.live {sid : ℤ} (h : semValid s.sems sid) : Live s (.sem sid.toNat) := by
  rw [semValid,not_or,not_or] at h
  obtain ⟨hneg,hid,hus⟩ := h
  exact ⟨by omega,by simpa using hus⟩

lemma loopOf_live {c : Call} (h : loopOf s c = some w) : Live s w.list := by
  cases loopOf_loops h with
  | send hvl => exact hvl.live
  | recv hvl => exact hvl.live
  | wait hvl => exact hvl.live

lemma wakes_live (h : Live s w.list) : Live s (wakes s w).1 := by
  cases w <;> exact h

lemma sendBody_used (q : IpcQueue) (pid type : ℕ) (data : List UInt8) :
    (sendBody q pid type data).2.2.used = q.used := by
  rw [sendBody]
  split_ifs <;> rfl

lemma recvBody_used (q : IpcQueue) (pid len expected : ℕ) :
    (recvBody q pid len expected).2.2.used = q.used := by
  rw [recvBody]
  cases findMessage q expected with
  | some k => rfl
  | none => by_cases hfl : 16 ≤ q.blockedReceivers.length <;> simp [hfl]

lemma waitBody_used (q : IpcSemaphore) (pid : ℕ) : (waitBody q pid).2.used = q.used := by
  rw [waitBody]
  split_ifs <;> rfl

lemma live_congr (hqs : ∀ i, (s'.queues i).used = (s.queues i).used)
    (hsm : ∀ i, (s'.sems i).used = (s.sems i).used) : Live s' = Live s := by
  funext l
  cases l <;> simp [Live,hqs,hsm]

variable {t queues : Table} {qid sid p : ℕ} {v : Wait} {a : Action} {sems : SemTable} {initial : ℤ}
  {o : Object} {l : WaitList}

lemma used_update {q : IpcQueue} (h : q.used = (t qid).used) (i : ℕ) :
    (update t qid q i).used = (t i).used := by
  by_cases hi : i = qid
  · subst hi
    rw [update_self,h]
  · rw [update_of_ne hi]

lemma semUsed_update {t : SemTable} {q : IpcSemaphore} (h : q.used = (t sid).used)
    (i : ℕ) : (update t sid q i).used = (t i).used := by
  by_cases hi : i = sid
  · subst hi
    rw [update_self,h]
  · rw [update_of_ne hi]

lemma goOn_live (s : State) (pid : ℕ) (w : Wait) : Live (goOn s pid w).2 = Live s := by
  cases w with
  | send qid type data => exact live_congr (used_update (sendBody_used _ _ _ _)) fun _ => rfl
  | recv qid len expected => exact live_congr (used_update (recvBody_used _ _ _ _)) fun _ => rfl
  | sem sid => exact live_congr (fun _ => rfl) (semUsed_update (waitBody_used _ _))

lemma woken_free (s : State) (pid : ℕ) (w : Wait) :
    (((waits s).leave pid).wake (wakes s w).1 (wakes s w).2).procs pid = .free := by
  rw [Waits.wake_procs]
  simp [Waits.leave_procs,Proc.wake]

lemma goOn_procs_self (s : State) (pid : ℕ) (w : Wait) :
    (goOn s pid w).2.procs pid = if (goOn s pid w).1 = .blocked then .asleep w else .free := by
  rw [goOn_procs,turned]
  split_ifs with hbl
  · rw [Waits.join_procs,update_self]
  · exact woken_free s pid w

lemma goOn_procs_ne (hp : p ≠ pid) :
    (goOn s pid w).2.procs p = if p ∈ ((waits s).lists (wakes s w).1).take (wakes s w).2 then
      (s.procs p).wake else s.procs p := by
  have hwk : (((waits s).leave pid).wake (wakes s w).1 (wakes s w).2).procs p =
      if p ∈ ((waits s).lists (wakes s w).1).take (wakes s w).2 then (s.procs p).wake
      else s.procs p := by
    rw [Waits.wake_procs,Waits.leave_lists,Waits.leave_procs,update_of_ne hp]
    rfl
  rw [goOn_procs,turned,← hwk]
  by_cases hbl : (goOn s pid w).1 = .blocked
  · rw [if_pos hbl,Waits.join_procs,update_of_ne hp]
  · rw [if_neg hbl]

/-- The queue a process waits at. -/
def Wait.queue : Wait → Option ℕ
  | .send qid _ _ => some qid
  | .recv qid _ _ => some qid
  | .sem _ => none

lemma goOn_queues (hw : w.queue ≠ some qid) : (goOn s pid w).2.queues qid = s.queues qid := by
  cases w with
  | send i type data =>
    have hi : qid ≠ i := by
      rintro rfl
      exact hw rfl
    exact update_of_ne hi _ _
  | recv i len expected =>
    have hi : qid ≠ i := by
      rintro rfl
      exact hw rfl
    exact update_of_ne hi _ _
  | sem sid => rfl

lemma goOn_send_queue (s : State) (pid qid type : ℕ) (data : List UInt8) :
    (goOn s pid (.send qid type data)).2.queues qid = (sendBody (s.queues qid) pid type data).2.2 :=
  update_self _ _ _

lemma goOn_recv_queue (s : State) (pid qid len expected : ℕ) :
    (goOn s pid (.recv qid len expected)).2.queues qid =
      (recvBody (s.queues qid) pid len expected).2.2 :=
  update_self _ _ _

lemma goOn_wait_sem (s : State) (pid sid : ℕ) :
    (goOn s pid (.sem sid)).2.sems sid = (waitBody (s.sems sid) pid).2 :=
  update_self _ _ _

lemma goOn_asleep (hne : p ≠ pid) (h : (goOn s pid w).2.procs p = .asleep v) :
    s.procs p = .asleep v ∧ p ∉ ((waits s).lists (wakes s w).1).take (wakes s w).2 := by
  rw [goOn_procs_ne hne] at h
  split_ifs at h with htk
  · exact absurd h (Proc.wake_ne_asleep _ _)
  · exact ⟨h,htk⟩

lemma goOn_waiting (hne : p ≠ pid)
    (hp : (goOn s pid w).2.procs p = .asleep v ∨ (goOn s pid w).2.procs p = .woken v) :
    s.procs p = .asleep v ∨ s.procs p = .woken v := by
  rw [goOn_procs_ne hne] at hp
  split_ifs at hp with htk
  · exact Proc.of_wake hp
  · exact hp

/-- The arrays in use hold exactly the processes that are asleep in them, each once. -/
def InOrder (s : State) : Prop := Queued Wait.list (Finset.range maxProcesses) (Live s) (waits s)

lemma Runs.ready (h : InOrder s) (hrun : Runs s a pid w) :
    pid ∈ Finset.range maxProcesses ∧ (∀ v, s.procs pid ≠ .asleep v) ∧ Live s w.list := by
  cases hrun with
  | call hpid hfr hlp =>
    exact ⟨Finset.mem_range.mpr hpid,fun v hv => by simp [hfr] at hv,loopOf_live hlp⟩
  | resume hw =>
    obtain ⟨hpid,hlv⟩ := h.waiting pid w (.inr hw)
    exact ⟨hpid,fun v hv => by simp [hw] at hv,hlv⟩

lemma InOrder.goOn (h : InOrder s) (hrun : Runs s a pid w) : InOrder (goOn s pid w).2 := by
  obtain ⟨hpid,haw,hlv⟩ := hrun.ready h
  have hwk : Queued Wait.list (Finset.range maxProcesses) (Live s)
      (((waits s).leave pid).wake (wakes s w).1 (wakes s w).2) :=
    (h.leave haw).wake (wakes_live hlv) _
  rw [InOrder,goOn_live,goOn_waits,turned]
  split_ifs with hbl
  · exact hwk.join (woken_free s pid w) hpid hlv
  · exact hwk

lemma harlinMsgCreate_some (h : harlinMsgCreate t = (some qid,queues)) :
    (qid < ipcMaxQueues ∧ (t qid).used = false) ∧
    queues = update t qid
      { t qid with
        used := true
        head := 0
        count := 0
        blockedSenders := []
        blockedReceivers := [] } := by
  rw [harlinMsgCreate] at h
  split at h
  · cases h
  · rename_i i hi
    obtain ⟨hid,rfl⟩ := Prod.mk.inj h
    cases hid
    have hfr := List.find?_some hi
    exact ⟨⟨List.mem_range.mp (List.mem_of_find?_eq_some hi),by simpa using hfr⟩,rfl⟩

lemma harlinSemCreate_some {t : SemTable} (h : harlinSemCreate t initial = (some sid,sems)) :
    (sid < ipcMaxSems ∧ (t sid).used = false) ∧
    sems = update t sid ⟨true,if initial < 0 then 0 else initial,[]⟩ := by
  rw [harlinSemCreate] at h
  split at h
  · cases h
  · rename_i i hi
    obtain ⟨hid,rfl⟩ := Prod.mk.inj h
    cases hid
    have hfr := List.find?_some hi
    exact ⟨⟨List.mem_range.mp (List.mem_of_find?_eq_some hi),by simpa using hfr⟩,rfl⟩

/-- The object was not valid before and has no waiters now; the rest is as it was. -/
def Renewed (s s' : State) (o : Object) : Prop :=
  s'.procs = s.procs ∧ ∀ l, if l.object = o then ¬ Live s l ∧ (waits s').lists l = []
    else (waits s').lists l = (waits s).lists l ∧ (Live s' l ↔ Live s l)

lemma renewed_queue (hcr : harlinMsgCreate s.queues = (some qid,queues)) :
    Renewed s { s with queues := queues } (.queue qid) := by
  obtain ⟨⟨-,hun⟩,rfl⟩ := harlinMsgCreate_some hcr
  refine ⟨rfl,fun l => ?_⟩
  cases l with
  | sem i => simp [WaitList.object,waits,Live]
  | senders i | receivers i =>
    by_cases hi : i = qid
    · subst hi
      simp [WaitList.object,waits,Live,hun]
    · simp [WaitList.object,waits,Live,hi]

lemma renewed_sem (hcr : harlinSemCreate s.sems initial = (some sid,sems)) :
    Renewed s { s with sems := sems } (.sem sid) := by
  obtain ⟨⟨-,hun⟩,rfl⟩ := harlinSemCreate_some hcr
  refine ⟨rfl,fun l => ?_⟩
  cases l with
  | sem i =>
    by_cases hi : i = sid
    · subst hi
      simp [WaitList.object,waits,Live,hun]
    · simp [WaitList.object,waits,Live,hi]
  | _ => simp [WaitList.object,waits,Live]

lemma Renewed.dead (hnew : Renewed s s' o) (hl : l.object = o) : ¬ Live s l := by
  have hls := hnew.2 l
  rw [if_pos hl] at hls
  exact hls.1

lemma Renewed.other (hnew : Renewed s s' o) (hl : l.object ≠ o) :
    (waits s').lists l = (waits s).lists l ∧ (Live s' l ↔ Live s l) := by
  have hls := hnew.2 l
  rwa [if_neg hl] at hls

lemma InOrder.renewed (h : InOrder s) (hnew : Renewed s s' o) : InOrder s' := by
  have hot : ∀ l, Live s l → l.object ≠ o := fun l hl ho => hnew.dead ho hl
  refine Queued.created h hnew.1 ?_ ?_ ?_
  · intro l hl
    exact (hnew.other (hot l hl)).2.mpr hl
  · intro l hl
    exact (hnew.other (hot l hl)).1
  · intro l hl
    by_cases ho : l.object = o
    · have hls := hnew.2 l
      rw [if_pos ho] at hls
      exact .inr hls.2
    · exact .inl ((hnew.other ho).2.mp hl)

lemma posted_waits (s : State) (sid : ℕ) :
    waits (posted s sid) = (waits s).wake (.sem sid) 1 := by
  refine Waits.ext rfl (funext fun l => ?_)
  cases l with
  | sem i =>
    by_cases hi : i = sid
    · subst hi
      simp [waits,posted]
    · simp [waits,posted,hi]
  | _ => simp [waits,posted]

lemma posted_procs (s : State) (sid p : ℕ) : (posted s sid).procs p = if p ∈
    (s.sems sid).blockedProcs.take 1 then (s.procs p).wake else s.procs p :=
  foldl_wakeOne _ _ _

lemma posted_live (s : State) (sid : ℕ) : Live (posted s sid) = Live s :=
  live_congr (fun _ => rfl) (semUsed_update rfl)

def Action.destroys : Action → Bool
  | .call _ (.msgDestroy _) => true
  | .call _ (.semDestroy _) => true
  | _ => false

lemma InOrder.posted (h : InOrder s) (hlv : Live s (.sem sid)) : InOrder (posted s sid) := by
  rw [InOrder,posted_live,posted_waits]
  exact Queued.wake h hlv 1

lemma started.not_live (h : started s) (l : WaitList) : ¬ Live s l := by
  obtain ⟨queues,sems,rfl⟩ := h
  intro hl
  cases l with
  | sem i =>
    obtain ⟨hi,hus⟩ := hl
    simp [initSems] at hus
    omega
  | senders i | receivers i =>
    obtain ⟨hi,hus⟩ := hl
    simp [ipcInit] at hus
    omega

lemma started.free (h : started s) (p : ℕ) : s.procs p = .free := by
  obtain ⟨queues,sems,rfl⟩ := h
  rfl

lemma started.inOrder (h : started s) : InOrder s := by
  refine ⟨?_,fun l hl => absurd hl (h.not_live l),fun l hl => absurd hl (h.not_live l),?_⟩
  · intro p w hp
    simp [waits,h.free] at hp
  · intro p w hp
    simp [waits,h.free] at hp

/-- The number of processes that were woken out of the array and have not run yet. -/
def wokenIn (s : State) (l : WaitList) : ℕ :=
  wokenFrom Wait.list (Finset.range maxProcesses) s.procs l

lemma Runs.wokenFrom_le (hrun : Runs s a pid w) (l : WaitList) :
    (s.procs pid).wokenFrom Wait.list l ≤ if w.list = l then 1 else 0 := by
  cases hrun with
  | call hpid hfr hlp => simp [hfr]
  | resume hw => simp [hw]

lemma wokenIn_goOn (h : InOrder s) (hrun : Runs s a pid w) (l : WaitList) :
    wokenIn (goOn s pid w).2 l+(s.procs pid).wokenFrom Wait.list l = wokenIn s l+if (wakes s w).1 =
    l then min (wakes s w).2 ((waits s).lists (wakes s w).1).length else 0 := by
  obtain ⟨hpid,haw,hli⟩ := hrun.ready h
  have hlv := wokenFrom_leave Wait.list (waits s) hpid l
  have hwk := (h.leave haw).wokenFrom_wake (wakes_live hli) (wakes s w).2 l
  have htr : wokenFrom Wait.list (Finset.range maxProcesses) (turned s pid w).procs l =
      wokenFrom Wait.list (Finset.range maxProcesses)
        (((waits s).leave pid).wake (wakes s w).1 (wakes s w).2).procs l := by
    rw [turned]
    split_ifs with hbl
    · exact wokenFrom_join Wait.list (woken_free s pid w) hpid w l
    · rfl
  have hbf : (waits s).procs = s.procs := rfl
  rw [hbf] at hlv
  rw [wokenIn,goOn_procs,htr,hwk,wokenIn,Waits.leave_lists]
  omega

lemma wokenIn_posted (h : InOrder s) (hlv : Live s (.sem sid)) (l : WaitList) :
    wokenIn (posted s sid) l =
      wokenIn s l+if .sem sid = l then min 1 (s.sems sid).blockedProcs.length else 0 :=
  Queued.wokenFrom_wake h hlv 1 l

/-- A state in which nothing was created yet. -/
def blankIpc : State where
  queues _ := ⟨false,fun _ => noMessage,0,0,[],[]⟩
  sems _ := ⟨false,0,[]⟩
  procs _ := .free

lemma blankIpc_started : started blankIpc :=
  ⟨blankIpc.queues,blankIpc.sems,by
    simp only [blankIpc,State.mk.injEq,and_true]
    constructor
    · funext i
      simp [ipcInit]
    · funext i
      simp [initSems]⟩

end HarlinKernel.Ipc
