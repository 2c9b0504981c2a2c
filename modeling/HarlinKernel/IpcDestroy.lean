import HarlinKernel.IpcWaits

/-! What a process does that waited at a queue or semaphore when it was destroyed. A history
variable numbers the lives of each slot: `now` changes when the object is created and when it is
destroyed, and `entered` is the number a process found when it made its call. -/
namespace HarlinKernel.Ipc

open TransitionSystem MessageQueue WaitLists

def Wait.object (w : Wait) : Object := w.list.object

structure Lives where
  now : Object → ℕ
  entered : ℕ → ℕ

def Lives.bump (h : Lives) (o : Object) : Lives :=
  { h with now := Function.update h.now o (h.now o+1) }

/-- A call that passes its checks remembers which life of its object it found. -/
def Lives.enter (h : Lives) (pid : ℕ) : Option Wait → Lives
  | some w => { h with entered := Function.update h.entered pid (h.now w.object) }
  | none => h

def recordLives (s : State) (a : Action) (r : Reply) (_ : State) (h : Lives) : Lives :=
  match a,r with
  | .call _ .msgCreate,.created (some qid) => h.bump (.queue qid)
  | .call _ (.semCreate _),.created (some sid) => h.bump (.sem sid)
  | .call _ (.msgDestroy qid),.outcome .sent => h.bump (.queue qid.toNat)
  | .call _ (.semDestroy sid),.outcome .sent => h.bump (.sem sid.toNat)
  | .call pid c,_ => h.enter pid (loopOf s c)
  | .resume _,_ => h

def livesRuns : System (State × Lives) (Action × Reply) :=
  replies (fun x => started x.1) (recording act recordLives)

/-- The object the process waits at was destroyed since the process made its call. -/
def Orphan (x : State × Lives) (pid : ℕ) (w : Wait) : Prop := x.2.entered pid ≠ x.2.now w.object

/-- There is nothing to take, or no room, and the waiter array is full. -/
def Refused (s : State) : Wait → Prop
  | .send qid _ _ =>
    ipcMaxMsgPerQueue ≤ (s.queues qid).count ∧ 16 ≤ (s.queues qid).blockedSenders.length
  | .recv qid _ expected =>
    findMessage (s.queues qid) expected = none ∧ 16 ≤ (s.queues qid).blockedReceivers.length
  | .sem sid => (s.sems sid).count ≤ 0 ∧ 16 ≤ (s.sems sid).blockedProcs.length

/-- The process that goes on with a step, with the loop it goes on with. -/
def Action.resumed (a : Action) (s : State) : Option (ℕ × Wait) :=
  match a with
  | .resume pid =>
    match s.procs pid with
    | .woken w => some (pid,w)
    | _ => none
  | _ => none

/-- A process that goes on although its object was destroyed finds a full array. -/
def OrphansRefused (x : State × Lives) (a : Action × Reply) : Prop :=
  ∀ y ∈ a.1.resumed x.1, Orphan x y.1 y.2 → Refused x.1 y.2

instance (s : State) : (w : Wait) → Decidable (Refused s w)
  | .send _ _ _ => inferInstanceAs (Decidable (_ ∧ _))
  | .recv _ _ _ => inferInstanceAs (Decidable (_ ∧ _))
  | .sem _ => inferInstanceAs (Decidable (_ ∧ _))

instance (x : State × Lives) (a : Action × Reply) : Decidable (OrphansRefused x a) :=
  inferInstanceAs (Decidable (∀ y ∈ a.1.resumed x.1, x.2.entered y.1 ≠ x.2.now y.2.object → _))

/-- The process returns -1, and no message or counter changes. -/
structure Leaves (s : State) (pid : ℕ) (w : Wait) : Prop where
  failed : (goOn s pid w).1 = .failed
  free : (goOn s pid w).2.procs pid = .free
  queues : ∀ i, ((goOn s pid w).2.queues i).msgs = (s.queues i).msgs ∧
    ((goOn s pid w).2.queues i).head = (s.queues i).head ∧
    ((goOn s pid w).2.queues i).count = (s.queues i).count
  sems : ∀ i, ((goOn s pid w).2.sems i).count = (s.sems i).count

variable {s s' : State} {pid : ℕ} {w : Wait} {h : Lives} {a : Action}

lemma failed_iff_refused (s : State) (pid : ℕ) (w : Wait) :
    (goOn s pid w).1 = .failed ↔ Refused s w := by
  cases w with
  | send qid type data =>
    rw [goOn,sendBody]
    split_ifs <;> simp_all [Refused]
  | recv qid len expected =>
    rw [goOn,recvBody,Refused]
    cases findMessage (s.queues qid) expected with
    | some k => simp
    | none => by_cases hfl : 16 ≤ (s.queues qid).blockedReceivers.length <;> simp [hfl]
  | sem sid =>
    rw [goOn,waitBody]
    split_ifs <;> simp_all [Refused]

lemma Refused.leaves (hr : Refused s w) (pid : ℕ) : Leaves s pid w := by
  have hfl := (failed_iff_refused s pid w).mpr hr
  refine ⟨hfl,?_,?_,?_⟩
  · rw [goOn_procs_self,hfl]
    rfl
  · intro i
    by_cases hw : w.queue = some i
    · cases w with
      | send qid type data =>
        cases hw
        rw [goOn_send_queue,sendBody,if_pos hr.1,if_pos hr.2]
        exact ⟨rfl,rfl,rfl⟩
      | recv qid len expected =>
        cases hw
        rw [goOn_recv_queue,recvBody,hr.1]
        rw [if_pos hr.2]
        exact ⟨rfl,rfl,rfl⟩
      | sem sid => cases hw
    · rw [goOn_queues hw]
      exact ⟨rfl,rfl,rfl⟩
  · intro i
    cases w with
    | sem sid =>
      by_cases hi : i = sid
      · subst hi
        rw [goOn_wait_sem,waitBody,if_pos hr.1,if_pos hr.2]
      · rw [goOn]
        simp [hi]
    | _ => rfl

/-- Who sleeps is in the array of an object that was not destroyed since its call. -/
structure Attended (s : State) (h : Lives) : Prop where
  listed : Listed Wait.list (waits s)
  current : ∀ p w, s.procs p = .asleep w → h.entered p = h.now w.object
  older : ∀ p w, s.procs p = .asleep w ∨ s.procs p = .woken w → h.entered p ≤ h.now w.object
  live : ∀ p w, s.procs p = .asleep w ∨ s.procs p = .woken w → h.entered p = h.now w.object →
    Live s w.list

lemma bump_self (h : Lives) (o : Object) : (h.bump o).now o = h.now o+1 :=
  Function.update_self _ _ _

variable {o : Object} {p : ℕ} {c : Call} {r : Reply}

lemma bump_ne (h : Lives) {o' : Object} (hne : o' ≠ o) : (h.bump o).now o' = h.now o' :=
  Function.update_of_ne hne _ _

lemma le_bump (hle : h.entered p ≤ h.now w.object) :
    (h.bump o).entered p ≤ (h.bump o).now w.object := by
  by_cases hne : w.object = o
  · rw [hne] at hle ⊢
    rw [bump_self]
    exact hle.trans (Nat.le_succ _)
  · rwa [bump_ne h hne]

/-- Who made its call in the present life of an object after the bump did so at another object. -/
theorem ne_of_eq_bump (hle : h.entered p ≤ h.now w.object)
    (hen : (h.bump o).entered p = (h.bump o).now w.object) :
    w.object ≠ o ∧ h.entered p = h.now w.object := by
  have hne : w.object ≠ o := by
    rintro rfl
    rw [bump_self] at hen
    change h.entered p = _ at hen
    omega
  rw [bump_ne h hne] at hen
  exact ⟨hne,hen⟩

lemma listed_goOn (hls : Listed Wait.list (waits s)) (pid : ℕ) (w : Wait) :
    Listed Wait.list (waits (goOn s pid w).2) := by
  have hwk := (hls.leave pid).wake (wakes s w).1 (wakes s w).2
  rw [goOn_waits,turned]
  split_ifs with hbl
  · exact hwk.join pid w
  · exact hwk

lemma Attended.turn (hs : Attended s h) {h' : Lives} (hnow : h'.now = h.now)
    (hot : ∀ p, p ≠ pid → h'.entered p = h.entered p)
    (hbc : (goOn s pid w).1 = .blocked → h'.entered pid = h.now w.object ∧ Live s w.list) :
    Attended (goOn s pid w).2 h' := by
  -- the process itself waits afterwards only if it blocked
  have hsl : ∀ v, (goOn s pid w).2.procs pid = .asleep v ∨
      (goOn s pid w).2.procs pid = .woken v → v = w ∧ (goOn s pid w).1 = .blocked := by
    intro v hv
    rw [goOn_procs_self] at hv
    split_ifs at hv with hbl
    · simpa [hbl,eq_comm] using hv
    · simp at hv
  refine ⟨listed_goOn hs.listed pid w,?_,?_,?_⟩
  · intro p v hp
    rw [hnow]
    by_cases hne : p = pid
    · subst hne
      obtain ⟨rfl,hbl⟩ := hsl v (.inl hp)
      exact (hbc hbl).1
    · rw [hot p hne]
      exact hs.current p v (goOn_asleep hne hp).1
  · intro p v hp
    rw [hnow]
    by_cases hne : p = pid
    · subst hne
      obtain ⟨rfl,hbl⟩ := hsl v hp
      exact (hbc hbl).1.le
    · rw [hot p hne]
      exact hs.older p v (goOn_waiting hne hp)
  · intro p v hp hen
    rw [goOn_live]
    by_cases hne : p = pid
    · subst hne
      obtain ⟨rfl,hbl⟩ := hsl v hp
      exact (hbc hbl).2
    · rw [hot p hne,hnow] at hen
      exact hs.live p v (goOn_waiting hne hp) hen

lemma Attended.destroyed (hs : Attended s h) {ps : List ℕ}
    (hpr : ∀ p, s'.procs p = if p ∈ ps then (s.procs p).wake else s.procs p)
    (hls : (waits s').lists = (waits s).lists)
    (hwk : ∀ w : Wait, w.object = o → ∀ p ∈ (waits s).lists w.list, p ∈ ps)
    (hlv : ∀ w : Wait, w.object ≠ o → Live s w.list → Live s' w.list) :
    Attended s' (h.bump o) := by
  have has : ∀ p w, s'.procs p = .asleep w → s.procs p = .asleep w ∧ p ∉ ps := by
    intro p w hp
    rw [hpr] at hp
    split_ifs at hp with hmem
    · exact absurd hp (Proc.wake_ne_asleep _ _)
    · exact ⟨hp,hmem⟩
  have hwt : ∀ p w, s'.procs p = .asleep w ∨ s'.procs p = .woken w →
      s.procs p = .asleep w ∨ s.procs p = .woken w := by
    intro p w hp
    rw [hpr] at hp
    split_ifs at hp
    · exact Proc.of_wake hp
    · exact hp
  refine ⟨?_,?_,?_,?_⟩
  · intro p w hp
    rw [hls]
    exact hs.listed p w (has p w hp).1
  · intro p w hp
    obtain ⟨hp,hnot⟩ := has p w hp
    have hne : w.object ≠ o := fun heq => hnot (hwk w heq p (hs.listed p w hp))
    rw [bump_ne h hne]
    exact hs.current p w hp
  · intro p w hp
    exact le_bump (hs.older p w (hwt p w hp))
  · intro p w hp hen
    obtain ⟨hne,hen⟩ := ne_of_eq_bump (hs.older p w (hwt p w hp)) hen
    exact hlv w hne (hs.live p w (hwt p w hp) hen)

lemma Attended.renewed (hs : Attended s h) (hnew : Renewed s s' o) : Attended s' (h.bump o) := by
  have hot : ∀ p w, s.procs p = .asleep w → w.object ≠ o := by
    intro p w hp heq
    exact hnew.dead heq (hs.live p w (.inl hp) (hs.current p w hp))
  refine ⟨?_,?_,?_,?_⟩
  · intro p w hp
    have hp : s.procs p = .asleep w := by rwa [← hnew.1]
    rw [(hnew.other (hot p w hp)).1]
    exact hs.listed p w hp
  · intro p w hp
    rw [hnew.1] at hp
    rw [bump_ne h (hot p w hp)]
    exact hs.current p w hp
  · intro p w hp
    rw [hnew.1] at hp
    exact le_bump (hs.older p w hp)
  · intro p w hp hen
    rw [hnew.1] at hp
    obtain ⟨hne,hen⟩ := ne_of_eq_bump (hs.older p w hp) hen
    exact (hnew.other hne).2.mpr (hs.live p w hp hen)

lemma recordLives_call {o : Outcome} (hlp : loopOf s c = some w) :
    recordLives s (.call pid c) (.outcome o) s' h = h.enter pid (some w) := by
  rw [← hlp]
  cases loopOf_loops hlp <;> rfl

lemma recordLives_nothing (hlp : loopOf s c = none)
    (hr : r = .created none ∨ r = .outcome .failed) : recordLives s (.call pid c) r s' h = h := by
  have hen : h.enter pid (loopOf s c) = h := by
    rw [hlp]
    rfl
  obtain rfl | rfl := hr <;> cases c <;> exact hen

lemma Attended.ran (hs : Attended s h) (hrun : Runs s a pid w)
    (hrf : OrphansRefused (s,h) (a,.outcome (goOn s pid w).1)) :
    Attended (goOn s pid w).2 (recordLives s a (.outcome (goOn s pid w).1) (goOn s pid w).2 h) := by
  cases hrun with
  | @call pid c w hpid hfr hlp =>
    rw [recordLives_call hlp]
    have hot : ∀ p, p ≠ pid → (h.enter pid (some w)).entered p = h.entered p :=
      fun p hne => Function.update_of_ne hne _ _
    refine hs.turn rfl hot fun _ => ?_
    exact ⟨Function.update_self _ _ _,loopOf_live hlp⟩
  | resume hw =>
    refine hs.turn rfl (fun _ _ => rfl) fun hbl => ?_
    by_cases hor : h.entered pid = h.now w.object
    · exact ⟨hor,hs.live pid w (.inr hw) hor⟩
    · have hfl := (failed_iff_refused s pid w).mpr (hrf (pid,w) (by simp [Action.resumed,hw]) hor)
      rw [hfl] at hbl
      cases hbl

lemma Attended.withoutQueue (hs : Attended s h) (qid : ℕ) :
    Attended (withoutQueue s qid) (h.bump (.queue qid)) := by
  refine hs.destroyed (fun p => foldl_wakeOne _ _ p) ?_ ?_ ?_
  · funext l
    cases l with
    | sem i => rfl
    | senders i | receivers i =>
      by_cases hi : i = qid
      · subst hi
        simp [waits,Ipc.withoutQueue]
      · simp [waits,Ipc.withoutQueue,hi]
  · intro w hw p hp
    cases w with
    | sem i => cases hw
    | send i type data =>
      obtain rfl := Object.queue.inj hw
      exact List.mem_append_left _ hp
    | recv i len expected =>
      obtain rfl := Object.queue.inj hw
      exact List.mem_append_right _ hp
  · intro w hw hlv
    cases w with
    | sem i => exact hlv
    | send i type data | recv i len expected =>
      have hi : i ≠ qid := fun heq => hw (congrArg Object.queue heq)
      simpa [Live,Wait.list,Ipc.withoutQueue,hi] using hlv

lemma Attended.withoutSem (hs : Attended s h) (sid : ℕ) :
    Attended (withoutSem s sid) (h.bump (.sem sid)) := by
  refine hs.destroyed (fun p => foldl_wakeOne _ _ p) ?_ ?_ ?_
  · funext l
    cases l with
    | sem i =>
      by_cases hi : i = sid
      · subst hi
        simp [waits,Ipc.withoutSem]
      · simp [waits,Ipc.withoutSem,hi]
    | _ => rfl
  · intro w hw p hp
    cases w with
    | sem i =>
      obtain rfl := Object.sem.inj hw
      exact hp
    | _ => cases hw
  · intro w hw hlv
    cases w with
    | sem i =>
      have hi : i ≠ sid := fun heq => hw (congrArg Object.sem heq)
      simpa [Live,Wait.list,Ipc.withoutSem,hi] using hlv
    | _ => exact hlv

lemma Attended.posted (hs : Attended s h) (sid : ℕ) : Attended (posted s sid) h := by
  have hwt : ∀ p w, (Ipc.posted s sid).procs p = .asleep w ∨
      (Ipc.posted s sid).procs p = .woken w → s.procs p = .asleep w ∨ s.procs p = .woken w := by
    intro p w hp
    rw [posted_procs] at hp
    split_ifs at hp
    · exact Proc.of_wake hp
    · exact hp
  refine ⟨?_,?_,?_,?_⟩
  · rw [posted_waits]
    exact hs.listed.wake _ _
  · intro p w hp
    rw [posted_procs] at hp
    split_ifs at hp
    · exact absurd hp (Proc.wake_ne_asleep _ _)
    · exact hs.current p w hp
  · intro p w hp
    exact hs.older p w (hwt p w hp)
  · intro p w hp hen
    rw [posted_live]
    exact hs.live p w (hwt p w hp) hen

lemma Attended.step (hs : Attended s h) (hact : act s a = some (r,s'))
    (hrf : OrphansRefused (s,h) (a,r)) : Attended s' (recordLives s a r s' h) := by
  cases act_effect hact with
  | nothing hlp hr =>
    rw [recordLives_nothing hlp hr]
    exact hs
  | ran hrun => exact hs.ran hrun hrf
  | createdQueue hcr => exact hs.renewed (renewed_queue hcr)
  | createdSem hcr => exact hs.renewed (renewed_sem hcr)
  | destroyedQueue => exact hs.withoutQueue _
  | destroyedSem => exact hs.withoutSem _
  | posted => exact hs.posted _

lemma started.attended (hs : started s) (h : Lives) : Attended s h := by
  refine ⟨?_,?_,?_,?_⟩
  · intro p w hp
    simp [waits,hs.free] at hp
  · intro p w hp
    simp [hs.free] at hp
  · intro p w hp
    simp [hs.free] at hp
  · intro p w hp
    simp [hs.free] at hp

def blankLives : State × Lives := (blankIpc,⟨fun _ => 0,fun _ => 0⟩)

lemma blankLives_init : livesRuns.init blankLives := blankIpc_started

end HarlinKernel.Ipc
