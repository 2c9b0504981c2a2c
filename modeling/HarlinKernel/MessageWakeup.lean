import HarlinKernel.IpcWaits

/-! Whether a receiver can sleep while a message for it is in the queue. A send wakes the oldest
receiver only, whatever type it waits for. -/
namespace HarlinKernel.Ipc

open TransitionSystem MessageQueue WaitLists RingBuffer
open ProcessTable (maxProcesses)

section Pending

variable {q : IpcQueue} {expected k : ℕ}

/-- The number of queued messages that a receiver would accept. -/
def pending (q : IpcQueue) (expected : ℕ) : ℕ :=
  (contents ipcMaxMsgPerQueue q.msgs q.head q.count).countP (accepts expected)

lemma findMessage_eq_none : findMessage q expected = none ↔ pending q expected = 0 := by
  rw [findMessage,pending,contents,List.countP_map,List.countP_eq_zero,List.find?_eq_none]
  rfl

lemma pending_compact (hfn : findMessage q expected = some k) (hcn : q.count ≤ ipcMaxMsgPerQueue)
    (senders : List ℕ) (t : ℕ) :
    pending { q with msgs := compact q k, count := q.count-1, blockedSenders := senders } t+
      (if accepts t (q.msgs ((q.head+k) % ipcMaxMsgPerQueue)) then 1 else 0) ≤ pending q t := by
  have hk : k < q.count := List.mem_range.mp (List.mem_of_find?_eq_some hfn)
  have hlen : k < (contents ipcMaxMsgPerQueue q.msgs q.head q.count).length := by simpa using hk
  have hget : (contents ipcMaxMsgPerQueue q.msgs q.head q.count)[k] =
      q.msgs ((q.head+k) % ipcMaxMsgPerQueue) := by simp [contents]
  obtain ⟨n,hn⟩ := Nat.exists_eq_succ_of_ne_zero (by omega : q.count ≠ 0)
  -- the marked slot no longer counts, and the first slot is dropped on top of that
  have hmr := List.countP_set (p:=accepts t)
    (a:={ q.msgs ((q.head+k) % ipcMaxMsgPerQueue) with valid := false }) hlen
  have hin : accepts t { q.msgs ((q.head+k) % ipcMaxMsgPerQueue) with valid := false } = false :=
    rfl
  rw [← contents_update q.msgs q.head hk hcn,hget,hin,hn,Nat.succ_eq_add_one,
    contents_succ_first,List.countP_cons] at hmr
  have htk : (if accepts t (q.msgs ((q.head+k) % ipcMaxMsgPerQueue)) then 1 else 0) ≤
      pending q t := by
    split_ifs with hac
    · refine List.countP_pos_iff.mpr ⟨_,List.getElem_mem hlen,?_⟩
      rwa [hget]
    · exact Nat.zero_le _
  rw [pending,compact_contents (by omega) hcn,show q.count-1 = n by omega]
  rw [pending,hn,Nat.succ_eq_add_one] at htk ⊢
  simp only [Bool.false_eq_true,if_false] at hmr
  dsimp only
  omega

lemma pending_waiting (hfn : findMessage q expected = none) (pid len t : ℕ) :
    pending (recvBody q pid len expected).2.2 t = pending q t := by
  rw [recvBody]
  by_cases hfl : 16 ≤ q.blockedReceivers.length <;> simp [hfn,hfl,pending]

end Pending

/-- The queue a process waits for a message of, and the type it waits for. -/
def receiving : Proc → Option (ℕ × ℕ)
  | .asleep (.recv qid _ expected) => some (qid,expected)
  | .woken (.recv qid _ expected) => some (qid,expected)
  | _ => none

lemma receiving_wake (p : Proc) : receiving p.wake = receiving p := by
  cases p with
  | asleep w => cases w <;> rfl
  | _ => rfl

/-- The queue and the type of a call of `Harlin_MsgRecv` that passes its checks. -/
def Action.receive (s : State) : Action → Option (ℕ × ℕ)
  | .call _ (.msgRecv qid present _ expected) =>
    if queueValid s.queues qid ∧ present = true then some (qid.toNat,expected) else none
  | _ => none

/-- A receive that finds no message finds all receivers that wait at the queue waiting for the
type it wants. -/
def SameType (s : State) (a : Action) : Prop :=
  ∀ r ∈ a.receive s, findMessage (s.queues r.1) r.2 = none →
    ∀ p < maxProcesses, ∀ x ∈ receiving (s.procs p), x.1 = r.1 → x.2 = r.2

instance (s : State) (a : Action) : Decidable (SameType s a) :=
  inferInstanceAs (Decidable (∀ r ∈ a.receive s, _))

def isWoken : Proc → Bool
  | .woken _ => true
  | _ => false

/-- All woken processes have run until they blocked or returned. -/
def Settled (s : State) : Prop := ∀ p < maxProcesses, isWoken (s.procs p) = false

instance (s : State) : Decidable (Settled s) := inferInstanceAs (Decidable (∀ p < maxProcesses, _))

/-- Waiting receivers of one queue want one type, and if one of them sleeps then there are no more
messages for them than receivers that were woken and have not looked yet. -/
structure Served (s : State) : Prop where
  inOrder : InOrder s
  bounded : ∀ qid, Live s (.receivers qid) → (s.queues qid).count ≤ ipcMaxMsgPerQueue
  uniform : ∀ p p' qid t t', receiving (s.procs p) = some (qid,t) →
    receiving (s.procs p') = some (qid,t') → t = t'
  covered : ∀ p qid len t, s.procs p = .asleep (.recv qid len t) →
    pending (s.queues qid) t ≤ wokenIn s (.receivers qid)

variable {q : IpcQueue} {qid len expected p t : ℕ}

section Turns

variable {s s' : State} {pid : ℕ} {w : Wait} {a : Action}

lemma sendBody_count (h : q.count ≤ ipcMaxMsgPerQueue) (pid type : ℕ)
    (data : List UInt8) : (sendBody q pid type data).2.2.count ≤ ipcMaxMsgPerQueue := by
  rw [sendBody]
  split_ifs with hfl hsn
  · exact h
  · exact h
  · exact Nat.not_le.mp hfl

lemma recvBody_count (h : q.count ≤ ipcMaxMsgPerQueue) (pid len expected : ℕ) :
    (recvBody q pid len expected).2.2.count ≤ ipcMaxMsgPerQueue := by
  rw [recvBody]
  cases findMessage q expected with
  | some k => exact (Nat.sub_le _ _).trans h
  | none => by_cases hfl : 16 ≤ q.blockedReceivers.length <;> simpa [hfl] using h

lemma goOn_count (h : (s.queues qid).count ≤ ipcMaxMsgPerQueue) :
    ((goOn s pid w).2.queues qid).count ≤ ipcMaxMsgPerQueue := by
  by_cases hw : w.queue = some qid
  · cases w with
    | send i type data =>
      cases hw
      rw [goOn_send_queue]
      exact sendBody_count h pid type data
    | recv i len expected =>
      cases hw
      rw [goOn_recv_queue]
      exact recvBody_count h pid len expected
    | sem sid => cases hw
  · rw [goOn_queues hw]
    exact h

lemma recv_blocked (h : (goOn s pid (.recv qid len expected)).1 = .blocked) :
    findMessage (s.queues qid) expected = none := by
  rw [goOn,recvBody] at h
  cases hfn : findMessage (s.queues qid) expected with
  | some k => simp [hfn] at h
  | none => rfl

lemma goOn_receiving (h : receiving ((goOn s pid w).2.procs p) = some (qid,t)) :
    receiving (s.procs p) = some (qid,t) ∨
      (goOn s pid w).1 = .blocked ∧ ∃ len, w = .recv qid len t := by
  by_cases hp : p = pid
  · subst hp
    rw [goOn_procs_self] at h
    split_ifs at h with hbl
    · refine .inr ⟨hbl,?_⟩
      cases w with
      | recv i len expected =>
        cases h
        exact ⟨len,rfl⟩
      | _ => cases h
    · cases h
  · rw [goOn_procs_ne hp] at h
    split_ifs at h with htk
    · rw [receiving_wake] at h
      exact .inl h
    · exact .inl h

/-- The process that runs may block only for the type the others wait for. -/
def Agrees (s : State) (w : Wait) : Prop :=
  ∀ qid len t, w = .recv qid len t → findMessage (s.queues qid) t = none →
    ∀ p t', receiving (s.procs p) = some (qid,t') → t' = t

lemma Served.agrees (h : Served s) (hrun : Runs s a pid w) (hsm : SameType s a) :
    Agrees s w := by
  intro qid len t hw hfn p t' hp
  subst hw
  cases hrun with
  | @call pid c w hpid hfr hlp =>
    have hlt : p < maxProcesses := by
      cases hpr : s.procs p with
      | free => simp [hpr,receiving] at hp
      | asleep v => exact Finset.mem_range.mp (h.inOrder.waiting p v (.inl hpr)).1
      | woken v => exact Finset.mem_range.mp (h.inOrder.waiting p v (.inr hpr)).1
    cases loopOf_loops hlp with
    | recv hqu => exact hsm _ (if_pos ⟨hqu,rfl⟩) hfn p hlt _ hp rfl
  | resume hw => exact h.uniform p pid qid t' t hp (by rw [hw]; rfl)

lemma Served.uniform_goOn (h : Served s) (hag : Agrees s w) {p' t' : ℕ}
    (hp : receiving ((goOn s pid w).2.procs p) = some (qid,t))
    (hp' : receiving ((goOn s pid w).2.procs p') = some (qid,t')) : t = t' := by
  obtain hold | ⟨hbl,len,hw⟩ := goOn_receiving hp <;>
    obtain hold' | ⟨hbl',len',hw'⟩ := goOn_receiving hp'
  · exact h.uniform p p' qid t t' hold hold'
  · subst hw'
    exact hag qid len' t' rfl (recv_blocked hbl') p t hold
  · subst hw
    exact (hag qid len t rfl (recv_blocked hbl) p' t' hold').symm
  · exact (Wait.recv.inj (hw.symm.trans hw')).2.2

/-- A send adds at most one message, and wakes a receiver if one sleeps. -/
theorem Served.covered_send (h : Served s) {type : ℕ} {data : List UInt8}
    (hrun : Runs s a pid (.send qid type data)) (hne : p ≠ pid)
    (hp : (goOn s pid (.send qid type data)).2.procs p = .asleep (.recv qid len t)) :
    pending ((goOn s pid (.send qid type data)).2.queues qid) t ≤
      wokenIn (goOn s pid (.send qid type data)).2 (.receivers qid) := by
  obtain ⟨has,hnot⟩ := goOn_asleep hne hp
  have hmem : p ∈ (s.queues qid).blockedReceivers := h.inOrder.listed p _ has
  have hcv := h.covered p qid len t has
  have hwk := wokenIn_goOn h.inOrder hrun (.receivers qid)
  have hle := hrun.wokenFrom_le (.receivers qid)
  rw [Wait.list,if_neg (by simp)] at hle
  by_cases hfl : ipcMaxMsgPerQueue ≤ (s.queues qid).count
  · -- a full queue wakes all receivers
    refine absurd hmem ?_
    simpa [wakes,hfl,waits] using hnot
  · have hpos : 0 < (s.queues qid).blockedReceivers.length := List.length_pos_of_mem hmem
    have hone : min 1 ((waits s).lists (.receivers qid)).length = 1 := Nat.min_eq_left hpos
    rw [wakes,if_pos rfl,if_neg hfl,hone] at hwk
    rw [goOn_send_queue,sendBody,if_neg hfl,pending]
    rw [contents_push _ _ (Nat.not_le.mp hfl),List.countP_append,List.countP_singleton]
    rw [pending] at hcv
    split_ifs <;> omega

/-- A receive that takes a message takes one the others wait for, unless it was not woken. -/
theorem Served.covered_recv (h : Served s) (hrun : Runs s a pid (.recv qid len expected)) {len' : ℕ}
    (hne : p ≠ pid)
    (hp : (goOn s pid (.recv qid len expected)).2.procs p = .asleep (.recv qid len' t)) :
    pending ((goOn s pid (.recv qid len expected)).2.queues qid) t ≤
      wokenIn (goOn s pid (.recv qid len expected)).2 (.receivers qid) := by
  obtain ⟨has,-⟩ := goOn_asleep hne hp
  have hcv := h.covered p qid len' t has
  have hwk := wokenIn_goOn h.inOrder hrun (.receivers qid)
  have hwg : t = expected ∨ (s.procs pid).wokenFrom Wait.list (.receivers qid) = 0 := by
    cases hrun with
    | call hpid hfr hlp => exact .inr (by simp [hfr])
    | resume hw => exact .inl (h.uniform p pid qid t expected (by rw [has]; rfl) (by rw [hw]; rfl))
  have hle := hrun.wokenFrom_le (.receivers qid)
  rw [Wait.list,if_pos rfl] at hle
  have hcn := h.bounded qid (h.inOrder.waiting p _ (.inl has)).2
  rw [goOn_recv_queue]
  cases hfn : findMessage (s.queues qid) expected with
  | some k =>
    have htk := pending_compact hfn hcn (s.queues qid).blockedSenders.tail t
    have hac := List.find?_some hfn
    simp only [recvBody,hfn]
    obtain rfl | hzr := hwg
    · rw [if_pos hac] at htk
      omega
    · omega
  | none =>
    have hno := findMessage_eq_none.mp hfn
    rw [pending_waiting hfn]
    obtain rfl | hzr := hwg <;> omega

lemma Served.goOn (h : Served s) (hrun : Runs s a pid w) (hsm : SameType s a) :
    Served (goOn s pid w).2 where
  inOrder := h.inOrder.goOn hrun
  bounded qid hlv := by
    rw [goOn_live] at hlv
    exact goOn_count (h.bounded qid hlv)
  uniform p p' qid t t' := h.uniform_goOn (h.agrees hrun hsm)
  covered p qid len t hp := by
    by_cases hne : p = pid
    · subst hne
      rw [goOn_procs_self] at hp
      split_ifs at hp with hbl
      obtain rfl := Proc.asleep.inj hp
      have hfn := recv_blocked hbl
      rw [goOn_recv_queue,pending_waiting hfn,findMessage_eq_none.mp hfn]
      exact Nat.zero_le _
    by_cases hw : w.queue = some qid
    · cases w with
      | send i type data =>
        cases hw
        exact h.covered_send hrun hne hp
      | recv i len' expected =>
        cases hw
        exact h.covered_recv hrun hne hp
      | sem sid => cases hw
    · -- a turn at another queue or at a semaphore
      have hwk := wokenIn_goOn h.inOrder hrun (.receivers qid)
      have hle := hrun.wokenFrom_le (.receivers qid)
      have hls : w.list ≠ .receivers qid := by
        cases w <;> simp_all [Wait.list,Wait.queue]
      rw [if_neg hls] at hle
      rw [goOn_queues hw]
      refine (h.covered p qid len t (goOn_asleep hne hp).1).trans ?_
      omega

lemma Served.createdQueue (h : Served s) {queues : Table}
    (hcr : harlinMsgCreate s.queues = (some qid,queues)) : Served { s with queues := queues } := by
  refine ⟨h.inOrder.renewed (renewed_queue hcr),?_,h.uniform,?_⟩
  · intro i hlv
    obtain ⟨-,rfl⟩ := harlinMsgCreate_some hcr
    by_cases hi : i = qid
    · simp [hi]
    · have hold : Live s (.receivers i) := by simpa [Live,hi] using hlv
      simpa [hi] using h.bounded i hold
  intro p i len t hp
  obtain ⟨⟨-,hun⟩,rfl⟩ := harlinMsgCreate_some hcr
  have hlv : Live s (.receivers i) := (h.inOrder.waiting p _ (.inl hp)).2
  have hi : i ≠ qid := by
    rintro rfl
    exact absurd (hun.symm.trans hlv.2) (by decide)
  dsimp only
  rw [Function.update_of_ne hi]
  exact h.covered p i len t hp

lemma Served.posted (h : Served s) {sid : ℕ} (hlv : Live s (.sem sid)) :
    Served (posted s sid) := by
  have hrc : ∀ p, receiving ((Ipc.posted s sid).procs p) = receiving (s.procs p) := by
    intro p
    rw [posted_procs]
    split_ifs
    · exact receiving_wake _
    · rfl
  refine ⟨h.inOrder.posted hlv,?_,?_,?_⟩
  · intro qid hq
    rw [posted_live] at hq
    exact h.bounded qid hq
  · intro p p' qid t t' hp hp'
    rw [hrc] at hp hp'
    exact h.uniform p p' qid t t' hp hp'
  · intro p qid len t hp
    rw [posted_procs] at hp
    split_ifs at hp with htk
    · exact absurd hp (Proc.wake_ne_asleep _ _)
    · rw [wokenIn_posted h.inOrder hlv,if_neg (by simp),Nat.add_zero]
      exact h.covered p qid len t hp

lemma Served.step {r : Reply} (h : Served s) (hact : act s a = some (r,s'))
    (hds : a.destroys = false) (hsm : SameType s a) : Served s' := by
  cases act_effect hact with
  | nothing => exact h
  | ran hrun => exact h.goOn hrun hsm
  | createdQueue hcr => exact h.createdQueue hcr
  | createdSem hcr => exact ⟨h.inOrder.renewed (renewed_sem hcr),h.bounded,h.uniform,h.covered⟩
  | destroyedQueue => cases hds
  | destroyedSem => cases hds
  | posted hvl => exact h.posted hvl.live

lemma started.served (hs : started s) : Served s := by
  have hio := hs.inOrder
  have hfr : ∀ p, s.procs p = .free := hs.free
  refine ⟨hio,fun qid hlv => absurd hlv (hs.not_live _),?_,?_⟩
  · intro p p' qid t t' hp
    simp [hfr,receiving] at hp
  · intro p qid len t hp
    simp [hfr] at hp

end Turns

/-- Runs in which nothing is destroyed. -/
def keptRuns : System State (Action × Reply) := ipcRuns.guarded fun _ a => a.1.destroys = false

/-- Once all woken processes have run, no receiver sleeps while a message for it is queued, in the
runs in which receivers that wait at one queue at the same time wait for one type. -/
theorem receivers_served {l : List (Action × Reply)} {s : State}
    (hrun : Trace (keptRuns.guarded fun s a => SameType s a.1) l s) (hsettled : Settled s)
    {pid qid len expected : ℕ} (hpid : s.procs pid = .asleep (.recv qid len expected)) :
    findMessage (s.queues qid) expected = none := by
  have hsr : Served s := by
    refine Reach.invariant Served (fun s hs => started.served hs) ?_ hrun.reach
    rintro s ⟨a,r⟩ s' h ⟨⟨hst,hds⟩,hsm⟩
    exact h.step hst hds hsm
  have hno : wokenIn s (.receivers qid) = 0 := by
    by_contra hne
    obtain ⟨p,hpid,w,hp,-⟩ := wokenFrom_pos (Nat.pos_of_ne_zero hne)
    have hwk := hsettled p (Finset.mem_range.mp hpid)
    rw [hp] at hwk
    cases hwk
  have hcv := hsr.covered pid qid len expected hpid
  exact findMessage_eq_none.mpr (by omega)

theorem receivers_served_sent :
    ∃ l s, Trace (keptRuns.guarded fun s a => SameType s a.1) l s ∧
      l.map Prod.fst = [.call 0 .msgCreate,.call 1 (.msgRecv 0 true 64 5),
        .call 2 (.msgRecv 0 true 64 5),.call 0 (.msgSend 0 5 [7]),.resume 1] ∧
      s.procs 2 = .asleep (.recv 0 64 5) ∧ findMessage (s.queues 0) 5 = none := by
  rw [keptRuns,System.guarded_guarded]
  refine exists_guarded_run (P := fun _ s => Settled s ∧ s.procs 2 = .asleep (.recv 0 64 5))
    blankIpc_started (by decide) fun l s htr ⟨hst,has⟩ => ⟨has,?_⟩
  rw [← System.guarded_guarded] at htr
  exact receivers_served htr hst has

/-- The send of a type that only the second receiver waits for wakes the first one, which goes back
to sleep: the second one sleeps with its message in the queue. -/
theorem wrong_receiver_woken :
    ∃ l s, Trace keptRuns l s ∧
      l.map Prod.fst = [.call 0 .msgCreate,.call 1 (.msgRecv 0 true 64 1),
        .call 2 (.msgRecv 0 true 64 2),.call 0 (.msgSend 0 2 [7]),.resume 1] ∧
      Settled s ∧ s.procs 2 = .asleep (.recv 0 64 2) ∧ findMessage (s.queues 0) 2 = some 0 :=
  exists_guarded_run blankIpc_started (by decide) fun _ _ _ h => h

end HarlinKernel.Ipc
