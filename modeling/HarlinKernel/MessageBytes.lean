import HarlinKernel.IpcWaits

/-! What a received message consists of. The slots of a queue are reused without being cleared, and
the length of a message is not stored with it. A history variable keeps, for each slot, the bytes
that were passed with the message in it. -/
namespace HarlinKernel.Ipc

open TransitionSystem MessageQueue WaitLists RingBuffer
open Function (update update_self update_of_ne)

/-- The bytes behind the messages, by queue and slot. -/
abbrev Sent := ℕ → ℕ → List UInt8

/-- The slots move as in `compact`. -/
def moveSent (q : IpcQueue) (sent : ℕ → List UInt8) : ℕ → List UInt8 :=
  update (shiftDown ipcMaxMsgPerQueue q.head (q.count-1) sent)
    ((q.head+(q.count-1)) % ipcMaxMsgPerQueue) []

def sentAfter (s : State) (h : Sent) : Wait → Outcome → Sent
  | .send qid _ data,.sent =>
    update h qid (update (h qid)
      (((s.queues qid).head+(s.queues qid).count) % ipcMaxMsgPerQueue) data)
  | .recv qid _ _,.received _ _ => update h qid (moveSent (s.queues qid) (h qid))
  | _,_ => h

def recordSent (s : State) (a : Action) (r : Reply) (_ : State) (h : Sent) : Sent :=
  match a.loop s,r with
  | some w,.outcome o => sentAfter s h w o
  | _,_ => h

def sentRuns : System (State × Sent) (Action × Reply) :=
  replies (fun x => started x.1) (recording act recordSent)

/-- The slot for the next message holds no old bytes behind those that are sent. -/
def CleanTail (s : State) : Wait → Prop
  | .send qid _ data => (s.queues qid).count < ipcMaxMsgPerQueue →
    ∀ i < ipcMsgDataSize, data.length ≤ i →
      ((s.queues qid).msgs
        (((s.queues qid).head+(s.queues qid).count) % ipcMaxMsgPerQueue)).data i = 0
  | _ => True

def StoresClean (x : State × Sent) (a : Action × Reply) : Prop :=
  ∀ w ∈ a.1.loop x.1, CleanTail x.1 w

instance (s : State) : (w : Wait) → Decidable (CleanTail s w)
  | .send _ _ _ => inferInstanceAs (Decidable (_ → _))
  | .recv _ _ _ => isTrue trivial
  | .sem _ => isTrue trivial

instance (x : State × Sent) (a : Action × Reply) : Decidable (StoresClean x a) :=
  inferInstanceAs (Decidable (∀ w ∈ a.1.loop x.1, _))

/-- The bytes that a receive of `len` bytes should give. -/
def padded (data : List UInt8) (len : ℕ) : List UInt8 :=
  (List.range (min len ipcMsgDataSize)).map fun i => data.getD i 0

/-- Every message in the queue reads as the bytes sent with it. -/
structure Intact (q : IpcQueue) (sent : ℕ → List UInt8) : Prop where
  bounded : q.count ≤ ipcMaxMsgPerQueue
  reads : ∀ k < q.count, (q.msgs ((q.head+k) % ipcMaxMsgPerQueue)).valid = true →
    ∀ i < ipcMsgDataSize, (q.msgs ((q.head+k) % ipcMaxMsgPerQueue)).data i =
      (sent ((q.head+k) % ipcMaxMsgPerQueue)).getD i 0

/-- The queue can be used, or a process is still in a call that uses it. -/
def InUse (s : State) (qid : ℕ) : Prop :=
  Live s (.senders qid) ∨
    ∃ p w, (s.procs p = .asleep w ∨ s.procs p = .woken w) ∧ w.queue = some qid

def AllIntact (s : State) (h : Sent) : Prop := ∀ qid, InUse s qid → Intact (s.queues qid) (h qid)

section Bodies

variable {q : IpcQueue} {sent : ℕ → List UInt8}

lemma Intact.send (hq : Intact q sent) {data : List UInt8} (hrm : q.count < ipcMaxMsgPerQueue)
    (hcl : ∀ i < ipcMsgDataSize, data.length ≤ i →
      (q.msgs ((q.head+q.count) % ipcMaxMsgPerQueue)).data i = 0) (pid type : ℕ) :
    Intact (sendBody q pid type data).2.2
      (update sent ((q.head+q.count) % ipcMaxMsgPerQueue) data) := by
  rw [sendBody,if_neg (Nat.not_le.mpr hrm)]
  refine ⟨hrm,fun k hk hvl i hi => ?_⟩
  dsimp only at hk hvl ⊢
  obtain rfl | hlt := Nat.eq_or_lt_of_le (Nat.le_of_lt_succ hk)
  · simp only [update_self,storeMessage]
    by_cases hin : i < data.length
    · simp [List.getD,hin]
    · have hold := hcl i hi (Nat.not_lt.mp hin)
      simpa [List.getD,Nat.not_lt.mp hin] using hold
  · have hsl := slot_ne q.head hlt hrm
    rw [update_of_ne hsl] at hvl ⊢
    rw [update_of_ne hsl]
    exact hq.reads k hlt hvl i hi

lemma Intact.compact (hq : Intact q sent) {k : ℕ} (hk : k < q.count) (senders : List ℕ) :
    Intact { q with msgs := compact q k, count := q.count-1, blockedSenders := senders }
      (moveSent q sent) := by
  have hbn := hq.bounded
  refine ⟨(Nat.sub_le _ _).trans hbn,fun j hj hvl i hi => ?_⟩
  dsimp only at hj hvl ⊢
  have hsl := slot_ne q.head hj (by omega : q.count-1 < ipcMaxMsgPerQueue)
  have hsn : moveSent q sent ((q.head+j) % ipcMaxMsgPerQueue) =
      sent ((q.head+(j+1)) % ipcMaxMsgPerQueue) := by
    rw [moveSent,update_of_ne hsl]
    exact shiftDown_below sent hj (by omega)
  rw [hsn]
  rw [MessageQueue.compact,update_of_ne hsl,shiftDown_below _ hj (by omega)] at hvl ⊢
  by_cases hpc : (q.head+(j+1)) % ipcMaxMsgPerQueue = (q.head+k) % ipcMaxMsgPerQueue
  · rw [hpc,update_self] at hvl
    cases hvl
  · rw [update_of_ne hpc] at hvl ⊢
    exact hq.reads (j+1) (by omega) hvl i hi

end Bodies

section Steps

variable {s s' : State} {pid : ℕ} {w : Wait} {h : Sent} {a : Action} {qid : ℕ}

lemma Live.of_queue (hlv : Live s w.list) (hw : w.queue = some qid) : Live s (.senders qid) := by
  cases w with
  | sem sid => cases hw
  | send i type data | recv i len expected =>
    cases hw
    exact hlv

lemma Runs.inUse (hrun : Runs s a pid w) (hw : w.queue = some qid) : InUse s qid := by
  cases hrun with
  | call hpid hfr hlp => exact .inl ((loopOf_live hlp).of_queue hw)
  | resume hp => exact .inr ⟨pid,w,.inr hp,hw⟩

lemma InUse.of_goOn (hrun : Runs s a pid w) (hq : InUse (goOn s pid w).2 qid) : InUse s qid := by
  obtain hlv | ⟨p,v,hp,hv⟩ := hq
  · rw [goOn_live] at hlv
    exact .inl hlv
  by_cases hne : p = pid
  · subst hne
    rw [goOn_procs_self] at hp
    split_ifs at hp with hbl
    · obtain rfl : w = v := by simpa using hp
      exact hrun.inUse hv
    · simp at hp
  · exact .inr ⟨p,v,goOn_waiting hne hp,hv⟩

lemma InUse.of_woken (hq : InUse s' qid) (hlv : Live s' (.senders qid) → Live s (.senders qid))
    (hpr : ∀ p, s'.procs p = s.procs p ∨ s'.procs p = (s.procs p).wake) : InUse s qid := by
  obtain hq | ⟨p,v,hp,hv⟩ := hq
  · exact .inl (hlv hq)
  · refine .inr ⟨p,v,?_,hv⟩
    obtain heq | heq := hpr p <;> rw [heq] at hp
    · exact hp
    · exact Proc.of_wake hp

lemma woken_or_same (ps : List ℕ) (procs : ℕ → Proc) (p : ℕ) :
    ps.foldl wakeOne procs p = procs p ∨ ps.foldl wakeOne procs p = (procs p).wake := by
  have hfl : ps.foldl wakeOne procs p = if p ∈ ps then (procs p).wake else procs p :=
    foldl_wakeOne ps procs p
  rw [hfl]
  split_ifs
  · exact .inr rfl
  · exact .inl rfl

lemma Intact.congr {q q' : IpcQueue} {sent : ℕ → List UInt8} (hq : Intact q sent)
    (hms : q'.msgs = q.msgs) (hhd : q'.head = q.head) (hcn : q'.count = q.count) :
    Intact q' sent := by
  refine ⟨hcn.trans_le hq.bounded,?_⟩
  rw [hms,hhd,hcn]
  exact hq.reads

lemma sentAfter_ne (hw : w.queue ≠ some qid) (o : Outcome) : sentAfter s h w o qid = h qid := by
  cases w with
  | send i type data =>
    have hi : qid ≠ i := fun heq => hw (congrArg some heq.symm)
    cases o with
    | sent => exact update_of_ne hi _ _
    | _ => rfl
  | recv i len expected =>
    have hi : qid ≠ i := fun heq => hw (congrArg some heq.symm)
    cases o with
    | received type bytes => exact update_of_ne hi _ _
    | _ => rfl
  | sem sid => rfl

lemma Intact.goOn_send {type : ℕ} {data : List UInt8} (hq : Intact (s.queues qid) (h qid))
    (hcl : CleanTail s (.send qid type data)) :
    Intact ((goOn s pid (.send qid type data)).2.queues qid)
      (sentAfter s h (.send qid type data) (goOn s pid (.send qid type data)).1 qid) := by
  rw [goOn_send_queue]
  by_cases hfl : ipcMaxMsgPerQueue ≤ (s.queues qid).count
  · by_cases hsn : 16 ≤ (s.queues qid).blockedSenders.length
    · simp only [goOn,sendBody,if_pos hfl,if_pos hsn,sentAfter]
      exact hq.congr rfl rfl rfl
    · simp only [goOn,sendBody,if_pos hfl,if_neg hsn,sentAfter]
      exact hq.congr rfl rfl rfl
  · have hrm := Nat.not_le.mp hfl
    have hse : (goOn s pid (.send qid type data)).1 = .sent := by
      simp [goOn,sendBody,if_neg hfl]
    rw [hse,sentAfter,update_self]
    exact hq.send hrm (hcl hrm) pid type

lemma Intact.goOn_recv {len expected : ℕ} (hq : Intact (s.queues qid) (h qid)) :
    Intact ((goOn s pid (.recv qid len expected)).2.queues qid)
      (sentAfter s h (.recv qid len expected) (goOn s pid (.recv qid len expected)).1 qid) := by
  rw [goOn_recv_queue,goOn]
  cases hfn : findMessage (s.queues qid) expected with
  | some k =>
    simp only [recvBody,hfn,sentAfter,update_self]
    exact hq.compact (List.mem_range.mp (List.mem_of_find?_eq_some hfn)) _
  | none =>
    by_cases hfl : 16 ≤ (s.queues qid).blockedReceivers.length
    · simp only [recvBody,hfn,if_pos hfl,sentAfter]
      exact hq
    · simp only [recvBody,hfn,if_neg hfl,sentAfter]
      exact hq.congr rfl rfl rfl

lemma AllIntact.goOn (hs : AllIntact s h) (hrun : Runs s a pid w) (hcl : CleanTail s w) :
    AllIntact (goOn s pid w).2 (sentAfter s h w (goOn s pid w).1) := by
  intro qid hq
  have hqu := hs qid (hq.of_goOn hrun)
  by_cases hw : w.queue = some qid
  · cases w with
    | send i type data =>
      cases hw
      exact hqu.goOn_send hcl
    | recv i len expected =>
      cases hw
      exact hqu.goOn_recv
    | sem sid => cases hw
  · rw [goOn_queues hw,sentAfter_ne hw]
    exact hqu

lemma AllIntact.createdQueue (hs : AllIntact s h) {queues : Table}
    (hcr : harlinMsgCreate s.queues = (some qid,queues)) :
    AllIntact { s with queues := queues } h := by
  obtain ⟨-,rfl⟩ := harlinMsgCreate_some hcr
  intro i hi
  by_cases hne : i = qid
  · subst hne
    simp only [update_self]
    exact ⟨Nat.zero_le _,fun k hk => absurd hk (Nat.not_lt_zero k)⟩
  · simp only [update_of_ne hne]
    refine hs i (hi.of_woken (fun hlv => ?_) fun p => .inl rfl)
    simpa [Live,hne] using hlv

lemma AllIntact.withoutQueue (hs : AllIntact s h) (qid : ℕ) : AllIntact (withoutQueue s qid) h := by
  intro i hi
  have hold : InUse s i := by
    refine hi.of_woken (fun hlv => ?_) fun p => woken_or_same _ _ p
    by_cases hne : i = qid
    · subst hne
      simp [Live,Ipc.withoutQueue] at hlv
    · simpa [Live,Ipc.withoutQueue,hne] using hlv
  by_cases hne : i = qid
  · subst hne
    refine (hs i hold).congr ?_ ?_ ?_ <;> simp [Ipc.withoutQueue]
  · refine (hs i hold).congr ?_ ?_ ?_ <;> simp [Ipc.withoutQueue,hne]

lemma recordSent_ran (hrun : Runs s a pid w) (o : Outcome) :
    recordSent s a (.outcome o) s' h = sentAfter s h w o := by
  simp [recordSent,hrun.loop]

lemma recordSent_none (hlp : a.loop s = none) (r : Reply) : recordSent s a r s' h = h := by
  simp [recordSent,hlp]

lemma AllIntact.step {r : Reply} (hs : AllIntact s h) (hact : act s a = some (r,s'))
    (hcl : StoresClean (s,h) (a,r)) : AllIntact s' (recordSent s a r s' h) := by
  cases act_effect hact with
  | nothing hlp hr =>
    rw [recordSent_none (a:=.call _ _) hlp]
    exact hs
  | ran hrun =>
    rw [recordSent_ran hrun]
    exact hs.goOn hrun (hcl _ hrun.loop)
  | createdQueue hcr => exact hs.createdQueue hcr
  | createdSem hcr => exact fun qid hq => hs qid (hq.of_woken id fun p => .inl rfl)
  | destroyedQueue => exact hs.withoutQueue _
  | destroyedSem => exact fun qid hq => hs qid (hq.of_woken id fun p => woken_or_same _ _ p)
  | posted => exact fun qid hq => hs qid (hq.of_woken id fun p => woken_or_same _ _ p)

lemma started.allIntact (hs : started s) (h : Sent) : AllIntact s h := by
  rintro qid (hlv | ⟨p,w,hp,-⟩)
  · exact absurd hlv (hs.not_live _)
  · simp [hs.free] at hp

/-- Only a receive that found a message gives bytes, and they are those of the slot. -/
theorem goOn_received {type : ℕ} {bytes : List UInt8}
    (hout : (goOn s pid w).1 = .received type bytes) :
    ∃ qid len expected k, w = .recv qid len expected ∧
      findMessage (s.queues qid) expected = some k ∧
      bytes =
        (List.range (min len ipcMsgDataSize)).map
          ((s.queues qid).msgs (((s.queues qid).head+k) % ipcMaxMsgPerQueue)).data := by
  cases w with
  | send qid type data =>
    rw [goOn,sendBody] at hout
    split_ifs at hout
  | recv qid len expected =>
    rw [goOn,recvBody] at hout
    cases hfn : findMessage (s.queues qid) expected with
    | some k =>
      simp only [hfn,Outcome.received.injEq] at hout
      exact ⟨qid,len,expected,k,rfl,hfn,hout.2.symm⟩
    | none =>
      by_cases hfl : 16 ≤ (s.queues qid).blockedReceivers.length <;>
        simp [hfn,hfl] at hout
  | sem sid =>
    rw [goOn,waitBody] at hout
    split_ifs at hout

end Steps

/-- The bytes of a received message are the bytes sent with it followed by zeros, in the runs in
which each message is stored in a slot without old bytes behind it. -/
theorem received_bytes_sent {l : List (Action × Reply)} {x : State × Sent}
    (hrun : Trace (sentRuns.guarded StoresClean) l x) {a : Action} {type : ℕ} {bytes : List UInt8}
    {s' : State} (hact : act x.1 a = some (.outcome (.received type bytes),s')) :
    ∃ pid qid len expected k, Runs x.1 a pid (.recv qid len expected) ∧
      findMessage (x.1.queues qid) expected = some k ∧
      bytes = padded (x.2 qid (((x.1.queues qid).head+k) % ipcMaxMsgPerQueue)) len := by
  have hin : AllIntact x.1 x.2 := by
    refine Reach.invariant (fun x => AllIntact x.1 x.2) ?_ ?_ hrun.reach
    · intro x hx
      exact started.allIntact hx x.2
    · rintro ⟨s,h⟩ ⟨a,r⟩ ⟨s',h'⟩ hs ⟨hst,hcl⟩
      obtain ⟨hact,hh⟩ := recording_eq_some.mp hst
      rw [hh]
      exact hs.step hact hcl
  generalize hr : Reply.outcome (.received type bytes) = r at hact
  cases act_effect hact with
  | nothing hlp hno => obtain rfl | rfl := hno <;> cases hr
  | @ran a pid w hst =>
    obtain ⟨qid,len,expected,k,rfl,hfn,rfl⟩ := goOn_received (Reply.outcome.inj hr).symm
    refine ⟨pid,qid,len,expected,k,hst,hfn,?_⟩
    have hqu := hin qid (hst.inUse rfl)
    have hk : k < (x.1.queues qid).count := List.mem_range.mp (List.mem_of_find?_eq_some hfn)
    have hac := List.find?_some hfn
    rw [accepts,Bool.and_eq_true] at hac
    apply List.map_congr_left
    intro i hi
    exact hqu.reads k hk hac.1 i (by simp at hi; omega)
  | _ => cases hr

def blankSent : State × Sent := (blankIpc,fun _ _ => [])

lemma blankSent_init : sentRuns.init blankSent := blankIpc_started

theorem received_bytes_sent_once :
    ∃ l x s', Trace (sentRuns.guarded StoresClean) l x ∧
      l.map Prod.fst = [.call 0 .msgCreate,.call 0 (.msgSend 0 5 [7])] ∧
      act x.1 (.call 1 (.msgRecv 0 true 4 0)) = some (.outcome (.received 5 [7,0,0,0]),s') ∧
      ∃ pid qid len expected k,
        Runs x.1 (.call 1 (.msgRecv 0 true 4 0)) pid (.recv qid len expected) ∧
        findMessage (x.1.queues qid) expected = some k ∧
        [7,0,0,0] = padded (x.2 qid (((x.1.queues qid).head+k) % ipcMaxMsgPerQueue)) len := by
  have hrun : ((runReplies (recording act recordSent) StoresClean blankSent
      [.call 0 .msgCreate,.call 0 (.msgSend 0 5 [7])]).bind fun r =>
      (act r.2.1 (.call 1 (.msgRecv 0 true 4 0))).map fun y =>
        decide (y.1 = .outcome (.received 5 [7,0,0,0]))) = some true := by
    decide
  obtain ⟨r,hr,hrs⟩ := Option.bind_eq_some_iff.mp hrun
  obtain ⟨⟨o,s'⟩,hact,hdec⟩ := Option.map_eq_some_iff.mp hrs
  obtain rfl : o = .outcome (.received 5 [7,0,0,0]) := of_decide_eq_true hdec
  have htr := trace_of_runReplies blankSent_init hr
  exact ⟨r.1,r.2,s',htr,runReplies_calls hr,hact,received_bytes_sent htr hact⟩

/-- A message with the two bytes `old`, then a new queue in the same slot and a message of one byte
that is received with length two. -/
def reused (old : UInt8) : List (Action × Reply) :=
  [(.call 0 .msgCreate,.created (some 0)),(.call 0 (.msgSend 0 1 [old,old]),.outcome .sent),
    (.call 0 (.msgDestroy 0),.outcome .sent),(.call 0 .msgCreate,.created (some 0)),
    (.call 0 (.msgSend 0 1 [7]),.outcome .sent),
    (.call 0 (.msgRecv 0 true 2 0),.outcome (.received 1 [7,old]))]

/-- Two histories that differ only in a message of a queue that was destroyed give different
bytes. -/
theorem old_bytes_received :
    (∃ x, Trace sentRuns (reused 8) x) ∧ ∃ x, Trace sentRuns (reused 9) x := by
  have hrs : ∀ old : UInt8, ((runReplies (recording act recordSent) (fun _ _ => True) blankSent
      ((reused old).map Prod.fst)).map fun r => decide (r.1 = reused old)) = some true →
      ∃ x, Trace sentRuns (reused old) x := by
    intro old hrun
    obtain ⟨r,hr,hdec⟩ := Option.map_eq_some_iff.mp hrun
    have htr := trace_of_runReplies blankSent_init hr
    rw [System.guarded_true,of_decide_eq_true hdec] at htr
    exact ⟨r.2,htr⟩
  exact ⟨hrs 8 (by decide),hrs 9 (by decide)⟩

end HarlinKernel.Ipc
