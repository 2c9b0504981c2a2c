import HarlinKernel.TransitionSystem
import HarlinKernel.RingBuffer

/-! The message queues of `proc/ipc.c`. A call runs until it returns or its
process blocks; the pids handed to `process_wake` are part of its result. A
process that blocked runs the same body again once it has been woken. -/
namespace HarlinKernel.MessageQueue

open TransitionSystem RingBuffer
open Function (update update_of_ne update_self)

def ipcMaxQueues : ℕ := 16
def ipcMaxMsgPerQueue : ℕ := 16
def ipcMsgDataSize : ℕ := 64

structure IpcMessage where
  type : ℕ
  data : ℕ → UInt8
  valid : Bool

/-- The two waiter arrays with their counts are lists, oldest waiter first. -/
structure IpcQueue where
  used : Bool
  msgs : ℕ → IpcMessage
  head : ℕ
  count : ℕ
  blockedSenders : List ℕ
  blockedReceivers : List ℕ

abbrev Table := ℕ → IpcQueue

/-- How far a call of `Harlin_MsgSend` or `Harlin_MsgRecv` got. -/
inductive Outcome
  | failed
  | blocked
  | sent
  | received (type : ℕ) (bytes : List UInt8)
  deriving DecidableEq

def ipcInit (t : Table) : Table := fun i => { t i with used := i ≥ ipcMaxQueues && (t i).used }

def findFreeQueue (t : Table) : Option ℕ :=
  (List.range ipcMaxQueues).find? fun i => !(t i).used

/-- The slots of a reused queue keep their old contents. -/
def harlinMsgCreate (t : Table) : Option ℕ × Table :=
  match findFreeQueue t with
  | none => (none,t)
  | some qid => (some qid,update t qid
      { t qid with
        used := true
        head := 0
        count := 0
        blockedSenders := []
        blockedReceivers := [] })

/-- The message stored by a send: bytes past the sent length keep the slot's old ones. -/
def storeMessage (slot : IpcMessage) (type : ℕ) (data : List UInt8) : IpcMessage where
  type := type
  data := fun i => data.getD i (slot.data i)
  valid := true

/-- The body of `Harlin_MsgSend` after its argument checks. A full queue first wakes
all blocked receivers, one in each turn of the loop, and then blocks the sender. -/
def sendBody (q : IpcQueue) (pid type : ℕ) (data : List UInt8) : Outcome × List ℕ × IpcQueue :=
  if ipcMaxMsgPerQueue ≤ q.count then
    let r := { q with blockedReceivers := [] }
    if 16 ≤ q.blockedSenders.length then (.failed,q.blockedReceivers,r)
    else (.blocked,q.blockedReceivers,{ r with blockedSenders := q.blockedSenders ++ [pid] })
  else
    let tail := (q.head+q.count) % ipcMaxMsgPerQueue
    (.sent,q.blockedReceivers.take 1,
      { q with
        msgs := update q.msgs tail (storeMessage (q.msgs tail) type data)
        count := q.count+1
        blockedReceivers := q.blockedReceivers.tail })

def harlinMsgSend (t : Table) (pid : ℕ) (qid : ℤ) (type : ℕ) (data : List UInt8) :
    Outcome × List ℕ × Table :=
  if qid < 0 ∨ ipcMaxQueues ≤ qid ∨ !(t qid.toNat).used then (.failed,[],t)
  else if ipcMsgDataSize < data.length then (.failed,[],t)
  else
    let r := sendBody (t qid.toNat) pid type data
    (r.1,r.2.1,update t qid.toNat r.2.2)

def accepts (expected : ℕ) (m : IpcMessage) : Bool :=
  m.valid && (expected == 0 || m.type == expected)

/-- The offset from `head` of the message a receive picks. -/
def findMessage (q : IpcQueue) (expected : ℕ) : Option ℕ :=
  (List.range q.count).find? fun k =>
    accepts expected (q.msgs ((q.head+k) % ipcMaxMsgPerQueue))

def noMessage : IpcMessage := ⟨0,fun _ => 0,false⟩

/-- The ring after the message at offset `k` was received: it is marked invalid, then
every slot takes its successor's message from `head` on and the last is cleared. -/
def compact (q : IpcQueue) (k : ℕ) : ℕ → IpcMessage :=
  let idx := (q.head+k) % ipcMaxMsgPerQueue
  let marked := update q.msgs idx { q.msgs idx with valid := false }
  update (shiftDown ipcMaxMsgPerQueue q.head (q.count-1) marked)
    ((q.head+(q.count-1)) % ipcMaxMsgPerQueue) noMessage

/-- One turn of the receive loop. -/
def recvBody (q : IpcQueue) (pid len expected : ℕ) : Outcome × List ℕ × IpcQueue :=
  match findMessage q expected with
  | some k =>
    let m := q.msgs ((q.head+k) % ipcMaxMsgPerQueue)
    (.received m.type ((List.range (min len ipcMsgDataSize)).map m.data),
      q.blockedSenders.take 1,
      { q with
        msgs := compact q k
        count := q.count-1
        blockedSenders := q.blockedSenders.tail })
  | none =>
    if 16 ≤ q.blockedReceivers.length then (.failed,[],q)
    else (.blocked,[],{ q with blockedReceivers := q.blockedReceivers ++ [pid] })

/-- `present` is whether both output pointers are not null. -/
def harlinMsgRecv (t : Table) (pid : ℕ) (qid : ℤ) (present : Bool) (len expected : ℕ) :
    Outcome × List ℕ × Table :=
  if qid < 0 ∨ ipcMaxQueues ≤ qid ∨ !(t qid.toNat).used then (.failed,[],t)
  else if !present then (.failed,[],t)
  else
    let r := recvBody (t qid.toNat) pid len expected
    (r.1,r.2.1,update t qid.toNat r.2.2)

def harlinMsgDestroy (t : Table) (qid : ℤ) : Outcome × List ℕ × Table :=
  if qid < 0 ∨ ipcMaxQueues ≤ qid ∨ !(t qid.toNat).used then (.failed,[],t)
  else
    let q := t qid.toNat
    (.sent,q.blockedSenders ++ q.blockedReceivers,
      update t qid.toNat { q with used := false })

/-- The specification: the messages in the queue with the bytes that were sent,
oldest first. -/
abbrev Pending := List (ℕ × List UInt8)

def wants (expected : ℕ) (x : ℕ × List UInt8) : Prop := expected = 0 ∨ x.1 = expected

inductive Call
  | send (pid type : ℕ) (data : List UInt8)
  | recv (pid len expected : ℕ)

/-- What the two calls do to the specified queue when they do not block: a send
appends, a receive takes out the oldest message it wants and nothing else. -/
inductive PendingStep : Pending → Call × Outcome → Pending → Prop
  | send {l pid type data} : l.length < ipcMaxMsgPerQueue → data.length ≤ ipcMsgDataSize →
      PendingStep l (.send pid type data,.sent) (l ++ [(type,data)])
  | tooLong {l pid type data} : ipcMsgDataSize < data.length →
      PendingStep l (.send pid type data,.failed) l
  | recv {pre m post pid len expected bytes} :
      (∀ x ∈ pre, ¬ wants expected x) → wants expected m →
      bytes.length = min len ipcMsgDataSize →
      bytes.take m.2.length = m.2.take bytes.length →
      PendingStep (pre ++ m :: post) (.recv pid len expected,.received m.1 bytes) (pre ++ post)

def pendingQueue : System Pending (Call × Outcome) where
  init l := l = []
  step := PendingStep

/-- A slot that holds a sent message; its later bytes are not determined by it. -/
structure Holds (m : IpcMessage) (x : ℕ × List UInt8) : Prop where
  valid : m.valid = true
  type : m.type = x.1
  size : x.2.length ≤ ipcMsgDataSize
  data : ∀ i < x.2.length, x.2[i]? = some (m.data i)

structure Represents (q : IpcQueue) (l : Pending) : Prop where
  used : q.used = true
  count_le : q.count ≤ ipcMaxMsgPerQueue
  slots : List.Forall₂ Holds (contents ipcMaxMsgPerQueue q.msgs q.head q.count) l

variable {q : IpcQueue} {x : ℕ × List UInt8} {t : Table} {qid : ℕ}

lemma Represents.length {l : Pending} (h : Represents q l) : q.count = l.length := by
  simpa using h.slots.length_eq

lemma Holds.accepts_iff {m : IpcMessage} (h : Holds m x)
    (expected : ℕ) : accepts expected m = true ↔ wants expected x := by
  simp [accepts,wants,h.valid,h.type]

lemma storeMessage_holds (slot : IpcMessage) (type : ℕ) {data : List UInt8}
    (h : data.length ≤ ipcMsgDataSize) : Holds (storeMessage slot type data) (type,data) where
  valid := rfl
  type := rfl
  size := h
  data i hi := by simp [storeMessage,List.getD,List.getElem?_eq_getElem hi]

lemma Holds.copied {m : IpcMessage} (h : Holds m x) (n : ℕ) :
    ((List.range n).map m.data).take x.2.length = x.2.take ((List.range n).map m.data).length := by
  apply List.ext_getElem?
  intro i
  by_cases hi : i < x.2.length
  · have hd := h.data i hi
    by_cases hn : i < n
    · simp [hi,hn,← hd]
    · simp [hi,hn]
  · simp [hi]

lemma sendBody_represents {l : Pending} (h : Represents q l) (hrm : q.count < ipcMaxMsgPerQueue)
    (pid type : ℕ) {data : List UInt8} (hdt : data.length ≤ ipcMsgDataSize) :
    (sendBody q pid type data).1 = .sent ∧
    Represents (sendBody q pid type data).2.2 (l ++ [(type,data)]) := by
  rw [sendBody,if_neg (by omega)]
  refine ⟨rfl,h.used,hrm,?_⟩
  rw [contents_push q.msgs q.head hrm]
  exact List.rel_append h.slots
    (.cons (storeMessage_holds _ type hdt) .nil)

lemma findMessage_oldest {expected : ℕ} (hcn : 0 < q.count)
    (h : accepts expected (q.msgs (q.head % ipcMaxMsgPerQueue)) = true) :
    findMessage q expected = some 0 := by
  obtain ⟨n,hn⟩ := Nat.exists_eq_succ_of_ne_zero hcn.ne'
  rw [findMessage,hn,Nat.succ_eq_add_one,List.range_succ_eq_map]
  exact List.find?_cons_of_pos (by simpa using h)

lemma compact_contents (hcn : 0 < q.count) (hle : q.count ≤ ipcMaxMsgPerQueue) (k : ℕ) :
    contents ipcMaxMsgPerQueue (compact q k) q.head (q.count-1) =
      contents ipcMaxMsgPerQueue
        (update q.msgs ((q.head+k) % ipcMaxMsgPerQueue)
          { q.msgs ((q.head+k) % ipcMaxMsgPerQueue) with valid := false })
        ((q.head+1) % ipcMaxMsgPerQueue) (q.count-1) := by
  rw [← contents_shiftDown _ _ (by omega)]
  apply contents_congr
  intro j hj
  exact update_of_ne (slot_ne _ hj (by omega)) _ _

lemma recvBody_oldest {m : ℕ × List UInt8} {post : Pending} (h : Represents q (m :: post))
    (pid len : ℕ) {expected : ℕ} (hw : wants expected m) :
    ∃ bytes, (recvBody q pid len expected).1 = .received m.1 bytes ∧
      bytes.length = min len ipcMsgDataSize ∧ bytes.take m.2.length = m.2.take bytes.length ∧
      Represents (recvBody q pid len expected).2.2 post := by
  have hcn : q.count = post.length+1 := h.length
  have hle := h.count_le
  have hsl := h.slots
  rw [hcn,contents_succ_first] at hsl
  obtain ⟨hm,hps⟩ := List.forall₂_cons.mp hsl
  have hfn : findMessage q expected = some 0 :=
    findMessage_oldest (by omega) ((hm.accepts_iff expected).mpr hw)
  refine ⟨(List.range (min len ipcMsgDataSize)).map
    (q.msgs (q.head % ipcMaxMsgPerQueue)).data,?_,by simp,hm.copied _,?_⟩
  · simp [recvBody,hfn,hm.type]
  simp only [recvBody,hfn]
  refine ⟨h.used,by dsimp only; omega,?_⟩
  rw [compact_contents (by omega) hle]
  have hsm : contents ipcMaxMsgPerQueue
      (update q.msgs ((q.head+0) % ipcMaxMsgPerQueue)
        { q.msgs ((q.head+0) % ipcMaxMsgPerQueue) with valid := false })
      ((q.head+1) % ipcMaxMsgPerQueue) (q.count-1) =
      contents ipcMaxMsgPerQueue q.msgs ((q.head+1) % ipcMaxMsgPerQueue) post.length := by
    rw [show q.count-1 = post.length by omega]
    apply contents_congr
    intro j hj
    apply update_of_ne
    rw [Nat.mod_add_mod,Nat.add_assoc]
    exact (slot_ne _ (by omega) (by omega)).symm
  rw [hsm]
  exact hps

/-- Receiving a message that is not the oldest leaves it behind as an invalid slot,
so that the queue holds no list of sent messages any more. -/
theorem recvBody_later {l : Pending} (h : Represents q l)
    (pid len : ℕ) {expected k : ℕ} (hk : findMessage q expected = some k) (hpos : 0 < k)
    (l' : Pending) : ¬ Represents (recvBody q pid len expected).2.2 l' := by
  intro h'
  have hlt : k < q.count := List.mem_range.mp (List.mem_of_find?_eq_some hk)
  have hle := h.count_le
  have hsl := h'.slots
  simp only [recvBody,hk] at hsl
  rw [compact_contents (by omega) hle] at hsl
  have hget := contents_getElem? ipcMaxMsgPerQueue
    (update q.msgs ((q.head+k) % ipcMaxMsgPerQueue)
      { q.msgs ((q.head+k) % ipcMaxMsgPerQueue) with valid := false })
    ((q.head+1) % ipcMaxMsgPerQueue) (q.count-1) (k-1) (by omega)
  have hst : ((q.head+1) % ipcMaxMsgPerQueue+(k-1)) % ipcMaxMsgPerQueue =
      (q.head+k) % ipcMaxMsgPerQueue := by
    rw [Nat.mod_add_mod]
    congr 1
    omega
  rw [hst,update_self] at hget
  obtain ⟨hk₁,hk₂⟩ := List.getElem?_eq_some_iff.mp hget
  have hvl := (List.forall₂_iff_get.mp hsl).2 (k-1) hk₁
    (by rw [← hsl.length_eq]; exact hk₁)
  have hv := hvl.valid
  rw [List.get_eq_getElem,hk₂] at hv
  simp at hv

def Call.run (qid : ℕ) (t : Table) : Call → Outcome × Table
  | .send pid type data => let r := harlinMsgSend t pid qid type data; (r.1,r.2.2)
  | .recv pid len expected => let r := harlinMsgRecv t pid qid true len expected; (r.1,r.2.2)

/-- The calls that neither wait for room nor for a message. -/
def Nonblocking (qid : ℕ) (t : Table) (a : Call × Outcome) : Prop :=
  match a.1 with
  | .send _ _ _ => (t qid).count < ipcMaxMsgPerQueue
  | .recv _ _ expected => (findMessage (t qid) expected).isSome

/-- Runs of one queue from the `Harlin_MsgCreate` that returned it. -/
def queueRuns (qid : ℕ) : System Table (Call × Outcome) :=
  (calls (fun t => ∃ t₀, harlinMsgCreate t₀ = (some qid,t)) (Call.run qid)).guarded
    (Nonblocking qid)

/-- A receive finds that the oldest queued message is one it accepts. -/
def OldestAccepted (qid : ℕ) (t : Table) (a : Call × Outcome) : Prop :=
  match a.1 with
  | .send _ _ _ => True
  | .recv _ _ expected =>
    accepts expected ((t qid).msgs ((t qid).head % ipcMaxMsgPerQueue)) = true

lemma harlinMsgCreate_represents {t₀ : Table}
    (h : harlinMsgCreate t₀ = (some qid,t)) : qid < ipcMaxQueues ∧ Represents (t qid) [] := by
  unfold harlinMsgCreate at h
  split at h
  · simp at h
  · rename_i i hi
    obtain ⟨rfl,rfl⟩ := h
    refine ⟨List.mem_range.mp (List.mem_of_find?_eq_some hi),?_⟩
    rw [update_self]
    exact ⟨rfl,Nat.zero_le _,.nil⟩

lemma checks_pass (hid : qid < ipcMaxQueues) (hus : (t qid).used = true) :
    ¬ ((qid : ℤ) < 0 ∨ (ipcMaxQueues : ℤ) ≤ qid ∨ (!(t (qid : ℤ).toNat).used) = true) := by
  simp only [Int.toNat_natCast,hus,Bool.not_true,Bool.false_eq_true,or_false]
  omega

lemma run_send (hid : qid < ipcMaxQueues) (hus : (t qid).used = true) (pid type : ℕ)
    (data : List UInt8) :
    Call.run qid t (.send pid type data) =
      if ipcMsgDataSize < data.length then (.failed,t)
      else ((sendBody (t qid) pid type data).1,
         update t qid (sendBody (t qid) pid type data).2.2) := by
  rw [Call.run,harlinMsgSend,if_neg (checks_pass hid hus)]
  split <;> rfl

lemma run_recv (hid : qid < ipcMaxQueues) (hus : (t qid).used = true) (pid len expected : ℕ) :
    Call.run qid t (.recv pid len expected) = ((recvBody (t qid) pid len expected).1,
    update t qid (recvBody (t qid) pid len expected).2.2) := by
  rw [Call.run,harlinMsgRecv,if_neg (checks_pass hid hus)]
  simp

lemma recvBody_step {l : Pending} (h : Represents q l) (pid len : ℕ)
    {expected : ℕ} (hsm : (findMessage q expected).isSome)
    (hold : accepts expected (q.msgs (q.head % ipcMaxMsgPerQueue)) = true) :
    ∃ l', PendingStep l (.recv pid len expected,(recvBody q pid len expected).1) l' ∧
      Represents (recvBody q pid len expected).2.2 l' := by
  obtain ⟨k,hk⟩ := Option.isSome_iff_exists.mp hsm
  have hlt : k < q.count := List.mem_range.mp (List.mem_of_find?_eq_some hk)
  cases l with
  | nil => simp [h.length] at hlt
  | cons m post =>
    have hsl := h.slots
    rw [h.length,List.length_cons,contents_succ_first] at hsl
    have hw := ((List.forall₂_cons.mp hsl).1.accepts_iff expected).mp hold
    obtain ⟨bytes,hout,hlen,hcp,hrep⟩ := recvBody_oldest h pid len hw
    refine ⟨post,?_,hrep⟩
    rw [hout]
    have hno : ∀ x ∈ ([] : Pending), ¬ wants expected x := by simp
    exact PendingStep.recv hno hw hlen hcp

/-- Runs whose receives all accept the oldest message are runs of the specified queue. -/
def oldestSimulation (qid : ℕ) :
    Simulation ((queueRuns qid).guarded (OldestAccepted qid)) pendingQueue where
  rel t l := qid < ipcMaxQueues ∧ Represents (t qid) l
  init := by
    rintro t ⟨t₀,hcr⟩
    exact ⟨[],rfl,harlinMsgCreate_represents hcr⟩
  step := by
    rintro t l ⟨c,o⟩ t' ⟨hid,hrep⟩ ⟨⟨hrun,hnb⟩,hold⟩
    have ho : (Call.run qid t c).1 = o := congrArg Prod.fst hrun
    have ht : (Call.run qid t c).2 = t' := congrArg Prod.snd hrun
    subst ho ht
    cases c with
    | send pid type data =>
      rw [run_send hid hrep.used]
      by_cases hln : ipcMsgDataSize < data.length
      · rw [if_pos hln]
        exact ⟨l,.tooLong hln,hid,hrep⟩
      · rw [if_neg hln]
        obtain ⟨hout,hrep'⟩ := sendBody_represents hrep hnb pid type (by omega : data.length ≤ _)
        refine ⟨_,?_,hid,by simpa using hrep'⟩
        rw [hout]
        exact .send (hrep.length ▸ hnb) (by omega)
    | recv pid len expected =>
      rw [run_recv hid hrep.used]
      obtain ⟨l',hst,hrep'⟩ := recvBody_step hrep pid len hnb hold
      exact ⟨l',hst,hid,by simpa using hrep'⟩

/-- A queue neither loses, duplicates nor reorders messages along the runs whose
receives accept the oldest message; and a receive keeps the other messages exactly
when it does. -/
theorem queue_keeps_messages_iff_oldest_accepted (qid : ℕ) :
    (∀ l t, Trace ((queueRuns qid).guarded (OldestAccepted qid)) l t →
      ∃ pending, Trace pendingQueue l pending ∧ Represents (t qid) pending) ∧
    (∀ q pending, Represents q pending → ∀ pid len expected, (findMessage q expected).isSome →
        ((∃ pending',
            PendingStep pending (.recv pid len expected,(recvBody q pid len expected).1) pending' ∧
            Represents (recvBody q pid len expected).2.2 pending') ↔
          accepts expected (q.msgs (q.head % ipcMaxMsgPerQueue)) = true)) := by
  constructor
  · intro l t h
    obtain ⟨pending,htr,_,hrep⟩ := (oldestSimulation qid).trace h
    exact ⟨pending,htr,hrep⟩
  · intro q pending hrep pid len expected hsm
    constructor
    · rintro ⟨pending',-,hrep'⟩
      obtain ⟨k,hk⟩ := Option.isSome_iff_exists.mp hsm
      have hzr : k = 0 := by
        by_contra hne
        exact recvBody_later hrep pid len hk (by omega) _ hrep'
      subst hzr
      simpa using List.find?_some hk
    · exact recvBody_step hrep pid len hsm

def idleTable : Table := fun _ => ⟨false,fun _ => noMessage,0,0,[],[]⟩

/-- Receiving the first of two messages leaves the second. -/
theorem queue_keeps_second_message :
    let r := runCalls (Call.run 0) (harlinMsgCreate idleTable).2
      [.send 1 1 [10],.send 1 2 [20],.recv 2 64 1]
    ∃ pending, Trace pendingQueue ([] ++ r.1) pending ∧ Represents (r.2 0) pending := by
  apply (queue_keeps_messages_iff_oldest_accepted 0).1
  rw [queueRuns,System.guarded_guarded]
  refine trace_of_calls ⟨idleTable,rfl⟩ _ ⟨⟨?_,trivial⟩,⟨?_,trivial⟩,⟨?_,?_⟩,trivial⟩
  · show 0 < 16
    decide
  · show 1 < 16
    decide
  · show (findMessage _ 1).isSome = true
    decide
  · show accepts 1 _ = true
    decide

/-- Two messages of different types, then a receive of the second one. -/
def secondFirst : List Call := [.send 1 1 [10],.send 1 2 [20],.recv 2 64 2]

lemma secondFirst_runs : Trace (queueRuns 0)
    (runCalls (Call.run 0) (harlinMsgCreate idleTable).2 secondFirst).1
    (runCalls (Call.run 0) (harlinMsgCreate idleTable).2 secondFirst).2 := by
  refine trace_of_calls ⟨idleTable,rfl⟩ _ ⟨?_,?_,?_,trivial⟩
  · show 0 < 16
    decide
  · show 1 < 16
    decide
  · show (findMessage _ 2).isSome = true
    decide

/-- The first message is lost: the slot left in the queue is not a sent message. -/
theorem queue_loses_oldest_message :
    ∃ l t, Trace (queueRuns 0) l t ∧ l.map Prod.fst = secondFirst ∧
      ¬ ∃ pending, Trace pendingQueue l pending ∧ Represents (t 0) pending := by
  refine ⟨_,_,secondFirst_runs,rfl,?_⟩
  set q := (runCalls (Call.run 0) (harlinMsgCreate idleTable).2 secondFirst).2 0
  have hcn : q.count = 1 := by decide
  have hhd : q.head = 0 := by decide
  have hin : (q.msgs 0).valid = false := by decide
  rintro ⟨pending,-,hrep⟩
  have hsl := hrep.slots
  rw [hcn,hhd,contents_succ_first] at hsl
  cases hsl with
  | cons hm _ => exact absurd hm.valid (by simp [hin])

end HarlinKernel.MessageQueue
