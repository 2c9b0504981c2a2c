import HarlinKernel.TcpSequence

/-! The receive side of a connection. A peer sends pieces of a byte stream, the network loses,
repeats and reorders them; `tcp_recv` takes the piece that `seq_remote` asks for, acknowledges
all of it and copies what fits into the caller's buffer. -/
namespace HarlinKernel.TcpReceive

open TransitionSystem Ethernet Tcp TcpSequence

/-- The stream of a peer and the sequence number of its first byte. -/
structure Peer where
  stream : List UInt8
  base : ℕ

/-- The bytes behind the headers of a frame. -/
def payload (p : Packet) : List UInt8 :=
  bytes (fun i => p.rx (p.tcpStart+p.tcpHdrLen+i)) (p.len-(p.tcpStart+p.tcpHdrLen))

/-- A frame that carries the bytes of the stream from an offset on; FIN stands at its end. -/
structure Piece (peer : Peer) (p : Packet) (offset : ℕ) : Prop where
  inside : offset ≤ peer.stream.length
  seq : p.seq = (peer.base+offset) % 2^32
  bytes : payload p <+: peer.stream.drop offset
  fin : p.flags &&& tcpFlagFin ≠ 0 → offset+(payload p).length = peer.stream.length
  syn : p.flags &&& tcpFlagSyn = 0
  rst : p.flags &&& tcpFlagRst = 0

/-- The frame is for the connection, complete and with a good checksum. -/
def heard (c : Conn) (p : Packet) : Bool :=
  p.isTcp && decide (p.tcpStart+20 ≤ p.len) && belongs c p

/-- The calls on the connection, with the packets that arrive meanwhile. -/
inductive Call
  | recv (maxLen timeout : ℤ) (arrivals : List (Option Packet))
  | send (data : ℕ → UInt8) (len : ℤ) (arrivals : List (Option Packet))

def Call.arrivals : Call → List (Option Packet)
  | .recv _ _ arrivals => arrivals
  | .send _ _ arrivals => arrivals

/-- The connections and the bytes that `tcp_recv` has delivered. -/
structure Reception where
  tcp : State
  delivered : List UInt8

def Reception.conn (s : Reception) (id : ℤ) : Conn := s.tcp.conns id.toNat

def Call.run (id : ℤ) (s : Reception) : Call → Out × Reception
  | .recv maxLen timeout arrivals =>
    let r := tcpRecv (receiving s.tcp arrivals) id maxLen timeout
    (⟨r.1,r.2.1,r.2.2.host.sent⟩,⟨r.2.2,s.delivered ++ r.2.1⟩)
  | .send data len arrivals =>
    let r := tcpSend (receiving s.tcp arrivals) id data len
    (⟨r.1,[],r.2.host.sent⟩,⟨r.2,s.delivered⟩)

/-- The connection is open and waits for the first byte of the stream. -/
structure Opened (peer : Peer) (id : ℤ) (s : Reception) : Prop where
  accepts : s.tcp.refuses id = false
  first : (s.conn id).seqRemote = peer.base % 2^32
  delivered : s.delivered = []

/-- What the connection hears are pieces of the stream. -/
def FromPeer (peer : Peer) (id : ℤ) (s : Reception) (a : Call × Out) : Prop :=
  ∀ p, some p ∈ a.1.arrivals → heard (s.conn id) p = true → ∃ offset, Piece peer p offset

def receptions (peer : Peer) (id : ℤ) : System Reception (Call × Out) :=
  (calls (Opened peer id) (Call.run id)).guarded (FromPeer peer id)

/-- The bytes that the calls of a run have delivered. -/
def deliveredBy (l : List (Call × Out)) : List UInt8 := l.flatMap fun a => a.2.body

/-- The number acknowledges the delivered bytes, or all of the stream and its FIN. -/
def Acknowledges (peer : Peer) (d : List UInt8) (n : ℕ) : Prop :=
  n = (peer.base+d.length) % 2^32 ∨
    d = peer.stream ∧ n = (peer.base+peer.stream.length+1) % 2^32

/-- The first packet in time that `tcp_recv` does not pass over. -/
def taken (c : Conn) (timeout : ℕ) (arrivals : List (Option Packet)) : Option Packet :=
  (arrivals.take timeout).findSome? fun o => o.filter fun p => recvAnswer c p ≠ .ignored

/-- A FIN is taken only after all of the stream, and data only into a buffer where they fit. -/
def TakesWhole (peer : Peer) (id : ℤ) (s : Reception) (a : Call × Out) : Prop :=
  match a.1 with
  | .recv maxLen timeout arrivals => s.tcp.refuses id = false →
      ∀ p, taken (s.conn id) timeout.toNat arrivals = some p →
        (recvAnswer (s.conn id) p = .fin → s.delivered = peer.stream) ∧
        ∀ len, recvAnswer (s.conn id) p = .data len → (len : ℤ) ≤ maxLen
  | .send _ _ _ => True

/-- How `tcp_recv` ends with the packet it takes, unless that is a reset. -/
def takePacket (maxLen : ℤ) (c : Conn) (h : Host) (p : Packet) : ℤ × List UInt8 × Conn × Host :=
  match recvAnswer c p with
  | .fin =>
    let r := ackNow { c with seqRemote := (c.seqRemote+1) % 2^32 } h
    (0,[],{ r.1 with state := .closed },r.2)
  | .data len =>
    (min (len : ℤ) maxLen,
      bytes (fun i => p.rx (p.tcpStart+p.tcpHdrLen+i)) (min (len : ℤ) maxLen).toNat,
      ackNow { c with seqRemote := (c.seqRemote+len) % 2^32 } h)
  | _ => (0,[],c,h)

variable {c : Conn} {p : Packet} {d : List UInt8} {l : List (List UInt8)} {h : Host}

lemma taken_found (h : recvAnswer c p ≠ .ignored) (n : ℕ)
    (rest : List (Option Packet)) : taken c (n+1) (some p :: rest) = some p := by
  simp [taken,h]

lemma taken_skip {o : Option Packet} (h : ∀ p, o = some p → recvAnswer c p = .ignored)
    (n : ℕ) (rest : List (Option Packet)) : taken c (n+1) (o :: rest) = taken c n rest := by
  cases o with
  | none => simp [taken]
  | some p => simp [taken,h p rfl]

lemma recvLoop_taken (maxLen : ℤ) (n : ℕ) (c : Conn) (h : Host)
    (hpl : ∀ p, some p ∈ h.arrivals → recvAnswer c p ≠ .reset ∧ recvAnswer c p ≠ .syn) :
    ∃ h' l, (∀ f ∈ l, NotTcp f) ∧ h'.sent = h.sent ++ l ∧
      recvLoop maxLen n c h =
        match taken c n h.arrivals with
        | none => (0,[],c,h')
        | some p => takePacket maxLen c h' p := by
  induction n generalizing h with
  | zero => exact ⟨h,[],by simp,by simp,by simp [recvLoop,taken]⟩
  | succ n ih =>
    simp only [recvLoop,netWaitPacket]
    cases harr : h.arrivals with
    | nil =>
      obtain ⟨h',l,hl,hsn,hlp⟩ := ih h hpl
      refine ⟨h',l,hl,hsn,?_⟩
      rw [harr] at hlp
      simpa [taken] using hlp
    | cons o rest =>
      have hre : ∀ p, some p ∈ rest → recvAnswer c p ≠ .reset ∧ recvAnswer c p ≠ .syn := by
        intro p hp
        exact hpl p (by rw [harr]; exact List.mem_cons_of_mem _ hp)
      cases o with
      | none =>
        obtain ⟨h',l,hl,hsn,hlp⟩ := ih { h with arrivals := rest } hre
        refine ⟨h',l,hl,hsn,?_⟩
        rw [taken_skip (by simp)]
        exact hlp
      | some p =>
        obtain ⟨l,hl,hrs⟩ := arpRespond_sent { h with arrivals := rest } p
        obtain ⟨hrt,hsyn⟩ := hpl p (by rw [harr]; exact List.mem_cons_self)
        dsimp only
        cases hans : recvAnswer c p with
        | ignored =>
          obtain ⟨h',l',hl',hsn,hlp⟩ := ih (arpRespond { h with arrivals := rest } p)
            (by rw [hrs]; exact hre)
          refine ⟨h',l ++ l',?_,?_,?_⟩
          · intro f hf
            rcases List.mem_append.mp hf with hf | hf
            · exact hl f hf
            · exact hl' f hf
          · rw [hsn,hrs,List.append_assoc]
          · rw [taken_skip (by simpa using hans)]
            rw [hrs] at hlp ⊢
            exact hlp
        | reset => exact (hrt hans).elim
        | fin | data len =>
          refine ⟨arpRespond { h with arrivals := rest } p,l,hl,by rw [hrs],?_⟩
          rw [taken_found (by simp [hans])]
          simp [takePacket,hans]
        | syn => exact (hsyn hans).elim

section Steps

variable {peer : Peer} {id : ℤ} {s : Reception}

lemma Piece.plain {offset : ℕ} (h : Piece peer p offset) :
    recvAnswer c p ≠ .reset ∧ recvAnswer c p ≠ .syn := by
  have hrst := h.rst
  have hsyn := h.syn
  simp only [recvAnswer]
  constructor <;> split_ifs <;> simp_all

lemma recvAnswer_unheard (h : heard c p = false) : recvAnswer c p = .ignored := by
  rw [heard] at h
  simp [recvAnswer,h]

/-- Data are answered if they have the sequence number that the connection asks for. -/
lemma recvAnswer_data {len : ℕ} (h : recvAnswer c p = .data len) :
    len = (payload p).length ∧ p.seq = c.seqRemote := by
  rw [payload,bytes_length]
  simp only [recvAnswer] at h
  split_ifs at h with _ _ _ hsq
  exact ⟨by simpa using h.symm,hsq.2⟩

lemma taken_mem {n : ℕ} {arrivals : List (Option Packet)} (h : taken c n arrivals = some p) :
    some p ∈ arrivals := by
  obtain ⟨o,ho,hfl⟩ := List.exists_of_findSome?_eq_some h
  obtain ⟨rfl,-⟩ := Option.filter_eq_some_iff.mp hfl
  exact List.mem_of_mem_take ho

/-- In a stream of less than 2^32 bytes the sequence number tells the place of a piece. -/
lemma Piece.offset_eq {offset n : ℕ} (h : Piece peer p offset) (hsh : peer.stream.length < 2^32)
    (hn : n ≤ peer.stream.length) (hsq : p.seq = (peer.base+n) % 2^32) : offset = n := by
  have hin := h.inside
  have hps := h.seq
  omega

/-- What holds in every state: the delivered bytes begin the stream, and an open connection
asks for the byte behind them. -/
structure Sound (peer : Peer) (id : ℤ) (s : Reception) : Prop where
  begins : s.delivered <+: peer.stream
  asks : s.tcp.refuses id = false →
    (s.conn id).seqRemote = (peer.base+s.delivered.length) % 2^32

/-- The TCP frames acknowledge what has been delivered. -/
def AllAcknowledge (peer : Peer) (d : List UInt8) (sent : List (List UInt8)) : Prop :=
  ∀ f ∈ sent, (Packet.of f).isTcp = true → Acknowledges peer d (Packet.of f).ack

lemma allAcknowledge_notTcp (h : ∀ f ∈ l, NotTcp f) : AllAcknowledge peer d l := by
  intro f hf htcp
  rw [h f hf] at htcp
  cases htcp

lemma allAcknowledge_ackNow
    (hl : ∀ f ∈ l, NotTcp f) (hsn : h.sent = l) (hack : Acknowledges peer d (c.seqRemote % 2^32)) :
    AllAcknowledge peer d (ackNow c h).2.sent := by
  rw [ackNow,tcpBuildAndSend_host,hsn]
  intro f hf htcp
  rcases List.mem_append.mp hf with hf | hf
  · exact allAcknowledge_notTcp hl f hf htcp
  · rw [List.mem_singleton.mp hf,tcpFrame_ack]
    exact hack

/-- The state after a call that leaves the connection as `c`. -/
def Reception.with (s : Reception) (id : ℤ) (c : Conn) (h : Host) (d : List UInt8) : Reception :=
  ⟨{ s.tcp with conns := Function.update s.tcp.conns id.toNat c, host := h },d⟩

lemma Sound.with (hbg : d <+: peer.stream)
    (has : c.state ≠ .closed → c.seqRemote = (peer.base+d.length) % 2^32) :
    Sound peer id (s.with id c h d) := by
  refine ⟨hbg,?_⟩
  intro hop
  simp only [Reception.conn,Reception.with,Function.update_self]
  apply has
  intro hcl
  simp [State.refuses,Reception.with,hcl] at hop

lemma run_recv (hop : s.tcp.refuses id = false) (maxLen timeout : ℤ)
    (arrivals : List (Option Packet)) :
    Call.run id s (.recv maxLen timeout arrivals) =
      let r := recvLoop maxLen timeout.toNat (s.conn id) (receiving s.tcp arrivals).host
      (⟨r.1,r.2.1,r.2.2.2.sent⟩,s.with id r.2.2.1 r.2.2.2 (s.delivered ++ r.2.1)) := by
  have hop' : (receiving s.tcp arrivals).refuses id = false := hop
  simp only [Call.run,tcpRecv,hop',Bool.false_eq_true,if_false]
  rfl

lemma Piece.append (hd : d <+: peer.stream)
    (h : Piece peer p d.length) : d ++ payload p <+: peer.stream := by
  obtain ⟨rest,hrs⟩ := hd
  have hby := h.bytes
  rw [← hrs,List.drop_left] at hby
  rw [← hrs]
  exact (List.prefix_append_right_inj d).mpr hby

lemma Sound.recv {maxLen timeout : ℤ} {arrivals : List (Option Packet)} {o : Out}
    (hsh : peer.stream.length < 2^32) (h : Sound peer id s)
    (hpr : FromPeer peer id s (.recv maxLen timeout arrivals,o))
    (hor : TakesWhole peer id s (.recv maxLen timeout arrivals,o)) :
    Sound peer id (Call.run id s (.recv maxLen timeout arrivals)).2 ∧
    AllAcknowledge peer (Call.run id s (.recv maxLen timeout arrivals)).2.delivered
      (Call.run id s (.recv maxLen timeout arrivals)).1.sent := by
  cases hop : s.tcp.refuses id with
  | true =>
    have hfl : tcpRecv (receiving s.tcp arrivals) id maxLen timeout =
        (-1,[],receiving s.tcp arrivals) := if_pos hop
    simp only [Call.run,hfl,List.append_nil]
    refine ⟨⟨h.begins,h.asks⟩,?_⟩
    intro f hf
    cases hf
  | false =>
    have hpl : ∀ p, some p ∈ (receiving s.tcp arrivals).host.arrivals →
        recvAnswer (s.conn id) p ≠ .reset ∧ recvAnswer (s.conn id) p ≠ .syn := by
      intro p hp
      cases hhr : heard (s.conn id) p with
      | false =>
        rw [recvAnswer_unheard hhr]
        simp
      | true =>
        obtain ⟨offset,hpc⟩ := hpr p hp hhr
        exact hpc.plain
    obtain ⟨h',l,hl,hsn,hlp⟩ := recvLoop_taken maxLen timeout.toNat (s.conn id)
      (receiving s.tcp arrivals).host hpl
    replace hsn : h'.sent = l := hsn
    have has := h.asks hop
    replace hor := hor hop
    have hps : Sound peer id (s.with id (s.conn id) h' s.delivered) ∧
        AllAcknowledge peer s.delivered h'.sent := by
      rw [hsn]
      exact ⟨Sound.with h.begins fun _ => has,allAcknowledge_notTcp hl⟩
    rw [run_recv hop,hlp]
    cases htk : taken (s.conn id) timeout.toNat (receiving s.tcp arrivals).host.arrivals with
    | none =>
      simp only [List.append_nil]
      exact hps
    | some p =>
      obtain ⟨hfin,hdt⟩ := hor p htk
      simp only [takePacket]
      cases hans : recvAnswer (s.conn id) p with
      | ignored | reset | syn =>
        simp only [List.append_nil]
        exact hps
      | fin =>
        have hall := hfin hans
        simp only [List.append_nil]
        refine ⟨Sound.with h.begins fun hcl => (hcl rfl).elim,?_⟩
        apply allAcknowledge_ackNow hl hsn
        refine .inr ⟨hall,?_⟩
        dsimp only
        rw [has,hall]
        omega
      | data len =>
        have hft := hdt len hans
        obtain ⟨hlen,hsq⟩ := recvAnswer_data hans
        have hpc : Piece peer p s.delivered.length := by
          have hhr : heard (s.conn id) p = true := by
            by_contra hno
            rw [recvAnswer_unheard (Bool.eq_false_iff.mpr hno)] at hans
            cases hans
          obtain ⟨offset,hpc⟩ := hpr p (taken_mem htk) hhr
          obtain rfl := hpc.offset_eq hsh h.begins.length_le (hsq.trans has)
          exact hpc
        have hcp : bytes (fun i => p.rx (p.tcpStart+p.tcpHdrLen+i)) (min (len : ℤ) maxLen).toNat =
            payload p := by
          rw [min_eq_left hft,Int.toNat_natCast,hlen,payload,bytes_length]
        have hnx : ((s.conn id).seqRemote+len) % 2^32 =
            (peer.base+(s.delivered ++ payload p).length) % 2^32 := by
          rw [has,List.length_append,hlen]
          omega
        simp only [hcp,hnx]
        refine ⟨Sound.with (hpc.append h.begins) fun _ => rfl,?_⟩
        apply allAcknowledge_ackNow hl hsn
        exact .inl (Nat.mod_mod _ _)

lemma sendLoop_remote (retries rto : ℕ) (c : Conn) (h : Host) :
    (sendLoop retries rto c h).1.seqRemote = c.seqRemote ∧
      (sendLoop retries rto c h).1.state = c.state ∧
      ∃ l, (sendLoop retries rto c h).2.sent = h.sent ++ l ∧
        ∀ f ∈ l, (Packet.of f).isTcp = true → (Packet.of f).ack = c.seqRemote % 2^32 := by
  induction retries generalizing rto c h with
  | zero => exact ⟨rfl,rfl,[],by simp [sendLoop],by simp⟩
  | succ retries ih =>
    have hhs := tcpBuildAndSend_host c h (tcpFlagPsh ||| tcpFlagAck) c.unackedData c.unackedLen
    have hrm : (tcpBuildAndSend c h (tcpFlagPsh ||| tcpFlagAck) c.unackedData
        c.unackedLen).1.seqRemote = c.seqRemote ∧ (tcpBuildAndSend c h (tcpFlagPsh ||| tcpFlagAck)
        c.unackedData c.unackedLen).1.state = c.state := ⟨rfl,rfl⟩
    rcases hb : tcpBuildAndSend c h (tcpFlagPsh ||| tcpFlagAck) c.unackedData c.unackedLen
      with ⟨c',h'⟩
    rw [hb] at hhs hrm
    dsimp only at hhs hrm
    generalize hf : tcpFrame c h (tcpFlagPsh ||| tcpFlagAck) c.unackedData
      (min c.unackedLen 2028) = f at hhs
    obtain ⟨l,hl,hsn⟩ := tcpWaitForAck_sent c' ((c'.unackedSeq+c'.unackedLen) % 2^32) rto h'
    have hfr : ∀ g ∈ f :: l, (Packet.of g).isTcp = true →
        (Packet.of g).ack = c.seqRemote % 2^32 := by
      intro g hg htcp
      rcases List.mem_cons.mp hg with rfl | hg
      · rw [← hf]
        exact tcpFrame_ack _ _ _ _ _
      · rw [hl g hg] at htcp
        cases htcp
    simp only [sendLoop,hb]
    split
    · rename_i h'' hw
      rw [hw] at hsn
      refine ⟨hrm.1,hrm.2,f :: l,?_,hfr⟩
      rw [hsn,hhs]
      simp
    rename_i h'' hw
    rw [hw] at hsn
    obtain ⟨hseq,hst,l',hsn',hl'⟩ := ih (min (rto*2) 16000000) c' h''
    refine ⟨hseq.trans hrm.1,hst.trans hrm.2,f :: l ++ l',?_,?_⟩
    · rw [hsn',hsn,hhs]
      simp
    · intro g hg htcp
      rcases List.mem_append.mp hg with hg | hg
      · exact hfr g hg htcp
      · rw [hl' g hg htcp,hrm.1]

lemma Sound.send (h : Sound peer id s) (data : ℕ → UInt8) (len : ℤ)
    (arrivals : List (Option Packet)) :
    Sound peer id (Call.run id s (.send data len arrivals)).2 ∧
    AllAcknowledge peer (Call.run id s (.send data len arrivals)).2.delivered
      (Call.run id s (.send data len arrivals)).1.sent := by
  cases hop : s.tcp.refuses id with
  | true =>
    have hfl : tcpSend (receiving s.tcp arrivals) id data len = (-1,receiving s.tcp arrivals) :=
      if_pos hop
    simp only [Call.run,hfl]
    refine ⟨⟨h.begins,h.asks⟩,?_⟩
    intro f hf
    cases hf
  | false =>
    have hop' : (receiving s.tcp arrivals).refuses id = false := hop
    have has := h.asks hop
    obtain ⟨hseq,-,l,hsn,hl⟩ := sendLoop_remote 4 1000000
      ((s.conn id).load data (min len.toNat maxTcpSendSize)) (receiving s.tcp arrivals).host
    have hrun : Call.run id s (.send data len arrivals) =
        let r := sendLoop 4 1000000 ((s.conn id).load data (min len.toNat maxTcpSendSize))
          (receiving s.tcp arrivals).host
        (⟨len,[],r.2.sent⟩,s.with id r.1 r.2 s.delivered) := by
      simp only [Call.run,tcpSend,hop',Bool.false_eq_true,if_false]
      rfl
    rw [hrun]
    generalize sendLoop 4 1000000 ((s.conn id).load data (min len.toNat maxTcpSendSize))
      (receiving s.tcp arrivals).host = r at hseq hsn ⊢
    refine ⟨Sound.with h.begins fun _ => hseq.trans has,?_⟩
    intro f hf htcp
    have hf' : f ∈ l := by
      rw [← show r.2.sent = l from hsn]
      exact hf
    refine .inl ?_
    rw [hl f hf' htcp,← hseq,hseq.trans has]
    exact Nat.mod_mod _ _

lemma Sound.step {a : Call × Out} {t : Reception} (hsh : peer.stream.length < 2^32)
    (h : Sound peer id s) (hst : ((receptions peer id).guarded (TakesWhole peer id)).step s a t) :
    Sound peer id t ∧ AllAcknowledge peer t.delivered a.2.sent ∧
      t.delivered = s.delivered ++ a.2.body := by
  rcases a with ⟨call,o⟩
  obtain ⟨⟨hrun,hpr⟩,hor⟩ := hst
  cases call with
  | recv maxLen timeout arrivals =>
    obtain ⟨hnx,hall⟩ := h.recv hsh hpr hor
    cases hrun
    exact ⟨hnx,hall,rfl⟩
  | send data len arrivals =>
    obtain ⟨hnx,hall⟩ := h.send data len arrivals
    rw [show Call.run id s (.send data len arrivals) = (o,t) from hrun] at hnx hall
    cases hrun
    exact ⟨hnx,hall,(List.append_nil _).symm⟩

lemma Sound.of_trace {l : List (Call × Out)} (hsh : peer.stream.length < 2^32)
    (h : Trace ((receptions peer id).guarded (TakesWhole peer id)) l s) :
    Sound peer id s ∧ s.delivered = deliveredBy l := by
  refine h.invariant (fun l s => Sound peer id s ∧ s.delivered = deliveredBy l) ?_ ?_
  · intro s hs
    refine ⟨⟨?_,fun _ => ?_⟩,hs.delivered⟩
    · rw [hs.delivered]
      exact List.nil_prefix
    · rw [hs.first,hs.delivered]
      rfl
  · rintro l s a t ⟨hsn,hdl⟩ hst
    obtain ⟨hnx,-,hbd⟩ := hsn.step hsh hst
    refine ⟨hnx,?_⟩
    rw [hbd,hdl]
    simp [deliveredBy]

/-- If the buffers are large enough and FIN comes last, what is delivered begins the stream, and
every acknowledgement that a call sends is one of bytes that were delivered by then. -/
theorem stream_received (peer : Peer) (id : ℤ) (l : List (Call × Out)) (s : Reception)
    (hshort : peer.stream.length < 2^32)
    (h : Trace ((receptions peer id).guarded (TakesWhole peer id)) l s) :
    deliveredBy l <+: peer.stream ∧
      ∀ l₁ a l₂, l = l₁ ++ a :: l₂ → AllAcknowledge peer (deliveredBy (l₁ ++ [a])) a.2.sent := by
  refine ⟨?_,?_⟩
  · obtain ⟨hsn,hdl⟩ := Sound.of_trace hshort h
    rw [← hdl]
    exact hsn.begins
  · rintro l₁ a l₂ rfl
    obtain ⟨t,u,htr,hst⟩ := h.step_of_prefix (show l₁ ++ [a] <+: _ by simp)
    rw [← (Sound.of_trace hshort (htr.next hst)).2]
    exact ((Sound.of_trace hshort htr).1.step hshort hst).2.1

end Steps

/-- The connection that `connectOnce` opens; the peer's first byte has the number 1. -/
def opened : Reception := ⟨(runCalls TcpSequence.Call.run idle [connectOnce]).2,[]⟩

/-- Sixteen letters. -/
def letters : Peer := ⟨[65,66,67,68,69,70,71,72,73,74,75,76,77,78,79,80],1⟩

/-- A frame from port 80 to port 40000 with eight bytes, the last digit of its sequence number
and its checksum. -/
def eightBytes (seq₀ first sum₁ sum₀ : UInt8) : Packet :=
  .of [0,0,0,0,0,0,0,0,0,0,0,0,8,0,0x45,0,0,0,0,0,0,0,0,6,0,0,0,0,0,0,0,0,0,0,
    0,80,0x9C,0x40,0,0,0,seq₀,0,0,0,0,0x50,0x18,0,0,sum₁,sum₀,0,0,
    first,first+1,first+2,first+3,first+4,first+5,first+6,first+7]

lemma opened_letters : Opened letters 0 opened :=
  ⟨by decide,by decide,rfl⟩

lemma piece_first : Piece letters (eightBytes 1 65 0x02 0x1F) 0 :=
  ⟨by decide,by decide,by decide,by decide,by decide,by decide⟩

lemma piece_second : Piece letters (eightBytes 9 73 0xE1 0xF6) 8 :=
  ⟨by decide,by decide,by decide,by decide,by decide,by decide⟩

/-- Eight bytes into a buffer of a hundred. -/
theorem stream_received_eight :
    ∃ l s, Trace ((receptions letters 0).guarded (TakesWhole letters 0)) l s ∧
      deliveredBy l = [65,66,67,68,69,70,71,72] ∧ deliveredBy l <+: letters.stream := by
  have hhr : recvAnswer (opened.conn 0) (eightBytes 1 65 0x02 0x1F) = .data 8 := by
    decide
  have hok : CallsMeet (Call.run 0) (fun s a => FromPeer letters 0 s a ∧ TakesWhole letters 0 s a)
      opened [.recv 100 1 [some (eightBytes 1 65 0x02 0x1F)]] := by
    refine ⟨⟨?_,?_⟩,trivial⟩
    · intro p hp _
      obtain rfl : p = _ := by simpa [Call.arrivals] using hp
      exact ⟨0,piece_first⟩
    intro _ p hp
    have hfn := taken_found (c:=opened.conn 0) (p:=eightBytes 1 65 0x02 0x1F)
      (by rw [hhr]; simp) 0 []
    cases hfn.symm.trans hp
    refine ⟨?_,?_⟩
    · intro hfin
      rw [hhr] at hfin
      cases hfin
    · intro len hlen
      obtain rfl := RecvAnswer.data.inj hlen
      decide
  have hrun := trace_of_calls opened_letters _ hok
  rw [← System.guarded_guarded] at hrun
  refine ⟨_,_,hrun,?_,(stream_received letters 0 _ _ (by decide) hrun).1⟩
  decide

/-- The same stream read four bytes at a time: what does not fit is acknowledged and lost. -/
theorem stream_loses_bytes : ∃ l s, Trace (receptions letters 0) l s ∧
    deliveredBy l = [65,66,67,68,73,74,75,76] ∧ ¬ deliveredBy l <+: letters.stream := by
  have hpc : ∀ s : Reception, ∀ a : Call × Out,
      (∀ p, some p ∈ a.1.arrivals → p = eightBytes 1 65 0x02 0x1F ∨ p = eightBytes 9 73 0xE1 0xF6) →
        FromPeer letters 0 s a := by
    intro s a harr p hp _
    rcases harr p hp with rfl | rfl
    · exact ⟨0,piece_first⟩
    · exact ⟨8,piece_second⟩
  have hok : CallsMeet (Call.run 0) (FromPeer letters 0) opened
      [.recv 4 1 [some (eightBytes 1 65 0x02 0x1F)],
        .recv 4 1 [some (eightBytes 9 73 0xE1 0xF6)]] := by
    refine ⟨hpc _ _ ?_,hpc _ _ ?_,trivial⟩
    · intro p hp
      exact .inl (by simpa [Call.arrivals] using hp)
    · intro p hp
      exact .inr (by simpa [Call.arrivals] using hp)
  have hrun := trace_of_calls opened_letters _ hok
  have hby : deliveredBy (runCalls (Call.run 0) opened
      [.recv 4 1 [some (eightBytes 1 65 0x02 0x1F)],
        .recv 4 1 [some (eightBytes 9 73 0xE1 0xF6)]]).1 =
      [65,66,67,68,73,74,75,76] := by
    decide
  refine ⟨_,_,hrun,hby,?_⟩
  rw [hby]
  decide

end HarlinKernel.TcpReceive
