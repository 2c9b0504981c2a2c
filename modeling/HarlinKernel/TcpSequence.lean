import HarlinKernel.Tcp

/-! The sequence numbers of the send side. `seq_local` is advanced by the segment
builder, for a SYN and for data, and once more by the send loop; the law that it counts
the bytes sent is compared with this over runs of all calls. -/
namespace HarlinKernel.TcpSequence

open TransitionSystem Ethernet Tcp
open Function (update update_self update_of_ne)

/-- A call with the packets that arrive during it. -/
inductive Call
  | connect (ip : ℕ → UInt8) (port : ℕ) (arrivals : List (Option Packet))
  | send (id : ℤ) (data : ℕ → UInt8) (len : ℤ) (arrivals : List (Option Packet))
  | recv (id maxLen timeout : ℤ) (arrivals : List (Option Packet))
  | close (id : ℤ)

/-- The return code, the bytes delivered and the frames sent by a call. -/
structure Out where
  rc : ℤ
  body : List UInt8
  sent : List (List UInt8)

/-- The state at the beginning of a call. -/
def receiving (s : State) (arrivals : List (Option Packet)) : State :=
  { s with host := { s.host with arrivals := arrivals, sent := [] } }

def Call.run (s : State) : Call → Out × State
  | .connect ip port arrivals =>
    let r := tcpConnectRemote (receiving s arrivals) ip port
    (⟨r.1,[],r.2.host.sent⟩,r.2)
  | .send id data len arrivals =>
    let r := tcpSend (receiving s arrivals) id data len
    (⟨r.1,[],r.2.host.sent⟩,r.2)
  | .recv id maxLen timeout arrivals =>
    let r := tcpRecv (receiving s arrivals) id maxLen timeout
    (⟨r.1,r.2.1,r.2.2.host.sent⟩,r.2.2)
  | .close id =>
    let t := tcpCloseConn (receiving s []) id
    (⟨0,[],t.host.sent⟩,t)

/-- The static variables before the first call. -/
structure Boot (s : State) : Prop where
  conns : s.conns = fun _ => .zero
  sport : s.tcpNextSport = 40000
  lock : s.tcpTableLockInited = false

def SendFits (_ : State) (a : Call × Out) : Prop :=
  match a.1 with
  | .send _ _ len _ => 0 ≤ len ∧ len ≤ maxTcpSendSize
  | _ => True

def tcpRuns : System State (Call × Out) := (calls Boot Call.run).guarded SendFits

/-- A TCP frame with one of these flags. -/
def HasFlag (flag : UInt8) (f : List UInt8) : Prop :=
  (Packet.of f).isTcp = true ∧ (Packet.of f).flags &&& flag ≠ 0

/-- All transmissions of a segment carry the same sequence number. -/
def SameSeq (flag : UInt8) (sent : List (List UInt8)) : Prop :=
  ∀ f ∈ sent, ∀ g ∈ sent, HasFlag flag f → HasFlag flag g →
    (Packet.of f).seq = (Packet.of g).seq

/-- The law of one call: retransmissions of its SYN or of its data repeat the sequence
number, and a completed send of `len` bytes advances `seq_local` by `len`. -/
def SeqLaw (s : State) (a : Call × Out) (t : State) : Prop :=
  match a.1 with
  | .connect _ _ _ => SameSeq tcpFlagSyn a.2.sent
  | .send id _ len _ => s.refuses id = false →
      SameSeq tcpFlagPsh a.2.sent ∧
        ((t.conns id.toNat).seqLocal : ℤ) = ((s.conns id.toNat).seqLocal+len) % 2^32
  | _ => True

/-- The data bytes of the completed sends since the connection was opened. -/
def dataBytes (c : ℕ) (l : List (Call × Out)) : ℕ :=
  l.foldl (fun n a =>
    match a.1 with
    | .connect _ _ _ => if a.2.rc = c then 0 else n
    | .send id _ len _ => if id = c ∧ a.2.rc = len then n+len.toNat else n
    | _ => n) 0

/-- The answers that end the wait after a SYN: a reset, or SYN and ACK. -/
def AnswersSyn (sport dport : ℕ) (p : Packet) : Prop :=
  synAnswer { Conn.zero with state := .synSent, sport := sport, dport := dport } p ≠ .ignored

/-- The first SYN of a connection is answered in time, and sends carry no data. -/
def FirstTry (s : State) (a : Call × Out) : Prop :=
  match a.1 with
  | .connect ip port arrivals => (∃ i < maxTcpConn, (s.conns i).state = .closed) →
      ∀ rest, FirstReply ip 5000 arrivals rest →
        ∃ p, some p ∈ rest.take 1000000 ∧ AnswersSyn s.tcpNextSport port p
  | .send id _ len _ => s.refuses id = false → len = 0
  | _ => True

lemma synWait_sent (c : Conn) (n : ℕ) (h : Host) :
    ∃ l, (∀ f ∈ l, NotTcp f) ∧ (synWait c n h).2.sent = h.sent ++ l := by
  induction n generalizing h with
  | zero => exact ⟨[],by simp,by simp [synWait]⟩
  | succ n ih =>
    simp only [synWait,netWaitPacket]
    cases h.arrivals with
    | nil => exact ih h
    | cons o rest =>
      cases o with
      | none => exact ih { h with arrivals := rest }
      | some p =>
        obtain ⟨l,hl,hrs⟩ := arpRespond_sent { h with arrivals := rest } p
        dsimp only
        rw [hrs]
        split
        · obtain ⟨l',hl',hsn⟩ := ih { h with arrivals := rest, sent := h.sent ++ l }
          refine ⟨l ++ l',?_,?_⟩
          · intro f hf
            rcases List.mem_append.mp hf with hf | hf
            · exact hl f hf
            · exact hl' f hf
          · rw [hsn,List.append_assoc]
        · exact ⟨l,hl,rfl⟩

lemma arpRespond_arrivals (h : Host) (p : Packet) : (arpRespond h p).arrivals = h.arrivals := by
  obtain ⟨l,-,hrs⟩ := arpRespond_sent h p
  rw [hrs]

lemma synWait_ignored (c : Conn) (n : ℕ) (h : Host) : (synWait c n h).1 = .ignored ↔ ∀ p,
    some p ∈ h.arrivals.take n → synAnswer c p = .ignored := by
  induction n generalizing h with
  | zero => simp [synWait]
  | succ n ih =>
    simp only [synWait,netWaitPacket]
    cases harr : h.arrivals with
    | nil =>
      have hnx := ih h
      rw [harr] at hnx
      simpa using hnx
    | cons o rest =>
      cases o with
      | none =>
        have hnx := ih { h with arrivals := rest }
        simpa using hnx
      | some p =>
        cases hans : synAnswer c p with
        | ignored =>
          have hnx := ih (arpRespond { h with arrivals := rest } p)
          rw [arpRespond_arrivals] at hnx
          simp [hnx,hans]
        | reset => simp [hans]
        | accepted seq => simp [hans]

lemma not_flag {f : List UInt8} (h : NotTcp f) (flag : UInt8) : ¬ HasFlag flag f := by
  intro hf
  rw [NotTcp,hf.1] at h
  cases h

lemma hasFlag_tcpFrame (c : Conn) (h : Host) (flags : UInt8) (data : ℕ → UInt8) (n : ℕ)
    (flag : UInt8) : HasFlag flag (tcpFrame c h flags data n) ↔ flags &&& flag ≠ 0 := by
  rw [HasFlag,tcpFrame_flags]
  simp [tcpFrame_isTcp]

lemma sameSeq_single {flag : UInt8} {pre post : List (List UInt8)} (f : List UInt8)
    (hpre : ∀ g ∈ pre, ¬ HasFlag flag g) (hps : ∀ g ∈ post, ¬ HasFlag flag g) :
    SameSeq flag (pre ++ f :: post) := by
  have hon : ∀ g ∈ pre ++ f :: post, HasFlag flag g → g = f := by
    intro g hg hfl
    rcases List.mem_append.mp hg with hg | hg
    · exact (hpre g hg hfl).elim
    · rcases List.mem_cons.mp hg with hg | hg
      · exact hg
      · exact (hps g hg hfl).elim
  intro g hg g' hg' hfl hfl'
  rw [hon g hg hfl,hon g' hg' hfl']

lemma build_syn (c : Conn) (h : Host) :
    tcpBuildAndSend c h tcpFlagSyn (fun _ => 0) 0 =
      ({ c with seqLocal := (c.seqLocal+1) % 2^32 },
         { h with sent := h.sent ++ [tcpFrame c h tcpFlagSyn (fun _ => 0) 0] }) :=
  Prod.ext rfl (tcpBuildAndSend_host c h tcpFlagSyn (fun _ => 0) 0)

lemma build_ack (c : Conn) (h : Host) (hc : c.seqLocal < 2^32) {flags : UInt8}
    (hfl : flags &&& tcpFlagSyn = 0) :
    tcpBuildAndSend c h flags (fun _ => 0) 0 =
      (c,{ h with sent := h.sent ++ [tcpFrame c h flags (fun _ => 0) 0] }) := by
  refine Prod.ext ?_ (tcpBuildAndSend_host c h flags (fun _ => 0) 0)
  have hseq : (c.seqLocal+seqAdvance flags 0) % 2^32 = c.seqLocal := by
    simpa [seqAdvance,hfl] using hc
  simp only [tcpBuildAndSend,Nat.zero_min,hseq]

variable {rto port : ℕ} {h : Host} {s t : State} {ip : ℕ → UInt8} {id len : ℤ}
  {arrivals : List (Option Packet)} {o : Out} {a : Call × Out}

lemma synLoop_answered (retries : ℕ) (c : Conn) (hrt : retries ≠ 0)
    (hans : ∃ p, some p ∈ h.arrivals.take rto ∧ synAnswer c p ≠ .ignored) :
    (∃ f l, (∀ g ∈ l, ¬ HasFlag tcpFlagSyn g) ∧
      (synLoop retries rto c h).2.2.sent = h.sent ++ f :: l) ∧
    ((synLoop retries rto c h).1 = true →
      (synLoop retries rto c h).2.1.seqLocal = (c.seqLocal+1) % 2^32) := by
  obtain ⟨retries,rfl⟩ := Nat.exists_eq_succ_of_ne_zero hrt
  simp only [synLoop,build_syn]
  set f := tcpFrame c h tcpFlagSyn (fun _ => 0) 0
  set c' : Conn := { c with seqLocal := (c.seqLocal+1) % 2^32 }
  set h' : Host := { h with sent := h.sent ++ [f] } with hh'
  obtain ⟨l,hl,hsn⟩ := synWait_sent c' rto h'
  have hnot : ∀ g ∈ l, ¬ HasFlag tcpFlagSyn g := fun g hg => not_flag (hl g hg) _
  have han : (synWait c' rto h').1 ≠ .ignored := by
    rw [Ne,synWait_ignored]
    intro hall
    obtain ⟨p,hp,hpa⟩ := hans
    exact hpa (hall p hp)
  rcases hw : synWait c' rto h' with ⟨answer,h''⟩
  rw [hw] at hsn han
  have hsn' : h''.sent = h.sent ++ f :: l := by simpa [hh'] using hsn
  cases answer with
  | ignored => exact (han rfl).elim
  | reset => exact ⟨⟨f,l,hnot,hsn'⟩,by simp⟩
  | accepted seq =>
    have hmod : (c.seqLocal+1) % 2^32 < 2^32 := Nat.mod_lt _ (by decide)
    dsimp only
    rw [build_ack _ _ hmod (by decide)]
    refine ⟨⟨f,l ++ [tcpFrame { c' with seqRemote := (seq+1) % 2^32, state := .established } h''
      tcpFlagAck (fun _ => 0) 0],?_,?_⟩,fun _ => rfl⟩
    · intro g hg
      rcases List.mem_append.mp hg with hg | hg
      · exact hnot g hg
      · rw [List.mem_singleton.mp hg,hasFlag_tcpFrame]
        decide
    · rw [hsn',List.append_assoc]
      rfl

lemma synLoop_first (retries rto : ℕ) (c : Conn) (h : Host) :
    ∃ l, (synLoop retries rto c h).2.2.sent = h.sent ++ l ∧
      (retries ≠ 0 → ∃ l', l = tcpFrame c h tcpFlagSyn (fun _ => 0) 0 :: l') := by
  induction retries generalizing rto c h with
  | zero => exact ⟨[],by simp [synLoop],by simp⟩
  | succ retries ih =>
    simp only [synLoop,build_syn]
    set c' : Conn := { c with seqLocal := (c.seqLocal+1) % 2^32 }
    set h' : Host := { h with sent := h.sent ++ [tcpFrame c h tcpFlagSyn (fun _ => 0) 0] } with hh'
    obtain ⟨l,-,hsn⟩ := synWait_sent c' rto h'
    rcases hw : synWait c' rto h' with ⟨answer,h''⟩
    rw [hw,hh'] at hsn
    simp only [List.append_assoc,List.singleton_append] at hsn
    cases answer with
    | ignored =>
      obtain ⟨l',hl',-⟩ := ih (min (rto*2) 20000000) c' h''
      dsimp only
      rw [hl',hsn,List.append_assoc]
      exact ⟨_,rfl,fun _ => ⟨_,rfl⟩⟩
    | reset => exact ⟨_,hsn,fun _ => ⟨_,rfl⟩⟩
    | accepted seq =>
      dsimp only
      rw [tcpBuildAndSend_host,hsn,List.append_assoc]
      exact ⟨_,rfl,fun _ => ⟨_,rfl⟩⟩

/-- Without an answer the SYN is sent again, one sequence number later. -/
theorem synLoop_retry (retries : ℕ) (c : Conn) (hrt : 2 ≤ retries)
    (hans : ∀ p, some p ∈ h.arrivals.take rto → synAnswer c p = .ignored) :
    ¬ SameSeq tcpFlagSyn (synLoop retries rto c h).2.2.sent := by
  obtain ⟨retries,rfl⟩ := Nat.exists_eq_add_of_le' hrt
  rw [synLoop]
  simp only [build_syn]
  set f := tcpFrame c h tcpFlagSyn (fun _ => 0) 0 with hf
  set c' : Conn := { c with seqLocal := (c.seqLocal+1) % 2^32 } with hc'
  set h' : Host := { h with sent := h.sent ++ [f] } with hh'
  obtain ⟨l,-,hsn⟩ := synWait_sent c' rto h'
  have hig : (synWait c' rto h').1 = .ignored := (synWait_ignored c' rto h').mpr hans
  rcases hw : synWait c' rto h' with ⟨answer,h''⟩
  rw [hw] at hsn hig
  obtain rfl : answer = .ignored := hig
  dsimp only at hsn ⊢
  obtain ⟨l',hl',hfr⟩ := synLoop_first (retries+1) (min (rto*2) 20000000) c' h''
  obtain ⟨l'',rfl⟩ := hfr (Nat.succ_ne_zero _)
  rw [hl',hsn]
  intro hsm
  have heq := hsm f (by simp [hh']) (tcpFrame c' h'' tcpFlagSyn (fun _ => 0) 0) (by simp)
    ((hasFlag_tcpFrame _ _ _ _ _ _).mpr (by decide))
    ((hasFlag_tcpFrame _ _ _ _ _ _).mpr (by decide))
  rw [hf,tcpFrame_seq,tcpFrame_seq,hc'] at heq
  simp only at heq
  omega

/-- The connection and host with which `tcp_connect_conn` enters its retry loop. -/
def synReady (c : Conn) (h : Host) : Conn :=
  { c with remoteMac := h.gatewayMac, macResolved := true, seqLocal := 1000, seqRemote := 0,
           state := .synSent }

lemma tcpConnectConn_addressed (sport : ℕ) (ip : ℕ → UInt8) (port : ℕ) (h : Host) :
    tcpConnectConn (Conn.zero.addressed sport ip port) h =
      if (arpResolve h ip).1 then
        synLoop 5 1000000 (synReady (Conn.zero.addressed sport ip port) (arpResolve h ip).2)
          (arpResolve h ip).2
      else (false,Conn.zero.addressed sport ip port,(arpResolve h ip).2) := by
  rcases harp : arpResolve h ip with ⟨ok,h'⟩
  cases ok with
  | true => simp [tcpConnectConn,Conn.addressed,Conn.zero,harp,synReady]
  | false => simp [tcpConnectConn,Conn.addressed,Conn.zero,harp]

lemma arpResolve_sent (h : Host) (ip : ℕ → UInt8) :
    ∃ f, NotTcp f ∧ (arpResolve h ip).2.sent = h.sent ++ [f] := by
  obtain ⟨f,hf,hsn⟩ := rtlSendPacket_arp h (fun _ => 0xFF) (fun _ => 0) ip 1
  exact ⟨f,hf,by rw [arpResolve,arpWait_sent,hsn]⟩

lemma arpResolve_iff (h : Host) (ip : ℕ → UInt8) (rest : List (Option Packet)) :
    ((arpResolve h ip).1 = true ∧ (arpResolve h ip).2.arrivals = rest) ↔
      FirstReply ip 5000 h.arrivals rest := by
  obtain ⟨f,-,hsn⟩ := rtlSendPacket_arp h (fun _ => 0xFF) (fun _ => 0) ip 1
  rw [arpResolve,arpWait_iff,hsn]

lemma connect_sameSeq (sport : ℕ) (ip : ℕ → UInt8) (port : ℕ) (h : Host) (hsn : h.sent = []) :
    SameSeq tcpFlagSyn (tcpConnectConn (Conn.zero.addressed sport ip port) h).2.2.sent ↔
      ∀ rest, FirstReply ip 5000 h.arrivals rest →
        ∃ p, some p ∈ rest.take 1000000 ∧ AnswersSyn sport port p := by
  obtain ⟨f,hf,harp⟩ := arpResolve_sent h ip
  rw [hsn,List.nil_append] at harp
  rw [tcpConnectConn_addressed]
  split
  · rename_i hok
    have hfr := (arpResolve_iff h ip _).mp ⟨hok,rfl⟩
    by_cases hans : ∃ p, some p ∈ (arpResolve h ip).2.arrivals.take 1000000 ∧
        AnswersSyn sport port p
    · obtain ⟨⟨g,l,hl,hlp⟩,-⟩ := synLoop_answered 5
        (synReady (Conn.zero.addressed sport ip port) (arpResolve h ip).2) (by decide) hans
      refine iff_of_true ?_ fun rest hrs => ?_
      · rw [hlp,harp]
        exact sameSeq_single g (by simpa using not_flag hf _) hl
      · rw [← ((arpResolve_iff h ip rest).mpr hrs).2]
        exact hans
    · refine iff_of_false ?_ fun hall => hans (hall _ hfr)
      refine synLoop_retry 5 _ (by decide) fun p hp => ?_
      by_contra hne
      exact hans ⟨p,hp,hne⟩
  · rename_i hok
    refine iff_of_true ?_ fun rest hrs => ?_
    · rw [harp]
      change SameSeq tcpFlagSyn ([] ++ f :: [])
      exact sameSeq_single f (by simp) (by simp)
    · exact (hok ((arpResolve_iff h ip rest).mpr hrs).1).elim

lemma tcpWaitForAck_sent (c : Conn) (ack n : ℕ) (h : Host) :
    ∃ l, (∀ f ∈ l, NotTcp f) ∧ (tcpWaitForAck c ack n h).2.sent = h.sent ++ l := by
  induction n generalizing h with
  | zero => exact ⟨[],by simp,by simp [tcpWaitForAck]⟩
  | succ n ih =>
    have hrs : ∀ (h' : Host) (l : List (List UInt8)), (∀ f ∈ l, NotTcp f) →
        h'.sent = h.sent ++ l → ∃ l, (∀ f ∈ l, NotTcp f) ∧
          (tcpWaitForAck c ack n h').2.sent = h.sent ++ l := by
      intro h' l hl hsn
      obtain ⟨l',hl',hsn'⟩ := ih h'
      refine ⟨l ++ l',fun f hf => ?_,?_⟩
      · rcases List.mem_append.mp hf with hf | hf
        · exact hl f hf
        · exact hl' f hf
      · rw [hsn',hsn,List.append_assoc]
    simp only [tcpWaitForAck,netWaitPacket]
    cases h.arrivals with
    | nil => exact ih h
    | cons o rest =>
      cases o with
      | none => exact ih { h with arrivals := rest }
      | some p =>
        obtain ⟨l,hl,hre⟩ := arpRespond_sent { h with arrivals := rest } p
        dsimp only
        rw [hre]
        split
        · split
          · exact ⟨l,hl,rfl⟩
          · exact hrs _ l hl rfl
        · exact hrs _ l hl rfl

lemma seqAdvance_psh (n : ℕ) : seqAdvance (tcpFlagPsh ||| tcpFlagAck) n = n := by
  have hsyn : (tcpFlagPsh ||| tcpFlagAck) &&& tcpFlagSyn = 0 := by decide
  have hfin : (tcpFlagPsh ||| tcpFlagAck) &&& (tcpFlagSyn ||| tcpFlagFin) = 0 := by decide
  rw [seqAdvance,hsyn,hfin]
  by_cases hn : 0 < n
  · simp [hn]
  · simp [Nat.eq_zero_of_not_pos hn]

/-- Each of the `k` transmissions advances `seq_local` by the length, and so does the end. -/
theorem sendLoop_seq (retries rto : ℕ) (c : Conn) (h : Host) (hlen : c.unackedLen ≤ 2028) :
    (∃ k ≤ retries, (retries ≠ 0 → k ≠ 0) ∧ (sendLoop retries rto c h).1.seqLocal =
    (c.seqLocal+c.unackedLen*(k+1)) % 2^32) ∧ (sendLoop retries rto c h).1.state = c.state := by
  induction retries generalizing rto c h with
  | zero => exact ⟨⟨0,le_rfl,by simp,by simp [sendLoop,Conn.sent]⟩,rfl⟩
  | succ retries ih =>
    have hbl : (tcpBuildAndSend c h (tcpFlagPsh ||| tcpFlagAck) c.unackedData
        c.unackedLen).1 = { c with seqLocal := (c.seqLocal+c.unackedLen) % 2^32 } := by
      simp [tcpBuildAndSend,Nat.min_eq_left hlen,seqAdvance_psh]
    rcases hb : tcpBuildAndSend c h (tcpFlagPsh ||| tcpFlagAck) c.unackedData c.unackedLen
      with ⟨c',h'⟩
    rw [hb] at hbl
    obtain rfl : c' = _ := hbl
    simp only [sendLoop,hb]
    split
    · refine ⟨⟨1,Nat.le_add_left 1 retries,by simp,?_⟩,rfl⟩
      simp only [Conn.sent,Nat.mod_add_mod]
      congr 1
      ring
    rename_i h'' _
    obtain ⟨⟨k,hk,-,hseq⟩,hst⟩ := ih (min (rto*2) 16000000)
      { c with seqLocal := (c.seqLocal+c.unackedLen) % 2^32 } h'' hlen
    refine ⟨⟨k+1,Nat.succ_le_succ hk,by simp,?_⟩,hst⟩
    rw [hseq]
    simp only [Nat.mod_add_mod]
    congr 1
    ring

lemma sendLoop_empty (retries rto : ℕ) (c : Conn) (h : Host) (hlen : c.unackedLen = 0) :
    ∃ l, (sendLoop retries rto c h).2.sent = h.sent ++ l ∧
      ∀ g ∈ l, HasFlag tcpFlagPsh g → (Packet.of g).seq = c.seqLocal % 2^32 := by
  induction retries generalizing rto c h with
  | zero => exact ⟨[],by simp [sendLoop],by simp⟩
  | succ retries ih =>
    have hbl : tcpBuildAndSend c h (tcpFlagPsh ||| tcpFlagAck) c.unackedData c.unackedLen =
        ({ c with seqLocal := c.seqLocal % 2^32 }, { h with sent := h.sent ++
          [tcpFrame c h (tcpFlagPsh ||| tcpFlagAck) c.unackedData 0] }) := by
      refine Prod.ext ?_ ?_
      · simp [tcpBuildAndSend,hlen,seqAdvance_psh]
      · rw [tcpBuildAndSend_host,hlen,Nat.zero_min]
    simp only [sendLoop,hbl]
    set f := tcpFrame c h (tcpFlagPsh ||| tcpFlagAck) c.unackedData 0
    set c' : Conn := { c with seqLocal := c.seqLocal % 2^32 } with hc'
    obtain ⟨l,hl,hsn⟩ := tcpWaitForAck_sent c' ((c'.unackedSeq+c'.unackedLen) % 2^32) rto
      { h with sent := h.sent ++ [f] }
    have hfr : ∀ g ∈ f :: l, HasFlag tcpFlagPsh g → (Packet.of g).seq = c.seqLocal % 2^32 := by
      intro g hg hfl
      rcases List.mem_cons.mp hg with rfl | hg
      · exact tcpFrame_seq _ _ _ _ _
      · exact (not_flag (hl g hg) _ hfl).elim
    split
    · rename_i h'' hw
      rw [hw] at hsn
      exact ⟨f :: l,by simpa using hsn,hfr⟩
    rename_i h'' hw
    rw [hw] at hsn
    obtain ⟨l',hsn',hl'⟩ := ih (min (rto*2) 16000000) c' h'' hlen
    refine ⟨f :: l ++ l',?_,fun g hg => ?_⟩
    · rw [hsn',hsn]
      simp
    · rcases List.mem_append.mp hg with hg | hg
      · exact hfr g hg
      · intro hfl
        rw [hl' g hg hfl,hc']
        exact Nat.mod_mod _ _

lemma ackNow_conn (c : Conn) (h : Host) (hc : c.seqLocal < 2^32) : (ackNow c h).1 = c := by
  rw [ackNow,build_ack c h hc (by decide)]

lemma recvLoop_state (maxLen : ℤ) (n : ℕ) (c : Conn) (h : Host) :
    (recvLoop maxLen n c h).2.2.1.state = .closed ∨
      (recvLoop maxLen n c h).2.2.1.state = c.state := by
  induction n generalizing c h with
  | zero => exact .inr rfl
  | succ n ih =>
    simp only [recvLoop,netWaitPacket]
    cases h.arrivals with
    | nil => exact ih c h
    | cons o rest =>
      cases o with
      | none => exact ih c _
      | some p =>
        dsimp only
        cases recvAnswer c p with
        | ignored => exact ih c _
        | reset => exact .inl rfl
        | fin => exact .inl rfl
        | data len => exact .inr rfl
        | syn => exact ih _ _

lemma recvLoop_seq (maxLen : ℤ) (n : ℕ) (c : Conn) (h : Host) (hc : c.seqLocal < 2^32) :
    (recvLoop maxLen n c h).2.2.1.seqLocal = c.seqLocal := by
  induction n generalizing c h with
  | zero => rfl
  | succ n ih =>
    simp only [recvLoop,netWaitPacket]
    cases h.arrivals with
    | nil => exact ih c h hc
    | cons o rest =>
      cases o with
      | none => exact ih c _ hc
      | some p =>
        dsimp only
        cases recvAnswer c p with
        | ignored => exact ih c _ hc
        | reset => rfl
        | fin =>
          rw [ackNow_conn]
          exact hc
        | data len =>
          dsimp only
          rw [ackNow_conn]
          exact hc
        | syn =>
          dsimp only
          rw [ackNow_conn]
          · exact ih { c with seqRemote := (p.seq+1) % 2^32 } _ hc
          · exact hc

lemma tcpConnectRemote_full
    (hfl : ¬ ∃ i < maxTcpConn, (s.conns i).state = .closed) (ip : ℕ → UInt8) (port : ℕ) :
    tcpConnectRemote s ip port = (-1,{ s with tcpTableLockInited := true }) := by
  have hno : (List.range maxTcpConn).find? (fun i => (s.conns i).state = .closed) = none := by
    rw [List.find?_eq_none]
    intro i hi
    simpa using fun hcl => hfl ⟨i,List.mem_range.mp hi,hcl⟩
  simp [tcpConnectRemote,tcpAllocConn,hno]

lemma tcpConnectRemote_slot (hfr : ∃ i < maxTcpConn, (s.conns i).state = .closed)
    {r : Bool × Conn × Host}
    (hr : tcpConnectConn (Conn.zero.addressed s.tcpNextSport ip port) s.host = r) :
    ∃ i < maxTcpConn, ∃ c, (tcpConnectRemote s ip port).2.conns = update s.conns i c ∧
      (tcpConnectRemote s ip port).2.host = r.2.2 ∧
      ((c.state = .closed ∧ (tcpConnectRemote s ip port).1 = -1) ∨
        (r.1 = true ∧ c = r.2.1 ∧ (tcpConnectRemote s ip port).1 = i)) := by
  obtain ⟨i,hi⟩ : ∃ i, (List.range maxTcpConn).find? (fun i => (s.conns i).state = .closed) =
      some i := by
    rw [← Option.isSome_iff_exists,List.find?_isSome]
    obtain ⟨i,hi,hcl⟩ := hfr
    exact ⟨i,List.mem_range.mpr hi,by simpa using hcl⟩
  refine ⟨i,List.mem_range.mp (List.mem_of_find?_eq_some hi),?_⟩
  simp only [tcpConnectRemote,tcpAllocConn,hi,update_self,Function.update_idem,hr]
  split
  · rename_i hok
    exact ⟨_,rfl,rfl,.inr ⟨hok,rfl,rfl⟩⟩
  · exact ⟨_,rfl,rfl,.inl ⟨rfl,rfl⟩⟩

lemma connect_seq (sport : ℕ) (ip : ℕ → UInt8) (port : ℕ) (h : Host) (hfr : ∀ rest,
    FirstReply ip 5000 h.arrivals rest → ∃ p, some p ∈ rest.take 1000000 ∧ AnswersSyn sport port p)
    (hok : (tcpConnectConn (Conn.zero.addressed sport ip port) h).1 = true) :
    (tcpConnectConn (Conn.zero.addressed sport ip port) h).2.1.seqLocal = 1001 := by
  rw [tcpConnectConn_addressed] at hok ⊢
  split_ifs at hok with harp
  have hans := hfr _ ((arpResolve_iff h ip _).mp ⟨harp,rfl⟩)
  obtain ⟨-,hseq⟩ := synLoop_answered 5
    (synReady (Conn.zero.addressed sport ip port) (arpResolve h ip).2) (by decide) hans
  rw [if_pos harp,hseq hok]
  rfl

lemma tcpSend_seq (hop : s.refuses id = false) (data : ℕ → UInt8) (hlen : len ≤ maxTcpSendSize) :
    ∃ c, (tcpSend s id data len).2.conns = update s.conns id.toNat c ∧
      c.state = (s.conns id.toNat).state ∧ (tcpSend s id data len).1 = len ∧
      ∃ k ≤ 4, k ≠ 0 ∧ c.seqLocal = ((s.conns id.toNat).seqLocal+len.toNat*(k+1)) % 2^32 := by
  have hcp : min len.toNat maxTcpSendSize = len.toNat := by omega
  have hmax : ((s.conns id.toNat).load data len.toNat).unackedLen ≤ 2028 := by
    have hsz : maxTcpSendSize = 1500 := rfl
    have hld : ((s.conns id.toNat).load data len.toNat).unackedLen = len.toNat := rfl
    omega
  obtain ⟨⟨k,hk,hk0,hseq⟩,hst⟩ := sendLoop_seq 4 1000000 _ s.host hmax
  have hrun : tcpSend s id data len = (len,{ s with
      conns := update s.conns id.toNat
        (sendLoop 4 1000000 ((s.conns id.toNat).load data len.toNat) s.host).1
      host := (sendLoop 4 1000000 ((s.conns id.toNat).load data len.toNat) s.host).2 }) := by
    simp [tcpSend,hop,tcpSendDataConn,hcp]
  rw [hrun]
  exact ⟨_,rfl,hst,rfl,k,hk,hk0 (by decide),hseq⟩

lemma connect_law (h : Call.run s (.connect ip port arrivals) = (o,t)) :
    SeqLaw s (.connect ip port arrivals,o) t ↔ FirstTry s (.connect ip port arrivals,o) := by
  cases h
  by_cases hfr : ∃ i < maxTcpConn, (s.conns i).state = .closed
  · have hlaw := connect_sameSeq s.tcpNextSport ip port (receiving s arrivals).host rfl
    generalize hr : tcpConnectConn (Conn.zero.addressed s.tcpNextSport ip port)
      (receiving s arrivals).host = r at hlaw
    obtain ⟨i,-,c,-,hhs,-⟩ := tcpConnectRemote_slot (s:=receiving s arrivals) hfr hr
    simp only [SeqLaw,FirstTry,hfr,true_implies]
    rw [hhs]
    exact hlaw
  · have hrun := tcpConnectRemote_full (s:=receiving s arrivals) hfr ip port
    simp only [SeqLaw,FirstTry,hfr,false_implies,iff_true]
    rw [hrun]
    intro f hf
    cases hf

lemma send_law {data : ℕ → UInt8} (h : Call.run s (.send id data len arrivals) = (o,t))
    (hlen : 0 ≤ len ∧ len ≤ maxTcpSendSize) : SeqLaw s (.send id data len arrivals,o) t ↔
    FirstTry s (.send id data len arrivals,o) := by
  cases h
  refine forall_congr' fun hop => ?_
  obtain ⟨c,hcn,-,-,k,hk,hk0,hseq⟩ := tcpSend_seq (s:=receiving s arrivals) hop data hlen.2
  have hmax : (maxTcpSendSize : ℤ) = 1500 := rfl
  have had : ((c.seqLocal : ℤ) = ((s.conns id.toNat).seqLocal+len) % 2^32) ↔ len = 0 := by
    obtain ⟨n,rfl⟩ := Int.eq_ofNat_of_zero_le hlen.1
    have hseq' : c.seqLocal = ((s.conns id.toNat).seqLocal+n*(k+1)) % 2^32 := hseq
    have hcs : k = 1 ∨ k = 2 ∨ k = 3 ∨ k = 4 := by omega
    rcases hcs with rfl | rfl | rfl | rfl <;> omega
  rw [hcn,update_self,had]
  refine ⟨fun h => h.2,fun hzr => ⟨?_,hzr⟩⟩
  subst hzr
  obtain ⟨l,hsn,hl⟩ := sendLoop_empty 4 1000000 ((s.conns id.toNat).load data 0)
    (receiving s arrivals).host rfl
  have hrun : (tcpSend (receiving s arrivals) id data 0).2.host.sent = l := by
    have hop' : (receiving s arrivals).refuses id = false := hop
    have hcp : min (0 : ℤ).toNat maxTcpSendSize = 0 := rfl
    simp only [tcpSend,hop',tcpSendDataConn,hcp]
    exact hsn
  rw [hrun]
  intro f hf g hg hff hgf
  rw [hl f hf hff,hl g hg hgf]

lemma seqLaw_iff (h : tcpRuns.step s a t) : SeqLaw s a t ↔ FirstTry s a := by
  obtain ⟨hrun,hft⟩ := h
  rcases a with ⟨c,o⟩
  cases c with
  | connect ip port arrivals => exact connect_law hrun
  | send id data len arrivals => exact send_law hrun hft
  | recv id maxLen timeout arrivals => exact Iff.rfl
  | close id => exact Iff.rfl

/-- An open connection has counted its SYN and its data bytes. -/
def Counts (c : ℕ) (l : List (Call × Out)) (s : State) : Prop :=
  (s.conns c).state = .established → (s.conns c).seqLocal = (1001+dataBytes c l) % 2^32

lemma dataBytes_snoc (c : ℕ) (l : List (Call × Out)) (a : Call × Out) :
    dataBytes c (l ++ [a]) =
      match a.1 with
      | .connect _ _ _ => if a.2.rc = c then 0 else dataBytes c l
      | .send id _ len _ => if id = c ∧ a.2.rc = len then dataBytes c l+len.toNat else dataBytes c l
      | _ => dataBytes c l := by
  simp [dataBytes]

lemma Counts.step {c : ℕ} {l : List (Call × Out)} (h : Counts c l s) (hsp : tcpRuns.step s a t)
    (hok : FirstTry s a) : Counts c (l ++ [a]) t := by
  obtain ⟨hrun,hft⟩ := hsp
  rcases a with ⟨call,o⟩
  rw [Counts,dataBytes_snoc]
  cases call with
  | connect ip port arrivals =>
    cases hrun
    by_cases hfr : ∃ i < maxTcpConn, (s.conns i).state = .closed
    · have hseq := connect_seq s.tcpNextSport ip port (receiving s arrivals).host (hok hfr)
      generalize hr : tcpConnectConn (Conn.zero.addressed s.tcpNextSport ip port)
        (receiving s arrivals).host = r at hseq
      obtain ⟨i,-,c',hcn,-,hcs⟩ :=
        tcpConnectRemote_slot (s:=receiving s arrivals) hfr hr
      dsimp only
      rw [hcn]
      intro hest
      by_cases hi : c = i
      · subst hi
        rw [update_self] at hest ⊢
        rcases hcs with ⟨hcl,-⟩ | ⟨hyes,rfl,hrc⟩
        · rw [hcl] at hest
          cases hest
        · rw [if_pos hrc]
          exact hseq hyes
      · rw [update_of_ne hi] at hest ⊢
        rw [if_neg]
        · exact h hest
        · rcases hcs with ⟨-,hrc⟩ | ⟨-,-,hrc⟩ <;> omega
    · dsimp only
      rw [tcpConnectRemote_full (s:=receiving s arrivals) hfr ip port,if_neg (by simp)]
      exact h
  | send id data len arrivals =>
    cases hrun
    cases hop : s.refuses id with
    | true =>
      have hop' : (receiving s arrivals).refuses id = true := hop
      have hfl : tcpSend (receiving s arrivals) id data len = (-1,receiving s arrivals) := by
        simp [tcpSend,hop']
      have hlen : ¬ (id = c ∧ (-1 : ℤ) = len) := by
        have := hft.1
        omega
      dsimp only
      rw [hfl,if_neg hlen]
      exact h
    | false =>
      have hzr : len = 0 := hok hop
      subst hzr
      obtain ⟨c',hcn,hst,-,k,-,-,hseq⟩ :=
        tcpSend_seq (s:=receiving s arrivals) hop data hft.2
      dsimp only
      rw [hcn]
      intro hest
      have hby : (if id = (c : ℤ) ∧ (tcpSend (receiving s arrivals) id data 0).1 = 0 then
          dataBytes c l+(0 : ℤ).toNat else dataBytes c l) = dataBytes c l := by
        split <;> rfl
      rw [hby]
      by_cases hi : c = id.toNat
      · subst hi
        rw [update_self] at hest ⊢
        have hold := h (hst.symm.trans hest)
        have hseq' : c'.seqLocal = ((s.conns id.toNat).seqLocal+0) % 2^32 := by
          simpa [receiving] using hseq
        rw [hseq',hold]
        exact Nat.mod_mod _ _
      · rw [update_of_ne hi] at hest ⊢
        exact h hest
  | recv id maxLen timeout arrivals =>
    cases hrun
    dsimp only
    rw [tcpRecv]
    split
    · exact h
    dsimp only
    intro hest
    by_cases hi : c = id.toNat
    · subst hi
      rw [update_self] at hest ⊢
      have hold : (s.conns id.toNat).state = .established := by
        rcases recvLoop_state maxLen timeout.toNat (s.conns id.toNat) (receiving s arrivals).host
          with hcl | hsm
        · exact ConnState.noConfusion (hcl.symm.trans hest)
        · exact hsm.symm.trans hest
      have hlt : (s.conns id.toNat).seqLocal < 2^32 := by
        rw [h hold]
        exact Nat.mod_lt _ (by decide)
      rw [← h hold]
      exact recvLoop_seq maxLen timeout.toNat (s.conns id.toNat) (receiving s arrivals).host hlt
    · rw [update_of_ne hi] at hest ⊢
      exact h hest
  | close id =>
    cases hrun
    dsimp only
    rw [tcpCloseConn]
    split
    · exact h
    dsimp only
    intro hest
    by_cases hi : c = id.toNat
    · subst hi
      rw [update_self] at hest
      cases hest
    · rw [update_of_ne hi] at hest ⊢
      exact h hest

/-- In runs whose calls all meet the condition an open connection has counted exactly its
bytes and each call obeys the law; and a call obeys the law only if it meets the condition. -/
theorem seq_law_iff_first_try (c : ℕ) :
    (∀ l s, Trace (tcpRuns.guarded FirstTry) l s → Counts c l s ∧
      ∀ a t, (tcpRuns.guarded FirstTry).step s a t → SeqLaw s a t) ∧
    ∀ s a t, tcpRuns.step s a t → (SeqLaw s a t ↔ FirstTry s a) := by
  refine ⟨fun l s h => ⟨?_,fun a t hst => (seqLaw_iff hst.1).mpr hst.2⟩,
    fun s a t => seqLaw_iff⟩
  refine h.invariant (Counts c) (fun s hs hest => ?_) ?_
  · rw [hs.conns] at hest
    cases hest
  · rintro l s a t hl ⟨hst,hok⟩
    exact hl.step hst hok

/-- A machine with address 0.0.0.0 before its first call. -/
def idle : State where
  host := ⟨fun _ => 0,fun _ => 0,fun _ => 0,false,false,[],[]⟩
  conns := fun _ => .zero
  tcpNextSport := 40000
  tcpTableLockInited := false

/-- A reply to an ARP request as `arp_resolve` reads it. -/
def arpReply : Packet where
  len := 60
  rx i := if i = 12 then 8 else if i = 13 then 6 else if i = 20 then 2 else 0

/-- A TCP frame from port 80 to port 40000 with the given flags, acknowledgement number
(two bytes) and checksum. -/
def answer (flags ack₁ ack₀ sum₁ sum₀ : UInt8) : Packet where
  len := 60
  rx i := ([0,0,0,0,0,0,0,0,0,0,0,0,8,0,0x45,0,0,0,0,0,0,0,0,6,0,0,0,0,0,0,0,0,0,0,
    0,80,0x9C,0x40,0,0,0,0,0,0,ack₁,ack₀,0x50,flags,0,0,sum₁,sum₀] : List UInt8).getD i 0

def connectOnce : Call :=
  .connect (fun _ => 0) 80 [some arpReply,some (answer 0x12 0 0 0x13 0x3D)]

lemma idle_boot : Boot idle := ⟨rfl,rfl,rfl⟩

/-- One byte, acknowledged at once. -/
def sendOnce : Call :=
  .send 0 (fun _ => 65) 1 [some (answer 0x10 0x03 0xEA 0x0F 0x55)]

theorem seq_law_first_try_connect :
    ∃ l s, Trace (tcpRuns.guarded FirstTry) l s ∧ l.map Prod.fst = [connectOnce] ∧
      (s.conns 0).state = .established ∧ (s.conns 0).seqLocal = 1001 ∧ Counts 0 l s := by
  have hok : CallsMeet Call.run (fun s a => SendFits s a ∧ FirstTry s a) idle [connectOnce] := by
    refine ⟨⟨trivial,fun _ rest hrs => ?_⟩,trivial⟩
    have hrp : arpReplies (fun _ => 0) arpReply = true := by decide
    obtain rfl := (FirstReply.found hrp).mp hrs
    exact ⟨answer 0x12 0 0 0x13 0x3D,by simp,by unfold AnswersSyn; decide⟩
  have hrun := trace_of_calls idle_boot _ hok
  rw [← System.guarded_guarded] at hrun
  exact ⟨_,_,hrun,rfl,by decide,by decide,((seq_law_iff_first_try 0).1 _ _ hrun).1⟩

/-- After one byte `seq_local` is 1003: the builder and the send loop both counted it. -/
theorem seq_counts_byte_twice :
    ∃ l s, Trace tcpRuns l s ∧ l.map Prod.fst = [connectOnce,sendOnce] ∧
      (s.conns 0).state = .established ∧ dataBytes 0 l = 1 ∧ (s.conns 0).seqLocal = 1003 ∧
      ¬ Counts 0 l s := by
  have hrun : Trace tcpRuns _ _ :=
    trace_of_calls idle_boot [connectOnce,sendOnce] ⟨trivial,⟨by decide,by decide⟩,trivial⟩
  have hst : ((runCalls Call.run idle [connectOnce,sendOnce]).2.conns 0).state =
      .established := by decide
  have hby : dataBytes 0 (runCalls Call.run idle [connectOnce,sendOnce]).1 = 1 := by
    decide
  have hseq : ((runCalls Call.run idle [connectOnce,sendOnce]).2.conns 0).seqLocal = 1003 := by
    decide
  refine ⟨_,_,hrun,rfl,hst,hby,hseq,fun hcn => ?_⟩
  have heq := hcn hst
  rw [hseq,hby] at heq
  omega

end HarlinKernel.TcpSequence
