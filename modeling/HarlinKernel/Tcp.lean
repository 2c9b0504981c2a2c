import HarlinKernel.TransitionSystem
import HarlinKernel.Ethernet

/-! The TCP connections of `net/network.c`. A call carries the list of packets that
arrive while it runs, so that losses, delays and duplicates are all possible; the frames
it sends are part of its result. -/
namespace HarlinKernel.Tcp

open TransitionSystem Ethernet
open Function (update)

def tcpFlagFin : UInt8 := 0x01
def tcpFlagSyn : UInt8 := 0x02
def tcpFlagRst : UInt8 := 0x04
def tcpFlagPsh : UInt8 := 0x08
def tcpFlagAck : UInt8 := 0x10

def maxTcpConn : ℕ := 8
def maxTcpSendSize : ℕ := 1500

inductive ConnState
  | closed | synSent | established | finSent
  deriving DecidableEq

structure Conn where
  state : ConnState
  sport : ℕ
  dport : ℕ
  seqLocal : ℕ
  seqRemote : ℕ
  remoteIp : ℕ → UInt8
  remoteMac : ℕ → UInt8
  macResolved : Bool
  unackedData : ℕ → UInt8
  unackedLen : ℕ
  unackedInFlight : Bool
  unackedSeq : ℕ

def Conn.zero : Conn where
  state := .closed
  sport := 0
  dport := 0
  seqLocal := 0
  seqRemote := 0
  remoteIp := fun _ => 0
  remoteMac := fun _ => 0
  macResolved := false
  unackedData := fun _ => 0
  unackedLen := 0
  unackedInFlight := false
  unackedSeq := 0

/-- The checksum over the pseudo header and the first `len` bytes of a segment. -/
def tcpComputeChecksum (srcIp dstIp seg : ℕ → UInt8) (len : ℕ) : ℕ :=
  netChecksum (bytes srcIp 4 ++ bytes dstIp 4 ++
    [0,ipProtoTcp,UInt8.ofNat (len / 2^8),UInt8.ofNat len] ++ bytes seg len)

def dwordBytes (v : ℕ) : List UInt8 :=
  [UInt8.ofNat (v / 2^24),UInt8.ofNat (v / 2^16),UInt8.ofNat (v / 2^8),UInt8.ofNat v]

/-- The 20 header bytes with a given checksum. -/
def tcpHeader (c : Conn) (flags : UInt8) (cksum : ℕ) : List UInt8 :=
  [UInt8.ofNat (c.sport / 2^8),UInt8.ofNat c.sport,UInt8.ofNat (c.dport / 2^8),
    UInt8.ofNat c.dport] ++ dwordBytes c.seqLocal ++ dwordBytes c.seqRemote ++
    [0x50,flags,0x20,0x00,UInt8.ofNat (cksum / 2^8),UInt8.ofNat cksum,0x00,0x00]

def tcpSegment (c : Conn) (h : Host) (flags : UInt8) (data : ℕ → UInt8) (len : ℕ) :
    List UInt8 :=
  let blank := tcpHeader c flags 0 ++ bytes data len
  let cksum := tcpComputeChecksum h.localIp c.remoteIp (blank.getD · 0) blank.length
  tcpHeader c flags cksum ++ bytes data len

/-- How far one segment moves `seq_local`. -/
def seqAdvance (flags : UInt8) (len : ℕ) : ℕ :=
  (if flags &&& tcpFlagSyn ≠ 0 then 1 else 0) +
    (if 0 < len ∧ flags &&& (tcpFlagSyn ||| tcpFlagFin) = 0 then len else 0)

def tcpBuildAndSend (c : Conn) (h : Host) (flags : UInt8) (data : ℕ → UInt8) (dataLen : ℕ) :
    Conn × Host :=
  let len := min dataLen 2028
  ({ c with seqLocal := (c.seqLocal+seqAdvance flags len) % 2^32 },
    ipSend h c.remoteMac c.remoteIp ipProtoTcp (tcpSegment c h flags data len))

def tcpVerifyChecksum (srcIp dstIp seg : ℕ → UInt8) (len : ℕ) : Bool :=
  let blank := fun i => if i = 16 ∨ i = 17 then 0 else seg i
  let computed := tcpComputeChecksum srcIp dstIp blank len
  word (seg 16) (seg 17) == if computed = 0 then 0xFFFF else computed

/-- For this connection, with all of its header in the frame and a good checksum. -/
def belongs (c : Conn) (p : Packet) : Bool :=
  word (p.tcp 0) (p.tcp 1) == c.dport && word (p.tcp 2) (p.tcp 3) == c.sport &&
    decide (p.tcpStart+p.tcpHdrLen ≤ p.len) &&
    tcpVerifyChecksum (fun i => p.rx (26+i)) (fun i => p.rx (30+i)) p.tcp (p.len-p.tcpStart)

inductive SynAnswer
  | ignored | reset | accepted (seq : ℕ)
  deriving DecidableEq

/-- What the connecting loop makes of a packet. -/
def synAnswer (c : Conn) (p : Packet) : SynAnswer :=
  if p.isTcp && belongs c p then
    if p.flags &&& tcpFlagRst ≠ 0 then .reset
    else if c.state = .synSent ∧
        p.flags &&& (tcpFlagSyn ||| tcpFlagAck) = tcpFlagSyn ||| tcpFlagAck then
      .accepted (p.seq)
    else .ignored
  else .ignored

/-- The waiting loop after a SYN. -/
def synWait (c : Conn) : ℕ → Host → SynAnswer × Host
  | 0, h => (.ignored,h)
  | timeout+1, h =>
    match netWaitPacket h with
    | (none,h) => synWait c timeout h
    | (some p,h) =>
      match synAnswer c p with
      | .ignored => synWait c timeout (arpRespond h p)
      | answer => (answer,arpRespond h p)

/-- The retry loop of `tcp_connect_conn` with `retries` SYNs left. -/
def synLoop : ℕ → ℕ → Conn → Host → Bool × Conn × Host
  | 0, _, c, h => (false,{ c with state := .closed },h)
  | retries+1, rto, c, h =>
    let (c,h) := tcpBuildAndSend c h tcpFlagSyn (fun _ => 0) 0
    match synWait c rto h with
    | (.reset,h) => (false,{ c with state := .closed },h)
    | (.accepted seq,h) =>
      let c := { c with seqRemote := (seq+1) % 2^32, state := .established }
      (true,tcpBuildAndSend c h tcpFlagAck (fun _ => 0) 0)
    | (.ignored,h) => synLoop retries (min (rto*2) 20000000) c h

def tcpConnectConn (c : Conn) (h : Host) : Bool × Conn × Host :=
  let (ok,h) := if c.macResolved then (true,h) else arpResolve h c.remoteIp
  if !ok then (false,c,h)
  else
    let c := if c.macResolved then c
      else { c with remoteMac := h.gatewayMac, macResolved := true }
    synLoop 5 1000000 { c with seqLocal := 1000, seqRemote := 0, state := .synSent } h

/-- The acknowledgement number of a packet that `tcp_wait_for_ack` looks at. -/
def ackOf (c : Conn) (p : Packet) : Option ℕ :=
  if p.isTcp && decide (p.tcpStart+20 ≤ p.len) && belongs c p then
    some (p.ack)
  else none

def tcpWaitForAck (c : Conn) (ackExpected : ℕ) : ℕ → Host → Bool × Host
  | 0, h => (false,h)
  | timeout+1, h =>
    match netWaitPacket h with
    | (none,h) => tcpWaitForAck c ackExpected timeout h
    | (some p,h) =>
      match ackOf c p with
      | some ack =>
        if ackExpected ≤ ack then (true,arpRespond h p)
        else tcpWaitForAck c ackExpected timeout (arpRespond h p)
      | none => tcpWaitForAck c ackExpected timeout (arpRespond h p)

def Conn.sent (c : Conn) : Conn :=
  { c with seqLocal := (c.seqLocal+c.unackedLen) % 2^32, unackedInFlight := false }

/-- The retry loop of `tcp_send_data_conn` with `retries` transmissions left. -/
def sendLoop : ℕ → ℕ → Conn → Host → Conn × Host
  | 0, _, c, h => (c.sent,h)
  | retries+1, rto, c, h =>
    let (c,h) := tcpBuildAndSend c h (tcpFlagPsh ||| tcpFlagAck) c.unackedData c.unackedLen
    match tcpWaitForAck c ((c.unackedSeq+c.unackedLen) % 2^32) rto h with
    | (true,h) => (c.sent,h)
    | (false,h) => sendLoop retries (min (rto*2) 16000000) c h

/-- The data to send, kept until it is acknowledged. -/
def Conn.load (c : Conn) (data : ℕ → UInt8) (copyLen : ℕ) : Conn :=
  { c with
    unackedData := fun i => if i < copyLen then data i else c.unackedData i
    unackedLen := copyLen
    unackedInFlight := true
    unackedSeq := c.seqLocal }

def tcpSendDataConn (c : Conn) (h : Host) (data : ℕ → UInt8) (dataLen : ℤ) : Conn × Host :=
  sendLoop 4 1000000 (c.load data (min dataLen.toNat maxTcpSendSize)) h

/-- What `tcp_recv_data_conn` does with a packet; a frame shorter than its headers has
negative data length. -/
inductive RecvAnswer
  | ignored | reset | fin | data (len : ℕ) | syn
  deriving DecidableEq

def recvAnswer (c : Conn) (p : Packet) : RecvAnswer :=
  if p.isTcp && decide (p.tcpStart+20 ≤ p.len) && belongs c p then
    let dataLen := p.len-(p.tcpStart+p.tcpHdrLen)
    if p.flags &&& tcpFlagRst ≠ 0 then .reset
    else if p.flags &&& tcpFlagFin ≠ 0 then .fin
    else if 0 < dataLen ∧ p.seq = c.seqRemote then .data dataLen
    else if p.flags &&& tcpFlagSyn ≠ 0 then .syn
    else .ignored
  else .ignored

def ackNow (c : Conn) (h : Host) : Conn × Host :=
  tcpBuildAndSend c h tcpFlagAck (fun _ => 0) 0

/-- The waiting loop of `tcp_recv_data_conn`: its result and the bytes delivered. -/
def recvLoop (maxLen : ℤ) : ℕ → Conn → Host → ℤ × List UInt8 × Conn × Host
  | 0, c, h => (0,[],c,h)
  | timeout+1, c, h =>
    match netWaitPacket h with
    | (none,h) => recvLoop maxLen timeout c h
    | (some p,h) =>
      let h := arpRespond h p
      match recvAnswer c p with
      | .ignored => recvLoop maxLen timeout c h
      | .reset => (-1,[],{ c with state := .closed },h)
      | .fin =>
        let (c,h) := ackNow { c with seqRemote := (c.seqRemote+1) % 2^32 } h
        (0,[],{ c with state := .closed },h)
      | .data len =>
        let copyLen := min (len : ℤ) maxLen
        let body := bytes (fun i => p.rx (p.tcpStart+p.tcpHdrLen+i)) copyLen.toNat
        (copyLen,body,ackNow { c with seqRemote := (c.seqRemote+len) % 2^32 } h)
      | .syn =>
        let (c,h) := ackNow { c with seqRemote := (p.seq+1) % 2^32 } h
        recvLoop maxLen timeout c h

structure State where
  host : Host
  conns : ℕ → Conn
  tcpNextSport : ℕ
  tcpTableLockInited : Bool

/-- A closed slot, zeroed. -/
def tcpAllocConn (s : State) : Option ℕ × State :=
  match (List.range maxTcpConn).find? fun i => (s.conns i).state = .closed with
  | none => (none,{ s with tcpTableLockInited := true })
  | some i =>
    (some i,{ s with conns := update s.conns i .zero, tcpTableLockInited := true })

/-- The addresses of a connection about to be opened. -/
def Conn.addressed (c : Conn) (sport : ℕ) (ip : ℕ → UInt8) (port : ℕ) : Conn :=
  { c with state := .closed, sport := sport, dport := port, remoteIp := ip, macResolved := false }

def tcpConnectRemote (s : State) (ip : ℕ → UInt8) (port : ℕ) : ℤ × State :=
  match tcpAllocConn s with
  | (none,s) => (-1,s)
  | (some id,s) =>
    let c := (s.conns id).addressed s.tcpNextSport ip port
    let s := { s with tcpNextSport := (s.tcpNextSport+1) % 2^16 }
    let (ok,c,h) := tcpConnectConn c s.host
    if ok then (id,{ s with conns := update s.conns id c, host := h })
    else
      let c := { c with state := .closed, macResolved := false }
      (-1,{ s with conns := update s.conns id c, host := h })

/-- The test that opens the calls on an open connection. -/
def State.refuses (s : State) (id : ℤ) : Bool :=
  decide (id < 0 ∨ (maxTcpConn : ℤ) ≤ id) || !s.tcpTableLockInited ||
    decide ((s.conns id.toNat).state = .closed)

def tcpSend (s : State) (id : ℤ) (data : ℕ → UInt8) (dataLen : ℤ) : ℤ × State :=
  if s.refuses id then (-1,s)
  else
    let (c,h) := tcpSendDataConn (s.conns id.toNat) s.host data dataLen
    (dataLen,{ s with conns := update s.conns id.toNat c, host := h })

def tcpRecv (s : State) (id maxLen timeout : ℤ) : ℤ × List UInt8 × State :=
  if s.refuses id then (-1,[],s)
  else
    let (rc,body,c,h) := recvLoop maxLen timeout.toNat (s.conns id.toNat) s.host
    (rc,body,{ s with conns := update s.conns id.toNat c, host := h })

def tcpCloseConnInternal (c : Conn) (h : Host) : Conn × Host :=
  if c.state = .established then
    tcpBuildAndSend { c with state := .finSent } h (tcpFlagFin ||| tcpFlagAck) (fun _ => 0) 0
  else (c,h)

def tcpCloseConn (s : State) (id : ℤ) : State :=
  if s.refuses id then s
  else
    let (c,h) := tcpCloseConnInternal (s.conns id.toNat) s.host
    let c := { c with state := .closed, macResolved := false }
    { s with conns := update s.conns id.toNat c, host := h }

/-- The frame that `tcp_build_and_send` hands to the card. -/
def tcpFrame (c : Conn) (h : Host) (flags : UInt8) (data : ℕ → UInt8) (len : ℕ) : List UInt8 :=
  let pay := (tcpSegment c h flags data len).take 2014
  let cksum := netChecksum (ipHeader h c.remoteIp ipProtoTcp pay.length 0)
  let pkt := bytes c.remoteMac 6 ++ bytes h.localMac 6 ++ [0x08,0x00] ++
    ipHeader h c.remoteIp ipProtoTcp pay.length cksum ++ pay
  pkt ++ List.replicate (60-pkt.length) 0

lemma tcpBuildAndSend_host (c : Conn) (h : Host) (flags : UInt8) (data : ℕ → UInt8) (n : ℕ) :
    (tcpBuildAndSend c h flags data n).2 =
      { h with sent := h.sent ++ [tcpFrame c h flags data (min n 2028)] } := by
  have hlen := List.length_take_le 2014 (tcpSegment c h flags data (min n 2028))
  apply rtlSendPacket_eq
  · simp
  · simp only [List.length_append,bytes_length,ipHeader_length,List.length_cons,List.length_nil,
      txBufSize]
    omega

lemma tcpFrame_headers (c : Conn) (h : Host) (flags : UInt8) (data : ℕ → UInt8) (n : ℕ) :
    ∃ len cksum cksum' rest, tcpFrame c h flags data n =
      bytes c.remoteMac 6 ++ bytes h.localMac 6 ++ [0x08,0x00] ++
        ipHeader h c.remoteIp ipProtoTcp len cksum ++ tcpHeader c flags cksum' ++ rest := by
  have htk : ∀ (k : ℕ) (l : List UInt8),
      (tcpHeader c flags k ++ l).take 2014 = tcpHeader c flags k ++ l.take 1994 := by
    simp [tcpHeader,dwordBytes]
  simp only [tcpFrame,tcpSegment,htk,List.append_assoc]
  exact ⟨_,_,_,_,rfl⟩

lemma tcpFrame_isTcp (c : Conn) (h : Host) (flags : UInt8) (data : ℕ → UInt8) (n : ℕ) :
    (Packet.of (tcpFrame c h flags data n)).isTcp = true := by
  obtain ⟨len,cksum,cksum',rest,hf⟩ := tcpFrame_headers c h flags data n
  rw [hf]
  simp [Packet.of,Packet.isTcp,bytes,List.range_succ,ipHeader,tcpHeader,dwordBytes]

lemma tcpFrame_tcp (c : Conn) (h : Host) (flags : UInt8) (data : ℕ → UInt8) (n : ℕ) :
    ∃ cksum, ∀ i < 20, (Packet.of (tcpFrame c h flags data n)).tcp i =
      (tcpHeader c flags cksum).getD i 0 := by
  obtain ⟨len,cksum,cksum',rest,hf⟩ := tcpFrame_headers c h flags data n
  refine ⟨cksum',fun i hi => ?_⟩
  rw [hf]
  have hst : (Packet.of (bytes c.remoteMac 6 ++ bytes h.localMac 6 ++ [0x08,0x00] ++
      ipHeader h c.remoteIp ipProtoTcp len cksum ++ tcpHeader c flags cksum' ++ rest)).tcpStart =
      34 := by
    simp [Packet.tcpStart,Packet.ipHdrLen,Packet.of,bytes,List.range_succ,ipHeader]
  rw [Packet.tcp,hst,Packet.of,List.append_assoc _ (tcpHeader _ _ _)]
  simp only
  rw [List.getD_append_right _ _ _ _ (by simp [bytes_length,ipHeader_length])]
  rw [List.getD_append _ _ _ _ (by simp [bytes_length,ipHeader_length,tcpHeader,dwordBytes]; omega)]
  simp [bytes_length,ipHeader_length]

lemma tcpFrame_flags (c : Conn) (h : Host) (flags : UInt8) (data : ℕ → UInt8) (n : ℕ) :
    (Packet.of (tcpFrame c h flags data n)).flags = flags := by
  obtain ⟨cksum,htcp⟩ := tcpFrame_tcp c h flags data n
  rw [Packet.flags,htcp 13 (by decide)]
  rfl

lemma tcpFrame_seq (c : Conn) (h : Host) (flags : UInt8) (data : ℕ → UInt8) (n : ℕ) :
    (Packet.of (tcpFrame c h flags data n)).seq = c.seqLocal % 2^32 := by
  obtain ⟨cksum,htcp⟩ := tcpFrame_tcp c h flags data n
  rw [Packet.seq,htcp 4 (by decide),htcp 5 (by decide),htcp 6 (by decide),htcp 7 (by decide)]
  simp [tcpHeader,dwordBytes,dword,word]
  omega

lemma tcpFrame_ack (c : Conn) (h : Host) (flags : UInt8) (data : ℕ → UInt8) (n : ℕ) :
    (Packet.of (tcpFrame c h flags data n)).ack = c.seqRemote % 2^32 := by
  obtain ⟨cksum,htcp⟩ := tcpFrame_tcp c h flags data n
  rw [Packet.ack,htcp 8 (by decide),htcp 9 (by decide),htcp 10 (by decide),htcp 11 (by decide)]
  simp [tcpHeader,dwordBytes,dword,word]
  omega

end HarlinKernel.Tcp
