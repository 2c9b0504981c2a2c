import Mathlib.Data.List.GetD
import Mathlib.Tactic

/-! The frame layer of `net/network.c`: the checksum, IP and ARP frames and waiting for
a packet. What the card receives is an input: `arrivals` lists what the next calls of
`net_wait_packet` return. The frames passed to `rtl_send_packet` are kept in order. -/
namespace HarlinKernel.Ethernet

/-- A receive buffer after `net_wait_packet` returned `len`; what stands above `len` is
whatever the buffer held. -/
structure Packet where
  len : ℕ
  rx : ℕ → UInt8

structure Host where
  localMac : ℕ → UInt8
  localIp : ℕ → UInt8
  gatewayMac : ℕ → UInt8
  gatewayResolved : Bool
  dhcpInProgress : Bool
  arrivals : List (Option Packet)
  sent : List (List UInt8)

/-- The first `n` bytes of an array. -/
def bytes (a : ℕ → UInt8) (n : ℕ) : List UInt8 := (List.range n).map a

/-- Two bytes read most significant first. -/
def word (hi lo : UInt8) : ℕ := hi.toNat*2^8+lo.toNat

/-- Four bytes read most significant first. -/
def dword (a b c d : UInt8) : ℕ := word a b*2^16+word c d

/-- The summing loop of `net_checksum` on a 32-bit accumulator. -/
def checksumLoop : List UInt8 → ℕ → ℕ
  | a :: b :: rest, sum => checksumLoop rest ((sum+word a b) % 2^32)
  | [a], sum => (sum+word a 0) % 2^32
  | [], sum => sum

/-- The carry loop; two rounds are enough for any 32-bit sum. -/
def foldCarry : ℕ → ℕ → ℕ
  | 0, sum => sum
  | n+1, sum => if sum / 2^16 = 0 then sum else foldCarry n (sum % 2^16+sum / 2^16)

def netChecksum (data : List UInt8) : ℕ :=
  if data.length = 0 then 0 else 2^16-1-foldCarry 3 (checksumLoop data 0) % 2^16

def txBufSize : ℕ := 2048

/-- Frames of a length it refuses are dropped; short ones are padded. -/
def rtlSendPacket (h : Host) (pkt : List UInt8) : Host :=
  if pkt.length = 0 ∨ txBufSize < pkt.length then h
  else { h with sent := h.sent ++ [pkt ++ List.replicate (60-pkt.length) 0] }

def netWaitPacket (h : Host) : Option Packet × Host :=
  match h.arrivals with
  | [] => (none,h)
  | p :: rest => (p,{ h with arrivals := rest })

def ipProtoTcp : UInt8 := 6

def Packet.ipHdrLen (p : Packet) : ℕ := (p.rx 14 &&& 0x0F).toNat*4
def Packet.tcpStart (p : Packet) : ℕ := 14+p.ipHdrLen
def Packet.tcp (p : Packet) (i : ℕ) : UInt8 := p.rx (p.tcpStart+i)
def Packet.tcpHdrLen (p : Packet) : ℕ := (p.tcp 12 >>> 4 &&& 0x0F).toNat*4

/-- The first tests that the receiving loops share: an IPv4 frame that carries TCP. -/
def Packet.isTcp (p : Packet) : Bool :=
  34 ≤ p.len && p.rx 12 == 0x08 && p.rx 13 == 0x00 && p.rx 23 == ipProtoTcp

def Packet.flags (p : Packet) : UInt8 := p.tcp 13
def Packet.seq (p : Packet) : ℕ := dword (p.tcp 4) (p.tcp 5) (p.tcp 6) (p.tcp 7)
def Packet.ack (p : Packet) : ℕ := dword (p.tcp 8) (p.tcp 9) (p.tcp 10) (p.tcp 11)

/-- A frame as its receiver sees it. -/
def Packet.of (f : List UInt8) : Packet := ⟨f.length,(f.getD · 0)⟩

/-- The 20 header bytes of `ip_send` with a given checksum. -/
def ipHeader (h : Host) (destIp : ℕ → UInt8) (proto : UInt8) (payLen cksum : ℕ) : List UInt8 :=
  [0x45,0,UInt8.ofNat ((20+payLen) / 2^8),UInt8.ofNat (20+payLen),0,0,0,0,0x40,proto,
    UInt8.ofNat (cksum / 2^8),UInt8.ofNat cksum] ++ bytes h.localIp 4 ++ bytes destIp 4

def ipSend (h : Host) (destMac destIp : ℕ → UInt8) (proto : UInt8) (payload : List UInt8) :
    Host :=
  let pay := payload.take 2014
  let cksum := netChecksum (ipHeader h destIp proto pay.length 0)
  rtlSendPacket h (bytes destMac 6 ++ bytes h.localMac 6 ++ [0x08,0x00] ++
    ipHeader h destIp proto pay.length cksum ++ pay)

/-- An ARP frame as both functions build it, with its operation code. -/
def arpFrame (h : Host) (ethDst targetMac targetIp : ℕ → UInt8) (op : UInt8) : List UInt8 :=
  bytes ethDst 6 ++ bytes h.localMac 6 ++ [0x08,0x06,0x00,0x01,0x08,0x00,0x06,0x04,0x00,op] ++
    bytes h.localMac 6 ++ bytes h.localIp 4 ++ bytes targetMac 6 ++ bytes targetIp 4

/-- The test of `arp_resolve`; the operation code is read with its bytes exchanged. -/
def arpReplies (targetIp : ℕ → UInt8) (p : Packet) : Bool :=
  42 ≤ p.len && p.rx 12 == 0x08 && p.rx 13 == 0x06 && word (p.rx 21) (p.rx 20) == 2 &&
    (List.range 4).all fun i => p.rx (28+i) == targetIp i

/-- The waiting loop of `arp_resolve`. -/
def arpWait (targetIp : ℕ → UInt8) : ℕ → Host → Bool × Host
  | 0, h => (false,h)
  | timeout+1, h =>
    match netWaitPacket h with
    | (none,h) => arpWait targetIp timeout h
    | (some p,h) =>
      if arpReplies targetIp p then
        (true,{ h with gatewayMac := fun i => p.rx (22+i), gatewayResolved := true })
      else arpWait targetIp timeout h

def arpResolve (h : Host) (targetIp : ℕ → UInt8) : Bool × Host :=
  arpWait targetIp 5000
    (rtlSendPacket h (arpFrame h (fun _ => 0xFF) (fun _ => 0) targetIp 1))

/-- Answers a request for the local address. -/
def arpRespond (h : Host) (p : Packet) : Host :=
  if h.dhcpInProgress then h
  else if p.len < 42 then h
  else if p.rx 12 ≠ 0x08 ∨ p.rx 13 ≠ 0x06 then h
  else if word (p.rx 21) (p.rx 20) ≠ 1 then h
  else if !((List.range 4).all fun i => p.rx (38+i) == h.localIp i) then h
  else
    rtlSendPacket h
      (arpFrame h (fun i => p.rx (6+i)) (fun i => p.rx (6+i)) (fun i => p.rx (28+i)) 2)

lemma bytes_length (a : ℕ → UInt8) (n : ℕ) : (bytes a n).length = n := by simp [bytes]

lemma ipHeader_length (h : Host) (destIp : ℕ → UInt8) (proto : UInt8) (payLen cksum : ℕ) :
    (ipHeader h destIp proto payLen cksum).length = 20 := by
  simp [ipHeader,bytes_length]

lemma rtlSendPacket_eq (h : Host) {pkt : List UInt8} (hpos : pkt.length ≠ 0)
    (hmax : pkt.length ≤ txBufSize) : rtlSendPacket h pkt =
    { h with sent := h.sent ++ [pkt ++ List.replicate (60-pkt.length) 0] } := by
  rw [rtlSendPacket,if_neg]
  omega

/-- A frame that no TCP connection looks at. -/
def NotTcp (f : List UInt8) : Prop := (Packet.of f).isTcp = false

lemma arpFrame_notTcp (h : Host) (ethDst targetMac targetIp : ℕ → UInt8) (op : UInt8)
    (pad : List UInt8) : NotTcp (arpFrame h ethDst targetMac targetIp op ++ pad) := by
  simp [NotTcp,Packet.of,Packet.isTcp,arpFrame,bytes,List.range_succ]

lemma rtlSendPacket_arp (h : Host) (ethDst targetMac targetIp : ℕ → UInt8) (op : UInt8) :
    ∃ f, NotTcp f ∧ rtlSendPacket h (arpFrame h ethDst targetMac targetIp op) =
      { h with sent := h.sent ++ [f] } := by
  refine ⟨_,arpFrame_notTcp h ethDst targetMac targetIp op _,rtlSendPacket_eq h ?_ ?_⟩
  · simp [arpFrame]
  · simp [arpFrame,bytes_length,txBufSize]

lemma arpRespond_sent (h : Host) (p : Packet) :
    ∃ l, (∀ f ∈ l, NotTcp f) ∧ arpRespond h p = { h with sent := h.sent ++ l } := by
  unfold arpRespond
  split_ifs
  · exact ⟨[],by simp,by simp⟩
  · exact ⟨[],by simp,by simp⟩
  · exact ⟨[],by simp,by simp⟩
  · exact ⟨[],by simp,by simp⟩
  · exact ⟨[],by simp,by simp⟩
  · obtain ⟨f,hf,hsn⟩ := rtlSendPacket_arp h (fun i => p.rx (6+i)) (fun i => p.rx (6+i))
      (fun i => p.rx (28+i)) 2
    exact ⟨[f],by simpa using hf,hsn⟩

lemma arpWait_sent (targetIp : ℕ → UInt8) (n : ℕ) (h : Host) :
    (arpWait targetIp n h).2.sent = h.sent := by
  induction n generalizing h with
  | zero => rfl
  | succ n ih =>
    simp only [arpWait,netWaitPacket]
    cases h.arrivals with
    | nil => exact ih _
    | cons p rest =>
      cases p with
      | none => exact ih _
      | some p =>
        dsimp only
        split
        · rfl
        · exact ih _

/-- The first reply to an ARP request stands among the next `n` packets, and `rest` are
the packets after it. -/
def FirstReply (targetIp : ℕ → UInt8) (n : ℕ) (arrivals rest : List (Option Packet)) : Prop :=
  ∃ pre p, arrivals = pre ++ some p :: rest ∧ pre.length < n ∧ arpReplies targetIp p = true ∧
    ∀ q, some q ∈ pre → arpReplies targetIp q = false

variable {targetIp : ℕ → UInt8} {n : ℕ} {arrivals rest : List (Option Packet)}

lemma FirstReply.skip {o : Option Packet} (ho : ∀ q, o = some q → arpReplies targetIp q = false) :
    FirstReply targetIp (n+1) (o :: arrivals) rest ↔ FirstReply targetIp n arrivals rest := by
  constructor
  · rintro ⟨pre,p,heq,hlen,hp,hpre⟩
    cases pre with
    | nil =>
      obtain ⟨rfl,-⟩ := List.cons.inj heq
      simp [ho p rfl] at hp
    | cons q pre =>
      obtain ⟨rfl,hrs⟩ := List.cons.inj heq
      exact ⟨pre,p,hrs,Nat.lt_of_succ_lt_succ hlen,hp,fun q hq => hpre q (.tail _ hq)⟩
  · rintro ⟨pre,p,rfl,hlen,hp,hpre⟩
    refine ⟨o :: pre,p,rfl,Nat.succ_lt_succ hlen,hp,fun q hq => ?_⟩
    rcases List.mem_cons.mp hq with rfl | hq
    · exact ho q rfl
    · exact hpre q hq

lemma FirstReply.found {p : Packet} (hp : arpReplies targetIp p = true) :
    FirstReply targetIp (n+1) (some p :: arrivals) rest ↔ arrivals = rest := by
  constructor
  · rintro ⟨pre,q,heq,-,-,hpre⟩
    cases pre with
    | nil => exact (List.cons.inj heq).2
    | cons o pre =>
      obtain ⟨rfl,-⟩ := List.cons.inj heq
      simp [hpre p (.head _)] at hp
  · rintro rfl
    exact ⟨[],p,rfl,Nat.succ_pos n,hp,by simp⟩

lemma arpWait_iff (targetIp : ℕ → UInt8) (n : ℕ) (h : Host) (rest : List (Option Packet)) :
    ((arpWait targetIp n h).1 = true ∧ (arpWait targetIp n h).2.arrivals = rest) ↔
      FirstReply targetIp n h.arrivals rest := by
  induction n generalizing h with
  | zero => simp [arpWait,FirstReply]
  | succ n ih =>
    simp only [arpWait,netWaitPacket]
    cases harr : h.arrivals with
    | nil =>
      have hnx := ih h
      rw [harr] at hnx
      simp only [hnx]
      simp [FirstReply]
    | cons o arrivals =>
      cases o with
      | none =>
        rw [FirstReply.skip (by simp)]
        exact ih { h with arrivals := arrivals }
      | some p =>
        dsimp only
        split
        · rename_i hp
          rw [FirstReply.found hp]
          simp
        · rename_i hp
          rw [FirstReply.skip (by simpa using hp)]
          exact ih { h with arrivals := arrivals }

end HarlinKernel.Ethernet
