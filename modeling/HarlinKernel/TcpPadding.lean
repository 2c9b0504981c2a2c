import HarlinKernel.TcpChecksum

/-! Frames with bytes behind the IP packet. The three receive loops of `net/network.c` take
the length of the segment from the frame and not from the IP header, so that a trailer is
part of the segment they check and deliver. -/
namespace HarlinKernel.TcpPadding

open Ethernet Tcp TcpChecksum OnesComplement

/-- The total length field of the IP header. -/
def ipTotal (p : Packet) : ℕ := word (p.rx 16) (p.rx 17)

/-- The frame without what stands behind the IP packet. -/
def cut (p : Packet) : Packet := { p with len := 14+ipTotal p }

/-- An IPv4 packet with a TCP segment for the connection, whose headers lie inside it, in a
frame that fits the receive buffer. -/
structure Addressed (c : Conn) (p : Packet) : Prop where
  ethertype : p.rx 12 = 0x08 ∧ p.rx 13 = 0x00
  proto : p.rx 23 = ipProtoTcp
  ipHdr : 20 ≤ p.ipHdrLen
  tcpHdr : 20 ≤ p.tcpHdrLen
  headers : p.ipHdrLen+p.tcpHdrLen ≤ ipTotal p
  total : 14+ipTotal p ≤ p.len
  buffer : p.len ≤ 2048
  sport : word (p.tcp 0) (p.tcp 1) = c.dport
  dport : word (p.tcp 2) (p.tcp 3) = c.sport

/-- The host when the packet is the next one to arrive. -/
def arriving (h : Host) (p : Packet) (rest : List (Option Packet)) : Host :=
  { h with arrivals := some p :: rest }

/-- Each receive loop ends with the same result, bytes and connection as for the frame cut
at the length of the IP packet. -/
structure PaddingInvisible (c : Conn) (p : Packet) : Prop where
  connect : ∀ n h rest,
    synWait c (n+1) (arriving h p rest) = synWait c (n+1) (arriving h (cut p) rest)
  ack : ∀ ackExpected n h rest, tcpWaitForAck c ackExpected (n+1) (arriving h p rest) =
    tcpWaitForAck c ackExpected (n+1) (arriving h (cut p) rest)
  recv : ∀ maxLen n h rest,
    recvLoop maxLen (n+1) c (arriving h p rest) = recvLoop maxLen (n+1) c (arriving h (cut p) rest)

/-- The checksum of a packet over a segment that ends with the frame. -/
def Sound (p : Packet) : Prop :=
  Sums (fun i => p.rx (26+i)) (fun i => p.rx (30+i)) p.tcp (p.len-p.tcpStart)

instance (p : Packet) : Decidable (Sound p) :=
  inferInstanceAs (Decidable (_ ∧ _))

section Answers

variable {c : Conn} {p : Packet}

lemma Addressed.cut (ha : Addressed c p) : Addressed c (cut p) where
  ethertype := ha.ethertype
  proto := ha.proto
  ipHdr := ha.ipHdr
  tcpHdr := ha.tcpHdr
  headers := ha.headers
  total := Nat.le_refl _
  buffer := Nat.le_trans ha.total ha.buffer
  sport := ha.sport
  dport := ha.dport

lemma Addressed.isTcp (ha : Addressed c p) : p.isTcp = true := by
  have hlen : 34 ≤ p.len := by
    have := ha.ipHdr
    have := ha.headers
    have := ha.total
    omega
  simp [Packet.isTcp,hlen,ha.ethertype.1,ha.ethertype.2,ha.proto]

lemma Addressed.room (ha : Addressed c p) :
    p.tcpStart+20 ≤ p.len ∧ p.tcpStart+p.tcpHdrLen ≤ p.len := by
  have := ha.tcpHdr
  have := ha.headers
  have := ha.total
  simp only [Packet.tcpStart]
  omega

lemma Addressed.belongs_iff (ha : Addressed c p) : belongs c p = true ↔ Sound p := by
  have hrm := ha.room
  have hmin : 18 ≤ p.len-p.tcpStart := by omega
  have hmax : p.len-p.tcpStart ≤ 2048 := Nat.le_trans (Nat.sub_le _ _) ha.buffer
  have hvr := tcpVerifyChecksum_iff (fun i => p.rx (26+i)) (fun i => p.rx (30+i)) p.tcp hmin
    hmax
  simp [belongs,ha.sport,ha.dport,hrm.2,hvr,Sound]

lemma Addressed.arpRespond (ha : Addressed c p) (h : Host) : arpRespond h p = h := by
  have hty : p.rx 12 ≠ 0x08 ∨ p.rx 13 ≠ 0x06 := .inr (by rw [ha.ethertype.2]; decide)
  unfold Ethernet.arpRespond
  simp [if_pos hty]

lemma synWait_arriving (ha : Addressed c p) (n : ℕ) (h : Host) (rest : List (Option Packet)) :
    synWait c (n+1) (arriving h p rest) =
      match synAnswer c p with
      | .ignored => synWait c n { h with arrivals := rest }
      | answer => (answer,{ h with arrivals := rest }) := by
  cases han : synAnswer c p with
  | ignored => simp [synWait,netWaitPacket,arriving,ha.arpRespond,han]
  | reset => simp [synWait,netWaitPacket,arriving,ha.arpRespond,han]
  | accepted seq => simp [synWait,netWaitPacket,arriving,ha.arpRespond,han]

lemma tcpWaitForAck_arriving (ha : Addressed c p) (ackExpected n : ℕ) (h : Host)
    (rest : List (Option Packet)) :
    tcpWaitForAck c ackExpected (n+1) (arriving h p rest) =
      if ∃ ack ∈ ackOf c p, ackExpected ≤ ack then (true,{ h with arrivals := rest })
      else tcpWaitForAck c ackExpected n { h with arrivals := rest } := by
  simp only [tcpWaitForAck,netWaitPacket,arriving,ha.arpRespond]
  cases ackOf c p with
  | none => simp
  | some ack => simp

lemma recvLoop_arriving (ha : Addressed c p) (hdt : ∀ len, recvAnswer c p ≠ .data len)
    {q : Packet} (haq : Addressed c q) (hseq : q.seq = p.seq)
    (han : recvAnswer c q = recvAnswer c p) (maxLen : ℤ) (n : ℕ) (h : Host)
    (rest : List (Option Packet)) :
    recvLoop maxLen (n+1) c (arriving h p rest) = recvLoop maxLen (n+1) c (arriving h q rest) := by
  simp only [recvLoop,netWaitPacket,arriving,ha.arpRespond,haq.arpRespond,han,hseq]
  cases hcs : recvAnswer c p with
  | data len => exact absurd hcs (hdt len)
  | ignored => rfl
  | reset => rfl
  | fin => rfl
  | syn => rfl

lemma recvAnswer_addressed (ha : Addressed c p) :
    recvAnswer c p =
      if Sound p then
        if p.flags &&& tcpFlagRst ≠ 0 then .reset
        else if p.flags &&& tcpFlagFin ≠ 0 then .fin
        else if 0 < p.len-(p.tcpStart+p.tcpHdrLen) ∧ p.seq = c.seqRemote then
          .data (p.len-(p.tcpStart+p.tcpHdrLen))
        else if p.flags &&& tcpFlagSyn ≠ 0 then .syn
        else .ignored
      else .ignored := by
  simp [recvAnswer,ha.isTcp,ha.room.1,ha.belongs_iff]

lemma synAnswer_addressed (ha : Addressed c p) :
    synAnswer c p =
      if Sound p then
        if p.flags &&& tcpFlagRst ≠ 0 then .reset
        else if c.state = .synSent ∧
            p.flags &&& (tcpFlagSyn ||| tcpFlagAck) = tcpFlagSyn ||| tcpFlagAck then
          .accepted p.seq
        else .ignored
      else .ignored := by
  simp [synAnswer,ha.isTcp,ha.belongs_iff]

lemma ackOf_addressed (ha : Addressed c p) : ackOf c p = if Sound p then some p.ack else none := by
  simp [ackOf,ha.isTcp,ha.room.1,ha.belongs_iff]

end Answers

/-- The kinds of segment whose length the receiver does not use. -/
def LengthUnused (c : Conn) (p : Packet) : Prop :=
  p.flags &&& tcpFlagRst ≠ 0 ∨ p.flags &&& tcpFlagFin ≠ 0 ∨ p.seq ≠ c.seqRemote

instance (c : Conn) (p : Packet) : Decidable (LengthUnused c p) :=
  inferInstanceAs (Decidable (_ ∨ _ ∨ _))

lemma recvAnswer_lengthUnused {c : Conn} {p : Packet} (ha : Addressed c p)
    (hun : Sound p → LengthUnused c p) :
    recvAnswer c p =
      if Sound p then
        if p.flags &&& tcpFlagRst ≠ 0 then .reset
        else if p.flags &&& tcpFlagFin ≠ 0 then .fin
        else if p.flags &&& tcpFlagSyn ≠ 0 then .syn
        else .ignored
      else .ignored := by
  rw [recvAnswer_addressed ha]
  by_cases hp : Sound p
  · rcases hun hp with hrst | hfin | hseq
    · rw [if_pos hrst,if_pos hrst]
    · rw [if_pos hfin,if_pos hfin]
    · rw [if_neg (fun h : _ ∧ _ => hseq h.2)]
  · rw [if_neg hp,if_neg hp]

/-- A segment without data is ignored where its trailer would have been delivered. -/
theorem recvLoop_short {c : Conn} {p : Packet} (ha : Addressed c p) (hp : Sound (cut p))
    (hrst : p.flags &&& tcpFlagRst = 0) (hfin : p.flags &&& tcpFlagFin = 0) (maxLen : ℤ)
    (h : Host) :
    (recvLoop maxLen 1 c (arriving h (cut p) [])).1 ≤
      ((14+ipTotal p-(p.tcpStart+p.tcpHdrLen) : ℕ) : ℤ) := by
  simp only [recvLoop,netWaitPacket,arriving,recvAnswer_addressed ha.cut,if_pos hp]
  have hfl : (cut p).flags = p.flags := rfl
  have hlen : (cut p).len = 14+ipTotal p := rfl
  have hst : (cut p).tcpStart = p.tcpStart := rfl
  have hhdr : (cut p).tcpHdrLen = p.tcpHdrLen := rfl
  rw [hfl,hlen,hst,hhdr,if_neg (by simp [hrst]),if_neg (by simp [hfin])]
  split_ifs <;> simp

/-- The trailer is invisible exactly when it is empty, or when it does not change whether
the words add up and the segment, if they do, is one whose length is not used. -/
theorem paddingInvisible_iff {c : Conn} {p : Packet} (ha : Addressed c p) :
    PaddingInvisible c p ↔ p.len = 14+ipTotal p ∨
      ((Sound p ↔ Sound (cut p)) ∧ (Sound p → LengthUnused c p)) := by
  constructor
  · intro h
    by_cases hlen : p.len = 14+ipTotal p
    · exact .inl hlen
    have hsn : Sound p ↔ Sound (cut p) := by
      have hack := h.ack 0 0 TcpChecksum.localHost []
      rw [tcpWaitForAck_arriving ha,tcpWaitForAck_arriving ha.cut,ackOf_addressed ha,
        ackOf_addressed ha.cut] at hack
      by_cases h₁ : Sound p
      · by_cases h₂ : Sound (cut p)
        · simp [h₁,h₂]
        · simp [h₁,h₂,tcpWaitForAck] at hack
      · by_cases h₂ : Sound (cut p)
        · simp [h₁,h₂,tcpWaitForAck] at hack
        · simp [h₁,h₂]
    refine .inr ⟨hsn,fun hp => ?_⟩
    by_contra hus
    simp only [LengthUnused,not_or,not_not] at hus
    obtain ⟨hrst,hfin,hseq⟩ := hus
    have hln : 14+ipTotal p < p.len := Nat.lt_of_le_of_ne ha.total (Ne.symm hlen)
    have hrm := ha.cut.room.2
    have hst : p.tcpStart+p.tcpHdrLen ≤ 14+ipTotal p := hrm
    -- with room for all of it, the frame delivers its trailer as well
    have hrc := congrArg Prod.fst
      (h.recv ((p.len-(p.tcpStart+p.tcpHdrLen) : ℕ) : ℤ) 0 TcpChecksum.localHost [])
    have hsh := recvLoop_short ha (hsn.mp hp) hrst hfin
      ((p.len-(p.tcpStart+p.tcpHdrLen) : ℕ) : ℤ) TcpChecksum.localHost
    rw [← hrc] at hsh
    simp only [recvLoop,netWaitPacket,arriving,recvAnswer_addressed ha,if_pos hp] at hsh
    rw [if_neg (by simp [hrst]),if_neg (by simp [hfin]),if_pos ⟨by omega,hseq⟩] at hsh
    simp at hsh
    omega
  · rintro (hlen | ⟨hsn,hun⟩)
    · have hcut : cut p = p := by rw [cut,← hlen]
      exact ⟨by simp [hcut],by simp [hcut],by simp [hcut]⟩
    · have hsyn : synAnswer c (cut p) = synAnswer c p := by
        rw [synAnswer_addressed ha,synAnswer_addressed ha.cut]
        simp only [hsn]
        rfl
      have hack : ackOf c (cut p) = ackOf c p := by
        rw [ackOf_addressed ha,ackOf_addressed ha.cut]
        simp only [hsn]
        rfl
      have hrc : recvAnswer c (cut p) = recvAnswer c p := by
        rw [recvAnswer_lengthUnused ha hun,
          recvAnswer_lengthUnused ha.cut (fun h => hun (hsn.mpr h))]
        simp only [hsn]
        rfl
      have hnd : ∀ len, recvAnswer c p ≠ .data len := by
        intro len
        rw [recvAnswer_lengthUnused ha hun]
        split_ifs
        all_goals simp
      refine ⟨fun n h rest => ?_,fun ackExpected n h rest => ?_,fun maxLen n h rest => ?_⟩
      · rw [synWait_arriving ha,synWait_arriving ha.cut,hsyn]
      · rw [tcpWaitForAck_arriving ha,tcpWaitForAck_arriving ha.cut,hack]
      · exact recvLoop_arriving ha hnd ha.cut rfl hrc maxLen n h rest

/-- The server's side of the connection from port 40000 to port 80. -/
def server : Conn :=
  { Conn.zero with
    state := .synSent, sport := 80, dport := 40000, seqLocal := 5000, seqRemote := 1001
    remoteIp := fun i => [10,0,2,15].getD i 0 }

/-- A SYN-ACK of 54 bytes in a frame of 60. -/
def synAck : Packet :=
  Packet.of (tcpFrame server { localHost with localIp := fun i => [10,0,2,2].getD i 0 }
    (tcpFlagSyn ||| tcpFlagAck) (fun _ => 0) 0)

/-- The same frame with a bit of its sequence number lost. -/
def spoiled : Packet := { synAck with rx := Function.update synAck.rx 41 0 }

lemma spoiled_addressed : Addressed (conn 40000 80) spoiled where
  ethertype := by decide
  proto := by decide
  ipHdr := by decide
  tcpHdr := by decide
  headers := by decide
  total := by decide
  buffer := by decide
  sport := by decide
  dport := by decide

/-- A frame with a wrong checksum is refused with and without its padding. -/
theorem spoiled_paddingInvisible : PaddingInvisible (conn 40000 80) spoiled :=
  (paddingInvisible_iff spoiled_addressed).mpr
    (.inr (by decide +kernel))

/-- The padded SYN-ACK is ignored; cut at its IP length it is accepted. -/
theorem synAck_padding_visible : ¬ PaddingInvisible (conn 40000 80) synAck := by
  intro h
  exact absurd (congrArg Prod.fst (h.connect 0 localHost [])) (by decide)

end HarlinKernel.TcpPadding
