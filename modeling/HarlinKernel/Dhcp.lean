import HarlinKernel.Ethernet

/-! The DHCP client of `net/network.c`: `dhcp_build_common` lays out the BOOTP message,
`dhcp_build_ip_udp` the headers of the frame around it, and `dhcp_request` reads the offer.
The first starts at the beginning of the buffer, where the second puts the headers, and the
third looks for the magic cookie behind the place where the first writes it. -/
namespace HarlinKernel.Dhcp

open Ethernet
open List (replicate length_append)

def ipProtoUdp : UInt8 := 17

/-- One option: its tag, its length and its value. -/
def dhcpOption (tag : UInt8) (val : List UInt8) : List UInt8 :=
  tag :: UInt8.ofNat val.length :: val

/-- The options of a message; a null pointer leaves its option out. -/
def dhcpOptionList (msgType : ℤ) (reqIp serverId : Option (ℕ → UInt8)) :
    List (UInt8 × List UInt8) :=
  (53,[UInt8.ofInt msgType]) :: ((reqIp.map fun ip => (50,bytes ip 4)).toList ++
    (serverId.map fun ip => (54,bytes ip 4)).toList ++
    if msgType = 1 then [(55,[1,3,6])] else [])

def dhcpOptions (opts : List (UInt8 × List UInt8)) : List UInt8 :=
  opts.flatMap (fun x => dhcpOption x.1 x.2) ++ [255]

/-- The fields in front of the options, ending with the magic cookie. -/
def dhcpFixed (localMac : ℕ → UInt8) : List UInt8 :=
  [1,1,6,0,0x12,0x34,0x56,0x78,0,0,0x80,0x00] ++ replicate 16 0 ++
    (bytes localMac 6 ++ replicate 10 0) ++ replicate 64 0 ++ replicate 128 0 ++
    [0x63,0x82,0x53,0x63]

/-- What `dhcp_build_common` leaves in `pkt`, up to the length it returns. -/
def dhcpBuildCommon (localMac : ℕ → UInt8) (msgType : ℤ) (reqIp serverId : Option (ℕ → UInt8)) :
    List UInt8 :=
  let pkt := dhcpFixed localMac ++ dhcpOptions (dhcpOptionList msgType reqIp serverId)
  pkt ++ replicate (14+20+8+300-pkt.length) 0

/-- The IP header of `dhcp_build_ip_udp` with a given checksum. -/
def dhcpIpHeader (udpLen cksum : ℕ) : List UInt8 :=
  [0x45,0x00,UInt8.ofNat ((20+udpLen) / 2^8),UInt8.ofNat (20+udpLen),0,0,0,0,0x40,ipProtoUdp,
    UInt8.ofNat (cksum / 2^8),UInt8.ofNat cksum,0,0,0,0,255,255,255,255]

/-- The 42 bytes of Ethernet, IP and UDP header. -/
def dhcpHeaders (localMac : ℕ → UInt8) (totalLen : ℕ) : List UInt8 :=
  let udpLen := totalLen-14-20
  bytes (fun _ => 0xFF) 6 ++ bytes localMac 6 ++ [0x08,0x00] ++
    dhcpIpHeader udpLen (netChecksum (dhcpIpHeader udpLen 0)) ++
    [0,68,0,67,UInt8.ofNat (udpLen / 2^8),UInt8.ofNat udpLen,0,0]

/-- The headers are written over the first bytes of the packet. -/
def dhcpBuildIpUdp (localMac : ℕ → UInt8) (pkt : List UInt8) : List UInt8 :=
  dhcpHeaders localMac pkt.length ++ pkt.drop 42

inductive OfferError
  | notReply | badHtype | badMagic | unexpectedType (mt : UInt8)
  deriving DecidableEq

structure Offer where
  offeredIp : List UInt8
  serverId : List UInt8
  subnet : List UInt8
  gateway : List UInt8
  dnsServer : List UInt8
  deriving DecidableEq

/-- What one option of an offer does, with its value at `val`. -/
def offerOption (tag len : UInt8) (val : ℕ → UInt8) (o : Offer) : Except OfferError Offer :=
  if tag = 53 ∧ len = 1 then
    if val 0 ≠ 2 then .error (.unexpectedType (val 0)) else .ok o
  else if tag = 54 ∧ len = 4 then .ok { o with serverId := bytes val 4 }
  else if tag = 1 ∧ len = 4 then .ok { o with subnet := bytes val 4 }
  else if tag = 3 ∧ len = 4 then .ok { o with gateway := bytes val 4 }
  else if tag = 6 ∧ len = 4 then .ok { o with dnsServer := bytes val 4 }
  else .ok o

/-- The option loop; each round moves on, so that `fuel` rounds reach `stop`. -/
def offerOptions (rx : ℕ → UInt8) (stop : ℕ) : ℕ → ℕ → Offer → Except OfferError Offer
  | 0, _, o => .ok o
  | fuel+1, optOff, o =>
    if optOff < stop then
      let tag := rx optOff
      if tag = 255 then .ok o
      else if tag = 0 then offerOptions rx stop fuel (optOff+1) o
      else
        let len := rx (optOff+1)
        match offerOption tag len (fun i => rx (optOff+2+i)) o with
        | .error e => .error e
        | .ok o => offerOptions rx stop fuel (optOff+2+len.toNat) o
    else .ok o

/-- What `dhcp_request` makes of an offer of `dhcpLen` bytes behind the headers. -/
def parseOffer (rx : ℕ → UInt8) (dhcpLen : ℕ) : Except OfferError Offer :=
  let dhcpStart := 14+(rx 14 &&& 0x0F).toNat*4+8
  if rx dhcpStart ≠ 2 then .error .notReply
  else if rx (dhcpStart+1) ≠ 1 ∨ rx (dhcpStart+2) ≠ 6 then .error .badHtype
  else
    let optOff := dhcpStart+240
    if dword (rx optOff) (rx (optOff+1)) (rx (optOff+2)) (rx (optOff+3)) ≠ 0x63825363 then
      .error .badMagic
    else
      let blank := replicate 4 0
      offerOptions rx (dhcpStart+dhcpLen) dhcpLen (optOff+4)
        ⟨bytes (fun i => rx (dhcpStart+16+i)) 4,blank,blank,blank,blank⟩

/-- The bytes of `l` stand in `rx` from `off` on. -/
def Reads (rx : ℕ → UInt8) (off : ℕ) (l : List UInt8) : Prop :=
  ∀ i < l.length, rx (off+i) = l.getD i 0

lemma dhcpFixed_length (localMac : ℕ → UInt8) : (dhcpFixed localMac).length = 240 := by
  simp only [dhcpFixed,length_append,List.length_replicate,bytes_length,List.length_cons,
    List.length_nil]

lemma dhcpHeaders_length (localMac : ℕ → UInt8) (n : ℕ) : (dhcpHeaders localMac n).length = 42 := by
  simp [dhcpHeaders,dhcpIpHeader,bytes_length]

/-- What the options of a list do one after the other. -/
def takeOptions (opts : List (UInt8 × List UInt8)) (o : Offer) : Except OfferError Offer :=
  opts.foldlM (fun o x => offerOption x.1 (UInt8.ofNat x.2.length) (x.2.getD · 0) o) o

lemma takeOptions_ne_badMagic (opts : List (UInt8 × List UInt8)) (o : Offer) :
    takeOptions opts o ≠ .error .badMagic := by
  induction opts generalizing o with
  | nil => simp [takeOptions,pure,Except.pure]
  | cons x opts ih =>
    simp only [takeOptions,List.foldlM_cons]
    cases hcs : offerOption x.1 (UInt8.ofNat x.2.length) (x.2.getD · 0) o with
    | ok o => exact ih o
    | error e =>
      rintro ⟨⟩
      unfold offerOption at hcs
      split_ifs at hcs
      simp at hcs

section Messages

variable (localMac : ℕ → UInt8) (msgType : ℤ) (reqIp serverId : Option (ℕ → UInt8))

/-- The frame that `dhcp_request` sends. -/
def dhcpFrame : List UInt8 :=
  dhcpBuildIpUdp localMac (dhcpBuildCommon localMac msgType reqIp serverId)

/-- The same message as a reply, behind the headers. -/
def offerFrame : List UInt8 :=
  let msg := (dhcpBuildCommon localMac msgType reqIp serverId).set 0 2
  dhcpHeaders localMac (42+msg.length) ++ msg

/-- The frame carries at offset 42 the fields that `dhcp_build_common` wrote. -/
structure Carried : Prop where
  opHtypeHlen : Reads (Packet.of (dhcpFrame localMac msgType reqIp serverId)).rx 42 [1,1,6]
  xid : Reads (Packet.of (dhcpFrame localMac msgType reqIp serverId)).rx (42+4)
    [0x12,0x34,0x56,0x78]
  chaddr : Reads (Packet.of (dhcpFrame localMac msgType reqIp serverId)).rx (42+28)
    (bytes localMac 6 ++ replicate 10 0)
  magic : Reads (Packet.of (dhcpFrame localMac msgType reqIp serverId)).rx (42+236)
    [0x63,0x82,0x53,0x63]
  options : Reads (Packet.of (dhcpFrame localMac msgType reqIp serverId)).rx (42+240)
    (dhcpOptions (dhcpOptionList msgType reqIp serverId))

/-- The parser takes from the reply the options that were encoded. -/
def ReadBack : Prop :=
  parseOffer (Packet.of (offerFrame localMac msgType reqIp serverId)).rx
      (dhcpBuildCommon localMac msgType reqIp serverId).length =
    takeOptions (dhcpOptionList msgType reqIp serverId)
      ⟨replicate 4 0,replicate 4 0,replicate 4 0,replicate 4 0,
        replicate 4 0⟩

variable {localMac msgType reqIp serverId}

lemma dhcpBuildCommon_fixed {i : ℕ} (hi : i < 240) :
    (dhcpBuildCommon localMac msgType reqIp serverId).getD i 0 = (dhcpFixed localMac).getD i 0 := by
  have hlen := dhcpFixed_length localMac
  simp only [dhcpBuildCommon]
  rw [List.getD_append _ _ _ _ (by rw [length_append]; omega),
    List.getD_append _ _ _ _ (by omega)]

/-- Where the operation code should be, the frame has the padding of the client's address. -/
theorem dhcpFrame_op : (Packet.of (dhcpFrame localMac msgType reqIp serverId)).rx 42 = 0 := by
  rfl

lemma dhcpBuildCommon_option : (dhcpBuildCommon localMac msgType reqIp serverId).getD 240 0 =
    53 := by
  have hlen := dhcpFixed_length localMac
  simp only [dhcpBuildCommon,List.append_assoc]
  rw [List.getD_append_right _ _ _ _ (by omega),hlen]
  rfl

lemma dhcpBuildCommon_pos : 0 < (dhcpBuildCommon localMac msgType reqIp serverId).length := by
  have hlen := dhcpFixed_length localMac
  simp only [dhcpBuildCommon,length_append]
  omega

lemma offerFrame_rx (i : ℕ) :
    (Packet.of (offerFrame localMac msgType reqIp serverId)).rx (42+i) =
      if i = 0 then 2 else (dhcpBuildCommon localMac msgType reqIp serverId).getD i 0 := by
  have hlen := dhcpHeaders_length localMac
    (42+((dhcpBuildCommon localMac msgType reqIp serverId).set 0 2).length)
  have hpos : 0 < (dhcpBuildCommon localMac msgType reqIp serverId).length := dhcpBuildCommon_pos
  simp only [Packet.of,offerFrame]
  rw [List.getD_append_right _ _ _ _ (by omega),hlen,Nat.add_sub_cancel_left]
  by_cases hi : i = 0
  · subst hi
    simp [hpos]
  · simp [hi,Ne.symm hi]

lemma parseOffer_offerFrame (dhcpLen : ℕ) :
    parseOffer (Packet.of (offerFrame localMac msgType reqIp serverId)).rx dhcpLen =
      .error .badMagic := by
  have hst : 14+((Packet.of (offerFrame localMac msgType reqIp serverId)).rx 14 &&& 0x0F).toNat*4
      +8 = 42 := by
    have hvr : (Packet.of (offerFrame localMac msgType reqIp serverId)).rx 14 = 0x45 := by
      simp [Packet.of,offerFrame,dhcpHeaders,dhcpIpHeader,bytes,List.range_succ]
    rw [hvr]
    rfl
  have hop : (Packet.of (offerFrame localMac msgType reqIp serverId)).rx 42 = 2 := offerFrame_rx 0
  have hht : (Packet.of (offerFrame localMac msgType reqIp serverId)).rx (42+1) = 1 := by
    rw [offerFrame_rx,dhcpBuildCommon_fixed (by decide)]
    rfl
  have hhl : (Packet.of (offerFrame localMac msgType reqIp serverId)).rx (42+2) = 6 := by
    rfl
  have hopt : (Packet.of (offerFrame localMac msgType reqIp serverId)).rx (42+240) = 53 := by
    rw [offerFrame_rx,dhcpBuildCommon_option]
    rfl
  have hmg : ∀ b c d : UInt8, dword 53 b c d ≠ 0x63825363 := by
    intro b c d
    have hb := b.toNat_lt
    have hc := c.toNat_lt
    have hd := d.toNat_lt
    simp only [dword,word,UInt8.reduceToNat]
    omega
  simp only [parseOffer,hst,hop,hht,hhl,hopt]
  simp [hmg]

end Messages

/-- Whatever the addresses and options are, the frame does not carry the message and the
parser does not find the cookie. -/
theorem never_laid_out (localMac : ℕ → UInt8) (msgType : ℤ) (reqIp serverId : Option (ℕ → UInt8)) :
    ¬ Carried localMac msgType reqIp serverId ∧ ¬ ReadBack localMac msgType reqIp serverId := by
  constructor
  · intro h
    have hop : (Packet.of (dhcpFrame localMac msgType reqIp serverId)).rx 42 = 1 :=
      h.opHtypeHlen 0 (by decide)
    rw [dhcpFrame_op] at hop
    exact absurd hop (by decide)
  · intro h
    rw [ReadBack,parseOffer_offerFrame] at h
    exact takeOptions_ne_badMagic _ _ h.symm

/-- The discover message of a card: its frame has no operation code at offset 42, and as a
reply it is refused. -/
theorem discover_misplaced :
    ¬ Carried (fun i => [0x52,0x54,0x00,0x12,0x34,0x56].getD i 0) 1 none none ∧
      ¬ ReadBack (fun i => [0x52,0x54,0x00,0x12,0x34,0x56].getD i 0) 1 none none := by
  constructor
  · intro h
    exact absurd (h.opHtypeHlen 0 (by decide)) (by decide)
  · unfold ReadBack
    decide

end HarlinKernel.Dhcp
