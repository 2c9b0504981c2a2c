import HarlinKernel.Ethernet

/-! Two hosts that run `arp_resolve` and `arp_respond` of `net/network.c` against each other.
Both functions write the operation code most significant byte first and read it least
significant byte first. -/
namespace HarlinKernel.Arp

open Ethernet

/-- A frame on the wire, padded by `rtl_send_packet`. -/
def padded (f : List UInt8) : List UInt8 := f ++ List.replicate (60-f.length) 0

/-- The frame of `arp_resolve`. -/
def request (h : Host) (targetIp : ℕ → UInt8) : List UInt8 :=
  padded (arpFrame h (fun _ => 0xFF) (fun _ => 0) targetIp 1)

/-- The frame of `arp_respond`, with the addresses it takes from a request. -/
def reply (h : Host) (p : Packet) : List UInt8 :=
  padded (arpFrame h (fun i => p.rx (6+i)) (fun i => p.rx (6+i)) (fun i => p.rx (28+i)) 2)

/-- Host `b` answers the request of `a` for its address, and the answer gives `a` the
address of `b`'s card. -/
structure Interoperates (a b : Host) : Prop where
  answered : (arpRespond b (Packet.of (request a b.localIp))).sent =
    b.sent ++ [reply b (Packet.of (request a b.localIp))]
  returned : (arpResolve { a with
    arrivals := [some (Packet.of (reply b (Packet.of (request a b.localIp))))] } b.localIp).1 = true
  resolved : ∀ i < 6, (arpResolve { a with
    arrivals := [some (Packet.of (reply b (Packet.of (request a b.localIp))))] }
      b.localIp).2.gatewayMac i = b.localMac i

lemma arpFrame_length (h : Host) (ethDst targetMac targetIp : ℕ → UInt8) (op : UInt8) :
    (arpFrame h ethDst targetMac targetIp op).length = 42 := by
  simp [arpFrame,bytes_length]

lemma padded_op (h : Host) (ethDst targetMac targetIp : ℕ → UInt8) (op : UInt8) :
    word ((Packet.of (padded (arpFrame h ethDst targetMac targetIp op))).rx 21)
      ((Packet.of (padded (arpFrame h ethDst targetMac targetIp op))).rx 20) = op.toNat*2^8 := by
  simp [Packet.of,padded,arpFrame,bytes,List.range_succ,word]

lemma request_ignored (b : Host) (a : Host) (targetIp : ℕ → UInt8) :
    arpRespond b (Packet.of (request a targetIp)) = b := by
  have hop := padded_op a (fun _ => 0xFF) (fun _ => 0) targetIp 1
  have hne : word ((Packet.of (request a targetIp)).rx 21)
      ((Packet.of (request a targetIp)).rx 20) ≠ 1 := by
    rw [request,hop]
    decide
  unfold arpRespond
  simp [if_pos hne]

lemma reply_ignored (b : Host) (p : Packet) (targetIp : ℕ → UInt8) :
    arpReplies targetIp (Packet.of (reply b p)) = false := by
  have hop := padded_op b (fun i => p.rx (6+i)) (fun i => p.rx (6+i)) (fun i => p.rx (28+i)) 2
  have hne : (word ((Packet.of (reply b p)).rx 21) ((Packet.of (reply b p)).rx 20) == 2) =
      false := by
    rw [reply,hop]
    decide
  simp [arpReplies,hne]

lemma arpResolve_fails {h : Host} {targetIp : ℕ → UInt8}
    (hall : ∀ q, some q ∈ h.arrivals → arpReplies targetIp q = false) :
    (arpResolve h targetIp).1 = false := by
  have hlen := arpFrame_length h (fun _ => 0xFF) (fun _ => 0) targetIp 1
  have harr : (rtlSendPacket h (arpFrame h (fun _ => 0xFF) (fun _ => 0) targetIp 1)).arrivals =
      h.arrivals := by
    rw [rtlSendPacket_eq h (by omega) (by rw [hlen]; decide)]
  by_contra hne
  obtain ⟨pre,q,heq,-,hq,-⟩ := (arpWait_iff targetIp 5000 _ _).mp
    ⟨(Bool.not_eq_false _).mp hne,rfl⟩
  have hmem : some q ∈ h.arrivals := by
    rw [← harr,heq]
    simp
  rw [hall q hmem] at hq
  exact absurd hq (by decide)

lemma arpResolve_reply (a b : Host) (p : Packet) (targetIp : ℕ → UInt8) :
    (arpResolve { a with arrivals := [some (Packet.of (reply b p))] } targetIp).1 = false := by
  apply arpResolve_fails
  intro q hq
  obtain rfl : q = Packet.of (reply b p) := by simpa using hq
  exact reply_ignored b p targetIp

/-- Neither the request nor the reply is recognised, whatever the addresses are. -/
theorem never_interoperates (a b : Host) :
    ¬ Interoperates a b ∧ arpRespond b (Packet.of (request a b.localIp)) = b ∧
      ∀ p, (arpResolve { a with arrivals := [some (Packet.of (reply b p))] } b.localIp).1 =
        false := by
  refine ⟨fun h => ?_,request_ignored b a b.localIp,fun p => arpResolve_reply a b p b.localIp⟩
  have hfl := arpResolve_reply a b (Packet.of (request a b.localIp)) b.localIp
  rw [h.returned] at hfl
  exact absurd hfl (by decide)

/-- A host on 10.0.2.0/24 whose card and address end in `n`. -/
def station (n : UInt8) : Host where
  localMac := fun i => [0x52,0x54,0x00,0x12,0x34,n].getD i 0
  localIp := fun i => [10,0,2,n].getD i 0
  gatewayMac := fun _ => 0
  gatewayResolved := false
  dhcpInProgress := false
  arrivals := []
  sent := []

theorem station_unanswered : ¬ Interoperates (station 15) (station 2) := by
  intro h
  exact absurd h.answered (by decide)

end HarlinKernel.Arp
