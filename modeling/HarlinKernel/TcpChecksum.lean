import HarlinKernel.OnesComplement
import HarlinKernel.Tcp

/-! The checksum of a TCP segment. The sender stores the complement of the sum, which may
be zero; the receiver takes a computed zero for `0xFFFF`. -/
namespace HarlinKernel.TcpChecksum

open Ethernet Tcp OnesComplement
open Function (update)

/-- `tcp_verify_checksum` on the segment in place: the checksum field is cleared, summed
over and restored. -/
def tcpVerifyChecksumIn (srcIp dstIp tcpSeg : ℕ → UInt8) (tcpLen : ℕ) : Bool × (ℕ → UInt8) :=
  let received := word (tcpSeg 16) (tcpSeg 17)
  let saved := (tcpSeg 16,tcpSeg 17)
  let tcpSeg := update (update tcpSeg 16 0) 17 0
  let computed := tcpComputeChecksum srcIp dstIp tcpSeg tcpLen
  let tcpSeg := update (update tcpSeg 16 saved.1) 17 saved.2
  let computed := if computed = 0 then 0xFFFF else computed
  (received == computed,tcpSeg)

/-- A segment with its checksum field cleared. -/
def cleared (seg : ℕ → UInt8) : ℕ → UInt8 := fun i => if i = 16 ∨ i = 17 then 0 else seg i

lemma update_cleared (seg : ℕ → UInt8) :
    update (update seg 16 0) 17 0 = cleared seg := by
  funext i
  rw [cleared]
  by_cases h17 : i = 17
  · simp [h17]
  · by_cases h16 : i = 16
    · simp [h16]
    · simp [h16,h17]

lemma tcpVerifyChecksum_cleared (srcIp dstIp seg : ℕ → UInt8) (len : ℕ) :
    tcpVerifyChecksum srcIp dstIp seg len = (word (seg 16) (seg 17) ==
      if tcpComputeChecksum srcIp dstIp (cleared seg) len = 0 then 0xFFFF
      else tcpComputeChecksum srcIp dstIp (cleared seg) len) := rfl

lemma tcpVerifyChecksumIn_eq (srcIp dstIp seg : ℕ → UInt8) (len : ℕ) :
    tcpVerifyChecksumIn srcIp dstIp seg len = (tcpVerifyChecksum srcIp dstIp seg len,seg) := by
  have hbc : update (update (update (update seg 16 0) 17 0)
      16 (seg 16)) 17 (seg 17) = seg := by
    funext i
    by_cases h17 : i = 17
    · simp [h17]
    · by_cases h16 : i = 16
      · simp [h16]
      · simp [h16,h17]
  simp only [tcpVerifyChecksumIn,update_cleared] at hbc ⊢
  rw [hbc]
  rfl

lemma checksumLoop_eq (l : List UInt8) (sum : ℕ) (h : sum+wordSum l < 2^32) :
    checksumLoop l sum = sum+wordSum l := by
  induction l using wordSum.induct generalizing sum with
  | case1 a b rest ih =>
    have hle : sum+word a b ≤ sum+wordSum (a :: b :: rest) := by
      simp only [word,wordSum]
      omega
    have hmod : (sum+word a b) % 2^32 = sum+word a b :=
      Nat.mod_eq_of_lt (Nat.lt_of_le_of_lt hle h)
    rw [checksumLoop,hmod,ih,wordSum,word]
    · omega
    · simpa [word,wordSum,Nat.add_assoc] using h
  | case2 a =>
    have hwr : word a 0 = wordSum [a] := by
      simp [word,wordSum]
    rw [checksumLoop,hwr]
    exact Nat.mod_eq_of_lt h
  | case3 => rfl

lemma residue_foldCarry (n s : ℕ) : residue (2^16) (foldCarry n s) = residue (2^16) s := by
  induction n generalizing s with
  | zero => rfl
  | succ n ih =>
    rw [foldCarry]
    split
    · rfl
    · rw [ih,residue_carry (by decide)]

lemma foldCarry_eq {s : ℕ} (h : s < 2^32) : foldCarry 3 s = residue (2^16) s := by
  have hlt : foldCarry 3 s < 2^16 := by
    simp only [foldCarry]
    split_ifs <;> omega
  rw [← residue_foldCarry 3 s,residue_of_lt hlt]

lemma residue_lt (s : ℕ) : residue (2^16) s < 2^16 := by
  rw [residue]
  split
  · decide
  · omega

lemma netChecksum_eq {data : List UInt8} (hpos : data.length ≠ 0) (hmax : data.length ≤ 2^16) :
    netChecksum data = 2^16-1-residue (2^16) (wordSum data) := by
  have hle := wordSum_le data
  have hlt : wordSum data < 2^32 := by omega
  rw [netChecksum,if_neg hpos,checksumLoop_eq data 0 (by omega),Nat.zero_add,foldCarry_eq hlt,
    Nat.mod_eq_of_lt (residue_lt _)]

lemma netChecksum_eq_zero {data : List UInt8} (hpos : data.length ≠ 0) (hmax : data.length ≤ 2^16) :
    netChecksum data = 0 ↔ wordSum data ≠ 0 ∧ 65535 ∣ wordSum data := by
  have htop : residue (2^16) (wordSum data) = 65535 ↔
      wordSum data ≠ 0 ∧ 65535 ∣ wordSum data := residue_eq_top (by decide)
  have hlt := residue_lt (wordSum data)
  rw [netChecksum_eq hpos hmax,← htop]
  omega

lemma netChecksum_lt (data : List UInt8) : netChecksum data < 2^16 := by
  rw [netChecksum]
  split <;> omega

/-- The pseudo header of a segment of `len` bytes. -/
def pseudo (srcIp dstIp : ℕ → UInt8) (len : ℕ) : List UInt8 :=
  bytes srcIp 4 ++ bytes dstIp 4 ++ [0,ipProtoTcp,UInt8.ofNat (len / 2^8),UInt8.ofNat len]

lemma pseudo_length (srcIp dstIp : ℕ → UInt8) (len : ℕ) :
    (pseudo srcIp dstIp len).length = 12 := by
  simp [pseudo,bytes_length]

lemma bytes_add (a : ℕ → UInt8) (m n : ℕ) :
    bytes a (m+n) = bytes a m ++ bytes (fun i => a (m+i)) n := by
  simp [bytes,List.range_add,Function.comp_def]

lemma wordSum_cleared (seg : ℕ → UInt8) {len : ℕ} (hlen : 18 ≤ len) :
    wordSum (bytes seg len) = word (seg 16) (seg 17)+wordSum (bytes (cleared seg) len) := by
  obtain ⟨n,rfl⟩ : ∃ n, len = 16+(2+n) := ⟨len-18,by omega⟩
  have hsp : ∀ f : ℕ → UInt8, wordSum (bytes f (16+(2+n))) =
      wordSum (bytes f 16)+(word (f 16) (f 17)+wordSum (bytes (fun i => f (16+(2+i))) n)) := by
    intro f
    rw [bytes_add,wordSum_append (by rw [bytes_length]),bytes_add,wordSum_append
      (by rw [bytes_length])]
    simp [bytes,List.range_succ,wordSum,word]
  have hlow : bytes (cleared seg) 16 = bytes seg 16 := by
    apply List.map_congr_left
    intro i hi
    have hlt := List.mem_range.mp hi
    exact if_neg (by omega)
  have hhg : (fun i => cleared seg (16+(2+i))) = fun i => seg (16+(2+i)) := by
    funext i
    exact if_neg (by omega)
  have hfl : word (cleared seg 16) (cleared seg 17) = 0 := by
    simp [cleared,word]
  rw [hsp,hsp,hlow,hhg,hfl]
  omega

/-- The words of the pseudo header and of a segment of `len` bytes add up to zero, and the
checksum is written as nonzero. -/
def Sums (srcIp dstIp seg : ℕ → UInt8) (len : ℕ) : Prop :=
  word (seg 16) (seg 17) ≠ 0 ∧ 65535 ∣ wordSum (pseudo srcIp dstIp len ++ bytes seg len)

lemma tcpVerifyChecksum_iff (srcIp dstIp seg : ℕ → UInt8) {len : ℕ} (hmin : 18 ≤ len)
    (hmax : len ≤ 2048) :
    tcpVerifyChecksum srcIp dstIp seg len = true ↔ Sums srcIp dstIp seg len := by
  have hln : (pseudo srcIp dstIp len ++ bytes (cleared seg) len).length = 12+len := by
    rw [List.length_append,pseudo_length,bytes_length]
  have hcm : tcpComputeChecksum srcIp dstIp (cleared seg) len =
      2^16-1-residue (2^16) (wordSum (pseudo srcIp dstIp len ++ bytes (cleared seg) len)) :=
    netChecksum_eq (ne_of_eq_of_ne hln (by omega)) (hln.trans_le (by omega))
  have hev : (pseudo srcIp dstIp len).length % 2 = 0 := by rw [pseudo_length]
  have hsum : wordSum (pseudo srcIp dstIp len ++ bytes seg len) =
      word (seg 16) (seg 17)+wordSum (pseudo srcIp dstIp len ++ bytes (cleared seg) len) := by
    rw [wordSum_append hev,wordSum_append hev,wordSum_cleared seg hmin]
    omega
  have hpos : wordSum (pseudo srcIp dstIp len ++ bytes (cleared seg) len) ≠ 0 := by
    simp [pseudo,bytes,List.range_succ,wordSum,ipProtoTcp]
  have hwr : word (seg 16) (seg 17) < 2^16 := by
    have hhi := (seg 16).toNat_lt
    have hlo := (seg 17).toNat_lt
    rw [word]
    omega
  rw [tcpVerifyChecksum_cleared,Sums,hsum,hcm,beq_iff_eq]
  exact complement_iff (by decide) hpos hwr

/-- What the sender sums: the pseudo header and the segment without its checksum. -/
def summed (c : Conn) (h : Host) (flags : UInt8) (data : ℕ → UInt8) (len : ℕ) : List UInt8 :=
  pseudo h.localIp c.remoteIp (20+len) ++ tcpHeader c flags 0 ++ bytes data len

lemma tcpHeader_length (c : Conn) (flags : UInt8) (cksum : ℕ) :
    (tcpHeader c flags cksum).length = 20 := rfl

lemma bytes_getD (l : List UInt8) : bytes (l.getD · 0) l.length = l := by
  apply List.ext_getElem
  · rw [bytes_length]
  · intro i h₁ h₂
    simp only [bytes,List.getElem_map,List.getElem_range]
    exact List.getD_eq_getElem _ _ h₂

lemma blank_checksum (c : Conn) (h : Host) (flags : UInt8) (data : ℕ → UInt8) (len : ℕ) :
    tcpComputeChecksum h.localIp c.remoteIp ((tcpHeader c flags 0 ++ bytes data len).getD · 0)
      (tcpHeader c flags 0 ++ bytes data len).length = netChecksum (summed c h flags data len) := by
  rw [tcpComputeChecksum,bytes_getD,List.length_append,tcpHeader_length,bytes_length]
  simp [summed,pseudo]

lemma tcpHeader_cleared (c : Conn) (flags : UInt8) (cksum : ℕ) (data : List UInt8) :
    cleared ((tcpHeader c flags cksum ++ data).getD · 0) =
      ((tcpHeader c flags 0 ++ data).getD · 0) := by
  funext i
  rw [cleared]
  by_cases hi : i < 20
  · interval_cases i <;> rfl
  · have h16 : ¬(i = 16 ∨ i = 17) := by omega
    simp only [if_neg h16]
    rw [List.getD_append_right _ _ _ _ (by rw [tcpHeader_length]; omega),
      List.getD_append_right _ _ _ _ (by rw [tcpHeader_length]; omega)]
    rfl

/-- The receiver compares the checksum with itself, unless it is zero. -/
theorem tcpVerifyChecksum_segment (c : Conn) (h : Host) (flags : UInt8) (data : ℕ → UInt8)
    (len : ℕ) :
    tcpVerifyChecksum h.localIp c.remoteIp ((tcpSegment c h flags data len).getD · 0)
      (tcpSegment c h flags data len).length =
      decide (netChecksum (summed c h flags data len) ≠ 0) := by
  have hlt := netChecksum_lt (summed c h flags data len)
  simp only [tcpVerifyChecksum_cleared,tcpSegment,blank_checksum,tcpHeader_cleared]
  have hlen : (tcpHeader c flags (netChecksum (summed c h flags data len)) ++
      bytes data len).length = (tcpHeader c flags 0 ++ bytes data len).length := rfl
  rw [hlen,blank_checksum]
  generalize netChecksum (summed c h flags data len) = k at hlt ⊢
  have hwr : word ((tcpHeader c flags k ++ bytes data len).getD 16 0)
      ((tcpHeader c flags k ++ bytes data len).getD 17 0) = k := by
    simp [tcpHeader,dwordBytes,word]
    omega
  rw [hwr]
  by_cases hk : k = 0 <;> simp [hk]

lemma summed_length (c : Conn) (h : Host) (flags : UInt8) (data : ℕ → UInt8) (len : ℕ) :
    (summed c h flags data len).length = 32+len := by
  simp only [summed,List.length_append,pseudo_length,bytes_length,tcpHeader_length]

lemma summed_pos (c : Conn) (h : Host) (flags : UInt8) (data : ℕ → UInt8) (len : ℕ) :
    wordSum (summed c h flags data len) ≠ 0 := by
  simp [summed,pseudo,bytes,List.range_succ,wordSum,ipProtoTcp]

/-- A segment as it is sent passes the receiver's check, and is left as it was, exactly
when the sum of its words is no multiple of 65535. -/
theorem segment_verifies_iff (c : Conn) (h : Host) (flags : UInt8) (data : ℕ → UInt8) {len : ℕ}
    (hlen : len ≤ maxTcpSendSize) :
    tcpVerifyChecksumIn h.localIp c.remoteIp ((tcpSegment c h flags data len).getD · 0)
        (tcpSegment c h flags data len).length =
      (true,((tcpSegment c h flags data len).getD · 0)) ↔
    ¬ 65535 ∣ wordSum (summed c h flags data len) := by
  have hmax : len ≤ 1500 := hlen
  have hln := summed_length c h flags data len
  have hzr : netChecksum (summed c h flags data len) = 0 ↔ _ :=
    netChecksum_eq_zero (by omega) (by omega)
  have hpos := summed_pos c h flags data len
  rw [tcpVerifyChecksumIn_eq,tcpVerifyChecksum_segment,Prod.mk.injEq,decide_eq_true_eq,ne_eq,hzr]
  simp [hpos]

/-- A connection from 10.0.2.15 to 10.0.2.2. -/
def localHost : Host where
  localMac := fun _ => 0
  localIp := fun i => [10,0,2,15].getD i 0
  gatewayMac := fun _ => 0
  gatewayResolved := false
  dhcpInProgress := false
  arrivals := []
  sent := []

def conn (sport dport : ℕ) : Conn :=
  { Conn.zero with
    state := .synSent, sport := sport, dport := dport, seqLocal := 1000
    remoteIp := fun i => [10,0,2,2].getD i 0 }

theorem segment_verifies_http :
    tcpVerifyChecksumIn localHost.localIp (conn 40000 80).remoteIp
      ((tcpSegment (conn 40000 80) localHost tcpFlagSyn (fun _ => 0) 0).getD · 0)
      (tcpSegment (conn 40000 80) localHost tcpFlagSyn (fun _ => 0) 0).length =
      (true,((tcpSegment (conn 40000 80) localHost tcpFlagSyn (fun _ => 0) 0).getD · 0)) :=
  (segment_verifies_iff (conn 40000 80) localHost tcpFlagSyn (fun _ => 0)
    (by decide)).mpr (by decide)

/-- The words of this SYN add up to 65535, its checksum field is zero, and the receiver
expects `0xFFFF` there. -/
theorem zero_checksum_refused :
    tcpVerifyChecksumIn localHost.localIp (conn 29594 80).remoteIp
      ((tcpSegment (conn 29594 80) localHost tcpFlagSyn (fun _ => 0) 0).getD · 0)
      (tcpSegment (conn 29594 80) localHost tcpFlagSyn (fun _ => 0) 0).length ≠
      (true,((tcpSegment (conn 29594 80) localHost tcpFlagSyn (fun _ => 0) 0).getD · 0)) := by
  intro h
  exact absurd (congrArg Prod.fst h) (by decide)

end HarlinKernel.TcpChecksum
