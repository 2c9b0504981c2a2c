import HarlinKernel.AddressSpace

/-! Copies between the kernel and user pages: `copy_from_user`, `copy_to_user` and
`strncpy_from_user` of `mem/vmm.c`, and `user_ptr_valid` of `syscall.c`. The bytes of a frame are
reached through the window of `TEMP_WIN_VA`, which is taken as direct access, and are kept apart
from the words of the page tables. The kernel's own buffer is an argument or a result. -/
namespace HarlinKernel.UserCopy

open PageAllocator LabelledWalk PageTable AddressSpace

/-- The page tables, and the bytes of each frame by their offset. -/
structure UserMem where
  vmm : Vmm
  data : ℕ → ℕ → UInt8

/-- What a call returns, the memory it leaves, the bytes it stored in the kernel's buffer and
the user addresses through which bytes went. -/
structure Copy where
  rc : ℤ
  mem : UserMem
  bytes : List UInt8
  touched : List ℕ

/-- The tests that open all three functions. -/
def rejects (addr len : ℕ) : Bool :=
  decide (addr < userAddrStart ∨ (addr+len) % 2^64 < addr ∨ userAddrEnd < (addr+len) % 2^64)

def userAddr (addr off : ℕ) : ℕ := (addr+off) % 2^64

/-- The bytes up to the end of the page, or of the request. -/
def chunkLen (virt left : ℕ) : ℕ := min left (4096-virt % 4096)

/-- The loop of both copies, with what is done with a chunk: its physical address, its offset in
the kernel's buffer and its length. -/
def copyLoop (move : UserMem → ℕ → ℕ → ℕ → UserMem × List UInt8) (addr len : ℕ) :
    ℕ → UserMem → ℕ → Copy
  | 0, m, _ => ⟨0,m,[],[]⟩
  | fuel+1, m, off =>
    if off < len then
      let virt := userAddr addr off
      let phys := vmmGetPhysLocked m.vmm virt
      if phys = 0 then ⟨-1,m,[],[]⟩
      else
        let chunk := chunkLen virt (len-off)
        let moved := move m phys off chunk
        let rest := copyLoop move addr len fuel moved.1 (off+chunk)
        { rest with
          bytes := moved.2 ++ rest.bytes
          touched := (List.range chunk).map (virt+·) ++ rest.touched }
    else ⟨0,m,[],[]⟩

/-- Every round copies a byte at least, so that `len` rounds are enough. -/
def copyUser (move : UserMem → ℕ → ℕ → ℕ → UserMem × List UInt8) (m : UserMem) (addr len : ℕ) :
    Copy :=
  if len = 0 then ⟨0,m,[],[]⟩
  else if rejects addr len then ⟨-1,m,[],[]⟩
  else copyLoop move addr len len m 0

def readChunk (m : UserMem) (phys _off chunk : ℕ) : UserMem × List UInt8 :=
  (m,(List.range chunk).map fun i => m.data (phys &&& frameMask) ((phys &&& 0xFFF)+i))

def writeChunk (src : ℕ → UInt8) (m : UserMem) (phys off chunk : ℕ) : UserMem × List UInt8 :=
  let first := phys &&& 0xFFF
  ({ m with
      data := fun frame o =>
        if frame = phys &&& frameMask ∧ first ≤ o ∧ o < first+chunk then src (off+(o-first))
        else m.data frame o },[])

def copyFromUser (m : UserMem) (usrc len : ℕ) : Copy := copyUser readChunk m usrc len

def copyToUser (m : UserMem) (udst : ℕ) (ksrc : ℕ → UInt8) (len : ℕ) : Copy :=
  copyUser (writeChunk ksrc) m udst len

/-- The byte at a physical address. -/
def UserMem.byte (m : UserMem) (phys : ℕ) : UInt8 := m.data (phys &&& frameMask) (phys &&& 0xFFF)

/-- The loop of `strncpy_from_user` with `n` bytes to go; the last byte of a buffer that was
filled is overwritten. -/
def strncpyLoop (m : UserMem) (usrc : ℕ) : ℕ → ℕ → Copy
  | 0, _ => ⟨0,m,[],[]⟩
  | n+1, i =>
    let virt := userAddr usrc i
    let phys := vmmGetPhysLocked m.vmm virt
    if phys = 0 then ⟨-1,m,[],[]⟩
    else if m.byte phys = 0 then ⟨0,m,[0],[virt]⟩
    else
      let rest := strncpyLoop m usrc n (i+1)
      { rest with
        bytes := (if n = 0 then 0 else m.byte phys) :: rest.bytes
        touched := virt :: rest.touched }

def strncpyFromUser (m : UserMem) (usrc maxlen : ℕ) : Copy :=
  if maxlen = 0 then ⟨-1,m,[],[]⟩
  else if rejects usrc maxlen then ⟨-1,m,[],[]⟩
  else strncpyLoop m usrc maxlen 0

/-- The loop of `user_ptr_valid` over the pages from `p` on. -/
def pagesMapped (s : Vmm) (finish : ℕ) : ℕ → ℕ → Bool
  | 0, _ => true
  | fuel+1, p => if p < finish then vmmGetPhysLocked s p ≠ 0 && pagesMapped s finish fuel (p+4096)
      else true

def userPtrValid (s : Vmm) (addr len : ℕ) : Bool :=
  if len = 0 then true
  else if rejects addr len then false
  else pagesMapped s ((addr+len+0xFFF) / 4096*4096) (len / 4096+2) (addr / 4096*4096)

/-- The flags that all entries on the way to a page have. -/
def permissions (mem : ℕ → ℕ → ℕ) : Node → List ℕ → ℕ
  | _, [] => 2^64-1
  | n, l :: path =>
    match next mem n l with
    | .stop _ => mem n.2 l
    | .go m => mem n.2 l &&& permissions mem m path

/-- The tables grant the access with these flags. -/
def Grants (s : Vmm) (flags virt : ℕ) : Prop :=
  permissions s.mem (0,s.currentPml4Phys &&& frameMask) (labels virt) &&& flags = flags

/-- Bytes went only through pages that grant the access, and a range with another page is
refused; the range is given by the offsets of its bytes. -/
structure UserOnly (flags : ℕ) (m : UserMem) (addr : ℕ) (range : ℕ → Prop) (c : Copy) : Prop where
  granted : ∀ virt ∈ c.touched, Grants m.vmm flags virt
  refused : ∀ i, range i → ¬ Grants m.vmm flags (userAddr addr i) → c.rc = -1

/-- All bytes up to this one have a translation. -/
def Reached (s : Vmm) (addr off i : ℕ) : Prop :=
  ∀ j, off ≤ j → j ≤ i → vmmGetPhysLocked s (userAddr addr j) ≠ 0

section Pages

variable {s : Vmm} {v k : ℕ}

lemma labels_page (h : v % 4096+k < 4096) : labels (v+k) = labels v := by
  rw [labels_eq_iff]
  omega

lemma or_ne_zero {base a b : ℕ} (h : base ||| a ≠ 0) (hab : a ≤ b) : base ||| b ≠ 0 := by
  rw [Ne,Nat.or_eq_zero_iff] at h ⊢
  omega

lemma phys_page (h : v % 4096+k < 4096) (hv : vmmGetPhysLocked s v ≠ 0) :
    vmmGetPhysLocked s (v+k) ≠ 0 := by
  have hlb := labels_page h
  simp only [labels,List.cons.injEq,and_true] at hlb
  obtain ⟨h₁,h₂,h₃,h₄⟩ := hlb
  have hhg : v &&& 0x1FFFFF ≤ v+k &&& 0x1FFFFF := by
    rw [show (0x1FFFFF : ℕ) = 2^21-1 from rfl,Nat.and_two_pow_sub_one_eq_mod,
      Nat.and_two_pow_sub_one_eq_mod]
    omega
  have hsm : v &&& 0xFFF ≤ v+k &&& 0xFFF := by
    rw [show (0xFFF : ℕ) = 2^12-1 from rfl,Nat.and_two_pow_sub_one_eq_mod,
      Nat.and_two_pow_sub_one_eq_mod]
    omega
  simp only [vmmGetPhysLocked,h₁,h₂,h₃,h₄] at hv ⊢
  split_ifs at hv ⊢ <;>
    first
    | exact absurd rfl hv
    | exact or_ne_zero hv hhg
    | exact or_ne_zero hv hsm

lemma userAddr_chunk {addr off left j : ℕ} (h : j < chunkLen (userAddr addr off) left) :
    userAddr addr (off+j) = userAddr addr off+j ∧ userAddr addr off % 4096+j < 4096 := by
  rw [chunkLen,userAddr] at h
  simp only [userAddr]
  omega

end Pages

section Copies

variable {move : UserMem → ℕ → ℕ → ℕ → UserMem × List UInt8} {m : UserMem} {addr len off : ℕ}

/-- What the loop touches and returns, for a copy that leaves the tables alone. -/
theorem copyLoop_spec (m : UserMem) (addr : ℕ)
    (hmv : ∀ m phys off n, (move m phys off n).1.vmm = m.vmm) {off fuel : ℕ}
    (hfl : len ≤ off+fuel) :
    (∀ v, v ∈ (copyLoop move addr len fuel m off).touched ↔
      ∃ i, off ≤ i ∧ i < len ∧ Reached m.vmm addr off i ∧ v = userAddr addr i) ∧
    ((copyLoop move addr len fuel m off).rc = -1 ∨
      ∀ i, off ≤ i → i < len → Reached m.vmm addr off i) := by
  induction fuel generalizing m off with
  | zero =>
    refine ⟨?_,?_⟩
    · intro v
      simp only [copyLoop,List.not_mem_nil,false_iff,not_exists,not_and]
      intro i hoff hlen
      omega
    · right
      intro i hoff hlen
      omega
  | succ fuel ih =>
    rw [copyLoop]
    by_cases hoff : off < len
    · simp only [hoff,if_true]
      by_cases hph : vmmGetPhysLocked m.vmm (userAddr addr off) = 0
      · simp only [hph,if_true]
        refine ⟨?_,.inl trivial⟩
        intro v
        simp only [List.not_mem_nil,false_iff]
        rintro ⟨i,hi,-,hre,-⟩
        exact hre off le_rfl hi hph
      simp only [hph,if_false]
      set chunk := chunkLen (userAddr addr off) (len-off) with hch
      have hpos : 0 < chunk := by
        rw [hch,chunkLen]
        omega
      have hle : off+chunk ≤ len := by
        rw [hch,chunkLen]
        omega
      have hmp : ∀ j, off ≤ j → j < off+chunk →
          vmmGetPhysLocked m.vmm (userAddr addr j) ≠ 0 := by
        intro j hj hj'
        obtain ⟨heq,hpage⟩ :=
          userAddr_chunk (show j-off < chunkLen (userAddr addr off) (len-off) by omega)
        rw [show j = off+(j-off) by omega,heq]
        exact phys_page hpage hph
      have hvmm := hmv m (vmmGetPhysLocked m.vmm (userAddr addr off)) off chunk
      obtain ⟨htc,hrc⟩ := ih (move m (vmmGetPhysLocked m.vmm (userAddr addr off)) off chunk).1
        (show len ≤ off+chunk+fuel by omega)
      rw [hvmm] at htc hrc
      have hre : ∀ i, off+chunk ≤ i →
          (Reached m.vmm addr off i ↔ Reached m.vmm addr (off+chunk) i) := by
        intro i hi
        constructor
        · intro h j hj hji
          exact h j (by omega) hji
        · intro h j hj hji
          by_cases hin : j < off+chunk
          · exact hmp j hj hin
          · exact h j (by omega) hji
      refine ⟨?_,?_⟩
      · intro v
        simp only [List.mem_append,List.mem_map,List.mem_range,htc]
        constructor
        · rintro (⟨k,hk,rfl⟩ | ⟨i,hi,hlen,hr,rfl⟩)
          · obtain ⟨heq,-⟩ := userAddr_chunk hk
            exact ⟨off+k,by omega,by omega,fun j hj hjk => hmp j hj (by omega),heq.symm⟩
          · exact ⟨i,by omega,hlen,(hre i hi).mpr hr,rfl⟩
        · rintro ⟨i,hi,hlen,hr,rfl⟩
          by_cases hin : i < off+chunk
          · have hk : i-off < chunkLen (userAddr addr off) (len-off) := by omega
            obtain ⟨heq,-⟩ := userAddr_chunk hk
            exact .inl ⟨i-off,hk,by rw [← heq,show off+(i-off) = i by omega]⟩
          · exact .inr ⟨i,by omega,hlen,(hre i (by omega)).mp hr,rfl⟩
      · rcases hrc with hrc | hrc
        · exact .inl hrc
        · right
          intro i hi hlen
          by_cases hin : i < off+chunk
          · exact fun j hj hji => hmp j hj (by omega)
          · exact (hre i (by omega)).mpr (hrc i (by omega) hlen)
    · simp only [hoff,if_false]
      refine ⟨?_,?_⟩
      · intro v
        simp only [List.not_mem_nil,false_iff,not_exists,not_and]
        intro i hi hlen
        omega
      · right
        intro i hi hlen
        omega

lemma copyUser_userOnly_iff (hmv : ∀ m phys off n, (move m phys off n).1.vmm = m.vmm)
    (flags : ℕ) : UserOnly flags m addr (· < len) (copyUser move m addr len) ↔
    (rejects addr len = false → ∀ i < len, Reached m.vmm addr 0 i →
    Grants m.vmm flags (userAddr addr i)) := by
  rw [copyUser]
  by_cases hlen : len = 0
  · subst hlen
    simp only [if_true,Nat.not_lt_zero,false_implies,implies_true,iff_true]
    exact ⟨by simp,by simp⟩
  simp only [hlen,if_false]
  cases hrej : rejects addr len with
  | true =>
    simp only [if_true,Bool.true_eq_false,false_implies,iff_true]
    exact ⟨by simp,fun _ _ _ => rfl⟩
  | false =>
    simp only [Bool.false_eq_true,if_false,true_implies]
    obtain ⟨htc,hrc⟩ := copyLoop_spec m addr hmv (show len ≤ 0+len by omega)
    constructor
    · intro h i hi hre
      exact h.granted _ ((htc _).mpr ⟨i,Nat.zero_le i,hi,hre,rfl⟩)
    · intro h
      refine ⟨?_,?_⟩
      · intro v hv
        obtain ⟨i,-,hi,hre,rfl⟩ := (htc v).mp hv
        exact h i hi hre
      · intro i hi hnot
        rcases hrc with hrc | hrc
        · exact hrc
        · exact (hnot (h i hi (hrc i (Nat.zero_le i) hi))).elim

/-- No byte before this one is zero. -/
def Unended (m : UserMem) (addr off i : ℕ) : Prop :=
  ∀ j, off ≤ j → j < i → m.byte (vmmGetPhysLocked m.vmm (userAddr addr j)) ≠ 0

lemma reached_self {s : Vmm} (h : vmmGetPhysLocked s (userAddr addr off) ≠ 0) :
    Reached s addr off off := by
  intro j hj hj'
  rw [show j = off by omega]
  exact h

lemma reached_succ {s : Vmm} {i : ℕ} (h : vmmGetPhysLocked s (userAddr addr off) ≠ 0) :
    Reached s addr off i ↔ Reached s addr (off+1) i := by
  constructor
  · intro hrc j hj hji
    exact hrc j (by omega) hji
  · intro hrc j hj hji
    rcases Nat.eq_or_lt_of_le hj with rfl | hj
    · exact h
    · exact hrc j hj hji

lemma unended_succ {i : ℕ} (h : m.byte (vmmGetPhysLocked m.vmm (userAddr addr off)) ≠ 0) :
    Unended m addr off i ↔ Unended m addr (off+1) i := by
  constructor
  · intro hun j hj hji
    exact hun j (by omega) hji
  · intro hun j hj hji
    rcases Nat.eq_or_lt_of_le hj with rfl | hj
    · exact h
    · exact hun j hj hji

lemma strncpyLoop_touched (m : UserMem) (addr n off v : ℕ) :
    v ∈ (strncpyLoop m addr n off).touched ↔ ∃ i, off ≤ i ∧ i < off+n ∧ Reached m.vmm addr off i ∧
    Unended m addr off i ∧ v = userAddr addr i := by
  induction n generalizing off with
  | zero =>
    simp only [strncpyLoop,List.not_mem_nil,false_iff,not_exists,not_and]
    intro i hi hlt
    omega
  | succ n ih =>
    have hsl : Unended m addr off off := fun j hj hj' => by omega
    rw [strncpyLoop]
    by_cases hph : vmmGetPhysLocked m.vmm (userAddr addr off) = 0
    · simp only [hph,if_true,List.not_mem_nil,false_iff]
      rintro ⟨i,hi,-,hrc,-⟩
      exact hrc off le_rfl hi hph
    by_cases hby : m.byte (vmmGetPhysLocked m.vmm (userAddr addr off)) = 0
    · simp only [hph,hby,if_true,if_false,List.mem_singleton]
      constructor
      · rintro rfl
        exact ⟨off,le_rfl,by omega,reached_self hph,hsl,rfl⟩
      · rintro ⟨i,hi,-,-,hun,rfl⟩
        rcases Nat.eq_or_lt_of_le hi with rfl | hi
        · rfl
        · exact (hun off le_rfl hi hby).elim
    · simp only [hph,hby,if_false,List.mem_cons,ih]
      constructor
      · rintro (rfl | ⟨i,hi,hlt,hrc,hun,rfl⟩)
        · exact ⟨off,le_rfl,by omega,reached_self hph,hsl,rfl⟩
        · exact ⟨i,by omega,by omega,(reached_succ hph).mpr hrc,
            (unended_succ hby).mpr hun,rfl⟩
      · rintro ⟨i,hi,hlt,hrc,hun,rfl⟩
        rcases Nat.eq_or_lt_of_le hi with rfl | hi
        · exact .inl rfl
        · exact .inr ⟨i,hi,by omega,(reached_succ hph).mp hrc,
            (unended_succ hby).mp hun,rfl⟩

lemma strncpyLoop_rc (m : UserMem) (addr n off : ℕ) : (strncpyLoop m addr n off).rc = -1 ∨ ∀ i,
    off ≤ i → i < off+n → Unended m addr off i → Reached m.vmm addr off i := by
  induction n generalizing off with
  | zero =>
    right
    intro i hi hlt
    omega
  | succ n ih =>
    rw [strncpyLoop]
    by_cases hph : vmmGetPhysLocked m.vmm (userAddr addr off) = 0
    · simp only [hph,if_true]
      exact .inl trivial
    by_cases hby : m.byte (vmmGetPhysLocked m.vmm (userAddr addr off)) = 0
    · right
      intro i hi _ hun
      rcases Nat.eq_or_lt_of_le hi with rfl | hi
      · exact reached_self hph
      · exact (hun off le_rfl hi hby).elim
    simp only [hph,hby,if_false]
    rcases ih (off+1) with hrc | hrc
    · exact .inl hrc
    · right
      intro i hi hlt hun
      rcases Nat.eq_or_lt_of_le hi with rfl | hi
      · exact reached_self hph
      · exact (reached_succ hph).mpr (hrc i hi (by omega) ((unended_succ hby).mp hun))

lemma strncpyFromUser_userOnly_iff (m : UserMem) (usrc maxlen flags : ℕ) :
    UserOnly flags m usrc (fun i => i < maxlen ∧ Unended m usrc 0 i)
      (strncpyFromUser m usrc maxlen) ↔
    (rejects usrc maxlen = false → ∀ i < maxlen, Reached m.vmm usrc 0 i → Unended m usrc 0 i →
        Grants m.vmm flags (userAddr usrc i)) := by
  rw [strncpyFromUser]
  by_cases hlen : maxlen = 0
  · subst hlen
    simp only [if_true,Nat.not_lt_zero,false_implies,implies_true,iff_true]
    exact ⟨by simp,by simp⟩
  simp only [hlen,if_false]
  cases hrej : rejects usrc maxlen with
  | true =>
    simp only [if_true,Bool.true_eq_false,false_implies,iff_true]
    exact ⟨by simp,fun _ _ _ => rfl⟩
  | false =>
    simp only [Bool.false_eq_true,if_false,true_implies]
    have htc := strncpyLoop_touched m usrc maxlen 0
    constructor
    · intro h i hi hre hun
      exact h.granted _ ((htc _).mpr ⟨i,Nat.zero_le i,by omega,hre,hun,rfl⟩)
    · intro h
      refine ⟨?_,?_⟩
      · intro v hv
        obtain ⟨i,-,hi,hre,hun,rfl⟩ := (htc v).mp hv
        exact h i (by omega) hre hun
      · rintro i ⟨hi,hun⟩ hnot
        rcases strncpyLoop_rc m usrc maxlen 0 with hrc | hrc
        · exact hrc
        · exact (hnot (h i hi (hrc i (Nat.zero_le i) (by omega) hun) hun)).elim

end Copies

/-- The three functions transfer bytes only through user pages, and to writable ones, exactly if
the pages that they come to before one without a translation are such pages. -/
theorem user_copies_iff (m : UserMem) (addr len : ℕ) (ksrc : ℕ → UInt8) :
    (UserOnly vmmUser m addr (· < len) (copyFromUser m addr len) ↔
      (rejects addr len = false → ∀ i < len, Reached m.vmm addr 0 i →
        Grants m.vmm vmmUser (userAddr addr i))) ∧
    (UserOnly (vmmUser ||| vmmWritable) m addr (· < len) (copyToUser m addr ksrc len) ↔
      (rejects addr len = false → ∀ i < len, Reached m.vmm addr 0 i →
        Grants m.vmm (vmmUser ||| vmmWritable) (userAddr addr i))) ∧
    (UserOnly vmmUser m addr (fun i => i < len ∧ Unended m addr 0 i)
        (strncpyFromUser m addr len) ↔
      (rejects addr len = false → ∀ i < len, Reached m.vmm addr 0 i → Unended m addr 0 i →
        Grants m.vmm vmmUser (userAddr addr i))) := by
  refine ⟨?_,?_,?_⟩
  · exact copyUser_userOnly_iff (fun _ _ _ _ => rfl) vmmUser
  · exact copyUser_userOnly_iff (fun _ _ _ _ => rfl) (vmmUser ||| vmmWritable)
  · exact strncpyFromUser_userOnly_iff m addr len vmmUser

lemma and_of_and_and {a b flags : ℕ} (h : a &&& b &&& flags = flags) : b &&& flags = flags := by
  apply Nat.eq_of_testBit_eq
  intro i
  have hbit := congrArg (fun x => x.testBit i) h
  simp only [Nat.testBit_and] at hbit ⊢
  revert hbit
  cases b.testBit i <;> cases flags.testBit i <;> simp

lemma permissions_append {mem : ℕ → ℕ → ℕ} {n m : Node} {p : List ℕ}
    (h : descend (next mem) n p = some m) (q : List ℕ) {flags : ℕ}
    (hfl : permissions mem n (p ++ q) &&& flags = flags) :
    permissions mem m q &&& flags = flags := by
  induction p generalizing n with
  | nil =>
    cases h
    exact hfl
  | cons l p ih =>
    rw [descend] at h
    rw [List.cons_append,permissions] at hfl
    cases hnx : next mem n l with
    | stop leaf =>
      rw [hnx] at h
      cases h
    | go k =>
      rw [hnx] at h hfl
      exact ih h (and_of_and_and hfl)

section Boot

variable {v : Vmm} {virt : ℕ}

lemma boot_leaf (hpd : v.mem 0x22000 = bootPd) (hst : userAddrStart ≤ virt)
    (hend : virt < userAddrEnd) : labels virt = [0,0] ++ [pdIdx virt,ptIdx virt] ∧
    next v.mem (2,0x22000) (pdIdx virt) = .stop (some (pdIdx virt*0x200000,0x1FFFFF)) := by
  rw [userAddrStart] at hst
  rw [userAddrEnd] at hend
  have hidx : pdIdx virt = 2 ∨ pdIdx virt = 3 := by
    rw [pdIdx,index_eq]
    omega
  refine ⟨?_,?_⟩
  · simp only [labels,pml4Idx,pdptIdx,index_eq,List.cons_append,List.nil_append,List.cons.injEq,
      and_true]
    omega
  · rw [next,hpd]
    rcases hidx with h | h <;> rw [h] <;> rfl

lemma boot_follow (hlow : Low v.mem bootPml4) (hpd : v.mem 0x22000 = bootPd)
    (hst : userAddrStart ≤ virt) (hend : virt < userAddrEnd) : follow (next v.mem) (0,bootPml4)
    (labels virt) = some (some (pdIdx virt*0x200000,0x1FFFFF)) := by
  obtain ⟨hlb,hsp⟩ := boot_leaf hpd hst hend
  rw [hlb,follow_append hlow.pd]
  simp [follow,hsp]

lemma boot_physAddr (hlow : Low v.mem bootPml4) (hpd : v.mem 0x22000 = bootPd)
    (hst : userAddrStart ≤ virt) (hend : virt < userAddrEnd) :
    physAddr v.mem bootPml4 virt = some virt := by
  have hbs : pdIdx virt*0x200000 ||| (virt &&& 0x1FFFFF) = virt := by
    have hmod : virt &&& 0x1FFFFF = virt % 2^21 := Nat.and_two_pow_sub_one_eq_mod virt 21
    rw [userAddrEnd] at hend
    rw [hmod,Nat.mul_comm,show (0x200000 : ℕ) = 2^21 from rfl,
      ← Nat.two_pow_add_eq_or_of_lt (Nat.mod_lt _ (by decide)),pdIdx,index_eq]
    omega
  rw [physAddr,boot_follow hlow hpd hst hend]
  simp only [Option.bind_some,Leaf.at,Option.map_some]
  rw [hbs]

lemma boot_window (hlow : Low v.mem bootPml4) (hpd : v.mem 0x22000 = bootPd)
    (hcr : v.currentPml4Phys = bootPml4) (hst : userAddrStart ≤ virt)
    (hend : virt < userAddrEnd) : vmmGetPhysLocked v virt = virt ∧ ¬ Grants v vmmUser virt := by
  have hms : bootPml4 &&& frameMask = bootPml4 := by decide
  have hne : bootPml4 ≠ 0 := by decide
  have hph := boot_physAddr hlow hpd hst hend
  obtain ⟨hlb,hsp⟩ := boot_leaf hpd hst hend
  have hidx : pdIdx virt = 2 ∨ pdIdx virt = 3 := by
    rw [userAddrStart] at hst
    rw [userAddrEnd] at hend
    rw [pdIdx,index_eq]
    omega
  refine ⟨?_,?_⟩
  · rw [vmmGetPhysLocked_eq,hcr,if_neg hne,hms,hph]
    rfl
  · intro hgr
    rw [Grants,hcr,hms,hlb] at hgr
    have hlf := permissions_append hlow.pd _ hgr
    rw [permissions,hsp] at hlf
    revert hlf
    simp only [hpd]
    rcases hidx with h | h <;> rw [h] <;> decide

end Boot

/-- A byte is stored at 4 MiB, where the boot code maps a page of the supervisor. -/
theorem supervisor_page_written :
    ∃ v, vmmInit (bootState (fun _ _ => 0) freshPmm) bootPml4 = some v ∧
      (∀ virt, userAddrStart ≤ virt → virt < userAddrEnd → ¬ Grants v vmmUser virt) ∧
      userPtrValid v 0x400000 1 = true ∧
      (copyToUser ⟨v,fun _ _ => 0⟩ 0x400000 (fun _ => 65) 1).rc = 0 ∧
      (copyToUser ⟨v,fun _ _ => 0⟩ 0x400000 (fun _ => 65) 1).mem.byte 0x400000 = 65 ∧
      (copyFromUser ⟨v,fun _ _ => 0⟩ 0x400000 1).rc = 0 ∧
      (strncpyFromUser ⟨v,fun _ _ => 0⟩ 0x400000 1).rc = 0 := by
  obtain ⟨v,hin,-⟩ := fresh_boot
  obtain ⟨-,hcr,hsp,hpd,-⟩ := vmmInit_spec (pmmInit_sized _ _) hin
  have hwn : ∀ virt, userAddrStart ≤ virt → virt < userAddrEnd →
      vmmGetPhysLocked v virt = virt ∧ ¬ Grants v vmmUser virt :=
    fun _ => boot_window hsp.low hpd hcr
  have hph : vmmGetPhysLocked v 0x400000 = 0x400000 := (hwn _ (by decide) (by decide)).1
  have hch : chunkLen 0x400000 1 = 1 := by decide
  refine ⟨v,hin,fun virt h h' => (hwn virt h h').2,?_,?_,?_,?_,?_⟩
  · simp [userPtrValid,rejects,pagesMapped,hph,userAddrStart,userAddrEnd]
  · simp [copyToUser,copyUser,rejects,copyLoop,userAddr,hph,userAddrStart,userAddrEnd]
  · simp [copyToUser,copyUser,rejects,copyLoop,userAddr,hph,userAddrStart,userAddrEnd,hch,
      writeChunk,UserMem.byte]
  · simp [copyFromUser,copyUser,rejects,copyLoop,userAddr,hph,userAddrStart,userAddrEnd]
  · simp [strncpyFromUser,rejects,strncpyLoop,userAddr,hph,userAddrStart,userAddrEnd,UserMem.byte]

end HarlinKernel.UserCopy
