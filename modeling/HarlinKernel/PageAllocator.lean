import HarlinKernel.TransitionSystem
import HarlinKernel.Bitmap

/-! The physical page allocator of `mem/pmm.c`: one bit for each managed frame, set when
the frame is allocated. Indices and counts are 32-bit, addresses 64-bit. -/
namespace HarlinKernel.PageAllocator

open TransitionSystem Bitmap

def pmmPageSize : ℕ := 4096
def pmmBaseAddr : ℕ := 0x300000
def pmmBitmapAddr : ℕ := 0x200000
def pmmTotalPagesMin : ℕ := 32000
def pmmMaxPages : ℕ := 0x100000
def isaDmaLimit : ℕ := 0x01000000

/-- The static variables of the file; `lastIdx` is the one of `pmm_alloc_contiguous`. -/
structure Pmm where
  bitmap : Bytes
  totalPages : ℕ
  topAddr : ℕ
  lastIdx : ℕ

def pmmBitmapBytes (totalPages : ℕ) : ℕ := (totalPages+7) / 8

def pmmCheckLayout (totalPages : ℕ) : ℤ :=
  if pmmBaseAddr < pmmBitmapAddr+pmmBitmapBytes totalPages then -1 else 0

/-- The managed frames below the kernel's end or under the bitmap. -/
def reserved (bssEnd totalPages page : ℕ) : Bool :=
  let kernelEndPage := (bssEnd % 2^32+pmmPageSize-1) % 2^32 / pmmPageSize
  let bitmapStartPage := pmmBitmapAddr / pmmPageSize
  let bitmapEndPage :=
    (pmmBitmapAddr+pmmBitmapBytes totalPages+pmmPageSize-1) / pmmPageSize % 2^32
  decide (page < kernelEndPage ∨ bitmapStartPage ≤ page ∧ page < bitmapEndPage)

/-- The loop of the initialisation over the first `n` managed frames. -/
def markReserved (bssEnd totalPages : ℕ) (m : Bytes) : ℕ → Bytes
  | 0 => m
  | n+1 =>
    let m := markReserved bssEnd totalPages m n
    if reserved bssEnd totalPages (pmmBaseAddr / pmmPageSize+n) then setBit m n else m

/-- The number of whole frames below the top, kept within its limits. -/
def managedPages (topUsableAddr : ℕ) : ℕ :=
  let totalPages := (topUsableAddr-pmmBaseAddr) / pmmPageSize
  let totalPages := if pmmMaxPages < totalPages then pmmMaxPages else totalPages
  if totalPages < pmmTotalPagesMin then pmmTotalPagesMin else totalPages

def pmmInitFromE820 (s : Pmm) (bssEnd topUsableAddr : ℕ) : ℤ × Pmm :=
  if topUsableAddr ≤ pmmBaseAddr then (-1,s)
  else
    let totalPages := managedPages topUsableAddr
    if pmmCheckLayout totalPages ≠ 0 then (-1,s)
    else
      let clear := fun i => if i < pmmBitmapBytes totalPages then 0 else s.bitmap i
      (0,{ s with
        bitmap := markReserved bssEnd totalPages clear totalPages
        totalPages := totalPages
        topAddr := pmmBaseAddr+totalPages*pmmPageSize })

def pmmInit (s : Pmm) (bssEnd : ℕ) : Pmm :=
  let r := pmmInitFromE820 s bssEnd (pmmBaseAddr+pmmTotalPagesMin*pmmPageSize)
  if r.1 ≠ 0 then
    { r.2 with
      totalPages := pmmTotalPagesMin
      topAddr := pmmBaseAddr+pmmTotalPagesMin*pmmPageSize }
  else r.2

def pmmTotalPages (s : Pmm) : ℕ := s.totalPages
def pmmTopAddr (s : Pmm) : ℕ := s.topAddr

/-- The test of one bit as all loops write it. -/
def bitFree (m : Bytes) (idx : ℕ) : Bool := m (idx / 8) &&& BitVec.twoPow 8 (idx % 8) = 0

def frameAddr (idx : ℕ) : ℕ := pmmBaseAddr+idx*pmmPageSize
def frameIndex (addr : ℕ) : ℕ := (addr-pmmBaseAddr) / pmmPageSize

@[simp] lemma frameIndex_frameAddr (f : ℕ) : frameIndex (frameAddr f) = f := by
  have hpage : pmmPageSize = 4096 := rfl
  rw [frameIndex,frameAddr,hpage]
  omega

lemma frameAddr_ne_zero (f : ℕ) : frameAddr f ≠ 0 := by
  have hbs : pmmBaseAddr = 0x300000 := rfl
  unfold frameAddr
  omega

def pmmAlloc (s : Pmm) : ℕ × Pmm :=
  let total := s.totalPages % 2^32
  match findBit s.bitmap (fun idx => idx < total && bitFree s.bitmap idx) (total / 8) 0 with
  | some idx => (frameAddr idx,{ s with bitmap := setBit s.bitmap idx })
  | none => (0,s)

/-- The marking loop; the index wraps at 32 bits. -/
def markRun (m : Bytes) (base : ℕ) : ℕ → Bytes
  | 0 => m
  | k+1 => setBit (markRun m base k) ((base+k) % 2^32)

/-- The tests of `pmm_alloc_contiguous` at one index, from `cur` on. -/
def contiguousFits (m : Bytes) (total cur count base : ℕ) : Bool :=
  !decide (base < cur) && !decide (total < (base+count) % 2^32) && bitFree m base &&
    (List.range (count-1)).all fun k => bitFree m ((base+(k+1)) % 2^32)

def contiguousFrom (s : Pmm) (count cur : ℕ) : Option ℕ :=
  let total := s.totalPages % 2^32
  findBit s.bitmap (contiguousFits s.bitmap total cur count) (total / 8-cur / 8) (cur / 8)

/-- Two rounds: from the saved index on, then from the start. -/
def pmmAllocContiguous (s : Pmm) (count : ℕ) : ℕ × Pmm :=
  if count = 0 then (0,s)
  else
    match (contiguousFrom s count s.lastIdx).or (contiguousFrom s count 0) with
    | some base =>
      (frameAddr base,{ s with
        bitmap := markRun s.bitmap base count
        lastIdx := (base+count) % 2^32 % (s.totalPages % 2^32) })
    | none => (0,s)

def pmmIdxInRange (idx maxAddr : ℕ) : Bool := decide (frameAddr idx+pmmPageSize ≤ maxAddr)

def lowFits (m : Bytes) (total count base : ℕ) : Bool :=
  !decide (total < (base+count) % 2^32) && bitFree m base && pmmIdxInRange base isaDmaLimit &&
    (List.range (count-1)).all fun k =>
      bitFree m ((base+(k+1)) % 2^32) && pmmIdxInRange ((base+(k+1)) % 2^32) isaDmaLimit

def pmmAllocLow (s : Pmm) (count : ℕ) : ℕ × Pmm :=
  if count = 0 then (0,s)
  else
    let total := s.totalPages % 2^32
    match findBit s.bitmap (lowFits s.bitmap total count) (total / 8) 0 with
    | some base => (frameAddr base,{ s with bitmap := markRun s.bitmap base count })
    | none => (0,s)

def pmmFree (s : Pmm) (addr : ℕ) : Pmm :=
  if addr < pmmBaseAddr then s
  else
    let idx := frameIndex addr % 2^32
    if s.totalPages ≤ idx then s else { s with bitmap := clearBit s.bitmap idx }

/-- What the initialisation leaves of the sizes. -/
structure Sized (s : Pmm) : Prop where
  min : pmmTotalPagesMin ≤ s.totalPages
  max : s.totalPages ≤ pmmMaxPages
  top : s.topAddr = frameAddr s.totalPages

lemma managedPages_limits (top : ℕ) :
    pmmTotalPagesMin ≤ managedPages top ∧ managedPages top ≤ pmmMaxPages := by
  have hmin : pmmTotalPagesMin = 32000 := rfl
  have hmax : pmmMaxPages = 0x100000 := rfl
  unfold managedPages
  dsimp only
  split_ifs <;> omega

variable {s t : Pmm} {bssEnd n base f : ℕ}

lemma pmmInitFromE820_sized {top : ℕ} (h : pmmInitFromE820 s bssEnd top = (0,t)) : Sized t := by
  unfold pmmInitFromE820 at h
  split at h
  · cases h
  · dsimp only at h
    split at h
    · cases h
    · cases h
      exact ⟨(managedPages_limits top).1,(managedPages_limits top).2,rfl⟩

lemma pmmInit_sized (s : Pmm) (bssEnd : ℕ) : Sized (pmmInit s bssEnd) := by
  rw [pmmInit]
  split
  · have hmax : pmmTotalPagesMin ≤ pmmMaxPages := Nat.le_of_ble_eq_true rfl
    exact ⟨le_rfl,hmax,rfl⟩
  · rename_i hrc
    exact pmmInitFromE820_sized (Prod.ext (not_not.mp hrc) rfl)

lemma reserved_low (h : bssEnd ≤ pmmBaseAddr) :
    reserved bssEnd pmmTotalPagesMin (pmmBaseAddr / pmmPageSize+n) = false := by
  have hbs : pmmBaseAddr = 0x300000 := rfl
  have hpage : pmmPageSize = 4096 := rfl
  have hbt : pmmBitmapAddr = 0x200000 := rfl
  have hby : pmmBitmapBytes pmmTotalPagesMin = 4000 := rfl
  simp only [reserved,decide_eq_false_iff_not,hbs,hpage,hbt,hby]
  omega

lemma markReserved_low (h : bssEnd ≤ pmmBaseAddr) (m : Bytes) (n : ℕ) :
    markReserved bssEnd pmmTotalPagesMin m n = m := by
  induction n with
  | zero => rfl
  | succ n ih =>
    rw [markReserved,ih,reserved_low h]
    rfl

lemma pmmInit_low (s : Pmm) (h : bssEnd ≤ pmmBaseAddr) :
    pmmInit s bssEnd = ⟨fun i => if i < 4000 then 0 else s.bitmap i,pmmTotalPagesMin,
      frameAddr pmmTotalPagesMin,s.lastIdx⟩ := by
  have htop : ¬ (pmmBaseAddr+pmmTotalPagesMin*pmmPageSize ≤ pmmBaseAddr) := by decide
  have hpg : managedPages (pmmBaseAddr+pmmTotalPagesMin*pmmPageSize) = pmmTotalPagesMin := by
    decide
  have hly : pmmCheckLayout pmmTotalPagesMin = 0 := by decide
  have hby : pmmBitmapBytes pmmTotalPagesMin = 4000 := rfl
  have hin : pmmInitFromE820 s bssEnd (pmmBaseAddr+pmmTotalPagesMin*pmmPageSize) =
      (0,⟨fun i => if i < 4000 then 0 else s.bitmap i,pmmTotalPagesMin,
        frameAddr pmmTotalPagesMin,s.lastIdx⟩) := by
    rw [pmmInitFromE820,if_neg htop]
    simp only [hpg,hly,ne_eq,not_true_eq_false,if_false,markReserved_low h,hby]
    rfl
  rw [pmmInit]
  simp [hin]

lemma Sized.small (h : Sized s) : s.totalPages ≤ 0x100000 := h.max

lemma Sized.total_mod (h : Sized s) : s.totalPages % 2^32 = s.totalPages := by
  have hmax := h.small
  omega

lemma bitFree_iff (m : Bytes) (idx : ℕ) : bitFree m idx = true ↔ get m idx = false := by
  have hpos : idx % 8 < 8 := Nat.mod_lt idx (by decide)
  have hidx : idx / 8*8+idx % 8 = idx := by omega
  have hts := and_twoPow_eq_zero m (idx / 8) hpos
  rw [hidx] at hts
  simpa [bitFree] using hts

lemma markRun_eq (m : Bytes) (h : base+n ≤ 2^32) : markRun m base n = setRun m base n := by
  induction n with
  | zero => rfl
  | succ n ih =>
    have hmod : (base+n) % 2^32 = base+n := Nat.mod_eq_of_lt (by omega)
    rw [markRun,setRun,ih (by omega),hmod]

/-- The run of `count` frames from `base` is inside the managed range and free. -/
structure FreeRun (s : Pmm) (base count : ℕ) : Prop where
  inside : base+count ≤ s.totalPages
  free : ∀ i, base ≤ i → i < base+count → get s.bitmap i = false

/-- The state after the run was taken. -/
structure Taken (s : Pmm) (base count : ℕ) (t : Pmm) : Prop where
  run : FreeRun s base count
  bits : ∀ i, get t.bitmap i = (decide (base ≤ i ∧ i < base+count) || get s.bitmap i)
  total : t.totalPages = s.totalPages
  top : t.topAddr = s.topAddr

lemma Taken.sized {count : ℕ} (h : Taken s base count t) (hs : Sized s) : Sized t :=
  ⟨h.total ▸ hs.min,h.total ▸ hs.max,by rw [h.top,h.total]; exact hs.top⟩

lemma pmmAlloc_spec (hs : Sized s) : (pmmAlloc s = (0,s)) ∨ ∃ base,
    (pmmAlloc s).1 = frameAddr base ∧ Taken s base 1 (pmmAlloc s).2 := by
  simp only [pmmAlloc,hs.total_mod]
  split
  · rename_i idx hfn
    obtain ⟨hacc,-,-⟩ := findBit_some hfn
    simp only [Bool.and_eq_true,decide_eq_true_eq,bitFree_iff] at hacc
    refine .inr ⟨idx,rfl,⟨hacc.1,fun i hi hi' => ?_⟩,fun i => ?_,rfl,rfl⟩
    · obtain rfl : i = idx := by omega
      exact hacc.2
    · rw [get_setBit]
      have hon : i = idx ↔ idx ≤ i ∧ i < idx+1 := by omega
      simp [hon]
  · exact .inl rfl

/-- No frame of the bytes that the single-frame search reads is free. -/
def Exhausted (s : Pmm) : Prop := ∀ i < s.totalPages / 8*8, get s.bitmap i = true

lemma pmmAlloc_eq_zero_iff (hs : Sized s) : (pmmAlloc s).1 = 0 ↔ Exhausted s := by
  simp only [pmmAlloc,hs.total_mod]
  split
  · rename_i idx hfn
    obtain ⟨hacc,-,hlt⟩ := findBit_some hfn
    simp only [Bool.and_eq_true,decide_eq_true_eq,bitFree_iff] at hacc
    refine ⟨fun hzr => (frameAddr_ne_zero idx hzr).elim,fun hfl => ?_⟩
    have htk := hfl idx (by omega)
    rw [hacc.2] at htk
    cases htk
  · rename_i hno
    refine ⟨fun _ i hi => ?_,fun _ => rfl⟩
    rcases findBit_none hno (Nat.zero_le _) (b:=i) (by omega) with hfl | hacc
    · exact get_of_full hfl
    · have hlt : i < s.totalPages := by omega
      rw [decide_eq_true hlt,Bool.true_and] at hacc
      by_contra hfr
      have hfr' := (bitFree_iff s.bitmap i).mpr (Bool.eq_false_iff.mpr hfr)
      rw [hacc] at hfr'
      cases hfr'

lemma run_iff {g : ℕ → Bool} {count : ℕ} (hbs : base < 2^32) (hpos : 1 ≤ count) :
    (g base = true ∧ (List.range (count-1)).all (fun k => g ((base+(k+1)) % 2^32)) = true) ↔
      ∀ k < count, g ((base+k) % 2^32) = true := by
  rw [List.all_eq_true]
  constructor
  · rintro ⟨hfr,hrs⟩ k hk
    cases k with
    | zero => rwa [Nat.add_zero,Nat.mod_eq_of_lt hbs]
    | succ k => exact hrs k (List.mem_range.mpr (by omega))
  · intro h
    refine ⟨?_,fun k hk => h (k+1) (by have hlt := List.mem_range.mp hk; omega)⟩
    have hfr := h 0 hpos
    rwa [Nat.add_zero,Nat.mod_eq_of_lt hbs] at hfr

lemma contiguousFits_iff {m : Bytes} {total cur count : ℕ} (hbs : base < 2^32) (hpos : 1 ≤ count) :
    contiguousFits m total cur count base = true ↔
    cur ≤ base ∧ (base+count) % 2^32 ≤ total ∧ ∀ k < count, get m ((base+k) % 2^32) = false := by
  simp only [← bitFree_iff]
  rw [← run_iff hbs hpos]
  simp [contiguousFits,and_assoc]

lemma lowFits_iff {m : Bytes} {total count : ℕ} (hbs : base < 2^32) (hpos : 1 ≤ count) :
    lowFits m total count base = true ↔ (base+count) % 2^32 ≤ total ∧ ∀ k < count,
    get m ((base+k) % 2^32) = false ∧ pmmIdxInRange ((base+k) % 2^32) isaDmaLimit = true := by
  simp only [← bitFree_iff,← Bool.and_eq_true]
  rw [← run_iff (g:=fun i => bitFree m i && pmmIdxInRange i isaDmaLimit) hbs hpos]
  simp [lowFits,and_assoc]

lemma run_free {m : Bytes} {count : ℕ} (hwr : base+count ≤ 2^32)
    (h : ∀ k < count, get m ((base+k) % 2^32) = false) :
    ∀ i, base ≤ i → i < base+count → get m i = false := by
  intro i hi hi'
  have hk := h (i-base) (by omega)
  rwa [Nat.add_sub_cancel' hi,Nat.mod_eq_of_lt (by omega)] at hk

lemma taken_markRun (hs : Sized s) {count : ℕ} (h : FreeRun s base count) (last : ℕ) :
    Taken s base count { s with bitmap := markRun s.bitmap base count, lastIdx := last } := by
  have hmax := hs.small
  have hin := h.inside
  refine ⟨h,fun i => ?_,rfl,rfl⟩
  rw [markRun_eq s.bitmap (by omega),get_setRun]

lemma contiguousFrom_some (hs : Sized s) {count cur : ℕ} (hcn : count ≠ 0)
    (hle : count ≤ s.totalPages) (h : contiguousFrom s count cur = some base) :
    FreeRun s base count := by
  have hmax := hs.small
  simp only [contiguousFrom,hs.total_mod] at h
  obtain ⟨hacc,hge,hlt⟩ := findBit_some h
  obtain ⟨-,hfit,hrun⟩ := (contiguousFits_iff (by omega) (by omega)).mp hacc
  rw [Nat.mod_eq_of_lt (by omega)] at hfit
  exact ⟨hfit,run_free (by omega) hrun⟩

lemma pmmAllocContiguous_spec (hs : Sized s) {count : ℕ} (hcn : count ≠ 0)
    (hle : count ≤ s.totalPages) :
    (pmmAllocContiguous s count = (0,s)) ∨ ∃ base, (pmmAllocContiguous s count).1 = frameAddr base ∧
      Taken s base count (pmmAllocContiguous s count).2 := by
  simp only [pmmAllocContiguous,if_neg hcn]
  split
  · rename_i base hfn
    have hrun : FreeRun s base count := by
      rcases Option.or_eq_some_iff.mp hfn with hfr | ⟨-,hsc⟩
      · exact contiguousFrom_some hs hcn hle hfr
      · exact contiguousFrom_some hs hcn hle hsc
    exact .inr ⟨base,rfl,taken_markRun hs hrun _⟩
  · exact .inl rfl

lemma pmmAllocLow_spec (hs : Sized s) {count : ℕ} (hcn : count ≠ 0)
    (hle : count ≤ s.totalPages) : (pmmAllocLow s count = (0,s)) ∨ ∃ base,
    (pmmAllocLow s count).1 = frameAddr base ∧ Taken s base count (pmmAllocLow s count).2 ∧
    frameAddr base+count*pmmPageSize ≤ isaDmaLimit := by
  have hmax := hs.small
  simp only [pmmAllocLow,if_neg hcn,hs.total_mod]
  split
  · rename_i base hfn
    obtain ⟨hacc,-,hlt⟩ := findBit_some hfn
    obtain ⟨hfit,hrun⟩ := (lowFits_iff (by omega) (by omega)).mp hacc
    rw [Nat.mod_eq_of_lt (by omega)] at hfit
    have hfr := run_free (by omega) fun k hk => (hrun k hk).1
    refine .inr ⟨base,rfl,taken_markRun hs ⟨hfit,hfr⟩ s.lastIdx,?_⟩
    obtain ⟨last,rfl⟩ := Nat.exists_eq_succ_of_ne_zero hcn
    have hls := of_decide_eq_true (hrun last (Nat.lt_succ_self last)).2
    rw [Nat.mod_eq_of_lt (by omega),frameAddr] at hls
    rw [frameAddr,Nat.succ_mul]
    linarith
  · exact .inl rfl

lemma pmmFree_frame (hs : Sized s) (hf : f < s.totalPages) :
    pmmFree s (frameAddr f) = { s with bitmap := clearBit s.bitmap f } := by
  have hmax := hs.small
  have hidx : frameIndex (frameAddr f) % 2^32 = f := by
    rw [frameIndex_frameAddr]
    omega
  have hbs : ¬ frameAddr f < pmmBaseAddr := by
    rw [frameAddr]
    omega
  rw [pmmFree,if_neg hbs]
  simp only [hidx]
  rw [if_neg (by omega)]

/-- The allocator together with the frames its callers hold. -/
structure Ledger where
  pmm : Pmm
  live : List ℕ

inductive Call
  | alloc
  | contiguous (count : ℕ)
  | low (count : ℕ)
  | free (addr : ℕ)

/-- The frames of an allocation that returned `addr`; none if it failed. -/
def framesOf (addr count : ℕ) : List ℕ :=
  if addr = 0 then []
  else (List.range count).map fun k => frameIndex addr+k

def Call.count : Call → ℕ
  | .alloc => 1
  | .contiguous count => count
  | .low count => count
  | .free _ => 0

def Call.pmm (s : Pmm) : Call → ℕ × Pmm
  | .alloc => pmmAlloc s
  | .contiguous count => pmmAllocContiguous s count
  | .low count => pmmAllocLow s count
  | .free addr => (0,pmmFree s addr)

def Call.run (s : Ledger) (c : Call) : ℕ × Ledger :=
  let r := c.pmm s.pmm
  (r.1,
    { pmm := r.2
      live :=
        match c with
        | .free addr => s.live.erase (frameIndex addr)
        | _ => s.live ++ framesOf r.1 c.count })

/-- States right after an initialisation, whatever was there before. -/
def Initialised (s : Ledger) : Prop :=
  s.live = [] ∧ ∃ s₀ bssEnd, s.pmm = pmmInit s₀ bssEnd ∨
    ∃ top, pmmInitFromE820 s₀ bssEnd top = (0,s.pmm)

/-- Callers ask for a possible number of frames and free frames they hold. -/
def Proper (s : Ledger) (a : Call × ℕ) : Prop :=
  match a.1 with
  | .alloc => True
  | .contiguous count => 1 ≤ count ∧ count ≤ pmmTotalPages s.pmm
  | .low count => 1 ≤ count ∧ count ≤ pmmTotalPages s.pmm
  | .free addr => ∃ f ∈ s.live, addr = frameAddr f

def pmmRuns : System Ledger (Call × ℕ) := (calls Initialised Call.run).guarded Proper

/-- A failed allocation changes no bit; a successful one takes a run of free frames
inside the managed range and changes no other bit. -/
def AllocLaw (s : Ledger) (a : Call × ℕ) (t : Ledger) : Prop :=
  (a.2 = 0 → t.pmm.bitmap = s.pmm.bitmap) ∧
  (a.2 ≠ 0 → ∃ base, a.2 = frameAddr base ∧ pmmBaseAddr ≤ a.2 ∧
    a.2+a.1.count*pmmPageSize ≤ pmmTopAddr s.pmm ∧
    (∀ i, base ≤ i → i < base+a.1.count →
      get s.pmm.bitmap i = false ∧ get t.pmm.bitmap i = true) ∧
    (∀ i, ¬ (base ≤ i ∧ i < base+a.1.count) → get t.pmm.bitmap i = get s.pmm.bitmap i) ∧
    ∀ count, a.1 = .low count → a.2+count*pmmPageSize ≤ isaDmaLimit)

/-- Every frame that is held is managed and marked, and none is held twice. -/
structure Owned (s : Ledger) : Prop where
  sized : Sized s.pmm
  nodup : s.live.Nodup
  marked : ∀ f ∈ s.live, f < s.pmm.totalPages ∧ get s.pmm.bitmap f = true

lemma Owned.initialised {s : Ledger} (h : Initialised s) : Owned s := by
  obtain ⟨hlv,s₀,bssEnd,hin⟩ := h
  have hsz : Sized s.pmm := by
    rcases hin with hin | ⟨top,hin⟩
    · rw [hin]
      exact pmmInit_sized s₀ bssEnd
    · exact pmmInitFromE820_sized hin
  exact ⟨hsz,by simp [hlv],by simp [hlv]⟩

variable {a : Call × ℕ}

lemma alloc_cases {s : Ledger} (hs : Sized s.pmm) (hp : Proper s a)
    (hfr : ∀ addr, a.1 ≠ .free addr) : a.1.pmm s.pmm = (0,s.pmm) ∨ ∃ base,
    (a.1.pmm s.pmm).1 = frameAddr base ∧ Taken s.pmm base a.1.count (a.1.pmm s.pmm).2 ∧ ∀ count,
    a.1 = .low count → frameAddr base+count*pmmPageSize ≤ isaDmaLimit := by
  rcases a with ⟨c,out⟩
  cases c with
  | alloc =>
    rcases pmmAlloc_spec hs with hno | ⟨base,had,htk⟩
    · exact .inl hno
    · exact .inr ⟨base,had,htk,by simp⟩
  | contiguous count =>
    rcases pmmAllocContiguous_spec hs (Nat.ne_of_gt hp.1) hp.2 with hno | ⟨base,had,htk⟩
    · exact .inl hno
    · exact .inr ⟨base,had,htk,by simp⟩
  | low count =>
    rcases pmmAllocLow_spec hs (Nat.ne_of_gt hp.1) hp.2 with hno | ⟨base,had,htk,hlow⟩
    · exact .inl hno
    · refine .inr ⟨base,had,htk,fun n hn => ?_⟩
      obtain rfl := Call.low.inj hn
      exact hlow
  | free addr => exact (hfr addr rfl).elim

lemma framesOf_frameAddr (base count : ℕ) :
    framesOf (frameAddr base) count = (List.range count).map fun k => base+k := by
  rw [framesOf,if_neg (frameAddr_ne_zero base),frameIndex_frameAddr]

lemma Owned.alloc {s : Ledger} (h : Owned s) {count : ℕ} (ht : Taken s.pmm base count t) :
    Owned ⟨t,s.live ++ (List.range count).map fun k => base+k⟩ := by
  refine ⟨ht.sized h.sized,?_,?_⟩
  · rw [List.nodup_append]
    refine ⟨h.nodup,List.nodup_range.map fun i j hij => Nat.add_left_cancel hij,?_⟩
    rintro f hf g hg rfl
    obtain ⟨k,hk,rfl⟩ := List.mem_map.mp hg
    have hlt := List.mem_range.mp hk
    have hus := (h.marked _ hf).2
    rw [ht.run.free _ (Nat.le_add_right base k) (by omega)] at hus
    cases hus
  · intro f hf
    rw [ht.bits,ht.total]
    rcases List.mem_append.mp hf with hf | hf
    · obtain ⟨hlt,hus⟩ := h.marked f hf
      exact ⟨hlt,by simp [hus]⟩
    · obtain ⟨k,hk,rfl⟩ := List.mem_map.mp hf
      have hlt := List.mem_range.mp hk
      have hin := ht.run.inside
      exact ⟨by omega,by simp [hlt]⟩

lemma Owned.free {s : Ledger} (h : Owned s) (hf : f ∈ s.live) :
    Owned ⟨pmmFree s.pmm (frameAddr f),s.live.erase f⟩ := by
  obtain ⟨hlt,-⟩ := h.marked f hf
  rw [pmmFree_frame h.sized hlt]
  refine ⟨⟨h.sized.min,h.sized.max,h.sized.top⟩,h.nodup.erase f,fun g hg => ?_⟩
  obtain ⟨hne,hg⟩ := (h.nodup.mem_erase_iff).mp hg
  obtain ⟨hlt',hus⟩ := h.marked g hg
  exact ⟨hlt',by simp [hne,hus]⟩

lemma run_alloc (s : Ledger) {c : Call} (hfr : ∀ addr, c ≠ .free addr) :
    c.run s = ((c.pmm s.pmm).1,⟨(c.pmm s.pmm).2,s.live ++ framesOf (c.pmm s.pmm).1 c.count⟩) := by
  cases c with
  | free addr => exact (hfr addr rfl).elim
  | _ => rfl

lemma Owned.step {s t : Ledger} (h : Owned s) (hst : pmmRuns.step s a t) : Owned t := by
  obtain ⟨hrun,hp⟩ := hst
  rcases a with ⟨c,out⟩
  by_cases hfr : ∃ addr, c = .free addr
  · obtain ⟨addr,rfl⟩ := hfr
    obtain ⟨f,hf,rfl⟩ := hp
    cases hrun
    dsimp only [Call.pmm]
    rw [frameIndex_frameAddr]
    exact h.free hf
  have hnot : ∀ addr, c ≠ .free addr := fun addr hc => hfr ⟨addr,hc⟩
  change c.run s = (out,t) at hrun
  rw [run_alloc s hnot] at hrun
  cases hrun
  rcases alloc_cases h.sized hp hnot with hno | ⟨base,had,htk,-⟩
  · rw [hno]
    simpa [framesOf] using h
  · rw [had,framesOf_frameAddr]
    exact h.alloc htk

lemma Owned.law {s t : Ledger} (h : Owned s) (hst : pmmRuns.step s a t)
    (hnot : ∀ addr, a.1 ≠ .free addr) : AllocLaw s a t := by
  obtain ⟨hrun,hp⟩ := hst
  rcases a with ⟨c,out⟩
  change c.run s = (out,t) at hrun
  dsimp only at hnot
  cases hrun
  rcases alloc_cases h.sized hp hnot with hno | ⟨base,had,htk,hlow⟩
  · rw [hno]
    exact ⟨fun _ => rfl,fun hne => (hne rfl).elim⟩
  dsimp only at had htk hlow
  rw [had]
  refine ⟨fun hzr => (frameAddr_ne_zero base hzr).elim,fun _ => ?_⟩
  refine ⟨base,rfl,Nat.le_add_right _ _,?_,fun i hi hi' => ?_,fun i hi => ?_,hlow⟩
  · have hin := htk.run.inside
    have hpage : pmmPageSize = 4096 := rfl
    rw [pmmTopAddr,h.sized.top]
    simp only [frameAddr,hpage]
    omega
  · refine ⟨htk.run.free i hi hi',?_⟩
    rw [htk.bits]
    simp [hi,hi']
  · dsimp only at hi ⊢
    rw [htk.bits,decide_eq_false hi,Bool.false_or]

/-- In every run each allocation obeys the law, and no frame is held twice. -/
theorem frames_owned_once (l : List (Call × ℕ)) (s : Ledger) (h : Trace pmmRuns l s) :
    s.live.Nodup ∧
    (∀ f ∈ s.live, f < pmmTotalPages s.pmm ∧ get s.pmm.bitmap f = true) ∧
    ∀ a t, pmmRuns.step s a t → (∀ addr, a.1 ≠ .free addr) → AllocLaw s a t := by
  have how : Owned s := h.invariant (fun _ => Owned) (fun _ hs => .initialised hs)
    fun _ _ _ _ hs hst => hs.step hst
  exact ⟨how.nodup,how.marked,fun a t hst hnot => how.law hst hnot⟩

lemma initialised_pmmInit (s₀ : Pmm) (bssEnd : ℕ) : Initialised ⟨pmmInit s₀ bssEnd,[]⟩ :=
  ⟨rfl,s₀,bssEnd,.inl rfl⟩

/-- Two allocations on a machine whose bitmap held ones before. -/
theorem frames_owned_once_two_calls :
    (runCalls Call.run ⟨pmmInit ⟨fun _ => 0xFF,0,0,0⟩ 0x100000,[]⟩
      [.alloc,.low 1]).2.live.Nodup := by
  have hany : ∀ p, Initialised ⟨p,[]⟩ →
      (runCalls Call.run ⟨p,[]⟩ [.alloc,.low 1]).2.live.Nodup := by
    intro p hin
    have hsp : pmmRuns.step ⟨p,[]⟩ (.alloc,(Call.run ⟨p,[]⟩ .alloc).1)
        (Call.run ⟨p,[]⟩ .alloc).2 := ⟨rfl,trivial⟩
    have hone : 1 ≤ pmmTotalPages (Call.run ⟨p,[]⟩ .alloc).2.pmm := by
      have hmin : 1 ≤ pmmTotalPagesMin := Nat.le_of_ble_eq_true rfl
      exact hmin.trans ((Owned.initialised hin).step hsp).sized.min
    have hst : Trace pmmRuns [] ⟨p,[]⟩ := .start hin
    have hrun := trace_runCalls hst [.alloc,.low 1] ⟨trivial,⟨le_rfl,hone⟩,trivial⟩
    exact (frames_owned_once _ _ hrun).1
  exact hany _ (initialised_pmmInit _ _)

end HarlinKernel.PageAllocator
