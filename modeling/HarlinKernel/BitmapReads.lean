import HarlinKernel.PageAllocator

/-! The bits of the bitmap that the searches of `mem/pmm.c` look at and set, for any number of
frames asked for, and the bit that `pmm_free` clears, for any address. -/
namespace HarlinKernel.PageAllocator

open Bitmap
open List (not_mem_nil mem_append mem_map mem_range)

section Reads

variable {m : Bytes} {accept go : ℕ → Bool} {reads : ℕ → List ℕ} {base i k n x : ℕ}

/-- The bits that the loop over a run looks at from number `k` on, until one does not pass. -/
def runReads (go : ℕ → Bool) (base k : ℕ) : ℕ → List ℕ
  | 0 => []
  | n+1 => (base+k) % 2^32 :: if go ((base+k) % 2^32) then runReads go base (k+1) n else []

/-- The bits looked at for the candidates of a byte, until one is accepted. -/
def byteReads (accept : ℕ → Bool) (reads : ℕ → List ℕ) (base : ℕ) : ℕ → List ℕ
  | 0 => []
  | n+1 => reads base ++ if accept base then [] else byteReads accept reads (base+1) n

/-- The bits looked at by a search over `n` bytes from byte `i` on. -/
def searchReads (m : Bytes) (accept : ℕ → Bool) (reads : ℕ → List ℕ) : ℕ → ℕ → List ℕ
  | 0, _ => []
  | n+1, i =>
    (List.range 8).map (i*8+·) ++
      if m i = 0xFF then searchReads m accept reads n (i+1)
      else
        byteReads accept reads (i*8) 8 ++
          if (List.range 8).any fun j => accept (i*8+j) then []
          else searchReads m accept reads n (i+1)

lemma mem_runReads : x ∈ runReads go base k n ↔ ∃ j, k ≤ j ∧ j < k+n ∧ x = (base+j) % 2^32 ∧
    ∀ j', k ≤ j' → j' < j → go ((base+j') % 2^32) = true := by
  induction n generalizing k with
  | zero =>
    simp only [runReads,not_mem_nil,false_iff]
    omega
  | succ n ih =>
    rw [runReads,List.mem_cons]
    constructor
    · rintro (rfl | hx)
      · exact ⟨k,le_rfl,by omega,rfl,by omega⟩
      · split_ifs at hx with hgo
        · obtain ⟨j,hlo,hhi,rfl,hall⟩ := ih.mp hx
          refine ⟨j,by omega,by omega,rfl,fun j' hlo' hj' => ?_⟩
          by_cases hj : j' = k
          · exact hj ▸ hgo
          · exact hall j' (by omega) hj'
        · cases hx
    · rintro ⟨j,hlo,hhi,rfl,hall⟩
      by_cases hj : j = k
      · exact .inl (hj ▸ rfl)
      · rw [if_pos (hall k le_rfl (by omega))]
        exact .inr (ih.mpr ⟨j,by omega,by omega,rfl,fun j' hlo' => hall j' (by omega)⟩)

lemma mem_candidateReads (hbs : base < 2^32) (hpos : 1 ≤ n) :
    x ∈ (base :: if go base then runReads go base 1 (n-1) else []) ↔
      ∃ j < n, x = (base+j) % 2^32 ∧ ∀ j' < j, go ((base+j') % 2^32) = true := by
  have hrun : (base :: if go base then runReads go base 1 (n-1) else []) =
      runReads go base 0 n := by
    obtain ⟨n,rfl⟩ := Nat.exists_eq_add_of_le' hpos
    rw [runReads,Nat.add_sub_cancel,show (base+0) % 2^32 = base from Nat.mod_eq_of_lt hbs]
  rw [hrun,mem_runReads]
  simp

lemma mem_byteReads (h : x ∈ byteReads accept reads base n) :
    ∃ b, base ≤ b ∧ b < base+n ∧ x ∈ reads b := by
  induction n generalizing base with
  | zero => cases h
  | succ n ih =>
    rw [byteReads,mem_append] at h
    rcases h with h | h
    · exact ⟨base,le_rfl,by omega,h⟩
    · split_ifs at h
      · cases h
      · obtain ⟨b,hle,hlt,hx⟩ := ih h
        exact ⟨b,by omega,by omega,hx⟩

lemma byteReads_visits {b : ℕ} (hle : base ≤ b) (hlt : b < base+n)
    (hno : ∀ c, base ≤ c → c < b → accept c = false) (hx : x ∈ reads b) :
    x ∈ byteReads accept reads base n := by
  induction n generalizing base with
  | zero => omega
  | succ n ih =>
    rw [byteReads,mem_append]
    by_cases hb : base = b
    · exact .inl (hb ▸ hx)
    · rw [if_neg (by rw [hno base le_rfl (by omega)]; decide)]
      exact .inr (ih (by omega) (by omega) fun c hc => hno c (by omega))

lemma mem_searchReads (h : x ∈ searchReads m accept reads n i) :
    i*8 ≤ x ∧ x < (i+n)*8 ∨ ∃ b, i*8 ≤ b ∧ b < (i+n)*8 ∧ x ∈ reads b := by
  induction n generalizing i with
  | zero => cases h
  | succ n ih =>
    have hla : x ∈ searchReads m accept reads n (i+1) →
        i*8 ≤ x ∧ x < (i+(n+1))*8 ∨ ∃ b, i*8 ≤ b ∧ b < (i+(n+1))*8 ∧ x ∈ reads b := by
      intro hx
      rcases ih hx with hx | ⟨b,hle,hlt,hx⟩
      · exact .inl (by omega)
      · exact .inr ⟨b,by omega,by omega,hx⟩
    rw [searchReads,mem_append] at h
    rcases h with h | h
    · obtain ⟨j,hj,rfl⟩ := mem_map.mp h
      have hj8 := mem_range.mp hj
      exact .inl ⟨by omega,by omega⟩
    split_ifs at h
    · exact hla h
    · rcases mem_append.mp h with h | h
      · obtain ⟨b,hle,hlt,hx⟩ := mem_byteReads h
        exact .inr ⟨b,hle,by omega,hx⟩
      · cases h
    · rcases mem_append.mp h with h | h
      · obtain ⟨b,hle,hlt,hx⟩ := mem_byteReads h
        exact .inr ⟨b,hle,by omega,hx⟩
      · exact hla h

/-- A search looks at every candidate that is not in a byte of ones if it accepts none before. -/
theorem searchReads_visits {b : ℕ} (hle : i*8 ≤ b) (hlt : b < (i+n)*8) (hfl : m (b / 8) ≠ 0xFF)
    (hbf : ∀ c, i*8 ≤ c → c < b → m (c / 8) = 0xFF ∨ accept c = false) (hx : x ∈ reads b) :
    x ∈ searchReads m accept reads n i := by
  induction n generalizing i with
  | zero => omega
  | succ n ih =>
    have hby (hon : m i ≠ 0xFF) (c : ℕ) (hlo : i*8 ≤ c) (hc : c < i*8+8) (hcb : c < b) :
        accept c = false :=
      (hbf c hlo hcb).resolve_left (by rwa [show c / 8 = i by omega])
    rw [searchReads,mem_append]
    right
    by_cases hb : b < i*8+8
    · have hon : m i ≠ 0xFF := by rwa [show b / 8 = i by omega] at hfl
      rw [if_neg hon,mem_append]
      exact .inl (byteReads_visits hle hb (fun c hc hcb => hby hon c hc (by omega) hcb) hx)
    have hrs := ih (i:=i+1) (by omega) (by omega) fun c hc => hbf c (by omega)
    split_ifs with hon hany
    · exact hrs
    · obtain ⟨j,hj,hacc⟩ := List.any_eq_true.mp hany
      have hj8 := mem_range.mp hj
      rw [hby hon (i*8+j) (by omega) (by omega) (by omega)] at hacc
      cases hacc
    · exact List.mem_append_right _ hrs

end Reads

section Contiguous

variable {s : Pmm} {count cur base x : ℕ}

/-- The bits that `pmm_alloc_contiguous` looks at for one candidate. -/
def contiguousReads (m : Bytes) (total cur count base : ℕ) : List ℕ :=
  if base < cur then []
  else if total < (base+count) % 2^32 then []
  else base :: if bitFree m base then runReads (bitFree m) base 1 (count-1) else []

def contiguousFromReads (s : Pmm) (count cur : ℕ) : List ℕ :=
  let total := s.totalPages % 2^32
  searchReads s.bitmap (contiguousFits s.bitmap total cur count)
    (contiguousReads s.bitmap total cur count) (total / 8-cur / 8) (cur / 8)

/-- The bits that `pmm_alloc_contiguous` looks at. -/
def pmmAllocContiguousReads (s : Pmm) (count : ℕ) : List ℕ :=
  if count = 0 then []
  else
    contiguousFromReads s count s.lastIdx ++
      if (contiguousFrom s count s.lastIdx).isSome then [] else contiguousFromReads s count 0

/-- The bits that a marking loop sets. -/
def runWrites (base count : ℕ) : List ℕ := (List.range count).map fun k => (base+k) % 2^32

/-- The bits that `pmm_alloc_contiguous` sets. -/
def pmmAllocContiguousWrites (s : Pmm) (count : ℕ) : List ℕ :=
  if count = 0 then []
  else
    match (contiguousFrom s count s.lastIdx).or (contiguousFrom s count 0) with
    | some base => runWrites base count
    | none => []

/-- A search for frames stays inside the managed range and fails if there are too few. -/
structure SearchSafe (s : Pmm) (count : ℕ) (reads writes : List ℕ) (result : ℕ) : Prop where
  reads : ∀ i ∈ reads, i < s.totalPages
  writes : ∀ i ∈ writes, i < s.totalPages
  fails : s.totalPages < count → result = 0

/-- The sum of the last candidate and the count wraps around at 32 bits, and no used frame stops
the loop before the end of the range. -/
def RunsPastEnd (s : Pmm) (count : ℕ) : Prop :=
  2^32 ≤ s.totalPages / 8*8-1+count ∧
    ∀ i, s.totalPages / 8*8-1 ≤ i → i < s.totalPages → get s.bitmap i = false

lemma mem_contiguousReads {m : Bytes} {total : ℕ} (hbs : base < 2^32) (hpos : 1 ≤ count) :
    x ∈ contiguousReads m total cur count base ↔ cur ≤ base ∧ (base+count) % 2^32 ≤ total ∧
    ∃ j < count, x = (base+j) % 2^32 ∧ ∀ j' < j, get m ((base+j') % 2^32) = false := by
  simp only [← bitFree_iff]
  rw [contiguousReads,← mem_candidateReads hbs hpos]
  split
  · simp only [not_mem_nil,false_iff]
    omega
  · split
    · simp only [not_mem_nil,false_iff]
      omega
    · exact ⟨fun h => ⟨by omega,by omega,h⟩,fun h => h.2.2⟩

lemma contiguousReads_lt (hs : Sized s) (hpos : 1 ≤ count) (hsf : ¬ RunsPastEnd s count)
    (hbs : base < s.totalPages / 8*8)
    (hx : x ∈ contiguousReads s.bitmap s.totalPages cur count base) : x < s.totalPages := by
  have hmax := hs.small
  obtain ⟨-,hfit,j,hj,rfl,hall⟩ := (mem_contiguousReads (by omega) hpos).mp hx
  have hin : base+j < s.totalPages := by
    by_contra hout
    refine hsf ⟨by omega,fun i hlo hhi => ?_⟩
    have hbit := hall (i-base) (by omega)
    rwa [Nat.add_sub_cancel' (by omega),Nat.mod_eq_of_lt (by omega)] at hbit
  rwa [Nat.mod_eq_of_lt (by omega)]

lemma contiguousFromReads_lt (hs : Sized s) (hpos : 1 ≤ count) (hsf : ¬ RunsPastEnd s count)
    (hx : x ∈ contiguousFromReads s count cur) : x < s.totalPages := by
  rw [contiguousFromReads,hs.total_mod] at hx
  rcases mem_searchReads hx with hby | ⟨b,hle,hlt,hx⟩
  · omega
  · exact contiguousReads_lt hs hpos hsf (by omega) hx

/-- A candidate whose sum wraps around and that is followed by free frames only is looked at up
to the first frame behind the range. -/
theorem contiguousReads_end (hs : Sized s) (hcn : count < 2^32) (hcur : cur ≤ base)
    (hlt : base < s.totalPages) (hwr : 2^32 ≤ base+count)
    (hfr : ∀ i, base ≤ i → i < s.totalPages → get s.bitmap i = false) :
    s.totalPages ∈ contiguousReads s.bitmap s.totalPages cur count base := by
  have hmax := hs.small
  refine (mem_contiguousReads (by omega) (by omega)).mpr
    ⟨hcur,by omega,s.totalPages-base,by omega,by omega,fun j' hj' => ?_⟩
  exact hfr _ (by omega) (by omega)

lemma contiguousFits_end (hs : Sized s) (hcn : count < 2^32) (hlt : base < s.totalPages)
    (hacc : contiguousFits s.bitmap s.totalPages cur count base = true)
    (hout : s.totalPages < base+count) :
    s.totalPages ∈ contiguousReads s.bitmap s.totalPages cur count base := by
  have hmax := hs.small
  obtain ⟨hcur,hfit,hrun⟩ := (contiguousFits_iff (by omega) (by omega)).mp hacc
  refine contiguousReads_end hs hcn hcur hlt (by omega) fun i hlo hhi => ?_
  have hbit := hrun (i-base) (by omega)
  rwa [Nat.add_sub_cancel' hlo,Nat.mod_eq_of_lt (by omega)] at hbit

lemma contiguousFrom_inside (hs : Sized s) (hcn : count < 2^32) (hpos : 1 ≤ count)
    (hsf : ¬ RunsPastEnd s count) (h : contiguousFrom s count cur = some base) :
    base+count ≤ s.totalPages := by
  simp only [contiguousFrom,hs.total_mod] at h
  obtain ⟨hacc,hge,hlt⟩ := findBit_some h
  by_contra hout
  have hend := contiguousFits_end hs hcn (by omega) hacc (by omega)
  exact absurd (contiguousReads_lt hs hpos hsf (by omega) hend) (lt_irrefl _)

lemma runWrites_lt (h : base+count ≤ s.totalPages) :
    ∀ i ∈ runWrites base count, i < s.totalPages := by
  intro i hi
  obtain ⟨k,hk,rfl⟩ := mem_map.mp hi
  have hlt := mem_range.mp hk
  omega

lemma contiguous_safe (hs : Sized s) (hcn : count < 2^32) (hsf : ¬ RunsPastEnd s count) :
    SearchSafe s count (pmmAllocContiguousReads s count) (pmmAllocContiguousWrites s count)
      (pmmAllocContiguous s count).1 := by
  by_cases hzr : count = 0
  · simp only [pmmAllocContiguousReads,pmmAllocContiguousWrites,pmmAllocContiguous,hzr,if_true]
    exact ⟨by simp,by simp,fun _ => rfl⟩
  simp only [pmmAllocContiguousReads,pmmAllocContiguousWrites,pmmAllocContiguous,if_neg hzr]
  have hpos : 1 ≤ count := by omega
  have hrd : ∀ i ∈ contiguousFromReads s count s.lastIdx ++
      (if (contiguousFrom s count s.lastIdx).isSome then [] else contiguousFromReads s count 0),
      i < s.totalPages := by
    intro i hi
    rcases mem_append.mp hi with hi | hi
    · exact contiguousFromReads_lt hs hpos hsf hi
    · split_ifs at hi
      · cases hi
      · exact contiguousFromReads_lt hs hpos hsf hi
  cases hfn : (contiguousFrom s count s.lastIdx).or (contiguousFrom s count 0) with
  | none => exact ⟨hrd,by simp,fun _ => rfl⟩
  | some base =>
    have hin : base+count ≤ s.totalPages := by
      rcases Option.or_eq_some_iff.mp hfn with h | ⟨-,h⟩
      all_goals exact contiguousFrom_inside hs hcn hpos hsf h
    exact ⟨hrd,runWrites_lt hin,fun hlr => by omega⟩

lemma contiguous_not_safe (hs : Sized s) (hcn : count < 2^32) (h : RunsPastEnd s count) :
    s.totalPages ∈ pmmAllocContiguousReads s count := by
  obtain ⟨hwr,hfe⟩ := h
  have hmax := hs.small
  have hpos : 1 ≤ count := by omega
  have hop {b : ℕ} (hb : get s.bitmap b = false) : s.bitmap (b / 8) ≠ 0xFF := by
    intro hfl
    rw [get_of_full hfl] at hb
    cases hb
  have hac : ∀ base cur, contiguousFrom s count cur = some base →
      s.totalPages ∈ contiguousFromReads s count cur := by
    intro base cur hfn
    simp only [contiguousFrom,hs.total_mod] at hfn
    obtain ⟨hacc,hge,hlt⟩ := findBit_some hfn
    have hfr := ((contiguousFits_iff (by omega) hpos).mp hacc).2.2 0 hpos
    rw [Nat.add_zero,Nat.mod_eq_of_lt (by omega)] at hfr
    rw [contiguousFromReads,hs.total_mod]
    exact searchReads_visits hge hlt (hop hfr)
      (fun c hc hcb => findBit_before hc (by rwa [hfn]))
      (contiguousFits_end hs hcn (by omega) hacc (by omega))
  rw [pmmAllocContiguousReads,if_neg (by omega),mem_append]
  cases hfr : contiguousFrom s count s.lastIdx with
  | some base => exact .inl (hac base _ hfr)
  | none =>
    right
    cases hsc : contiguousFrom s count 0 with
    | some base => exact hac base _ hsc
    | none =>
      simp only [contiguousFrom,hs.total_mod] at hsc
      rw [contiguousFromReads,hs.total_mod]
      exact searchReads_visits (b := s.totalPages / 8*8-1) (by omega) (by omega)
        (hop (hfe _ le_rfl (by omega)))
        (fun c hc hcb => findBit_none hsc hc (by omega))
        (contiguousReads_end hs hcn (Nat.zero_le _) (by omega) hwr hfe)

end Contiguous

section Low

variable {s : Pmm} {count base x : ℕ}

/-- The test of `pmm_alloc_low` for one frame of a run. -/
def lowPasses (m : Bytes) (idx : ℕ) : Bool := bitFree m idx && pmmIdxInRange idx isaDmaLimit

/-- The bits that `pmm_alloc_low` looks at for one candidate. -/
def lowReads (m : Bytes) (total count base : ℕ) : List ℕ :=
  if total < (base+count) % 2^32 then []
  else base :: if lowPasses m base then runReads (lowPasses m) base 1 (count-1) else []

/-- The bits that `pmm_alloc_low` looks at. -/
def pmmAllocLowReads (s : Pmm) (count : ℕ) : List ℕ :=
  if count = 0 then []
  else
    let total := s.totalPages % 2^32
    searchReads s.bitmap (lowFits s.bitmap total count) (lowReads s.bitmap total count) (total / 8)
      0

/-- The bits that `pmm_alloc_low` sets. -/
def pmmAllocLowWrites (s : Pmm) (count : ℕ) : List ℕ :=
  if count = 0 then []
  else
    let total := s.totalPages % 2^32
    match findBit s.bitmap (lowFits s.bitmap total count) (total / 8) 0 with
    | some base => runWrites base count
    | none => []

lemma low_run_inside (hs : Sized s) {n : ℕ}
    (h : ∀ k < n, pmmIdxInRange ((base+k) % 2^32) isaDmaLimit = true) (hbs : base < s.totalPages) :
    base+n < s.totalPages := by
  have hmin := hs.min
  have hmax := hs.small
  have hlow : pmmTotalPagesMin = 32000 := rfl
  by_contra hout
  have hls := h (s.totalPages-1-base) (by omega)
  have hlm : isaDmaLimit = 0x1000000 := rfl
  have hst : pmmBaseAddr = 0x300000 := rfl
  have hpage : pmmPageSize = 4096 := rfl
  simp only [pmmIdxInRange,decide_eq_true_eq,frameAddr,hlm,hst,hpage] at hls
  omega

lemma lowReads_lt (hs : Sized s) (hpos : 1 ≤ count) (hbs : base < s.totalPages)
    (hx : x ∈ lowReads s.bitmap s.totalPages count base) : x < s.totalPages := by
  have hmax := hs.small
  rw [lowReads] at hx
  split at hx
  · cases hx
  · obtain ⟨j,-,rfl,hall⟩ := (mem_candidateReads (by omega) hpos).mp hx
    have hin := low_run_inside hs (fun k hk => (Bool.and_eq_true_iff.mp (hall k hk)).2) hbs
    rwa [Nat.mod_eq_of_lt (by omega)]

lemma lowFits_inside (hs : Sized s) (hpos : 1 ≤ count)
    (h : findBit s.bitmap (lowFits s.bitmap s.totalPages count) (s.totalPages / 8) 0 = some base) :
    base+count ≤ s.totalPages := by
  obtain ⟨hacc,-,hlt⟩ := findBit_some h
  have hmax := hs.small
  have hrun := ((lowFits_iff (by omega) hpos).mp hacc).2
  exact (low_run_inside hs (fun k hk => (hrun k hk).2) (by omega)).le

lemma low_safe (hs : Sized s) (count : ℕ) : SearchSafe s count (pmmAllocLowReads s count)
    (pmmAllocLowWrites s count) (pmmAllocLow s count).1 := by
  by_cases hzr : count = 0
  · simp only [pmmAllocLowReads,pmmAllocLowWrites,pmmAllocLow,hzr,if_true]
    exact ⟨by simp,by simp,fun _ => rfl⟩
  simp only [pmmAllocLowReads,pmmAllocLowWrites,pmmAllocLow,if_neg hzr,hs.total_mod]
  have hpos : 1 ≤ count := by omega
  have hrd : ∀ i ∈ searchReads s.bitmap (lowFits s.bitmap s.totalPages count)
      (lowReads s.bitmap s.totalPages count) (s.totalPages / 8) 0, i < s.totalPages := by
    intro i hi
    rcases mem_searchReads hi with hby | ⟨b,-,hb,hx⟩
    · omega
    · exact lowReads_lt hs hpos (by omega) hx
  cases hfn : findBit s.bitmap (lowFits s.bitmap s.totalPages count) (s.totalPages / 8) 0 with
  | none => exact ⟨hrd,by simp,fun _ => rfl⟩
  | some base =>
    have hin := lowFits_inside hs hpos hfn
    exact ⟨hrd,runWrites_lt hin,fun hlr => by omega⟩

end Low

section Free

variable {s : Pmm} {addr : ℕ}

/-- `pmm_free` changes at most the bit of the managed frame of the address, and nothing for an
address outside the managed range. -/
def FreeSafe (s : Pmm) (addr : ℕ) : Prop :=
  (∀ i, get (pmmFree s addr).bitmap i ≠ get s.bitmap i →
    i < s.totalPages ∧ frameAddr i ≤ addr ∧ addr < frameAddr i+pmmPageSize) ∧
  (addr < pmmBaseAddr ∨ pmmTopAddr s ≤ addr → ∀ i, get (pmmFree s addr).bitmap i = get s.bitmap i)

/-- The number of the frame fits into 32 bits, or the frame with the number that is left is not
managed or is free. -/
def FreesOwnFrame (s : Pmm) (addr : ℕ) : Prop :=
  addr < pmmBaseAddr+2^44 ∨ s.totalPages ≤ frameIndex addr % 2^32 ∨
    get s.bitmap (frameIndex addr % 2^32) = false

lemma get_pmmFree (s : Pmm) (addr i : ℕ) :
    get (pmmFree s addr).bitmap i =
      if pmmBaseAddr ≤ addr ∧ frameIndex addr % 2^32 < s.totalPages ∧ i = frameIndex addr % 2^32
      then false else get s.bitmap i := by
  rw [pmmFree]
  dsimp only
  split_ifs with hlow hout hbit hbit hbit
  · omega
  · rfl
  · omega
  · rfl
  · simp [hbit.2.2]
  · have hne : i ≠ frameIndex addr % 2^32 := fun heq => hbit ⟨by omega,by omega,heq⟩
    rw [get_clearBit,decide_eq_true hne,Bool.true_and]

lemma free_safe_iff (hs : Sized s) : FreeSafe s addr ↔ FreesOwnFrame s addr := by
  have hbs : pmmBaseAddr = 0x300000 := rfl
  have hpage : pmmPageSize = 4096 := rfl
  have hmax := hs.small
  have htop : pmmTopAddr s = frameAddr s.totalPages := hs.top
  simp only [FreeSafe,FreesOwnFrame,htop,get_pmmFree,frameAddr,frameIndex,hbs,hpage]
  constructor
  · rintro ⟨-,hot⟩
    by_contra hnot
    rw [not_or,not_or] at hnot
    obtain ⟨hfar,hmn,hus⟩ := hnot
    have hsm := hot (.inr (by omega)) ((addr-0x300000) / 4096 % 2^32)
    rw [if_pos ⟨by omega,by omega,rfl⟩] at hsm
    exact hus hsm.symm
  · intro h
    have hown : ∀ i, (if 0x300000 ≤ addr ∧ (addr-0x300000) / 4096 % 2^32 < s.totalPages ∧
        i = (addr-0x300000) / 4096 % 2^32 then false else get s.bitmap i) ≠ get s.bitmap i →
        0x300000 ≤ addr ∧ i < s.totalPages ∧ i = (addr-0x300000) / 4096 := by
      intro i hi
      split_ifs at hi with hhit
      · obtain ⟨hlow,hmn,rfl⟩ := hhit
        rcases h with hnr | hout | hfr
        · exact ⟨hlow,hmn,by omega⟩
        · omega
        · exact (hi hfr.symm).elim
      · exact (hi rfl).elim
    refine ⟨fun i hi => ?_,fun hout i => ?_⟩
    · obtain ⟨hlow,hlt,rfl⟩ := hown i hi
      omega
    · by_contra hi
      obtain ⟨hlow,hlt,rfl⟩ := hown i hi
      omega

end Free

/-- The allocator stays inside its range for an argument if and only if the 32-bit sum of
`pmm_alloc_contiguous` and the 32-bit frame number of `pmm_free` are harmless for it. -/
theorem allocator_safe_iff (s : Pmm) (hs : Sized s) (count addr : ℕ) (hcount : count < 2^32) :
    SearchSafe s count (pmmAllocContiguousReads s count) (pmmAllocContiguousWrites s count)
        (pmmAllocContiguous s count).1 ∧
      SearchSafe s count (pmmAllocLowReads s count) (pmmAllocLowWrites s count)
        (pmmAllocLow s count).1 ∧ FreeSafe s addr ↔
    ¬ RunsPastEnd s count ∧ FreesOwnFrame s addr := by
  constructor
  · rintro ⟨hcn,-,hfr⟩
    refine ⟨fun hps => ?_,(free_safe_iff hs).mp hfr⟩
    exact absurd (hcn.reads _ (contiguous_not_safe hs hcount hps)) (lt_irrefl _)
  · rintro ⟨hsf,hown⟩
    exact ⟨contiguous_safe hs hcount hsf,low_safe hs count,(free_safe_iff hs).mpr hown⟩

/-- The smallest managed range with its first frame allocated. -/
def firstTaken : Pmm :=
  ⟨fun i => if i = 0 then 1 else 0,pmmTotalPagesMin,frameAddr pmmTotalPagesMin,0⟩

lemma firstTaken_sized : Sized firstTaken := ⟨le_rfl,by decide,rfl⟩

lemma get_firstTaken {i : ℕ} (h : 8 ≤ i) : get firstTaken.bitmap i = false := by
  have hby : firstTaken.bitmap (i / 8) = 0#8 := if_neg (by omega)
  rw [Bitmap.get,hby,BitVec.getLsbD_zero]

/-- One frame is allocated, and an address in the frame after it is given back. -/
theorem allocator_safe_firstTaken :
    SearchSafe firstTaken 1 (pmmAllocContiguousReads firstTaken 1)
        (pmmAllocContiguousWrites firstTaken 1) (pmmAllocContiguous firstTaken 1).1 ∧
      SearchSafe firstTaken 1 (pmmAllocLowReads firstTaken 1) (pmmAllocLowWrites firstTaken 1)
        (pmmAllocLow firstTaken 1).1 ∧ FreeSafe firstTaken (frameAddr 1) :=
  (allocator_safe_iff firstTaken firstTaken_sized 1 (frameAddr 1) (by decide)).mpr
    ⟨fun hps => absurd hps.1 (by decide),.inl (by decide)⟩

/-- With a count just below `2^32` the loop reads the bit behind the range, and an address
`2^44` above the base gives back the first frame. -/
theorem allocator_not_safe :
    firstTaken.totalPages ∈ pmmAllocContiguousReads firstTaken (2^32-1) ∧
      pmmTopAddr firstTaken ≤ pmmBaseAddr+2^44 ∧ get firstTaken.bitmap 0 = true ∧
      get (pmmFree firstTaken (pmmBaseAddr+2^44)).bitmap 0 = false := by
  refine ⟨contiguous_not_safe firstTaken_sized (by decide) ⟨by decide,fun i hlo _ => ?_⟩,by decide,
    by decide,by decide⟩
  have hst : firstTaken.totalPages / 8*8-1 = 31999 := by decide
  exact get_firstTaken (by omega)

end HarlinKernel.PageAllocator
