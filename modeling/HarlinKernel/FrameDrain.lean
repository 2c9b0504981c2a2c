import HarlinKernel.FrameSupply

/-! The frames that `pmm_alloc` hands out after `pmm_init_from_e820`, call after call until
none is left, compared with the frames that the memory map has. -/
namespace HarlinKernel.FrameDrain

open PageAllocator Bitmap PageTable AddressSpace Kmalloc FrameSupply

variable {p s₀ : Pmm} {bssEnd top n i : ℕ}

/-- What the first `n` calls of `pmm_alloc` return, without the failures. -/
def handedOut (p : Pmm) (n : ℕ) : List ℕ :=
  ((List.range n).map fun k => (pmmAlloc (after k p)).1).filter (· ≠ 0)

/-- A whole frame of the managed range below the top of memory that starts at or above the end
of the kernel. -/
def Usable (bssEnd top addr : ℕ) : Prop :=
  ∃ i, addr = frameAddr i ∧
    frameAddr i+pmmPageSize ≤ min top (pmmBaseAddr+pmmMaxPages*pmmPageSize) ∧ bssEnd ≤ frameAddr i

/-- Repeated calls return each usable frame once and nothing else. -/
def HandsOutExactly (p : Pmm) (bssEnd top : ℕ) : Prop :=
  (∀ n, (handedOut p n).Nodup ∧ ∀ addr ∈ handedOut p n, Usable bssEnd top addr) ∧
    ∃ n, ∀ addr, Usable bssEnd top addr → addr ∈ handedOut p n

/-- The number of whole frames below the top, up to the largest number that is managed. -/
def wholeFrames (top : ℕ) : ℕ := min ((top-pmmBaseAddr) / pmmPageSize) pmmMaxPages

/-- There are at least as many frames as are managed in any case, and their bits fill bytes; or
the kernel reaches into the last managed frame. -/
def FillsBytes (bssEnd top : ℕ) : Prop :=
  pmmTotalPagesMin ≤ wholeFrames top ∧ wholeFrames top % 8 = 0 ∨
    frameAddr (max (wholeFrames top) pmmTotalPagesMin-1) < bssEnd

instance (bssEnd top : ℕ) : Decidable (FillsBytes bssEnd top) :=
  inferInstanceAs (Decidable (_ ∨ _))

lemma handedOut_succ (p : Pmm) (n : ℕ) :
    handedOut p (n+1) = handedOut p n ++ [(pmmAlloc (after n p)).1].filter (· ≠ 0) := by
  rw [handedOut,List.range_succ,List.map_append,List.filter_append]
  rfl

lemma pmmAlloc_found (hs : Sized p) (h : (pmmAlloc p).1 ≠ 0) :
    ∃ i < p.totalPages / 8*8, (pmmAlloc p).1 = frameAddr i ∧ Taken p i 1 (pmmAlloc p).2 := by
  rcases pmmAlloc_spec hs with hfl | ⟨i,hi,htk⟩
  · rw [hfl] at h
    exact (h rfl).elim
  refine ⟨i,?_,hi,htk⟩
  simp only [pmmAlloc,hs.total_mod] at hi h
  split at hi
  · rename_i idx hfn
    have hidx : idx = i := by simpa only [frameIndex_frameAddr] using congrArg frameIndex hi
    have hlt := (findBit_some hfn).2.2
    omega
  · rename_i hno
    rw [hno] at h
    exact (h rfl).elim

/-- What the first calls have done to the bitmap. -/
structure Drained (p : Pmm) (n : ℕ) : Prop where
  sized : Sized (after n p)
  total : (after n p).totalPages = p.totalPages
  nodup : (handedOut p n).Nodup
  frames : ∀ addr ∈ handedOut p n, ∃ i < p.totalPages / 8*8,
    addr = frameAddr i ∧ get p.bitmap i = false
  bits : ∀ i, get (after n p).bitmap i = true ↔
    get p.bitmap i = true ∨ frameAddr i ∈ handedOut p n

lemma Drained.zero (hs : Sized p) : Drained p 0 :=
  ⟨hs,rfl,List.nodup_nil,by simp [handedOut],by simp [handedOut,after]⟩

lemma Drained.succ (h : Drained p n) : Drained p (n+1) := by
  by_cases hzr : (pmmAlloc (after n p)).1 = 0
  · have hsm : after (n+1) p = after n p := by
      rcases pmmAlloc_spec h.sized with hfl | ⟨i,hi,-⟩
      · rw [after_succ,hfl]
      · exact (frameAddr_ne_zero i (hi ▸ hzr)).elim
    have hls : handedOut p (n+1) = handedOut p n := by
      rw [handedOut_succ,hzr]
      simp
    refine ⟨?_,?_,?_,?_,?_⟩
    · rw [hsm]
      exact h.sized
    · rw [hsm]
      exact h.total
    · rw [hls]
      exact h.nodup
    · rw [hls]
      exact h.frames
    · rw [hsm,hls]
      exact h.bits
  obtain ⟨i,hi,had,htk⟩ := pmmAlloc_found h.sized hzr
  have hls : handedOut p (n+1) = handedOut p n ++ [frameAddr i] := by
    rw [handedOut_succ,had]
    simp [frameAddr_ne_zero]
  have hcl : get (after n p).bitmap i = false := htk.run.free i le_rfl (by omega)
  have hfr : ¬ (get p.bitmap i = true ∨ frameAddr i ∈ handedOut p n) := by
    rw [← h.bits,hcl]
    decide
  rw [not_or] at hfr
  refine ⟨?_,?_,?_,?_,?_⟩
  · rw [after_succ]
    exact htk.sized h.sized
  · rw [after_succ,htk.total,h.total]
  · rw [hls]
    exact List.Nodup.append h.nodup (List.nodup_singleton _) (by simpa using hfr.2)
  · intro addr hmem
    rw [hls,List.mem_append,List.mem_singleton] at hmem
    rcases hmem with hmem | rfl
    · exact h.frames addr hmem
    · exact ⟨i,by rw [← h.total]; exact hi,rfl,by simpa using hfr.1⟩
  · intro j
    have hone : i ≤ j ∧ j < i+1 ↔ frameAddr j = frameAddr i := by
      constructor
      · intro hij
        rw [show j = i by omega]
      · intro heq
        have hij : j = i := by rw [← frameIndex_frameAddr j,heq,frameIndex_frameAddr]
        omega
    rw [after_succ,htk.bits,hls,List.mem_append,List.mem_singleton,Bool.or_eq_true,
      decide_eq_true_eq,hone,h.bits]
    exact or_comm.trans or_assoc

lemma drained (hs : Sized p) (n : ℕ) : Drained p n := by
  induction n with
  | zero => exact .zero hs
  | succ n ih => exact ih.succ

lemma exists_exhausted (hs : Sized p) : ∃ n, Exhausted (after n p) := by
  obtain ⟨k,hk⟩ : ∃ k, k = p.totalPages-takenFrames p := ⟨_,rfl⟩
  induction k generalizing p with
  | zero =>
    refine ⟨0,fun i hi => ?_⟩
    by_contra hcl
    have hfr : (pmmAlloc p).1 ≠ 0 := fun hzr =>
      hcl ((pmmAlloc_eq_zero_iff hs).mp hzr i hi)
    obtain ⟨j,-,-,htk⟩ := pmmAlloc_found hs hfr
    have hmr := Taken.takenFrames htk
    have hle := takenFrames_le (pmmAlloc p).2
    rw [htk.total] at hle
    omega
  | succ k ih =>
    by_cases hzr : (pmmAlloc p).1 = 0
    · exact ⟨0,(pmmAlloc_eq_zero_iff hs).mp hzr⟩
    · obtain ⟨j,-,-,htk⟩ := pmmAlloc_found hs hzr
      have hmr := Taken.takenFrames htk
      obtain ⟨n,hn⟩ := ih (htk.sized hs) (by rw [htk.total]; omega)
      refine ⟨n+1,?_⟩
      exact hn

/-- The calls return exactly the free frames whose bytes the search reads. -/
theorem handedOut_frames (hs : Sized p) : (∀ n, (handedOut p n).Nodup ∧ ∀ addr ∈ handedOut p n,
    ∃ i < p.totalPages / 8*8, addr = frameAddr i ∧ get p.bitmap i = false) ∧ ∃ n,
    ∀ i < p.totalPages / 8*8, get p.bitmap i = false → frameAddr i ∈ handedOut p n := by
  refine ⟨fun n => ⟨(drained hs n).nodup,(drained hs n).frames⟩,?_⟩
  obtain ⟨n,hn⟩ := exists_exhausted hs
  refine ⟨n,fun i hi hfr => ?_⟩
  have hset := hn i (by rwa [(drained hs n).total])
  rcases ((drained hs n).bits i).mp hset with hbad | hmem
  · rw [hfr] at hbad
    cases hbad
  · exact hmem

lemma get_markReserved (m : Bytes) (total n i : ℕ) :
    get (markReserved bssEnd total m n) i =
      (decide (i < n) && reserved bssEnd total (pmmBaseAddr / pmmPageSize+i) || get m i) := by
  induction n with
  | zero => simp [markReserved]
  | succ n ih =>
    rw [markReserved]
    by_cases hi : i = n
    · subst hi
      split_ifs with hres
      · simp [hres]
      · simp [ih,hres]
    · have hlt : i < n+1 ↔ i < n := by omega
      split_ifs
      · rw [get_setBit,ih]
        simp [hi,hlt]
      · rw [ih]
        simp [hlt]

lemma reserved_iff (hkr : bssEnd+pmmPageSize ≤ 2^32) {total : ℕ} (htl : total ≤ pmmMaxPages) :
    reserved bssEnd total (pmmBaseAddr / pmmPageSize+i) = true ↔ frameAddr i < bssEnd := by
  have hbs : pmmBaseAddr = 0x300000 := rfl
  have hpage : pmmPageSize = 4096 := rfl
  have hbt : pmmBitmapAddr = 0x200000 := rfl
  have hmax : pmmMaxPages = 0x100000 := rfl
  simp only [reserved,decide_eq_true_eq,frameAddr,pmmBitmapBytes,hbs,hpage,hbt]
  omega

lemma managedPages_eq (top : ℕ) : managedPages top = max (wholeFrames top) pmmTotalPagesMin := by
  simp only [managedPages,wholeFrames]
  split_ifs <;> omega

lemma init_bits (hkr : bssEnd+pmmPageSize ≤ 2^32) (h : pmmInitFromE820 s₀ bssEnd top = (0,p)) :
    p.totalPages = managedPages top ∧ pmmBaseAddr < top ∧
    ∀ i < p.totalPages, get p.bitmap i = false ↔ bssEnd ≤ frameAddr i := by
  unfold pmmInitFromE820 at h
  split at h
  · cases h
  rename_i hlow
  dsimp only at h
  split at h
  · cases h
  cases h
  refine ⟨rfl,by omega,fun i hi => ?_⟩
  have hlm := (managedPages_limits top).2
  have hcl : get (fun k => if k < pmmBitmapBytes (managedPages top) then 0 else s₀.bitmap k) i =
      false := by
    have hby : i / 8 < pmmBitmapBytes (managedPages top) := by
      dsimp only at hi
      rw [pmmBitmapBytes]
      omega
    simp [Bitmap.get,hby]
  rw [get_markReserved,decide_eq_true hi,Bool.true_and,hcl,Bool.or_false,
    ← Bool.not_eq_true,reserved_iff hkr hlm,not_lt]

lemma usable_iff (hlow : pmmBaseAddr < top) :
    Usable bssEnd top (frameAddr i) ↔ i < wholeFrames top ∧ bssEnd ≤ frameAddr i := by
  have hbs : pmmBaseAddr = 0x300000 := rfl
  have hpage : pmmPageSize = 4096 := rfl
  have hmax : pmmMaxPages = 0x100000 := rfl
  have hft : frameAddr i+pmmPageSize ≤ min top (pmmBaseAddr+pmmMaxPages*pmmPageSize) ↔
      i < wholeFrames top := by
    simp only [frameAddr,wholeFrames,hbs,hpage,hmax] at hlow ⊢
    omega
  rw [← hft]
  refine ⟨?_,fun h => ⟨i,rfl,h⟩⟩
  rintro ⟨j,hj,h⟩
  have hij : i = j := by rw [← frameIndex_frameAddr i,hj,frameIndex_frameAddr]
  rw [hij]
  exact h

lemma handsOutExactly_iff (hs : Sized p) (hlow : pmmBaseAddr < top)
    (hbt : ∀ i < p.totalPages, get p.bitmap i = false ↔ bssEnd ≤ frameAddr i) :
    HandsOutExactly p bssEnd top ↔
    ∀ i, bssEnd ≤ frameAddr i → (i < p.totalPages / 8*8 ↔ i < wholeFrames top) := by
  obtain ⟨hsn,m,hcm⟩ := handedOut_frames hs
  constructor
  · rintro ⟨hex,n,hall⟩ i hi
    constructor
    · intro hlt
      have hmem := hcm i hlt ((hbt i (by omega)).mpr hi)
      exact ((usable_iff hlow).mp ((hex m).2 _ hmem)).1
    · intro hlt
      obtain ⟨j,hj,heq,-⟩ := (hsn n).2 _ (hall _ ((usable_iff hlow).mpr ⟨hlt,hi⟩))
      have hij : i = j := by rw [← frameIndex_frameAddr i,heq,frameIndex_frameAddr]
      rwa [hij]
  · intro h
    refine ⟨fun n => ⟨(hsn n).1,fun addr hmem => ?_⟩,m,fun addr huse => ?_⟩
    · obtain ⟨i,hi,rfl,hfe⟩ := (hsn n).2 addr hmem
      have hend := (hbt i (by omega)).mp hfe
      exact (usable_iff hlow).mpr ⟨(h i hend).mp hi,hend⟩
    · have hfr := huse
      obtain ⟨i,rfl,-,hend⟩ := hfr
      have hlt := (h i hend).mpr ((usable_iff hlow).mp huse).1
      exact hcm i hlt ((hbt i (by omega)).mpr hend)

/-- The frames handed out are those of the memory map if and only if there are enough of them
and their bits fill whole bytes, or the kernel covers all. -/
theorem init_exact_iff (s₀ p : Pmm) (bssEnd top : ℕ) (hkernel : bssEnd+pmmPageSize ≤ 2^32)
    (h : pmmInitFromE820 s₀ bssEnd top = (0,p)) :
    HandsOutExactly p bssEnd top ↔ FillsBytes bssEnd top := by
  obtain ⟨htl,hlow,hbt⟩ := init_bits hkernel h
  have hmin : pmmTotalPagesMin = 32000 := rfl
  have hpage : pmmPageSize = 4096 := rfl
  rw [handsOutExactly_iff (pmmInitFromE820_sized h) hlow hbt,htl,managedPages_eq,FillsBytes,
    hmin]
  generalize wholeFrames top = w
  simp only [frameAddr,hpage]
  constructor
  · intro hsm
    by_contra hnot
    have hls := hsm (max w 32000-1) (by omega)
    omega
  · rintro (hfl | hcv) i hi
    all_goals omega

/-- A machine with 125 MiB above the base address. -/
theorem init_exact_iff_default :
    HandsOutExactly (pmmInitFromE820 ⟨fun _ => 0xFF,0,0,0⟩ 0x80000 0x8000000).2 0x80000 0x8000000 :=
  (init_exact_iff ⟨fun _ => 0xFF,0,0,0⟩ _ 0x80000 0x8000000 (by decide)
    (Prod.ext (by decide) rfl)).mpr (by decide)

/-- On a machine with 16 MiB frames behind the end of memory are handed out. With one frame more
than 32000, which is the last bit alone in its byte, this frame is never handed out. -/
theorem init_not_exact : ∃ p q,
    pmmInitFromE820 ⟨fun _ => 0,0,0,0⟩ 0x80000 0x1000000 = (0,p) ∧
    (∃ n, frameAddr 31999 ∈ handedOut p n) ∧ 0x1000000 < frameAddr 31999 ∧
    pmmInitFromE820 ⟨fun _ => 0,0,0,0⟩ 0x80000 0x8001000 = (0,q) ∧
    Usable 0x80000 0x8001000 (frameAddr 32000) ∧ (∀ n, frameAddr 32000 ∉ handedOut q n) ∧
    ¬ HandsOutExactly p 0x80000 0x1000000 ∧ ¬ HandsOutExactly q 0x80000 0x8001000 := by
  obtain ⟨p,hp⟩ : ∃ p, pmmInitFromE820 ⟨fun _ => 0,0,0,0⟩ 0x80000 0x1000000 = (0,p) :=
    ⟨_,Prod.ext (by decide) rfl⟩
  obtain ⟨q,hq⟩ : ∃ q, pmmInitFromE820 ⟨fun _ => 0,0,0,0⟩ 0x80000 0x8001000 = (0,q) :=
    ⟨_,Prod.ext (by decide) rfl⟩
  obtain ⟨htl,hlow,hbt⟩ := init_bits (by decide) hp
  obtain ⟨htl',hlow',-⟩ := init_bits (by decide) hq
  have hpg' : managedPages 0x8001000 = 32001 := by decide
  obtain ⟨-,n,hall⟩ := handedOut_frames (pmmInitFromE820_sized hp)
  obtain ⟨hsn,-⟩ := handedOut_frames (pmmInitFromE820_sized hq)
  have hbh : frameAddr 31999 ∈ handedOut p n := by
    refine hall _ (by rw [htl]; decide) ((hbt _ (by rw [htl]; decide)).mpr (by decide))
  have huse : Usable 0x80000 0x8001000 (frameAddr 32000) := (usable_iff hlow').mpr (by decide)
  have hnv : ∀ k, frameAddr 32000 ∉ handedOut q k := by
    intro k hmem
    obtain ⟨i,hi,heq,-⟩ := (hsn k).2 _ hmem
    have hidx : 32000 = i := by simpa only [frameIndex_frameAddr] using congrArg frameIndex heq
    omega
  refine ⟨p,q,hp,⟨n,hbh⟩,by decide,hq,huse,hnv,fun h => ?_,fun h => ?_⟩
  · have hbad := ((usable_iff hlow).mp ((h.1 n).2 _ hbh)).1
    exact absurd hbad (by decide)
  · obtain ⟨k,hk⟩ := h.2
    exact hnv k (hk _ huse)

end HarlinKernel.FrameDrain
