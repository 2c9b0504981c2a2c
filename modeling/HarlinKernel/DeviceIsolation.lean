import HarlinKernel.DeviceWindows
import HarlinKernel.KmallocSafety
import HarlinKernel.ProcessFrames

/-! Runs of the heap, the display and the UHCI driver over one map of pages. Below the cursor of
the heap the pages belong to its regions; above it only the pages of the driver are mapped, each
to itself. -/
namespace HarlinKernel.DeviceWindows

open PageAllocator PageTable Kmalloc TransitionSystem
open Function (update update_self update_of_ne update_eq_self)

/-- `kmalloc_init`, no page of the driver and no VESA mode; the 4 GiB from the start of the heap
on are not mapped. -/
structure Initialised (s : Machine) : Prop where
  heap : ∃ h, s.heap = kmallocInit h
  regions : s.regions = []
  uhci : s.uhci = []
  mode : s.display.currentMode ≠ .vesa
  sized : Sized s.paging.pmm
  empty : ∀ k, kernelHeapStart ≤ k*4096 → k*4096 < kernelHeapStart+2^32 → s.paging.pages k = none

/-- The driver asks for addresses of pages that it holds, and frees those. -/
def OnLive (s : Machine) : Call → Prop
  | .uhciPhysToVirt phys => phys ∈ s.uhci
  | .uhciFree phys => phys ∈ s.uhci
  | _ => True

def deviceRuns : System Machine Call := (actions Initialised act).guarded OnLive

/-- Every byte of the framebuffer that a pixel can write is translated to its place behind the
reported address. -/
def Framed (s : Paging) (d : Display) : Prop :=
  ∀ x y, ∀ a ∈ pixelBytes d x y, s.translate a = some (d.reported+(a-d.vesaLfb))

/-- The address lies in a region of the heap. -/
def InRegion (s : Machine) (v : ℕ) : Prop := ∃ b e, (b,e) ∈ s.regions ∧ b ≤ v ∧ v < e

/-- The translations of the regions are the same in both states. -/
def RegionsKept (s t : Machine) : Prop :=
  ∀ v, InRegion s v → t.paging.translate v = s.paging.translate v

/-- `vesa_set_mode` accepts the mode info. -/
def Accepted (info : ModeInfo) : Prop :=
  readModeInfoLe32 info vbeModeInfoLfb ≠ 0 ∧
  ((info vbeModeInfoBpp).toNat = 24 ∨ (info vbeModeInfoBpp).toNat = 32) ∧
  readModeInfoLe16 info vbeModeInfoXres ≠ 0 ∧ readModeInfoLe16 info vbeModeInfoYres ≠ 0 ∧
  readModeInfoLe32 info vbeModeInfoLfb < 2^32

/-- The display in VESA mode as a mode info describes it. -/
def modeDisplay (info : ModeInfo) : Display where
  currentMode := .vesa
  vesaWidth := readModeInfoLe16 info vbeModeInfoXres
  vesaHeight := readModeInfoLe16 info vbeModeInfoYres
  vesaBpp := (info vbeModeInfoBpp).toNat
  vesaLfb := vesaLfbVirtual
  reported := readModeInfoLe32 info vbeModeInfoLfb

/-- The heap does not grow over a page of the driver and the driver does not get a page whose
address lies in a region. The one page that an accepted VESA mode maps is aligned and is not
mapped differently for the heap, and behind it the framebuffer is mapped. -/
def Separate (s : Machine) : Call → Prop
  | .kmalloc size => Grows s.heap size → ∀ p ∈ s.uhci,
    ¬ (s.heap.nextHeapVirt ≤ uhciVirt p ∧ uhciVirt p < s.heap.nextHeapVirt+regionTotal size)
  | .uhciAlloc => (pmmAllocLow s.paging.pmm 1).1 ≠ 0 →
    ¬ InRegion s (uhciVirt (pmmAllocLow s.paging.pmm 1).1)
  | .setMode mode info => mode = 2 → Accepted info →
    readModeInfoLe32 info vbeModeInfoLfb % 4096 = 0 ∧
    (InRegion s vesaLfbVirtual →
      s.paging.translate vesaLfbVirtual = some (readModeInfoLe32 info vbeModeInfoLfb)) ∧
    ∀ x y, ∀ a ∈ pixelBytes (modeDisplay info) x y, vesaLfbVirtual+4096 ≤ a →
      s.paging.translate a = some (readModeInfoLe32 info vbeModeInfoLfb+(a-vesaLfbVirtual))
  | _ => True

/-- A page of the driver: allocated below the DMA limit, above the heap and mapped to itself. -/
structure Window (s : Machine) (p : ℕ) : Prop where
  held : Allocated s.paging.pmm p
  low : p+4096 ≤ isaDmaLimit
  above : s.heap.nextHeapVirt ≤ uhciVirt p
  mapped : s.paging.pages (uhciVirt p / 4096) = some p

structure Sound (s : Machine) : Prop where
  sized : Sized s.paging.pmm
  start_le : kernelHeapStart ≤ s.heap.nextHeapVirt
  aligned : s.heap.nextHeapVirt % 4096 = 0
  frames : s.heap.nextHeapVirt+4096*s.uhci.length ≤
    kernelHeapStart+4096*takenFrames s.paging.pmm
  covered : ∀ v, InRegion s v ↔ kernelHeapStart ≤ v ∧ v < s.heap.nextHeapVirt
  nodup : s.uhci.Nodup
  window : ∀ p ∈ s.uhci, Window s p
  empty : ∀ k, s.heap.nextHeapVirt ≤ k*4096 → k*4096 < kernelHeapStart+2^32 →
    (∀ p ∈ s.uhci, k ≠ uhciVirt p / 4096) → s.paging.pages k = none
  framed : s.display.currentMode = .vesa → Framed s.paging s.display ∧
    ∀ x y, ∀ a ∈ pixelBytes s.display x y, a < s.heap.nextHeapVirt

variable {s t : Machine}

lemma Sound.initialised (h : Initialised s) : Sound s := by
  obtain ⟨h₀,hhp⟩ := h.heap
  have hnx : s.heap.nextHeapVirt = kernelHeapStart := by rw [hhp]; rfl
  refine ⟨h.sized,hnx.ge,by rw [hnx]; rfl,?_,?_,?_,?_,?_,fun hmd => (h.mode hmd).elim⟩
  · rw [hnx,h.uhci]
    exact Nat.le_add_right _ _
  · intro v
    refine ⟨?_,fun hv => by omega⟩
    rintro ⟨b,e,hmem,-⟩
    rw [h.regions] at hmem
    cases hmem
  · rw [h.uhci]
    exact List.nodup_nil
  · rw [h.uhci]
    intro p hp
    cases hp
  · intro k hlow hhg _
    exact h.empty k (hnx ▸ hlow) hhg

lemma takenFrames_lt {p : Pmm} (hs : Sized p) : takenFrames p ≤ 2^20 :=
  (takenFrames_le p).trans hs.max

lemma Sound.next_le (h : Sound s) : s.heap.nextHeapVirt ≤ kernelHeapStart+2^32 := by
  have hfr := h.frames
  have htk := takenFrames_lt h.sized
  omega

section Growing

variable {g : Paging} {virt i n k f : ℕ}

lemma page_number (hpage : virt % 4096 = 0) (hin : virt+i*4096 < 2^64) :
    (virt+i*4096) % 2^64 / 4096 = virt / 4096+i ∧ (virt+i*4096) % 2^64 % 4096 = 0 := by
  omega

lemma vmmGetPhys_page (hpage : virt % 4096 = 0) (hin : virt+i*4096 < 2^64) :
    g.vmmGetPhys ((virt+i*4096) % 2^64) = (g.pages (virt / 4096+i)).getD 0 := by
  obtain ⟨hnm,hof⟩ := page_number hpage hin
  rw [Paging.vmmGetPhys,Paging.translate,hnm,hof]
  cases g.pages (virt / 4096+i) <;> rfl

/-- A frame whose page holds another frame than `f`. -/
def Other (g : Paging) (f k : ℕ) : Prop := ∃ x, g.pages k = some x ∧ InPool g.pmm x ∧ x ≠ f

/-- What `map_pages` leaves of the pages from `virt` on when it has mapped `i` of them and has `n`
to go: a frame in use stays in use unless one of the mapped pages has it. -/
structure Grown (g : Paging) (virt i n : ℕ) (r : ℤ × Paging) : Prop where
  sized : Sized r.2.pmm
  done : r.1 = 0 → takenFrames g.pmm+n ≤ takenFrames r.2.pmm
  count : takenFrames g.pmm ≤ takenFrames r.2.pmm+i
  outside : ∀ k, ¬ (virt / 4096 ≤ k ∧ k < virt / 4096+(i+n)) → r.2.pages k = g.pages k
  undone : r.1 ≠ 0 → ∀ k, (virt / 4096 ≤ k ∧ k < virt / 4096+i → r.2.pages k = none) ∧
    (r.2.pages k = none ∨ r.2.pages k = g.pages k)
  held : ∀ f, Allocated g.pmm f → (∀ k < i, Other g f (virt / 4096+k)) → Allocated r.2.pmm f

lemma unwindPages_last (hs : Sized g.pmm) (hpage : virt % 4096 = 0) (hin : virt+i*4096 < 2^64) :
    ∃ u, unwindPages g virt (i+1) = unwindPages u virt i ∧ Sized u.pmm ∧
      takenFrames g.pmm ≤ takenFrames u.pmm+1 ∧ u.pages = update g.pages (virt / 4096+i) none ∧
      ∀ f, Allocated g.pmm f → Other g f (virt / 4096+i) → Allocated u.pmm f ∧
        u.pmm.totalPages = g.pmm.totalPages := by
  obtain ⟨hnm,-⟩ := page_number hpage hin
  have hph := vmmGetPhys_page (g:=g) hpage hin
  have hpg : (g.vmmUnmap ((virt+i*4096) % 2^64)).pages = update g.pages (virt / 4096+i) none := by
    rw [Paging.vmmUnmap,hnm]
  refine ⟨if g.vmmGetPhys ((virt+i*4096) % 2^64) ≠ 0 then
    (g.vmmUnmap ((virt+i*4096) % 2^64)).pmmFree (g.vmmGetPhys ((virt+i*4096) % 2^64))
    else g.vmmUnmap ((virt+i*4096) % 2^64),rfl,?_⟩
  split_ifs with hzr
  · obtain ⟨hsz,hcn⟩ := pmmFree_takenFrames hs (g.vmmGetPhys ((virt+i*4096) % 2^64))
    refine ⟨hsz,hcn,hpg,?_⟩
    rintro f hf ⟨x,hx,hpl,hne⟩
    rw [hph,hx]
    exact ⟨hf.pmmFree hs hpl (Ne.symm hne),(pmmFree_sized hs hpl).2⟩
  · refine ⟨hs,Nat.le_succ _,hpg,?_⟩
    rintro f - ⟨x,hx,⟨j,-,rfl⟩,-⟩
    rw [hph,hx] at hzr
    exact absurd (frameAddr_ne_zero j) hzr

lemma unwindPages_grown (hs : Sized g.pmm) (hpage : virt % 4096 = 0) (hin : virt+i*4096 < 2^64)
    (n : ℕ) : Grown g virt i n (-1,unwindPages g virt i) := by
  induction i generalizing g with
  | zero =>
    exact ⟨hs,by simp,le_rfl,fun _ _ => rfl,
      fun _ k => ⟨by omega,.inr rfl⟩,fun _ hf _ => hf⟩
  | succ i ih =>
    rw [Nat.add_mul,Nat.one_mul,← Nat.add_assoc] at hin
    obtain ⟨u,heq,hsz,hcn,hpg,hhl⟩ :=
      unwindPages_last (i:=i) hs hpage (by omega)
    have hrs := ih hsz (by omega)
    have hot : ∀ k, k ≠ virt / 4096+i → u.pages k = g.pages k := fun k hk => by
      rw [hpg,update_of_ne hk]
    rw [heq]
    refine ⟨hrs.sized,by simp,?_,?_,?_,?_⟩
    · have hrest_count := hrs.count
      omega
    · intro k hk
      rw [hrs.outside k (by omega),hot k (by omega)]
    · intro hrc k
      obtain ⟨his,het⟩ := hrs.undone hrc k
      by_cases hk : k = virt / 4096+i
      · have hno : (unwindPages u virt i).pages k = none := het.elim id fun hsm => by
          rw [hsm,hpg,hk,update_self]
        exact ⟨fun _ => hno,.inl hno⟩
      · rw [hot k hk] at het
        exact ⟨fun hin => his (by omega),het⟩
    · intro f hf hoh
      obtain ⟨hf',htl⟩ := hhl f hf (hoh i (Nat.lt_succ_self i))
      refine hrs.held f hf' fun k hk => ?_
      obtain ⟨y,hy,⟨j,hj,hyj⟩,hyf⟩ := hoh k (by omega)
      exact ⟨y,(hot _ (by omega)).trans hy,⟨j,htl ▸ hj,hyj⟩,hyf⟩

lemma mapPagesFrom_grown (hs : Sized g.pmm) (hpage : virt % 4096 = 0)
    (hin : virt+(i+n)*4096 < 2^64) : Grown g virt i n (mapPagesFrom g virt i n) := by
  induction n generalizing g i with
  | zero =>
    exact ⟨hs,fun _ => le_rfl,Nat.le_add_right _ _,fun _ _ => rfl,fun hbad => (hbad rfl).elim,
      fun _ hf _ => hf⟩
  | succ n ih =>
    have hin' : virt+i*4096 < 2^64 :=
      lt_of_le_of_lt (Nat.add_le_add_left (Nat.mul_le_mul_right 4096 (Nat.le_add_right i _)) virt)
        hin
    rw [mapPagesFrom]
    simp only [PageMap.pmmAlloc,PageMap.vmmMap]
    rcases pmmAlloc_spec hs with hfl | ⟨base,hbs,htk⟩
    · simp only [hfl,if_true]
      exact unwindPages_grown hs hpage hin' _
    have hgot : AddressSpace.Got g.pmm (pmmAlloc g.pmm).1 (pmmAlloc g.pmm).2 := ⟨base,hbs,htk⟩
    have hsh := hgot.shrunk hs
    have hne : (pmmAlloc g.pmm).1 ≠ 0 := hbs ▸ frameAddr_ne_zero base
    simp only [hne,if_false]
    obtain ⟨hnm,-⟩ := page_number hpage hin'
    obtain ⟨u,hu⟩ : ∃ u, u = Paging.vmmMap ⟨g.pages,(pmmAlloc g.pmm).2⟩ ((virt+i*4096) % 2^64)
      (pmmAlloc g.pmm).1 := ⟨_,rfl⟩
    have hu_pmm : u.pmm = (pmmAlloc g.pmm).2 := by rw [hu]; rfl
    have hu_pages : u.pages = update g.pages (virt / 4096+i) (some (pmmAlloc g.pmm).1) := by
      simp only [hu,Paging.vmmMap,hnm,hgot.free.aligned hs]
    have hot : ∀ k, k ≠ virt / 4096+i → u.pages k = g.pages k := fun k hk => by
      rw [hu_pages,update_of_ne hk]
    have hone := Taken.takenFrames htk
    rw [← hu_pmm] at hone hsh
    rw [← hu]
    have hrs := ih (g:=u) (i:=i+1) hsh.sized
      (by rw [Nat.add_right_comm,Nat.add_assoc]; exact hin)
    have hcn := hrs.count
    refine ⟨hrs.sized,fun hrc => ?_,by omega,?_,?_,?_⟩
    · have hdn := hrs.done hrc
      omega
    · intro k hk
      rw [hrs.outside k (by omega),hot k (by omega)]
    · intro hrc k
      obtain ⟨his,het⟩ := hrs.undone hrc k
      refine ⟨fun hk => his (by omega),?_⟩
      by_cases hk : k = virt / 4096+i
      · exact .inl (his (by omega))
      · rwa [hot k hk] at het
    · intro f hf hoh
      refine hrs.held f (hsh.allocated hf) fun k hk => ?_
      by_cases hls : k = i
      · refine ⟨_,by rw [hls,hu_pages,update_self],?_,hf.ne hgot.free⟩
        rw [hu_pmm]
        exact hgot.allocated.inPool
      · obtain ⟨x,hx,⟨j,hj,hxj⟩,hxf⟩ := hoh k (by omega)
        exact ⟨x,(hot _ (by omega)).trans hx,⟨j,hsh.total ▸ hj,hxj⟩,hxf⟩

end Growing

section Steps

variable {size p : ℕ} {c : Call}

lemma Sound.framed_of (h : Sound s) (hds : t.display = s.display)
    (hnx : s.heap.nextHeapVirt ≤ t.heap.nextHeapVirt)
    (hpg : ∀ k, k*4096 < s.heap.nextHeapVirt → t.paging.pages k = s.paging.pages k)
    (hmd : t.display.currentMode = .vesa) :
    Framed t.paging t.display ∧ ∀ x y, ∀ a ∈ pixelBytes t.display x y, a < t.heap.nextHeapVirt := by
  rw [hds] at hmd ⊢
  obtain ⟨hfr,hbl⟩ := h.framed hmd
  refine ⟨fun x y a ha => ?_,fun x y a ha => (hbl x y a ha).trans_le hnx⟩
  have hlt := hbl x y a ha
  rw [← hfr x y a ha,Paging.translate,Paging.translate,hpg _ (by omega)]

lemma Sound.regionsKept (h : Sound s)
    (hpg : ∀ k, k*4096 < s.heap.nextHeapVirt → t.paging.pages k = s.paging.pages k) :
    RegionsKept s t := by
  intro v hv
  have hlt := ((h.covered v).mp hv).2
  rw [Paging.translate,Paging.translate,hpg _ (by omega)]

lemma Sound.congr (h : Sound s) (hpg : t.paging = s.paging)
    (hnx : t.heap.nextHeapVirt = s.heap.nextHeapVirt) (hrg : t.regions = s.regions)
    (huh : t.uhci = s.uhci) (hfr : t.display.currentMode = .vesa →
      Framed t.paging t.display ∧ ∀ x y, ∀ a ∈ pixelBytes t.display x y, a < t.heap.nextHeapVirt) :
    Sound t := by
  have hcv : ∀ v, InRegion t v ↔ InRegion s v := fun v => by rw [InRegion,InRegion,hrg]
  refine ⟨hpg ▸ h.sized,hnx ▸ h.start_le,hnx ▸ h.aligned,?_,?_,huh ▸ h.nodup,fun p hp => ?_,?_,hfr⟩
  · rw [hnx,huh,hpg]
    exact h.frames
  · intro v
    rw [hcv,hnx]
    exact h.covered v
  · obtain ⟨hhl,hlow,hab,hmp⟩ := h.window p (huh ▸ hp)
    exact ⟨hpg ▸ hhl,hlow,hnx ▸ hab,hpg ▸ hmp⟩
  · rw [hnx,huh,hpg]
    exact h.empty

lemma Sound.headers (h : Sound s) {heap : Heap Paging} (hsm : SameState s.heap heap) :
    Sound { s with heap := heap } :=
  h.congr hsm.vmm hsm.next rfl rfl
    (h.framed_of rfl hsm.next.ge fun k _ => congrArg (Paging.pages · k) hsm.vmm)

lemma sameState_kfree (h : Heap Paging) (ptr : ℕ) : SameState h (kfree h ptr) := by
  have hmr : ∀ (t : Heap Paging) b, SameState h t →
      SameState h (mergeNext t b) ∧ SameState h (mergePrev t b) := by
    intro t b ht
    rw [mergeNext,mergePrev]
    constructor <;> split_ifs
    · exact ht.setField.setField.setPrevOf
    · exact ht
    · exact ht.setField.setField.setPrevOf
    · exact ht
  rw [kfree]
  split_ifs
  · exact .refl h
  · exact .refl h
  · exact (hmr _ _ (hmr _ _ (SameState.refl h).setField).1).2

lemma Sound.grow (h : Sound s) (hsz : size ≤ kmallocMaxSize)
    (hsp : ∀ p ∈ s.uhci,
      ¬ (s.heap.nextHeapVirt ≤ uhciVirt p ∧ uhciVirt p < s.heap.nextHeapVirt+regionTotal size)) :
    Sound (s.afterKmalloc (growHeap s.heap size).2) := by
  have hhp : kernelHeapStart = 0xFFFF800000000000 := rfl
  have hst := h.start_le
  have htop := h.next_le
  have hfr := h.frames
  have hal := h.aligned
  obtain ⟨hpage,hrm,hln⟩ := regionTotal_spec hsz
  have hhd : headerSize = 40 := rfl
  obtain ⟨n,hn⟩ : ∃ n, n = (regionTotal size+4095) / 4096 := ⟨_,rfl⟩
  have hin : s.heap.nextHeapVirt+(0+n)*4096 < 2^64 := by omega
  obtain ⟨hsi,hdn,hcn,hpg,hfl,hhl⟩ := mapPagesFrom_grown h.sized hal hin
  have hcl : ∀ p ∈ s.uhci, s.heap.nextHeapVirt+regionTotal size ≤ uhciVirt p := by
    intro p hp
    have hab := (h.window p hp).above
    have hnot := hsp p hp
    omega
  have hkp : ∀ p ∈ s.uhci, Allocated (mapPagesFrom s.paging s.heap.nextHeapVirt 0 n).2.pmm p ∧
      (mapPagesFrom s.paging s.heap.nextHeapVirt 0 n).2.pages (uhciVirt p / 4096) = some p := by
    intro p hp
    have hout := hcl p hp
    refine ⟨hhl p (h.window p hp).held (by omega),?_⟩
    rw [hpg _ (by omega)]
    exact (h.window p hp).mapped
  have hmap : mapPages s.heap.vmm s.heap.nextHeapVirt (regionTotal size) =
      mapPagesFrom s.paging s.heap.nextHeapVirt 0 n := by rw [mapPages,← hn,Machine.paging]
  have hcr : (s.heap.nextHeapVirt+regionTotal size) % 2^64 =
      s.heap.nextHeapVirt+regionTotal size := Nat.mod_eq_of_lt (by omega)
  rw [growHeap_eq hsz (by omega),hmap,hcr]
  obtain ⟨r,hr⟩ : ∃ r, r = mapPagesFrom s.paging s.heap.nextHeapVirt 0 n := ⟨_,rfl⟩
  rw [← hr] at hsi hdn hcn hpg hfl hhl hkp ⊢
  split_ifs with hrc
  · rw [Machine.afterKmalloc,if_pos rfl]
    refine ⟨hsi,hst,hal,hfr.trans ?_,h.covered,h.nodup,?_,?_,?_⟩
    · exact Nat.add_le_add_left (Nat.mul_le_mul_left 4096 hcn) _
    · exact fun p hp => ⟨(hkp p hp).1,(h.window p hp).low,(h.window p hp).above,(hkp p hp).2⟩
    · intro k hlow hhg hot
      obtain hno | hsm := (hfl hrc k).2
      · exact hno
      · exact hsm.trans (h.empty k hlow hhg hot)
    · exact h.framed_of rfl le_rfl fun k hk => hpg k (by omega)
  · obtain ⟨hvm,hnx⟩ := pushed_state ⟨r.2,s.heap.mem,s.heap.kmallocHead,
      s.heap.nextHeapVirt+regionTotal size⟩ s.heap.nextHeapVirt (regionTotal size)
    dsimp only at hvm hnx ⊢
    generalize pushed _ s.heap.nextHeapVirt (regionTotal size) = g at hvm hnx ⊢
    have hrg : (s.afterKmalloc g).regions =
        (s.heap.nextHeapVirt,s.heap.nextHeapVirt+regionTotal size) :: s.regions := by
      rw [Machine.afterKmalloc,hnx]
      exact if_neg (by omega)
    have huh : (s.afterKmalloc g).uhci = s.uhci := rfl
    have hds : (s.afterKmalloc g).display = s.display := rfl
    change (s.afterKmalloc g).paging = r.2 at hvm
    change (s.afterKmalloc g).heap.nextHeapVirt = _ at hnx
    generalize s.afterKmalloc g = t at hvm hnx hrg huh hds ⊢
    have hdn := hdn (not_not.mp hrc)
    refine ⟨hvm ▸ hsi,by omega,by omega,?_,?_,huh ▸ h.nodup,?_,?_,?_⟩
    · rw [hvm,hnx,huh]
      omega
    · intro v
      have hcv := h.covered v
      rw [hnx,InRegion,hrg]
      constructor
      · rintro ⟨b,e,hmem,hb,he⟩
        rcases List.mem_cons.mp hmem with hnew | hold
        · cases hnew
          omega
        · have hv := hcv.mp ⟨b,e,hold,hb,he⟩
          omega
      · rintro ⟨hlow,hhg⟩
        by_cases hv : v < s.heap.nextHeapVirt
        · obtain ⟨b,e,hmem,hb,he⟩ := hcv.mpr ⟨hlow,hv⟩
          exact ⟨b,e,List.mem_cons_of_mem _ hmem,hb,he⟩
        · exact ⟨_,_,List.mem_cons_self,by omega,by omega⟩
    · intro p hp
      rw [huh] at hp
      exact ⟨hvm ▸ (hkp p hp).1,(h.window p hp).low,hnx.trans_le (hcl p hp),hvm ▸ (hkp p hp).2⟩
    · intro k hlow hhg hot
      rw [huh] at hot
      rw [hvm]
      exact (hpg k (by omega)).trans (h.empty k (by omega) hhg hot)
    · refine h.framed_of hds (by omega) fun k hk => ?_
      rw [hvm]
      exact hpg k (by omega)

lemma Sound.kmalloc (h : Sound s) (hst : act s (.kmalloc size) = some t)
    (hsp : Separate s (.kmalloc size)) : Sound t := by
  have hsm : ∀ {g : Heap Paging}, SameState s.heap g → Sound (s.afterKmalloc g) := by
    intro g hg
    rw [Machine.afterKmalloc,if_pos hg.next]
    exact h.headers hg
  obtain ⟨r,hr,rfl⟩ := Option.map_eq_some_iff.mp hst
  rw [Kmalloc.kmalloc] at hr
  split_ifs at hr with hbad
  · cases hr
    exact hsm (.refl _)
  · split at hr
    · cases hr
    · rename_i hfn
      cases hr
      exact h.grow (by omega) (hsp ⟨fun hzr => hbad (.inl hzr),hfn⟩)
    · cases hr
      exact hsm (sameState_splitBlock _ _ _).setField

lemma vmmMapped_some {g : Paging} {v : ℕ} (hpage : g.pages (v / 4096) = some p) (hne : p ≠ 0) :
    g.vmmMapped v = true := by
  have hph : g.vmmGetPhys v = p+v % 4096 := by rw [Paging.vmmGetPhys,Paging.translate,hpage]; rfl
  rw [Paging.vmmMapped,hph,decide_eq_true_eq]
  omega

lemma vmmMapped_none {g : Paging} {v : ℕ} (hpage : g.pages (v / 4096) = none) :
    g.vmmMapped v = false := by
  have hph : g.vmmGetPhys v = 0 := by rw [Paging.vmmGetPhys,Paging.translate,hpage]; rfl
  rw [Paging.vmmMapped,hph]
  rfl

lemma uhciVirt_low (hlow : p+4096 ≤ isaDmaLimit) : uhciVirt p = kernelHeapStart+p := by
  have hlm : isaDmaLimit = 0x01000000 := rfl
  have hhp : kernelHeapStart = 0xFFFF800000000000 := rfl
  unfold uhciVirt
  omega

lemma frame_aligned {q : Pmm} (hp : Allocated q p) : p % 4096 = 0 := by
  obtain ⟨i,-,rfl,-⟩ := hp
  have hbs : pmmBaseAddr % 4096 = 0 := by decide
  have hpage : pmmPageSize = 4096 := rfl
  rw [frameAddr,hpage]
  omega

lemma Window.ne_zero (h : Window s p) : p ≠ 0 := by
  obtain ⟨i,-,rfl,-⟩ := h.held
  exact frameAddr_ne_zero i

lemma Window.uhciPhysToVirt (h : Window s p) :
    uhciPhysToVirt s.paging p = (uhciVirt p,s.paging) := by
  rw [DeviceWindows.uhciPhysToVirt,if_neg h.ne_zero,if_pos (vmmMapped_some h.mapped h.ne_zero)]

lemma page_injective {q : ℕ} (hp : p+4096 ≤ isaDmaLimit) (hq : q+4096 ≤ isaDmaLimit)
    (hpage : p % 4096 = 0) (hqp : q % 4096 = 0)
    (heq : uhciVirt p / 4096 = uhciVirt q / 4096) : p = q := by
  rw [uhciVirt_low hp,uhciVirt_low hq] at heq
  omega

lemma Sound.uhciAlloc (h : Sound s) (hsp : Separate s .uhciAlloc)
    (hse : act s .uhciAlloc = some t) : Sound t ∧ RegionsKept s t := by
  cases hse
  have hlm : isaDmaLimit = 0x01000000 := rfl
  have hsl : 1 ≤ s.paging.pmm.totalPages := (by decide : 1 ≤ pmmTotalPagesMin).trans h.sized.min
  rcases pmmAllocLow_spec h.sized (by decide : (1 : ℕ) ≠ 0) hsl with
    hfl | ⟨base,hbs,htk,hlow⟩
  · have hsm : uhciAllocPhysPage s.paging = (0,s.paging) := by
      rw [uhciAllocPhysPage,hfl]
      rfl
    simp only [hsm,if_true]
    exact ⟨h,fun _ _ => rfl⟩
  have hgot : AddressSpace.Got s.paging.pmm (pmmAllocLow s.paging.pmm 1).1
    (pmmAllocLow s.paging.pmm 1).2 := ⟨base,hbs,htk⟩
  have hcn := Taken.takenFrames htk
  have hne := hbs ▸ frameAddr_ne_zero base
  rw [← hbs,pmmPageSize,Nat.one_mul] at hlow
  have hrg := hsp hne
  obtain ⟨p,hp⟩ : ∃ p, p = (pmmAllocLow s.paging.pmm 1).1 := ⟨_,rfl⟩
  obtain ⟨q,hq⟩ : ∃ q, q = (pmmAllocLow s.paging.pmm 1).2 := ⟨_,rfl⟩
  rw [← hp] at hgot hne hlow hrg
  rw [← hq] at hgot hcn
  have hvr := uhciVirt_low hlow
  have hal := frame_aligned hgot.allocated
  have hag := h.aligned
  have hst := h.start_le
  have hab : s.heap.nextHeapVirt ≤ uhciVirt p := by
    by_contra hbl
    exact hrg ((h.covered _).mpr ⟨by omega,by omega⟩)
  have hot : ∀ x ∈ s.uhci, uhciVirt p / 4096 ≠ uhciVirt x / 4096 := by
    intro x hx heq
    have hwn := h.window x hx
    exact hwn.held.ne hgot.free
      (page_injective hlow hwn.low hal (frame_aligned hwn.held) heq)
  have hno : s.paging.pages (uhciVirt p / 4096) = none :=
    h.empty _ (by omega) (by omega) hot
  have hac : uhciAllocPhysPage s.paging =
      (p,⟨update s.paging.pages (uhciVirt p / 4096) (some p),q⟩) := by
    have hun : Paging.vmmMapped ⟨s.paging.pages,q⟩ (uhciVirt p) = false := vmmMapped_none hno
    have hvirt_ne : uhciVirt p ≠ 0 := by omega
    simp [uhciAllocPhysPage,← hp,← hq,hne,uhciPhysToVirt,hun,hvirt_ne,Paging.vmmMap,
      hgot.free.aligned h.sized]
  have hsh := hgot.shrunk h.sized
  have hkp : ∀ k, k*4096 < s.heap.nextHeapVirt →
      update s.paging.pages (uhciVirt p / 4096) (some p) k = s.paging.pages k := by
    intro k hk
    have hk' : k ≠ uhciVirt p / 4096 := by omega
    rw [update_of_ne hk']
  simp only [hac,hne,if_false,Machine.setPaging]
  refine ⟨⟨hsh.sized,hst,hag,?_,h.covered,?_,?_,?_,?_⟩,h.regionsKept hkp⟩
  · dsimp only [Machine.paging]
    rw [List.length_cons,hcn,Nat.mul_succ,Nat.mul_succ,← Nat.add_assoc,← Nat.add_assoc]
    exact Nat.add_le_add_right h.frames 4096
  · refine List.nodup_cons.mpr ⟨fun hmem => ?_,h.nodup⟩
    exact hot p hmem rfl
  · intro x hx
    rcases List.mem_cons.mp hx with rfl | hx
    · exact ⟨hgot.allocated,hlow,hab,update_self _ _ _⟩
    · have hwn := h.window x hx
      refine ⟨hsh.allocated hwn.held,hwn.low,hwn.above,?_⟩
      dsimp only [Machine.paging]
      rw [update_of_ne (hot x hx).symm]
      exact hwn.mapped
  · intro k hk hk' hfr
    exact (update_of_ne (hfr p List.mem_cons_self) _ _).trans
      (h.empty k hk hk' fun x hx => hfr x (List.mem_cons_of_mem _ hx))
  · exact h.framed_of rfl le_rfl hkp

lemma Sound.uhciFree (h : Sound s) (hp : p ∈ s.uhci) (hst : act s (.uhciFree p) = some t) :
    Sound t ∧ RegionsKept s t := by
  cases hst
  have hwn := h.window p hp
  have hal := frame_aligned hwn.held
  have hab := hwn.above
  have hag := h.aligned
  have hkp : ∀ k, k*4096 < s.heap.nextHeapVirt →
      update s.paging.pages (uhciVirt p / 4096) none k = s.paging.pages k := by
    intro k hk
    have hk' : k ≠ uhciVirt p / 4096 := by omega
    rw [update_of_ne hk']
  obtain ⟨hsz,hcn⟩ := pmmFree_takenFrames h.sized p
  have hfm := h.frames
  have hln := List.length_erase_of_mem hp
  have hpos := List.length_pos_of_mem hp
  simp only [uhciFreePhysPage,if_neg hwn.ne_zero,Paging.vmmUnmap,Paging.pmmFree,
    Machine.setPaging]
  refine ⟨⟨hsz,h.start_le,hag,?_,h.covered,h.nodup.erase p,?_,?_,?_⟩,h.regionsKept hkp⟩
  · dsimp only [Machine.paging] at hcn hfm ⊢
    omega
  · intro x hx
    obtain ⟨hxp,hx⟩ := h.nodup.mem_erase_iff.mp hx
    have hot := h.window x hx
    refine ⟨hot.held.pmmFree h.sized hwn.held.inPool hxp,hot.low,hot.above,?_⟩
    dsimp only [Machine.paging]
    rw [update_of_ne]
    · exact hot.mapped
    · exact fun heq => hxp (page_injective hot.low hwn.low (frame_aligned hot.held) hal heq)
  · intro k hk hk' hfr
    by_cases heq : k = uhciVirt p / 4096
    · rw [heq]
      exact update_self _ _ _
    · refine (update_of_ne heq _ _).trans (h.empty k hk hk' fun x hx => ?_)
      by_cases hxp : x = p
      · exact hxp ▸ heq
      · exact hfr x (h.nodup.mem_erase_iff.mpr ⟨hxp,hx⟩)
  · exact h.framed_of rfl le_rfl hkp

lemma pixelBytes_offset {d : Display} {x y : ℤ} {a : ℕ} (ha : a ∈ pixelBytes d x y) :
    d.vesaLfb ≤ a ∧ a < d.vesaLfb+d.vesaWidth*d.vesaHeight*4 := by
  rw [pixelBytes] at ha
  split_ifs at ha with hx hy hbpp
  · cases ha
  · cases ha
  all_goals
    obtain ⟨i,hi,rfl⟩ := List.mem_map.mp ha
    rw [List.mem_range] at hi
    obtain ⟨x,rfl⟩ := Int.eq_ofNat_of_zero_le (by omega : 0 ≤ x)
    obtain ⟨y,rfl⟩ := Int.eq_ofNat_of_zero_le (by omega : 0 ≤ y)
    have hin : ((y : ℤ)*d.vesaWidth+x).toNat = y*d.vesaWidth+x := by
      rw [← Int.natCast_mul,← Int.natCast_add,Int.toNat_natCast]
    have hrow : (y+1)*d.vesaWidth ≤ d.vesaHeight*d.vesaWidth := Nat.mul_le_mul_right _ (by omega)
    rw [Nat.add_mul,Nat.one_mul] at hrow
    rw [hin,Nat.mul_comm d.vesaWidth]
    omega

lemma readModeInfoLe16_eq (info : ModeInfo) (offset : ℕ) :
    readModeInfoLe16 info offset = 256*(info (offset+1)).toNat+(info offset).toNat := by
  rw [readModeInfoLe16,Nat.or_comm,← Nat.shiftLeft_add_eq_or_of_lt (info offset).toNat_lt,
    Nat.shiftLeft_eq,Nat.mul_comm]

lemma vesaSetMode_refused {info : ModeInfo} (h : ¬ Accepted info) (s : Machine) :
    vesaSetMode s info = (-1,s) := by
  unfold vesaSetMode
  dsimp only
  split_ifs with hlfb hbpp hsz hhg
  · rfl
  · rfl
  · rfl
  · rfl
  · exact (h ⟨hlfb,by omega,by omega,by omega,by omega⟩).elim

lemma vesaSetMode_accepted {info : ModeInfo} (h : Accepted info) (s : Machine) :
    vesaSetMode s info =
      (0,{ s.setPaging (s.paging.vmmMap vesaLfbVirtual (modeDisplay info).reported) with
        display := { modeDisplay info with currentMode := s.display.currentMode } }) := by
  obtain ⟨hlfb,hbpp,hwd,hhg,hsm⟩ := h
  rw [vesaSetMode,if_neg hlfb,if_neg (by omega),if_neg (by omega),if_neg (by omega)]
  rfl

/-- The bits per pixel are read from the high byte of the width, so an accepted mode is wide and
its framebuffer has more than one page, but less than 4 GiB. -/
theorem Accepted.bounds {info : ModeInfo} (h : Accepted info) :
    6144 ≤ (modeDisplay info).vesaWidth ∧
      (modeDisplay info).vesaWidth*(modeDisplay info).vesaHeight ≤ 8447*65535 := by
  obtain ⟨-,hbpp,-⟩ := h
  have hlow := (info vbeModeInfoXres).toNat_lt
  have hrow := (info vbeModeInfoYres).toNat_lt
  have hrow' := (info (vbeModeInfoYres+1)).toNat_lt
  have hsm : info (vbeModeInfoXres+1) = info vbeModeInfoBpp := rfl
  rw [modeDisplay,readModeInfoLe16_eq,readModeInfoLe16_eq,hsm]
  dsimp only
  exact ⟨by omega,Nat.mul_le_mul (by omega) (by omega)⟩

lemma pixelBytes_second {d : Display} (hwd : 6144 ≤ d.vesaWidth) (hhg : d.vesaHeight ≠ 0) :
    ∃ a ∈ pixelBytes d 1366 0, d.vesaLfb+4096 ≤ a := by
  rw [pixelBytes,if_neg (by omega),if_neg (by omega)]
  split_ifs
  · exact ⟨d.vesaLfb+1366*4+0,List.mem_map.mpr ⟨0,by simp,by simp⟩,by omega⟩
  · exact ⟨d.vesaLfb+1366*3+0,List.mem_map.mpr ⟨0,by simp,by simp⟩,by omega⟩

/-- A byte of a framebuffer that is mapped lies in the heap: the pages of the driver are mapped to
themselves, which no framebuffer is. -/
lemma Sound.byte_below (h : Sound s) {a lfb : ℕ} (hle : vesaLfbVirtual ≤ a)
    (hlt : a < vesaLfbVirtual+8447*65535*4) (hlfb : lfb ≠ 0)
    (hph : s.paging.translate a = some (lfb+(a-vesaLfbVirtual))) : a < s.heap.nextHeapVirt := by
  by_contra hlow
  have hhp : kernelHeapStart = vesaLfbVirtual := rfl
  have hag := h.aligned
  obtain ⟨f,hf,hsum⟩ := Option.map_eq_some_iff.mp hph
  have hsm : ∃ p ∈ s.uhci, a / 4096 = uhciVirt p / 4096 := by
    by_contra hno
    push Not at hno
    rw [h.empty (a / 4096) (by omega) (by omega) hno] at hf
    cases hf
  obtain ⟨p,hp,hpage⟩ := hsm
  have hwn := h.window p hp
  rw [hpage,hwn.mapped] at hf
  cases hf
  have hvr := uhciVirt_low hwn.low
  have hal := frame_aligned hwn.held
  have hst : kernelHeapStart % 4096 = 0 := rfl
  omega

/-- Mode switches. The pages behind the first one of the framebuffer can only be pages of the
heap, so the heap has the first one too, and an accepted VESA mode maps it as it is. -/
theorem Sound.setMode {mode : ℤ} {info : ModeInfo} (h : Sound s)
    (hsp : Separate s (.setMode mode info)) (hse : act s (.setMode mode info) = some t) :
    Sound t ∧ RegionsKept s t := by
  cases hse
  have hot : ∀ m, m ≠ .vesa → Sound (s.setCurrentMode m) := fun m hm =>
    h.congr rfl rfl rfl rfl fun hmd => (hm hmd).elim
  rw [displaySetMode]
  split_ifs with htx hgr hvs
  · exact ⟨hot .vgaText (by decide),fun _ _ => rfl⟩
  · exact ⟨hot .vga13h (by decide),fun _ _ => rfl⟩
  · by_cases hac : Accepted info
    swap
    · simp only [vesaSetMode_refused hac,ne_eq]
      exact ⟨hot .vgaText (by decide),fun _ _ => rfl⟩
    obtain ⟨hal,hfi,hbh⟩ := hsp hvs hac
    obtain ⟨hwd,har⟩ := hac.bounds
    have hbd : ∀ x y, ∀ a ∈ pixelBytes (modeDisplay info) x y,
        vesaLfbVirtual ≤ a ∧ a < vesaLfbVirtual+8447*65535*4 := by
      intro x y a ha
      obtain ⟨hle,hlt⟩ := pixelBytes_offset ha
      exact ⟨hle,hlt.trans_le (Nat.add_le_add_left (Nat.mul_le_mul_right 4 har) _)⟩
    have hab : ∀ x y, ∀ a ∈ pixelBytes (modeDisplay info) x y, vesaLfbVirtual+4096 ≤ a →
        a < s.heap.nextHeapVirt := fun x y a ha hle =>
      h.byte_below (hbd x y a ha).1 (hbd x y a ha).2 hac.1 (hbh x y a ha hle)
    obtain ⟨b,hb,hle⟩ := pixelBytes_second hwd hac.2.2.2.1
    have hnx : vesaLfbVirtual+4096 ≤ s.heap.nextHeapVirt := hle.trans (hab _ _ b hb hle).le
    have hst : vesaLfbVirtual % 4096 = 0 := rfl
    obtain ⟨f,hf,hsum⟩ := Option.map_eq_some_iff.mp (hfi ((h.covered _).mpr ⟨le_rfl,by omega⟩))
    rw [hst,Nat.add_zero] at hsum
    subst hsum
    have hpg : s.paging.vmmMap vesaLfbVirtual (modeDisplay info).reported = s.paging := by
      rw [Paging.vmmMap,modeDisplay,aligned_and_frameMask (hac.2.2.2.2.trans (by decide)) hal,← hf]
      exact congrArg (Paging.mk · s.paging.pmm) (update_eq_self _ _)
    have hfr : Framed s.paging (modeDisplay info) := by
      intro x y a ha
      by_cases hfs : vesaLfbVirtual+4096 ≤ a
      · exact hbh x y a ha hfs
      · have hlow := (hbd x y a ha).1
        have hpn : a / 4096 = vesaLfbVirtual / 4096 := by omega
        rw [Paging.translate,hpn,hf]
        exact congrArg (some <| _ + ·) (show a % 4096 = a-vesaLfbVirtual by omega)
    simp only [vesaSetMode_accepted hac,ne_eq,not_true_eq_false,if_false,hpg]
    refine ⟨h.congr rfl rfl rfl rfl fun _ => ⟨hfr,fun x y a ha => ?_⟩,fun _ _ => rfl⟩
    by_cases hfs : vesaLfbVirtual+4096 ≤ a
    · exact hab x y a ha hfs
    · change a < s.heap.nextHeapVirt
      omega
  · exact ⟨h,fun _ _ => rfl⟩

/-- Each call keeps the pages apart, and those of the devices do not touch the regions. -/
theorem Sound.step (h : Sound s) (hst : act s c = some t) (hlv : OnLive s c)
    (hsp : Separate s c) : Sound t ∧ (c.ofDevice = true → RegionsKept s t) := by
  cases c with
  | kmalloc size => exact ⟨h.kmalloc hst hsp,fun hdv => by cases hdv⟩
  | kfree ptr =>
    cases hst
    exact ⟨h.headers (sameState_kfree _ ptr),fun hdv => by cases hdv⟩
  | setMode mode info =>
    have hset := h.setMode hsp hst
    exact ⟨hset.1,fun _ => hset.2⟩
  | uhciAlloc =>
    have hal := h.uhciAlloc hsp hst
    exact ⟨hal.1,fun _ => hal.2⟩
  | uhciPhysToVirt phys =>
    have hsm : t = s := by
      cases hst
      rw [(h.window phys hlv).uhciPhysToVirt]
      rfl
    subst hsm
    exact ⟨h,fun _ _ _ => rfl⟩
  | uhciFree phys =>
    have hfr := h.uhciFree hlv hst
    exact ⟨hfr.1,fun _ => hfr.2⟩

end Steps

/-- What devices and heap can rely on in one state: a VESA mode has its whole framebuffer, the
addresses of the pages of the driver lead to them, and no call of a device touches the regions of
the heap. -/
structure Reaching (s : Machine) : Prop where
  framebuffer : s.display.currentMode = .vesa → Framed s.paging s.display
  pages : ∀ p ∈ s.uhci, (uhciPhysToVirt s.paging p).1 ≠ 0 →
    (uhciPhysToVirt s.paging p).2.translate (uhciPhysToVirt s.paging p).1 = some p
  regions : ∀ c t, c.ofDevice = true → OnLive s c → Separate s c → act s c = some t →
    RegionsKept s t

/-- In runs that keep the three modules apart the devices are reached and displace nothing. -/
theorem devices_reached (h : Reach (deviceRuns.guarded Separate) s) : Reaching s := by
  have hsn : Sound s := by
    refine h.invariant Sound (fun _ => Sound.initialised) ?_
    rintro s c t hs ⟨⟨hst,hlv⟩,hsp⟩
    exact (hs.step hst hlv hsp).1
  refine ⟨fun hmd => (hsn.framed hmd).1,?_,?_⟩
  · intro p hp _
    have hwn := hsn.window p hp
    rw [hwn.uhciPhysToVirt,Paging.translate,hwn.mapped]
    have hvr := uhciVirt_low hwn.low
    have hal := frame_aligned hwn.held
    have hsr : kernelHeapStart % 4096 = 0 := rfl
    have hzr : uhciVirt p % 4096 = 0 := by omega
    rw [hzr]
    rfl
  · intro c t hdv hlv hsp hst
    exact (hsn.step hst hlv hsp).2 hdv

/-- A machine with the smallest memory, nothing of it in use. -/
def bareMachine : Machine where
  heap := kmallocInit ⟨⟨fun _ => none,⟨fun _ => 0,pmmTotalPagesMin,frameAddr pmmTotalPagesMin,0⟩⟩,
    fun _ => 0,0,0⟩
  regions := []
  uhci := []
  display := ⟨.vgaText,0,0,0,0,0⟩

lemma bareMachine_initialised : Initialised bareMachine :=
  ⟨⟨_,rfl⟩,rfl,rfl,by decide,⟨le_rfl,by decide,rfl⟩,fun _ _ _ => rfl⟩

/-- A mode info of 6144 by 1 pixels of 24 bits whose framebuffer is the first frame of the pool. -/
def lowMode : ModeInfo := fun i => if i = 0x13 then 24 else if i = 0x14 then 1 else
  if i = 0x24 then 0x30 else 0

lemma lowMode_read :
    Accepted lowMode ∧ readModeInfoLe32 lowMode vbeModeInfoLfb = 0x00300000 ∧
      modeDisplay lowMode = ⟨.vesa,6144,1,24,vesaLfbVirtual,0x00300000⟩ := by
  refine ⟨?_,by decide,?_⟩
  · unfold Accepted
    decide
  · rw [modeDisplay]
    simp only [Display.mk.injEq]
    decide

/-- A heap whose first region is the framebuffer of the mode, and a page of the driver. -/
theorem devices_reached_two_pages :
    ∃ s, Reach (deviceRuns.guarded Separate) s ∧ s.uhci = [0x00306000] ∧
      s.regions = [(0xFFFF800000000000,0xFFFF800000006000)] ∧ s.display.currentMode = .vesa ∧
      Reaching s := by
  have hrun : ((act bareMachine (.kmalloc 24000)).bind fun s =>
      (act s (.setMode 2 lowMode)).bind fun t => (act t .uhciAlloc).map fun u =>
        decide ((∀ k ∈ List.range 6,
            s.paging.pages (vesaLfbVirtual / 4096+k) = some (0x00300000+4096*k)) ∧
          t.regions = [(0xFFFF800000000000,0xFFFF800000006000)] ∧
          (pmmAllocLow t.paging.pmm 1).1 = 0x00306000 ∧ u.uhci = [0x00306000] ∧
          u.regions = [(0xFFFF800000000000,0xFFFF800000006000)] ∧
          u.display.currentMode = .vesa)) = some true := by
    decide
  obtain ⟨s,hs,hrun⟩ := Option.bind_eq_some_iff.mp hrun
  obtain ⟨t,ht,hrun⟩ := Option.bind_eq_some_iff.mp hrun
  obtain ⟨u,hu,hfl⟩ := Option.map_eq_some_iff.mp hrun
  obtain ⟨hpg,hrt,hlow,huh,hru,hmd⟩ := of_decide_eq_true hfl
  obtain ⟨-,hlfb,hds⟩ := lowMode_read
  have hal : vesaLfbVirtual % 4096 = 0 := rfl
  have htr : ∀ a, vesaLfbVirtual ≤ a → a < vesaLfbVirtual+6*4096 →
      s.paging.translate a = some (0x00300000+(a-vesaLfbVirtual)) := by
    intro a hle hlt
    have hpn : a / 4096 = vesaLfbVirtual / 4096+(a-vesaLfbVirtual) / 4096 := by omega
    rw [Paging.translate,hpn,hpg _ (List.mem_range.mpr (by omega)),Option.map_some]
    exact congrArg some (by omega)
  have hrc : Reach (deviceRuns.guarded Separate) u := by
    refine ⟨_,.next (.next (.next (.start bareMachine_initialised) ⟨⟨hs,trivial⟩,?_⟩)
      ⟨⟨ht,trivial⟩,?_⟩) ⟨⟨hu,trivial⟩,?_⟩⟩
    · intro _ p hp
      cases hp
    · intro _ _
      rw [hlfb,hds]
      refine ⟨rfl,fun _ => htr _ le_rfl (Nat.lt_add_of_pos_right (by decide)),?_⟩
      intro x y a ha hle
      obtain ⟨hlow,hlt⟩ := pixelBytes_offset ha
      exact htr a hlow hlt
    · rintro - ⟨b,e,hmem,hb,he⟩
      rw [hrt,List.mem_singleton] at hmem
      cases hmem
      rw [hlow] at he
      exact absurd he (by decide)
  exact ⟨u,hrc,huh,hru,hmd,devices_reached hrc⟩

/-- A mode info as a card may report it: 6144 by 1 pixels of 24 bits at one gigabyte. -/
def wideMode : ModeInfo := fun i => if i = 0x13 then 24 else if i = 0x14 then 1 else
  if i = 0x25 then 0x40 else 0

/-- One block of the heap and a VESA mode: the framebuffer takes the first page of the heap, and
only the first page of the framebuffer is mapped. -/
theorem vesa_displaces_heap :
    ∃ s t, Trace deviceRuns [.kmalloc 64] s ∧ act s (.setMode 2 wideMode) = some t ∧
      (displaySetMode s 2 wideMode).1 = 0 ∧ ¬ RegionsKept s t ∧ ¬ Framed t.paging t.display := by
  have hrun : ((act bareMachine (.kmalloc 64)).bind fun s =>
      (act s (.setMode 2 wideMode)).map fun t =>
      decide (s.regions = [(vesaLfbVirtual,vesaLfbVirtual+4096)] ∧
        s.paging.translate vesaLfbVirtual = some 0x00300000 ∧
        (displaySetMode s 2 wideMode).1 = 0 ∧
        t.paging.translate vesaLfbVirtual = some 0x40000000 ∧
        t.paging.translate (vesaLfbVirtual+4096) = none ∧
        vesaLfbVirtual+4096 ∈ pixelBytes t.display 1365 0)) = some true := by
    decide
  obtain ⟨s,hs,hrun⟩ := Option.bind_eq_some_iff.mp hrun
  obtain ⟨t,ht,hfl⟩ := Option.map_eq_some_iff.mp hrun
  obtain ⟨hrg,hbf,hac,haf,hnx,hpx⟩ := of_decide_eq_true hfl
  refine ⟨s,t,.next (.start bareMachine_initialised) ⟨hs,trivial⟩,ht,hac,?_,?_⟩
  · intro hkp
    have hsm := hkp vesaLfbVirtual ⟨_,_,by rw [hrg]; exact List.mem_singleton.mpr rfl,le_rfl,
      Nat.lt_add_of_pos_right (by decide)⟩
    rw [hbf,haf] at hsm
    cases hsm
  · intro hfr
    have hby := hfr 1365 0 _ hpx
    rw [hnx] at hby
    cases hby

end HarlinKernel.DeviceWindows
