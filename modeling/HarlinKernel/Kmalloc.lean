import HarlinKernel.RecordMemory
import HarlinKernel.PageMapping

/-! The kernel heap of `mem/kmalloc.c`: `kmalloc`, `kfree` and `ksize` over a list of blocks
with headers in memory. The bytes of the heap are addressed by their virtual addresses. The
paging below it is a parameter; the page tables and the frame bitmap of `PageTable` and
`PageAllocator` are one. The lock of the heap is not modelled, each call runs alone. -/
namespace HarlinKernel.Kmalloc

open Bitmap PageAllocator PageTable RecordMemory

def kmallocMinSize : ℕ := 16
def kmallocMaxSize : ℕ := 0x100000
def kernelHeapStart : ℕ := 0xFFFF800000000000
def kmallocBlockMagic : ℕ := 0x48414E44

/-- The members of `struct kmalloc_block`. -/
inductive Field
  | magic
  | size
  | used
  | pages
  | baseVirt
  | next
  | prev
  deriving DecidableEq

def Field.offset : Field → ℕ
  | .magic => 0
  | .size => 4
  | .used => 8
  | .pages => 12
  | .baseVirt => 16
  | .next => 24
  | .prev => 32

def Field.width : Field → ℕ
  | .magic | .size | .used | .pages => 4
  | .baseVirt | .next | .prev => 8

/-- `sizeof(struct kmalloc_block)`. -/
def headerSize : ℕ := 40

def kmallocBlock : Layout Field where
  offset := Field.offset
  width := Field.width
  size := headerSize
  inside := by intro f; cases f <;> decide
  apart := by intro f g; cases f <;> cases g <;> decide

/-- What the heap calls of the paging; `vmm_map` is called for present and writable pages. -/
class PageMap (V : Type) where
  pmmAlloc : V → ℕ × V
  pmmFree : V → ℕ → V
  vmmMap : V → ℕ → ℕ → V
  vmmUnmap : V → ℕ → V
  vmmGetPhys : V → ℕ → ℕ

instance : PageMap Vmm where
  pmmAlloc := allocPage
  pmmFree s addr := { s with pmm := PageAllocator.pmmFree s.pmm addr }
  vmmMap s virt phys := (PageTable.vmmMap s virt phys (vmmPresent ||| vmmWritable)).2
  vmmUnmap := PageTable.vmmUnmap
  vmmGetPhys := vmmGetPhysLocked

structure Heap (V : Type) where
  vmm : V
  mem : Memory
  kmallocHead : ℕ
  nextHeapVirt : ℕ

section Model

variable {V : Type}

def kmallocInit (h : Heap V) : Heap V :=
  { h with
    kmallocHead := 0
    nextHeapVirt := kernelHeapStart }

/-- `block->f`. -/
def Heap.field (h : Heap V) (block : ℕ) (f : Field) : ℕ := kmallocBlock.record h.mem block f

/-- `block->f = value`. -/
def Heap.setField (h : Heap V) (block : ℕ) (f : Field) (value : ℕ) : Heap V :=
  { h with mem := kmallocBlock.set h.mem block f value }

/-- The members of a header, in the order of the struct but for the magic number. -/
def header (size used pages baseVirt next prev : ℕ) : Field → ℕ
  | .magic => kmallocBlockMagic
  | .size => size
  | .used => used
  | .pages => pages
  | .baseVirt => baseVirt
  | .next => next
  | .prev => prev

/-- Assignments to all members of a header, one after the other. -/
def Heap.writeHeader (h : Heap V) (block : ℕ) (values : Field → ℕ) : Heap V :=
  [.magic,.size,.used,.pages,.baseVirt,.next,.prev].foldl
    (fun h f => h.setField block f (values f)) h

/-- `if (block) block->prev = value`. -/
def Heap.setPrevOf (h : Heap V) (block value : ℕ) : Heap V :=
  if block ≠ 0 then h.setField block .prev value else h

/-- The first `i` pages of a region are given back, last page first. -/
def unwindPages [PageMap V] (s : V) (virt : ℕ) : ℕ → V
  | 0 => s
  | i+1 =>
    let page := (virt+i*4096) % 2^64
    let phys := PageMap.vmmGetPhys s page
    let t := PageMap.vmmUnmap s page
    unwindPages (if phys ≠ 0 then PageMap.pmmFree t phys else t) virt i

/-- The loop of `map_pages` with `n` pages to go; what `vmm_map` returns is not looked at. -/
def mapPagesFrom [PageMap V] (s : V) (virt i : ℕ) : ℕ → ℤ × V
  | 0 => (0,s)
  | n+1 =>
    let phys := PageMap.pmmAlloc s
    if phys.1 = 0 then (-1,unwindPages phys.2 virt i)
    else mapPagesFrom (PageMap.vmmMap phys.2 ((virt+i*4096) % 2^64) phys.1) virt (i+1) n

def mapPages [PageMap V] (s : V) (virt size : ℕ) : ℤ × V :=
  mapPagesFrom s virt 0 ((size+4095) / 4096)

/-- The bytes that `create_block` maps for a request. -/
def regionTotal (size : ℕ) : ℕ :=
  let total := (headerSize+size) % 2^32
  let total := if total < 4096 then 4096 else total
  (total+4095) % 2^32 &&& 0xFFFFF000

def createBlock [PageMap V] (h : Heap V) (size : ℕ) : ℕ × Heap V :=
  let total := regionTotal size
  let virt := h.nextHeapVirt
  let mapped := mapPages h.vmm virt total
  if mapped.1 ≠ 0 then (0,{ h with vmm := mapped.2 })
  else
    let h : Heap V :=
      { h with
        vmm := mapped.2
        nextHeapVirt := (virt+total) % 2^64 }
    (virt,h.writeHeader virt (header (total-headerSize) 0 (total / 4096) virt 0 0))

/-- The first free block of the list that is large enough, `0` at its end; `none` when the
walk is longer than the fuel. -/
def findBlock (h : Heap V) (size : ℕ) : ℕ → ℕ → Option ℕ
  | 0, _ => none
  | fuel+1, block =>
    if block = 0 then some 0
    else if h.field block .used = 0 ∧ size ≤ h.field block .size then some block
    else findBlock h size fuel (h.field block .next)

/-- The tail of a block that is much larger than the request becomes a free block. -/
def splitBlock (h : Heap V) (block size : ℕ) : Heap V :=
  if size+headerSize+kmallocMinSize ≤ h.field block .size then
    let remaining := (block+headerSize+size) % 2^64
    let h := h.writeHeader remaining
      (header (h.field block .size-size-headerSize) 0 (h.field block .pages)
        (h.field block .baseVirt) (h.field block .next) block)
    let h := h.setPrevOf (h.field block .next) remaining
    let h := h.setField block .next remaining
    h.setField block .size size
  else h

/-- A new region, its only block at the head of the list and in use. -/
def growHeap [PageMap V] (h : Heap V) (size : ℕ) : ℕ × Heap V :=
  let created := createBlock h (size % 2^32)
  let block := created.1
  if block = 0 then (0,created.2)
  else
    let h := created.2.setField block .next created.2.kmallocHead
    let h := h.setPrevOf h.kmallocHead block
    let h := { h with kmallocHead := block }
    ((block+headerSize) % 2^64,h.setField block .used 1)

/-- The walk over the list has as many steps as the heap has bytes, which is more than it
has blocks; a list that is longer than that is cyclic and the call does not return. -/
def kmalloc [PageMap V] (h : Heap V) (size : ℕ) : Option (ℕ × Heap V) :=
  if size = 0 ∨ kmallocMaxSize < size then some (0,h)
  else
    match findBlock h size (h.nextHeapVirt-kernelHeapStart+1) h.kmallocHead with
    | none => none
    | some 0 => some (growHeap h size)
    | some block =>
      some ((block+headerSize) % 2^64,(splitBlock h block size).setField block .used 1)

/-- No block of the list serves the request, which makes the heap grow. -/
def Grows (h : Heap V) (size : ℕ) : Prop :=
  size ≠ 0 ∧ findBlock h size (h.nextHeapVirt-kernelHeapStart+1) h.kmallocHead = some 0

instance (h : Heap V) (size : ℕ) : Decidable (Grows h size) := inferInstanceAs (Decidable (_ ∧ _))

/-- A block and the free block behind it in the list become one. -/
def mergeNext (h : Heap V) (block : ℕ) : Heap V :=
  if h.field block .next ≠ 0 ∧ h.field (h.field block .next) .used = 0 then
    let h := h.setField block .size
      (h.field block .size+(headerSize+h.field (h.field block .next) .size))
    let h := h.setField block .next (h.field (h.field block .next) .next)
    h.setPrevOf (h.field block .next) block
  else h

/-- A block and the free block before it in the list become one. -/
def mergePrev (h : Heap V) (block : ℕ) : Heap V :=
  if h.field block .prev ≠ 0 ∧ h.field (h.field block .prev) .used = 0 then
    let h := h.setField (h.field block .prev) .size
      (h.field (h.field block .prev) .size+(headerSize+h.field block .size))
    let h := h.setField (h.field block .prev) .next (h.field block .next)
    h.setPrevOf (h.field block .next) (h.field block .prev)
  else h

/-- The header in front of a pointer. -/
def headerOf (ptr : ℕ) : ℕ := (ptr+2^64-headerSize) % 2^64

def kfree (h : Heap V) (ptr : ℕ) : Heap V :=
  if ptr = 0 then h
  else if h.field (headerOf ptr) .magic ≠ kmallocBlockMagic then h
  else mergePrev (mergeNext (h.setField (headerOf ptr) .used 0) (headerOf ptr)) (headerOf ptr)

def ksize (h : Heap V) (ptr : ℕ) : ℕ :=
  if ptr = 0 then 0
  else if h.field (headerOf ptr) .magic ≠ kmallocBlockMagic then 0
  else h.field (headerOf ptr) .size

/-- A region as the only new block of the list, at its head and in use. -/
def pushed (h : Heap V) (block total : ℕ) : Heap V :=
  let t := h.writeHeader block (header (total-headerSize) 0 (total / 4096) block 0 0)
  let t := (t.setField block .next h.kmallocHead).setPrevOf h.kmallocHead block
  { t with kmallocHead := block }.setField block .used 1

lemma growHeap_eq [PageMap V] {h : Heap V} {size : ℕ} (hsz : size ≤ kmallocMaxSize)
    (hne : h.nextHeapVirt ≠ 0) :
    let total := regionTotal size
    let mapped := mapPages h.vmm h.nextHeapVirt total
    let cursor := (h.nextHeapVirt+total) % 2^64
    growHeap h size =
      if mapped.1 ≠ 0 then (0,{ h with vmm := mapped.2 })
      else
        ((h.nextHeapVirt+headerSize) % 2^64,
          pushed { h with vmm := mapped.2, nextHeapVirt := cursor } h.nextHeapVirt total) := by
  have hsz' : size % 2^32 = size := Nat.mod_eq_of_lt (by rw [kmallocMaxSize] at hsz; omega)
  rw [growHeap,hsz',createBlock]
  by_cases hrc : (mapPages h.vmm h.nextHeapVirt (regionTotal size)).1 = 0
  · simp only [hrc,ne_eq,not_true_eq_false,if_false,hne]
    rfl
  · simp only [hrc,ne_eq,not_false_eq_true,if_true]

end Model

section Frames

variable {p p' : Pmm} {s : Vmm}

/-- The number of frames that are in use. -/
def takenFrames (p : Pmm) : ℕ :=
  ((Finset.range p.totalPages).filter fun i => get p.bitmap i = true).card

lemma takenFrames_le (p : Pmm) : takenFrames p ≤ p.totalPages := by
  have hcr := Finset.card_filter_le (Finset.range p.totalPages) fun i => get p.bitmap i = true
  rwa [Finset.card_range] at hcr

lemma Shrunk.takenFrames_le (h : Shrunk p p') : takenFrames p ≤ takenFrames p' := by
  apply Finset.card_le_card
  intro i hi
  simp only [Finset.mem_filter,Finset.mem_range] at hi ⊢
  refine ⟨h.total ▸ hi.1,?_⟩
  by_contra hcl
  obtain ⟨j,-,heq,hbit⟩ := h.free (frameAddr i) ⟨i,h.total ▸ hi.1,rfl,by simpa using hcl⟩
  rw [← frameIndex_frameAddr i,heq,frameIndex_frameAddr,hbit] at hi
  exact Bool.false_ne_true hi.2

lemma Taken.takenFrames {base : ℕ} (h : Taken p base 1 p') :
    takenFrames p' = takenFrames p+1 := by
  have hfr : get p.bitmap base = false := h.run.free base le_rfl (by omega)
  have hin := h.run.inside
  have hset : ((Finset.range p'.totalPages).filter fun i => get p'.bitmap i = true) =
      insert base ((Finset.range p.totalPages).filter fun i => get p.bitmap i = true) := by
    ext i
    have hone : base ≤ i ∧ i < base+1 ↔ i = base := by omega
    simp only [Finset.mem_filter,Finset.mem_range,Finset.mem_insert,h.total,h.bits,hone,
      Bool.or_eq_true,decide_eq_true_eq]
    constructor
    · rintro ⟨hi,rfl | hbit⟩
      · exact .inl rfl
      · exact .inr ⟨hi,hbit⟩
    · rintro (rfl | ⟨hi,hbit⟩)
      · exact ⟨hin,.inl rfl⟩
      · exact ⟨hi,.inr hbit⟩
  rw [Kmalloc.takenFrames,hset,Finset.card_insert_of_notMem (by simp [hfr]),Kmalloc.takenFrames]

lemma pmmFree_takenFrames (hs : Sized p) (addr : ℕ) :
    Sized (pmmFree p addr) ∧ takenFrames p ≤ takenFrames (pmmFree p addr)+1 := by
  rw [pmmFree]
  split_ifs with hlow
  · exact ⟨hs,Nat.le_succ _⟩
  dsimp only
  split_ifs with hhg
  · exact ⟨hs,Nat.le_succ _⟩
  refine ⟨⟨hs.min,hs.max,hs.top⟩,?_⟩
  have hsub : ((Finset.range p.totalPages).filter fun i => get p.bitmap i = true) ⊆
      insert (frameIndex addr % 2^32) ((Finset.range p.totalPages).filter fun i =>
        get (clearBit p.bitmap (frameIndex addr % 2^32)) i = true) := by
    intro i hi
    simp only [Finset.mem_filter,Finset.mem_insert,get_clearBit,Bool.and_eq_true,
      decide_eq_true_eq] at hi ⊢
    by_cases hidx : i = frameIndex addr % 2^32
    · exact .inl hidx
    · exact .inr ⟨hi.1,hidx,hi.2⟩
  exact (Finset.card_le_card hsub).trans (Finset.card_insert_le _ _)

lemma unwindPages_succ (s : Vmm) (virt i : ℕ) :
    let page := (virt+i*4096) % 2^64
    let phys := vmmGetPhysLocked s page
    let t := vmmUnmap s page
    unwindPages s virt (i+1) =
      unwindPages (if phys ≠ 0 then { t with pmm := pmmFree t.pmm phys } else t) virt i :=
  rfl

lemma mapPagesFrom_succ (s : Vmm) (virt i n : ℕ) :
    let phys := allocPage s
    mapPagesFrom s virt i (n+1) =
      if phys.1 = 0 then (-1,unwindPages phys.2 virt i)
      else mapPagesFrom (vmmMap phys.2 ((virt+i*4096) % 2^64) phys.1
        (vmmPresent ||| vmmWritable)).2 virt (i+1) n :=
  rfl

lemma unwindPages_frames (hs : Sized s.pmm) (virt i : ℕ) :
    Sized (unwindPages s virt i).pmm ∧
    takenFrames s.pmm ≤ takenFrames (unwindPages s virt i).pmm+i := by
  induction i generalizing s with
  | zero => exact ⟨hs,le_rfl⟩
  | succ i ih =>
    rw [unwindPages_succ]
    have hpmm := vmmUnmap_pmm s ((virt+i*4096) % 2^64)
    split_ifs with hph
    · obtain ⟨hsz,hcn⟩ := pmmFree_takenFrames hs (vmmGetPhysLocked s ((virt+i*4096) % 2^64))
      rw [← hpmm] at hsz hcn
      generalize vmmUnmap s ((virt+i*4096) % 2^64) = t at hpmm hsz hcn ⊢
      obtain ⟨hsz',hcn'⟩ := ih (s:={ t with pmm := pmmFree t.pmm _ }) hsz
      refine ⟨hsz',?_⟩
      rw [← hpmm]
      dsimp only at hcn'
      omega
    · rw [← hpmm] at hs ⊢
      obtain ⟨hsz,hcn⟩ := ih hs
      exact ⟨hsz,by omega⟩

lemma mapPagesFrom_frames (hs : Sized s.pmm) (virt i n : ℕ) :
    Sized (mapPagesFrom s virt i n).2.pmm ∧ ((mapPagesFrom s virt i n).1 = 0 →
    takenFrames s.pmm+n ≤ takenFrames (mapPagesFrom s virt i n).2.pmm) ∧
    takenFrames s.pmm ≤ takenFrames (mapPagesFrom s virt i n).2.pmm+i := by
  induction n generalizing s i with
  | zero => exact ⟨hs,fun _ => le_rfl,Nat.le_add_right _ _⟩
  | succ n ih =>
    rw [mapPagesFrom_succ]
    rcases allocPage_spec hs with hfl | ⟨base,hbs,htk⟩
    · obtain ⟨hsz,hcn⟩ := unwindPages_frames hs virt i
      simp only [hfl,if_true]
      exact ⟨hsz,fun h => absurd h (by decide),hcn⟩
    have hne : (allocPage s).1 ≠ 0 := hbs ▸ frameAddr_ne_zero base
    have hmap := vmmMap_pmm (htk.sized hs) ((virt+i*4096) % 2^64) (allocPage s).1
      (vmmPresent ||| vmmWritable)
    obtain ⟨hsz,hdn,hlf⟩ := ih hmap.sized (i+1)
    have hone := Taken.takenFrames htk
    have hgr := Shrunk.takenFrames_le hmap
    simp only [hne,if_false]
    refine ⟨hsz,fun h => ?_,?_⟩
    · omega
    · omega

/-- Pages that were mapped have taken a frame each, and a failed call gives back no more
frames than it took. -/
theorem mapPages_frames (hs : Sized s.pmm) (virt size : ℕ) :
    Sized (mapPages s virt size).2.pmm ∧
    ((mapPages s virt size).1 = 0 →
      takenFrames s.pmm+(size+4095) / 4096 ≤ takenFrames (mapPages s virt size).2.pmm) ∧
    takenFrames s.pmm ≤ takenFrames (mapPages s virt size).2.pmm :=
  mapPagesFrom_frames hs virt 0 _

end Frames

end HarlinKernel.Kmalloc
