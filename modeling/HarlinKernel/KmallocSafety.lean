import HarlinKernel.KmallocBlocks
import HarlinKernel.TransitionSystem

/-! Runs of the kernel heap. `kfree` merges a block with a free neighbour of the list without
looking where the neighbour lies; as long as merged neighbours come from one region, the blocks
tile the regions and what callers hold does not overlap. -/
namespace HarlinKernel.Kmalloc

open PageAllocator PageTable RecordMemory TransitionSystem

/-- The heap, the pointers that callers hold and the regions that `create_block` has mapped,
as base and end, newest first. -/
structure HeapRun where
  heap : Heap Vmm
  live : List ℕ
  regions : List (ℕ × ℕ)

inductive Call
  | kmalloc (size : ℕ)
  | kfree (ptr : ℕ)
  | write (ptr offset : ℕ) (byte : UInt8)

/-- The state after a request, from what `kmalloc` returned and the heap it left. -/
def afterKmalloc (s : HeapRun) (r : ℕ × Heap Vmm) : HeapRun where
  heap := r.2
  live := if r.1 = 0 then s.live else r.1 :: s.live
  regions :=
    if r.2.nextHeapVirt = s.heap.nextHeapVirt then s.regions
    else (s.heap.nextHeapVirt,r.2.nextHeapVirt) :: s.regions

/-- One call, or a byte that a caller stores. A call that does not return leads nowhere. -/
def act (s : HeapRun) : Call → Option HeapRun
  | .kmalloc size => (kmalloc s.heap size).map (afterKmalloc s)
  | .kfree ptr =>
    some { s with
      heap := kfree s.heap ptr
      live := s.live.erase ptr }
  | .write ptr offset byte =>
    some { s with
      heap := { s.heap with mem := Function.update s.heap.mem (ptr+offset) byte } }

/-- `kmalloc_init`, with any page tables and any contents of the memory. -/
def Initialised (s : HeapRun) : Prop :=
  ∃ h, s = ⟨kmallocInit h,[],[]⟩ ∧ Sized h.vmm.pmm

/-- Callers free what they hold and store inside it. -/
def Proper (s : HeapRun) : Call → Prop
  | .kmalloc _ => True
  | .kfree ptr => ptr = 0 ∨ ptr ∈ s.live
  | .write ptr offset _ => ptr ∈ s.live ∧ offset < ksize s.heap ptr

instance (s : HeapRun) (c : Call) : Decidable (Proper s c) := by
  cases c <;> simp only [Proper] <;> infer_instance

def heapRuns : System HeapRun Call := (actions Initialised act).guarded Proper

/-- The free neighbours that `kfree` would merge with the block lie in its region. -/
def MergesInRegion (h : Heap Vmm) (block : ℕ) : Prop :=
  (h.field block .next ≠ 0 → h.field (h.field block .next) .used = 0 →
      h.field (h.field block .next) .baseVirt = h.field block .baseVirt) ∧
    (h.field block .prev ≠ 0 → h.field (h.field block .prev) .used = 0 →
      h.field (h.field block .prev) .baseVirt = h.field block .baseVirt)

def NeighboursInRegion (s : HeapRun) : Call → Prop
  | .kfree ptr => ptr ≠ 0 → MergesInRegion s.heap (headerOf ptr)
  | _ => True

instance (h : Heap Vmm) (block : ℕ) : Decidable (MergesInRegion h block) :=
  inferInstanceAs (Decidable (_ ∧ _))

instance (s : HeapRun) (c : Call) : Decidable (NeighboursInRegion s c) := by
  cases c <;> simp only [NeighboursInRegion] <;> infer_instance

/-- The headers in memory link the listed blocks, which tile the regions. -/
structure Tiled (h : Heap Vmm) (bs : List Block) (regions : List (ℕ × ℕ)) : Prop where
  listed : Listed h 0 bs 0
  head : h.kmallocHead = firstAddr bs
  stacked : ∃ rs, Stacked rs h.nextHeapVirt ∧ blocksOf rs = bs ∧ bounds rs h.nextHeapVirt = regions

/-- The payloads of the live pointers do not overlap, each lies with its header in one region,
and the blocks of the list tile the regions. -/
structure Safe (s : HeapRun) : Prop where
  disjoint : s.live.Pairwise fun p q => p+ksize s.heap p ≤ q ∨ q+ksize s.heap q ≤ p
  inside : ∀ p ∈ s.live, ∃ base e, (base,e) ∈ s.regions ∧ base+headerSize ≤ p ∧
    p+ksize s.heap p ≤ e
  tiled : ∃ bs, Tiled s.heap bs s.regions

/-- The pointers to the blocks in use. -/
def pointers (bs : List Block) : List ℕ :=
  (bs.filter fun b => b.used ≠ 0).map fun b => b.addr+headerSize

@[simp] lemma pointers_append (xs ys : List Block) :
    pointers (xs ++ ys) = pointers xs ++ pointers ys := by
  simp [pointers]

variable {b : Block} {s : HeapRun} {size ptr : ℕ} {h : Heap Vmm}

lemma pointers_used (h : b.used ≠ 0) (bs : List Block) :
    pointers (b :: bs) = (b.addr+headerSize) :: pointers bs := by
  simp [pointers,h]

lemma pointers_free (h : b.used = 0) (bs : List Block) : pointers (b :: bs) = pointers bs := by
  simp [pointers,h]

/-- What holds after each step: live pointers are the blocks in use, and every page of the
heap has taken a frame. -/
structure Sound (s : HeapRun) (bs : List Block) : Prop where
  tiled : Tiled s.heap bs s.regions
  live : s.live.Perm (pointers bs)
  sized : Sized s.heap.vmm.pmm
  frames : s.heap.nextHeapVirt ≤ kernelHeapStart+4096*takenFrames s.heap.vmm.pmm

/-- What `kmalloc` stores in two members of a header. -/
def Small (b : Block) : Prop := b.used ≤ 1 ∧ b.pages < 2^20

/-- A request leaves blocks at the places of the old ones, and stores into their headers only. -/
structure Kept (h : Heap Vmm) (bs : List Block) (t : Heap Vmm) (bs' : List Block) : Prop where
  addr : ∀ b ∈ bs, ∃ c ∈ bs', c.addr = b.addr
  small : (∀ b ∈ bs, Small b) → ∀ c ∈ bs', Small c
  mem : ∀ x, (∀ c ∈ bs', ¬ Covers c.addr x) → t.mem x = h.mem x

lemma Kept.refl (h : Heap Vmm) (bs : List Block) : Kept h bs h bs :=
  ⟨fun b hb => ⟨b,hb,rfl⟩,fun hsm => hsm,fun _ _ => rfl⟩

section Tiled

variable {h t : Heap Vmm} {bs pre post : List Block} {b c : Block} {regions : List (ℕ × ℕ)} {v : ℕ}

lemma Sound.next_lt (hs : Sound s bs) : s.heap.nextHeapVirt < 2^64 := by
  have hfr := hs.frames
  have htl := (takenFrames_le s.heap.vmm.pmm).trans hs.sized.max
  rw [pmmMaxPages] at htl
  rw [kernelHeapStart] at hfr
  omega

lemma Tiled.separated (ht : Tiled h bs regions) (hnx : h.nextHeapVirt < 2^64) :
    Separated bs := by
  obtain ⟨rs,hst,rfl,-⟩ := ht.stacked
  exact hst.separated hnx

lemma Tiled.field (ht : Tiled h bs regions) (hb : b ∈ bs) :
    ∃ prev next, h.field b.addr = b.header prev next := by
  obtain ⟨xs,ys,rfl⟩ := List.append_of_mem hb
  exact ⟨_,_,ht.listed.field⟩

lemma Tiled.stop_le (ht : Tiled h bs regions) (hb : b ∈ bs) :
    kernelHeapStart ≤ b.addr ∧ b.stop ≤ h.nextHeapVirt ∧ b.size < 2^32 := by
  obtain ⟨rs,hst,rfl,-⟩ := ht.stacked
  obtain ⟨e,-,hlow,hhg,hln,hsr,he⟩ := hst.inside hb
  simp only [Block.stop,Block.span] at hhg ⊢
  omega

lemma headerOf_pointer {a : ℕ} (ha : a < 2^64) : headerOf (a+headerSize) = a := by
  rw [headerOf]
  omega

lemma ksize_pointer (ht : Tiled h bs regions) (hnx : h.nextHeapVirt < 2^64) (hb : b ∈ bs) :
    ksize h (b.addr+headerSize) = b.size := by
  obtain ⟨prev,next,hfl⟩ := ht.field hb
  have had := ((ht.separated hnx).addr b hb).2
  rw [ksize,if_neg (by rw [headerSize]; omega),headerOf_pointer had,hfl]
  exact if_neg fun hmg => hmg rfl

lemma mem_pointers {p : ℕ} : p ∈ pointers bs ↔ ∃ b ∈ bs, b.used ≠ 0 ∧ b.addr+headerSize = p := by
  simp [pointers,and_assoc]

lemma Sound.safe (hs : Sound s bs) : Safe s := by
  have hsz := fun b => ksize_pointer (b:=b) hs.tiled hs.next_lt
  obtain ⟨rs,hst,rfl,hbn⟩ := hs.tiled.stacked
  refine ⟨?_,?_,_,hs.tiled⟩
  · rw [hs.live.pairwise_iff Or.symm,pointers,List.pairwise_map]
    refine (hst.pairwise.filter _).imp_of_mem fun hx hy hxy => ?_
    rw [hsz _ (List.mem_of_mem_filter hx),hsz _ (List.mem_of_mem_filter hy)]
    simp only [Block.stop,Block.span] at hxy
    omega
  · intro p hp
    obtain ⟨b,hb,-,rfl⟩ := mem_pointers.1 (hs.live.mem_iff.1 hp)
    obtain ⟨e,hmem,hlow,hhg,-⟩ := hst.inside hb
    refine ⟨b.base,e,hbn ▸ hmem,Nat.add_le_add_right hlow _,?_⟩
    rw [hsz b hb,Nat.add_assoc]
    exact hhg

/-- Blocks of one region are cut in another way. -/
structure Recut (m m' : List Block) : Prop where
  ne : m ≠ []
  ne' : m' ≠ []
  region : ∃ base, (∀ x ∈ m, x.base = base) ∧ ∀ x ∈ m', x.base = base
  first : ∀ next, first Block.addr m' next = first Block.addr m next
  laid : ∀ a e, Laid a m e → Laid a m' e

lemma recut_used (b : Block) (v : ℕ) : Recut [b] [{ b with used := v }] where
  ne := List.cons_ne_nil b []
  ne' := List.cons_ne_nil _ []
  region := ⟨b.base,by simp,by simp⟩
  first _ := rfl
  laid _ _ h := h

lemma recut_split (hfit : size+headerSize ≤ b.size) :
    Recut [b] [{ b with size := size },b.rest size] where
  ne := List.cons_ne_nil b []
  ne' := List.cons_ne_nil _ _
  region := ⟨b.base,by simp,by simp [Block.rest]⟩
  first _ := rfl
  laid a e h := by
    simp only [Tiles,Block.span,Block.rest] at h ⊢
    omega

lemma recut_join (hbs : c.base = b.base) : Recut [b,c] [b.join c] where
  ne := List.cons_ne_nil b [c]
  ne' := List.cons_ne_nil _ []
  region := ⟨b.base,by simp [hbs],by simp [Block.join]⟩
  first _ := rfl
  laid a e h := by
    simp only [Tiles,Block.span,Block.join] at h ⊢
    omega

variable {m m' : List Block}

lemma Tiled.recut (ht : Tiled h (pre ++ (m ++ post)) regions) (hcut : Recut m m') :
    ∃ rs, Stacked rs h.nextHeapVirt ∧ blocksOf rs = pre ++ (m' ++ post) ∧
      bounds rs h.nextHeapVirt = regions := by
  obtain ⟨rs,hst,hfl,hbn⟩ := ht.stacked
  obtain ⟨base,hsm,hsm'⟩ := hcut.region
  obtain ⟨rs',hst',hfl',hbn'⟩ :=
    hst.replace hfl hcut.ne hsm hcut.ne' hsm' hcut.laid
  exact ⟨rs',hst',hfl',hbn'.trans hbn⟩

lemma Tiled.replace (ht : Tiled h (pre ++ (m ++ post)) regions) (hcut : Recut m m')
    (hsm : SameState h t) (hl : Listed t 0 (pre ++ (m' ++ post)) 0) :
    Tiled t (pre ++ (m' ++ post)) regions := by
  refine ⟨hl,?_,hsm.next ▸ ht.recut hcut⟩
  rw [hsm.head,ht.head]
  simp [first_append,hcut.first]

lemma Tiled.separated_recut (ht : Tiled h (pre ++ (m ++ post)) regions)
    (hcut : Recut m m') (hnx : h.nextHeapVirt < 2^64) : Separated (pre ++ (m' ++ post)) := by
  obtain ⟨rs,hst,hfl,-⟩ := ht.recut hcut
  exact hfl ▸ hst.separated hnx

lemma Tiled.setUsed (ht : Tiled h (pre ++ b :: post) regions) (hnx : h.nextHeapVirt < 2^64)
    (hv : v < 2^32) :
    Tiled (h.setField b.addr .used v) (pre ++ { b with used := v } :: post) regions :=
  Tiled.replace (m:=[b]) ht (recut_used b v) (SameState.refl h).setField
    (ht.listed.setUsed (ht.separated hnx) hv)

lemma Tiled.split (ht : Tiled h (pre ++ b :: post) regions) (hnx : h.nextHeapVirt < 2^64)
    (hfit : size+headerSize+kmallocMinSize ≤ b.size) : Tiled (splitBlock h b.addr size)
    (pre ++ { b with size := size } :: b.rest size :: post) regions := by
  have hcut : Recut [b] [{ b with size := size },b.rest size] := recut_split (by omega)
  have hsep := Tiled.separated_recut (m:=[b]) ht hcut hnx
  refine Tiled.replace (m:=[b]) ht hcut (sameState_splitBlock h _ _)
    (listed_split ht.listed (hsep.of_map ?_) hfit)
  simp

lemma Tiled.join (ht : Tiled h (pre ++ b :: c :: post) regions) (hnx : h.nextHeapVirt < 2^64)
    (hbs : c.base = b.base) :
    Tiled (absorb h b.addr (b.size+(headerSize+c.size)) (firstAddr post))
      (pre ++ b.join c :: post) regions := by
  have hcut : Recut [b,c] [b.join c] := recut_join hbs
  obtain ⟨rs,hst,hfl,-⟩ := Tiled.recut (m:=[b,c]) ht hcut
  obtain ⟨e,-,hlow,hhg,hln,-,-⟩ := hst.inside (b:=b.join c) (by rw [hfl]; simp)
  refine Tiled.replace (m:=[b,c]) ht hcut (sameState_absorb _ _ _ _)
    (listed_absorb ht.listed (ht.separated hnx) ?_)
  simp only [Block.stop,Block.span,Block.join] at hhg hlow hln
  omega

lemma Tiled.mergeNext (ht : Tiled h (pre ++ b :: post) regions) (hnx : h.nextHeapVirt < 2^64)
    (hrg : ∀ c cs, post = c :: cs → c.used = 0 → c.base = b.base) :
    ∃ size post', Tiled (mergeNext h b.addr) (pre ++ { b with size := size } :: post') regions ∧
      pointers post' = pointers post ∧ SameState h (mergeNext h b.addr) := by
  by_cases hfr : ∃ c cs, post = c :: cs ∧ c.used = 0
  · obtain ⟨c,cs,rfl,hc⟩ := hfr
    rw [mergeNext_free ht.listed (ht.separated hnx) hc]
    exact ⟨_,cs,ht.join hnx (hrg c cs rfl hc),(pointers_free hc cs).symm,
      sameState_absorb _ _ _ _⟩
  · rw [mergeNext_kept ht.listed fun c cs heq hc => hfr ⟨c,cs,heq,hc⟩]
    exact ⟨b.size,post,ht,rfl,.refl h⟩

lemma Tiled.mergePrev (ht : Tiled h (pre ++ b :: post) regions) (hnx : h.nextHeapVirt < 2^64)
    (hb : b.used = 0) (hrg : ∀ c cs, pre = cs ++ [c] → c.used = 0 → b.base = c.base) :
    ∃ bs, Tiled (mergePrev h b.addr) bs regions ∧ pointers bs = pointers (pre ++ post) ∧
      SameState h (mergePrev h b.addr) := by
  by_cases hfr : ∃ c cs, pre = cs ++ [c] ∧ c.used = 0
  · obtain ⟨c,cs,rfl,hc⟩ := hfr
    rw [List.append_assoc] at ht
    rw [mergePrev_free ht.listed (ht.separated hnx) hc]
    refine ⟨_,ht.join hnx (hrg c cs rfl hc),?_,sameState_absorb _ _ _ _⟩
    have hjn : (c.join b).used = 0 := hc
    simp only [pointers_append,pointers_free hc,pointers_free hjn,List.append_assoc]
    rfl
  · rw [mergePrev_kept ht.listed fun c cs heq hc => hfr ⟨c,cs,heq,hc⟩]
    refine ⟨_,ht,?_,.refl h⟩
    rw [pointers_append,pointers_free hb,pointers_append]

lemma Tiled.next_field (ht : Tiled h (pre ++ b :: c :: post) regions)
    (hnx : h.nextHeapVirt < 2^64) : h.field b.addr .next = c.addr ∧ c.addr ≠ 0 ∧
    h.field c.addr .used = c.used ∧ h.field c.addr .baseVirt = c.base := by
  have hfl : h.field c.addr = c.header b.addr (firstAddr post) := (chain_append.1 ht.listed).2.2.1
  refine ⟨?_,((ht.separated hnx).addr c (by simp)).1,by rw [hfl]; rfl,by rw [hfl]; rfl⟩
  rw [ht.listed.field]
  rfl

lemma Tiled.prev_field (ht : Tiled h (pre ++ [c] ++ b :: post) regions)
    (hnx : h.nextHeapVirt < 2^64) : h.field b.addr .prev = c.addr ∧ c.addr ≠ 0 ∧
    h.field c.addr .used = c.used ∧ h.field c.addr .baseVirt = c.base := by
  have hls := ht.listed
  rw [List.append_assoc] at hls
  have hfl : h.field c.addr = c.header (last Block.addr 0 pre) (firstAddr (b :: post)) := hls.field
  refine ⟨?_,((ht.separated hnx).addr c (by simp)).1,by rw [hfl]; rfl,by rw [hfl]; rfl⟩
  rw [ht.listed.field,last_append_singleton]
  rfl

lemma Tiled.neighbours (ht : Tiled h (pre ++ b :: post) regions) (hnx : h.nextHeapVirt < 2^64)
    (hrg : MergesInRegion h b.addr) : (∀ c cs, post = c :: cs → c.used = 0 → c.base = b.base) ∧
    ∀ c cs, pre = cs ++ [c] → c.used = 0 → b.base = c.base := by
  have hb : h.field b.addr .baseVirt = b.base := by
    rw [ht.listed.field]
    rfl
  obtain ⟨hnext,hprev⟩ := hrg
  constructor
  · rintro c cs rfl hc
    obtain ⟨hfl,hne,hus,hbs⟩ := ht.next_field hnx
    rw [hfl,hus,hbs,hb] at hnext
    exact hnext hne hc
  · rintro c cs rfl hc
    obtain ⟨hfl,hne,hus,hbs⟩ := ht.prev_field hnx
    rw [hfl,hus,hbs,hb] at hprev
    exact (hprev hne hc).symm

lemma kfree_pointer (ht : Tiled h bs regions) (hnx : h.nextHeapVirt < 2^64) (hb : b ∈ bs) :
    kfree h (b.addr+headerSize) =
      Kmalloc.mergePrev (Kmalloc.mergeNext (h.setField b.addr .used 0) b.addr) b.addr := by
  obtain ⟨prev,next,hfl⟩ := ht.field hb
  have had := ((ht.separated hnx).addr b hb).2
  rw [kfree,if_neg (by rw [headerSize]; omega),headerOf_pointer had,hfl]
  exact if_neg fun hmg => hmg rfl

/-- Freeing a live pointer, when the neighbours that are merged lie in its region. -/
theorem Tiled.kfree (ht : Tiled h (pre ++ b :: post) regions) (hnx : h.nextHeapVirt < 2^64)
    (hrg : MergesInRegion h b.addr) : ∃ bs, Tiled (kfree h (b.addr+headerSize)) bs regions ∧
    pointers bs = pointers (pre ++ post) ∧ SameState h (kfree h (b.addr+headerSize)) := by
  obtain ⟨haf,hbf⟩ := ht.neighbours hnx hrg
  have hus := ht.setUsed (v:=0) hnx (Nat.two_pow_pos 32)
  have hsm₀ : SameState h (h.setField b.addr .used 0) := (SameState.refl h).setField
  obtain ⟨size,post',ht',hps,hsm⟩ := hus.mergeNext (hsm₀.next.symm ▸ hnx) haf
  have hsm₁ := hsm₀.trans hsm
  obtain ⟨bs,ht'',hbs,hsm'⟩ := ht'.mergePrev (hsm₁.next.symm ▸ hnx) rfl hbf
  rw [kfree_pointer ht hnx (by simp)]
  refine ⟨bs,ht'',?_,hsm₁.trans hsm'⟩
  rw [hbs,pointers_append,hps,pointers_append]

end Tiled

lemma and_pageMask {x : ℕ} (hx : x < 2^32) : x &&& 0xFFFFF000 = x / 4096*4096 := by
  have hms : 0xFFFFF000 = (2^20-1) <<< 12 := by decide
  rw [show x / 4096*4096 = x >>> 12 <<< 12 by
    rw [Nat.shiftRight_eq_div_pow,Nat.shiftLeft_eq],hms]
  apply Nat.eq_of_testBit_eq
  intro i
  rw [Nat.testBit_and,Nat.testBit_shiftLeft,Nat.testBit_shiftLeft,Nat.testBit_two_pow_sub_one,
    Nat.testBit_shiftRight]
  by_cases hlow : 12 ≤ i
  · rw [Nat.add_sub_cancel' hlow]
    by_cases hhg : i-12 < 20
    · simp [hlow,hhg]
    · have hlr : x < 2^i := lt_of_lt_of_le hx (Nat.pow_le_pow_right Nat.two_pos (by omega))
      simp [Nat.testBit_lt_two_pow hlr]
  · simp [hlow]

lemma regionTotal_spec (hsz : size ≤ kmallocMaxSize) :
    regionTotal size % 4096 = 0 ∧ headerSize+size ≤ regionTotal size ∧ regionTotal size < 2^32 := by
  rw [kmallocMaxSize] at hsz
  have hhd : headerSize = 40 := rfl
  have hft : (headerSize+size) % 2^32 = headerSize+size := Nat.mod_eq_of_lt (by omega)
  rw [regionTotal,hft]
  split_ifs
  · rw [and_pageMask (Nat.mod_lt _ (by decide))]
    omega
  · rw [and_pageMask (Nat.mod_lt _ (by decide))]
    omega

section Runs

variable {s : HeapRun} {bs : List Block} {size : ℕ}

/-- The block of a new region. -/
def newBlock (virt total used : ℕ) : Block := ⟨virt,total-headerSize,used,total / 4096,virt⟩

lemma pushed_state {V : Type} (g : Heap V) (virt total : ℕ) :
    (pushed g virt total).vmm = g.vmm ∧ (pushed g virt total).nextHeapVirt = g.nextHeapVirt := by
  have hsm : SameState g (((g.writeHeader virt
      (header (total-headerSize) 0 (total / 4096) virt 0 0)).setField virt .next
        g.kmallocHead).setPrevOf g.kmallocHead virt) :=
    (SameState.refl g).writeHeader.setField.setPrevOf
  exact ⟨hsm.vmm,hsm.next⟩

lemma pushed_mem {g : Heap Vmm} {virt total x : ℕ} (hhd : g.kmallocHead = firstAddr bs)
    (hvi : ¬ Covers virt x) (hx : ∀ c ∈ bs, ¬ Covers c.addr x) :
    (pushed g virt total).mem x = g.mem x := by
  rw [pushed,setField_mem hvi,hhd]
  exact (setPrevOf_mem hx).trans ((setField_mem hvi).trans (writeHeader_mem _ hvi))

lemma Tiled.pushed {g : Heap Vmm} {regions : List (ℕ × ℕ)} {total : ℕ} (ht : Tiled h bs regions)
    (hmem : g.mem = h.mem) (hhd : g.kmallocHead = h.kmallocHead)
    (hgr : g.nextHeapVirt = h.nextHeapVirt+total) (htl : headerSize ≤ total)
    (hln : total < 2^32) (htop : h.nextHeapVirt+total < 2^64) :
    Tiled (pushed g h.nextHeapVirt total) (newBlock h.nextHeapVirt total 1 :: bs)
      ((h.nextHeapVirt,h.nextHeapVirt+total) :: regions) := by
  obtain ⟨rs,hst,rfl,rfl⟩ := ht.stacked
  have hst' : Stacked (⟨h.nextHeapVirt,[newBlock h.nextHeapVirt total 1]⟩ :: rs)
      (h.nextHeapVirt+total) := by
    refine ⟨⟨rfl,?_⟩,List.cons_ne_nil _ _,Nat.add_lt_add_left hln _,by simp [newBlock],hst⟩
    simp only [Tiles,Block.span,newBlock]
    omega
  have hsep : Separated (newBlock h.nextHeapVirt total 1 :: blocksOf rs) := hst'.separated htop
  have hsep₀ : Separated (newBlock h.nextHeapVirt total 0 :: blocksOf rs) := hsep.of_map rfl
  have hft : ∀ f, (newBlock h.nextHeapVirt total 0).header 0 0 f < 256^f.width := by
    intro f
    cases f with
    | magic => exact (by decide : kmallocBlockMagic < 256^4)
    | size => exact lt_of_le_of_lt (Nat.sub_le _ _) hln
    | used => exact (by decide : 0 < 256^4)
    | pages => exact lt_of_le_of_lt (Nat.div_le_self _ _) hln
    | baseVirt => exact lt_of_le_of_lt (Nat.le_add_right _ _) htop
    | next => exact (by decide : 0 < 256^8)
    | prev => exact (by decide : 0 < 256^8)
  have hnx := (pushed_state g h.nextHeapVirt total).2.trans hgr
  have hls : Listed g 0 (blocksOf rs) 0 := by
    refine ht.listed.congr fun b _ => ?_
    funext f
    rw [Heap.field,Heap.field,hmem]
  have hps := listed_push hls hsep₀ hft
  rw [← ht.head,← hhd] at hps
  refine ⟨?_,rfl,_,hnx ▸ hst',rfl,by rw [hnx]; rfl⟩
  exact Listed.setUsed (List.nil_append (newBlock h.nextHeapVirt total 0 :: blocksOf rs) ▸ hps)
    hsep₀ (by decide : 1 < 2^32)

lemma growHeap_cases (hsz : size ≤ kmallocMaxSize)
    (hst : kernelHeapStart ≤ h.nextHeapVirt) (hs : Sized h.vmm.pmm)
    (hfr : h.nextHeapVirt ≤ kernelHeapStart+4096*takenFrames h.vmm.pmm) :
    ∃ v, v = (mapPages h.vmm h.nextHeapVirt (regionTotal size)).2 ∧ Sized v.pmm ∧
      (((mapPages h.vmm h.nextHeapVirt (regionTotal size)).1 ≠ 0 ∧
          growHeap h size = (0,{ h with vmm := v }) ∧ takenFrames h.vmm.pmm ≤ takenFrames v.pmm) ∨
        ((mapPages h.vmm h.nextHeapVirt (regionTotal size)).1 = 0 ∧
          growHeap h size = (h.nextHeapVirt+headerSize,pushed { h with
            vmm := v
            nextHeapVirt := h.nextHeapVirt+regionTotal size } h.nextHeapVirt (regionTotal size)) ∧
          h.nextHeapVirt+regionTotal size ≤ kernelHeapStart+4096*takenFrames v.pmm)) := by
  obtain ⟨hpg,hrm,hln⟩ := regionTotal_spec hsz
  have hhp : kernelHeapStart = 0xFFFF800000000000 := rfl
  obtain ⟨hsi,hmp,hfl⟩ := mapPages_frames hs h.nextHeapVirt (regionTotal size)
  refine ⟨(mapPages h.vmm h.nextHeapVirt (regionTotal size)).2,rfl,hsi,?_⟩
  rw [growHeap_eq hsz (by omega)]
  by_cases hrc : (mapPages h.vmm h.nextHeapVirt (regionTotal size)).1 = 0
  · right
    have htl := (takenFrames_le (mapPages h.vmm h.nextHeapVirt (regionTotal size)).2.pmm).trans
      hsi.max
    have htop : h.nextHeapVirt+regionTotal size ≤ kernelHeapStart+
        4096*takenFrames (mapPages h.vmm h.nextHeapVirt (regionTotal size)).2.pmm := by omega
    rw [pmmMaxPages] at htl
    have hnx : (h.nextHeapVirt+regionTotal size) % 2^64 = h.nextHeapVirt+regionTotal size :=
      Nat.mod_eq_of_lt (by omega)
    have hptr : (h.nextHeapVirt+headerSize) % 2^64 = h.nextHeapVirt+headerSize :=
      Nat.mod_eq_of_lt (by omega)
    rw [if_neg (not_not.2 hrc),hnx,hptr]
    exact ⟨hrc,rfl,htop⟩
  · left
    rw [if_pos hrc]
    exact ⟨hrc,rfl,hfl⟩

lemma Sound.start_le (hs : Sound s bs) : kernelHeapStart ≤ s.heap.nextHeapVirt := by
  obtain ⟨rs,hst,-,-⟩ := hs.tiled.stacked
  have hln := hst.length_le
  omega

lemma Sound.length_lt (hs : Sound s bs) : bs.length < s.heap.nextHeapVirt-kernelHeapStart+1 := by
  obtain ⟨rs,hst,rfl,-⟩ := hs.tiled.stacked
  have hln := hst.length_le
  omega

lemma Sound.of_same {live : List ℕ} {bs' : List Block} (hs : Sound s bs)
    (hsm : SameState s.heap h) (ht : Tiled h bs' s.regions) (hlv : live.Perm (pointers bs')) :
    Sound ⟨h,live,s.regions⟩ bs' := by
  refine ⟨ht,hlv,?_,?_⟩
  · change Sized h.vmm.pmm
    rw [hsm.vmm]
    exact hs.sized
  · rw [hsm.next,hsm.vmm]
    exact hs.frames

/-- The block that serves a request is cut, or it is taken as it is. -/
lemma Tiled.carved {pre post : List Block} {regions : List (ℕ × ℕ)}
    (ht : Tiled h (pre ++ b :: post) regions) (hnx : h.nextHeapVirt < 2^64) (size : ℕ) :
    ∃ size' post',
      Tiled (splitBlock h b.addr size) (pre ++ { b with size := size' } :: post') regions ∧
      pointers post' = pointers post ∧ (∀ x ∈ post, x ∈ post') ∧
      (∀ x ∈ post', x ∈ post ∨ x.used = 0 ∧ x.pages = b.pages) ∧ ∀ x, ¬ Covers b.addr x →
        (∀ c ∈ post', ¬ Covers c.addr x) → (splitBlock h b.addr size).mem x = h.mem x := by
  by_cases hfit : size+headerSize+kmallocMinSize ≤ b.size
  · have hcut : Recut [b] [{ b with size := size },b.rest size] := recut_split (by omega)
    have hsep := Tiled.separated_recut (m:=[b]) ht hcut hnx
    refine ⟨size,b.rest size :: post,ht.split hnx hfit,pointers_free rfl post,
      fun x hx => .tail _ hx,fun x hx => ?_,fun x hb hx => ?_⟩
    · rcases List.mem_cons.1 hx with rfl | hx
      · exact .inr ⟨rfl,rfl⟩
      · exact .inl hx
    · refine splitBlock_mem ht.listed (hsep.of_map (by simp)) hfit fun c hc => ?_
      rcases List.mem_cons.1 hc with rfl | hc
      · exact hb
      · exact hx c hc
  · have hkp : ¬size+headerSize+kmallocMinSize ≤ h.field b.addr .size := by
      rw [ht.listed.field]
      exact hfit
    rw [splitBlock,if_neg hkp]
    exact ⟨b.size,post,ht,rfl,fun _ => id,fun _ => .inl,fun _ _ _ => rfl⟩

lemma Sound.reuse {pre post : List Block} (hs : Sound s (pre ++ b :: post)) (hfr : b.used = 0)
    (size : ℕ) :
    ∃ bs, Sound (afterKmalloc s
        (b.addr+headerSize,(splitBlock s.heap b.addr size).setField b.addr .used 1)) bs ∧
      Kept s.heap (pre ++ b :: post)
        ((splitBlock s.heap b.addr size).setField b.addr .used 1) bs := by
  have hnx := hs.next_lt
  obtain ⟨size',post',ht,hps,hin,hout,hmm⟩ := hs.tiled.carved hnx size
  have hsm := sameState_splitBlock s.heap b.addr size
  obtain ⟨c,hc⟩ : ∃ c : Block, c = ⟨b.addr,size',1,b.pages,b.base⟩ := ⟨_,rfl⟩
  have ht' : Tiled ((splitBlock s.heap b.addr size).setField b.addr .used 1) (pre ++ c :: post')
      s.regions := by
    rw [hc]
    exact ht.setUsed (hsm.next.symm ▸ hnx) (by decide : 1 < 2^32)
  have hlv : ((b.addr+headerSize) :: s.live).Perm (pointers (pre ++ c :: post')) := by
    have hold := hs.live
    rw [pointers_append,pointers_free hfr,← hps] at hold
    rw [pointers_append,pointers_used (hc ▸ Nat.one_ne_zero),hc]
    exact (hold.cons _).trans List.perm_middle.symm
  have hptr : b.addr+headerSize ≠ 0 := by
    rw [headerSize]
    omega
  have hsm' : SameState s.heap ((splitBlock s.heap b.addr size).setField b.addr .used 1) :=
    hsm.setField
  rw [afterKmalloc,if_neg hptr,if_pos hsm'.next]
  refine ⟨_,hs.of_same hsm' ht' hlv,fun x hx => ?_,fun hsl x hx => ?_,fun x hx => ?_⟩
  · rcases List.mem_append.1 hx with hx | hx
    · exact ⟨x,List.mem_append_left _ hx,rfl⟩
    rcases List.mem_cons.1 hx with rfl | hx
    · exact ⟨c,by simp,by rw [hc]⟩
    · exact ⟨x,by simp [hin x hx],rfl⟩
  · have hbp := (hsl b (by simp)).2
    rcases List.mem_append.1 hx with hx | hx
    · exact hsl x (List.mem_append_left _ hx)
    rcases List.mem_cons.1 hx with rfl | hx
    · rw [hc]
      exact ⟨le_rfl,hbp⟩
    · rcases hout x hx with hx | ⟨hus,hpg⟩
      · exact hsl x (by simp [hx])
      · exact ⟨by omega,by omega⟩
  · have hcx : ¬ Covers b.addr x := by
      have hcv := hx c (by simp)
      rwa [hc] at hcv
    rw [setField_mem hcx]
    exact hmm x hcx fun y hy => hx y (by simp [hy])

lemma Sound.grow (hs : Sound s bs) (hsz : size ≤ kmallocMaxSize) :
    ∃ bs', Sound (afterKmalloc s (growHeap s.heap size)) bs' ∧
      Kept s.heap bs (growHeap s.heap size).2 bs' ∧ ∀ b ∈ bs', b.used ≠ 0 ∨ b ∈ bs := by
  obtain ⟨hpg,hrm,hln⟩ := regionTotal_spec hsz
  obtain ⟨v,-,hv,⟨-,heq,hfr⟩ | ⟨-,heq,hfr⟩⟩ :=
    growHeap_cases hsz hs.start_le hs.sized hs.frames
  · rw [heq,afterKmalloc,if_pos rfl,if_pos rfl]
    refine ⟨bs,⟨⟨hs.tiled.listed,hs.tiled.head,hs.tiled.stacked⟩,hs.live,hv,?_⟩,
      ⟨fun b hb => ⟨b,hb,rfl⟩,fun hsm => hsm,fun _ _ => rfl⟩,fun _ => .inr⟩
    exact hs.frames.trans (by dsimp only; omega)
  have htk := (takenFrames_le v.pmm).trans hv.max
  have hhp : kernelHeapStart = 0xFFFF800000000000 := rfl
  rw [pmmMaxPages] at htk
  rw [heq,afterKmalloc]
  generalize hg : ({ s.heap with
    vmm := v
    nextHeapVirt := s.heap.nextHeapVirt+regionTotal size } : Heap Vmm) = g
  have hg_next : g.nextHeapVirt = s.heap.nextHeapVirt+regionTotal size := by rw [← hg]
  have hg_vmm : g.vmm = v := by rw [← hg]
  obtain ⟨hvmm,hnx⟩ := pushed_state g s.heap.nextHeapVirt (regionTotal size)
  rw [hg_next] at hnx
  rw [hg_vmm] at hvmm
  have ht := hs.tiled.pushed (g:=g) (by rw [← hg]) (by rw [← hg]) hg_next (by omega) hln (by omega)
  have hptr : s.heap.nextHeapVirt+headerSize ≠ 0 := by
    rw [headerSize]
    omega
  have hgr : ¬s.heap.nextHeapVirt+regionTotal size = s.heap.nextHeapVirt := by
    rw [headerSize] at hrm
    omega
  dsimp only
  rw [if_neg hptr,hnx,if_neg hgr]
  refine ⟨_,⟨ht,?_,?_,?_⟩,⟨fun b hb => ⟨b,.tail _ hb,rfl⟩,fun hsl b hb => ?_,fun x hx => ?_⟩,?_⟩
  · rw [pointers_used Nat.one_ne_zero]
    exact hs.live.cons _
  · exact hvmm ▸ hv
  · dsimp only
    rw [hnx,hvmm]
    exact hfr
  · rcases List.mem_cons.mp hb with rfl | hb
    · refine ⟨le_rfl,?_⟩
      change regionTotal size / 4096 < 2^20
      omega
    · exact hsl b hb
  · have hhd' : g.kmallocHead = firstAddr bs := by rw [← hg,← hs.tiled.head]
    refine (pushed_mem hhd' (hx _ (.head bs)) fun c hc => hx c (.tail _ hc)).trans ?_
    rw [← hg]
  · intro b hb
    rcases List.mem_cons.mp hb with rfl | hb
    · exact .inl Nat.one_ne_zero
    · exact .inr hb

lemma Sound.kmalloc (hs : Sound s bs) (size : ℕ) :
    ∃ r, kmalloc s.heap size = some r ∧
      ∃ bs', Sound (afterKmalloc s r) bs' ∧ Kept s.heap bs r.2 bs' := by
  rw [Kmalloc.kmalloc]
  split_ifs with hrn
  · refine ⟨_,rfl,bs,?_,.refl s.heap bs⟩
    rw [afterKmalloc,if_pos rfl,if_pos rfl]
    exact hs
  have hsep := hs.tiled.separated hs.next_lt
  rw [hs.tiled.head]
  rcases findBlock_spec size hs.tiled.listed hsep hs.length_lt with hno |
    ⟨pre,b,post,rfl,hfr,-,hfn⟩
  · rw [hno]
    exact ⟨_,rfl,(hs.grow (by omega)).imp fun _ => And.imp_right And.left⟩
  rw [hfn]
  obtain ⟨hne,-⟩ := hsep.addr b (by simp)
  have hst := hs.tiled.stop_le (b:=b) (by simp)
  have hnx := hs.next_lt
  have hptr : (b.addr+headerSize) % 2^64 = b.addr+headerSize := by
    rw [Block.stop,Block.span] at hst
    exact Nat.mod_eq_of_lt (by omega)
  cases had : b.addr with
  | zero => exact absurd had hne
  | succ n =>
    rw [had] at hptr
    refine ⟨_,rfl,?_⟩
    rw [hptr,← had]
    exact hs.reuse hfr size

lemma Sound.freed {pre post bs' : List Block} (hs : Sound s (pre ++ b :: post))
    (hus : b.used ≠ 0) (hsm : SameState s.heap h) (ht : Tiled h bs' s.regions)
    (hpn : pointers bs' = pointers (pre ++ post)) :
    Sound ⟨h,s.live.erase (b.addr+headerSize),s.regions⟩ bs' := by
  refine hs.of_same hsm ht ?_
  have hmd : (pointers (pre ++ b :: post)).Perm
      ((b.addr+headerSize) :: pointers (pre ++ post)) := by
    rw [pointers_append,pointers_used hus,pointers_append]
    exact List.perm_middle
  have her := (hs.live.trans hmd).erase (b.addr+headerSize)
  rw [List.erase_cons_head] at her
  rw [hpn]
  exact her

lemma Sound.kfree (hs : Sound s bs) (hptr : ptr ∈ s.live)
    (hrg : MergesInRegion s.heap (headerOf ptr)) :
    ∃ bs, Sound ⟨kfree s.heap ptr,s.live.erase ptr,s.regions⟩ bs := by
  obtain ⟨b,hb,hus,rfl⟩ := mem_pointers.1 (hs.live.mem_iff.1 hptr)
  have had := ((hs.tiled.separated hs.next_lt).addr b hb).2
  rw [headerOf_pointer had] at hrg
  obtain ⟨pre,post,rfl⟩ := List.append_of_mem hb
  obtain ⟨bs',ht,hpn,hsm⟩ := hs.tiled.kfree hs.next_lt hrg
  exact ⟨bs',hs.freed hus hsm ht hpn⟩

lemma Sound.kfree_null (hs : Sound s bs) :
    Sound ⟨Kmalloc.kfree s.heap 0,s.live.erase 0,s.regions⟩ bs := by
  have hlv : 0 ∉ s.live := by
    intro hmem
    obtain ⟨b,-,-,hb⟩ := mem_pointers.1 (hs.live.mem_iff.1 hmem)
    rw [headerSize] at hb
    omega
  rw [Kmalloc.kfree,if_pos rfl,List.erase_of_not_mem hlv]
  exact hs

lemma Sound.write {offset : ℕ} (hs : Sound s bs) (hptr : ptr ∈ s.live)
    (hof : offset < ksize s.heap ptr) (byte : UInt8) :
    Sound { s with heap := { s.heap with
      mem := Function.update s.heap.mem (ptr+offset) byte } } bs := by
  obtain ⟨b,hb,-,rfl⟩ := mem_pointers.1 (hs.live.mem_iff.1 hptr)
  rw [ksize_pointer hs.tiled hs.next_lt hb] at hof
  have hsep : ∀ x ∈ bs, x = b ∨ x.stop ≤ b.addr ∨ b.stop ≤ x.addr := by
    obtain ⟨rs,hst,rfl,-⟩ := hs.tiled.stacked
    intro x hx
    have hpr := hst.pairwise
    obtain ⟨pre,post,heq⟩ := List.append_of_mem hb
    rw [heq] at hpr hx
    obtain ⟨-,hps,hac⟩ := List.pairwise_append.1 hpr
    rcases List.mem_append.1 hx with hx | hx
    · exact .inr (hac x hx b (.head post))
    · rcases List.mem_cons.1 hx with rfl | hx
      · exact .inl rfl
      · exact .inr ((List.pairwise_cons.1 hps).1 x hx).symm
  have hls : Listed { s.heap with
      mem := Function.update s.heap.mem (b.addr+headerSize+offset) byte } 0 bs 0 := by
    refine hs.tiled.listed.congr fun x hx => ?_
    apply kmallocBlock.record_congr
    intro y hlow hhg
    change y < x.addr+headerSize at hhg
    apply Function.update_of_ne
    rintro rfl
    rcases hsep x hx with rfl | hbf | haf
    · omega
    · rw [Block.stop,Block.span] at hbf
      omega
    · rw [Block.stop,Block.span] at haf
      omega
  exact ⟨⟨hls,hs.tiled.head,hs.tiled.stacked⟩,hs.live,hs.sized,hs.frames⟩

lemma Sound.initialised (h : Initialised s) : Sound s [] := by
  obtain ⟨h,rfl,hsz⟩ := h
  refine ⟨⟨trivial,rfl,[],rfl,rfl,rfl⟩,.nil,hsz,?_⟩
  exact Nat.le_add_right _ _

lemma Sound.step {t : HeapRun} {c : Call} (hs : Sound s bs) (hst : act s c = some t)
    (hpr : Proper s c) (hrg : NeighboursInRegion s c) : ∃ bs, Sound t bs := by
  cases c with
  | kmalloc size =>
    obtain ⟨r,hr,hsn⟩ := hs.kmalloc size
    rw [act,hr] at hst
    cases hst
    exact hsn.imp fun _ => And.left
  | kfree ptr =>
    cases hst
    by_cases hzr : ptr = 0
    · subst hzr
      exact ⟨bs,hs.kfree_null⟩
    · exact hs.kfree (hpr.resolve_left hzr) (hrg hzr)
  | write ptr offset byte =>
    cases hst
    exact ⟨bs,hs.write hpr.1 hpr.2 byte⟩

/-- In runs in which `kfree` only meets free neighbours of the region of the block it frees,
the heap is safe in every state. -/
theorem kmalloc_heap_safe (l : List Call) (s : HeapRun)
    (h : Trace (heapRuns.guarded NeighboursInRegion) l s) : Safe s := by
  have hsn : ∃ bs, Sound s bs := by
    refine h.reach.invariant (fun s => ∃ bs, Sound s bs) (fun s hs => ⟨[],.initialised hs⟩) ?_
    rintro s c t ⟨bs,hs⟩ ⟨⟨hst,hpr⟩,hrg⟩
    exact hs.step hst hpr hrg
  obtain ⟨bs,hs⟩ := hsn
  exact hs.safe

end Runs

/-- A heap after `kmalloc_init` over empty page tables. -/
def freshHeap : HeapRun := ⟨kmallocInit ⟨emptyTables,fun _ => 0,0,0⟩,[],[]⟩

lemma freshHeap_initialised : Initialised freshHeap :=
  ⟨_,rfl,emptyTables_tables.sized⟩

/-- A block is split twice and put together again. -/
def splitAndMerge : List Call :=
  [.kmalloc 100,.kfree (kernelHeapStart+40),.kmalloc 100,.kmalloc 200,
    .write (kernelHeapStart+40) 99 7,
    .kfree (kernelHeapStart+40),.kfree (kernelHeapStart+180)]

theorem kmalloc_heap_safe_merge :
    ∃ s, Trace (heapRuns.guarded NeighboursInRegion) splitAndMerge s ∧ Safe s := by
  rw [heapRuns,System.guarded_guarded]
  refine exists_actions (P := fun _ => True) freshHeap_initialised (by decide +kernel)
    fun s htr _ => ?_
  rw [← System.guarded_guarded] at htr
  exact kmalloc_heap_safe _ s htr

/-- Two regions whose blocks are freed, newest last; then a request for both of them and one
for a new region. -/
def mergeAcrossRegions : List Call :=
  [.kmalloc 4000,.kmalloc 4000,.kfree (kernelHeapStart+40),.kfree (kernelHeapStart+4136),
    .kmalloc 8152,.kmalloc 4000]

/-- The merged block reaches over the end of its region, into the region that is mapped next:
two live payloads share bytes. -/
theorem payloads_overlap_after_merge :
    ∃ s, Trace heapRuns mergeAcrossRegions s ∧
      s.live = [kernelHeapStart+8232,kernelHeapStart+4136] ∧
      ksize s.heap (kernelHeapStart+4136) = 8152 ∧ ksize s.heap (kernelHeapStart+8232) = 4056 ∧
      ¬Safe s := by
  refine exists_actions (P := fun s => s.live = [kernelHeapStart+8232,kernelHeapStart+4136] ∧
      ksize s.heap (kernelHeapStart+4136) = 8152 ∧ ksize s.heap (kernelHeapStart+8232) = 4056)
    freshHeap_initialised (by decide +kernel) ?_
  rintro s - ⟨hlv,hold,hnew⟩
  refine ⟨hlv,hold,hnew,fun hsf => ?_⟩
  have hds := hsf.disjoint
  rw [hlv] at hds
  have hpr := (List.pairwise_cons.1 hds).1 _ (.head [])
  rw [hold,hnew] at hpr
  omega

end HarlinKernel.Kmalloc
