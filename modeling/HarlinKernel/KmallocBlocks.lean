import HarlinKernel.Kmalloc

/-! The block list of the kernel heap as a list: what the assignments of `kmalloc` and `kfree`
do to the headers, and how the blocks lie in the regions that were mapped for them. -/
namespace HarlinKernel.Kmalloc

open RecordMemory
open Function (update)

/-- A block of the list, without its links. -/
structure Block where
  addr : ℕ
  size : ℕ
  used : ℕ
  pages : ℕ
  base : ℕ

namespace Block

def header (b : Block) (prev next : ℕ) : Field → ℕ :=
  Kmalloc.header b.size b.used b.pages b.base next prev

/-- The bytes of the header and the payload. -/
def span (b : Block) : ℕ := headerSize+b.size

def stop (b : Block) : ℕ := b.addr+b.span

end Block

variable {V : Type}

section Headers

variable {h : Heap V} {a b v : ℕ} {f : Field}

/-- The headers at two addresses do not overlap. -/
def Apart (a b : ℕ) : Prop := a+headerSize ≤ b ∨ b+headerSize ≤ a

lemma field_setField :
    (h.setField a f v).field a = update (h.field a) f (v % 256^f.width) :=
  kmallocBlock.record_set

lemma field_setField_apart (hab : Apart a b) : (h.setField a f v).field b = h.field b :=
  kmallocBlock.record_set_apart hab

lemma field_lt (h : Heap V) (a : ℕ) (f : Field) : h.field a f < 256^f.width :=
  load_lt h.mem (a+f.offset) f.width

lemma field_writeHeader (values : Field → ℕ) :
    (h.writeHeader a values).field a = fun f => values f % 256^f.width := by
  funext f
  simp only [Heap.writeHeader,List.foldl,field_setField]
  cases f <;> rfl

lemma field_writeHeader_apart (values : Field → ℕ) (hab : Apart a b) :
    (h.writeHeader a values).field b = h.field b := by
  simp [Heap.writeHeader,field_setField_apart hab]

lemma field_setPrevOf_apart (hab : Apart a b) : (h.setPrevOf a v).field b = h.field b := by
  rw [Heap.setPrevOf]
  split_ifs
  · exact field_setField_apart hab
  · rfl

/-- The byte belongs to the header at an address. -/
def Covers (a x : ℕ) : Prop := a ≤ x ∧ x < a+headerSize

lemma setField_mem {x : ℕ} (hx : ¬ Covers a x) : (h.setField a f v).mem x = h.mem x := by
  apply kmallocBlock.set_outside
  change x < a ∨ a+headerSize ≤ x
  rw [Covers] at hx
  omega

lemma writeHeader_mem {x : ℕ} (values : Field → ℕ) (hx : ¬ Covers a x) :
    (h.writeHeader a values).mem x = h.mem x := by
  simp [Heap.writeHeader,setField_mem hx]

/-- Assignments to headers leave the other variables of the heap alone. -/
structure SameState (h t : Heap V) : Prop where
  vmm : t.vmm = h.vmm
  head : t.kmallocHead = h.kmallocHead
  next : t.nextHeapVirt = h.nextHeapVirt

namespace SameState

variable {t u : Heap V}

lemma refl (h : Heap V) : SameState h h := ⟨rfl,rfl,rfl⟩

lemma trans (ht : SameState h t) (hu : SameState t u) : SameState h u :=
  ⟨hu.vmm.trans ht.vmm,hu.head.trans ht.head,hu.next.trans ht.next⟩

lemma setField (ht : SameState h t) : SameState h (t.setField a f v) := ⟨ht.vmm,ht.head,ht.next⟩

lemma setPrevOf (ht : SameState h t) : SameState h (t.setPrevOf a v) := by
  rw [Heap.setPrevOf]
  split_ifs
  · exact ht.setField
  · exact ht

lemma writeHeader {values : Field → ℕ} (ht : SameState h t) :
    SameState h (t.writeHeader a values) := ⟨ht.vmm,ht.head,ht.next⟩

end SameState

variable {c : Block} {p n : ℕ}

lemma header_size : update (c.header p n) .size v = { c with size := v }.header p n := by
  funext f
  cases f <;> rfl

lemma header_used : update (c.header p n) .used v = { c with used := v }.header p n := by
  funext f
  cases f <;> rfl

lemma header_next : update (c.header p n) .next v = c.header p v := by
  funext f
  cases f <;> rfl

lemma header_prev : update (c.header p n) .prev v = c.header v n := by
  funext f
  cases f <;> rfl

end Headers

/-- The headers in memory link the listed blocks, between two outer neighbours. -/
abbrev Listed (h : Heap V) (prev : ℕ) (bs : List Block) (next : ℕ) : Prop :=
  Chain Block.addr Block.header h.field prev bs next

/-- The address of the first block, null for the empty list. -/
abbrev firstAddr (bs : List Block) : ℕ := first Block.addr bs 0

/-- Blocks whose headers do not overlap, at addresses that a pointer can hold. -/
structure Separated (bs : List Block) : Prop where
  pairwise : bs.Pairwise fun x y => Apart x.addr y.addr
  addr : ∀ b ∈ bs, b.addr ≠ 0 ∧ b.addr < 2^64

namespace Separated

variable {xs ys : List Block} {b c : Block}

lemma right (h : Separated (xs ++ ys)) : Separated ys :=
  ⟨(List.pairwise_append.1 h.pairwise).2.1,fun b hb => h.addr b (List.mem_append_right xs hb)⟩

lemma across (h : Separated (xs ++ ys)) (hb : b ∈ xs) (hc : c ∈ ys) : Apart c.addr b.addr :=
  ((List.pairwise_append.1 h.pairwise).2.2 b hb c hc).symm

lemma head (h : Separated (b :: ys)) (hc : c ∈ ys) : Apart b.addr c.addr :=
  (List.pairwise_cons.1 h.pairwise).1 c hc

lemma tail (h : Separated (b :: ys)) : Separated ys :=
  ⟨(List.pairwise_cons.1 h.pairwise).2,fun c hc => h.addr c (.tail b hc)⟩

lemma of_map (h : Separated xs) (had : ys.map Block.addr = xs.map Block.addr) :
    Separated ys := by
  have hpr : (xs.map Block.addr).Pairwise Apart := List.pairwise_map.2 h.pairwise
  rw [← had,List.pairwise_map] at hpr
  refine ⟨hpr,fun c hc => ?_⟩
  obtain ⟨b,hb,heq⟩ := List.mem_map.1 (had ▸ List.mem_map_of_mem hc)
  exact heq ▸ h.addr b hb

lemma firstAddr_lt (h : Separated xs) : firstAddr xs < 2^64 := by
  cases xs with
  | nil => exact Nat.two_pow_pos 64
  | cons b bs => exact (h.addr b (.head bs)).2

end Separated

section Lists

variable {h : Heap V} {p q n v : ℕ} {b c : Block} {bs pre post : List Block}

lemma Listed.field (hl : Listed h p (pre ++ b :: post) n) :
    h.field b.addr = b.header (last Block.addr p pre) (first Block.addr post n) :=
  (chain_append.1 hl).2.1

lemma Listed.setField_apart (hl : Listed h p bs n) (hbs : ∀ b ∈ bs, Apart q b.addr) (f : Field)
    (v : ℕ) : Listed (h.setField q f v) p bs n :=
  hl.congr fun b hb => field_setField_apart (hbs b hb)

lemma Listed.setPrevOf (hl : Listed h p bs 0) (hsep : Separated bs) (hq : q < 2^64) :
    Listed (h.setPrevOf (firstAddr bs) q) q bs 0 := by
  cases bs with
  | nil => trivial
  | cons c cs =>
    obtain ⟨hc,hcs⟩ := hl
    have hne : firstAddr (c :: cs) ≠ 0 := (hsep.addr c (.head cs)).1
    rw [Heap.setPrevOf,if_pos hne]
    constructor
    · rw [show firstAddr (c :: cs) = c.addr from rfl,field_setField,hc,header_prev,
        show q % 256^Field.prev.width = q from Nat.mod_eq_of_lt hq]
    · exact Listed.setField_apart hcs (fun b hb => hsep.head hb) _ _

lemma field_setPrevOf_first (hbs : ∀ b ∈ bs, Apart b.addr q) :
    (h.setPrevOf (firstAddr bs) v).field q = h.field q := by
  cases bs with
  | nil => rfl
  | cons c cs => exact field_setPrevOf_apart (hbs c (.head cs))

lemma setPrevOf_mem {x : ℕ} (hx : ∀ b ∈ bs, ¬ Covers b.addr x) :
    (h.setPrevOf (firstAddr bs) v).mem x = h.mem x := by
  cases bs with
  | nil => rfl
  | cons c cs =>
    rw [Heap.setPrevOf]
    split_ifs
    · exact setField_mem (hx c (.head cs))
    · rfl

lemma Listed.setField (hl : Listed h p (pre ++ b :: post) n) (hsep : Separated (pre ++ b :: post))
    {f : Field} (hc : c.addr = b.addr)
    (hfl : ∀ prev next, update (b.header prev next) f (v % 256^f.width) = c.header prev next) :
    Listed (h.setField b.addr f v) p (pre ++ c :: post) n := by
  obtain ⟨hpre,hb,hps⟩ := chain_append.1 hl
  refine chain_append.2 ⟨?_,?_,?_⟩
  · rw [show first Block.addr (c :: post) n = first Block.addr (b :: post) n from hc]
    exact Listed.setField_apart hpre
      (fun x hx => hsep.across hx (.head post)) f v
  · rw [hc,field_setField,hb,hfl]
  · rw [hc]
    exact Listed.setField_apart hps (fun x hx => hsep.right.head hx) f v

lemma Listed.setUsed (hl : Listed h p (pre ++ b :: post) n)
    (hsep : Separated (pre ++ b :: post)) (hv : v < 2^32) :
    Listed (h.setField b.addr .used v) p (pre ++ { b with used := v } :: post) n :=
  hl.setField hsep rfl fun prev next => by
    rw [show v % 256^Field.used.width = v from Nat.mod_eq_of_lt hv,header_used]

/-- The block that the split of `b` for a request of `size` bytes leaves behind. -/
def Block.rest (b : Block) (size : ℕ) : Block :=
  ⟨b.addr+headerSize+size,b.size-size-headerSize,0,b.pages,b.base⟩

lemma field_writeHeader_block (hc : ∀ f, c.header p q f < 256^f.width) :
    (h.writeHeader c.addr (c.header p q)).field c.addr = c.header p q := by
  rw [field_writeHeader]
  funext f
  exact Nat.mod_eq_of_lt (hc f)

/-- A block behind another one, with the links to it from both sides. -/
def insertBlock (h : Heap V) (b c : Block) (post : List Block) : Heap V :=
  ((h.writeHeader c.addr (c.header b.addr (firstAddr post))).setPrevOf (firstAddr post)
    c.addr).setField b.addr .next c.addr

lemma listed_insert (hl : Listed h p (pre ++ b :: post) 0)
    (hsep : Separated (pre ++ b :: c :: post))
    (hc : ∀ f, c.header b.addr (firstAddr post) f < 256^f.width) :
    Listed (insertBlock h b c post) p (pre ++ b :: c :: post) 0 := by
  obtain ⟨hpre,hb,hps⟩ := chain_append.1 hl
  have hbc : Apart b.addr c.addr := hsep.right.head (.head post)
  have hpost_b : ∀ x ∈ post, Apart b.addr x.addr := fun x hx => hsep.right.head (.tail c hx)
  have hpost_c : ∀ x ∈ post, Apart c.addr x.addr := fun x hx => hsep.right.tail.head hx
  have hlt : c.addr % 256^Field.next.width = c.addr :=
    Nat.mod_eq_of_lt (hsep.right.addr c (.tail b (.head post))).2
  rw [insertBlock]
  refine chain_append.2 ⟨?_,?_,?_,?_⟩
  · refine hpre.congr fun x hx => ?_
    rw [field_setField_apart (hsep.across hx (.head _)),field_setPrevOf_first,
      field_writeHeader_apart _ (hsep.across hx (.tail b (.head post)))]
    exact fun y hy => hsep.across hx (.tail b (.tail c hy))
  · rw [field_setField,field_setPrevOf_first fun x hx => (hpost_b x hx).symm,
      field_writeHeader_apart _ hbc.symm,hb,header_next,hlt]
    rfl
  · rw [field_setField_apart hbc,field_setPrevOf_first fun x hx => (hpost_c x hx).symm,
      field_writeHeader_block hc]
  · refine Listed.setField_apart ?_ hpost_b _ _
    have hkp : Listed (h.writeHeader c.addr (c.header b.addr (firstAddr post))) b.addr post 0 :=
      hps.congr fun x hx => field_writeHeader_apart _ (hpost_c x hx)
    exact hkp.setPrevOf hsep.right.tail.tail (hsep.right.addr c (.tail b (.head post))).2

lemma sameState_splitBlock (h : Heap V) (block size : ℕ) :
    SameState h (splitBlock h block size) := by
  rw [splitBlock]
  split_ifs
  · exact (SameState.refl h).writeHeader.setPrevOf.setField.setField
  · exact .refl h

lemma splitBlock_eq {size : ℕ} (hl : Listed h p (pre ++ b :: post) 0)
    (hsep : Separated (pre ++ b :: b.rest size :: post))
    (hfit : size+headerSize+kmallocMinSize ≤ b.size) :
    splitBlock h b.addr size = (insertBlock h b (b.rest size) post).setField b.addr .size size := by
  have hb := hl.field
  have hrs : (b.addr+headerSize+size) % 2^64 = (b.rest size).addr :=
    Nat.mod_eq_of_lt (hsep.right.addr (b.rest size) (.tail b (.head post))).2
  have hsl : Apart (b.rest size).addr b.addr := (hsep.right.head (.head post)).symm
  rw [splitBlock,if_pos (by rw [hb]; exact hfit)]
  dsimp only
  rw [hrs,field_writeHeader_apart _ hsl,hb]
  rfl

lemma splitBlock_mem {size x : ℕ} (hl : Listed h p (pre ++ b :: post) 0)
    (hsep : Separated (pre ++ b :: b.rest size :: post))
    (hfit : size+headerSize+kmallocMinSize ≤ b.size)
    (hx : ∀ c ∈ b :: b.rest size :: post, ¬ Covers c.addr x) :
    (splitBlock h b.addr size).mem x = h.mem x := by
  have hb := hx b (.head _)
  rw [splitBlock_eq hl hsep hfit,insertBlock,setField_mem hb,setField_mem hb,
    setPrevOf_mem fun c hc => hx c (.tail _ (.tail _ hc)),
    writeHeader_mem _ (hx _ (.tail _ (.head _)))]

lemma listed_split {size : ℕ} (hl : Listed h p (pre ++ b :: post) 0)
    (hsep : Separated (pre ++ b :: b.rest size :: post))
    (hfit : size+headerSize+kmallocMinSize ≤ b.size) :
    Listed (splitBlock h b.addr size) p
      (pre ++ { b with size := size } :: b.rest size :: post) 0 := by
  have hb := hl.field
  have hbn := fun f => hb ▸ field_lt h b.addr f
  have had := fun x hx => (hsep.right.addr x hx).2
  have hvl : ∀ f, (b.rest size).header b.addr (firstAddr post) f < 256^f.width := by
    intro f
    cases f with
    | magic => exact (by decide : kmallocBlockMagic < 256^4)
    | size =>
      have hle : (b.rest size).size ≤ b.size := (Nat.sub_le _ _).trans (Nat.sub_le _ _)
      exact lt_of_le_of_lt hle (hbn .size)
    | used => exact (by decide : 0 < 256^4)
    | pages => exact hbn .pages
    | baseVirt => exact hbn .baseVirt
    | next => exact hbn .next
    | prev => exact had b (.head _)
  have hsz : size % 256^Field.size.width = size :=
    Nat.mod_eq_of_lt (lt_of_le_of_lt (show size ≤ b.size by omega) (hbn .size))
  rw [splitBlock_eq hl hsep hfit]
  refine (listed_insert hl hsep hvl).setField hsep rfl fun prev next => ?_
  rw [hsz,header_size]

/-- The assignments that make a block take over the block behind it. -/
def absorb (h : Heap V) (block size next : ℕ) : Heap V :=
  ((h.setField block .size size).setField block .next next).setPrevOf next block

lemma sameState_absorb (h : Heap V) (block size next : ℕ) :
    SameState h (absorb h block size next) :=
  (SameState.refl h).setField.setField.setPrevOf

/-- Two neighbours of the list as one block. -/
def Block.join (b c : Block) : Block := { b with size := b.size+(headerSize+c.size) }

lemma listed_absorb (hl : Listed h p (pre ++ b :: c :: post) 0)
    (hsep : Separated (pre ++ b :: c :: post)) (hsz : b.size+(headerSize+c.size) < 2^32) :
    Listed (absorb h b.addr (b.size+(headerSize+c.size)) (firstAddr post)) p
      (pre ++ b.join c :: post) 0 := by
  obtain ⟨hpre,hb,-,hps⟩ := chain_append.1 hl
  have hpost_b : ∀ x ∈ post, Apart b.addr x.addr := fun x hx => hsep.right.head (.tail c hx)
  have hnx : firstAddr post % 256^Field.next.width = firstAddr post :=
    Nat.mod_eq_of_lt hsep.right.tail.tail.firstAddr_lt
  have hjn : (b.size+(headerSize+c.size)) % 256^Field.size.width = (b.join c).size :=
    Nat.mod_eq_of_lt hsz
  refine chain_append.2 ⟨?_,?_,?_⟩
  · refine hpre.congr fun x hx => ?_
    have hx_b := hsep.across hx (.head (c :: post))
    rw [absorb,field_setPrevOf_first,field_setField_apart hx_b,field_setField_apart hx_b]
    exact fun y hy => hsep.across hx (.tail b (.tail c hy))
  · change (absorb h b.addr _ _).field b.addr = _
    rw [absorb,field_setPrevOf_first fun x hx => (hpost_b x hx).symm,field_setField,field_setField,
      hb,hjn,header_size,header_next,hnx]
    rfl
  · have hkp := Listed.setField_apart (Listed.setField_apart hps hpost_b .size
      (b.size+(headerSize+c.size))) hpost_b .next (firstAddr post)
    exact hkp.setPrevOf hsep.right.tail.tail (hsep.right.addr b (.head _)).2

lemma mergeNext_free (hl : Listed h p (pre ++ b :: c :: post) 0)
    (hsep : Separated (pre ++ b :: c :: post)) (hfr : c.used = 0) :
    mergeNext h b.addr = absorb h b.addr (b.size+(headerSize+c.size)) (firstAddr post) := by
  have hb := hl.field
  have hc : h.field c.addr = c.header b.addr (firstAddr post) := (chain_append.1 hl).2.2.1
  have hbc : Apart b.addr c.addr := hsep.right.head (.head post)
  have hnx : firstAddr post % 256^Field.next.width = firstAddr post :=
    Nat.mod_eq_of_lt hsep.right.tail.tail.firstAddr_lt
  have hrd : h.field b.addr .next = c.addr := by
    rw [hb]
    rfl
  have hcn : h.field b.addr .next ≠ 0 ∧ h.field (h.field b.addr .next) .used = 0 := by
    rw [hrd,hc]
    exact ⟨(hsep.right.addr c (.tail b (.head post))).1,hfr⟩
  have hrd' : ∀ v, (h.setField b.addr .size v).field b.addr .next = c.addr := by
    intro v
    rw [field_setField,Function.update_of_ne (by decide),hrd]
  rw [mergeNext,if_pos hcn]
  simp only [hrd,hrd',field_setField_apart hbc,hc]
  rw [field_setField,Function.update_self,hb]
  change (Heap.setField _ _ _ (firstAddr post)).setPrevOf (firstAddr post % 256^Field.next.width)
    _ = _
  rw [hnx]
  rfl

lemma mergeNext_kept (hl : Listed h p (pre ++ b :: post) 0)
    (hus : ∀ c cs, post = c :: cs → c.used ≠ 0) : mergeNext h b.addr = h := by
  rw [mergeNext,if_neg]
  rintro ⟨hne,hfr⟩
  have hb := hl.field
  cases post with
  | nil =>
    rw [hb] at hne
    exact hne rfl
  | cons c cs =>
    have hc : h.field c.addr = c.header b.addr (firstAddr cs) := (chain_append.1 hl).2.2.1
    have hrd : h.field b.addr .next = c.addr := by
      rw [hb]
      rfl
    rw [hrd,hc] at hfr
    exact hus c cs rfl hfr

lemma mergePrev_free (hl : Listed h p (pre ++ b :: c :: post) 0)
    (hsep : Separated (pre ++ b :: c :: post)) (hfr : b.used = 0) :
    mergePrev h c.addr = absorb h b.addr (b.size+(headerSize+c.size)) (firstAddr post) := by
  have hb := hl.field
  have hc : h.field c.addr = c.header b.addr (firstAddr post) := (chain_append.1 hl).2.2.1
  have hbc : Apart b.addr c.addr := hsep.right.head (.head post)
  have hrd : h.field c.addr .prev = b.addr := by
    rw [hc]
    rfl
  have hcn : h.field c.addr .prev ≠ 0 ∧ h.field (h.field c.addr .prev) .used = 0 := by
    rw [hrd,hb]
    exact ⟨(hsep.right.addr b (.head _)).1,hfr⟩
  rw [mergePrev,if_pos hcn]
  simp only [hrd,field_setField_apart hbc]
  rw [hb,hc]
  rfl

lemma mergePrev_kept (hl : Listed h 0 (pre ++ b :: post) 0)
    (hus : ∀ c cs, pre = cs ++ [c] → c.used ≠ 0) : mergePrev h b.addr = h := by
  rw [mergePrev,if_neg]
  rintro ⟨hne,hfr⟩
  have hb := hl.field
  rcases List.eq_nil_or_concat pre with rfl | ⟨cs,c,rfl⟩
  · rw [hb] at hne
    exact hne rfl
  rw [List.concat_eq_append] at hl hb hus
  have hpr : last Block.addr 0 (cs ++ [c]) = c.addr := last_append_singleton c
  have hc : h.field c.addr = c.header (last Block.addr 0 cs) (firstAddr (b :: post)) := by
    rw [List.append_assoc] at hl
    exact hl.field
  have hrd : h.field b.addr .prev = c.addr := by
    rw [hb]
    exact hpr
  rw [hrd,hc] at hfr
  exact hus c cs rfl hfr

lemma listed_push (hl : Listed h p bs 0) (hsep : Separated (c :: bs))
    (hc : ∀ f, c.header 0 0 f < 256^f.width) :
    Listed
      (((h.writeHeader c.addr (c.header 0 0)).setField c.addr .next (firstAddr bs)).setPrevOf
        (firstAddr bs) c.addr) 0 (c :: bs) 0 := by
  have hnx : firstAddr bs % 256^Field.next.width = firstAddr bs :=
    Nat.mod_eq_of_lt hsep.tail.firstAddr_lt
  have hbs : ∀ x ∈ bs, Apart c.addr x.addr := fun x hx => hsep.head hx
  constructor
  · rw [field_setPrevOf_first fun x hx => (hbs x hx).symm,field_setField,
      field_writeHeader_block hc,header_next,hnx]
  · have hkp : Listed (h.writeHeader c.addr (c.header 0 0)) p bs 0 :=
      hl.congr fun x hx => field_writeHeader_apart _ (hbs x hx)
    exact (hkp.setField_apart hbs .next (firstAddr bs)).setPrevOf hsep.tail
      (hsep.addr c (.head bs)).2

lemma findBlock_spec {fuel : ℕ} (size : ℕ) (hl : Listed h p bs 0) (hsep : Separated bs)
    (hfl : bs.length < fuel) :
    findBlock h size fuel (firstAddr bs) = some 0 ∨ ∃ pre b post, bs = pre ++ b :: post ∧
      b.used = 0 ∧ size ≤ b.size ∧ findBlock h size fuel (firstAddr bs) = some b.addr := by
  induction bs generalizing p fuel with
  | nil =>
    cases fuel with
    | zero => exact absurd hfl (Nat.not_lt_zero _)
    | succ fuel => exact .inl rfl
  | cons c cs ih =>
    cases fuel with
    | zero => exact absurd hfl (Nat.not_lt_zero _)
    | succ fuel =>
      obtain ⟨hc,hcs⟩ := hl
      have hne : firstAddr (c :: cs) ≠ 0 := (hsep.addr c (.head cs)).1
      have hfi : h.field (firstAddr (c :: cs)) = c.header p (firstAddr cs) := hc
      rw [findBlock,if_neg hne,hfi]
      by_cases hfit : c.used = 0 ∧ size ≤ c.size
      · right
        exact ⟨[],c,cs,rfl,hfit.1,hfit.2,if_pos hfit⟩
      · have hsk :
            ¬(c.header p (firstAddr cs) .used = 0 ∧ size ≤ c.header p (firstAddr cs) .size) :=
          hfit
        rw [if_neg hsk]
        rcases ih hcs hsep.tail (Nat.lt_of_succ_lt_succ hfl) with hno |
          ⟨pre,b,post,rfl,hus,hsz,hfn⟩
        · exact .inl hno
        · exact .inr ⟨c :: pre,b,post,rfl,hus,hsz,hfn⟩

end Lists

/-- The blocks that a region was cut into, in the order of the list. -/
structure Region where
  base : ℕ
  blocks : List Block

abbrev Laid (a : ℕ) (bs : List Block) (e : ℕ) : Prop := Tiles Block.addr Block.span a bs e

/-- The blocks of each region lie side by side from its base to its end, and the regions lie
below each other in the order of the list, from `top` down to the start of the heap. -/
def Stacked : List Region → ℕ → Prop
  | [], top => top = kernelHeapStart
  | r :: rs, top =>
    Laid r.base r.blocks top ∧ r.blocks ≠ [] ∧ top < r.base+2^32 ∧
      (∀ b ∈ r.blocks, b.base = r.base) ∧ Stacked rs r.base

/-- All blocks, region by region. -/
def blocksOf (rs : List Region) : List Block := rs.flatMap Region.blocks

/-- Base and end of the regions. -/
def bounds : List Region → ℕ → List (ℕ × ℕ)
  | [], _ => []
  | r :: rs, top => (r.base,top) :: bounds rs r.base

section Regions

variable {rs : List Region} {r : Region} {top : ℕ} {b c : Block} {bs pre post mid mid' : List Block}

lemma Laid.inside {a e : ℕ} (h : Laid a bs e) (hb : b ∈ bs) : a ≤ b.addr ∧ b.stop ≤ e := h.bounds hb

lemma Laid.length_le {a e : ℕ} (h : Laid a bs e) : a+bs.length ≤ e := by
  induction bs generalizing a with
  | nil => exact le_of_eq h
  | cons b bs ih =>
    have hrs := ih h.2
    rw [Block.span,headerSize] at hrs
    rw [List.length_cons]
    omega

lemma mem_blocksOf_cons : b ∈ blocksOf (r :: rs) ↔ b ∈ r.blocks ∨ b ∈ blocksOf rs := by
  simp [blocksOf]

lemma Stacked.length_le (h : Stacked rs top) : kernelHeapStart+(blocksOf rs).length ≤ top := by
  induction rs generalizing top with
  | nil => exact h.ge
  | cons r rs ih =>
    obtain ⟨hld,-,-,-,hrs⟩ := h
    have hbl := hld.length_le
    have hre := ih hrs
    rw [blocksOf,List.flatMap_cons,List.length_append]
    rw [blocksOf] at hre
    omega

lemma Stacked.inside (h : Stacked rs top) (hb : b ∈ blocksOf rs) :
    ∃ e, (b.base,e) ∈ bounds rs top ∧ b.base ≤ b.addr ∧ b.stop ≤ e ∧ e < b.base+2^32 ∧
      kernelHeapStart ≤ b.base ∧ e ≤ top := by
  induction rs generalizing top with
  | nil => exact absurd hb List.not_mem_nil
  | cons r rs ih =>
    obtain ⟨hld,-,hln,hbs,hrs⟩ := h
    rcases mem_blocksOf_cons.1 hb with hb | hb
    · have hin := hld.inside hb
      have hst := hrs.length_le
      rw [hbs b hb]
      exact ⟨top,.head _,hin.1,hin.2,hln,by omega,le_rfl⟩
    · obtain ⟨e,hmem,hlow,hhg,hln',hst,he⟩ := ih hrs hb
      exact ⟨e,.tail _ hmem,hlow,hhg,hln',hst,he.trans hld.le⟩

lemma Stacked.base_lt (h : Stacked rs top) (hb : b ∈ blocksOf rs) : b.base < top := by
  obtain ⟨e,-,hlow,hhg,-,-,he⟩ := h.inside hb
  rw [Block.stop,Block.span,headerSize] at hhg
  omega

lemma Stacked.pairwise (h : Stacked rs top) :
    (blocksOf rs).Pairwise fun x y => x.stop ≤ y.addr ∨ y.stop ≤ x.addr := by
  induction rs generalizing top with
  | nil => exact List.Pairwise.nil
  | cons r rs ih =>
    obtain ⟨hld,-,-,-,hrs⟩ := h
    refine List.pairwise_append.2 ⟨hld.pairwise.imp Or.inl,ih hrs,?_⟩
    intro x hx y hy
    obtain ⟨e,-,-,hhg,-,-,he⟩ := hrs.inside hy
    exact .inr ((hhg.trans he).trans (hld.inside hx).1)

lemma Stacked.separated (h : Stacked rs top) (htop : top < 2^64) : Separated (blocksOf rs) := by
  constructor
  · refine h.pairwise.imp fun hxy => ?_
    simp only [Block.stop,Block.span] at hxy
    rw [Apart]
    omega
  · intro b hb
    obtain ⟨e,-,hlow,hhg,-,hst,he⟩ := h.inside hb
    rw [Block.stop] at hhg
    rw [kernelHeapStart] at hst
    omega

lemma Stacked.split_mid {base : ℕ} {q : List Block} (hrs : Stacked rs r.base)
    (hbs : ∀ x ∈ q, x.base = r.base) (hq : q ≠ []) (hsm : ∀ x ∈ mid, x.base = base)
    (hfl : q ++ blocksOf rs = mid ++ post) : ∃ q', q = mid ++ q' ∧ post = q' ++ blocksOf rs := by
  rcases List.append_eq_append_iff.1 hfl with ⟨m,hm,hre⟩ | hin
  · cases m with
    | nil => exact ⟨[],by simpa using hm.symm,by simpa using hre.symm⟩
    | cons y ys =>
      obtain ⟨x,xs,rfl⟩ := List.exists_cons_of_ne_nil hq
      have hx := hbs x (.head xs)
      have hlt := hrs.base_lt (b:=y) (by rw [hre]; exact List.mem_append_left post (.head ys))
      have hx' := hsm x (by rw [hm]; exact .head _)
      have hy := hsm y (by rw [hm]; exact List.mem_append_right _ (.head ys))
      omega
  · exact hin

/-- Blocks that follow each other in one region are exchanged for others on the same bytes. -/
theorem Stacked.replace {base : ℕ} (h : Stacked rs top) (hfl : blocksOf rs = pre ++ (mid ++ post))
    (hne : mid ≠ []) (hsm : ∀ x ∈ mid, x.base = base) (hne' : mid' ≠ [])
    (hsm' : ∀ x ∈ mid', x.base = base) (hld : ∀ a e, Laid a mid e → Laid a mid' e) : ∃ rs',
    Stacked rs' top ∧ blocksOf rs' = pre ++ (mid' ++ post) ∧ bounds rs' top = bounds rs top := by
  induction rs generalizing top pre with
  | nil => simp [blocksOf,hne] at hfl
  | cons r rs ih =>
    obtain ⟨hbl,hr,hln,hbs,hrs⟩ := h
    have hlt : ∀ q, pre = r.blocks ++ q → blocksOf rs = q ++ (mid ++ post) →
        ∃ rs', Stacked rs' top ∧ blocksOf rs' = pre ++ (mid' ++ post) ∧
          bounds rs' top = bounds (r :: rs) top := by
      rintro q rfl hq
      obtain ⟨rs',hst,hfl',hbn⟩ := ih hrs hq
      refine ⟨r :: rs',⟨hbl,hr,hln,hbs,hst⟩,?_,by rw [bounds,bounds,hbn]⟩
      rw [blocksOf] at hfl'
      rw [blocksOf,List.flatMap_cons,hfl',List.append_assoc]
    rcases List.append_eq_append_iff.1 hfl with ⟨q,hpre,hq⟩ | ⟨q,hq,hre⟩
    · exact hlt q hpre hq
    by_cases hnil : q = []
    · subst hnil
      exact hlt [] (by simpa using hq.symm) hre.symm
    obtain ⟨q',rfl,rfl⟩ := hrs.split_mid (fun x hx => hbs x (hq ▸ List.mem_append_right pre hx))
      hnil hsm hre.symm
    have hrg : base = r.base := by
      obtain ⟨x,xs,rfl⟩ := List.exists_cons_of_ne_nil hne
      rw [← hsm x (.head xs)]
      exact hbs x (hq ▸ List.mem_append_right pre (.head _))
    rw [hq] at hbl hbs
    obtain ⟨a,hbf,haf⟩ := tiles_append.1 hbl
    obtain ⟨e,hmid,hre'⟩ := tiles_append.1 haf
    have hnew : Laid r.base (pre ++ (mid' ++ q')) top :=
      tiles_append.2 ⟨a,hbf,tiles_append.2 ⟨e,hld a e hmid,hre'⟩⟩
    refine ⟨⟨r.base,pre ++ (mid' ++ q')⟩ :: rs,⟨hnew,by simp [hne'],hln,?_,hrs⟩,?_,rfl⟩
    · intro x hx
      simp only [List.mem_append] at hx
      rcases hx with hx | hx | hx
      · exact hbs x (List.mem_append_left _ hx)
      · exact (hsm' x hx).trans hrg
      · exact hbs x (by simp [hx])
    · simp [blocksOf]

end Regions

end HarlinKernel.Kmalloc
