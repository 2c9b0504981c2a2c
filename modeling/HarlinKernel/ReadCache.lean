import HarlinKernel.PageFault
import HarlinKernel.UserRecords

/-! The read cache of `fs/page_cache.c`: a table of slots, each with a key and a frame that holds a
copy of the data. The frames come from the allocator and are also mapped, so the state holds the
memory and the page tables. A page is read as 512 words. The member `dirty`, which nothing reads,
is left out. -/
namespace HarlinKernel.ReadCache

open TransitionSystem PageAllocator PageTable AddressSpace LabelledWalk
open Function (update update_self update_of_ne)

def rcBuckets : ℕ := 64
def rcVaBase : ℕ := 0xFFFF800040000000

structure Slot where
  key : UInt32
  used : Bool
  phys : ℕ
  touch : ℕ

structure Cache where
  slots : ℕ → Slot
  tickCounter : ℕ
  hitCount : ℕ
  missCount : ℕ
  vaCursor : ℕ
  vmm : Vmm

/-- The loop of `pick_victim` over the rest of the slots. -/
def pickFrom (slots : ℕ → Slot) (best idx : ℕ) : List ℕ → ℕ
  | [] => idx
  | i :: is =>
    if (slots i).used = false then i
    else if (slots i).touch < best then pickFrom slots (slots i).touch i is
    else pickFrom slots best idx is

def pickVictim (slots : ℕ → Slot) : ℕ := pickFrom slots (2^64-1) 0 (List.range rcBuckets)

def readCacheInit (s : Cache) : Cache :=
  { s with
    slots := fun i => if i < rcBuckets then ⟨0xFFFFFFFF,false,0,0⟩ else s.slots i
    tickCounter := 0
    hitCount := 0
    missCount := 0
    vaCursor := rcVaBase }

/-- The first slot with the key, as the loops look for it. -/
def findSlot (slots : ℕ → Slot) (key : UInt32) : Option ℕ :=
  (List.range rcBuckets).find? fun i => (slots i).used && (slots i).key == key

/-- The result and the pointer that is stored, if one is. -/
def readCacheGet (s : Cache) (key : UInt32) : (ℤ × Option ℕ) × Cache :=
  let tick := (s.tickCounter+1)%2^64
  match findSlot s.slots key with
  | some i =>
    ((0,some (s.slots i).phys),{ s with
      slots := update s.slots i { s.slots i with touch := tick }
      tickCounter := tick
      hitCount := (s.hitCount+1)%2^64 })
  | none =>
    ((-1,none),{ s with
      tickCounter := tick
      missCount := (s.missCount+1)%2^64 })

/-- The copy loop. -/
def copyPage (v : Vmm) (phys : ℕ) (data : ℕ → ℕ) : Vmm :=
  { v with
    mem := update v.mem phys fun i => if i < 512 then data i else v.mem phys i }

def pmmFreePage (v : Vmm) (phys : ℕ) : Vmm := { v with pmm := pmmFree v.pmm phys }

def nextVa (va : ℕ) : ℕ := if rcVaBase+0x400000 ≤ va+4096 then rcVaBase else va+4096

/-- `Harlin_ReadCachePut` up to what its call of `vmm_map` does, whose result it ignores. -/
def putWith (map : Vmm → ℕ → ℕ → Vmm) (s : Cache) (key : UInt32) (data : ℕ → ℕ) : Cache :=
  let victim := pickVictim s.slots
  let r := allocPage s.vmm
  if r.1 = 0 then { s with vmm := r.2 }
  else
    let v := copyPage r.2 r.1 data
    let v := if (s.slots victim).used = true ∧ (s.slots victim).phys ≠ 0 then
      pmmFreePage v (s.slots victim).phys else v
    { s with
      slots := update s.slots victim ⟨key,true,r.1,s.tickCounter⟩
      vaCursor := nextVa s.vaCursor
      vmm := map v s.vaCursor r.1 }

def readCachePut : Cache → UInt32 → (ℕ → ℕ) → Cache :=
  putWith fun v va phys => (vmmMap v va phys 3).2

def readCacheDrop (s : Cache) (key : UInt32) : Cache :=
  match findSlot s.slots key with
  | some i =>
    { s with
      vmm := if (s.slots i).phys ≠ 0 then pmmFreePage s.vmm (s.slots i).phys else s.vmm
      slots := update s.slots i { s.slots i with
        used := false
        key := 0xFFFFFFFF } }
  | none => s

inductive Call
  | put (key : UInt32) (data : ℕ → ℕ)
  | get (key : UInt32)
  | drop (key : UInt32)

def act (s : Cache) : Call → Option ((ℤ × Option ℕ) × Cache)
  | .put key data => some ((0,none),readCachePut s key data)
  | .get key => some (readCacheGet s key)
  | .drop key => some ((0,none),readCacheDrop s key)

/-- The data that was put last for each key and not dropped since. -/
abbrev Last := UInt32 → Option (ℕ → ℕ)

def recordLast (_ : Cache) (c : Call) (_ : ℤ × Option ℕ) (_ : Cache) (last : Last) : Last :=
  match c with
  | .put key data => update last key (some data)
  | .get _ => last
  | .drop key => update last key none

/-- The current page tables form a tree, and no free frame is one of them. -/
def Paged (v : Vmm) : Prop := Tables v.mem v.pmm {v.currentPml4Phys &&& frameMask}

/-- A frame is available. -/
def Available (x : Cache × Last) (a : Call × (ℤ × Option ℕ)) : Prop :=
  match a.1 with
  | .put _ _ => (allocPage x.1.vmm).1 ≠ 0
  | _ => True

/-- Runs from `Harlin_ReadCacheInit` on, with frames available. -/
def cacheRuns : System (Cache × Last) (Call × (ℤ × Option ℕ)) :=
  (replies (fun x => ∃ s, Paged s.vmm ∧ x = (readCacheInit s,fun _ => none))
    (recording act recordLast)).guarded Available

/-- A hit gives a page with the data that was put last for the key, and there is no hit for a key
that was not put since it was dropped. -/
def Coherent (x : Cache × Last) : Prop :=
  ∀ key phys, (readCacheGet x.1 key).1 = (0,some phys) →
    ∃ data, x.2 key = some data ∧ ∀ i < 512, x.1.vmm.mem phys i = data i

/-- No slot but the one that is replaced has the key. -/
def NewKey (x : Cache × Last) (a : Call × (ℤ × Option ℕ)) : Prop :=
  match a.1 with
  | .put key _ => ∀ i < rcBuckets, (x.1.slots i).used = true → (x.1.slots i).key = key →
    i = pickVictim x.1.slots
  | _ => True

section Frames

variable {s t : Vmm} {f g : ℕ}

/-- The frame is in use for data. -/
structure Page (v : Vmm) (f : ℕ) : Prop where
  allocated : Allocated v.pmm f
  outside : Outside v.mem {v.currentPml4Phys &&& frameMask} f

lemma Page.extended (h : Page s f) (hext : Extended s t {rootFrame s}) :
    Page t f := by
  refine ⟨hext.pmm.allocated h.allocated,?_⟩
  rw [hext.current]
  exact hext.outside h.outside h.allocated.not_free

lemma Paged.extended (hext : Extended s t {rootFrame s}) : Paged t := by
  rw [Paged,hext.current]
  exact hext.tables

lemma copyPage_spec (h : Paged s) (hne : (allocPage s).1 ≠ 0) (data : ℕ → ℕ) :
    Paged (copyPage (allocPage s).2 (allocPage s).1 data) ∧
    Page (copyPage (allocPage s).2 (allocPage s).1 data) (allocPage s).1 ∧ ∀ g, Page s g →
    g ≠ (allocPage s).1 ∧ Page (copyPage (allocPage s).2 (allocPage s).1 data) g ∧
    (copyPage (allocPage s).2 (allocPage s).1 data).mem g = s.mem g := by
  obtain ⟨phys,hph⟩ : ∃ phys, phys = (allocPage s).1 := ⟨_,rfl⟩
  obtain ⟨t,ht⟩ : ∃ t, t = copyPage (allocPage s).2 (allocPage s).1 data := ⟨_,rfl⟩
  rw [← ht,← hph]
  rcases allocPage_spec h.sized with hfl | ⟨base,hbs,htk⟩
  · rw [hfl] at hne
    exact absurd rfl hne
  have hfr : phys = frameAddr base := hph.trans hbs
  have hfe : FreeFrame s.pmm phys := hfr ▸ Taken.free htk
  have hmem : ∀ f ≠ phys, t.mem f = s.mem f := by
    intro f hf
    rw [ht]
    simp only [copyPage,← hph]
    rw [update_of_ne hf]
    rfl
  have hpmm : t.pmm = (allocPage s).2.pmm := by rw [ht]; rfl
  have hext := (kept_frame h (h.outside hfe) hmem (hpmm ▸ Taken.shrunk htk h.sized)
    (by rw [ht]; exact ⟨rfl,rfl⟩)).toExtended
  refine ⟨.extended hext,⟨?_,?_⟩,fun g hg => ?_⟩
  · have hpl : InPool t.pmm phys := by
      refine ⟨base,?_,hfr⟩
      rw [hpmm,htk.total]
      exact htk.run.inside
    exact hpl.allocated (by rw [hfr,hpmm]; exact Taken.not_free htk)
  · rw [hext.current]
    exact outside_frame (h.outside hfe) hmem
  · have hne' : g ≠ phys := (hg.allocated.ne hfe).symm
    exact ⟨hne',hg.extended hext,hmem g hne'⟩

lemma copyPage_data (v : Vmm) (phys : ℕ) (data : ℕ → ℕ) {i : ℕ} (hi : i < 512) :
    (copyPage v phys data).mem phys i = data i := by
  simp [copyPage,if_pos hi]

lemma pmmFreePage_spec (h : Paged s) (hg : Page s g) :
    Paged (pmmFreePage s g) ∧ ∀ f, f ≠ g → Page s f → Page (pmmFreePage s g) f :=
  ⟨Tables.pmmFree h hg.outside hg.allocated.inPool,fun _ hne hf =>
    ⟨hf.allocated.pmmFree h.sized hg.allocated.inPool hne,hf.outside⟩⟩

/-- What is done to tables leaves the pages in use for data. -/
def KeepsPages (map : Vmm → ℕ → ℕ → Vmm) : Prop :=
  ∀ v va phys, Paged v →
    Paged (map v va phys) ∧ ∀ f, Page v f → Page (map v va phys) f ∧ (map v va phys).mem f = v.mem f

lemma vmmMap_keepsPages : KeepsPages fun v va phys => (vmmMap v va phys 3).2 := by
  intro s virt phys h
  have hext : Extended s (vmmMap s virt phys 3).2 {rootFrame s} := by
    rcases vmmMap_spec virt phys h rfl (by decide : 3 < 8) with ⟨-,hkp⟩ | ⟨-,hmp⟩
    · exact hkp.toExtended
    · exact hmp.toExtended
  exact ⟨.extended hext,fun f hf => ⟨hf.extended hext,
    vmmMap_data virt phys 3 h rfl hf.allocated.not_free hf.outside⟩⟩

end Frames

section Slots

variable {slots : ℕ → Slot} {key : UInt32} {i : ℕ}

lemma pickFrom_mem (slots : ℕ → Slot) (best idx : ℕ) (is : List ℕ) :
    pickFrom slots best idx is = idx ∨ pickFrom slots best idx is ∈ is := by
  induction is generalizing best idx with
  | nil => exact .inl rfl
  | cons i is ih =>
    rw [pickFrom]
    split_ifs
    · exact .inr List.mem_cons_self
    · rcases ih (slots i).touch i with heq | hmem
      · rw [heq]
        exact .inr List.mem_cons_self
      · exact .inr (List.mem_cons_of_mem i hmem)
    · exact (ih best idx).imp_right (List.mem_cons_of_mem i)

lemma pickVictim_lt (slots : ℕ → Slot) : pickVictim slots < rcBuckets := by
  rcases pickFrom_mem slots (2^64-1) 0 (List.range rcBuckets) with heq | hmem
  · rw [pickVictim,heq]
    decide
  · exact List.mem_range.mp hmem

lemma findSlot_some (h : findSlot slots key = some i) :
    i < rcBuckets ∧ (slots i).used = true ∧ (slots i).key = key := by
  have hmem := List.mem_of_find?_eq_some h
  have hfn := List.find?_some h
  simp only [Bool.and_eq_true,beq_iff_eq] at hfn
  exact ⟨List.mem_range.mp hmem,hfn⟩

lemma findSlot_none (h : findSlot slots key = none) (hi : i < rcBuckets)
    (hus : (slots i).used = true) : (slots i).key ≠ key := by
  have hno := List.find?_eq_none.mp h i (List.mem_range.mpr hi)
  simpa [hus] using hno

end Slots

section Owners

variable {s t : Cache} {slots : ℕ → Slot} {key : UInt32} {data : ℕ → ℕ} {v : ℕ} {z : Slot}
  {map : Vmm → ℕ → ℕ → Vmm}

/-- The slots in use differ in a member. -/
def Apart {β : Type} (f : Slot → β) (slots : ℕ → Slot) : Prop :=
  ∀ i < rcBuckets, ∀ j < rcBuckets, (slots i).used = true → (slots j).used = true →
    f (slots i) = f (slots j) → i = j

lemma Apart.update {β : Type} {f : Slot → β} (h : Apart f slots)
    (hnew : z.used = true → ∀ i < rcBuckets, i ≠ v → (slots i).used = true → f (slots i) ≠ f z) :
    Apart f (update slots v z) := by
  intro i hi j hj
  by_cases hiv : i = v
  · by_cases hjv : j = v
    · exact fun _ _ _ => hiv.trans hjv.symm
    · rw [hiv,update_self,update_of_ne hjv]
      exact fun hus hjs heq => absurd heq.symm (hnew hus j hj hjv hjs)
  · rw [update_of_ne hiv]
    by_cases hjv : j = v
    · rw [hjv,update_self]
      exact fun his hus heq => absurd heq (hnew hus i hi hiv his)
    · rw [update_of_ne hjv]
      exact h i hi j hj

/-- Each slot in use has a frame of its own. -/
structure Owns (s : Cache) : Prop where
  paged : Paged s.vmm
  page : ∀ i < rcBuckets, (s.slots i).used = true → Page s.vmm (s.slots i).phys
  apart : Apart Slot.phys s.slots

lemma Page.ne_zero {v : Vmm} {f : ℕ} (h : Page v f) : f ≠ 0 := by
  obtain ⟨i,-,rfl,-⟩ := h.allocated
  exact frameAddr_ne_zero i

lemma readCacheInit_free (s : Cache) {i : ℕ} (hi : i < rcBuckets) :
    ((readCacheInit s).slots i).used = false := by
  simp [readCacheInit,if_pos hi]

lemma Owns.init (h : Paged s.vmm) : Owns (readCacheInit s) := by
  refine ⟨h,fun i hi hus => ?_,fun i hi _ _ hus => ?_⟩ <;>
    · rw [readCacheInit_free s hi] at hus
      cases hus

lemma Owns.update (h : Owns s) (ht : t.slots = update s.slots v z) (hpg : Paged t.vmm)
    (hrs : ∀ i < rcBuckets, i ≠ v → (s.slots i).used = true → Page t.vmm (s.slots i).phys)
    (hnew : z.used = true → Page t.vmm z.phys ∧ ∀ i < rcBuckets, i ≠ v → (s.slots i).used = true →
      (s.slots i).phys ≠ z.phys) : Owns t := by
  refine ⟨hpg,fun i hi => ?_,ht ▸ h.apart.update fun hus => (hnew hus).2⟩
  rw [ht]
  by_cases hiv : i = v
  · rw [hiv,update_self]
    exact fun hus => (hnew hus).1
  · rw [update_of_ne hiv]
    exact hrs i hi hiv

lemma putWith_slots (hfr : (allocPage s.vmm).1 ≠ 0) :
    (putWith map s key data).slots =
      update s.slots (pickVictim s.slots) ⟨key,true,(allocPage s.vmm).1,s.tickCounter⟩ := by
  simp [putWith,if_neg hfr]

lemma Owns.put_pages (h : Owns s) (hmap : KeepsPages map) (hfr : (allocPage s.vmm).1 ≠ 0)
    (key : UInt32) (data : ℕ → ℕ) :
    let t := (putWith map s key data).vmm
    Paged t ∧ Page t (allocPage s.vmm).1 ∧ (∀ w < 512, t.mem (allocPage s.vmm).1 w = data w) ∧
    ∀ i < rcBuckets, (s.slots i).used = true →
      (s.slots i).phys ≠ (allocPage s.vmm).1 ∧
      (i ≠ pickVictim s.slots →
        Page t (s.slots i).phys ∧ t.mem (s.slots i).phys = s.vmm.mem (s.slots i).phys) := by
  obtain ⟨hpg₁,hpage₁,hkp₁⟩ := copyPage_spec h.paged hfr data
  have hdt := fun i (hi : i < 512) =>
    copyPage_data (allocPage s.vmm).2 (allocPage s.vmm).1 data hi
  have hlt := pickVictim_lt s.slots
  rw [putWith]
  simp only [if_neg hfr]
  generalize pickVictim s.slots = v at hlt ⊢
  generalize (allocPage s.vmm).1 = phys at hpg₁ hpage₁ hkp₁ hdt ⊢
  generalize copyPage (allocPage s.vmm).2 phys data = v₁ at hpg₁ hpage₁ hkp₁ hdt ⊢
  obtain ⟨v₂,hv₂⟩ : ∃ v₂, v₂ = if (s.slots v).used = true ∧ (s.slots v).phys ≠ 0 then
      pmmFreePage v₁ (s.slots v).phys else v₁ := ⟨_,rfl⟩
  rw [← hv₂]
  -- the frame of the replaced slot is given back before the new one is mapped
  have hst₂ : Paged v₂ ∧ v₂.mem = v₁.mem ∧ ∀ f, Page v₁ f →
      ((s.slots v).used = true → f ≠ (s.slots v).phys) → Page v₂ f := by
    rw [hv₂]
    split_ifs with hvc
    · obtain ⟨hpg,hkp⟩ := pmmFreePage_spec hpg₁ (hkp₁ _ (h.page v hlt hvc.1)).2.1
      exact ⟨hpg,rfl,fun f hf hne => hkp f (hne hvc.1) hf⟩
    · exact ⟨hpg₁,rfl,fun f hf _ => hf⟩
  obtain ⟨hpg₂,hmem₂,hkp₂⟩ := hst₂
  obtain ⟨hpg₃,hkp₃⟩ := hmap v₂ s.vaCursor phys hpg₂
  have hpage₂ : Page v₂ phys := hkp₂ phys hpage₁ fun hus heq =>
    (hkp₁ _ (h.page v hlt hus)).1 heq.symm
  refine ⟨hpg₃,(hkp₃ _ hpage₂).1,fun w hw => ?_,fun i hi hus => ?_⟩
  · rw [(hkp₃ _ hpage₂).2,hmem₂]
    exact hdt w hw
  · obtain ⟨hne,hpage,hmem⟩ := hkp₁ _ (h.page i hi hus)
    refine ⟨hne,fun hiv => ?_⟩
    have hpage' := hkp₂ _ hpage fun hvs heq => hiv (h.apart i hi v hlt hus hvs heq)
    exact ⟨(hkp₃ _ hpage').1,(hkp₃ _ hpage').2.trans ((congrFun hmem₂ _).trans hmem)⟩

lemma Owns.put (h : Owns s) (hmap : KeepsPages map) (hfr : (allocPage s.vmm).1 ≠ 0) :
    Owns (putWith map s key data) := by
  obtain ⟨hpg,hpage,-,hrs⟩ := h.put_pages hmap hfr key data
  exact h.update (putWith_slots hfr) hpg (fun i hi hiv hus => ((hrs i hi hus).2 hiv).1)
    fun _ => ⟨hpage,fun i hi _ hus => (hrs i hi hus).1⟩

lemma Owns.drop (h : Owns s) (key : UInt32) : Owns (readCacheDrop s key) := by
  rw [readCacheDrop]
  split
  · rename_i i hfn
    obtain ⟨hi,hus,-⟩ := findSlot_some hfn
    have hpage := h.page i hi hus
    obtain ⟨hpg,hkp⟩ := pmmFreePage_spec h.paged hpage
    rw [if_pos hpage.ne_zero]
    refine h.update rfl hpg (fun j hj hji hjs => ?_) fun hnew => by cases hnew
    exact hkp _ (fun heq => hji (h.apart j hj i hi hjs hus heq)) (h.page j hj hjs)
  · exact h

lemma readCacheGet_same (s : Cache) (key : UInt32) :
    (readCacheGet s key).2.vmm = s.vmm ∧
    ∀ i, ((readCacheGet s key).2.slots i).used = (s.slots i).used ∧
      ((readCacheGet s key).2.slots i).key = (s.slots i).key ∧
      ((readCacheGet s key).2.slots i).phys = (s.slots i).phys := by
  rw [readCacheGet]
  split
  · rename_i i hfn
    refine ⟨rfl,fun j => ?_⟩
    by_cases hji : j = i <;> simp [hji]
  · simp

lemma Owns.get (h : Owns s) (key : UInt32) : Owns (readCacheGet s key).2 := by
  obtain ⟨hvmm,hsl⟩ := readCacheGet_same s key
  refine ⟨hvmm ▸ h.paged,?_,?_⟩ <;> simp only [Apart,hvmm,hsl]
  · exact h.page
  · exact h.apart

end Owners

variable {x y : Cache × Last} {a : Call × (ℤ × Option ℕ)}

/-- Each slot in use has a frame of its own with the data last put for its key, and no two have the
same key. -/
structure Held (x : Cache × Last) : Prop extends Owns x.1 where
  keys : Apart Slot.key x.1.slots
  data : ∀ i < rcBuckets, (x.1.slots i).used = true → ∃ data, x.2 (x.1.slots i).key = some data ∧
    ∀ w < 512, x.1.vmm.mem (x.1.slots i).phys w = data w

lemma Held.coherent (h : Held x) : Coherent x := by
  intro key phys hget
  cases hfn : findSlot x.1.slots key with
  | none =>
    simp only [readCacheGet,hfn] at hget
    cases hget
  | some i =>
    simp only [readCacheGet,hfn] at hget
    obtain ⟨hi,hus,hkey⟩ := findSlot_some hfn
    obtain ⟨-,hph⟩ := Prod.mk.inj hget
    cases hph
    exact hkey ▸ h.data i hi hus

lemma Held.get (h : Held x) (key : UInt32) : Held ((readCacheGet x.1 key).2,x.2) := by
  obtain ⟨hvmm,hsl⟩ := readCacheGet_same x.1 key
  refine ⟨h.toOwns.get key,?_,?_⟩ <;> simp only [Apart,hvmm,hsl]
  · exact h.keys
  · exact h.data

lemma Held.drop (h : Held x) (key : UInt32) :
    Held (readCacheDrop x.1 key,update x.2 key none) := by
  refine ⟨h.toOwns.drop key,?_,?_⟩ <;> rw [readCacheDrop] <;> split
  · exact h.keys.update fun hnew => by cases hnew
  · exact h.keys
  · rename_i i hfn
    obtain ⟨hi,hus,hkey⟩ := findSlot_some hfn
    intro j hj
    by_cases hji : j = i
    · simp [hji]
    · have hmem : (if (x.1.slots i).phys ≠ 0 then pmmFreePage x.1.vmm (x.1.slots i).phys
          else x.1.vmm).mem = x.1.vmm.mem := by split_ifs <;> rfl
      simp only [update_of_ne hji,hmem]
      intro hjs
      rw [update_of_ne fun heq => hji (h.keys j hj i hi hjs hus (heq.trans hkey.symm))]
      exact h.data j hj hjs
  · rename_i hfn
    intro i hi hus
    dsimp only
    rw [update_of_ne (findSlot_none hfn hi hus)]
    exact h.data i hi hus

lemma Held.put (h : Held x) (key : UInt32) (data : ℕ → ℕ) (hfr : (allocPage x.1.vmm).1 ≠ 0)
    (hnew : ∀ i < rcBuckets, (x.1.slots i).used = true → (x.1.slots i).key = key →
      i = pickVictim x.1.slots) : Held (readCachePut x.1 key data,update x.2 key (some data)) := by
  obtain ⟨-,-,hdt,hrs⟩ := h.toOwns.put_pages vmmMap_keepsPages hfr key data
  have hot : ∀ i < rcBuckets, i ≠ pickVictim x.1.slots → (x.1.slots i).used = true →
      (x.1.slots i).key ≠ key := fun i hi hiv hus heq => hiv (hnew i hi hus heq)
  refine ⟨h.toOwns.put vmmMap_keepsPages hfr,?_,fun i hi => ?_⟩ <;> dsimp only <;>
    rw [readCachePut,putWith_slots hfr]
  · exact h.keys.update fun _ => hot
  · by_cases hiv : i = pickVictim x.1.slots
    · rw [hiv,update_self]
      exact fun _ => ⟨data,update_self _ _ _,hdt⟩
    · rw [update_of_ne hiv]
      intro hus
      rw [update_of_ne (hot i hi hiv hus),((hrs i hi hus).2 hiv).2]
      exact h.data i hi hus

lemma cacheRuns_put {s : Cache} {last : Last} {key : UInt32} {data : ℕ → ℕ}
    (hfr : (allocPage s.vmm).1 ≠ 0) : cacheRuns.step (s,last) (.put key data,(0,none))
      (readCachePut s key data,update last key (some data)) :=
  ⟨recording_eq_some.mpr ⟨rfl,rfl⟩,hfr⟩

/-- As long as a key is only put when no other slot than the replaced one has it, a hit gives the
data that was put last, and there is none after the key was dropped. -/
theorem cache_coherent (l : List (Call × (ℤ × Option ℕ))) (x : Cache × Last)
    (h : Trace (cacheRuns.guarded NewKey) l x) : Coherent x := by
  refine Held.coherent (h.reach.invariant Held ?_ ?_)
  · rintro x ⟨s,hpg,rfl⟩
    refine ⟨.init hpg,fun i hi _ _ hus => ?_,fun i hi hus => ?_⟩ <;>
      · rw [readCacheInit_free s hi] at hus
        cases hus
  rintro x ⟨c,r⟩ y hx ⟨⟨hst,hav⟩,hnew⟩
  obtain ⟨hact,hy⟩ := recording_eq_some.mp hst
  obtain ⟨s,last⟩ := y
  dsimp only at hact hy
  subst hy
  cases c with
  | put key data =>
    cases hact
    exact hx.put key data hav hnew
  | get key =>
    have hget := hx.get key
    rw [Option.some.inj hact] at hget
    exact hget
  | drop key =>
    cases hact
    exact hx.drop key

/-- The cache over empty page tables, and two pages that differ. -/
def emptyCache : Cache := readCacheInit ⟨fun _ => ⟨0,false,0,0⟩,0,0,0,0,emptyTables⟩

lemma emptyCache_start {R : Type} (r : R) :
    ∃ s : Cache, Paged s.vmm ∧ (emptyCache,r) = (readCacheInit s,r) :=
  ⟨⟨fun _ => ⟨0,false,0,0⟩,0,0,0,0,emptyTables⟩,emptyTables_tables,rfl⟩

lemma emptyCache_init : cacheRuns.init (emptyCache,fun _ => none) := emptyCache_start _

def pageA : ℕ → ℕ := fun _ => 7
def pageB : ℕ → ℕ := fun _ => 8

lemma emptyCache_put : (allocPage emptyCache.vmm).1 ≠ 0 ∧
    (readCacheGet (readCachePut emptyCache 1 pageA) 1).1 = (0,some 0x300000) := by
  decide

theorem cache_coherent_put :
    ∃ l x, Trace (cacheRuns.guarded NewKey) l x ∧ l.map Prod.fst = [.put 1 pageA] ∧
      (readCacheGet x.1 1).1 = (0,some 0x300000) ∧
      ∃ data, x.2 1 = some data ∧ ∀ i < 512, x.1.vmm.mem 0x300000 i = data i := by
  obtain ⟨hfr,hget⟩ := emptyCache_put
  have hnew : NewKey (emptyCache,fun _ => none) (.put 1 pageA,(0,none)) := by
    intro i hi hus
    simp only [emptyCache,readCacheInit,if_pos hi] at hus
    cases hus
  have htr : Trace (cacheRuns.guarded NewKey) ([] ++ [(.put 1 pageA,(0,none))])
      (readCachePut emptyCache 1 pageA,update (fun _ => none) 1 (some pageA)) :=
    .next (.start emptyCache_init) ⟨cacheRuns_put hfr,hnew⟩
  exact ⟨_,_,htr,rfl,hget,cache_coherent _ _ htr 1 _ hget⟩

/-- The second of two puts of one key takes another slot, and the first one is still found. -/
theorem emptyCache_puts :
    (allocPage (readCachePut emptyCache 1 pageA).vmm).1 ≠ 0 ∧
    (readCacheGet (readCachePut (readCachePut emptyCache 1 pageA) 1 pageB) 1).1 =
      (0,some 0x300000) ∧
    (readCachePut (readCachePut emptyCache 1 pageA) 1 pageB).vmm.mem 0x300000 0 = 7 := by
  decide +kernel

/-- After two puts of one key a hit gives the data of the first. -/
theorem second_put_lost :
    ∃ l x, Trace cacheRuns l x ∧ l.map Prod.fst = [.put 1 pageA,.put 1 pageB] ∧
      x.2 1 = some pageB ∧ (readCacheGet x.1 1).1 = (0,some 0x300000) ∧
      x.1.vmm.mem 0x300000 0 = 7 ∧ pageB 0 = 8 ∧ ¬ Coherent x := by
  obtain ⟨hfr,-⟩ := emptyCache_put
  obtain ⟨hfr',hget,hmem⟩ := emptyCache_puts
  have htr : Trace cacheRuns ([] ++ [(.put 1 pageA,(0,none))] ++ [(.put 1 pageB,(0,none))])
      (readCachePut (readCachePut emptyCache 1 pageA) 1 pageB,
        update (update (fun _ => none) 1 (some pageA)) 1 (some pageB)) :=
    .next (.next (.start emptyCache_init) (cacheRuns_put hfr)) (cacheRuns_put hfr')
  generalize readCachePut (readCachePut emptyCache 1 pageA) 1 pageB = s at hget hmem htr
  have hls : update (update (fun _ => none) 1 (some pageA)) 1 (some pageB)
      (1 : UInt32) = some pageB := Function.update_self _ _ _
  refine ⟨_,_,htr,rfl,hls,hget,hmem,rfl,fun hch => ?_⟩
  obtain ⟨data,hdt,hsm⟩ := hch 1 _ hget
  cases hls.symm.trans hdt
  have hzr := hsm 0 (by decide)
  rw [hmem] at hzr
  cases hzr

section Ledger

/-- How often the cache took each frame from `pmm_alloc` for data, and how often it passed it to
`pmm_free`. -/
structure Ledger where
  taken : ℕ → ℕ
  freed : ℕ → ℕ

def bump (n : ℕ → ℕ) : Option ℕ → ℕ → ℕ
  | none => n
  | some f => update n f (n f+1)

/-- A call, and puts where `pmm_alloc` fails: for the data, or for a table of `vmm_map`. -/
inductive Attempt
  | call (c : Call)
  | noFrame
  | noTable (key : UInt32) (data : ℕ → ℕ) (level : ℕ)

/-- `vmm_map` up to the table of a level, which it does not get. -/
def mapUpTo (level : ℕ) (v : Vmm) (virt _phys : ℕ) : Vmm :=
  let pdpt := getOrAllocTable v v.currentPml4Phys (pml4Idx virt) 3
  let pd := getOrAllocTable pdpt.2 pdpt.1 (pdptIdx virt) 3
  if level = 0 then v
  else if level = 1 ∨ pdpt.1 = 0 then pdpt.2
  else if pd.1 = 0 then pd.2
  else { pd.2 with lastReplacedPhys := 0 }

/-- A call; the table of a level can only be missed if there is none. -/
def actFailing (s : Cache) : Attempt → Option ((ℤ × Option ℕ) × Cache)
  | .call c => act s c
  | .noFrame => some ((0,none),s)
  | .noTable key data level =>
    if level < 3 ∧ descend (next s.vmm.mem) (0,s.vmm.currentPml4Phys &&& frameMask)
        ((tablePath s.vaCursor).take (level+1)) = none then
      some ((0,none),putWith (mapUpTo level) s key data)
    else none

def Attempt.puts : Attempt → Bool
  | .call (.put _ _) => true
  | .noTable _ _ _ => true
  | _ => false

def takenBy (s : Cache) (a : Attempt) : Option ℕ :=
  if a.puts = false ∨ (allocPage s.vmm).1 = 0 then none else some (allocPage s.vmm).1

def freedBy (s : Cache) (a : Attempt) : Option ℕ :=
  match a with
  | .call (.drop key) =>
    (findSlot s.slots key).bind fun i =>
      if (s.slots i).phys ≠ 0 then some (s.slots i).phys else none
  | _ =>
    let victim := s.slots (pickVictim s.slots)
    if a.puts = true ∧ (allocPage s.vmm).1 ≠ 0 ∧ victim.used = true ∧ victim.phys ≠ 0 then
      some victim.phys
    else none

def recordFrames (s : Cache) (a : Attempt) (_ : ℤ × Option ℕ) (_ : Cache) (b : Ledger) : Ledger :=
  ⟨bump b.taken (takenBy s a),bump b.freed (freedBy s a)⟩

def frameRuns : System (Cache × Ledger) (Attempt × (ℤ × Option ℕ)) :=
  replies (fun x => ∃ s, Paged s.vmm ∧ x = (readCacheInit s,⟨fun _ => 0,fun _ => 0⟩))
    (recording actFailing recordFrames)

/-- A slot in use has the frame. -/
def HasFrame (s : Cache) (f : ℕ) : Prop :=
  ∃ i < rcBuckets, (s.slots i).used = true ∧ (s.slots i).phys = f

/-- Each frame in the table was taken once more than freed, and every other one as often. -/
structure Booked (x : Cache × Ledger) : Prop where
  owns : Owns x.1
  held : ∀ f, HasFrame x.1 f → x.2.taken f = x.2.freed f+1
  gone : ∀ f, ¬ HasFrame x.1 f → x.2.taken f = x.2.freed f

variable {x : Cache × Ledger} {s t : Cache} {v : ℕ} {z : Slot}

lemma hasFrame_update (h : Owns s) (hv : v < rcBuckets) (ht : t.slots = update s.slots v z)
    (f : ℕ) :
    HasFrame t f ↔
    (z.used = true ∧ z.phys = f) ∨
      (HasFrame s f ∧ ¬ ((s.slots v).used = true ∧ (s.slots v).phys = f)) := by
  rw [HasFrame,HasFrame,ht]
  constructor
  · rintro ⟨i,hi,hus,hph⟩
    by_cases hiv : i = v
    · rw [hiv,update_self] at hus hph
      exact .inl ⟨hus,hph⟩
    · rw [update_of_ne hiv] at hus hph
      exact .inr ⟨⟨i,hi,hus,hph⟩,fun hold =>
        hiv (h.apart i hi v hv hus hold.1 (hph.trans hold.2.symm))⟩
  · rintro (hnew | ⟨⟨i,hi,hus,hph⟩,hold⟩)
    · exact ⟨v,hv,by rwa [update_self]⟩
    · have hiv : i ≠ v := fun heq => hold (heq ▸ ⟨hus,hph⟩)
      exact ⟨i,hi,by rw [update_of_ne hiv]; exact ⟨hus,hph⟩⟩

lemma bump_apply (n : ℕ → ℕ) (o : Option ℕ) (f : ℕ) :
    bump n o f = if o = some f then n f+1 else n f := by
  cases o with
  | none => simp [bump]
  | some g =>
    by_cases hf : f = g
    · simp [bump,hf]
    · simp [bump,hf,Ne.symm hf]

lemma Booked.change (h : Booked x) (ht : Owns t) {new old : Option ℕ}
    (hnew : ∀ f, new = some f → ¬ HasFrame x.1 f) (hold : ∀ f, old = some f → HasFrame x.1 f)
    (hfr : ∀ f, HasFrame t f ↔ new = some f ∨ (HasFrame x.1 f ∧ old ≠ some f)) :
    Booked (t,⟨bump x.2.taken new,bump x.2.freed old⟩) := by
  have hhl := h.held
  have hgn := h.gone
  refine ⟨ht,fun f hf => ?_,fun f hf => ?_⟩ <;> rw [hfr f] at hf <;> simp only [bump_apply] <;>
    grind

lemma getOrAllocTable_pages {u : Vmm} {table : ℕ} {q : List ℕ} {n : Node} (h : Paged u) (idx : ℕ)
    (hn : descend (next u.mem) (0,rootFrame u) q = some n) (hdp : n.1 ≤ 1)
    (hfr : table &&& frameMask = n.2) :
    Paged (getOrAllocTable u table idx 3).2 ∧ ∀ f, Page u f →
      Page (getOrAllocTable u table idx 3).2 f ∧
      (getOrAllocTable u table idx 3).2.mem f = u.mem f := by
  have hext := (getOrAllocTable_spec (i := idx) 3 h rfl hn hdp hfr).1.toExtended
  refine ⟨.extended hext,fun f hf => ⟨hf.extended hext,?_⟩⟩
  refine getOrAllocTable_data idx 3 h.sized hf.allocated.not_free ?_
  rw [hfr]
  exact (hf.outside _ rfl q n hn).symm

lemma mapUpTo_keepsPages (level : ℕ) : KeepsPages (mapUpTo level) := by
  intro v virt phys h
  have hst : descend (next v.mem) (0,rootFrame v) [] = some (0,rootFrame v) := rfl
  obtain ⟨hkp,hds⟩ := getOrAllocTable_spec (i := pml4Idx virt) 3 h rfl hst (Nat.zero_le 1) rfl
  obtain ⟨hpg,hpl⟩ := getOrAllocTable_pages h (pml4Idx virt) hst (Nat.zero_le 1) rfl
  rw [mapUpTo]
  dsimp only
  generalize getOrAllocTable v v.currentPml4Phys (pml4Idx virt) 3 = pdpt at hkp hds hpg hpl ⊢
  split_ifs with h₀ h₁ h₂
  · exact ⟨h,fun f hf => ⟨hf,rfl⟩⟩
  · exact ⟨hpg,hpl⟩
  all_goals
    obtain ⟨hn,hms⟩ := hds.resolve_left fun hzr => h₁ (.inr hzr)
    rw [← hkp.current] at hn
    obtain ⟨hpg',hpl'⟩ := getOrAllocTable_pages hpg (pdptIdx virt) hn le_rfl hms
    refine ⟨hpg',fun f hf => ?_⟩
    obtain ⟨hpage,hmem⟩ := hpl' f (hpl f hf).1
    exact ⟨⟨hpage.allocated,hpage.outside⟩,hmem.trans (hpl f hf).2⟩

lemma Booked.put (h : Booked x) {map : Vmm → ℕ → ℕ → Vmm} (hmap : KeepsPages map) (key : UInt32)
    (data : ℕ → ℕ) {a : Attempt} (ha : a.puts = true) :
    Booked (putWith map x.1 key data,
       ⟨bump x.2.taken (takenBy x.1 a),bump x.2.freed (freedBy x.1 a)⟩) := by
  have hfd : freedBy x.1 a = if (allocPage x.1.vmm).1 ≠ 0 ∧
      (x.1.slots (pickVictim x.1.slots)).used = true ∧
      (x.1.slots (pickVictim x.1.slots)).phys ≠ 0 then
      some (x.1.slots (pickVictim x.1.slots)).phys else none := by
    rcases a with (_ | _ | _) | _ | _ <;> cases ha <;> simp [freedBy,Attempt.puts]
  have htk :
      takenBy x.1 a = if (allocPage x.1.vmm).1 = 0 then none else some (allocPage x.1.vmm).1 := by
    simp [takenBy,ha]
  rw [htk,hfd]
  by_cases hfr : (allocPage x.1.vmm).1 = 0
  · have hsm : putWith map x.1 key data = x.1 := by
      rcases allocPage_spec h.owns.paged.sized with hfl | ⟨base,hbs,-⟩
      · simp [putWith,hfl]
      · exact absurd (hbs.symm.trans hfr) (frameAddr_ne_zero base)
    simpa [hsm,hfr,bump] using h
  obtain ⟨-,-,-,hrs⟩ := h.owns.put_pages hmap hfr key data
  have hlt := pickVictim_lt x.1.slots
  have hpage := h.owns.page _ hlt
  refine h.change (h.owns.put hmap hfr) (fun f hf => ?_) (fun f hf => ?_) fun f => ?_
  · rw [if_neg hfr,Option.some.injEq] at hf
    rintro ⟨i,hi,hus,hph⟩
    exact (hrs i hi hus).1 (hph.trans hf.symm)
  · split_ifs at hf with hvc
    exact ⟨_,hlt,hvc.2.1,Option.some.inj hf⟩
  · rw [hasFrame_update h.owns hlt (putWith_slots hfr)]
    by_cases hus : (x.1.slots (pickVictim x.1.slots)).used = true
    · simp [hfr,hus,(hpage hus).ne_zero]
    · simp [hfr,hus]

lemma Booked.drop (h : Booked x) (key : UInt32) :
    Booked (readCacheDrop x.1 key,
       ⟨bump x.2.taken none,bump x.2.freed (freedBy x.1 (.call (.drop key)))⟩) := by
  have how := h.owns.drop key
  simp only [freedBy]
  rw [readCacheDrop] at how ⊢
  split at how
  · rename_i i hfn
    obtain ⟨hi,hus,-⟩ := findSlot_some hfn
    have hpage := (h.owns.page i hi hus).ne_zero
    simp only [hfn,Option.bind_some,if_pos hpage] at how ⊢
    refine h.change how (by simp) (fun f hf => ⟨i,hi,hus,Option.some.inj hf⟩) fun f => ?_
    rw [hasFrame_update h.owns hi rfl]
    simp [hus]
  · rename_i hfn
    simpa [hfn,bump] using h

/-- The frames of the slots in use are distinct and allocated, and every frame that the cache took
is in one of them or has been given back. -/
theorem cache_frames_owned (l : List (Attempt × (ℤ × Option ℕ))) (x : Cache × Ledger)
    (h : Trace frameRuns l x) :
    (∀ i < rcBuckets, (x.1.slots i).used = true →
      (x.1.slots i).phys ≠ 0 ∧ Allocated x.1.vmm.pmm (x.1.slots i).phys) ∧
    (∀ i < rcBuckets, ∀ j < rcBuckets, (x.1.slots i).used = true → (x.1.slots j).used = true →
      (x.1.slots i).phys = (x.1.slots j).phys → i = j) ∧
    ∀ f, (HasFrame x.1 f → x.2.taken f = x.2.freed f+1) ∧
      (¬ HasFrame x.1 f → x.2.taken f = x.2.freed f) := by
  have hx : Booked x := by
    refine h.reach.invariant Booked ?_ ?_
    · rintro x ⟨s,hpg,rfl⟩
      refine ⟨.init hpg,?_,fun _ _ => rfl⟩
      rintro f ⟨i,hi,hus,-⟩
      rw [readCacheInit_free s hi] at hus
      cases hus
    rintro x ⟨c,r⟩ ⟨t,b⟩ hx hst
    obtain ⟨hact,hb⟩ := recording_eq_some.mp hst
    dsimp only at hact hb
    subst hb
    rcases c with (⟨key,data⟩ | key | key) | _ | ⟨key,data,level⟩
    · cases hact
      exact hx.put vmmMap_keepsPages key data rfl
    · have how := hx.owns.get key
      have hsl := (readCacheGet_same x.1 key).2
      rw [Option.some.inj hact] at how hsl
      dsimp only at hsl
      refine hx.change how (by simp [takenBy,Attempt.puts]) (by simp [freedBy,Attempt.puts]) ?_
      intro f
      simp [takenBy,freedBy,Attempt.puts,HasFrame,hsl]
    · cases hact
      exact hx.drop key
    · cases hact
      exact hx
    · simp only [actFailing] at hact
      split_ifs at hact
      cases hact
      exact hx.put (mapUpTo_keepsPages level) key data rfl
  exact ⟨fun i hi hus => ⟨(hx.owns.page i hi hus).ne_zero,(hx.owns.page i hi hus).allocated⟩,
    hx.owns.apart,fun f => ⟨hx.held f,hx.gone f⟩⟩

theorem cache_frames_owned_put :
    ∃ l x, Trace frameRuns l x ∧
      l.map Prod.fst = [.noTable 1 pageA 1,.noFrame,.call (.put 2 pageB)] ∧
      (x.1.slots 0).used = true ∧
      x.2.taken (x.1.slots 0).phys = x.2.freed (x.1.slots 0).phys+1 := by
  refine exists_run (P := fun _ x => (x.1.slots 0).used = true)
    (s := (emptyCache,⟨fun _ => 0,fun _ => 0⟩)) (emptyCache_start _) (by decide)
    fun l x htr hus => ⟨hus,?_⟩
  exact ((cache_frames_owned l x htr).2.2 _).1 ⟨0,by decide,hus,rfl⟩

end Ledger

section Recency

/-- The number of calls so far and, for each slot, of the call that used it last. -/
structure Uses where
  now : ℕ
  last : ℕ → ℕ

def recordUses (s : Cache) (c : Call) (_ : ℤ × Option ℕ) (_ : Cache) (u : Uses) : Uses where
  now := u.now+1
  last :=
    match c with
    | .put _ _ =>
      if (allocPage s.vmm).1 = 0 then u.last else update u.last (pickVictim s.slots) u.now
    | .get key =>
      match findSlot s.slots key with
      | some i => update u.last i u.now
      | none => u.last
    | .drop _ => u.last

/-- Only puts and gets. -/
def NoDrop (_ : Cache × Uses) (a : Call × (ℤ × Option ℕ)) : Prop :=
  match a.1 with
  | .drop _ => False
  | _ => True

instance (x : Cache × Uses) : (a : Call × (ℤ × Option ℕ)) → Decidable (NoDrop x a)
  | (.put _ _,_) => isTrue trivial
  | (.get _,_) => isTrue trivial
  | (.drop _,_) => isFalse id

def useRuns : System (Cache × Uses) (Call × (ℤ × Option ℕ)) :=
  (replies (fun x => ∃ s, Paged s.vmm ∧ x = (readCacheInit s,⟨0,fun _ => 0⟩))
    (recording act recordUses)).guarded NoDrop

/-- If all slots are used, the one that the next put replaces was used before all the others. -/
def ReplacesOldest (x : Cache × Uses) : Prop :=
  (∀ i < rcBuckets, (x.1.slots i).used = true) →
    ∀ i < rcBuckets, i ≠ pickVictim x.1.slots → x.2.last (pickVictim x.1.slots) < x.2.last i

/-- The smallest count of the slots is that of one slot only. -/
def OneOldest (slots : ℕ → Slot) : Prop :=
  ∃ i < rcBuckets, ∀ j < rcBuckets, j ≠ i → (slots i).touch < (slots j).touch

/-- The counter does not wrap, and a put that finds all slots used finds one of them with the
smallest count. -/
def Untied (x : Cache × Uses) (a : Call × (ℤ × Option ℕ)) : Prop :=
  match a.1 with
  | .put _ _ => (∀ i < rcBuckets, (x.1.slots i).used = true) → OneOldest x.1.slots
  | _ => x.1.tickCounter+1 < 2^64

/-- A later use has no smaller count. -/
structure Ordered (x : Cache × Uses) : Prop where
  tick : x.1.tickCounter < 2^64
  touch : ∀ i < rcBuckets, (x.1.slots i).used = true → (x.1.slots i).touch ≤ x.1.tickCounter
  past : ∀ i < rcBuckets, (x.1.slots i).used = true → x.2.last i < x.2.now
  order : ∀ i < rcBuckets, ∀ j < rcBuckets, (x.1.slots i).used = true → (x.1.slots j).used = true →
    i ≠ j → x.2.last i ≤ x.2.last j → x.2.last i < x.2.last j ∧
      (x.1.slots i).touch ≤ (x.1.slots j).touch

variable {x y : Cache × Uses} {slots : ℕ → Slot} {i : ℕ} {z : Slot}

lemma pickFrom_least {best idx : ℕ} {is : List ℕ} (h : ∀ i ∈ is, (slots i).used = true) :
    (pickFrom slots best idx is = idx ∧ ∀ i ∈ is, best ≤ (slots i).touch) ∨
      ((slots (pickFrom slots best idx is)).touch < best ∧
        ∀ i ∈ is, (slots (pickFrom slots best idx is)).touch ≤ (slots i).touch) := by
  induction is generalizing best idx with
  | nil => simp [pickFrom]
  | cons i is ih =>
    rw [List.forall_mem_cons] at h
    rw [pickFrom,if_neg (by simp [h.1])]
    simp only [List.forall_mem_cons]
    split_ifs with hlt
    · rcases @ih (slots i).touch i h.2 with ⟨heq,hall⟩ | ⟨hls,hall⟩
      · rw [heq]
        exact .inr ⟨hlt,le_rfl,hall⟩
      · exact .inr ⟨hls.trans hlt,hls.le,hall⟩
    · rcases @ih best idx h.2 with ⟨heq,hall⟩ | ⟨hls,hall⟩
      · exact .inl ⟨heq,not_lt.mp hlt,hall⟩
      · exact .inr ⟨hls,hls.le.trans (not_lt.mp hlt),hall⟩

lemma Ordered.use (h : Ordered x) (hsl : y.1.slots = update x.1.slots i z)
    (hls : y.2.last = update x.2.last i x.2.now) (hnow : y.2.now = x.2.now+1)
    (hti : y.1.tickCounter < 2^64) (hle : x.1.tickCounter ≤ y.1.tickCounter)
    (hz : z.touch = y.1.tickCounter) : Ordered y := by
  have htc := h.touch
  have hps := h.past
  refine ⟨hti,fun j hj => ?_,fun j hj => ?_,fun j hj k hk => ?_⟩ <;>
    simp only [hsl,hls,hnow] <;> by_cases hji : j = i
  · simp [hji,hz]
  · simpa [hji] using fun hus => (htc j hj hus).trans hle
  · simp [hji]
  · simpa [hji] using fun hus => (hps j hj hus).trans (Nat.lt_succ_self _)
  · by_cases hki : k = i
    · exact fun _ _ hne => absurd (hji.trans hki.symm) hne
    · simpa [hji,hki] using fun _ hus _ hle => absurd hle (not_le.mpr (hps k hk hus))
  · by_cases hki : k = i
    · simpa [hji,hki,hz] using fun hus _ _ => ⟨hps j hj hus,(htc j hj hus).trans hle⟩
    · simpa [hji,hki] using h.order j hj k hk

lemma Ordered.wait (h : Ordered x) (hsl : y.1.slots = x.1.slots) (hls : y.2.last = x.2.last)
    (hnow : y.2.now = x.2.now+1) (htc : y.1.tickCounter < 2^64)
    (hle : x.1.tickCounter ≤ y.1.tickCounter) : Ordered y := by
  refine ⟨htc,?_,?_,?_⟩ <;> simp only [hsl,hls,hnow]
  · exact fun i hi hus => (h.touch i hi hus).trans hle
  · exact fun i hi hus => (h.past i hi hus).trans (Nat.lt_succ_self _)
  · exact h.order

lemma Ordered.replacesOldest (h : Ordered x)
    (hone : (∀ i < rcBuckets, (x.1.slots i).used = true) → OneOldest x.1.slots) :
    ReplacesOldest x := by
  intro hus i hi hne
  obtain ⟨v,hv,hls⟩ := hone hus
  have hall : ∀ j ∈ List.range rcBuckets, (x.1.slots j).used = true := fun j hj =>
    hus j (List.mem_range.mp hj)
  -- the search starts from the greatest count, which no two slots have here
  have hvc : pickVictim x.1.slots = v := by
    by_contra hot
    have hlt := hls _ (pickVictim_lt x.1.slots) hot
    have hto := h.touch _ (pickVictim_lt x.1.slots) (hus _ (pickVictim_lt x.1.slots))
    have htc := h.tick
    rcases @pickFrom_least x.1.slots (2^64-1) 0 _ hall with ⟨-,hmax⟩ | ⟨-,hmin⟩
    · have hmax' := hmax v (List.mem_range.mpr hv)
      omega
    · exact absurd (hmin v (List.mem_range.mpr hv)) (not_le.mpr hlt)
  rw [hvc] at hne ⊢
  by_contra hle
  have hbc := h.order i hi v hv (hus i hi) (hus v hv) hne (not_lt.mp hle)
  exact absurd hbc.2 (not_le.mpr (hls i hi hne))

/-- As long as no put finds two slots with the smallest count, each one that finds all slots used
replaces the entry whose last use is the earliest. -/
theorem cache_replaces_oldest (l : List (Call × (ℤ × Option ℕ))) (x : Cache × Uses)
    (h : Trace (useRuns.guarded Untied) l x) (key : UInt32) (data : ℕ → ℕ)
    (hput : Untied x (.put key data,(0,none))) : ReplacesOldest x := by
  refine Ordered.replacesOldest (h.reach.invariant Ordered ?_ ?_) hput
  · rintro x ⟨s,-,rfl⟩
    refine ⟨by simp [readCacheInit],?_,?_,?_⟩ <;> intro i hi <;> simp [readCacheInit,hi]
  rintro x ⟨c,r⟩ ⟨t,u⟩ hx ⟨⟨hst,hdr⟩,hun⟩
  obtain ⟨hact,hu⟩ := recording_eq_some.mp hst
  dsimp only at hact hu
  cases c with
  | put key data =>
    cases hact
    have htc : (readCachePut x.1 key data).tickCounter = x.1.tickCounter := by
      simp only [readCachePut,putWith]
      split_ifs <;> rfl
    by_cases hfr : (allocPage x.1.vmm).1 = 0
    · refine hx.wait ?_ ?_ ?_ (htc ▸ hx.tick) htc.ge <;>
        simp [readCachePut,putWith,hu,recordUses,hfr]
    · refine hx.use (putWith_slots hfr) ?_ ?_ (htc ▸ hx.tick) htc.ge htc.symm <;>
        simp [hu,recordUses,hfr]
  | get key =>
    have htc : (x.1.tickCounter+1) % 2^64 = x.1.tickCounter+1 := Nat.mod_eq_of_lt hun
    simp only [act,readCacheGet,htc] at hact
    cases hfn : findSlot x.1.slots key with
    | none =>
      simp only [hfn] at hact
      cases hact
      refine hx.wait rfl ?_ ?_ hun (Nat.le_succ _) <;> simp [hu,recordUses,hfn]
    | some i =>
      simp only [hfn] at hact
      cases hact
      refine hx.use rfl ?_ ?_ hun (Nat.le_succ _) rfl <;>
        simp [hu,recordUses,hfn]
  | drop key => cases hdr

instance (x : Cache × Uses) : (a : Call × (ℤ × Option ℕ)) → Decidable (Untied x a)
  | (.put _ _,_) => inferInstanceAs (Decidable ((∀ i < _, _) → ∃ i < _, _))
  | (.get _,_) => inferInstanceAs (Decidable (_ < _))
  | (.drop _,_) => inferInstanceAs (Decidable (_ < _))

/-- Sixty-five entries, each hit once after it is put: the first one is gone and the second one is
the next to go. -/
theorem cache_replaces_oldest_full :
    ∃ l x, Trace (useRuns.guarded Untied) l x ∧
      l.map Prod.fst =
        (List.range 65).flatMap (fun k => [.put (UInt32.ofNat k) pageA,.get (UInt32.ofNat k)]) ∧
      (∀ i < rcBuckets, (x.1.slots i).used = true) ∧ (x.1.slots 0).key = 64 ∧
      pickVictim x.1.slots = 1 ∧ ReplacesOldest x := by
  rw [useRuns,System.guarded_guarded]
  refine exists_guarded_run (P := fun _ x => (∀ i < rcBuckets, (x.1.slots i).used = true) ∧
      (x.1.slots 0).key = 64 ∧ pickVictim x.1.slots = 1 ∧ Untied x (.put 65 pageA,(0,none)))
    (s := (emptyCache,⟨0,fun _ => 0⟩)) (emptyCache_start _) (by decide +kernel) ?_
  rintro l x htr ⟨hus,hky,hvc,hun⟩
  rw [← System.guarded_guarded] at htr
  exact ⟨hus,hky,hvc,cache_replaces_oldest l x htr 65 pageA hun⟩

/-- After 65 puts the next one replaces the entry that was put last. -/
theorem newest_entry_replaced :
    ∃ l x, Trace useRuns l x ∧
      l.map Prod.fst = (List.range 65).map (fun k => .put (UInt32.ofNat k) pageA) ∧
      (∀ i < rcBuckets, (x.1.slots i).used = true) ∧ pickVictim x.1.slots = 0 ∧
      x.2.last 0 = 64 ∧ x.2.last 1 = 1 ∧ ¬ ReplacesOldest x := by
  refine exists_guarded_run (P := fun _ x => (∀ i < rcBuckets, (x.1.slots i).used = true) ∧
      pickVictim x.1.slots = 0 ∧ x.2.last 0 = 64 ∧ x.2.last 1 = 1)
    (s := (emptyCache,⟨0,fun _ => 0⟩)) (emptyCache_start _) (by decide +kernel) ?_
  rintro - x - ⟨hus,hvc,hnw,hot⟩
  refine ⟨hus,hvc,hnw,hot,fun hol => ?_⟩
  have hlt := hol hus 1 (by decide) (by rw [hvc]; decide)
  rw [hvc,hnw,hot] at hlt
  exact absurd hlt (by decide)

end Recency

end HarlinKernel.ReadCache
