import HarlinKernel.TransitionSystem
import HarlinKernel.PageMapping

/-! Address spaces: the tables set up by `boot/stage2.asm` and `vmm_init`, the copies made
by `vmm_clone_kernel_pml4`, and what mapping a user page in one of them does to the others. -/
namespace HarlinKernel.AddressSpace

open Bitmap PageAllocator LabelledWalk PageTable TransitionSystem
open Function (update update_self update_apply update_of_ne update_eq_self)
open List (mem_cons nodup_cons not_mem_nil)

def kernelPml4Virt : ℕ := 0xFF8000000000
def tempMapVa : ℕ := 0x0000800000000000
def bootPml4 : ℕ := 0x20000

/-- A frame whose only word is `e` at `i`. -/
def word (i e : ℕ) : ℕ → ℕ := fun l => if l = i then e else 0

/-- The loop `set_pd` of the boot code. -/
def bootPd : ℕ → ℕ := fun i => if i < 512 then 0x83+i*0x200000 else 0

/-- Memory as the boot code leaves it. -/
def bootMem (mem : ℕ → ℕ → ℕ) : ℕ → ℕ → ℕ :=
  update (update (update mem 0x20000 (word 0 0x21003)) 0x21000
    (word 0 0x22003)) 0x22000 bootPd

def bootState (mem : ℕ → ℕ → ℕ) (pmm : Pmm) : Vmm where
  mem := bootMem mem
  pmm := pmm
  kernelPml4Phys := 0
  currentPml4Phys := 0
  lastReplacedPhys := 0

def kernelEntry (page : ℕ) : ℕ := page ||| vmmPresent ||| vmmWritable

def clearFrames (mem : ℕ → ℕ → ℕ) (frames : List ℕ) : ℕ → ℕ → ℕ :=
  frames.foldl (fun mem f => update mem f fun _ => 0) mem

def fillSelf (mem : ℕ → ℕ → ℕ) (pt : ℕ) : ℕ → ℕ → ℕ → ℕ
  | 0 => mem
  | n+1 => setWord (fillSelf mem pt n) pt n (kernelEntry pt)

/-- The three entries over the page table of `virt`. -/
def linkTables (mem : ℕ → ℕ → ℕ) (pml4 pdpt pd pt virt : ℕ) : ℕ → ℕ → ℕ :=
  let mem := setWord mem pd (pdIdx virt) (kernelEntry pt)
  let mem := setWord mem pdpt (pdptIdx virt) (kernelEntry pd)
  setWord mem pml4 (pml4Idx virt) (kernelEntry pdpt)

/-- The writes of `vmm_init` once it has its frames. -/
def initTables (mem : ℕ → ℕ → ℕ) (pml4Phys recPdpt recPd recPt tmpPdpt tmpPd tmpPt selfPt : ℕ) :
    ℕ → ℕ → ℕ :=
  let mem := clearFrames mem [recPdpt,recPd,recPt,tmpPdpt,tmpPd,tmpPt,selfPt]
  let mem := setWord mem recPt (ptIdx kernelPml4Virt) (kernelEntry pml4Phys)
  let mem := linkTables mem pml4Phys recPdpt recPd recPt kernelPml4Virt
  let mem := fillSelf mem tmpPt 512
  linkTables mem pml4Phys tmpPdpt tmpPd tmpPt tempMapVa

/-- `vmm_init`; none if it halts for want of a frame. -/
def vmmInit (s : Vmm) (pml4Phys : ℕ) : Option Vmm :=
  let s := { s with
    kernelPml4Phys := pml4Phys
    currentPml4Phys := pml4Phys }
  let recPdpt := allocPage s
  let recPd := allocPage recPdpt.2
  let recPt := allocPage recPd.2
  let tmpPdpt := allocPage recPt.2
  let tmpPd := allocPage tmpPdpt.2
  let tmpPt := allocPage tmpPd.2
  let selfPt := allocPage tmpPt.2
  if recPdpt.1 = 0 ∨ recPd.1 = 0 ∨ recPt.1 = 0 ∨ tmpPdpt.1 = 0 ∨ tmpPd.1 = 0 ∨ tmpPt.1 = 0 ∨
      selfPt.1 = 0 then none
  else
    some { selfPt.2 with
      mem := initTables selfPt.2.mem pml4Phys recPdpt.1 recPd.1 recPt.1 tmpPdpt.1 tmpPd.1 tmpPt.1
        selfPt.1 }

def vmmSwitch (s : Vmm) (pml4Phys : ℕ) : Vmm := { s with currentPml4Phys := pml4Phys }

/-- A read of the current PML4 where its own tables map it. -/
def pml4ReadEntry (s : Vmm) (i : ℕ) : ℕ :=
  match physAddr s.mem (s.currentPml4Phys &&& frameMask) (kernelPml4Virt+i*8) with
  | some phys => s.mem (phys &&& frameMask) (phys % 4096 / 8)
  | none => 0

def copyPml4 (s : Vmm) (new : ℕ) : ℕ → Vmm
  | 0 => s
  | n+1 =>
    let s := copyPml4 s new n
    writePtEntry s new n (pml4ReadEntry s n)

def releasePage (s : Vmm) (page : ℕ) : Vmm :=
  if page ≠ 0 then { s with pmm := pmmFree s.pmm page } else s

/-- A page cleared through the window. -/
def clearWindow (s : Vmm) (page : ℕ) : Vmm := clearPagePhys s (page &&& frameMask)

def vmmCloneKernelPml4 (s : Vmm) : ℕ × Vmm :=
  let new := allocPage s
  if new.1 = 0 then (0,new.2)
  else
    let pdpt := allocPage new.2
    let pd := allocPage pdpt.2
    let pt := allocPage pd.2
    if pdpt.1 = 0 ∨ pd.1 = 0 ∨ pt.1 = 0 then
      (0,[pdpt.1,pd.1,pt.1,new.1].foldl releasePage pt.2)
    else
      let s := [new.1,pdpt.1,pd.1,pt.1].foldl clearWindow pt.2
      let s := copyPml4 s new.1 512
      let s := writePtEntry s new.1 (pml4Idx kernelPml4Virt) (kernelEntry pdpt.1)
      let s := writePtEntry s pdpt.1 (pdptIdx kernelPml4Virt) (kernelEntry pd.1)
      let s := writePtEntry s pd.1 (pdIdx kernelPml4Virt) (kernelEntry pt.1)
      (new.1,writePtEntry s pt.1 (ptIdx kernelPml4Virt) (kernelEntry new.1))

variable {page r i root virt a b c f pdpt pd pt x d e g new cur : ℕ} {mem : ℕ → ℕ → ℕ} {n : Node}
  {p₁ p₂ p₃ : Pmm} {content : ℕ → ℕ} {fresh frames : List ℕ}

lemma kernelEntry_eq (h : page &&& frameMask = page) : kernelEntry page = tableEntry page 0 := by
  rw [kernelEntry,tableEntry,h,Nat.zero_and,Nat.or_zero]

lemma kernelEntry_step {k : ℕ} (hk : k ≤ 2) (h : page &&& frameMask = page) :
    entryStep k (kernelEntry page) = .go (k+1,page) := by
  rw [kernelEntry_eq h]
  exact tableEntry_step 0 hk h

lemma kernelEntry_page (h : page &&& frameMask = page) :
    entryStep 3 (kernelEntry page) = .stop (some (page,0xFFF)) := by
  rw [kernelEntry_eq h,entryStep_page (tableEntry_present page 0),tableEntry_frame,h]

variable {s t : Vmm} {roots : Set ℕ}

/-- Memory with a page table and the tables above it, linked from the top. -/
def chainMem (mem : ℕ → ℕ → ℕ) (root virt pdpt pd pt : ℕ) (content : ℕ → ℕ) : ℕ → ℕ → ℕ :=
  let mem := setWord (update mem pdpt fun _ => 0) root (pml4Idx virt) (kernelEntry pdpt)
  let mem := setWord (update mem pd fun _ => 0) pdpt (pdptIdx virt) (kernelEntry pd)
  setWord (update mem pt content) pd (pdIdx virt) (kernelEntry pt)

/-- The state after a page table was linked where there was none. -/
structure Chained (s t : Vmm) (roots : Set ℕ) (root virt pt : ℕ) (content : ℕ → ℕ) : Prop
    extends Extended s t roots where
  table : descend (next t.mem) (0,root) (tablePath virt) = some (3,pt)
  pages : ∀ l, t.mem pt l = content l
  same : ∀ r ∈ roots, ∀ v m, descend (next s.mem) (0,r) (tablePath v) = some m →
    physAddr t.mem r v = physAddr s.mem r v

lemma translate_linked {mem' : ℕ → ℕ → ℕ} {v frame : ℕ} {m : Node}
    (hln : Linked (next mem) (next mem') (0,r) n i (n.1+1,frame)) (hdp : n.1 ≤ 2)
    (hm : descend (next mem) (0,r) (tablePath v) = some m) :
    physAddr mem' r v = physAddr mem r v := by
  rw [physAddr,hln.edited.follow_eq,physAddr]
  rintro ⟨q,rest,hq,hd⟩
  have hlen := descend_depth hd
  cases rest using List.reverseRecOn with
  | nil =>
    have hfr : (labels v).length = 4 := rfl
    rw [hq,List.length_append,List.length_singleton] at hfr
    omega
  | append_singleton rest l =>
    obtain ⟨k,hk⟩ := Uses.go ⟨q,rest,tablePath_eq hq,hd⟩ hm
    exact hln.stopped k hk

lemma chain_spec (htab : Tables s.mem s.pmm roots) (hrt : root ∈ roots)
    (hst : next s.mem (0,root) (pml4Idx virt) = .stop none) (ha : Taken s.pmm a 1 p₁)
    (hb : Taken p₁ b 1 p₂) (hc : Taken p₂ c 1 p₃) :
    Chained s { s with
      mem := chainMem s.mem root virt (frameAddr a) (frameAddr b) (frameAddr c) content
      pmm := p₃ } roots root virt (frameAddr c) content := by
  have hs₁ := ha.sized htab.sized
  have hsr : descend (next s.mem) (0,root) [] = some (0,root) := rfl
  have hroot_ne : root ≠ frameAddr a := htab.outside (Taken.free ha) root hrt [] _ hsr
  let t₁ : Vmm := { s with
    mem := setWord (update s.mem (frameAddr a) fun _ => 0) root (pml4Idx virt)
      (kernelEntry (frameAddr a))
    pmm := p₁ }
  obtain ⟨hkp₁,hln₁⟩ := link_clear (t:=t₁) htab hrt hsr (Nat.zero_le 2) hst ha
    (kernelEntry_step (Nat.zero_le 2) (frameAddr_frame htab.sized ha)) rfl ⟨rfl,rfl⟩
  have hst₁ : next t₁.mem (1,frameAddr a) (pdptIdx virt) = .stop none := by
    apply entryStep_absent
    simp only [t₁]
    rw [setWord_other _ _ (.inl hroot_ne.symm),update_self,Nat.zero_and]
  have hab : frameAddr a ≠ frameAddr b := hkp₁.tables.outside (Taken.free hb) root hrt _ _ hln₁
  let t₂ : Vmm := { t₁ with
    mem := setWord (update t₁.mem (frameAddr b) fun _ => 0) (frameAddr a) (pdptIdx virt)
      (kernelEntry (frameAddr b))
    pmm := p₂ }
  obtain ⟨hkp₂,hln₂⟩ := link_clear (t:=t₂) hkp₁.tables hrt hln₁ one_le_two hst₁ hb
    (kernelEntry_step one_le_two (frameAddr_frame hs₁ hb)) rfl ⟨rfl,rfl⟩
  have hst₂ : next t₂.mem (2,frameAddr b) (pdIdx virt) = .stop none := by
    apply entryStep_absent
    simp only [t₂]
    rw [setWord_other _ _ (.inl hab.symm),update_self,Nat.zero_and]
  have hout := hkp₂.tables.outside (Taken.free hc)
  have hbc : frameAddr b ≠ frameAddr c := hout root hrt _ _ hln₂
  have hnew : NewTable t₂.mem (chainMem s.mem root virt (frameAddr a) (frameAddr b) (frameAddr c)
      content) (2,frameAddr b) (pdIdx virt) (frameAddr c) := by
    refine newTable_write (n:=(2,frameAddr b)) hbc ?_ ?_ ?_ ?_
    · simp [hst₂]
    · exact kernelEntry_step le_rfl (frameAddr_frame (hb.sized hs₁) hc)
    · intro l
      exact (entryStep_last _).1
    · intro l base hbad
      exact ((entryStep_last _).2 base hbad).elim
  obtain ⟨hext,hln₃⟩ := hnew.extended (t:={ s with
    mem := chainMem s.mem root virt (frameAddr a) (frameAddr b) (frameAddr c) content
    pmm := p₃ }) hkp₂.tables hrt hln₂ hc ⟨rfl,rfl⟩
  have hkp := hkp₁.trans hkp₂
  refine ⟨hkp.toExtended.trans hext,hln₃,fun l => ?_,fun r hr v m hm => ?_⟩
  · simp only [chainMem]
    rw [setWord_other _ _ (.inl hbc.symm),update_self]
  · rw [translate_linked (hnew.link hkp₂.tables hrt hln₂ hout hr) le_rfl (hkp.old r hr _ m hm),
      hkp.same r hr]

lemma bootPd_step (l : ℕ) :
    entryStep 2 (bootPd l) = .stop none ∨
    entryStep 2 (bootPd l) = .stop (some (l*0x200000,0x1FFFFF)) := by
  rw [bootPd]
  split
  · rename_i hl
    right
    have hsum : 0x83+l*0x200000 = l*0x200000 ||| 0x83 := by
      have hor := aligned_or_mod (n:=21) (a:=l*0x200000) (by omega) 0x83
      rw [show 0x83 % 2^21 = 0x83 from rfl] at hor
      omega
    have hfr : l*0x200000 &&& frameMask = l*0x200000 :=
      aligned_and_frameMask (by omega) (by omega)
    rw [hsum,entryStep_huge ?_ ?_,entry_frame hfr (by decide)]
    · rw [Nat.and_or_distrib_right]
      exact fun hzr => absurd (Nat.or_eq_zero_iff.mp hzr).2 (by decide)
    · rw [Nat.and_or_distrib_right]
      exact fun hzr => absurd (Nat.or_eq_zero_iff.mp hzr).2 (by decide)
  · exact .inl (entryStep_absent 2 (Nat.zero_and _))

lemma bootMem_eq (mem : ℕ → ℕ → ℕ) :
    bootMem mem =
      setWord
        (update
          (setWord (update (update mem 0x20000 fun _ => 0) 0x21000 fun _ => 0) 0x20000 0 0x21003)
          0x22000 bootPd) 0x21000 0 0x22003 := by
  funext f l
  by_cases h₀ : f = 0x20000
  · subst h₀
    simp [bootMem,setWord,word,update_apply]
  by_cases h₁ : f = 0x21000
  · subst h₁
    simp [bootMem,setWord,word,update_apply]
  · simp [bootMem,setWord,update_apply,h₀,h₁]

/-- The first 1 GiB is translated by the boot code's page directory. -/
structure Low (mem : ℕ → ℕ → ℕ) (r : ℕ) : Prop where
  pdpt : descend (next mem) (0,r) [0] = some (1,0x21000)
  pd : descend (next mem) (0,r) [0,0] = some (2,0x22000)

lemma Low.extend (h : Low s.mem r) (hr : r ∈ roots) (hext : Extended s t roots) : Low t.mem r :=
  ⟨hext.old r hr _ _ h.pdpt,hext.old r hr _ _ h.pd⟩

lemma bootMem_tables (mem : ℕ → ℕ → ℕ) {p : Pmm} (hs : Sized p) :
    Tables (bootMem mem) p {bootPml4} ∧ Low (bootMem mem) bootPml4 := by
  have hlow : ∀ f < 0x300000, ¬ FreeFrame p f := fun f hf => low_not_free hf
  have hp : Shrunk p p := Shrunk.refl hs
  have hem : ∀ k, entryStep k 0 = .stop none := fun k => entryStep_absent k (Nat.zero_and _)
  obtain ⟨m₀,hm₀⟩ : ∃ m, m = update mem bootPml4 fun _ => 0 := ⟨_,rfl⟩
  have hwr₀ : ∀ l, m₀ bootPml4 l = 0 := fun l => by rw [hm₀,update_self]
  have htab₀ : Tables m₀ p {bootPml4} := by
    refine tables_empty_root hs (hlow _ (by decide)) ?_
    intro l
    rw [hwr₀,Nat.zero_and]
  have hsr : descend (next m₀) (0,bootPml4) [] = some (0,bootPml4) := rfl
  have hpt₀ : ∀ q n, descend (next m₀) (0,bootPml4) q = some n → n = (0,bootPml4) := by
    intro q n hn
    cases q with
    | nil => exact (Option.some.inj hn).symm
    | cons l q =>
      simp only [descend,next,hwr₀,hem] at hn
      cases hn
  have hout₀ : Outside m₀ {bootPml4} 0x21000 := by
    rintro r rfl q n hn
    rw [hpt₀ q n hn]
    decide
  obtain ⟨m₁,hm₁⟩ : ∃ m, m = setWord (update m₀ 0x21000 fun _ => 0) bootPml4 0 0x21003 :=
    ⟨_,rfl⟩
  have hnew₁ : NewTable m₀ m₁ (0,bootPml4) 0 0x21000 := by
    rw [hm₁]
    refine newTable_write (n:=(0,bootPml4)) (by decide) ?_ rfl ?_ ?_
    · simp [next,hwr₀,hem]
    all_goals simp [hem]
  have htab₁ := hnew₁.tables htab₀ rfl hsr hout₀ hp (hlow _ (by decide))
  have hln₁ := hnew₁.link htab₀ rfl hsr hout₀ (r:=bootPml4) rfl
  have hpd : descend (next m₁) (0,bootPml4) [0] = some (1,0x21000) :=
    descend_snoc (p:=[]) |>.mpr ⟨_,hln₁.descend_old hsr,hnew₁.linked⟩
  have hout₁ : Outside m₁ {bootPml4} 0x22000 := by
    rintro r rfl q n hn
    rcases hln₁.descend_cases hn with hn | ⟨rfl,-⟩
    · rw [hpt₀ q n hn]
      decide
    · simp
  have hwr₁ : m₁ 0x21000 0 = 0 := by
    rw [hm₁,setWord_other _ _ (.inl (by decide)),update_self]
  have hnew₂ : NewTable m₁ (bootMem mem) (1,0x21000) 0 0x22000 := by
    rw [bootMem_eq,← bootPml4,← hm₀,← hm₁]
    refine newTable_write (n:=(1,0x21000)) (by simp) ?_ rfl ?_ ?_
    · simp [next,hwr₁,hem]
    · intro l k
      rcases bootPd_step l with hst | hst <;> simp [hst]
    · intro l base hsp
      rcases bootPd_step l with hst | hst
      · simp [hst] at hsp
      · simp only [hst,Step.stop.injEq,Option.some.injEq,Prod.mk.injEq] at hsp
        omega
  have hln₂ := hnew₂.link htab₁ rfl hpd hout₁ (r:=bootPml4) rfl
  refine ⟨hnew₂.tables htab₁ rfl hpd hout₁ hp (hlow _ (by decide)),hln₂.descend_old hpd,?_⟩
  exact descend_snoc (p:=[0]) |>.mpr ⟨_,hln₂.descend_old hpd,hnew₂.linked⟩

lemma next_outside {w : List ℕ} (hout : ∀ f ∈ w, Outside s.mem roots f)
    (hmem : ∀ f ∉ w, t.mem f = s.mem f) (hr : r ∈ roots) (q : List ℕ) (m : Node)
    (l : ℕ) (hm : descend (next s.mem) (0,r) q = some m) : next t.mem m l = next s.mem m l := by
  have hnot : m.2 ∉ w := fun hbad => hout m.2 hbad r hr q m hm rfl
  rw [next,next,hmem m.2 hnot]

lemma descend_outside {w : List ℕ} (hout : ∀ f ∈ w, Outside s.mem roots f)
    (hmem : ∀ f ∉ w, t.mem f = s.mem f) (hr : r ∈ roots) (q : List ℕ) :
    descend (next t.mem) (0,r) q = descend (next s.mem) (0,r) q := by
  refine descend_congr (fun q m l k hm => ?_) q
  rw [next_outside hout hmem hr q m l hm]

/-- Writes to frames that are no tables, and frames that are taken, change no walk. -/
theorem kept_outside {w : List ℕ} (htab : Tables s.mem s.pmm roots)
    (hout : ∀ f ∈ w, Outside s.mem roots f) (hmem : ∀ f ∉ w, t.mem f = s.mem f)
    (hp : Shrunk s.pmm t.pmm) (hrt : SameRoots s t) : Kept s t roots := by
  refine ⟨.of_descend htab hp hrt (fun r hr => descend_outside hout hmem hr) ?_,?_⟩
  · intro r hr q n i base hn hst
    rw [next_outside hout hmem hr q n i hn] at hst
    exact htab.aligned r hr q n i base hn hst
  · intro r hr v
    rw [physAddr,follow_congr (next_outside hout hmem hr),physAddr]

lemma kept_frame (htab : Tables s.mem s.pmm roots) (hout : Outside s.mem roots x)
    (hmem : ∀ f ≠ x, t.mem f = s.mem f) (hp : Shrunk s.pmm t.pmm) (hrt : SameRoots s t) :
    Kept s t roots :=
  kept_outside (w := [x]) htab (by simpa using hout) (fun f hf => hmem f (by simpa using hf)) hp
    hrt

lemma outside_frame (hout : Outside s.mem roots x) (hmem : ∀ f ≠ x, t.mem f = s.mem f) :
    Outside t.mem roots x := by
  intro r hr q n hn
  rw [descend_outside (w := [x]) (by simpa using hout) (fun f hf => hmem f (by simpa using hf))
    hr] at hn
  exact hout r hr q n hn

lemma allocPage_taken (hs : Sized s.pmm) (h : (allocPage s).1 ≠ 0) :
    ∃ base, (allocPage s).1 = frameAddr base ∧ Taken s.pmm base 1 (allocPage s).2.pmm := by
  rcases allocPage_spec hs with hfl | hdn
  · rw [hfl] at h
    exact (h rfl).elim
  · exact hdn

lemma clearFrames_apply (frames : List ℕ) (mem : ℕ → ℕ → ℕ) (f : ℕ) :
    clearFrames mem frames f = if f ∈ frames then fun _ => 0 else mem f := by
  induction frames generalizing mem with
  | nil => simp [clearFrames]
  | cons x frames ih =>
    have hcn : clearFrames mem (x :: frames) =
        clearFrames (update mem x fun _ => 0) frames := rfl
    rw [hcn,ih]
    by_cases hx : f = x <;> simp [hx]

lemma update_same (h : mem f = content) : update mem f content = mem := by
  rw [← h]
  exact update_eq_self f mem

/-- The order in which the tables are linked does not matter once they are clear. -/
theorem linkTables_eq (virt : ℕ) (hpp : mem pdpt = fun _ => 0) (hpd : mem pd = fun _ => 0)
    (hpt : mem pt = content) (hrt₁ : pdpt ≠ root) (hrt₂ : pd ≠ root) (hrt₃ : pt ≠ root)
    (h₁ : pd ≠ pdpt) (h₂ : pt ≠ pdpt) :
    linkTables mem root pdpt pd pt virt = chainMem mem root virt pdpt pd pt content := by
  have hpd' : setWord mem root (pml4Idx virt) (kernelEntry pdpt) pd = fun _ => 0 := by
    rw [setWord_frame _ _ _ hrt₂,hpd]
  have hpt' : setWord (setWord mem root (pml4Idx virt) (kernelEntry pdpt)) pdpt (pdptIdx virt)
      (kernelEntry pd) pt = content := by
    rw [setWord_frame _ _ _ h₂,setWord_frame _ _ _ hrt₃,hpt]
  simp only [chainMem,linkTables]
  rw [update_same hpp,update_same hpd',update_same hpt',setWord_comm _ _ _ _ _ h₁,
    setWord_comm _ _ _ _ _ hrt₂,setWord_comm mem _ _ _ _ hrt₁]

lemma linkTables_frame (mem : ℕ → ℕ → ℕ) (pt virt : ℕ) (hrt : x ≠ root)
    (hpp : x ≠ pdpt) (hpd : x ≠ pd) : linkTables mem root pdpt pd pt virt x = mem x := by
  simp only [linkTables]
  rw [setWord_frame _ _ _ hrt,setWord_frame _ _ _ hpp,setWord_frame _ _ _ hpd]

lemma linkTables_root {l : ℕ} (mem : ℕ → ℕ → ℕ) (pt virt : ℕ) (hpp : root ≠ pdpt)
    (hpd : root ≠ pd) (hl : l ≠ pml4Idx virt) :
    linkTables mem root pdpt pd pt virt root l = mem root l := by
  simp only [linkTables]
  rw [setWord_other _ _ (.inr hl),setWord_other _ _ (.inl hpp),setWord_other _ _ (.inl hpd)]

lemma fillSelf_apply (mem : ℕ → ℕ → ℕ) (pt n f l : ℕ) :
    fillSelf mem pt n f l = if f = pt ∧ l < n then kernelEntry pt else mem f l := by
  induction n with
  | zero => simp [fillSelf]
  | succ n ih =>
    rw [fillSelf]
    by_cases hwr : f ≠ pt ∨ l ≠ n
    · rw [setWord_other _ _ hwr,ih]
      refine if_congr ?_ rfl rfl
      omega
    · push Not at hwr
      obtain ⟨rfl,rfl⟩ := hwr
      simp

lemma fillSelf_frame (mem : ℕ → ℕ → ℕ) (n : ℕ) (h : x ≠ pt) : fillSelf mem pt n x = mem x := by
  funext l
  rw [fillSelf_apply,if_neg fun hc => h hc.1]

/-- What every PML4 of the kernel has: the boot code's page directory, and a page table that
maps the PML4 itself. -/
structure Space (mem : ℕ → ℕ → ℕ) (r : ℕ) : Prop where
  frame : r &&& frameMask = r
  low : Low mem r
  table : ∃ pt, descend (next mem) (0,r) (tablePath kernelPml4Virt) = some (3,pt)
  self : physAddr mem r kernelPml4Virt = some r

lemma Space.extend (h : Space s.mem r) (hr : r ∈ roots) (hext : Extended s t roots)
    (hsl : physAddr t.mem r kernelPml4Virt = physAddr s.mem r kernelPml4Virt) : Space t.mem r := by
  obtain ⟨pt,hpt⟩ := h.table
  exact ⟨h.frame,h.low.extend hr hext,⟨pt,hext.old r hr _ _ hpt⟩,hsl.trans h.self⟩

lemma kernelPml4Virt_offset : kernelPml4Virt &&& 0xFFF = 0 := by decide

lemma self_of_table (hr : r &&& frameMask = r)
    (htb : descend (next mem) (0,r) (tablePath kernelPml4Virt) = some (3,pt))
    (hen : mem pt (ptIdx kernelPml4Virt) = kernelEntry r) :
    physAddr mem r kernelPml4Virt = some r := by
  rw [physAddr,labels_eq,follow_append htb]
  simp [follow,next,hen,kernelEntry_page hr,Leaf.at,kernelPml4Virt_offset]

/-- `pmm_alloc` returned the frame `x` in state `p`. -/
structure Got (p : Pmm) (x : ℕ) (p' : Pmm) : Prop where
  taken : ∃ base, x = frameAddr base ∧ Taken p base 1 p'

variable {p p' p'' : Pmm} {x y : ℕ}

lemma Got.shrunk (h : Got p x p') (hs : Sized p) : Shrunk p p' := by
  obtain ⟨base,-,htk⟩ := h.taken
  exact Taken.shrunk htk hs

lemma Got.free (h : Got p x p') : FreeFrame p x := by
  obtain ⟨base,rfl,htk⟩ := h.taken
  exact Taken.free htk

lemma Got.not_free (h : Got p x p') : ¬ FreeFrame p' x := by
  obtain ⟨base,rfl,htk⟩ := h.taken
  exact Taken.not_free htk

/-- `pmm_alloc` returned the values `xs`, one after another. -/
inductive GotAll : Pmm → List ℕ → Pmm → Prop
  | nil (p : Pmm) : GotAll p [] p
  | cons {p p' p'' : Pmm} {x : ℕ} {xs : List ℕ} (hx : x = 0 ∨ Got p x p') (hp : Shrunk p p')
      (h : GotAll p' xs p'') : GotAll p (x :: xs) p''

variable {xs : List ℕ}

lemma GotAll.alloc (hs : Sized s.pmm)
    (h : Sized (allocPage s).2.pmm → GotAll (allocPage s).2.pmm xs p') :
    GotAll s.pmm ((allocPage s).1 :: xs) p' := by
  have hp := allocPage_pmm hs
  by_cases hzr : (allocPage s).1 = 0
  · exact .cons (.inl hzr) hp (h hp.sized)
  · exact .cons (.inr ⟨allocPage_taken hs hzr⟩) hp (h hp.sized)

lemma GotAll.uncons (h : GotAll p (x :: xs) p') :
    ∃ q, (x = 0 ∨ Got p x q) ∧ Shrunk p q ∧ GotAll q xs p' := by
  cases h with
  | cons hx hp h => exact ⟨_,hx,hp,h⟩

lemma GotAll.shrunk (h : GotAll p xs p') (hs : Sized p) : Shrunk p p' := by
  induction h with
  | nil p => exact Shrunk.refl hs
  | cons _ hp _ ih => exact hp.trans (ih hp.sized)

lemma GotAll.free (h : GotAll p xs p') (hx : x ∈ xs) : x = 0 ∨ FreeFrame p x := by
  induction h with
  | nil p => cases hx
  | cons hy hp _ ih =>
    rcases mem_cons.mp hx with rfl | hx
    · exact hy.imp_right Got.free
    · exact (ih hx).imp_right (hp.free x)

lemma GotAll.freeFrame (h : GotAll p xs p') (hne : 0 ∉ xs) (x : ℕ) (hx : x ∈ xs) :
    FreeFrame p x :=
  (h.free hx).resolve_left (ne_of_mem_of_not_mem hx hne)

lemma GotAll.nodup (h : GotAll p xs p') (hne : 0 ∉ xs) : xs.Nodup := by
  induction h with
  | nil p => exact List.nodup_nil
  | cons hx _ h ih =>
    rw [mem_cons,not_or] at hne
    have hgot := hx.resolve_left (Ne.symm hne.1)
    exact nodup_cons.mpr ⟨fun hbad => hgot.not_free (h.freeFrame hne.2 _ hbad),ih hne.2⟩

lemma GotAll.split {l : List ℕ} (h : GotAll p (l ++ xs) p') :
    ∃ q, GotAll p l q ∧ GotAll q xs p' := by
  induction l generalizing p with
  | nil => exact ⟨p,.nil p,h⟩
  | cons x l ih =>
    obtain ⟨_,hx,hp,h⟩ := h.uncons
    obtain ⟨q,hl,hxs⟩ := ih h
    exact ⟨q,.cons hx hp hl,hxs⟩

lemma linkTables_spec (htab : Tables s.mem s.pmm roots) (hrt : root ∈ roots)
    (hst : next s.mem (0,root) (pml4Idx virt) = .stop none)
    (h : GotAll s.pmm [pdpt,pd,pt] p') (hne : 0 ∉ [pdpt,pd,pt]) (hpp : s.mem pdpt = fun _ => 0)
    (hpd : s.mem pd = fun _ => 0) (hpt : s.mem pt = content) :
    Chained s { s with
      mem := linkTables s.mem root pdpt pd pt virt
      pmm := p' } roots root virt pt content := by
  have hroot_ne : ∀ x ∈ [pdpt,pd,pt], x ≠ root := fun x hx =>
    (htab.outside (h.freeFrame hne x hx) root hrt [] _ rfl).symm
  have hnd := h.nodup hne
  simp only [nodup_cons,mem_cons,not_mem_nil,or_false,not_or] at hnd hne
  rw [linkTables_eq virt hpp hpd hpt (hroot_ne _ (by simp)) (hroot_ne _ (by simp))
    (hroot_ne _ (by simp)) (Ne.symm hnd.1.1) (Ne.symm hnd.1.2)]
  obtain ⟨_,h₁,-,h⟩ := h.uncons
  obtain ⟨_,h₂,-,h⟩ := h.uncons
  obtain ⟨_,h₃,-,h⟩ := h.uncons
  cases h
  obtain ⟨a,rfl,ha⟩ := (h₁.resolve_left (Ne.symm hne.1)).taken
  obtain ⟨b,rfl,hb⟩ := (h₂.resolve_left (Ne.symm hne.2.1)).taken
  obtain ⟨c,rfl,hc⟩ := (h₃.resolve_left (Ne.symm hne.2.2)).taken
  exact chain_spec htab hrt hst ha hb hc

lemma Space.kept (h : Space s.mem r) (hr : r ∈ roots) (hkp : Kept s t roots) : Space t.mem r :=
  h.extend hr hkp.toExtended (hkp.same r hr _)

lemma Chained.space (h : Chained s t roots root virt pt content) (hr : r ∈ roots)
    (hsp : Space s.mem r) : Space t.mem r := by
  obtain ⟨pt',hpt'⟩ := hsp.table
  exact hsp.extend hr h.toExtended (h.same r hr _ _ hpt')

lemma Chained.self
    (h : Chained s t roots root kernelPml4Virt pt (word (ptIdx kernelPml4Virt) (kernelEntry root)))
    (hrt : root ∈ roots) (hfr : root &&& frameMask = root) (hlow : Low s.mem root) :
    Space t.mem root := by
  refine ⟨hfr,hlow.extend hrt h.toExtended,⟨pt,h.table⟩,self_of_table hfr h.table ?_⟩
  rw [h.pages,word,if_pos rfl]

lemma setWord_clear (i v : ℕ) (h : mem f = fun _ => 0) : setWord mem f i v f = word i v := by
  funext l
  rw [setWord,update_self,h]
  simp [word,update_apply]

lemma recTables_spec
    (htab : Tables s.mem s.pmm {root}) (hfm : root &&& frameMask = root)
    (hlow : Low s.mem root)
    (hst : next s.mem (0,root) (pml4Idx kernelPml4Virt) = .stop none)
    (hfr : ∀ x ∈ fresh, FreeFrame s.pmm x) (h : GotAll s.pmm [pdpt,pd,pt] p')
    (hne : 0 ∉ [pdpt,pd,pt]) (hsub : ∀ x ∈ [pdpt,pd,pt], x ∈ fresh) :
    let t := { s with
      mem := linkTables (setWord (clearFrames s.mem fresh) pt (ptIdx kernelPml4Virt)
        (kernelEntry root)) root pdpt pd pt kernelPml4Virt
      pmm := p' }
    Tables t.mem t.pmm {root} ∧ Space t.mem root ∧
      (∀ x ∈ fresh, x ∉ [pdpt,pd,pt] → t.mem x = fun _ => 0) ∧
      ∀ l ≠ pml4Idx kernelPml4Virt, t.mem root l = s.mem root l := by
  have hrt : ∀ x ∈ fresh, root ≠ x := fun x hx =>
    htab.outside (hfr x hx) root rfl [] _ rfl
  have hnot : root ∉ fresh := fun hbad => hrt root hbad rfl
  have hnd := h.nodup hne
  simp only [nodup_cons,mem_cons,not_mem_nil,or_false,not_or] at hnd
  have hpt := hsub pt (by simp)
  obtain ⟨m,hm⟩ : ∃ m, m = setWord (clearFrames s.mem fresh) pt (ptIdx kernelPml4Virt)
      (kernelEntry root) := ⟨_,rfl⟩
  have hm_frame : ∀ x ≠ pt, m x = if x ∈ fresh then fun _ => 0 else s.mem x := by
    intro x hx
    rw [hm,setWord_frame _ _ _ hx,clearFrames_apply]
  have hm_pt : m pt = word (ptIdx kernelPml4Virt) (kernelEntry root) := by
    rw [hm]
    refine setWord_clear _ _ ?_
    rw [clearFrames_apply,if_pos hpt]
  have hm_root : m root = s.mem root := by
    rw [hm_frame root (hrt _ hpt),if_neg hnot]
  have hkp : Kept s { s with mem := m } {root} := by
    refine kept_outside htab (fun x hx => htab.outside (hfr x hx)) ?_
      (Shrunk.refl htab.sized) ⟨rfl,rfl⟩
    intro x hx
    have hx_pt : x ≠ pt := fun hbad => hx (hbad ▸ hpt)
    simp only
    rw [hm_frame x hx_pt,if_neg hx]
  have hst' : next m (0,root) (pml4Idx kernelPml4Virt) = .stop none := by
    rw [next,hm_root]
    exact hst
  have hm_pdpt : m pdpt = fun _ => 0 := by
    rw [hm_frame _ hnd.1.2,if_pos (hsub _ (by simp))]
  have hm_pd : m pd = fun _ => 0 := by
    rw [hm_frame _ hnd.2.1,if_pos (hsub _ (by simp))]
  have hch := linkTables_spec hkp.tables rfl hst' h hne hm_pdpt hm_pd hm_pt
  rw [← hm]
  refine ⟨hch.tables,hch.self rfl hfm (hlow.extend (Set.mem_singleton root) hkp.toExtended),?_,?_⟩
  · intro x hx hot
    simp only [mem_cons,not_mem_nil,or_false,not_or] at hot
    simp only
    rw [linkTables_frame _ _ _ (hrt x hx).symm hot.1 hot.2.1,hm_frame x hot.2.2,if_pos hx]
  · intro l hl
    simp only
    rw [linkTables_root _ _ _ (hrt _ (hsub _ (by simp))) (hrt _ (hsub _ (by simp))) hl,hm_root]

/-- The page table of the window as `vmm_init` leaves it: each entry maps the table itself. -/
structure TempTable (mem : ℕ → ℕ → ℕ) (r pt : ℕ) : Prop where
  frame : pt &&& frameMask = pt
  upper : ∃ pdpt pd, pdpt ≠ 0 ∧ pd ≠ 0 ∧
    descend (next mem) (0,r) [pml4Idx tempMapVa] = some (1,pdpt) ∧
    descend (next mem) (0,r) [pml4Idx tempMapVa,pdptIdx tempMapVa] = some (2,pd)
  table : descend (next mem) (0,r) (tablePath tempMapVa) = some (3,pt)
  entries : ∀ l < 512, mem pt l = kernelEntry pt

lemma tmpTables_spec
    (htab : Tables s.mem s.pmm {root}) (hsp : Space s.mem root)
    (hst : next s.mem (0,root) (pml4Idx tempMapVa) = .stop none)
    (h : GotAll s.pmm [pdpt,pd,pt] p') (hne : 0 ∉ [pdpt,pd,pt]) (hpp : s.mem pdpt = fun _ => 0)
    (hpd : s.mem pd = fun _ => 0) :
    let t := { s with
      mem := linkTables (fillSelf s.mem pt 512) root pdpt pd pt tempMapVa
      pmm := p' }
    Tables t.mem t.pmm {root} ∧ Space t.mem root ∧ TempTable t.mem root pt := by
  have hfr := h.freeFrame hne
  have hnd := h.nodup hne
  simp only [nodup_cons,mem_cons,not_mem_nil,or_false,not_or] at hnd
  have hout := fun x hx => htab.outside (hfr x hx)
  obtain ⟨m,hm⟩ : ∃ m, m = fillSelf s.mem pt 512 := ⟨_,rfl⟩
  have hm_frame : ∀ x ≠ pt, m x = s.mem x := by
    intro x hx
    rw [hm,fillSelf_frame _ _ hx]
  have hkp : Kept s { s with mem := m } {root} :=
    kept_frame htab (hout pt (by simp)) hm_frame (Shrunk.refl htab.sized) ⟨rfl,rfl⟩
  have hst' : next m (0,root) (pml4Idx tempMapVa) = .stop none := by
    rw [next,hm_frame root (hout pt (by simp) root rfl [] _ rfl)]
    exact hst
  have hm_pdpt : m pdpt = fun _ => 0 := by rw [hm_frame _ hnd.1.2,hpp]
  have hm_pd : m pd = fun _ => 0 := by rw [hm_frame _ hnd.2.1,hpd]
  have hch := linkTables_spec hkp.tables rfl hst' h hne hm_pdpt hm_pd rfl
  have htm : ∀ l < 512, m pt l = kernelEntry pt := by
    intro l hl
    rw [hm,fillSelf_apply,if_pos ⟨rfl,hl⟩]
  have hroot_ne : pdpt ≠ root := (hout pdpt (by simp) root rfl [] _ rfl).symm
  have hgo : next (linkTables m root pdpt pd pt tempMapVa) (0,root) (pml4Idx tempMapVa) =
      .go (1,pdpt) := by
    rw [next,linkTables,setWord_same]
    exact kernelEntry_step (Nat.zero_le 2) ((hfr pdpt (by simp)).aligned htab.sized)
  have hgo' : next (linkTables m root pdpt pd pt tempMapVa) (1,pdpt) (pdptIdx tempMapVa) =
      .go (2,pd) := by
    rw [next,linkTables,setWord_frame _ _ _ hroot_ne,setWord_same]
    exact kernelEntry_step one_le_two ((hfr pd (by simp)).aligned htab.sized)
  rw [← hm]
  refine ⟨hch.tables,hch.space rfl (hsp.kept (Set.mem_singleton root) hkp),
    (hfr pt (by simp)).aligned htab.sized,⟨pdpt,pd,ne_of_mem_of_not_mem (by simp) hne,
    ne_of_mem_of_not_mem (by simp) hne,?_,?_⟩,hch.table,?_⟩
  · simp [descend,hgo]
  · simp [descend,hgo,hgo']
  · intro l hl
    rw [hch.pages l]
    exact htm l hl

lemma initTables_spec (htab : Tables s.mem s.pmm {root}) (hfr : root &&& frameMask = root)
    (hlow : Low s.mem root) (hkr : next s.mem (0,root) (pml4Idx kernelPml4Virt) = .stop none)
    (htm : next s.mem (0,root) (pml4Idx tempMapVa) = .stop none)
    (h : GotAll s.pmm [a,b,c,d,e,f,g] p') (hne : 0 ∉ [a,b,c,d,e,f,g]) :
    Tables (initTables s.mem root a b c d e f g) p' {root} ∧
    Space (initTables s.mem root a b c d e f g) root ∧
    TempTable (initTables s.mem root a b c d e f g) root f := by
  have hfs := h.freeFrame hne
  have hap : List.Disjoint [a,b,c] [d,e,f,g] := List.disjoint_of_nodup_append (h.nodup hne)
  obtain ⟨p₁,h₁,h⟩ := h.split (l:=[a,b,c])
  obtain ⟨p₂,h₂,h₃⟩ := h.split (l:=[d,e,f])
  have hrec := recTables_spec htab hfr hlow hkr hfs h₁
    (fun hbad => hne (List.mem_append_left [d,e,f,g] hbad)) (by simp)
  simp only [initTables]
  generalize linkTables (setWord (clearFrames s.mem [a,b,c,d,e,f,g]) c (ptIdx kernelPml4Virt)
    (kernelEntry root)) root a b c kernelPml4Virt = m at hrec
  obtain ⟨htab₁,hsp₁,hzr₁,hrt₁⟩ := hrec
  have hst : next m (0,root) (pml4Idx tempMapVa) = .stop none := by
    have hwr : m root (pml4Idx tempMapVa) = s.mem root (pml4Idx tempMapVa) :=
      hrt₁ _ (by decide)
    rw [next,hwr]
    exact htm
  have hd_mem := hzr₁ d (by simp) fun hbad => hap hbad (by simp)
  have he_mem := hzr₁ e (by simp) fun hbad => hap hbad (by simp)
  have hne₂ : 0 ∉ [d,e,f] :=
    fun hbad => hne (List.mem_append_right [a,b,c] (List.mem_append_left [g] hbad))
  have htmp := tmpTables_spec htab₁ hsp₁ hst h₂ hne₂ hd_mem he_mem
  exact ⟨htmp.1.shrink (h₃.shrunk htmp.1.sized),htmp.2⟩

lemma initTables_frame (mem : ℕ → ℕ → ℕ) (hrt : x ≠ root)
    (h : x ∉ [a,b,c,d,e,f,g]) : initTables mem root a b c d e f g x = mem x := by
  have hcl : clearFrames mem [a,b,c,d,e,f,g] x = mem x := by
    rw [clearFrames_apply,if_neg h]
  simp only [mem_cons,not_mem_nil,or_false,not_or] at h
  obtain ⟨ha,hb,hc,hd,he,hf,-⟩ := h
  rw [initTables,linkTables_frame _ _ _ hrt hd he,fillSelf_frame _ _ hf,
    linkTables_frame _ _ _ hrt ha hb,setWord_frame _ _ _ hc,hcl]

/-- What `vmm_init` does if it returns: seven frames are taken for its tables. -/
theorem vmmInit_cases (hs : Sized p) (h : vmmInit (bootState mem p) bootPml4 = some t) :
    ∃ a b c d e f g, GotAll p [a,b,c,d,e,f,g] t.pmm ∧ 0 ∉ [a,b,c,d,e,f,g] ∧
    t.mem = initTables (bootMem mem) bootPml4 a b c d e f g ∧ t.currentPml4Phys = bootPml4 := by
  simp only [vmmInit] at h
  split at h
  · cases h
  rename_i hzr
  cases h
  refine ⟨_,_,_,_,_,_,_,.alloc (s:={ bootState mem p with
    kernelPml4Phys := bootPml4
    currentPml4Phys := bootPml4 }) hs fun hs => .alloc hs fun hs => .alloc hs fun hs =>
    .alloc hs fun hs => .alloc hs fun hs => .alloc hs fun hs => .alloc hs fun _ => .nil _,
    ?_,rfl,rfl⟩
  simpa [eq_comm] using hzr

lemma vmmInit_frame (hs : Sized p) (h : vmmInit (bootState mem p) bootPml4 = some t)
    (hus : ¬ FreeFrame p x) (hx : x ≠ bootPml4) : t.mem x = bootMem mem x := by
  obtain ⟨a,b,c,d,e,f,g,hall,hne,hmem,-⟩ := vmmInit_cases hs h
  rw [hmem,initTables_frame _ hx fun hbad => hus (hall.freeFrame hne x hbad)]

lemma vmmInit_spec (hs : Sized p) (h : vmmInit (bootState mem p) bootPml4 = some t) :
    Tables t.mem t.pmm {bootPml4} ∧ t.currentPml4Phys = bootPml4 ∧ Space t.mem bootPml4 ∧
    t.mem 0x22000 = bootPd ∧ ∃ pt, TempTable t.mem bootPml4 pt := by
  have hpd := vmmInit_frame hs h (low_not_free (by decide)) (by decide : 0x22000 ≠ bootPml4)
  obtain ⟨a,b,c,d,e,f,g,hall,hne,hmem,hcr⟩ := vmmInit_cases hs h
  have hbt := bootMem_tables mem hs
  have hab : ∀ i ≠ 0, next (bootMem mem) (0,bootPml4) i = .stop none := by
    intro i hi
    apply entryStep_absent
    simp [bootMem,bootPml4,word,hi]
  have hdn := initTables_spec (s := bootState mem p) hbt.1 (by decide) hbt.2
    (hab _ (by decide)) (hab _ (by decide)) hall hne
  have hst : (bootState mem p).mem = bootMem mem := rfl
  rw [hst,← hmem] at hdn
  refine ⟨hdn.1,hcr,hdn.2.1,?_,f,hdn.2.2⟩
  rw [hpd,bootMem,update_self]

lemma entryStep_top (entry : ℕ) (leaf : Leaf) : entryStep 0 entry ≠ .stop (some leaf) := by
  by_cases h : entry &&& vmmPresent = 0
  · simp [entryStep_absent 0 h]
  · simp [entryStep_table (Nat.zero_le 2) h fun hk => by cases hk]

/-- A new root with the entries of an old one, but for the entry `j`, and other new frames. -/
structure NewRoot (s t : Vmm) (fresh : List ℕ) (cur new j : ℕ) : Prop where
  words : ∀ f ∉ fresh, t.mem f = s.mem f
  copied : ∀ l, t.mem new l = if l < 512 ∧ l ≠ j then s.mem cur l else 0

section NewRoot

variable {j : ℕ}

/-- Below its first level the new root's tables are those of the old one. -/
theorem NewRoot.descend_eq (h : NewRoot s t fresh cur new j) (hne : cur ∉ fresh) (hi : i < 512)
    (hj : i ≠ j) (q : List ℕ) :
    descend (next t.mem) (0,new) (i :: q) = descend (next t.mem) (0,cur) (i :: q) := by
  have hwr : t.mem new i = t.mem cur i := by
    rw [h.copied,if_pos ⟨hi,hj⟩,h.words cur hne]
  simp [descend,next,hwr]

lemma NewRoot.path (h : NewRoot s t fresh cur new j) (hne : cur ∉ fresh) {q : List ℕ}
    (hn : descend (next t.mem) (0,new) q = some n) :
    q = [] ∧ n = (0,new) ∨ descend (next t.mem) (0,cur) q = some n := by
  cases q with
  | nil => exact .inl ⟨rfl,(Option.some.inj hn).symm⟩
  | cons i q =>
    by_cases hi : i < 512 ∧ i ≠ j
    · rw [h.descend_eq hne hi.1 hi.2] at hn
      exact .inr hn
    · have hst : next t.mem (0,new) i = .stop none := by
        rw [next,h.copied,if_neg hi]
        exact entryStep_absent 0 (Nat.zero_and _)
      simp only [descend,hst] at hn
      cases hn

lemma NewRoot.tables (h : NewRoot s t fresh cur new j) (htab : Tables s.mem s.pmm roots)
    (hcur : cur ∈ roots) (hout : ∀ f ∈ fresh, Outside s.mem roots f) (hnew : new ∈ fresh)
    (hgot : Got s.pmm new t.pmm) : Tables t.mem t.pmm (insert new roots) := by
  have hnot : Outside t.mem roots new := by
    intro r hr q n hn
    rw [descend_outside hout h.words hr] at hn
    exact hout new hnew r hr q n hn
  have hkp : Kept s { s with
      mem := t.mem
      pmm := t.pmm } roots :=
    kept_outside htab hout h.words (hgot.shrunk htab.sized) ⟨rfl,rfl⟩
  have htab' : Tables t.mem t.pmm roots := hkp.tables
  have hne : cur ∉ fresh := fun hbad => hout cur hbad cur hcur [] _ rfl rfl
  have hpt : ∀ r ∈ insert new roots, ∀ q n, descend (next t.mem) (0,r) q = some n →
      q = [] ∧ n = (0,new) ∨ ∃ r' ∈ roots, descend (next t.mem) (0,r') q = some n := by
    rintro r (rfl | hr) q n hn
    · exact (h.path hne hn).imp_right fun hn => ⟨cur,hcur,hn⟩
    · exact .inr ⟨r,hr,hn⟩
  refine ⟨htab'.sized,?_,?_,?_⟩
  · rintro ⟨k,r⟩ ⟨rfl,hr⟩ ⟨k',r'⟩ ⟨rfl,hr'⟩ q q' m n hm hn hkey
    rcases hpt r hr q m hm with ⟨rfl,rfl⟩ | ⟨x,hx,hm⟩
    · rcases hpt r' hr' q' n hn with ⟨rfl,-⟩ | ⟨y,hy,hn⟩
      · rfl
      · exact (hnot y hy q' n hn hkey.symm).elim
    · rcases hpt r' hr' q' n hn with ⟨rfl,rfl⟩ | ⟨y,hy,hn⟩
      · exact (hnot x hx q m hm hkey).elim
      · exact htab'.unshared (0,x) ⟨rfl,hx⟩ (0,y) ⟨rfl,hy⟩ q q' m n hm hn hkey
  · intro r hr q n i base hn hst
    rcases hpt r hr q n hn with ⟨rfl,rfl⟩ | ⟨x,hx,hn⟩
    · exact (entryStep_top _ _ hst).elim
    · exact htab'.aligned x hx q n i base hn hst
  · intro r hr q n hn
    rcases hpt r hr q n hn with ⟨rfl,rfl⟩ | ⟨x,hx,hn⟩
    · exact hgot.not_free
    · exact htab'.taken x hx q n hn

end NewRoot

lemma word_of_frame {n : ℕ} (hx : x &&& frameMask = x) (hn : n < 512) :
    (x ||| n*8) &&& frameMask = x ∧ (x ||| n*8) % 4096 / 8 = n := by
  have hal : x % 2^12 = 0 := by
    have hms : frameMask &&& (2^12-1) = 0 := by decide
    rw [← Nat.and_two_pow_sub_one_eq_mod,← hx,Nat.and_assoc,hms,Nat.and_zero]
  have hadd := aligned_or_mod hal (n*8)
  have hsm : n*8 % 2^12 = n*8 := Nat.mod_eq_of_lt (by omega)
  refine ⟨entry_frame hx (by omega),?_⟩
  rw [← hsm,hadd]
  omega

lemma pml4ReadEntry_eq (hsp : Space s.mem r) (hcr : rootFrame s = r)
    (hi : i < 512) : pml4ReadEntry s i = s.mem r i := by
  obtain ⟨pt,hpt⟩ := hsp.table
  have hsl := hsp.self
  have hvr : kernelPml4Virt = 0xFF8000000000 := rfl
  have hlb : labels (kernelPml4Virt+i*8) = labels kernelPml4Virt := by
    rw [labels_eq_iff]
    omega
  have hof : (kernelPml4Virt+i*8) &&& 0xFFF = i*8 := by
    rw [page_offset]
    omega
  rw [physAddr,labels_eq,follow_append hpt] at hsl
  have hrd : physAddr s.mem r (kernelPml4Virt+i*8) = some (r ||| i*8) := by
    rw [physAddr,hlb,labels_eq,follow_append hpt]
    simp only [follow,next] at hsl ⊢
    by_cases hpr : s.mem pt (ptIdx kernelPml4Virt) &&& vmmPresent = 0
    · simp only [entryStep_absent _ hpr] at hsl
      cases hsl
    · simp only [entryStep_page hpr,Option.bind_some,Leaf.at,Option.map_some,
        kernelPml4Virt_offset,Nat.or_zero,Option.some.injEq] at hsl ⊢
      rw [hsl,hof]
  obtain ⟨hfr,hwr⟩ := word_of_frame hsp.frame hi
  simp [pml4ReadEntry,hcr,hrd,hfr,hwr]

lemma copyPml4_eq (s : Vmm) (new n : ℕ) :
    copyPml4 s new n = { s with mem := (copyPml4 s new n).mem } := by
  induction n with
  | zero => rfl
  | succ n ih =>
    rw [copyPml4,writePtEntry,ih]

lemma copyPml4_mem {u : Vmm} (htab : Tables s.mem s.pmm roots)
    (hr : r ∈ roots) (hsp : Space s.mem r) (hcr : rootFrame s = r)
    (hout : ∀ f ∈ fresh, Outside s.mem roots f) (hu : ∀ f ∉ fresh, u.mem f = s.mem f)
    (hu_current : u.currentPml4Phys = s.currentPml4Phys) (hnew : new ∈ fresh)
    (hfr : new &&& frameMask = new) {n : ℕ} (hn : n ≤ 512) (f l : ℕ) :
    (copyPml4 u new n).mem f l = if f = new ∧ l < n then s.mem r l else u.mem f l := by
  induction n generalizing f l with
  | zero => simp [copyPml4]
  | succ n ih =>
    have ih := ih (by omega)
    have hag : ∀ f ∉ fresh, (copyPml4 u new n).mem f = s.mem f := by
      intro f hf
      funext l
      have hne : f ≠ new := fun hbad => hf (hbad ▸ hnew)
      rw [ih,if_neg fun hc => hne hc.1,hu f hf]
    have hkp : Kept s { s with mem := (copyPml4 u new n).mem } roots :=
      kept_outside htab hout hag (Shrunk.refl htab.sized) ⟨rfl,rfl⟩
    have hr_fresh : r ∉ fresh := fun hbad => hout r hbad r hr [] _ rfl rfl
    have hrd : pml4ReadEntry (copyPml4 u new n) n = s.mem r n := by
      have hcr' : rootFrame (copyPml4 u new n) = r := by
        rw [copyPml4_eq]
        simp only [hu_current]
        exact hcr
      have hsp' := hsp.kept hr hkp
      change Space (copyPml4 u new n).mem r at hsp'
      rw [pml4ReadEntry_eq hsp' hcr' (by omega),hag r hr_fresh]
    simp only [copyPml4,writePtEntry,hfr,hrd]
    by_cases hwr : f ≠ new ∨ l ≠ n
    · rw [setWord_other _ _ hwr,ih]
      refine if_congr ?_ rfl rfl
      omega
    · push Not at hwr
      obtain ⟨rfl,rfl⟩ := hwr
      simp

/-- A PML4 was added whose entries are those of the current one, but for its own page
table. -/
structure Cloned (s t : Vmm) (roots : Set ℕ) (new : ℕ) : Prop where
  tables : Tables t.mem t.pmm (insert new roots)
  spaces : ∀ r ∈ insert new roots, Space t.mem r
  tree : ∀ r ∈ insert new roots, ∀ q n, descend (next t.mem) (0,r) q = some n →
    (∃ r' ∈ roots, descend (next s.mem) (0,r') q = some n) ∨ FreeFrame s.pmm n.2
  pmm : Shrunk s.pmm t.pmm
  fresh : FreeFrame s.pmm new
  current : t.currentPml4Phys = s.currentPml4Phys
  words : ∀ f, ¬ FreeFrame s.pmm f → t.mem f = s.mem f

/-- The tables of the new PML4 are linked in memory `base`, where they are clear but for the entry
that maps the PML4. -/
lemma cloned_of_link (base : ℕ → ℕ → ℕ) (htab : Tables s.mem s.pmm roots) (hcur : cur ∈ roots)
    (hsp : ∀ r ∈ roots, Space s.mem r) (h : GotAll s.pmm [new,pdpt,pd,pt] t.pmm)
    (hnz : 0 ∉ [new,pdpt,pd,pt]) (hold : ∀ f ∉ [new,pdpt,pd,pt], base f = s.mem f)
    (hcp : ∀ l, base new l = if l < 512 ∧ l ≠ pml4Idx kernelPml4Virt then s.mem cur l else 0)
    (hpp : base pdpt = fun _ => 0) (hpd : base pd = fun _ => 0)
    (hpt : base pt = word (ptIdx kernelPml4Virt) (kernelEntry new))
    (hmem : t.mem = linkTables base new pdpt pd pt kernelPml4Virt)
    (hcr : t.currentPml4Phys = s.currentPml4Phys) : Cloned s t roots new := by
  have hp := h.shrunk htab.sized
  have hfr := h.freeFrame hnz
  have hout := fun f hf => htab.outside (hfr f hf)
  obtain ⟨p₀,h₀,hp₀,htb⟩ := h.uncons
  replace h₀ := h₀.resolve_left (ne_of_mem_of_not_mem (by simp) hnz)
  have hne : cur ∉ [new,pdpt,pd,pt] := fun hbad => hout cur hbad cur hcur [] _ rfl rfl
  let w : Vmm := { s with
    mem := base
    pmm := p₀ }
  have hrt : NewRoot s w [new,pdpt,pd,pt] cur new (pml4Idx kernelPml4Virt) := ⟨hold,hcp⟩
  have hkp : Kept s w roots := kept_outside htab hout hold hp₀ ⟨rfl,rfl⟩
  have hst : next base (0,new) (pml4Idx kernelPml4Virt) = .stop none := by
    rw [next,hcp,if_neg fun hc => hc.2 rfl]
    exact entryStep_absent 0 (Nat.zero_and _)
  have hch := linkTables_spec (s:=w) (hrt.tables htab hcur hout (.head _) h₀)
    (Set.mem_insert new roots) hst htb (fun hbad => hnz (List.mem_cons_of_mem new hbad)) hpp hpd hpt
  have hlow_cur := (hsp cur hcur).low.extend hcur hkp.toExtended
  have hlow : Low base new := by
    refine ⟨?_,?_⟩
    · rw [hrt.descend_eq hne (by decide) (by decide)]
      exact hlow_cur.pdpt
    · rw [hrt.descend_eq hne (by decide) (by decide)]
      exact hlow_cur.pd
  have hself := hch.self (Set.mem_insert _ _) (h₀.free.aligned htab.sized) hlow
  have hspace := fun r hr => hch.space (Set.mem_insert_of_mem new hr) ((hsp r hr).kept hr hkp)
  have hnew := hch.new
  have htab' := hch.tables
  simp only [w,← hmem] at hself hspace hnew htab'
  refine ⟨htab',?_,?_,hp,h₀.free,hcr,?_⟩
  · rintro r (rfl | hr)
    · exact hself
    · exact hspace r hr
  · intro r hr q n hn
    have hback : ∀ r' ∈ roots, descend (next base) (0,r') q = some n →
        (∃ x ∈ roots, descend (next s.mem) (0,x) q = some n) ∨ FreeFrame s.pmm n.2 := by
      intro r' hr' hn
      exact (hkp.new r' hr' q n hn).imp_left fun hn => ⟨r',hr',hn⟩
    rcases hnew r hr q n hn with hn | hfr
    · rcases hr with rfl | hr
      · rcases hrt.path hne hn with ⟨-,rfl⟩ | hn
        · exact .inr h₀.free
        · exact hback cur hcur hn
      · exact hback r hr hn
    · exact .inr (hp₀.free _ hfr)
  · intro f hf
    have hfs : f ∉ [new,pdpt,pd,pt] := fun hbad => hf (hfr f hbad)
    rw [hmem,← hold f hfs]
    simp only [mem_cons,not_mem_nil,or_false,not_or] at hfs
    exact linkTables_frame _ _ _ hfs.1 hfs.2.1 hfs.2.2.1

lemma Shrunk.pmmFree {q : Pmm} (h : Shrunk p q) (hf : FreeFrame p f) :
    Shrunk p (PageAllocator.pmmFree q f) := by
  obtain ⟨i,hi,rfl,-⟩ := id hf
  rw [pmmFree_frame h.sized (h.total ▸ hi)]
  refine ⟨⟨h.sized.min,h.sized.max,h.sized.top⟩,h.total,?_⟩
  rintro frame ⟨j,hj,rfl,hbit⟩
  simp only [get_clearBit] at hbit
  by_cases hji : j = i
  · rw [hji]
    exact hf
  · refine h.free _ ⟨j,hj,rfl,?_⟩
    simpa [hji] using hbit

lemma Shrunk.release (h : Shrunk p s.pmm) (hf : f = 0 ∨ FreeFrame p f) :
    Shrunk p (releasePage s f).pmm := by
  rw [releasePage]
  split
  · rename_i hzr
    exact Shrunk.pmmFree h (hf.resolve_left hzr)
  · exact h

lemma foldl_release (frames : List ℕ) (h : Shrunk p s.pmm)
    (hf : ∀ f ∈ frames, f = 0 ∨ FreeFrame p f) : Shrunk p (frames.foldl releasePage s).pmm ∧
    frames.foldl releasePage s = { s with pmm := (frames.foldl releasePage s).pmm } := by
  induction frames generalizing s with
  | nil => exact ⟨h,rfl⟩
  | cons f frames ih =>
    have hhd := Shrunk.release h (hf f (by simp))
    obtain ⟨hp,heq⟩ := ih hhd fun f' hf' => hf f' (by simp [hf'])
    refine ⟨hp,?_⟩
    rw [List.foldl_cons,heq,releasePage]
    split <;> rfl

lemma foldl_clearWindow (hfr : ∀ f ∈ frames, f &&& frameMask = f)
    (s : Vmm) : frames.foldl clearWindow s = { s with mem := clearFrames s.mem frames } := by
  induction frames generalizing s with
  | nil => rfl
  | cons f frames ih =>
    rw [List.foldl_cons,ih fun f' hf' => hfr f' (by simp [hf']),clearWindow,
      hfr f (by simp)]
    rfl

/-- The writes of `vmm_clone_kernel_pml4` in the order in which tables are linked elsewhere. -/
lemma clone_order (mem : ℕ → ℕ → ℕ) (i i' j k e e' v v' : ℕ) (h₁ : pdpt ≠ new) (h₂ : pd ≠ new)
    (h₃ : pt ≠ new) (h₄ : pd ≠ pdpt) (h₅ : pt ≠ pdpt) (h₆ : pt ≠ pd) :
    setWord (setWord (setWord (setWord mem new i e) pdpt i' e') pd j v) pt k v' =
      setWord (setWord (setWord (setWord (setWord mem new i 0) pt k v') pd j v) pdpt i' e') new i
        e := by
  have hid : setWord (setWord mem new i 0) new i e = setWord mem new i e := by simp [setWord]
  rw [setWord_comm _ _ _ _ _ h₁,setWord_comm _ _ _ _ _ h₂,setWord_comm _ _ _ _ _ h₃,hid,
    setWord_comm _ _ _ _ _ h₄,setWord_comm _ _ _ _ _ h₅,setWord_comm _ _ _ _ _ h₆]

lemma gotAll_clone (hs : Sized s.pmm) :
    let new := allocPage s
    let pdpt := allocPage new.2
    let pd := allocPage pdpt.2
    let pt := allocPage pd.2
    GotAll s.pmm [new.1,pdpt.1,pd.1,pt.1] pt.2.pmm :=
  .alloc hs fun hs => .alloc hs fun hs => .alloc hs fun hs => .alloc hs fun _ => .nil _

lemma vmmCloneKernelPml4_spec (htab : Tables s.mem s.pmm roots)
    (hsc : ∀ r ∈ roots, Space s.mem r) (hcur : s.currentPml4Phys ∈ roots) :
    (vmmCloneKernelPml4 s).1 = 0 ∧ Kept s (vmmCloneKernelPml4 s).2 roots ∨
      Cloned s (vmmCloneKernelPml4 s).2 roots (vmmCloneKernelPml4 s).1 := by
  have hfl : ∀ u : Vmm, Shrunk s.pmm u.pmm → u = { s with pmm := u.pmm } → Kept s u roots := by
    intro u hp hu
    rw [hu]
    exact kept_outside (w := []) htab (by simp) (fun _ _ => rfl) hp ⟨rfl,rfl⟩
  have hs := htab.sized
  have hall := gotAll_clone hs
  dsimp only at hall
  simp only [vmmCloneKernelPml4]
  generalize hN : allocPage s = N at hall ⊢
  by_cases hN₀ : N.1 = 0
  · simp only [hN₀,if_true]
    exact .inl ⟨trivial,hfl _ (hN ▸ allocPage_pmm hs) (by rw [← hN]; rfl)⟩
  simp only [hN₀,if_false]
  generalize hA : allocPage N.2 = A at hall ⊢
  generalize hB : allocPage A.2 = B at hall ⊢
  generalize hC : allocPage B.2 = C at hall ⊢
  have hC_state : C.2 = { s with pmm := C.2.pmm } := by
    rw [← hC,← hB,← hA,← hN]
    rfl
  by_cases hzr : A.1 = 0 ∨ B.1 = 0 ∨ C.1 = 0
  · simp only [hzr,if_true]
    left
    obtain ⟨hrel,hrel_eq⟩ := foldl_release [A.1,B.1,C.1,N.1] (hall.shrunk hs)
      fun f hf => hall.free (by grind)
    refine ⟨trivial,hfl _ hrel ?_⟩
    rw [hrel_eq,hC_state]
  simp only [hzr,if_false]
  right
  have hne : 0 ∉ [N.1,A.1,B.1,C.1] := by grind
  have hout := fun f hf => htab.outside (hall.freeFrame hne f hf)
  have hfr := fun f hf => (hall.freeFrame hne f hf).aligned hs
  have hnd := hall.nodup hne
  simp only [nodup_cons,mem_cons,not_mem_nil,or_false,not_or] at hnd
  obtain ⟨⟨hNA,hNB,hNC⟩,⟨hAB,hAC⟩,hBC,-⟩ := hnd
  have hsp := hsc _ hcur
  rw [foldl_clearWindow hfr,hC_state]
  obtain ⟨u,hu⟩ : ∃ u : Vmm, u = { s with
    mem := clearFrames s.mem [N.1,A.1,B.1,C.1]
    pmm := C.2.pmm } := ⟨_,rfl⟩
  have hu_mem : u.mem = clearFrames s.mem [N.1,A.1,B.1,C.1] := by rw [hu]
  have hu_current : u.currentPml4Phys = s.currentPml4Phys := by rw [hu]
  rw [← hu]
  obtain ⟨c,hc⟩ : ∃ c, c = copyPml4 u N.1 512 := ⟨_,rfl⟩
  have hc_mem : ∀ f l, c.mem f l = if f = N.1 ∧ l < 512 then s.mem s.currentPml4Phys l
      else if f ∈ [N.1,A.1,B.1,C.1] then 0 else s.mem f l := by
    intro f l
    have hcl : ∀ f ∉ [N.1,A.1,B.1,C.1], u.mem f = s.mem f := by
      intro f hf
      rw [hu_mem,clearFrames_apply,if_neg hf]
    rw [hc,copyPml4_mem htab hcur hsp hsp.frame hout hcl hu_current (by simp)
      (hfr _ (by simp)) le_rfl,hu_mem,clearFrames_apply]
    refine if_congr Iff.rfl rfl ?_
    split <;> rfl
  have hc_eq : c = { u with mem := c.mem } := by
    rw [hc]
    exact copyPml4_eq _ _ _
  have hzr' : ∀ f ∈ [A.1,B.1,C.1], f ≠ N.1 → c.mem f = fun _ => 0 := by
    intro f hf hne
    funext l
    rw [hc_mem,if_neg fun hc => hne hc.1,if_pos (List.mem_cons_of_mem _ hf)]
  rw [← hc]
  refine cloned_of_link (setWord (setWord c.mem N.1 (pml4Idx kernelPml4Virt) 0) C.1
    (ptIdx kernelPml4Virt) (kernelEntry N.1)) htab hcur hsc ?_ hne (fun f hf => ?_) (fun l => ?_) ?_
    ?_ ?_ ?_ ?_
  · rw [hc_eq,hu]
    exact hall
  · have hf' := hf
    simp only [mem_cons,not_mem_nil,or_false,not_or] at hf'
    funext l
    rw [setWord_frame _ _ _ hf'.2.2.2,setWord_frame _ _ _ hf'.1,hc_mem,if_neg fun hc => hf'.1 hc.1,
      if_neg hf]
  · rw [setWord_frame _ _ _ hNC]
    by_cases hl : l = pml4Idx kernelPml4Virt
    · simp [hl]
    · rw [setWord_other _ _ (.inr hl),hc_mem]
      simp [hl]
  · rw [setWord_frame _ _ _ hAC,setWord_frame _ _ _ (Ne.symm hNA),hzr' _ (by simp) (Ne.symm hNA)]
  · rw [setWord_frame _ _ _ hBC,setWord_frame _ _ _ (Ne.symm hNB),hzr' _ (by simp) (Ne.symm hNB)]
  · rw [setWord_clear]
    rw [setWord_frame _ _ _ (Ne.symm hNC),hzr' _ (by simp) (Ne.symm hNC)]
  · simp only [writePtEntry,hfr N.1 (by simp),hfr A.1 (by simp),hfr B.1 (by simp),
      hfr C.1 (by simp)]
    exact clone_order _ _ _ _ _ _ _ _ _ (Ne.symm hNA) (Ne.symm hNB) (Ne.symm hNC) (Ne.symm hAB)
      (Ne.symm hAC) (Ne.symm hBC)
  · simp only [writePtEntry]
    rw [hc_eq,hu]

/-- The allocator after `n` allocations. -/
def after (n : ℕ) (p : Pmm) : Pmm := (fun p => (pmmAlloc p).2)^[n] p

lemma vmmInit_some (h : ∀ k < 7, (pmmAlloc (after k p)).1 ≠ 0) :
    ∃ v, vmmInit (bootState mem p) bootPml4 = some v ∧ v.pmm = after 7 p := by
  have hzr : ¬ ((pmmAlloc (after 0 p)).1 = 0 ∨ (pmmAlloc (after 1 p)).1 = 0 ∨
      (pmmAlloc (after 2 p)).1 = 0 ∨ (pmmAlloc (after 3 p)).1 = 0 ∨
      (pmmAlloc (after 4 p)).1 = 0 ∨ (pmmAlloc (after 5 p)).1 = 0 ∨
      (pmmAlloc (after 6 p)).1 = 0) := by
    simp [h]
  exact ⟨_,if_neg hzr,rfl⟩

lemma after_add (m n : ℕ) (p : Pmm) : after m (after n p) = after (m+n) p :=
  (Function.iterate_add_apply _ m n p).symm

lemma copyPml4_pmm (s : Vmm) (new n : ℕ) : (copyPml4 s new n).pmm = s.pmm := by
  rw [copyPml4_eq]

lemma clone_some (h : ∀ k < 4, (pmmAlloc (after k s.pmm)).1 ≠ 0) :
    (vmmCloneKernelPml4 s).1 = (pmmAlloc s.pmm).1 ∧
      (vmmCloneKernelPml4 s).2.pmm = after 4 s.pmm := by
  have hnew : (allocPage s).1 ≠ 0 := h 0 (by decide)
  have hzr : ¬ ((allocPage (allocPage s).2).1 = 0 ∨
      (allocPage (allocPage (allocPage s).2).2).1 = 0 ∨
      (allocPage (allocPage (allocPage (allocPage s).2).2).2).1 = 0) := by
    have h₁ := h 1 (by decide)
    have h₂ := h 2 (by decide)
    have h₃ := h 3 (by decide)
    exact fun hbad => hbad.elim h₁ fun hbad => hbad.elim h₂ h₃
  simp only [vmmCloneKernelPml4,hnew,if_false,hzr,writePtEntry,copyPml4_pmm,List.foldl]
  exact ⟨rfl,rfl⟩

/-- The allocator on a machine whose kernel ends at 1 MiB. -/
def freshPmm : Pmm := pmmInit ⟨fun _ => 0,0,0,0⟩ 0x100000

lemma freshPmm_alloc : ∀ k < 16, (pmmAlloc (after k freshPmm)).1 = frameAddr k := by
  rw [freshPmm,pmmInit_low _ (by decide)]
  decide

lemma fresh_boot : ∃ v, vmmInit (bootState (fun _ _ => 0) freshPmm) bootPml4 = some v ∧
    v.pmm = after 7 freshPmm := by
  apply vmmInit_some
  intro k hk
  rw [freshPmm_alloc k (by omega)]
  exact frameAddr_ne_zero k

end HarlinKernel.AddressSpace
