import HarlinKernel.UserPages

/-! What `vmm_unmap` does to all translations, and what `sys_munmap` can reach: it unmaps the
whole leaf below which an address lies, which the boot code makes 2 MiB wide. -/
namespace HarlinKernel
namespace PageTable

open LabelledWalk

/-- The page below which an address lies. -/
def leafOf (mem : ℕ → ℕ → ℕ) (root virt : ℕ) : Option Leaf :=
  (follow (next mem) (0,root) (labels virt)).join

lemma physAddr_leafOf (mem : ℕ → ℕ → ℕ) (root virt : ℕ) :
    physAddr mem root virt = Leaf.at (leafOf mem root virt) virt := by
  rw [physAddr,leafOf]
  cases follow (next mem) (0,root) (labels virt) <;> rfl

/-- The addresses lie in one block of the size of the page. -/
def SameBlock (l : Leaf) (v w : ℕ) : Prop := v % 2^48 / (l.2+1) = w % 2^48 / (l.2+1)

/-- The page of `virt` is the page of `v` as well. -/
def Covers (mem : ℕ → ℕ → ℕ) (root virt v : ℕ) : Prop :=
  ∃ l, leafOf mem root virt = some l ∧ SameBlock l virt v

variable {l : Leaf} {v w root virt i : ℕ} {leaf : Option Leaf} {mem : ℕ → ℕ → ℕ} {roots : Set ℕ}
  {p : PageAllocator.Pmm} {n : Node} {q₀ : List ℕ}

lemma sameBlock_table (hl : l.2 = 0x1FFFFF) : SameBlock l v w ↔ tablePath v <+: labels w := by
  simp only [SameBlock,hl,tablePath,labels,pml4Idx,pdptIdx,pdIdx,index_eq,List.cons_prefix_cons,
    List.nil_prefix,and_true]
  omega

lemma sameBlock_page (hl : l.2 = 0xFFF) : SameBlock l v w ↔ labels v <+: labels w := by
  have hst : labels v <+: labels w ↔ labels v = labels w :=
    ⟨fun h => h.eq_of_length rfl,fun h => h ▸ List.prefix_rfl⟩
  have hdg : ∀ x, x % 2^48/(0xFFF+1) = x / 2^12 % 2^36 :=
    fun x => Nat.mod_mul_right_div_self x (2^12) (2^36)
  rw [hst,labels_eq_iff,SameBlock,hl,hdg,hdg]

section Clear

variable {mem mem' : ℕ → ℕ → ℕ} {p : PageAllocator.Pmm} {roots : Set ℕ} {r r₀ i : ℕ} {n : Node}
  {q₀ : List ℕ}

lemma leafOf_stop (hn : descend (next mem) (0,r) q₀ = some n)
    (hst : next mem n i = .stop leaf) (hv : q₀ ++ [i] <+: labels v) : leafOf mem r v = leaf := by
  obtain ⟨rest,hrs⟩ := hv
  rw [leafOf,← hrs,List.append_assoc,follow_append hn,List.singleton_append]
  simp only [follow,hst]
  rfl

lemma LeafSet.leafOf_clear (h : LeafSet mem mem' n i) (hcl : next mem' n i = .stop none)
    (htab : Tables mem p roots) (hr₀ : r₀ ∈ roots) (hn : descend (next mem) (0,r₀) q₀ = some n)
    (hr : r ∈ roots) (v : ℕ) : leafOf mem' r v = if q₀ ++ [i] <+: labels v ∧ descend (next mem)
    (0,r) q₀ = some n then none else leafOf mem r v := by
  by_cases huse : q₀ ++ [i] <+: labels v ∧ descend (next mem) (0,r) q₀ = some n
  · have hd : descend (next mem') (0,r) q₀ = some n := by
      rw [h.descend_eq htab hr₀ hn hr,huse.2]
    rw [if_pos huse,leafOf_stop hd hcl huse.1]
  · rw [if_neg huse,leafOf,(h.edited htab hr₀ hn hr).follow_eq,leafOf]
    rintro ⟨q,rest,hq,hd⟩
    have hpt : q = q₀ := htab.unshared (0,r) ⟨rfl,hr⟩ (0,r₀) ⟨rfl,hr₀⟩ q q₀ n n hd hn rfl
    subst hpt
    refine huse ⟨⟨rest,?_⟩,hd⟩
    rw [hq,List.append_assoc,List.singleton_append]

end Clear

/-- The state after the page of `virt` was taken out of the tables. -/
structure Uncovered (mem mem' : ℕ → ℕ → ℕ) (roots : Set ℕ) (root virt : ℕ) : Prop where
  at_root : ∀ v, Covers mem root virt v → leafOf mem' root v = none
  same : ∀ r ∈ roots, ∀ v, ¬ Covers mem root virt v → leafOf mem' r v = leafOf mem r v

lemma Uncovered.refl (h : leafOf mem root virt = none) : Uncovered mem mem roots root virt := by
  refine ⟨?_,fun _ _ _ _ => rfl⟩
  rintro v ⟨l,hl,-⟩
  rw [h] at hl
  cases hl

lemma LeafSet.uncovered {mem' : ℕ → ℕ → ℕ} (h : LeafSet mem mem' n i)
    (hcl : next mem' n i = .stop none) (htab : Tables mem p roots) (hrt : root ∈ roots)
    (hn : descend (next mem) (0,root) q₀ = some n) (hst : next mem n i = .stop leaf)
    (hvr : q₀ ++ [i] <+: labels virt)
    (hbl : ∀ l, leaf = some l → ∀ v, SameBlock l virt v ↔ q₀ ++ [i] <+: labels v) :
    Uncovered mem mem' roots root virt := by
  have hlf : leafOf mem root virt = leaf := leafOf_stop hn hst hvr
  refine ⟨?_,?_⟩
  · rintro v ⟨l,hl,hv⟩
    rw [hlf] at hl
    rw [h.leafOf_clear hcl htab hrt hn hrt,if_pos ⟨(hbl l hl v).mp hv,hn⟩]
  intro r hr v hv
  rw [h.leafOf_clear hcl htab hrt hn hr]
  split
  · rename_i huse
    rw [leafOf_stop huse.2 hst huse.1]
    cases leaf with
    | none => rfl
    | some l => exact (hv ⟨l,hlf,(hbl l rfl v).mpr huse.1⟩).elim
  · rfl

lemma leafOf_absent
    (hn : descend (next mem) (0,root) q₀ = some n) (hab : mem n.2 i &&& vmmPresent = 0)
    (hvr : q₀ ++ [i] <+: labels virt) : leafOf mem root virt = none :=
  leafOf_stop hn (entryStep_absent n.1 hab) hvr

lemma clearPage_uncovered {frame : ℕ} (htab : Tables mem p roots) (hrt : root ∈ roots)
    (hpt : descend (next mem) (0,root) (tablePath virt) = some (3,frame)) :
    Uncovered mem (setWord mem frame (ptIdx virt) 0) roots root virt ∧
    Tables (setWord mem frame (ptIdx virt) 0) p roots := by
  have hset : LeafSet mem (setWord mem frame (ptIdx virt) 0) (3,frame) (ptIdx virt) := leafSet_page
  have hcl : next (setWord mem frame (ptIdx virt) 0) (3,frame) (ptIdx virt) = .stop none := by
    rw [next,setWord_same,entryStep_absent 3 (Nat.zero_and _)]
  refine ⟨?_,hset.tables htab hrt hpt⟩
  by_cases h₃ : mem frame (ptIdx virt) &&& vmmPresent = 0
  · refine hset.uncovered hcl htab hrt hpt (entryStep_absent 3 h₃) ⟨[],rfl⟩ ?_
    intro l hl
    cases hl
  · refine hset.uncovered hcl htab hrt hpt (entryStep_page h₃) ⟨[],rfl⟩ ?_
    intro l hl v
    cases hl
    exact sameBlock_page rfl

lemma vmmUnmap_uncovered {s : Vmm} (virt : ℕ)
    (htab : Tables s.mem p roots) (hrt : rootFrame s ∈ roots) :
    Uncovered s.mem (vmmUnmap s virt).mem roots (rootFrame s) virt ∧
      Tables (vmmUnmap s virt).mem p roots ∧
      (vmmUnmap s virt).currentPml4Phys = s.currentPml4Phys ∧ (vmmUnmap s virt).pmm = s.pmm := by
  simp only [vmmUnmap,readPtEntry,and_frameMask_and]
  have hzr : ∀ k, entryStep k 0 = .stop none := fun k => entryStep_absent k (Nat.zero_and _)
  have hst : descend (next s.mem) (0,rootFrame s) [] = some (0,rootFrame s) := rfl
  split
  · rename_i h₀
    exact ⟨Uncovered.refl (leafOf_absent hst h₀ ⟨_,rfl⟩),htab,rfl,rfl⟩
  rename_i h₀
  have hpp := descend_snoc.mpr ⟨_,hst,entryStep_table (Nat.zero_le 2) h₀ fun hk => by cases hk⟩
  split
  · rename_i h₁
    exact ⟨Uncovered.refl (leafOf_absent hpp h₁ ⟨_,rfl⟩),htab,rfl,rfl⟩
  rename_i h₁
  have hpd := descend_snoc.mpr ⟨_,hpp,entryStep_table one_le_two h₁ fun hk => by simp at hk⟩
  split
  · rename_i h₂
    exact ⟨Uncovered.refl (leafOf_absent hpd h₂ ⟨_,rfl⟩),htab,rfl,rfl⟩
  rename_i h₂
  split
  · rename_i hhg
    rw [writePtEntry,and_frameMask_and]
    have hset := leafSet_clear h₂ hhg
    refine ⟨hset.uncovered ?_ htab hrt hpd (entryStep_huge h₂ hhg) ⟨_,rfl⟩ ?_,
      hset.tables htab hrt hpd,rfl,rfl⟩
    · rw [next,setWord_same,hzr]
    · rintro l hl v
      cases hl
      exact sameBlock_table rfl
  · rename_i hhg
    have hpt := descend_snoc.mpr
      ⟨_,hpd,entryStep_table le_rfl h₂ fun _ => not_not.mp hhg⟩
    rw [writePtEntry,and_frameMask_and]
    obtain ⟨hunc,htab'⟩ := clearPage_uncovered htab hrt hpt
    exact ⟨hunc,htab',rfl,rfl⟩

lemma leafOf_some (h : leafOf mem root virt = some l) : (l.2 = 0xFFF ∨ l.2 = 0x1FFFFF) ∧ ∀ v,
    SameBlock l virt v → leafOf mem root v = some l := by
  rw [leafOf,Option.join_eq_some_iff] at h
  obtain ⟨q,i,rest,n,hq,hn,hst⟩ := follow_some h
  have hdp := descend_depth hn
  have hpr : q ++ [i] <+: labels virt := ⟨rest,by rw [hq,List.append_assoc,List.singleton_append]⟩
  rcases entryStep_leaf hst with ⟨hk,hlf⟩ | ⟨hk,hlf⟩ <;> have hl := congrArg Prod.snd hlf
  · refine ⟨.inr hl,fun v hv => leafOf_stop hn hst ?_⟩
    have hpt : q ++ [i] = tablePath virt := by
      rw [List.prefix_iff_eq_take.mp hpr,List.length_append,List.length_singleton,
        show q.length+1 = 3 by omega]
      rfl
    rw [hpt]
    exact (sameBlock_table hl).mp hv
  · refine ⟨.inl hl,fun v hv => leafOf_stop hn hst ?_⟩
    have hpt : q ++ [i] = labels virt := by
      rw [List.prefix_iff_eq_take.mp hpr,List.length_append,List.length_singleton,
        show q.length+1 = 4 by omega]
      rfl
    rw [hpt]
    exact (sameBlock_page hl).mp hv

lemma Covers.leafOf_eq (h : Covers mem root virt v) :
    leafOf mem root v = leafOf mem root virt := by
  obtain ⟨l,hl,hv⟩ := h
  rw [hl,(leafOf_some hl).2 v hv]

lemma Covers.trans (h : Covers mem root virt v)
    (h' : Covers mem root v w) : Covers mem root virt w := by
  have hlf := h.leafOf_eq
  obtain ⟨l,hl,hv⟩ := h
  obtain ⟨l',hl',hw⟩ := h'
  rw [hlf,hl] at hl'
  cases hl'
  exact ⟨l,hl,hv.trans hw⟩

lemma leafOf_table {f : ℕ} (h : leafOf mem root v = some (f,0xFFF)) : ∃ pt, descend (next mem)
    (0,root) (tablePath v) = some (3,pt) := by
  rw [leafOf,Option.join_eq_some_iff] at h
  obtain ⟨q,i,rest,n,hq,hn,hst⟩ := follow_some h
  rcases entryStep_leaf hst with ⟨-,hl⟩ | ⟨hk,-⟩
  · cases congrArg Prod.snd hl
  have hdp := descend_depth hn
  have hpr : q <+: labels v := ⟨i :: rest,hq.symm⟩
  have hpt : q = tablePath v := by
    rw [List.prefix_iff_eq_take.mp hpr,show q.length = 3 by omega]
    rfl
  refine ⟨n.2,?_⟩
  rw [← hpt,hn,← hk]

end PageTable

namespace UserPages

open PageAllocator PageTable ProcessTable UserCopy
open AddressSpace (bootPml4 bootState freshPmm fresh_boot vmmInit vmmInit_spec)

/-- The frame of the tables of the calling process. -/
def rootOf (s : Kernel) : ℕ := s.vmm.currentPml4Phys &&& frameMask

lemma phys_leafOf (s : Kernel) (virt : ℕ) : s.phys virt = if s.vmm.currentPml4Phys = 0 then 0 else
    (Leaf.at (leafOf s.vmm.mem (rootOf s) virt) virt).getD 0 := by
  rw [Kernel.phys,vmmGetPhysLocked_eq,physAddr_leafOf]
  rfl

def pageAt (virt i : ℕ) : ℕ := (virt+i*4096) % 2^64

/-- The page below which `v` lies is taken out by one of the first `k` pages of a range. -/
def Hit (s : Kernel) (virt k v : ℕ) : Prop :=
  ∃ i < k, s.phys (pageAt virt i) ≠ 0 ∧ Covers s.vmm.mem (rootOf s) (pageAt virt i) v

/-- The page is translated when its turn comes. -/
def Freed (s : Kernel) (virt i : ℕ) : Prop :=
  s.phys (pageAt virt i) ≠ 0 ∧ ¬ Hit s virt i (pageAt virt i)

def slotOf (s : Kernel) : ℕ := (currentPid s).getD maxProcesses

variable {s t : Kernel} {virt k v size : ℕ} {roots : Set ℕ}

lemma munmapPage_absent (h : s.phys virt = 0) : (munmapPage s virt).vmm = s.vmm ∧
    (munmapPage s virt).current = s.current ∧ (munmapPage s virt).log = s.log := by
  have hmd : ∀ pid f, (s.modify pid f).phys virt = 0 := fun _ _ => h
  rw [munmapPage]
  cases currentPid s with
  | none =>
    simp [unmapAndFree,h]
  | some pid =>
    simp only [unmapAndFree,hmd,if_true]
    exact ⟨rfl,rfl,rfl⟩

lemma munmapPage_present (h : s.phys virt ≠ 0) : (munmapPage s virt).vmm.mem =
    (vmmUnmap s.vmm virt).mem ∧ (munmapPage s virt).vmm.currentPml4Phys =
    (vmmUnmap s.vmm virt).currentPml4Phys ∧ (munmapPage s virt).current = s.current ∧
    (munmapPage s virt).log = s.log ++ [.free (slotOf s) (s.phys virt)] := by
  have hmd : ∀ pid f, (s.modify pid f).phys virt ≠ 0 := fun _ _ => h
  rw [munmapPage,slotOf]
  cases currentPid s with
  | none =>
    simp only [unmapAndFree,h,if_false]
    exact ⟨rfl,rfl,rfl,rfl⟩
  | some pid =>
    simp only [unmapAndFree,hmd,if_false]
    exact ⟨rfl,rfl,rfl,rfl⟩

/-- The state when the first `k` pages of a range are unmapped. -/
structure Cleared (s t : Kernel) (roots : Set ℕ) (virt k : ℕ) : Prop where
  tables : Tables t.vmm.mem s.vmm.pmm roots
  pml4 : t.vmm.currentPml4Phys = s.vmm.currentPml4Phys
  current : t.current = s.current
  hit : ∀ v, Hit s virt k v → leafOf t.vmm.mem (rootOf s) v = none
  same : ∀ r ∈ roots, ∀ v, ¬ Hit s virt k v → leafOf t.vmm.mem r v = leafOf s.vmm.mem r v
  log : ∃ fs : List ℕ, t.log = s.log ++ fs.map (.free (slotOf s)) ∧
    ∀ frame, frame ∈ fs ↔ ∃ i < k, Freed s virt i ∧ s.phys (pageAt virt i) = frame

lemma Cleared.start (virt : ℕ)
    (htab : Tables s.vmm.mem s.vmm.pmm roots) : Cleared s s roots virt 0 := by
  refine ⟨htab,rfl,rfl,?_,fun _ _ _ _ => rfl,[],?_,?_⟩
  · rintro v ⟨i,hi,-⟩
    omega
  · rw [List.map_nil,List.append_nil]
  · intro frame
    simp

lemma hit_succ :
    Hit s virt (k+1) v ↔
    Hit s virt k v ∨
      (s.phys (pageAt virt k) ≠ 0 ∧ Covers s.vmm.mem (rootOf s) (pageAt virt k) v) := by
  constructor
  · rintro ⟨i,hi,hph,hv⟩
    rcases Nat.lt_succ_iff_lt_or_eq.mp hi with hlt | rfl
    · exact .inl ⟨i,hlt,hph,hv⟩
    · exact .inr ⟨hph,hv⟩
  · rintro (⟨i,hi,hph,hv⟩ | ⟨hph,hv⟩)
    · exact ⟨i,by omega,hph,hv⟩
    · exact ⟨k,by omega,hph,hv⟩

lemma hit_succ_of_not_freed (h : ¬ Freed s virt k) : Hit s virt (k+1) v ↔ Hit s virt k v := by
  rw [hit_succ]
  refine ⟨?_,.inl⟩
  rintro (hhit | ⟨hph,hv⟩)
  · exact hhit
  · obtain ⟨i,hi,hi',hcov⟩ := not_not.mp fun hbad => h ⟨hph,hbad⟩
    exact ⟨i,hi,hi',hcov.trans hv⟩

lemma hit_succ_of_freed (h : Freed s virt k) :
    Hit s virt (k+1) v ↔ Hit s virt k v ∨ Covers s.vmm.mem (rootOf s) (pageAt virt k) v := by
  rw [hit_succ]
  exact or_congr_right ⟨fun hv => hv.2,fun hv => ⟨h.1,hv⟩⟩

lemma Cleared.phys (h : Cleared s t roots virt k) (hrt : rootOf s ∈ roots)
    (hfr : Freed s virt k) : t.phys (pageAt virt k) = s.phys (pageAt virt k) ∧
    leafOf t.vmm.mem (rootOf s) (pageAt virt k) = leafOf s.vmm.mem (rootOf s) (pageAt virt k) := by
  have hlf := h.same (rootOf s) hrt _ hfr.2
  have hro : rootOf t = rootOf s := by rw [rootOf,rootOf,h.pml4]
  refine ⟨?_,hlf⟩
  rw [phys_leafOf,phys_leafOf,h.pml4,hro,hlf]

lemma Cleared.phys_zero (h : Cleared s t roots virt k)
    (hrt : rootOf s ∈ roots) (hfr : ¬ Freed s virt k) : t.phys (pageAt virt k) = 0 := by
  have hro : rootOf t = rootOf s := by rw [rootOf,rootOf,h.pml4]
  rw [phys_leafOf,h.pml4,hro]
  by_cases hhit : Hit s virt k (pageAt virt k)
  · rw [h.hit _ hhit]
    split <;> rfl
  · have hzr : s.phys (pageAt virt k) = 0 := not_not.mp fun hbad => hfr ⟨hbad,hhit⟩
    rw [h.same _ hrt _ hhit,← phys_leafOf,hzr]

lemma Cleared.step (h : Cleared s t roots virt k) (hrt : rootOf s ∈ roots) :
    Cleared s (munmapPage t (pageAt virt k)) roots virt (k+1) := by
  obtain ⟨fs,hlog,hfs⟩ := h.log
  have hsl : slotOf t = slotOf s := by rw [slotOf,slotOf,currentPid,currentPid,h.current]
  by_cases hfr : Freed s virt k
  · obtain ⟨hph,hlf⟩ := h.phys hrt hfr
    have hne : t.phys (pageAt virt k) ≠ 0 := hph ▸ hfr.1
    obtain ⟨hmem,hpml4,hcr,hlog'⟩ := munmapPage_present hne
    have hro : rootFrame t.vmm = rootOf s := by rw [rootFrame,h.pml4,rootOf]
    obtain ⟨hunc,htab,hsm,-⟩ :=
      vmmUnmap_uncovered (pageAt virt k) h.tables (hro ▸ hrt)
    rw [hro] at hunc
    have hcv : ∀ v, Covers t.vmm.mem (rootOf s) (pageAt virt k) v ↔
        Covers s.vmm.mem (rootOf s) (pageAt virt k) v := by
      intro v
      rw [Covers,Covers,hlf]
    refine ⟨hmem ▸ htab,hpml4.trans (hsm.trans h.pml4),hcr.trans h.current,?_,?_,
      fs ++ [s.phys (pageAt virt k)],?_,?_⟩
    · intro v hv
      rw [hmem]
      by_cases hcov : Covers s.vmm.mem (rootOf s) (pageAt virt k) v
      · exact hunc.at_root v ((hcv v).mpr hcov)
      · have hold := ((hit_succ_of_freed hfr).mp hv).resolve_right hcov
        rw [hunc.same _ hrt v fun hbad => hcov ((hcv v).mp hbad),h.hit v hold]
    · intro r hr v hv
      rw [hit_succ_of_freed hfr,not_or] at hv
      rw [hmem,hunc.same r hr v fun hbad => hv.2 ((hcv v).mp hbad),h.same r hr v hv.1]
    · rw [hlog',hlog,hsl,hph,List.map_append,List.append_assoc]
      rfl
    · intro frame
      rw [List.mem_append,List.mem_singleton,hfs]
      constructor
      · rintro (⟨i,hi,hi',rfl⟩ | rfl)
        · exact ⟨i,by omega,hi',rfl⟩
        · exact ⟨k,by omega,hfr,rfl⟩
      · rintro ⟨i,hi,hi',rfl⟩
        rcases Nat.lt_succ_iff_lt_or_eq.mp hi with hlt | rfl
        · exact .inl ⟨i,hlt,hi',rfl⟩
        · exact .inr rfl
  · obtain ⟨hvmm,hcr,hlog'⟩ := munmapPage_absent (h.phys_zero hrt hfr)
    refine ⟨hvmm ▸ h.tables,by rw [hvmm,h.pml4],hcr.trans h.current,?_,?_,fs,
      hlog'.trans hlog,?_⟩
    · intro v hv
      rw [hvmm]
      exact h.hit v ((hit_succ_of_not_freed hfr).mp hv)
    · intro r hr v hv
      rw [hvmm]
      exact h.same r hr v fun hbad => hv ((hit_succ_of_not_freed hfr).mpr hbad)
    intro frame
    rw [hfs]
    constructor
    · rintro ⟨i,hi,hi',rfl⟩
      exact ⟨i,by omega,hi',rfl⟩
    · rintro ⟨i,hi,hi',rfl⟩
      rcases Nat.lt_succ_iff_lt_or_eq.mp hi with hlt | rfl
      · exact ⟨i,hlt,hi',rfl⟩
      · exact (hfr hi').elim

lemma Cleared.loop (h : Cleared s t roots virt k) (hrt : rootOf s ∈ roots) (n : ℕ) :
    Cleared s (munmapLoop t virt k n) roots virt (k+n) := by
  induction n generalizing t k with
  | zero => exact h
  | succ n ih =>
    have hst := ih (h.step hrt)
    rw [Nat.add_right_comm] at hst
    exact hst

/-- The range is aligned and lies in the user window, without wrapping around. -/
def Valid (virt size : ℕ) : Prop :=
  virt % 4096 = 0 ∧ userAddrStart ≤ virt ∧ virt+size ≤ userAddrEnd

def Canonical (v : ℕ) : Prop := v < 2^47 ∨ (2^64-2^47 ≤ v ∧ v < 2^64)

/-- The page of `v` lies in the range and in the user window. -/
def InRange (virt size v : ℕ) : Prop :=
  (virt ≤ v/4096*4096 ∧ v/4096*4096 < virt+size) ∧
    userAddrStart ≤ v/4096*4096 ∧ v/4096*4096 < userAddrEnd

instance (virt size v : ℕ) : Decidable (InRange virt size v) :=
  inferInstanceAs (Decidable (_ ∧ _))

/-- The calling process has recorded the frame for an address in the range. -/
def Recorded (s : Kernel) (virt size frame : ℕ) : Prop :=
  ∃ pid, currentPid s = some pid ∧ ∃ j < (s.processes pid).pageCount,
    (s.processes pid).userPages j = frame ∧ InRange virt size ((s.processes pid).userVaddrs j)

/-- `sys_munmap` reaches nothing but the pages of the range that the caller owns, in any of the
given address spaces. -/
structure Confined (s : Kernel) (roots : Set ℕ) (virt size : ℕ) : Prop where
  translations : ∀ r ∈ roots, ∀ v, Canonical v →
    physAddr (sysMunmap s virt size).2.vmm.mem r v ≠ physAddr s.vmm.mem r v → InRange virt size v
  frees : ∃ fs, (sysMunmap s virt size).2.log = s.log ++ fs ∧
    ∀ e ∈ fs, ∃ slot frame, e = .free slot frame ∧ Recorded s virt size frame
  rejects : ¬ Valid virt size → sysMunmap s virt size = (-1,s)

/-- The range does not wrap around, and of a valid range every page that is translated lies
below a leaf inside the range, whose first page in the range is recorded. -/
structure Contained (s : Kernel) (virt size : ℕ) : Prop where
  no_wrap : virt % 4096 = 0 → userAddrStart ≤ virt → (virt+size) % 2^64 ≤ userAddrEnd →
    virt+size < 2^64
  inside : Valid virt size → ∀ i < pagesOf size, s.phys (pageAt virt i) ≠ 0 →
    ∀ l, leafOf s.vmm.mem (rootOf s) (pageAt virt i) = some l →
      virt ≤ pageAt virt i/(l.2+1)*(l.2+1) ∧
        pageAt virt i/(l.2+1)*(l.2+1)+(l.2+1) ≤ virt+pagesOf size*4096
  recorded : Valid virt size → ∀ i < pagesOf size, Freed s virt i →
    Recorded s virt size (s.phys (pageAt virt i))

lemma sysMunmap_accepts (hal : virt % 4096 = 0)
    (hst : userAddrStart ≤ virt) (hend : (virt+size) % 2^64 ≤ userAddrEnd) :
    sysMunmap s virt size = (0,munmapLoop s virt 0 (pagesOf size)) := by
  rw [sysMunmap,if_neg (not_not.mpr hal),if_neg (by omega)]

lemma sysMunmap_rejects
    (h : ¬ (virt % 4096 = 0 ∧ userAddrStart ≤ virt ∧ (virt+size) % 2^64 ≤ userAddrEnd)) :
    sysMunmap s virt size = (-1,s) := by
  rw [sysMunmap]
  split
  · rfl
  · rename_i hal
    rw [if_pos]
    by_contra hbad
    exact h ⟨not_not.mp hal,by omega,by omega⟩

section Range

variable {virt size i v : ℕ}

lemma Valid.page (h : Valid virt size) (hi : i < pagesOf size) :
    pageAt virt i = virt+i*4096 ∧ virt+i*4096 < virt+size ∧ pagesOf size = (size+4095)/4096 := by
  obtain ⟨hal,hst,hend⟩ := h
  rw [userAddrEnd] at hend
  rw [pagesOf] at hi
  rw [pageAt,pagesOf]
  omega

lemma Valid.accepted (h : Valid virt size) :
    virt % 4096 = 0 ∧ userAddrStart ≤ virt ∧ (virt+size) % 2^64 ≤ userAddrEnd :=
  ⟨h.1,h.2.1,(Nat.mod_le _ _).trans h.2.2⟩

lemma block_inRange {l : Leaf} (h : Valid virt size) (hi : i < pagesOf size)
    (hms : l.2 = 0xFFF ∨ l.2 = 0x1FFFFF) :
    (∀ v, Canonical v → SameBlock l (pageAt virt i) v → InRange virt size v) ↔
      virt ≤ pageAt virt i/(l.2+1)*(l.2+1) ∧
        pageAt virt i/(l.2+1)*(l.2+1)+(l.2+1) ≤ virt+pagesOf size*4096 := by
  obtain ⟨hpage,hlt,hpg⟩ := h.page hi
  obtain ⟨hal,hst,hend⟩ := h
  simp only [userAddrStart,userAddrEnd] at hst hend
  simp only [InRange,Canonical,SameBlock,userAddrStart,userAddrEnd]
  obtain ⟨w,hw⟩ : ∃ w, w = virt+i*4096 := ⟨_,rfl⟩
  constructor
  · intro hall
    have hfr := hall (w/(l.2+1)*(l.2+1))
    have hls := hall (w/(l.2+1)*(l.2+1)+(l.2+1)-4096)
    rcases hms with hl | hl <;> rw [hl] at hfr hls ⊢ <;> omega
  · rintro ⟨hlow,hhg⟩ v hv hbl
    rcases hms with hl | hl <;> rw [hl] at hlow hhg hbl <;> omega

end Range

theorem munmap_confined_iff {s : Kernel} {roots : Set ℕ} {virt size : ℕ}
    (htab : Tables s.vmm.mem s.vmm.pmm roots) (hroot : rootOf s ∈ roots) :
    Confined s roots virt size ↔ Contained s virt size := by
  have hlp : Cleared s (munmapLoop s virt 0 (pagesOf size)) roots virt (pagesOf size) := by
    have h := (Cleared.start virt htab).loop hroot (pagesOf size)
    rwa [Nat.zero_add] at h
  obtain ⟨fs,hlog,hfs⟩ := hlp.log
  constructor
  · intro h
    refine ⟨?_,?_,?_⟩
    · intro hal hst hend
      by_contra hwr
      have hin : ¬ Valid virt size := by
        rintro ⟨-,-,hvl⟩
        rw [userAddrEnd] at hvl
        omega
      have hrc := h.rejects hin
      rw [sysMunmap_accepts hal hst hend,Prod.mk.injEq] at hrc
      cases hrc.1
    · intro hvl i hi hph l hl
      obtain ⟨hal,hst,hend⟩ := hvl.accepted
      have htr := h.translations (rootOf s) hroot
      rw [sysMunmap_accepts hal hst hend] at htr
      obtain ⟨hms,hbl⟩ := leafOf_some hl
      refine (block_inRange hvl hi hms).mp fun v hv hsm => htr v hv ?_
      rw [physAddr_leafOf,physAddr_leafOf,hbl v hsm,hlp.hit v ⟨i,hi,hph,l,hl,hsm⟩]
      simp [Leaf.at]
    · intro hvl i hi hfd
      obtain ⟨hal,hst,hend⟩ := hvl.accepted
      obtain ⟨es,hes,hrec⟩ := h.frees
      rw [sysMunmap_accepts hal hst hend,hlog,List.append_cancel_left_eq] at hes
      have hmem : Event.free (slotOf s) (s.phys (pageAt virt i)) ∈ es := by
        rw [← hes]
        exact List.mem_map_of_mem ((hfs _).mpr ⟨i,hi,hfd,rfl⟩)
      obtain ⟨slot,frame,he,hfr⟩ := hrec _ hmem
      obtain ⟨-,rfl⟩ := Event.free.inj he
      exact hfr
  · intro h
    by_cases hac : virt % 4096 = 0 ∧ userAddrStart ≤ virt ∧ (virt+size) % 2^64 ≤ userAddrEnd
    · obtain ⟨hal,hst,hend⟩ := hac
      have hwr := h.no_wrap hal hst hend
      have hvl : Valid virt size := ⟨hal,hst,by omega⟩
      have hrun := sysMunmap_accepts (s:=s) hal hst hend
      refine ⟨?_,⟨fs.map (.free (slotOf s)),?_,?_⟩,fun hbad => (hbad hvl).elim⟩
      · intro r hr v hv hch
        rw [hrun,physAddr_leafOf,physAddr_leafOf] at hch
        by_cases hhit : Hit s virt (pagesOf size) v
        · obtain ⟨i,hi,hph,l,hl,hsm⟩ := hhit
          exact (block_inRange hvl hi (leafOf_some hl).1).mpr (h.inside hvl i hi hph l hl)
            v hv hsm
        · rw [hlp.same r hr v hhit] at hch
          exact (hch rfl).elim
      · rw [hrun]
        exact hlog
      · intro e he
        obtain ⟨frame,hfr,rfl⟩ := List.mem_map.mp he
        obtain ⟨i,hi,hfd,rfl⟩ := (hfs frame).mp hfr
        exact ⟨_,_,rfl,h.recorded hvl i hi hfd⟩
    · have hrun := sysMunmap_rejects (s:=s) hac
      refine ⟨?_,⟨[],?_,?_⟩,fun _ => hrun⟩
      · intro r _ v _ hch
        rw [hrun] at hch
        exact (hch rfl).elim
      · rw [hrun,List.append_nil]
      · intro e he
        cases he

/-- A process with one page of its own. -/
def ownedPage : Kernel where
  vmm := (vmmMap emptyTables 0x400000 0x900000 7).2
  processes := fun _ =>
    { Process.zero with
      userPages := fun _ => 0x900000
      userVaddrs := fun _ => 0x400000
      pageCount := 1 }
  current := some 0
  log := []

lemma ownedPage_tables : Tables ownedPage.vmm.mem ownedPage.vmm.pmm {emptyTables.currentPml4Phys} ∧
    rootOf ownedPage = emptyTables.currentPml4Phys := by
  have hms : emptyTables.currentPml4Phys &&& frameMask = emptyTables.currentPml4Phys := by decide
  have htab := emptyTables_tables
  have hrc : (vmmMap emptyTables 0x400000 0x900000 7).1 = 0 := by decide
  rcases vmmMap_spec 0x400000 0x900000 htab (Set.mem_singleton_iff.mpr hms)
    (show 7 < 8 by decide) with ⟨hbad,-⟩ | ⟨-,hmp⟩
  · rw [hbad] at hrc
    cases hrc
  · refine ⟨hmp.tables,?_⟩
    rw [rootOf,ownedPage,hmp.current,hms]

lemma ownedPage_contained : Contained ownedPage 0x400000 4096 := by
  have hpg : pagesOf 4096 = 1 := by decide
  refine ⟨fun _ _ _ => by decide,?_,?_⟩
  · intro _ i hi _ l hl
    obtain rfl : i = 0 := by omega
    cases hl
    decide
  · intro _ i hi _
    obtain rfl : i = 0 := by omega
    exact ⟨0,rfl,0,by decide,rfl,by decide⟩

/-- The page is unmapped, and nothing else is. -/
theorem munmap_confined_owned :
    Confined ownedPage {emptyTables.currentPml4Phys} 0x400000 4096 ∧
      (sysMunmap ownedPage 0x400000 4096).2.log = [.free 0 0x900000] :=
  ⟨(munmap_confined_iff ownedPage_tables.1 ownedPage_tables.2).mpr ownedPage_contained,
    by decide⟩

/-- A process without pages unmaps 4 KiB at 4 MiB: the 2 MiB page of the boot code is gone, and
its frame is given to the allocator. -/
theorem munmap_takes_boot_page :
    ∃ v, vmmInit (bootState (fun _ _ => 0) freshPmm) bootPml4 = some v ∧
      let s : Kernel := ⟨v,fun _ => Process.zero,some 0,[]⟩
      let r := sysMunmap s 0x400000 4096
      r.1 = 0 ∧ r.2.log = [.free 0 0x400000] ∧ (s.processes 0).pageCount = 0 ∧
        physAddr v.mem bootPml4 0x401000 = some 0x401000 ∧
        physAddr r.2.vmm.mem bootPml4 0x401000 = none ∧
        ¬ Confined s {bootPml4} 0x400000 4096 := by
  obtain ⟨v,hin,-⟩ := fresh_boot
  obtain ⟨htab,hcr,hsp,hpd,-⟩ := vmmInit_spec (pmmInit_sized _ _) hin
  obtain ⟨s,hs⟩ : ∃ s : Kernel, s = ⟨v,fun _ => Process.zero,some 0,[]⟩ := ⟨_,rfl⟩
  have hvmm : s.vmm = v := by rw [hs]
  have hlog : s.log = [] := by rw [hs]
  have hsl : slotOf s = 0 := by rw [hs]; rfl
  have hcn : (s.processes 0).pageCount = 0 := by rw [hs]; rfl
  have hms : bootPml4 &&& frameMask = bootPml4 := by decide
  have hrt : rootFrame v = bootPml4 := by rw [rootFrame,hcr,hms]
  have hph : s.phys 0x400000 = 0x400000 := by
    rw [Kernel.phys,hvmm]
    exact (boot_window hsp.low hpd hcr (by decide) (by decide)).1
  have hlf : leafOf v.mem bootPml4 0x400000 = some (0x400000,0x1FFFFF) := by
    rw [leafOf,boot_follow hsp.low hpd (by decide) (by decide)]
    rfl
  have hrun : sysMunmap s 0x400000 4096 = (0,munmapPage s 0x400000) :=
    sysMunmap_accepts (by decide) (by decide) (by decide)
  obtain ⟨hmem,-,-,hfr⟩ := munmapPage_present (hph.trans_ne (by decide))
  rw [hlog,hsl,hph] at hfr
  obtain ⟨hunc,-⟩ := vmmUnmap_uncovered 0x400000 htab (Set.mem_singleton_iff.mpr hrt)
  rw [hrt] at hunc
  have haf : physAddr (munmapPage s 0x400000).vmm.mem bootPml4 0x401000 = none := by
    rw [hmem,hvmm,physAddr_leafOf,hunc.at_root 0x401000 ⟨_,hlf,rfl⟩]
    rfl
  have hbf : physAddr v.mem bootPml4 0x401000 = some 0x401000 :=
    boot_physAddr hsp.low hpd (by decide) (by decide)
  refine ⟨v,hin,?_⟩
  rw [← hs]
  simp only [hrun]
  refine ⟨trivial,hfr,hcn,hbf,haf,?_⟩
  intro hbad
  have hrn := hbad.translations bootPml4 rfl 0x401000 (.inl (by decide))
  rw [hrun,haf,hvmm,hbf] at hrn
  exact absurd (hrn (by simp)) (by decide)

end UserPages
end HarlinKernel
