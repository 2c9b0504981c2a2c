import HarlinKernel.PageClear
import HarlinKernel.UserUnmap

/-! The effect of `vmm_map` and `vmm_unmap` on the page that they are called for: which
entries of its walk a user mapping opens, and which other pages an unmapping takes out. -/
namespace HarlinKernel.PageTable

open PageAllocator LabelledWalk AddressSpace PageClear
open PageTable (vmmMap getOrAllocTable mapInPd)

variable {mem : ℕ → ℕ → ℕ} {root i pd : ℕ} {u : Vmm} {q : List ℕ} {n m : Node}

section Unmap

variable {s t : Vmm} {virt v : ℕ}

/-- The two addresses agree in bits 12 to 47. -/
def SamePage (v w : ℕ) : Prop := v / 2^12 % 2^36 = w / 2^12 % 2^36

instance (v w : ℕ) : Decidable (SamePage v w) := inferInstanceAs (Decidable (_ = _))

/-- The address is translated to none, for the processor and for `vmm_get_phys`. -/
def Untranslated (s : Vmm) (v : ℕ) : Prop :=
  physAddr s.mem (rootFrame s) v = none ∧ vmmGetPhysLocked s v = 0

/-- The address is translated as before, for the processor and for `vmm_get_phys`. -/
def SameTranslation (s t : Vmm) (v : ℕ) : Prop :=
  physAddr t.mem (rootFrame t) v = physAddr s.mem (rootFrame s) v ∧
    vmmGetPhysLocked t v = vmmGetPhysLocked s v

/-- A 2 MiB entry translates the address. -/
def InHugePage (s : Vmm) (virt : ℕ) : Prop :=
  ∃ base, leafOf s.mem (rootFrame s) virt = some (base,0x1FFFFF)

/-- `vmm_unmap` takes out the page of the address and no other one. -/
def UnmapsPage (s : Vmm) (virt : ℕ) : Prop :=
  (∀ v, SamePage v virt → Untranslated (vmmUnmap s virt) v) ∧
    ∀ v, ¬ SamePage v virt → SameTranslation s (vmmUnmap s virt) v

/-- `vmm_map` and then `vmm_unmap` of one address affect no other page. -/
def MapUnmapLocal (s : Vmm) (virt : ℕ) : Prop :=
  ∀ phys flags, ∃ r, PageClear.vmmMap s virt phys flags = some r ∧
    ∀ v, ¬ SamePage v virt → SameTranslation s (vmmUnmap r.2 virt) v

lemma samePage_iff : SamePage v virt ↔ labels v = labels virt := (labels_eq_iff v virt).symm

lemma leafOf_congr (h : SamePage v virt) : leafOf mem root v = leafOf mem root virt := by
  rw [leafOf,leafOf,samePage_iff.mp h]

lemma untranslated_of_leaf (h : leafOf s.mem (rootFrame s) v = none) : Untranslated s v := by
  have hph : physAddr s.mem (rootFrame s) v = none := by
    rw [physAddr_leafOf,h]
    rfl
  refine ⟨hph,?_⟩
  rw [vmmGetPhysLocked_eq]
  split_ifs
  · rfl
  · exact congrArg (Option.getD · 0) hph

lemma sameTranslation_of_phys (hcr : t.currentPml4Phys = s.currentPml4Phys)
    (h : physAddr t.mem (rootFrame s) v = physAddr s.mem (rootFrame s) v) :
    SameTranslation s t v := by
  have hrt : rootFrame t = rootFrame s := by rw [rootFrame,rootFrame,hcr]
  refine ⟨by rw [hrt,h],?_⟩
  rw [vmmGetPhysLocked_eq,vmmGetPhysLocked_eq,hcr]
  exact congrArg (fun a => if s.currentPml4Phys = 0 then 0 else a.getD 0) h

lemma SameTranslation.trans (h : SameTranslation s t v) (h' : SameTranslation t u v) :
    SameTranslation s u v :=
  ⟨h'.1.trans h.1,h'.2.trans h.2⟩

lemma leafOf_ne_huge {f base : ℕ} (h : descend (next mem) (0,root) (tablePath virt) = some (3,f)) :
    leafOf mem root virt ≠ some (base,0x1FFFFF) := by
  intro hlf
  rw [leafOf,labels_eq,follow_append h] at hlf
  simp only [follow,next] at hlf
  cases hst : entryStep 3 (mem f (ptIdx virt)) with
  | go n => exact (entryStep_last _).1 n hst
  | stop leaf =>
    rw [hst] at hlf
    obtain rfl : leaf = some (base,0x1FFFFF) := hlf
    exact (entryStep_last _).2 base hst

lemma unmapsPage_of_small (htab : Tables s.mem s.pmm {rootFrame s}) (h : ¬ InHugePage s virt) :
    UnmapsPage s virt := by
  obtain ⟨hun,-,hcr,-⟩ := vmmUnmap_uncovered virt htab rfl
  have hrt : rootFrame (vmmUnmap s virt) = rootFrame s := by rw [rootFrame,rootFrame,hcr]
  have hcv : ∀ v, Covers s.mem (rootFrame s) virt v → SamePage v virt := by
    rintro v ⟨l,hl,hbl⟩
    rcases (leafOf_some hl).1 with hsm | hhg
    · rw [samePage_iff]
      exact (((sameBlock_page hsm).mp hbl).eq_of_length rfl).symm
    · exact (h ⟨l.1,by rw [hl,← hhg]⟩).elim
  refine ⟨fun v hv => untranslated_of_leaf ?_,fun v hv => ?_⟩
  · rw [hrt]
    by_cases hlf : leafOf s.mem (rootFrame s) virt = none
    · have hnot : ¬ Covers s.mem (rootFrame s) virt v := by
        rintro ⟨l,hl,-⟩
        rw [hlf] at hl
        cases hl
      rw [hun.same _ rfl v hnot,leafOf_congr hv,hlf]
    obtain ⟨l,hl⟩ := Option.ne_none_iff_exists'.mp hlf
    refine hun.at_root v ⟨l,hl,?_⟩
    rw [SamePage] at hv
    rw [SameBlock]
    rcases (leafOf_some hl).1 with hsm | hhg
    · rw [hsm]
      omega
    · exact (h ⟨l.1,by rw [hl,← hhg]⟩).elim
  · refine sameTranslation_of_phys hcr ?_
    rw [physAddr_leafOf,physAddr_leafOf,hun.same _ rfl v fun hc => hv (hcv v hc)]

/-- Another page of the 2 MiB page of an address. -/
def neighbour (virt : ℕ) : ℕ := virt / 2^21*2^21+(virt+2^12) % 2^21

lemma neighbour_page (virt : ℕ) : ¬ SamePage (neighbour virt) virt := by
  rw [SamePage,neighbour]
  omega

lemma neighbour_block {l : Leaf} (hl : l.2 = 0x1FFFFF) (virt : ℕ) :
    SameBlock l virt (neighbour virt) := by
  rw [SameBlock,hl,neighbour]
  omega

lemma not_unmapsPage (htab : Tables s.mem s.pmm {rootFrame s}) (h : InHugePage s virt) :
    ¬ UnmapsPage s virt := by
  rintro ⟨-,hot⟩
  obtain ⟨base,hlf⟩ := h
  obtain ⟨hun,-,hcr,-⟩ := vmmUnmap_uncovered virt htab rfl
  have hrt : rootFrame (vmmUnmap s virt) = rootFrame s := by rw [rootFrame,rootFrame,hcr]
  have hbl := neighbour_block (l := (base,0x1FFFFF)) rfl virt
  have hgn := hun.at_root (neighbour virt) ⟨_,hlf,hbl⟩
  have hbf := (leafOf_some hlf).2 _ hbl
  have hsm := (hot _ (neighbour_page virt)).1
  rw [hrt,physAddr_leafOf,physAddr_leafOf,hbf] at hsm
  rw [show leafOf (vmmUnmap s virt).mem (rootFrame s) (neighbour virt) = none from hgn] at hsm
  cases hsm

lemma sameTranslation_unmap (hcr : t.currentPml4Phys = s.currentPml4Phys)
    (htab : Tables t.mem t.pmm {rootFrame s})
    (hsl : ∀ base, leafOf t.mem (rootFrame s) virt ≠ some (base,0x1FFFFF))
    (hsm : physAddr t.mem (rootFrame s) v = physAddr s.mem (rootFrame s) v)
    (hv : ¬ SamePage v virt) : SameTranslation s (vmmUnmap t virt) v := by
  have hrt : rootFrame t = rootFrame s := by rw [rootFrame,rootFrame,hcr]
  have hpage : ¬ InHugePage t virt := by
    rintro ⟨base,hlf⟩
    exact hsl base (hrt ▸ hlf)
  rw [← hrt] at htab
  exact (sameTranslation_of_phys hcr hsm).trans ((unmapsPage_of_small htab hpage).2 v hv)

lemma mapUnmapLocal_of_small (htab : Tables s.mem s.pmm {rootFrame s}) (hwd : Words s)
    (hin : InPlace s virt) (h : ¬ InHugePage s virt) : MapUnmapLocal s virt := by
  intro phys flags
  refine ⟨_,vmmMap_eq hin hwd htab rfl phys flags,fun v hv => ?_⟩
  rcases vmmMap_entry virt phys flags htab rfl with ⟨-,hkp⟩ | ⟨-,hmp⟩
  · refine sameTranslation_unmap hkp.current hkp.tables (fun base hlf => ?_)
      (hkp.same _ rfl v) hv
    -- a failed mapping leaves the page as it was, and so no 2 MiB page
    have hsm := hkp.same _ rfl virt
    rw [physAddr_leafOf,physAddr_leafOf,hlf] at hsm
    cases hold : leafOf s.mem (rootFrame s) virt with
    | none =>
      rw [hold] at hsm
      cases hsm
    | some l =>
      rcases (leafOf_some hold).1 with hpage | hhg
      · obtain ⟨f,hf⟩ := leafOf_table (f := l.1) (by rw [hold,← hpage])
        exact leafOf_ne_huge (hkp.old _ rfl _ _ hf) hlf
      · exact h ⟨l.1,by rw [hold,← hhg]⟩
  · obtain ⟨f,hf⟩ := hmp.table
    refine sameTranslation_unmap hmp.current hmp.tables (fun base => leafOf_ne_huge hf) ?_ hv
    exact (hmp.page _ rfl v).trans (if_neg fun hc => hv (samePage_iff.mpr hc.1))

/-- Two pages above the first GiB. -/
def twoPages : Vmm :=
  (vmmMap (vmmMap bootTables 0x40000000 0x900000 3).2 0x40001000 0x901000 3).2

lemma twoPages_tables : Tables twoPages.mem twoPages.pmm {rootFrame twoPages} :=
  vmmMap_tables 0x40001000 0x901000 3 (vmmMap_tables 0x40000000 0x900000 3 bootTables_tables)

lemma twoPages_words : Words twoPages :=
  vmmMap_words (vmmMap_words bootTables_words bootTables_tables rfl _ _ _)
    (vmmMap_tables 0x40000000 0x900000 3 bootTables_tables) rfl _ _ _

end Unmap

section User

variable {s : Vmm} {roots : Set ℕ} {virt phys flags r : ℕ}

/-- The entries that the processor reads for an address, from the PML4 to the page table. -/
def walkEntries (s : Vmm) (virt : ℕ) : List ℕ :=
  let pml4e := s.mem (rootFrame s) (pml4Idx virt)
  let pdpte := s.mem (pml4e &&& frameMask) (pdptIdx virt)
  let pde := s.mem (pdpte &&& frameMask) (pdIdx virt)
  let pte := s.mem (pde &&& frameMask) (ptIdx virt)
  [pml4e,pdpte,pde,pte]

/-- User mode may use the page. -/
def UserAccessible (s : Vmm) (virt : ℕ) : Prop := ∀ e ∈ walkEntries s virt, e &&& vmmUser ≠ 0

/-- A page table of the address, if there is one, is open to user mode. -/
def UserTable (s : Vmm) (virt : ℕ) : Prop :=
  ∀ pd, descend (next s.mem) (0,rootFrame s) [pml4Idx virt,pdptIdx virt] = some (2,pd) →
    s.mem pd (pdIdx virt) &&& vmmPresent ≠ 0 → s.mem pd (pdIdx virt) &&& vmmHuge = 0 →
      s.mem pd (pdIdx virt) &&& vmmUser ≠ 0

lemma userEntry_user (entry : ℕ) (h : flags &&& vmmUser ≠ 0) :
    userEntry entry flags &&& vmmUser ≠ 0 := by
  rw [userEntry]
  split_ifs with hset
  · rw [Nat.and_or_distrib_right,Nat.and_self,hset.2]
    decide
  · tauto

lemma or_user (a : ℕ) (h : flags &&& vmmUser ≠ 0) :
    (a ||| (flags &&& vmmUser)) &&& vmmUser ≠ 0 := by
  rw [Nat.and_or_distrib_right,Nat.and_assoc,Nat.and_self]
  intro hzr
  exact h (Nat.or_eq_zero_iff.mp hzr).2

lemma pageEntry_user (h : flags &&& vmmUser ≠ 0) : pageEntry phys flags &&& vmmUser ≠ 0 := by
  rw [pageEntry,Nat.and_or_distrib_right]
  intro hzr
  exact h (Nat.or_eq_zero_iff.mp hzr).2

/-- Of the words in frames that are taken only an entry of one table has changed. -/
def Touched (p : Pmm) (mem mem' : ℕ → ℕ → ℕ) (frame idx : ℕ) : Prop :=
  ∀ f l, ¬ FreeFrame p f → f ≠ frame ∨ l ≠ idx → mem' f l = mem f l

lemma getOrAllocTable_user {table : ℕ} (htab : Tables s.mem s.pmm roots) (hr : r ∈ roots)
    (hn : descend (next s.mem) (0,r) q = some n) (hfr : table &&& frameMask = n.2)
    (hus : flags &&& vmmUser ≠ 0) (hne : (getOrAllocTable s table i flags).1 ≠ 0) :
    (getOrAllocTable s table i flags).2.mem n.2 i &&& vmmUser ≠ 0 ∧
    Touched s.pmm s.mem (getOrAllocTable s table i flags).2.mem n.2 i ∧
    (s.mem n.2 i &&& vmmPresent = 0 →
      ∀ l, (getOrAllocTable s table i flags).2.mem (getOrAllocTable s table i flags).1 l = 0) := by
  have hud : ¬ FreeFrame s.pmm n.2 := htab.taken r hr q n hn
  rcases getOrAllocTable_cases htab.sized hfr i flags with
    ⟨hpr,heq⟩ | ⟨-,heq | ⟨base,hbs,heq⟩⟩ <;> rw [heq] at hne ⊢
  · dsimp only
    rw [setWord_same]
    exact ⟨userEntry_user _ hus,fun f l _ => setWord_other _ _,fun hab => absurd hab hpr⟩
  · exact absurd rfl hne
  · have hot : frameAddr base ≠ n.2 := fun heq => hud (heq ▸ Taken.free hbs)
    simp only [linkTable]
    refine ⟨?_,fun f l hfe => linkTable_other hbs hfe,fun _ l => ?_⟩
    · rw [setWord_same]
      exact or_user _ hus
    · rw [setWord_other _ _ (.inl hot),Function.update_self]

lemma mapInPd_user (virt phys : ℕ) (htab : Tables s.mem s.pmm roots) (hr : r ∈ roots)
    (hn : descend (next s.mem) (0,r) [pml4Idx virt,pdptIdx virt] = some (2,pd))
    (hfm : pd &&& frameMask = pd) (hur : flags &&& vmmUser ≠ 0)
    (hrc : (mapInPd s pd virt phys flags).1 = 0) :
    ∃ pt, (mapInPd s pd virt phys flags).2.mem pd (pdIdx virt) &&& frameMask = pt ∧
      (mapInPd s pd virt phys flags).2.mem pt (ptIdx virt) = pageEntry phys flags ∧
      ((mapInPd s pd virt phys flags).2.mem pd (pdIdx virt) &&& vmmUser ≠ 0 ↔
        (s.mem pd (pdIdx virt) &&& vmmPresent ≠ 0 → s.mem pd (pdIdx virt) &&& vmmHuge = 0 →
          s.mem pd (pdIdx virt) &&& vmmUser ≠ 0)) ∧
      ∀ f l, ¬ FreeFrame s.pmm f → f ≠ pd → (∀ q, descend (next s.mem) (0,r) q ≠ some (3,f)) →
        (mapInPd s pd virt phys flags).2.mem f l = s.mem f l := by
  have hus : ¬ FreeFrame s.pmm pd := htab.taken r hr _ _ hn
  rcases mapInPd_cases htab.sized hfm hus rfl phys flags with
    ⟨hpr,hhg,heq⟩ | ⟨hhg,heq | ⟨base,hbs,heq⟩⟩ <;> rw [heq] at hrc ⊢
  · have hpt := (descend_snoc (p:=[pml4Idx virt,pdptIdx virt])).mpr
      ⟨_,hn,entryStep_table le_rfl hpr fun _ => hhg⟩
    have hot : pd ≠ s.mem pd (pdIdx virt) &&& frameMask := htab.frame_ne hr hr hn hpt (by simp)
    rw [mapInPt_mem,and_frameMask_and,setWord_other _ _ (.inl hot)]
    refine ⟨_,rfl,setWord_same _ _ _ _,by simp [hpr,hhg],fun f l _ _ hf => ?_⟩
    exact setWord_other _ _ (.inl fun heq => hf _ (heq ▸ hpt))
  · cases hrc
  · have hot : pd ≠ frameAddr base := fun heq => hus (heq ▸ Taken.free hbs)
    have hen : (linkTable s base (splitTable (s.mem pd (pdIdx virt))) pd (pdIdx virt) flags).mem
        pd (pdIdx virt) = tableEntry (frameAddr base) flags := setWord_same _ _ _ _
    have hms := frameAddr_frame htab.sized hbs
    rw [mapInPt_mem,hms,setWord_other _ _ (.inl hot),hen]
    refine ⟨_,by rw [tableEntry_frame,hms],setWord_same _ _ _ _,?_,fun f l hfr hpd _ => ?_⟩
    · exact iff_of_true (or_user _ hur) fun hpr hzr => absurd hzr (hhg hpr)
    · have hf : f ≠ frameAddr base := fun heq => hfr (heq ▸ Taken.free hbs)
      rw [setWord_other _ _ (.inl hf),linkTable_other hbs hfr (.inl hpd)]

lemma userTable_iff {w : Vmm} {pdpt : ℕ} (htab : Tables s.mem s.pmm {rootFrame s})
    (hu : Kept s u {rootFrame s}) (hw : Kept u w {rootFrame s})
    (hpp : descend (next u.mem) (0,rootFrame s) [pml4Idx virt] = some (1,pdpt))
    (hpd : descend (next w.mem) (0,rootFrame s) [pml4Idx virt,pdptIdx virt] = some (2,pd))
    (htc : Touched s.pmm s.mem u.mem (rootFrame s) (pml4Idx virt))
    (hem : s.mem (rootFrame s) (pml4Idx virt) &&& vmmPresent = 0 → ∀ l, u.mem pdpt l = 0)
    (htc' : Touched u.pmm u.mem w.mem pdpt (pdptIdx virt))
    (hem' : u.mem pdpt (pdptIdx virt) &&& vmmPresent = 0 → ∀ l, w.mem pd l = 0) :
    (w.mem pd (pdIdx virt) &&& vmmPresent ≠ 0 → w.mem pd (pdIdx virt) &&& vmmHuge = 0 →
      w.mem pd (pdIdx virt) &&& vmmUser ≠ 0) ↔ UserTable s virt := by
  have hst : descend (next s.mem) (0,rootFrame s) [] = some (0,rootFrame s) := rfl
  -- a new page directory is empty, and there was none before
  have hnew : u.mem pdpt (pdptIdx virt) &&& vmmPresent = 0 →
      (∀ f, descend (next s.mem) (0,rootFrame s) [pml4Idx virt,pdptIdx virt] ≠ some (2,f)) →
      ((w.mem pd (pdIdx virt) &&& vmmPresent ≠ 0 → w.mem pd (pdIdx virt) &&& vmmHuge = 0 →
        w.mem pd (pdIdx virt) &&& vmmUser ≠ 0) ↔ UserTable s virt) := by
    intro hab hno
    rw [hem' hab]
    exact iff_of_true (fun hbad => absurd (Nat.zero_and _) hbad) fun f hf => absurd hf (hno f)
  by_cases h₀ : s.mem (rootFrame s) (pml4Idx virt) &&& vmmPresent = 0
  · refine hnew (by rw [hem h₀,Nat.zero_and]) fun f hf => ?_
    simp only [descend,next,entryStep_absent 0 h₀] at hf
    cases hf
  have hgo₀ : next s.mem (0,rootFrame s) (pml4Idx virt) =
      .go (1,s.mem (rootFrame s) (pml4Idx virt) &&& frameMask) :=
    entryStep_table (Nat.zero_le 2) h₀ fun hk => by cases hk
  have hold : descend (next s.mem) (0,rootFrame s) [pml4Idx virt] = some (1,pdpt) := by
    have hfn := descend_snoc.mpr ⟨_,hst,hgo₀⟩
    have hkp := hu.old _ rfl _ _ hfn
    change descend (next u.mem) (0,rootFrame s) [pml4Idx virt] = _ at hkp
    rw [hpp] at hkp
    rw [hkp]
    exact hfn
  have hwr : u.mem pdpt (pdptIdx virt) = s.mem pdpt (pdptIdx virt) :=
    htc _ _ (htab.taken _ rfl _ _ hold) (.inl (htab.frame_ne rfl rfl hold hst (by simp)))
  by_cases h₁ : u.mem pdpt (pdptIdx virt) &&& vmmPresent = 0
  · refine hnew h₁ fun f hf => ?_
    have hgo := descend_last (p := [_]) hold hf
    rw [next,entryStep_absent _ (hwr ▸ h₁)] at hgo
    cases hgo
  have hgo₁ : next s.mem (1,pdpt) (pdptIdx virt) =
      .go (2,s.mem pdpt (pdptIdx virt) &&& frameMask) :=
    entryStep_table one_le_two (hwr ▸ h₁) fun hk => by simp at hk
  have hold' : descend (next s.mem) (0,rootFrame s) [pml4Idx virt,pdptIdx virt] = some (2,pd) := by
    have hfn := (descend_snoc (p := [pml4Idx virt])).mpr ⟨_,hold,hgo₁⟩
    have hkp := hw.old _ rfl _ _ (hu.old _ rfl _ _ hfn)
    change descend (next w.mem) (0,rootFrame s) [pml4Idx virt,pdptIdx virt] = _ at hkp
    rw [hpd] at hkp
    rw [hkp]
    exact hfn
  have hen : w.mem pd (pdIdx virt) = s.mem pd (pdIdx virt) := by
    have hmid := hu.old _ rfl _ _ hold'
    rw [htc' _ _ (hu.tables.taken _ rfl _ _ hmid)
      (.inl (hu.tables.frame_ne rfl rfl hmid hpp (by simp))),
      htc _ _ (htab.taken _ rfl _ _ hold') (.inl (htab.frame_ne rfl rfl hold' hst (by simp)))]
  rw [hen]
  refine ⟨fun h f hf => ?_,fun h => h pd hold'⟩
  rw [hold'] at hf
  obtain rfl := congrArg Prod.snd (Option.some.inj hf)
  exact h

/-- A user mapping is open to user mode unless its page table was there before and closed. -/
theorem user_mapping_iff (s : Vmm) (virt phys flags : ℕ) (huser : flags &&& vmmUser ≠ 0)
    (htab : Tables s.mem s.pmm {rootFrame s}) (hrc : (vmmMap s virt phys flags).1 = 0) :
    UserAccessible (vmmMap s virt phys flags).2 virt ↔ UserTable s virt := by
  rw [vmmMap] at hrc ⊢
  split_ifs at hrc ⊢
  · cases hrc
  have hst : descend (next s.mem) (0,rootFrame s) [] = some (0,rootFrame s) := rfl
  obtain ⟨hkp,hpp⟩ :=
    getOrAllocTable_spec (i:=pml4Idx virt) flags htab rfl hst (Nat.zero_le 1) rfl
  have hus₀ := getOrAllocTable_user (i:=pml4Idx virt) htab rfl hst rfl huser
  generalize getOrAllocTable s s.currentPml4Phys (pml4Idx virt) flags = pdpt
    at hkp hpp hus₀ hrc ⊢
  by_cases hzr : pdpt.1 = 0
  · simp [hzr] at hrc
  obtain ⟨hds,hms⟩ := hpp.resolve_left hzr
  obtain ⟨hop,htc,hem⟩ := hus₀ hzr
  obtain ⟨hkp',hpd⟩ :=
    getOrAllocTable_spec (i:=pdptIdx virt) flags hkp.tables rfl hds (le_refl 1) hms
  have hus₁ := getOrAllocTable_user (i:=pdptIdx virt) hkp.tables rfl hds hms huser
  simp only [hzr,if_false] at hrc ⊢
  generalize getOrAllocTable pdpt.2 pdpt.1 (pdptIdx virt) flags = pd at hkp' hpd hus₁ hrc ⊢
  by_cases hzr' : pd.1 = 0
  · simp [hzr'] at hrc
  obtain ⟨hds',hms'⟩ := hpd.resolve_left hzr'
  obtain ⟨hop',htc',hem'⟩ := hus₁ hzr'
  simp only [hzr',if_false] at hrc ⊢
  have hiff := userTable_iff htab hkp hkp' hds hds' htc hem htc' hem'
  obtain ⟨pt,hpt,hpage,hen,hrs⟩ := mapInPd_user virt phys
    (s := { pd.2 with lastReplacedPhys := 0 }) hkp'.tables rfl hds' hms' huser hrc
  have hsp := mapInPd_spec phys flags (s := { pd.2 with lastReplacedPhys := 0 })
    hkp'.tables rfl hds' hms' rfl
  generalize mapInPd { pd.2 with lastReplacedPhys := 0 } pd.1 virt phys flags = t
    at hrc hpt hpage hen hrs hsp ⊢
  have hcr : rootFrame t.2 = rootFrame s := by
    have hmp := (hsp.resolve_left fun hfl => by rw [hfl.1] at hrc; cases hrc).2
    rw [rootFrame,hmp.current]
    change rootFrame pd.2 = rootFrame s
    rw [rootFrame,rootFrame,hkp'.current,hkp.current]
  -- the entries over the page directory stay as they were left
  have hlv : ∀ {q n l}, descend (next pd.2.mem) (0,rootFrame s) q = some n → n.1 < 2 →
      t.2.mem n.2 l = pd.2.mem n.2 l := by
    intro q n l hn hlt
    refine hrs n.2 l (hkp'.tables.taken _ rfl _ _ hn)
      (hkp'.tables.frame_ne rfl rfl hn hds' ?_) fun q' hq' => ?_
    · omega
    · exact hkp'.tables.frame_ne rfl rfl hn hq' (by dsimp only; omega) rfl
  have hpml4e : t.2.mem (rootFrame s) (pml4Idx virt) =
      pdpt.2.mem (rootFrame s) (pml4Idx virt) := by
    rw [hlv (q := []) (n := (0,rootFrame s)) rfl (by simp)]
    exact htc' _ _ (hkp.tables.taken _ rfl [] _ rfl)
      (.inl (hkp.tables.frame_ne (q := []) (n := (0,rootFrame s)) rfl rfl rfl hds (by simp)))
  have hpe : t.2.mem pdpt.1 (pdptIdx virt) = pd.2.mem pdpt.1 (pdptIdx virt) :=
    hlv (hkp'.old _ rfl _ _ hds) (by simp)
  have hfr : pdpt.2.mem (rootFrame s) (pml4Idx virt) &&& frameMask = pdpt.1 := by
    have hgo := descend_last (p := []) rfl hds
    exact (congrArg Prod.snd (entryStep_go_iff.mp hgo).2.2.2).symm
  have hfr' : pd.2.mem pdpt.1 (pdptIdx virt) &&& frameMask = pd.1 := by
    have hgo := descend_last (p := [_]) (hkp'.old _ rfl _ _ hds) hds'
    exact (congrArg Prod.snd (entryStep_go_iff.mp hgo).2.2.2).symm
  rw [← hiff,← show _ ↔ _ from hen]
  simp only [UserAccessible,walkEntries,hcr,hpml4e,hfr,hpe,hfr',hpt,hpage,
    List.forall_mem_cons,List.not_mem_nil,false_implies,implies_true,and_true]
  exact ⟨fun h => h.2.2.1,fun h => ⟨hop,hop',h,pageEntry_user huser⟩⟩

/-- The first page of the user window, under an empty PML4. -/
theorem user_mapping_iff_empty :
    UserAccessible (vmmMap emptyTables 0x400000 0x900000 7).2 0x400000 := by
  refine (user_mapping_iff emptyTables 0x400000 0x900000 7 (by decide) emptyTables_tables
    (by decide)).mpr ?_
  intro pd hpd
  cases hpd

/-- A page of the kernel in the user window. -/
def kernelPage : Vmm := (vmmMap emptyTables 0x401000 0x901000 3).2

lemma kernelPage_tables : Tables kernelPage.mem kernelPage.pmm {rootFrame kernelPage} :=
  vmmMap_tables 0x401000 0x901000 3 emptyTables_tables

/-- A user page in the page table of a page of the kernel stays closed. -/
theorem user_mapping_closed :
    Tables kernelPage.mem kernelPage.pmm {rootFrame kernelPage} ∧
    (vmmMap kernelPage 0x400000 0x900000 7).1 = 0 ∧
    (walkEntries (vmmMap kernelPage 0x400000 0x900000 7).2 0x400000).map (· &&& vmmUser) =
      [4,4,0,4] ∧
    ¬ UserAccessible (vmmMap kernelPage 0x400000 0x900000 7).2 0x400000 := by
  have hbt : (walkEntries (vmmMap kernelPage 0x400000 0x900000 7).2 0x400000).map
      (· &&& vmmUser) = [4,4,0,4] := by decide
  refine ⟨kernelPage_tables,by decide,hbt,fun h => ?_⟩
  have hzr : 0 ∈ (walkEntries (vmmMap kernelPage 0x400000 0x900000 7).2 0x400000).map
      (· &&& vmmUser) := by
    decide
  obtain ⟨e,he,hcl⟩ := List.mem_map.mp hzr
  exact h e he hcl

end User

end HarlinKernel.PageTable
