import HarlinKernel.PageFault
import HarlinKernel.PagedCreation
import HarlinKernel.UserCopy

/-! Which addresses users can reach. `vmm_map` gives them pages of the user window only, which
lies in the first GiB; the entries of the first PDPT for the other addresses never get the
user's bit, whatever the callers of the page tables do. -/
namespace HarlinKernel.UserWindow

open LabelledWalk PageTable TransitionSystem AddressSpace UserCopy
open PageAllocator (Sized frameAddr pmmInit_sized)

/-- The PDPT of the boot code, which all address spaces share. -/
def lowPdpt : ℕ := 0x21000

/-- Users get no further than the first GiB of what this PDPT translates. -/
def Upper (mem : ℕ → ℕ → ℕ) : Prop := ∀ l ≠ 0, mem lowPdpt l &&& vmmUser = 0

structure Shut (s : Kernel) : Prop extends Sound s where
  upper : Upper s.vmm.mem

/-- What the callers of the page tables do; they may write the frames they hold. -/
inductive Access
  | call (c : Call)
  | store (frame : ℕ) (words : ℕ → ℕ)

def act (s : Kernel) : Access → Option Kernel
  | .call c => some (Call.run s c).2
  | .store frame words => some (s.store frame words)

def ProperAccess (s : Kernel) : Access → Prop
  | .call c => Proper s (c,0)
  | .store frame _ => frame ∈ s.held

def pagingRuns : System Kernel Access := (actions Booted act).guarded ProperAccess

lemma stable_reach {I : Kernel → Prop} (hI : Stable I) (hbt : ∀ s, Booted s → I s) {s : Kernel}
    (h : Reach pagingRuns s) : I s := by
  refine h.invariant I hbt ?_
  rintro s a t hs ⟨hact,hok⟩
  cases a with
  | call c =>
    cases hact
    exact hI.call s c hs hok
  | store frame words =>
    cases hact
    exact hI.store s frame words hs hok

section Words

variable {s : Vmm} {x l : ℕ}

lemma tableEntry_not_user {page flags : ℕ} (h : flags &&& vmmUser = 0) :
    tableEntry page flags &&& vmmUser = 0 := by
  have hms : frameMask &&& vmmUser = 0 := by decide
  have hlow : (vmmPresent ||| vmmWritable) &&& vmmUser = 0 := by decide
  rw [tableEntry,h,Nat.or_zero,Nat.or_assoc,Nat.and_or_distrib_right,Nat.and_assoc,hms,hlow,
    Nat.and_zero]
  rfl

lemma getOrAllocTable_user {table idx flags : ℕ} (hs : Sized s.pmm)
    (hus : ¬ FreeFrame s.pmm x) (hwr : s.mem x l &&& vmmUser = 0)
    (hfl : x = table &&& frameMask → l = idx → flags &&& vmmUser = 0) :
    (getOrAllocTable s table idx flags).2.mem x l &&& vmmUser = 0 := by
  rcases getOrAllocTable_cases hs rfl idx flags with ⟨-,heq⟩ | ⟨-,heq | ⟨base,hbs,heq⟩⟩ <;> rw [heq]
  all_goals by_cases hat : x ≠ table &&& frameMask ∨ l ≠ idx
  · exact (congrArg (· &&& vmmUser) (setWord_other _ _ hat)).trans hwr
  · push Not at hat
    obtain ⟨rfl,rfl⟩ := hat
    simp only [setWord_same,userEntry,hfl rfl rfl,ne_eq,not_true_eq_false,false_and,if_false]
    exact hwr
  · exact hwr
  · exact hwr
  · rw [linkTable_other hbs hus hat]
    exact hwr
  · push Not at hat
    obtain ⟨rfl,rfl⟩ := hat
    exact (congrArg (· &&& vmmUser) (setWord_same _ _ _ _)).trans
      (tableEntry_not_user (hfl rfl rfl))

lemma vmmMap_upper {roots : Set ℕ} {virt phys flags : ℕ} (htab : Tables s.mem s.pmm roots)
    (hrt : rootFrame s ∈ roots)
    (hlow : Low s.mem (rootFrame s)) (h : Upper s.mem) :
    Upper (vmmMap s virt phys flags).2.mem := by
  by_cases hrj : flags &&& vmmUser ≠ 0 ∧ (virt < userAddrStart ∨ userAddrEnd ≤ virt)
  · rw [vmmMap,if_pos hrj]
    exact h
  have hin : flags &&& vmmUser ≠ 0 → pdptIdx virt = 0 := by
    intro hfl
    have hvr : ¬ (virt < userAddrStart ∨ userAddrEnd ≤ virt) := fun hbad => hrj ⟨hfl,hbad⟩
    push Not at hvr
    exact (user_indices hvr.1 hvr.2).2
  have hus : ∀ t : Vmm, ¬ FreeFrame t.pmm lowPdpt := fun t => low_not_free (by decide)
  -- the PDPT is no other table of the tree
  have hap : ∀ t, Extended s t roots → ∀ q k f,
      descend (next t.mem) (0,rootFrame s) q = some (k,f) → k ≠ 1 →
        lowPdpt ≠ f := by
    intro t hext q k f hn hdp
    exact hext.tables.frame_ne hrt hrt (hext.old _ hrt _ _ hlow.pdpt) hn hdp.symm
  refine vmmMap_rule (P := fun u => Upper u.mem) (Q := fun r => Upper r.2.mem) htab hrt
    (fun _ hu => hu) h ?_ ?_ ?_
  · intro l hl
    have hdt := getOrAllocTable_data (pml4Idx virt) flags htab.sized (hus s)
      (hap s (Kept.refl htab).toExtended [] _ _ rfl Nat.zero_ne_one)
    rw [hdt]
    exact h l hl
  · intro u pdpt hext _ hms hu l hl
    refine getOrAllocTable_user hext.tables.sized (hus u) (hu l hl) fun _ hidx => ?_
    by_contra hfl
    exact hl (hidx.trans (hin hfl))
  · intro u pd hext hds hms hu l hl
    have hdt := mapInPd_data (s := { u with lastReplacedPhys := 0 }) phys flags hext.tables hrt
      hds hms (hus u) (hap u hext)
    rw [hdt]
    exact hu l hl

lemma setWord_zero (mem : ℕ → ℕ → ℕ) (f i x l : ℕ) :
    setWord mem f i 0 x l = mem x l ∨ setWord mem f i 0 x l = 0 := by
  by_cases hat : x ≠ f ∨ l ≠ i
  · exact .inl (setWord_other _ _ hat)
  · push Not at hat
    obtain ⟨rfl,rfl⟩ := hat
    exact .inr (setWord_same ..)

lemma vmmUnmap_word (s : Vmm) (virt x l : ℕ) :
    (vmmUnmap s virt).mem x l = s.mem x l ∨ (vmmUnmap s virt).mem x l = 0 := by
  rw [vmmUnmap]
  dsimp only
  split_ifs
  · exact .inl rfl
  · exact .inl rfl
  · exact .inl rfl
  all_goals exact setWord_zero ..

lemma foldl_release_mem (frames : List ℕ) (s : Vmm) :
    (frames.foldl releasePage s).mem = s.mem := by
  induction frames generalizing s with
  | nil => rfl
  | cons f frames ih =>
    rw [List.foldl_cons,ih,releasePage]
    split <;> rfl

lemma clone_fails_mem (h : (vmmCloneKernelPml4 s).1 = 0) :
    (vmmCloneKernelPml4 s).2.mem = s.mem := by
  simp only [vmmCloneKernelPml4] at h ⊢
  split_ifs at h ⊢ with hnew hmr
  · rfl
  · exact foldl_release_mem _ _
  · exact absurd h hnew

end Words

variable {s : Kernel} {virt : ℕ}

lemma Shut.boot (h : Booted s) : Shut s := by
  refine ⟨.boot h,?_⟩
  obtain ⟨-,-,mem,p,bssEnd,hin⟩ := h
  intro l hl
  rw [vmmInit_frame (pmmInit_sized p bssEnd) hin (low_not_free (by decide))
    (by decide : lowPdpt ≠ bootPml4)]
  simp [bootMem,lowPdpt,word,hl]

lemma Shut.clone (h : Shut s) : Upper (Call.run s .clone).2.vmm.mem := by
  intro l hl
  have hsm : (vmmCloneKernelPml4 s.vmm).2.mem lowPdpt = s.vmm.mem lowPdpt := by
    rcases vmmCloneKernelPml4_spec h.tables h.spaces h.current with ⟨hzr,-⟩ | hcl
    · rw [clone_fails_mem hzr]
    · exact hcl.words _ (low_not_free (by decide))
  simp only [Call.run]
  rw [hsm]
  exact h.upper l hl

lemma Shut.map (h : Shut s) (virt phys flags : ℕ) :
    Upper (Call.run s (.map virt phys flags)).2.vmm.mem := by
  have hms := h.masked
  refine vmmMap_upper h.tables ?_ ?_ h.upper
  · rw [hms]
    exact h.current
  · rw [hms]
    exact (h.spaces _ h.current).low

lemma Shut.unmap (h : Shut s) (virt : ℕ) : Upper (Call.run s (.unmap virt)).2.vmm.mem := by
  intro l hl
  rcases vmmUnmap_word s.vmm virt lowPdpt l with hsm | hzr
  · exact (congrArg (· &&& vmmUser) hsm).trans (h.upper l hl)
  · exact (congrArg (· &&& vmmUser) hzr).trans (Nat.zero_and _)

lemma Shut.store (h : Shut s) {f : ℕ} (hf : f ∈ s.held) (words : ℕ → ℕ) :
    Upper (s.store f words).vmm.mem := by
  obtain ⟨i,-,rfl⟩ := (h.held f hf).managed
  have hne : lowPdpt ≠ frameAddr i := by
    have had : frameAddr i = 0x300000+i*4096 := rfl
    rw [had,lowPdpt]
    omega
  intro l hl
  simp only [Kernel.store]
  rw [Function.update_of_ne hne]
  exact h.upper l hl

lemma stable_shut : Stable Shut := by
  refine ⟨fun _ h => h.toSound,?_,fun s f words h hf => ⟨h.toSound.store hf words,h.store hf words⟩⟩
  intro s c h hok
  refine ⟨h.toSound.run hok,?_⟩
  cases c with
  | clone => exact h.clone
  | switch pml4Phys => exact h.upper
  | map virt phys flags => exact h.map virt phys flags
  | unmap virt => exact h.unmap virt
  | alloc => exact h.upper
  | free addr => exact h.upper

lemma reach_shut (h : Reach pagingRuns s) : Shut s := stable_reach stable_shut (fun _ => .boot) h

/-- No address space lets users to the addresses from 1 GiB to 512 GiB. -/
theorem Shut.not_granted (h : Shut s) {r : ℕ} (hr : r ∈ roots s) (hlow : 2^30 ≤ virt)
    (hhg : virt < 2^39) : ¬ Grants (vmmSwitch s.vmm r) vmmUser virt := by
  have hsp := h.spaces r hr
  have hlb : labels virt = [0] ++ [pdptIdx virt,pdIdx virt,ptIdx virt] := by
    simp only [labels,pml4Idx,index_eq,List.cons_append,List.nil_append,List.cons.injEq,and_true]
    omega
  have hidx : pdptIdx virt ≠ 0 := by
    rw [pdptIdx,index_eq]
    omega
  intro hgr
  rw [Grants,hlb] at hgr
  change permissions s.vmm.mem (0,r &&& frameMask) _ &&& vmmUser = vmmUser at hgr
  rw [hsp.frame] at hgr
  have hend := permissions_append hsp.low.pdpt _ hgr
  have hwr := h.upper _ hidx
  rw [permissions] at hend
  cases hnx : next s.vmm.mem (1,0x21000) (pdptIdx virt) with
  | stop leaf =>
    rw [hnx] at hend
    exact absurd (hwr.symm.trans hend) (by decide)
  | go n =>
    rw [hnx] at hend
    dsimp only at hend
    rw [Nat.and_comm (s.vmm.mem _ _)] at hend
    exact absurd (hwr.symm.trans (and_of_and_and hend)) (by decide)

end HarlinKernel.UserWindow
