import HarlinKernel.ElfCreation

/-! Frames that are not given back. The log of a slot shows which frames were taken for it;
`process_exit` and the creations that fail late keep the four frames of the cloned tables. -/
namespace HarlinKernel.ProcessLeaks

open PageAllocator PageTable TransitionSystem ProcessTable FrameSupply
open AddressSpace (after after_add bootPml4 bootState freshPmm vmmCloneKernelPml4 vmmInit)
open List (count_eq_zero count_append)

variable {s t : Kernel} {slot f : ℕ}

/-- Each frame taken for the slot was given back as often as it was taken. -/
def Returned (log : List Event) (slot : ℕ) : Prop :=
  ∀ f, log.count (.alloc slot f) = log.count (.free slot f)

def NoLeak (s : Kernel) : Prop :=
  ∀ slot < maxProcesses, (s.processes slot).state = .none → Returned s.log slot

inductive Call
  | create (rip rsp : ℕ)
  | createElf (image : ElfImage)
  | dispatch (next : ℕ)
  | exit

def act (s : Kernel) : Call → Option Kernel
  | .create rip rsp => some (processCreate s rip rsp).2
  | .createElf image => some (processCreateElf s image).2
  | .dispatch next =>
    if next < maxProcesses ∧ (s.processes next).state = .ready then some (schedule s next) else none
  | .exit => some (processExit s)

/-- `scheduler_init` with a table that was never used. -/
def Initialised (s : Kernel) : Prop :=
  ∃ s₀ : Kernel, Sized s₀.vmm.pmm ∧ s₀.log = [] ∧ (∀ i, (s₀.processes i).pageCount = 0) ∧
    s = schedulerInit s₀

def creationRuns : System Kernel Call := actions Initialised act

/-- Sound tables, none at address 0 on the way to the kernel stack of the slot, and so many frames
that a process can be made. -/
def Roomy (s : Kernel) (slot n : ℕ) : Prop :=
  ∃ clones, Paged s clones [] ∧ Enough (n+21) s.vmm.pmm ∧
    ∀ r, (r = bootPml4 ∨ r ∈ clones) → ∀ k < 4,
      Passable s.vmm.mem r (stackBaseOf slot+k*4096)

/-- No process exits, and a creation that finds a slot finds either too few frames for a stack and
cloned tables, or enough for all that it maps; an image that is not rejected lies in the user
window. -/
def Completes (s : Kernel) : Call → Prop
  | .create _ _ => ∀ slot, findSlot s.processes = some slot →
    ¬ Enough 9 s.vmm.pmm ∨ Roomy s slot 0
  | .createElf image => ¬ (image.accepted = false ∨ image.entry < elfUserLoadBase) →
    ∀ slot, findSlot s.processes = some slot →
      ¬ Enough 9 s.vmm.pmm ∨ (∀ seg ∈ image.segments, seg.Fits image.size) ∧
        Roomy s slot (4*loadPages image.segments)
  | .dispatch _ => True
  | .exit => s.current = none

/-- No process exits, and a creation that gets its cloned tables does not fail any more. -/
def NotLate (s : Kernel) : Call → Prop
  | .create rip rsp => ∀ slot, findSlot s.processes = some slot → clones s slot = true →
    (processCreate s rip rsp).1 ≠ -1
  | .createElf image => ¬ (image.accepted = false ∨ image.entry < elfUserLoadBase) →
    ∀ slot, findSlot s.processes = some slot → clones s slot = true →
      (processCreateElf s image).1 ≠ -1
  | .dispatch _ => True
  | .exit => s.current = none

/-- The cloned tables of the process were taken for it, and an exit does not find them. -/
structure HoldsTables (s : Kernel) (slot : ℕ) : Prop where
  taken : s.log.count (.free slot (s.processes slot).pml4Phys) <
    s.log.count (.alloc slot (s.processes slot).pml4Phys)
  user : ¬ UserFrame (s.processes slot) (s.processes slot).pml4Phys
  stack : ¬ StackFrame (s.processes slot) (s.processes slot).pml4Phys

structure Tidy (s : Kernel) : Prop where
  sized : Sized s.vmm.pmm
  noLeak : NoLeak s
  current : ∀ pid, s.current = some pid → pid < maxProcesses ∧ (s.processes pid).state ≠ .none
  live : ∀ slot < maxProcesses, (s.processes slot).state ≠ .none → HoldsTables s slot
  empty : ∀ slot < maxProcesses, (s.processes slot).state = .none →
    ∀ f, ¬ UserFrame (s.processes slot) f

lemma Tidy.initialised (h : Initialised s) : Tidy s := by
  obtain ⟨s₀,hs,hlog,hpg,rfl⟩ := h
  refine ⟨hs,?_,?_,?_,?_⟩
  · intro slot _ _ f
    change s₀.log.count _ = s₀.log.count _
    rw [hlog]
    rfl
  · intro pid hpid
    cases hpid
  · exact fun slot _ hlv => (hlv rfl).elim
  · rintro slot - - f ⟨j,hj,-⟩
    have hcn : ((schedulerInit s₀).processes slot).pageCount = 0 := hpg slot
    omega

lemma count_other {es : List Event} {i : ℕ}
    (hes : ∀ e ∈ es, ∃ f, e = .alloc slot f ∨ e = .free slot f) (hi : i ≠ slot) (f : ℕ) :
    es.count (.alloc i f) = 0 ∧ es.count (.free i f) = 0 := by
  refine ⟨count_eq_zero.mpr ?_,count_eq_zero.mpr ?_⟩
  · intro hmem
    obtain ⟨g,hg | hg⟩ := hes _ hmem
    · cases hg
      exact hi rfl
    · cases hg
  · intro hmem
    obtain ⟨g,hg | hg⟩ := hes _ hmem
    · cases hg
    · cases hg
      exact hi rfl

lemma log_other {i : ℕ} (h : Took s t slot) (hi : i ≠ slot) (f : ℕ) :
    t.log.count (.alloc i f) = s.log.count (.alloc i f) ∧
    t.log.count (.free i f) = s.log.count (.free i f) := by
  obtain ⟨es,hes,hev⟩ := h.log
  obtain ⟨hal,hfr⟩ := count_other (fun e he => (hev e he).imp fun _ hf => hf.2) hi f
  rw [hes,count_append,count_append,hal,hfr]
  exact ⟨rfl,rfl⟩

lemma returned_append {log : List Event} (h : Returned log slot) (frames : List ℕ) :
    Returned (log ++ (frames.map (.alloc slot) ++ frames.map (.free slot))) slot := by
  intro f
  have hal : (frames.map (Event.alloc slot)).count (.free slot f) = 0 :=
    count_eq_zero.mpr (by simp)
  have hfr : (frames.map (Event.free slot)).count (.alloc slot f) = 0 :=
    count_eq_zero.mpr (by simp)
  have hinj : Function.Injective (Event.alloc slot) := fun a b hab => by cases hab; rfl
  have hinj' : Function.Injective (Event.free slot) := fun a b hab => by cases hab; rfl
  simp only [count_append,hal,hfr,List.count_map_of_injective frames _ hinj,
    List.count_map_of_injective frames _ hinj',h f]
  omega

lemma Leaked.holds {cloned : ℕ} (h : Leaked s t slot cloned) (hs : Returned s.log slot) :
    t.log.count (.free slot cloned) < t.log.count (.alloc slot cloned) := by
  obtain ⟨es,hes,hal,hfr⟩ := h.log
  have hpos : 0 < es.count (.alloc slot cloned) := List.count_pos_iff.mpr hal
  rw [hes,count_append,count_append,hs cloned,count_eq_zero.mpr hfr]
  omega

lemma Tidy.changed (h : Tidy s) (hsl : findSlot s.processes = some slot) (htk : Took s t slot)
    (hem : (t.processes slot).state = .none →
      Returned t.log slot ∧ ∀ f, ¬ UserFrame (t.processes slot) f)
    (hlv : (t.processes slot).state ≠ .none → HoldsTables t slot) : Tidy t := by
  have hde := (findSlot_some hsl).2
  refine ⟨htk.sized,?_,?_,?_,?_⟩
  · intro i hi hst f
    by_cases heq : i = slot
    · subst heq
      exact (hem hst).1 f
    · rw [htk.others i heq] at hst
      rw [(log_other htk heq f).1,(log_other htk heq f).2]
      exact h.noLeak i hi hst f
  · intro pid hpid
    rw [htk.current] at hpid
    have hold := h.current pid hpid
    have hne : pid ≠ slot := by
      rintro rfl
      exact hold.2 hde
    exact ⟨hold.1,by rw [htk.others pid hne]; exact hold.2⟩
  · intro i hi hst
    by_cases heq : i = slot
    · subst heq
      exact hlv hst
    have hpr := htk.others i heq
    rw [hpr] at hst
    have hold := h.live i hi hst
    refine ⟨?_,?_,?_⟩
    · rw [hpr,(log_other htk heq _).1,(log_other htk heq _).2]
      exact hold.taken
    · rw [hpr]
      exact hold.user
    · rw [hpr]
      exact hold.stack
  · intro i hi hst f
    by_cases heq : i = slot
    · subst heq
      exact (hem hst).2 f
    · rw [htk.others i heq] at hst ⊢
      exact h.empty i hi hst f

/-- A creation keeps the law unless it fails with its cloned tables taken. -/
theorem Tidy.outcome (h : Tidy s) (hsl : findSlot s.processes = some slot) {r : ℤ × Kernel}
    (hot : Outcome s slot r) :
    (NoLeak r.2 → clones s slot = true → r.1 ≠ -1) ∧
    ((clones s slot = true → r.1 ≠ -1) → Tidy r.2) := by
  obtain ⟨hlt,hde⟩ := findSlot_some hsl
  have hrt := h.noLeak slot hlt hde
  cases hot with
  | refused hno hrf =>
    refine ⟨fun _ hyes => absurd (hno.symm.trans hyes) (by decide),fun _ => ?_⟩
    refine h.changed hsl hrf.took ?_ ?_
    · intro _
      obtain ⟨frames,hlog⟩ := hrf.log
      rw [hlog,hrf.processes]
      exact ⟨returned_append hrt frames,h.empty slot hlt hde⟩
    · intro hlv
      rw [hrf.processes] at hlv
      exact (hlv hde).elim
  | leaked hyes hlk hse =>
    refine ⟨?_,fun hok => (hok hyes rfl).elim⟩
    intro hlaw
    have hcn := Leaked.holds hlk hrt
    rw [hlaw slot hlt hse] at hcn
    exact absurd hcn (lt_irrefl _)
  | started hyes hst =>
    refine ⟨fun _ _ => by simp only; omega,fun _ => ?_⟩
    refine h.changed hsl hst.took ?_ ?_
    · intro hbad
      rw [hst.state] at hbad
      cases hbad
    intro _
    refine ⟨?_,?_,?_⟩
    · rw [hst.pml4]
      exact Leaked.holds hst.toLeaked hrt
    · rw [hst.pml4]
      intro hbad
      rcases hst.own _ hbad with hold | hne
      · exact h.empty slot hlt hde _ hold
      · exact hne rfl
    · rw [hst.pml4]
      rintro ⟨j,hj,hbad⟩
      rw [hst.count] at hj
      exact (hst.stack j hj).2.2 hbad

lemma Tidy.dispatch (h : Tidy s) {next : ℕ} (hlt : next < maxProcesses)
    (hrd : (s.processes next).state = .ready) : Tidy (schedule s next) := by
  have hnx : (s.processes next).state ≠ .none := by simp [hrd]
  obtain ⟨hpmm,hcr,hlog,hsm⟩ := schedule_same hnx
  refine ⟨hpmm ▸ h.sized,?_,?_,?_,?_⟩
  · intro i hi hst
    rw [hlog]
    exact h.noLeak i hi ((hsm i).state.mp hst)
  · intro pid hpid
    obtain rfl : next = pid := Option.some.inj (hcr.symm.trans hpid)
    exact ⟨hlt,fun hbad => hnx ((hsm next).state.mp hbad)⟩
  · intro i hi hst
    have hold := h.live i hi fun hbad => hst ((hsm i).state.mpr hbad)
    refine ⟨?_,?_,?_⟩
    · rw [hlog,(hsm i).pml4]
      exact hold.taken
    · rw [(hsm i).pml4,(hsm i).user]
      exact hold.user
    · rw [(hsm i).pml4,(hsm i).stack]
      exact hold.stack
  · intro i hi hst
    rw [(hsm i).user]
    exact h.empty i hi ((hsm i).state.mp hst)

lemma Tidy.exit_keeps (h : Tidy s) {pid : ℕ} (hcr : s.current = some pid) :
    ((processExit s).processes pid).state = .none ∧
      (processExit s).log.count (.free pid (s.processes pid).pml4Phys) <
        (processExit s).log.count (.alloc pid (s.processes pid).pml4Phys) := by
  obtain ⟨hlt,hlv⟩ := h.current pid hcr
  have hhl := h.live pid hlt hlv
  obtain ⟨hgv,hst,-⟩ := processExit_gave hcr
  obtain ⟨es,hes,hev⟩ := hgv.log
  have hfr : es.count (.free pid (s.processes pid).pml4Phys) = 0 := by
    refine count_eq_zero.mpr fun hmem => ?_
    obtain ⟨f,hkn,hf⟩ := hev _ hmem
    cases hf
    exact hkn.elim hhl.user hhl.stack
  have htk := hhl.taken
  rw [hes,count_append,count_append,hfr]
  exact ⟨hst,by omega⟩

lemma Tidy.exit_leaks (h : Tidy s) {pid : ℕ} (hcr : s.current = some pid) :
    ¬ NoLeak (processExit s) := by
  obtain ⟨hst,hcn⟩ := h.exit_keeps hcr
  intro hlaw
  rw [hlaw pid (h.current pid hcr).1 hst] at hcn
  exact absurd hcn (lt_irrefl _)

lemma Tidy.step (h : Tidy s) {c : Call} (hact : act s c = some t) :
    (NoLeak t → NotLate s c) ∧ (NotLate s c → Tidy t) := by
  cases c with
  | create rip rsp =>
    cases hact
    cases hsl : findSlot s.processes with
    | none =>
      have hsm : processCreate s rip rsp = (-1,s) := by rw [processCreate,hsl]
      rw [hsm]
      refine ⟨?_,fun _ => h⟩
      intro _ slot hbad
      rw [hsl] at hbad
      cases hbad
    | some slot =>
      have hot := h.outcome hsl (processCreate_outcome h.sized hsl rip rsp)
      refine ⟨?_,fun hok => hot.2 (hok slot hsl)⟩
      intro hlaw slot' hsl'
      obtain rfl : slot = slot' := Option.some.inj (hsl.symm.trans hsl')
      exact hot.1 hlaw
  | createElf image =>
    cases hact
    by_cases him : image.accepted = false ∨ image.entry < elfUserLoadBase
    · have hsm : processCreateElf s image = (-1,s) := by rw [processCreateElf,if_pos him]
      rw [hsm]
      exact ⟨fun _ hbad => (hbad him).elim,fun _ => h⟩
    cases hsl : findSlot s.processes with
    | none =>
      have hsm : processCreateElf s image = (-1,s) := by
        rw [processCreateElf,if_neg him,hsl]
      rw [hsm]
      refine ⟨?_,fun _ => h⟩
      intro _ _ slot hbad
      rw [hsl] at hbad
      cases hbad
    | some slot =>
      have hot := h.outcome hsl (processCreateElf_outcome h.sized him hsl)
      refine ⟨?_,fun hok => hot.2 (hok him slot hsl)⟩
      intro hlaw _ slot' hsl'
      obtain rfl : slot = slot' := Option.some.inj (hsl.symm.trans hsl')
      exact hot.1 hlaw
  | dispatch next =>
    rw [act] at hact
    split_ifs at hact with hrd
    cases hact
    exact ⟨fun _ => trivial,fun _ => h.dispatch hrd.1 hrd.2⟩
  | exit =>
    cases hact
    refine ⟨?_,?_⟩
    · intro hlaw
      cases hcr : s.current with
      | none => exact hcr
      | some pid => exact (h.exit_leaks hcr hlaw).elim
    · intro hno
      have hcr : s.current = none := hno
      rw [processExit,hcr]
      exact h

lemma enough_of_allocStack {n : ℕ} (h : (allocStack s slot n).1.length = n) :
    Enough n s.vmm.pmm ∧ (allocStack s slot n).2.vmm.pmm = after n s.vmm.pmm := by
  induction n generalizing s with
  | zero => exact ⟨fun k hk => absurd hk (Nat.not_lt_zero k),rfl⟩
  | succ n ih =>
    rw [allocStack] at h ⊢
    by_cases hzr : (s.alloc slot).1 = 0
    · simp [hzr] at h
    simp only [hzr,if_false,List.length_cons,Nat.add_right_cancel_iff] at h ⊢
    obtain ⟨hen,hpmm⟩ := ih h
    refine ⟨?_,hpmm⟩
    intro k hk
    cases k with
    | zero => exact hzr
    | succ k => exact hen k (by omega)

/-- A creation that gets its cloned tables has found nine frames. -/
lemma enough_of_clones (h : clones s slot = true) : Enough 9 s.vmm.pmm := by
  rw [clones] at h
  simp only [Bool.and_eq_true,decide_eq_true_iff] at h
  obtain ⟨hen,hpmm⟩ := enough_of_allocStack h.1
  have hcl : (vmmCloneKernelPml4 (allocStack s slot 5).2.vmm).1 ≠ 0 := h.2
  generalize (allocStack s slot 5).2.vmm = v at hpmm hcl
  have hfr : Enough 4 v.pmm := by
    rw [vmmCloneKernelPml4] at hcl
    dsimp only at hcl
    split_ifs at hcl with h₀ h₁
    · exact absurd rfl hcl
    · exact absurd rfl hcl
    simp only [not_or] at h₁
    intro k hk
    interval_cases k
    exacts [h₀,h₁.1,h₁.2.1,h₁.2.2]
  rw [hpmm] at hfr
  intro k hk
  by_cases hlt : k < 5
  · exact hen k hlt
  · have hrs := hfr (k-5) (by omega)
    rwa [after_add,Nat.sub_add_cancel (by omega)] at hrs

lemma Completes.notLate {c : Call} (h : Completes s c) : NotLate s c := by
  cases c with
  | create rip rsp =>
    intro slot hsl hcl
    rcases h slot hsl with hfew | ⟨cl,⟨held,hsn,-⟩,hen,hps⟩
    · exact absurd (enough_of_clones hcl) hfew
    · rw [(processCreate_succeeds hsl hsn.tables hsn.spaces hsn.current hps
        (hen.mono (by omega)) rip rsp).1]
      omega
  | createElf image =>
    intro him slot hsl hcl
    rcases h him slot hsl with hfew | ⟨hsg,cl,hpg,hen,hps⟩
    · exact absurd (enough_of_clones hcl) hfew
    · simp only [not_or,Bool.not_eq_false,not_lt] at him
      rw [processCreateElf_succeeds hsl hpg hps him.1 him.2 hsg hen]
      omega
  | dispatch next => trivial
  | exit => exact h

lemma reach_tidy (h : Reach (creationRuns.guarded Completes) s) : Tidy s := by
  refine h.invariant Tidy (fun s hs => Tidy.initialised hs) ?_
  rintro s c t hs ⟨hact,hok⟩
  exact (hs.step hact).2 hok.notLate

/-- In the runs in which no process exits and each creation finds too few frames to begin or enough
to end, an empty slot has given back all its frames; one more call keeps it so exactly if it is no
exit and no creation that fails with its tables taken. -/
theorem frames_returned (l : List Call) (s : Kernel)
    (h : Trace (creationRuns.guarded Completes) l s) :
    NoLeak s ∧ ∀ c t, act s c = some t → (NoLeak t ↔ NotLate s c) := by
  have htd := reach_tidy h.reach
  refine ⟨htd.noLeak,?_⟩
  intro c t hact
  exact ⟨(htd.step hact).1,fun hok => ((htd.step hact).2 hok).noLeak⟩

lemma bootKernel_initialised {v : Vmm} (hsz : Sized v.pmm) : Initialised (bootKernel v) :=
  ⟨_,hsz,rfl,fun _ => rfl,rfl⟩

/-- Empty tables, and an allocator with three frames left. -/
def scarceTables : Vmm :=
  { emptyTables with
    pmm := ⟨fun i => if i = 0 then 0xF8 else 0xFF,pmmTotalPagesMin,frameAddr pmmTotalPagesMin,0⟩ }

lemma scarce_run : (pmmAlloc (after 3 scarceTables.pmm)).1 = 0 ∧
    (processCreate (bootKernel scarceTables) 0x400000 0x800000).2.log =
      [.alloc 0 0x300000,.alloc 0 0x301000,.alloc 0 0x302000,
        .free 0 0x300000,.free 0 0x301000,.free 0 0x302000] := by
  decide +kernel

/-- Three of five frames are found for a stack, and given back. -/
theorem frames_returned_few_frames : ∃ s, Trace (creationRuns.guarded Completes)
    [.create 0x400000 0x800000] s ∧ s.log.count (.alloc 0 0x302000) = 1 ∧ NoLeak s := by
  obtain ⟨hzr,hlog⟩ := scarce_run
  have hst : Trace (creationRuns.guarded Completes) [] (bootKernel scarceTables) :=
    .start (bootKernel_initialised ⟨le_rfl,by decide,rfl⟩)
  have hmt : Completes (bootKernel scarceTables) (.create 0x400000 0x800000) :=
    fun _ _ => .inl fun hen => hen 3 (by decide) hzr
  have htr := hst.next ⟨show act _ (.create 0x400000 0x800000) = some _ from rfl,hmt⟩
  refine ⟨_,htr,?_,(frames_returned _ _ htr).1⟩
  rw [hlog]
  decide

/-- A process is created, runs and exits; the frame of its PML4 stays allocated. -/
theorem exit_keeps_tables :
    ∃ v, vmmInit (bootState (fun _ _ => 0) freshPmm) bootPml4 = some v ∧
      let a := processCreate (bootKernel v) 0x400000 0x800000
      let t := processExit (schedule a.2 0)
      a.1 = 0 ∧ (t.processes 0).state = .none ∧
        (∃ f, t.log.count (.free 0 f) < t.log.count (.alloc 0 f)) ∧ ¬ NoLeak t := by
  obtain ⟨v,hin,hsz,hct⟩ := boot_create
  have hrc := (hct 0x400000 0x800000).1
  obtain ⟨cloned,hst⟩ := processCreate_started (s := bootKernel v) hsz (bootKernel_slot v) hrc
  have hcr : Tidy (processCreate (bootKernel v) 0x400000 0x800000).2 := by
    refine ((Tidy.initialised (bootKernel_initialised hsz)).step
      (c := .create 0x400000 0x800000) rfl).2 ?_
    intro slot _ _
    rw [hrc]
    decide
  have htd := hcr.dispatch (by decide) hst.state
  have hlv : ((processCreate (bootKernel v) 0x400000 0x800000).2.processes 0).state ≠ .none := by
    simp [hst.state]
  obtain ⟨-,hcu,-⟩ := schedule_same hlv
  obtain ⟨hse,hcn⟩ := htd.exit_keeps hcu
  exact ⟨v,hin,hrc,hse,⟨_,hcn⟩,htd.exit_leaks hcu⟩

end HarlinKernel.ProcessLeaks
