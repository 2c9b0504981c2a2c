import HarlinKernel.ProcessCreation

/-! Which process a frame belongs to. `Harlin_Fork` takes no frames for the child: it records
the parent's frames, and for the tables and the kernel stack the addresses one page further. -/
namespace HarlinKernel.ForkOwnership

open PageAllocator PageTable TransitionSystem ProcessTable
open AddressSpace (bootPml4 bootState freshPmm vmmInit)

variable {s t : Kernel} {i j f : ℕ}

def Live (s : Kernel) (i : ℕ) : Prop := i < maxProcesses ∧ (s.processes i).state ≠ .none

/-- The process holds the address of the frame. -/
def Records (p : Process) (f : ℕ) : Prop := p.pml4Phys = f ∨ UserFrame p f ∨ StackFrame p f

/-- The frames that live processes record are allocated, and each is recorded by one of them. -/
structure Ownership (s : Kernel) : Prop where
  allocated : ∀ i, Live s i → ∀ f, Records (s.processes i) f → Allocated s.vmm.pmm f
  unique : ∀ i j, Live s i → Live s j → ∀ f, Records (s.processes i) f →
    Records (s.processes j) f → i = j

/-- An exit frees no frame that another live process records. -/
def ExitSpares (s : Kernel) : Prop :=
  ∀ pid, s.current = some pid → ∃ es, (processExit s).log = s.log ++ es ∧
    ∀ slot f, .free slot f ∈ es → ∀ j, Live s j → j ≠ pid → ¬ Records (s.processes j) f

inductive Call
  | create (rip rsp : ℕ)
  | fork (parentPid : ℕ)
  | dispatch (next : ℕ)
  | exit

/-- The calls; the scheduler chooses among the processes that are ready. -/
def act (s : Kernel) : Call → Option Kernel
  | .create rip rsp => some (processCreate s rip rsp).2
  | .fork parentPid => some (fork s parentPid).2
  | .dispatch next =>
    if next < maxProcesses ∧ (s.processes next).state = .ready then some (schedule s next) else none
  | .exit => some (processExit s)

def Initialised (s : Kernel) : Prop := ∃ s₀ : Kernel, Sized s₀.vmm.pmm ∧ s = schedulerInit s₀

def processRuns : System Kernel Call := actions Initialised act

/-- The frames that a fork records for the child are allocated, and no live process has them. -/
def ForkFits (s : Kernel) : Call → Prop
  | .fork parentPid => Live s parentPid → ∀ child, findSlot s.processes = some child →
    ∀ f, Records ((s.processes child).forked (s.processes parentPid)) f →
      Allocated s.vmm.pmm f ∧ ∀ j, Live s j → ¬ Records (s.processes j) f
  | _ => True

structure Sound (s : Kernel) : Prop where
  sized : Sized s.vmm.pmm
  current : ∀ pid, s.current = some pid → Live s pid
  owned : Ownership s

lemma Sound.initialised (h : Initialised s) : Sound s := by
  obtain ⟨s₀,hs,rfl⟩ := h
  have hde : ∀ i, ¬ Live (schedulerInit s₀) i := fun i hi => hi.2 rfl
  refine ⟨hs,?_,?_,?_⟩
  · intro pid hpid
    cases hpid
  · exact fun i hi => (hde i hi).elim
  · exact fun i j hi => (hde i hi).elim

/-- Only an empty slot changes; if there is a process in it afterwards, it has frames that
nobody had. -/
theorem Sound.slot (h : Sound s) {slot : ℕ} (hsl : findSlot s.processes = some slot)
    (hpmm : Shrunk s.vmm.pmm t.vmm.pmm) (hcr : t.current = s.current)
    (hot : ∀ i, i ≠ slot → t.processes i = s.processes i)
    (hnew : Live t slot → ∀ f, Records (t.processes slot) f → Allocated t.vmm.pmm f ∧
      ∀ j, Live s j → ¬ Records (s.processes j) f) : Sound t := by
  have hde : ¬ Live s slot := fun hlv => hlv.2 (findSlot_some hsl).2
  have hlv : ∀ i, i ≠ slot → Live t i → Live s i := by
    intro i hi hlv
    exact ⟨hlv.1,by rw [← hot i hi]; exact hlv.2⟩
  refine ⟨hpmm.sized,?_,?_,?_⟩
  · intro pid hpid
    rw [hcr] at hpid
    have hold := h.current pid hpid
    have hne : pid ≠ slot := by
      rintro rfl
      exact hde hold
    exact ⟨hold.1,by rw [hot pid hne]; exact hold.2⟩
  · intro i hi f hf
    by_cases heq : i = slot
    · subst heq
      exact (hnew hi f hf).1
    · rw [hot i heq] at hf
      exact hpmm.allocated (h.owned.allocated i (hlv i heq hi) f hf)
  · intro i j hi hj f hf hf'
    by_cases heq : i = slot
    · by_cases heq' : j = slot
      · rw [heq,heq']
      · subst heq
        rw [hot j heq'] at hf'
        exact ((hnew hi f hf).2 j (hlv j heq' hj) hf').elim
    · by_cases heq' : j = slot
      · subst heq'
        rw [hot i heq] at hf
        exact ((hnew hj f hf').2 i (hlv i heq hi) hf).elim
      · rw [hot i heq] at hf
        rw [hot j heq'] at hf'
        exact h.owned.unique i j (hlv i heq hi) (hlv j heq' hj) f hf hf'

lemma Sound.free_not_recorded (h : Sound s) (hf : FreeFrame s.vmm.pmm f) (hi : Live s i) :
    ¬ Records (s.processes i) f :=
  fun hrec => (h.owned.allocated i hi f hrec).not_free hf

lemma processCreate_pages {slot : ℕ} (rip rsp : ℕ) (hsl : findSlot s.processes = some slot)
    (h : (processCreate s rip rsp).1 ≠ -1) :
    ((processCreate s rip rsp).2.processes slot).pageCount = 0 := by
  rw [processCreate,hsl] at h ⊢
  dsimp only at h ⊢
  generalize allocStack s slot 5 = stack at h ⊢
  generalize cloneStack stack.2 slot stack.1 = r at h ⊢
  by_cases hlen : stack.1.length ≠ 5
  · rw [if_pos hlen] at h
    exact (h rfl).elim
  rw [if_neg hlen] at h ⊢
  by_cases hmp : r.1 = false
  · rw [if_pos hmp] at h
    exact (h rfl).elim
  rw [if_neg hmp]
  simp [Kernel.free,modify_processes_self]

lemma Sound.create (h : Sound s) (rip rsp : ℕ) : Sound (processCreate s rip rsp).2 := by
  cases hsl : findSlot s.processes with
  | none =>
    rw [processCreate,hsl]
    exact h
  | some slot =>
    have hpg := processCreate_pages rip rsp hsl
    have hot := processCreate_outcome h.sized hsl rip rsp
    generalize processCreate s rip rsp = r at hpg hot ⊢
    cases hot with
    | refused _ hrf =>
      refine h.slot hsl hrf.took.pmm hrf.took.current hrf.took.others ?_
      intro hlv
      rw [Live,hrf.processes] at hlv
      exact (hlv.2 (findSlot_some hsl).2).elim
    | leaked _ hlk hse =>
      refine h.slot hsl hlk.took.pmm hlk.took.current hlk.took.others ?_
      exact fun hlv => (hlv.2 hse).elim
    | started _ hst =>
      refine h.slot hsl hst.took.pmm hst.took.current hst.took.others ?_
      rintro - f (rfl | ⟨j,hj,-⟩ | ⟨j,hj,rfl⟩)
      · rw [hst.pml4]
        exact ⟨hst.held,fun j hlv => h.free_not_recorded hst.fresh hlv⟩
      · omega
      · rw [hst.count] at hj
        obtain ⟨hfr,hal,-⟩ := hst.stack j hj
        exact ⟨hal,fun i hlv => h.free_not_recorded hfr hlv⟩

lemma fork_cases (s : Kernel) (parentPid : ℕ) :
    (fork s parentPid).2 = s ∧ (Live s parentPid → findSlot s.processes = none) ∨
      ∃ child, Live s parentPid ∧ findSlot s.processes = some child ∧
        (fork s parentPid).2 = s.modify child fun p => p.forked (s.processes parentPid) := by
  rw [fork]
  split
  · rename_i hde
    refine .inl ⟨rfl,?_⟩
    rintro ⟨hlt,hst⟩
    rcases hde with hbad | hbad
    · omega
    · exact (hst hbad).elim
  · rename_i hlv
    rw [not_or,Nat.not_le] at hlv
    cases hsl : findSlot s.processes with
    | none => exact .inl ⟨rfl,fun _ => rfl⟩
    | some child => exact .inr ⟨child,hlv,rfl,rfl⟩

lemma Sound.fork (h : Sound s) {parentPid : ℕ} (hft : ForkFits s (.fork parentPid)) :
    Sound (fork s parentPid).2 := by
  rcases fork_cases s parentPid with ⟨hsm,-⟩ | ⟨child,hlv,hsl,hfr⟩
  · rw [hsm]
    exact h
  rw [hfr]
  refine h.slot hsl (Shrunk.refl h.sized) rfl ?_ ?_
  · intro i hi
    rw [Kernel.modify]
    exact Function.update_of_ne hi _ _
  · intro _ f hf
    rw [modify_processes_self] at hf
    exact hft hlv child hsl f hf

lemma Ownership.forkFits {parentPid : ℕ} (h : Ownership (ProcessTable.fork s parentPid).2) :
    ForkFits s (.fork parentPid) := by
  intro hpr child hsl f hf
  rcases fork_cases s parentPid with ⟨-,hno⟩ | ⟨child',-,hsl',hfr⟩
  · rw [hno hpr] at hsl
    cases hsl
  obtain rfl : child = child' := Option.some.inj (hsl.symm.trans hsl')
  have hse : (fork s parentPid).2.processes child =
      (s.processes child).forked (s.processes parentPid) := by
    rw [hfr,modify_processes_self]
  have hch : Live (fork s parentPid).2 child := by
    refine ⟨(findSlot_some hsl).1,?_⟩
    rw [hse]
    exact fun hbad => by cases hbad
  rw [← hse] at hf
  have hpmm : (fork s parentPid).2.vmm.pmm = s.vmm.pmm := by rw [hfr]; rfl
  refine ⟨hpmm ▸ h.allocated child hch f hf,?_⟩
  intro j hj hrec
  have hne : j ≠ child := by
    rintro rfl
    exact hj.2 (findSlot_some hsl).2
  have hsm : (fork s parentPid).2.processes j = s.processes j := by
    rw [hfr,Kernel.modify]
    exact Function.update_of_ne hne _ _
  have hlv : Live (fork s parentPid).2 j := ⟨hj.1,by rw [hsm]; exact hj.2⟩
  exact hne (h.unique j child hlv hch f (hsm ▸ hrec) hf)

lemma SameFrames.records {p q : Process} (h : SameFrames p q) : Records p f ↔ Records q f := by
  rw [Records,Records,h.pml4,h.user,h.stack]

lemma live_schedule {next : ℕ} (hrd : (s.processes next).state = .ready) (i : ℕ) :
    Live (schedule s next) i ↔ Live s i := by
  obtain ⟨-,-,-,hsm⟩ := schedule_same (s:=s) (by simp [hrd] : (s.processes next).state ≠ .none)
  exact and_congr_right fun _ => not_congr (hsm i).state

lemma Sound.dispatch (h : Sound s) {next : ℕ} (hlt : next < maxProcesses)
    (hrd : (s.processes next).state = .ready) : Sound (schedule s next) := by
  obtain ⟨hpmm,hcr,-,hsm⟩ := schedule_same (s:=s) (by simp [hrd] : (s.processes next).state ≠ .none)
  have hlv := live_schedule hrd
  refine ⟨hpmm ▸ h.sized,?_,?_,?_⟩
  · intro pid hpid
    obtain rfl : next = pid := Option.some.inj (hcr.symm.trans hpid)
    exact (hlv next).mpr ⟨hlt,by simp [hrd]⟩
  · intro i hi f hf
    rw [hpmm]
    exact h.owned.allocated i ((hlv i).mp hi) f ((SameFrames.records (hsm i)).mp hf)
  · intro i j hi hj f hf hf'
    exact h.owned.unique i j ((hlv i).mp hi) ((hlv j).mp hj) f
      ((SameFrames.records (hsm i)).mp hf) ((SameFrames.records (hsm j)).mp hf')

lemma Sound.exit (h : Sound s) : Sound (processExit s) ∧ ExitSpares s := by
  cases hcr : s.current with
  | none =>
    refine ⟨?_,?_⟩
    · rw [processExit,hcr]
      exact h
    · intro pid hpid
      rw [hcr] at hpid
      cases hpid
  | some pid =>
    obtain ⟨hgv,hst,hno⟩ := processExit_gave hcr
    have hpid := h.current pid hcr
    have hkn : ∀ f, UserFrame (s.processes pid) f ∨ StackFrame (s.processes pid) f →
        Records (s.processes pid) f := fun f hf => .inr hf
    have hot : ∀ j f, Live s j → j ≠ pid → Records (s.processes j) f →
        ¬ (UserFrame (s.processes pid) f ∨ StackFrame (s.processes pid) f) := by
      intro j f hj hne hrec hbad
      exact hne (h.owned.unique j pid hj hpid f hrec (hkn f hbad))
    obtain ⟨hsz,-,hkp⟩ := hgv.pmm h.sized fun f hf =>
      (h.owned.allocated pid hpid f (hkn f hf)).inPool
    have hlv : ∀ i, Live (processExit s) i → i ≠ pid ∧ Live s i := by
      intro i hi
      have hne : i ≠ pid := by
        rintro rfl
        exact hi.2 hst
      exact ⟨hne,hi.1,by rw [← hgv.others i hne]; exact hi.2⟩
    refine ⟨⟨hsz,?_,?_,?_⟩,?_⟩
    · intro pid' hpid'
      rw [hno] at hpid'
      cases hpid'
    · intro i hi f hf
      obtain ⟨hne,hold⟩ := hlv i hi
      rw [hgv.others i hne] at hf
      exact hkp f (h.owned.allocated i hold f hf) (hot i f hold hne hf)
    · intro i j hi hj f hf hf'
      obtain ⟨hne,hold⟩ := hlv i hi
      obtain ⟨hne',hold'⟩ := hlv j hj
      rw [hgv.others i hne] at hf
      rw [hgv.others j hne'] at hf'
      exact h.owned.unique i j hold hold' f hf hf'
    · intro pid' hpid'
      obtain rfl : pid = pid' := Option.some.inj (hcr.symm.trans hpid')
      obtain ⟨es,hes,hfr⟩ := hgv.log
      refine ⟨es,hes,?_⟩
      intro slot f hf j hj hne hrec
      obtain ⟨g,hg,heq⟩ := hfr _ hf
      cases heq
      exact hot j f hj hne hrec hg

lemma Sound.step (h : Sound s) {c : Call} (hact : act s c = some t) (hft : ForkFits s c) :
    Sound t := by
  cases c with
  | create rip rsp =>
    cases hact
    exact h.create rip rsp
  | fork parentPid =>
    cases hact
    exact h.fork hft
  | dispatch next =>
    rw [act] at hact
    split_ifs at hact with hrd
    cases hact
    exact h.dispatch hrd.1 hrd.2
  | exit =>
    cases hact
    exact h.exit.1

/-- In the runs whose forks fit each frame has one owner, and a call keeps it so only if it
fits. -/
theorem fork_ownership (l : List Call) (s : Kernel) (h : Trace (processRuns.guarded ForkFits) l s) :
    Ownership s ∧ ExitSpares s ∧ ∀ c t, act s c = some t → (Ownership t ↔ ForkFits s c) := by
  have hsn : Sound s := by
    refine h.reach.invariant Sound (fun s hs => Sound.initialised hs) ?_
    rintro s c t hs ⟨hact,hft⟩
    exact hs.step hact hft
  refine ⟨hsn.owned,hsn.exit.2,?_⟩
  intro c t hact
  refine ⟨?_,fun hft => (hsn.step hact hft).owned⟩
  intro how
  cases c with
  | fork parentPid =>
    cases hact
    exact how.forkFits
  | create rip rsp => trivial
  | dispatch next => trivial
  | exit => trivial

/-- A fork of the only process, which is in the first slot. -/
lemma fork_first (h₀ : (s.processes 0).state = .ready) (h₁ : (s.processes 1).state = .none) :
    findSlot s.processes = some 1 ∧
      fork s 0 = ((0,some 1),s.modify 1 fun p => p.forked (s.processes 0)) := by
  have hrn : List.range maxProcesses = 0 :: 1 :: (List.range 14).map (·+2) := by decide
  have hsl : findSlot s.processes = some 1 := by simp [findSlot,hrn,h₀,h₁]
  refine ⟨hsl,?_⟩
  rw [fork,if_neg (by simp [maxProcesses,h₀]),hsl]

/-- An allocator with every second frame taken. -/
def sparePmm : Pmm := ⟨fun _ => 0xAA,pmmTotalPagesMin,frameAddr pmmTotalPagesMin,0⟩

lemma sparePmm_bit (i : ℕ) : Bitmap.get sparePmm.bitmap i = decide (i % 2 = 1) := by
  have hbt : ∀ k < 8, (0xAA : BitVec 8).getLsbD k = decide (k % 2 = 1) := by decide
  have hmd : i % 8 % 2 = i % 2 := by omega
  rw [Bitmap.get,← hmd]
  exact hbt (i % 8) (Nat.mod_lt i (by decide))

/-- The frame behind a free one is taken. -/
lemma sparePmm_next (h : FreeFrame sparePmm f) :
    Allocated sparePmm ((f+0x1000) % 2^64) ∧ ∀ g, FreeFrame sparePmm g → g ≠ (f+0x1000) % 2^64 := by
  obtain ⟨i,hi,rfl,hbit⟩ := h
  have hlt : i < 32000 := hi
  rw [sparePmm_bit,decide_eq_false_iff_not] at hbit
  have had : ∀ k, frameAddr k = 0x300000+k*4096 := fun _ => rfl
  have hnx : (frameAddr i+0x1000) % 2^64 = frameAddr (i+1) := by
    rw [had,had]
    omega
  rw [hnx]
  refine ⟨⟨i+1,show i+1 < 32000 by omega,rfl,?_⟩,?_⟩
  · rw [sparePmm_bit,decide_eq_true_iff]
    omega
  · rintro g ⟨j,-,rfl,hj⟩ heq
    rw [sparePmm_bit,decide_eq_false_iff_not] at hj
    have hji := frameAddr_injective heq
    omega

lemma sparePmm_enough : FrameSupply.Enough 28 sparePmm := by
  unfold FrameSupply.Enough
  decide

/-- A process is created and forks; its child is dispatched. -/
theorem fork_ownership_two_processes : ∃ s, Trace (processRuns.guarded ForkFits)
    [.create 0x400000 0x800000,.fork 0,.dispatch 1] s ∧ Live s 0 ∧ Live s 1 ∧ Ownership s := by
  have hsz : Sized sparePmm := ⟨le_rfl,by decide,rfl⟩
  obtain ⟨v,-,hsh,hcr⟩ := boot_create_over hsz sparePmm_enough
  have hin : Initialised (bootKernel v) := ⟨_,hsh.sized,rfl⟩
  obtain ⟨hrc,-⟩ := hcr 0x400000 0x800000
  obtain ⟨cloned,hst⟩ := processCreate_started (s := bootKernel v) hsh.sized (bootKernel_slot v)
    hrc
  have hpg := processCreate_pages (s := bootKernel v) 0x400000 0x800000 (bootKernel_slot v)
    (by rw [hrc]; decide)
  obtain ⟨a,ha⟩ : ∃ a, a = (processCreate (bootKernel v) 0x400000 0x800000).2 := ⟨_,rfl⟩
  rw [← ha] at hst hpg
  have hde : ∀ j ≠ 0, (a.processes j).state = .none := by
    intro j hj
    rw [hst.took.others j hj]
    rfl
  -- the process records frames that were free, and the child the ones behind them
  have hfr : ∀ f, Records (a.processes 0) f → FreeFrame sparePmm f := by
    rintro f (rfl | ⟨j,hj,-⟩ | ⟨j,hj,rfl⟩)
    · rw [hst.pml4]
      exact hsh.free _ hst.fresh
    · omega
    · rw [hst.count] at hj
      exact hsh.free _ (hst.stack j hj).1
  have hch : ∀ f, Records ((a.processes 1).forked (a.processes 0)) f →
      ∃ g, Records (a.processes 0) g ∧ f = (g+0x1000) % 2^64 := by
    rintro f (rfl | ⟨j,hj,-⟩ | ⟨j,hj,rfl⟩)
    · exact ⟨_,.inl rfl,rfl⟩
    · change j < (a.processes 0).pageCount at hj
      omega
    · change j < (a.processes 0).kernelStackPagesCount at hj
      exact ⟨_,.inr (.inr ⟨j,hj,rfl⟩),if_pos (by rw [hst.count] at hj; exact hj)⟩
  obtain ⟨hsl,hfo⟩ := fork_first hst.state (hde 1 (by decide))
  have hft : ForkFits a (.fork 0) := by
    intro _ child hcd f hf
    rw [hsl] at hcd
    cases hcd
    obtain ⟨g,hg,hfg⟩ := hch f hf
    rw [hfg]
    obtain ⟨hal,hne⟩ := sparePmm_next (hfr g hg)
    refine ⟨(hsh.trans hst.took.pmm).allocated hal,?_⟩
    intro j hj hrec
    by_cases hj₀ : j = 0
    · subst hj₀
      exact hne _ (hfr _ hrec) rfl
    · exact hj.2 (hde j hj₀)
  obtain ⟨b,hb⟩ : ∃ b, b = a.modify 1 fun p => p.forked (a.processes 0) := ⟨_,rfl⟩
  have hst₀ : (b.processes 0).state = .ready := by rw [hb]; exact hst.state
  have hst₁ : (b.processes 1).state = .ready := by rw [hb]; rfl
  have hds : act b (.dispatch 1) = some (schedule b 1) := if_pos ⟨by decide,hst₁⟩
  have hmt : ActionsMeet act ForkFits (bootKernel v)
      [.create 0x400000 0x800000,.fork 0,.dispatch 1] (schedule b 1) := by
    refine ⟨trivial,?_⟩
    simp only [act,← ha]
    refine ⟨hft,?_⟩
    simp only [act,hfo,← hb]
    refine ⟨trivial,?_⟩
    rw [hds]
    exact rfl
  have htr : Trace (processRuns.guarded ForkFits) _ _ := trace_of_actions hin hmt
  refine ⟨_,htr,?_,?_,(fork_ownership _ _ htr).1⟩
  · exact (live_schedule hst₁ 0).mpr ⟨by decide,by simp [hst₀]⟩
  · exact (live_schedule hst₁ 1).mpr ⟨by decide,by simp [hst₁]⟩

/-- The second page of the parent's kernel stack is the first of the child's. -/
theorem fork_shares_stack_frame :
    ∃ v, vmmInit (bootState (fun _ _ => 0) freshPmm) bootPml4 = some v ∧
      let a := processCreate (bootKernel v) 0x400000 0x800000
      let b := fork a.2 0
      a.1 = 0 ∧ b.1 = (0,some 1) ∧ Live b.2 0 ∧ Live b.2 1 ∧
        Records (b.2.processes 0) 0x308000 ∧ Records (b.2.processes 1) 0x308000 ∧
        ¬ Ownership b.2 := by
  obtain ⟨v,hin,hsz,hcr⟩ := boot_create
  obtain ⟨hrc,hfr⟩ := hcr 0x400000 0x800000
  obtain ⟨cloned,hst⟩ := processCreate_started (s := bootKernel v) hsz (bootKernel_slot v)
    hrc
  refine ⟨v,hin,?_⟩
  dsimp only
  generalize processCreate (bootKernel v) 0x400000 0x800000 = a at hrc hfr hst ⊢
  have hde : (a.2.processes 1).state = .none := by
    rw [hst.took.others 1 (by decide)]
    rfl
  rw [(fork_first hst.state hde).2]
  obtain ⟨b,hb⟩ : ∃ b, b = a.2.modify 1 fun p => p.forked (a.2.processes 0) := ⟨_,rfl⟩
  rw [← hb]
  have hpr : b.processes 0 = a.2.processes 0 := by simp [hb,Kernel.modify]
  have hch : b.processes 1 = (a.2.processes 1).forked (a.2.processes 0) := by
    rw [hb,modify_processes_self]
  have hlv₀ : Live b 0 := ⟨by decide,by simp [hpr,hst.state]⟩
  have hlv₁ : Live b 1 := ⟨by decide,by simp [hch,Process.forked]⟩
  have hrec₀ : Records (b.processes 0) 0x308000 := by
    rw [hpr]
    refine .inr (.inr ⟨1,?_,?_⟩)
    · rw [hst.count]
      decide
    · rw [hfr 1 (by decide)]
      rfl
  have hrec₁ : Records (b.processes 1) 0x308000 := by
    rw [hch]
    refine .inr (.inr ⟨0,?_,?_⟩)
    · change 0 < (a.2.processes 0).kernelStackPagesCount
      rw [hst.count]
      decide
    · change ((a.2.processes 0).kernelStackPagesPhys 0+0x1000) % 2^64 = 0x308000
      rw [hfr 0 (by decide)]
      rfl
  refine ⟨hrc,rfl,hlv₀,hlv₁,hrec₀,hrec₁,?_⟩
  intro hbad
  exact absurd (hbad.unique 0 1 hlv₀ hlv₁ _ hrec₀ hrec₁) (by decide)

end HarlinKernel.ForkOwnership
