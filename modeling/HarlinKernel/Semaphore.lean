import HarlinKernel.IpcWaits

/-! The counter of a semaphore is what was put in less what was taken out, and a unit in it never
meets only sleeping waiters. -/
namespace HarlinKernel.Ipc

open TransitionSystem MessageQueue WaitLists
open Function (update update_of_ne update_self)

/-- What happened to a semaphore since it was created. -/
structure Tally where
  initial : ℤ
  posts : ℕ
  waits : ℕ

def waited (h : ℕ → Tally) : Wait → Outcome → ℕ → Tally
  | .sem sid,.sent => update h sid { h sid with waits := (h sid).waits+1 }
  | _,_ => h

/-- The calls that completed are counted. -/
def tally (s : State) (a : Action) (r : Reply) (_ : State) (h : ℕ → Tally) : ℕ → Tally :=
  match a,r with
  | .call _ (.semCreate initial),.created (some sid) => update h sid ⟨initial,0,0⟩
  | .call _ (.semPost sid),.outcome .sent =>
    update h sid.toNat { h sid.toNat with posts := (h sid.toNat).posts+1 }
  | .call _ (.semWait sid),.outcome o => waited h (.sem sid.toNat) o
  | .resume pid,.outcome o =>
    match s.procs pid with
    | .woken w => waited h w o
    | _ => h
  | _,_ => h

def talliedRuns : System (State × (ℕ → Tally)) (Action × Reply) :=
  replies (fun x => started x.1) (recording act tally)

/-- Nothing is destroyed, and a post to a semaphore finds the 32-bit counter below its largest
value. -/
def fits (s : State) : Action → Bool
  | .call _ (.semPost sid) => semValid s.sems sid → (s.sems sid.toNat).count < 2^31-1
  | a => !a.destroys

/-- The counter and the waiters of a semaphore, against its history and the number of processes
that were woken and have not looked at the counter yet. -/
structure Balanced (q : IpcSemaphore) (t : Tally) (woken : ℕ) : Prop where
  nonneg : 0 ≤ q.count
  counted : q.count = max t.initial 0+t.posts-t.waits
  covered : q.blockedProcs ≠ [] → q.count ≤ woken

def Conserved (s : State) (h : ℕ → Tally) : Prop :=
  InOrder s ∧ ∀ sid, Live s (.sem sid) → Balanced (s.sems sid) (h sid) (wokenIn s (.sem sid))

variable {s s' : State} {pid : ℕ} {w : Wait} {h : ℕ → Tally} {a : Action}

lemma tally_ran (hrun : Runs s a pid w) (o : Outcome) :
    tally s a (.outcome o) s' h = waited h w o := by
  cases hrun with
  | call hpid hfr hlp => cases loopOf_loops hlp <;> rfl
  | resume hw => simp [tally,hw]

variable {r : Reply} {sid : ℕ}

lemma tally_nothing {c : Call} (hr : r = .created none ∨ r = .outcome .failed) :
    tally s (.call pid c) r s' h = h := by
  obtain rfl | rfl := hr <;> cases c <;> rfl

lemma list_eq_sem : w.list = .sem sid ↔ w = .sem sid := by
  cases w <;> simp [Wait.list]

lemma wakes_eq_sem : (wakes s w).1 = .sem sid ↔ w = .sem sid := by
  cases w <;> simp [wakes]

lemma goOn_sems (hw : w ≠ .sem sid) : (goOn s pid w).2.sems sid = s.sems sid := by
  cases w with
  | sem i =>
    have hi : sid ≠ i := by
      rintro rfl
      exact hw rfl
    exact update_of_ne hi _ _
  | _ => rfl

lemma waited_ne (hw : w ≠ .sem sid) (o : Outcome) : waited h w o sid = h sid := by
  cases w with
  | sem i =>
    have hi : sid ≠ i := by
      rintro rfl
      exact hw rfl
    cases o with
    | sent => simp [waited,hi]
    | _ => rfl
  | _ => rfl

lemma Conserved.ran_other (hx : Conserved s h) (hrun : Runs s a pid w) (hw : w ≠ .sem sid)
    (hlv : Live s (.sem sid)) : Balanced ((goOn s pid w).2.sems sid)
    (waited h w (goOn s pid w).1 sid) (wokenIn (goOn s pid w).2 (.sem sid)) := by
  have hwk := wokenIn_goOn hx.1 hrun (.sem sid)
  have hle := hrun.wokenFrom_le (.sem sid)
  rw [if_neg fun heq => hw (wakes_eq_sem.mp heq)] at hwk
  rw [if_neg fun heq => hw (list_eq_sem.mp heq)] at hle
  have hsm : wokenIn (goOn s pid w).2 (.sem sid) = wokenIn s (.sem sid) := by omega
  rw [goOn_sems hw,waited_ne hw,hsm]
  exact hx.2 sid hlv

lemma Conserved.ran_wait (hx : Conserved s h) (hrun : Runs s a pid (.sem sid))
    (hlv : Live s (.sem sid)) :
    Balanced ((goOn s pid (.sem sid)).2.sems sid)
      (waited h (.sem sid) (goOn s pid (.sem sid)).1 sid)
      (wokenIn (goOn s pid (.sem sid)).2 (.sem sid)) := by
  have hbal := hx.2 sid hlv
  have hwk := wokenIn_goOn hx.1 hrun (.sem sid)
  have hle := hrun.wokenFrom_le (.sem sid)
  rw [Wait.list,if_pos rfl] at hle
  have hout : (goOn s pid (.sem sid)).1 = (waitBody (s.sems sid) pid).1 := rfl
  rw [goOn_wait_sem,hout,waitBody]
  split_ifs with hzr hfl
  · exact ⟨hbal.nonneg,hbal.counted,fun _ => hzr.trans (Int.natCast_nonneg _)⟩
  · exact ⟨hbal.nonneg,hbal.counted,fun _ => hzr.trans (Int.natCast_nonneg _)⟩
  have hcn := hbal.counted
  refine ⟨by dsimp only; omega,?_,?_⟩
  · simp only [waited,update_self,Nat.cast_add,Nat.cast_one]
    omega
  · intro hne
    have hcv := hbal.covered hne
    dsimp only
    omega

lemma Conserved.ran (hx : Conserved s h) (hrun : Runs s a pid w) :
    Conserved (goOn s pid w).2 (waited h w (goOn s pid w).1) := by
  refine ⟨hx.1.goOn hrun,fun sid hlv => ?_⟩
  rw [goOn_live] at hlv
  by_cases hw : w = .sem sid
  · subst hw
    exact hx.ran_wait hrun hlv
  · exact hx.ran_other hrun hw hlv

lemma Conserved.createdQueue (hx : Conserved s h) {queues : Table} {qid : ℕ}
    (hcr : harlinMsgCreate s.queues = (some qid,queues)) :
    Conserved { s with queues := queues } h :=
  ⟨hx.1.renewed (renewed_queue hcr),hx.2⟩

lemma Conserved.createdSem (hx : Conserved s h) {sems : SemTable} {initial : ℤ}
    (hcr : harlinSemCreate s.sems initial = (some sid,sems)) :
    Conserved { s with sems := sems } (update h sid ⟨initial,0,0⟩) := by
  refine ⟨hx.1.renewed (renewed_sem hcr),fun i hlv => ?_⟩
  obtain ⟨-,rfl⟩ := harlinSemCreate_some hcr
  by_cases hi : i = sid
  · subst hi
    simp only [update_self]
    refine ⟨?_,?_,fun hne => absurd rfl hne⟩
    · dsimp only
      split_ifs <;> omega
    · simp only [Nat.cast_zero]
      split_ifs <;> omega
  · simp only [update_of_ne hi]
    apply hx.2 i
    simpa [Live,hi] using hlv

lemma Conserved.posted (hx : Conserved s h) (hlv : Live s (.sem sid))
    (hft : (s.sems sid).count < 2^31-1) :
    Conserved (posted s sid) (update h sid { h sid with posts := (h sid).posts+1 }) := by
  have hwk := wokenIn_posted hx.1 hlv
  refine ⟨hx.1.posted hlv,fun i hi => ?_⟩
  rw [posted_live] at hi
  have hbal := hx.2 i hi
  by_cases heq : i = sid
  · subst heq
    have hbm : Int.bmod ((s.sems i).count+1) (2^32) = (s.sems i).count+1 := by
      have hng := hbal.nonneg
      apply Int.bmod_eq_of_le <;> omega
    have hcn := hbal.counted
    rw [hwk,if_pos rfl]
    simp only [Ipc.posted,update_self,hbm]
    refine ⟨?_,?_,?_⟩
    · have hng := hbal.nonneg
      dsimp only
      omega
    · simp only [Nat.cast_add,Nat.cast_one]
      omega
    intro hne
    have hpos : 0 < (s.sems i).blockedProcs.length := by
      rw [List.length_pos_iff]
      rintro hnil
      exact hne (by simp [hnil])
    have hcv := hbal.covered (List.length_pos_iff.mp hpos)
    dsimp only
    omega
  · have hls : WaitList.sem sid ≠ .sem i := fun h => heq (WaitList.sem.inj h).symm
    rw [hwk,if_neg hls]
    simp only [Ipc.posted,update_of_ne heq,Nat.add_zero]
    exact hbal

lemma Conserved.step (hx : Conserved s h) (hact : act s a = some (r,s'))
    (hft : fits s a = true) : Conserved s' (tally s a r s' h) := by
  cases act_effect hact with
  | nothing hlp hr =>
    rw [tally_nothing hr]
    exact hx
  | ran hrun =>
    rw [tally_ran hrun]
    exact hx.ran hrun
  | createdQueue hcr => exact hx.createdQueue hcr
  | createdSem hcr => exact hx.createdSem hcr
  | destroyedQueue => cases hft
  | destroyedSem => cases hft
  | posted hvl => exact hx.posted hvl.live (of_decide_eq_true hft hvl)

lemma started.conserved (hs : started s) (h : ℕ → Tally) : Conserved s h := by
  refine ⟨hs.inOrder,fun sid hlv => ?_⟩
  exact absurd hlv (hs.not_live _)

/-- The counter of a semaphore never gets negative and is the initial value with the completed
posts and waits; a unit in it is one that some woken process has not looked at yet, unless nobody
waits. -/
theorem semaphore_conserved {l : List (Action × Reply)} {x : State × (ℕ → Tally)}
    (hrun : Trace (talliedRuns.guarded fun x a => fits x.1 a.1 = true) l x) {sid : ℕ}
    (hid : sid < ipcMaxSems) (hused : (x.1.sems sid).used = true) :
    0 ≤ (x.1.sems sid).count ∧
      (x.1.sems sid).count = max (x.2 sid).initial 0+(x.2 sid).posts-(x.2 sid).waits ∧
      ((x.1.sems sid).blockedProcs ≠ [] → (x.1.sems sid).count ≤ wokenIn x.1 (.sem sid)) ∧
      ∀ pid, x.1.procs pid = .asleep (.sem sid) → 0 < (x.1.sems sid).count →
        ∃ q, x.1.procs q = .woken (.sem sid) := by
  have hx : Conserved x.1 x.2 := by
    refine Reach.invariant (fun x => Conserved x.1 x.2) ?_ ?_ hrun.reach
    · intro x hx
      exact started.conserved hx x.2
    · rintro ⟨s,h⟩ ⟨a,r⟩ ⟨s',h'⟩ hx ⟨hst,hft⟩
      obtain ⟨hact,hh⟩ := recording_eq_some.mp hst
      rw [hh]
      exact hx.step hact hft
  have hbal := hx.2 sid ⟨hid,hused⟩
  refine ⟨hbal.nonneg,hbal.counted,hbal.covered,fun pid hpid hpos => ?_⟩
  have hmem : pid ∈ (x.1.sems sid).blockedProcs := hx.1.listed pid _ hpid
  have hcv := hbal.covered (List.ne_nil_of_mem hmem)
  have hwk : 0 < wokenIn x.1 (.sem sid) := by omega
  obtain ⟨q,-,w,hq,hw⟩ := wokenFrom_pos hwk
  rw [list_eq_sem.mp hw] at hq
  exact ⟨q,hq⟩

def blankTallies : State × (ℕ → Tally) := (blankIpc,fun _ => ⟨0,0,0⟩)

lemma blankTallies_init : talliedRuns.init blankTallies := blankIpc_started

theorem semaphore_conserved_posted :
    ∃ l x, Trace (talliedRuns.guarded fun x a => fits x.1 a.1 = true) l x ∧
      l.map Prod.fst =
        [.call 0 (.semCreate 0),.call 1 (.semWait 0),.call 2 (.semWait 0), .call 0 (.semPost 0)] ∧
      (x.1.sems 0).used = true ∧ (x.1.sems 0).count = 1 ∧ (x.1.sems 0).blockedProcs = [2] ∧
      1 ≤ wokenIn x.1 (.sem 0) := by
  refine exists_guarded_run (P := fun _ x => (x.1.sems 0).used = true ∧ (x.1.sems 0).count = 1 ∧
      (x.1.sems 0).blockedProcs = [2]) blankTallies_init (by decide)
    fun l x htr ⟨hus,hcn,hbl⟩ => ⟨hus,hcn,hbl,?_⟩
  have hcv := (semaphore_conserved htr (by decide) hus).2.2.1 (by simp [hbl])
  rw [hcn] at hcv
  exact_mod_cast hcv

/-- A single post makes the counter of a semaphore created with the largest value negative. -/
theorem post_overflows :
    ∃ l x, Trace (talliedRuns.guarded fun _ a => a.1.destroys = false) l x ∧
      l.map Prod.fst = [.call 0 (.semCreate (2^31-1)),.call 0 (.semPost 0)] ∧
      (x.2 0).posts < 2^31 ∧ (x.1.sems 0).used = true ∧ (x.1.sems 0).count = -2^31 :=
  exists_guarded_run blankTallies_init (by decide) fun _ _ _ h => h

end HarlinKernel.Ipc
