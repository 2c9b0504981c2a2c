import HarlinKernel.TransitionSystem

/-! The lock of `fs/fat32.c`: a spinlock and one nesting depth for all callers. Each statement of
`fat32_lock_acquire` and `fat32_lock_release` is one step; a caller that finds the spinlock held
waits in `spinlock_acquire` until it is free. -/
namespace HarlinKernel.RecursiveLock

open TransitionSystem

/-- Where a caller is: outside the two functions, inside `spinlock_acquire`, between the
statements of `fat32_lock_acquire` or between those of `fat32_lock_release`. -/
inductive Place
  | away
  | spinning
  | tested
  | lowered
  deriving DecidableEq

/-- `fat32_lock`, `fat32_lock_depth`, and for each caller its place and the number of its acquires
that have returned and whose release has not. -/
structure Lock (ι : Type) where
  held : Bool
  depth : ℤ
  place : ι → Place
  nest : ι → ℕ

variable {ι : Type} [DecidableEq ι]

def Lock.move (s : Lock ι) (c : ι) (p : Place) : Lock ι :=
  { s with place := Function.update s.place c p }

def Lock.renest (s : Lock ι) (c : ι) (n : ℕ) : Lock ι :=
  { s with nest := Function.update s.nest c n }

def fat32LockInit : Lock ι := ⟨false,0,fun _ => .away,fun _ => 0⟩

/-- `if (fat32_lock_depth == 0) spinlock_acquire(&fat32_lock);` -/
def acquireTest (s : Lock ι) (c : ι) : Lock ι :=
  if s.depth = 0 then
    if s.held then s.move c .spinning else { s with held := true }.move c .tested
  else s.move c .tested

/-- The end of the wait in `spinlock_acquire`. -/
def spinlockEnter (s : Lock ι) (c : ι) : Option (Lock ι) :=
  if s.held then none else some ({ s with held := true }.move c .tested)

/-- `fat32_lock_depth++;` -/
def acquireCount (s : Lock ι) (c : ι) : Lock ι :=
  ({ s with depth := s.depth+1 }.move c .away).renest c (s.nest c+1)

/-- `fat32_lock_depth--;` -/
def releaseCount (s : Lock ι) (c : ι) : Lock ι := { s with depth := s.depth-1 }.move c .lowered

/-- `if (fat32_lock_depth == 0) spinlock_release(&fat32_lock);` -/
def releaseTest (s : Lock ι) (c : ι) : Lock ι :=
  ({ s with held := if s.depth = 0 then false else s.held }.move c .away).renest c (s.nest c-1)

inductive Step
  | acquireTest
  | spinlockEnter
  | acquireCount
  | releaseCount
  | releaseTest
  deriving DecidableEq

/-- The statement that is due at the place of the caller. A release is called only inside an
acquire of the same caller. -/
def act (s : Lock ι) (a : ι × Step) : Option (Lock ι) :=
  match a.2, s.place a.1 with
  | .acquireTest, .away => some (acquireTest s a.1)
  | .spinlockEnter, .spinning => spinlockEnter s a.1
  | .acquireCount, .tested => some (acquireCount s a.1)
  | .releaseCount, .away => if s.nest a.1 = 0 then none else some (releaseCount s a.1)
  | .releaseTest, .lowered => some (releaseTest s a.1)
  | _, _ => none

/-- All interleavings of the callers. -/
def lockRuns (ι : Type) [DecidableEq ι] : System (Lock ι) (ι × Step) :=
  actions (fun s => s = fat32LockInit) act

/-- The caller is between its outermost acquire and the matching release. -/
def Inside (s : Lock ι) (c : ι) : Prop := s.nest c ≠ 0 ∧ ¬ (s.nest c = 1 ∧ s.place c = .lowered)

instance (s : Lock ι) (c : ι) : Decidable (Inside s c) := inferInstanceAs (Decidable (_ ∧ _))

/-- An outermost acquire finds the depth 0, that is, it is made while nobody has counted. -/
def Alone (s : Lock ι) (a : ι × Step) : Prop :=
  a.2 = .acquireTest → s.nest a.1 = 0 → s.depth = 0

instance (s : Lock ι) (a : ι × Step) : Decidable (Alone s a) :=
  inferInstanceAs (Decidable (_ → _))

/-- The depth belongs to the holder of the spinlock. -/
structure Holds (s : Lock ι) (h : ι) : Prop where
  held : s.held = true
  place : s.place h ≠ .spinning
  depth : s.depth = if s.place h = .lowered then (s.nest h : ℤ)-1 else s.nest h
  inside : s.place h ≠ .tested → s.nest h ≠ 0

/-- Everybody but the holder, if there is one, is outside. -/
structure Owned (s : Lock ι) (holder : Option ι) : Prop where
  free : holder = none → s.held = false ∧ s.depth = 0
  holds : ∀ h, holder = some h → Holds s h
  others : ∀ c, holder ≠ some c → s.nest c = 0 ∧ (s.place c = .away ∨ s.place c = .spinning)

variable {s t : Lock ι} {holder : Option ι} {c : ι}

omit [DecidableEq ι] in
lemma Owned.holder_of (h : Owned s holder) (hpl : s.place c ≠ .away)
    (hpl' : s.place c ≠ .spinning) : holder = some c := by
  by_contra hne
  exact (h.others c hne).2.elim hpl hpl'

omit [DecidableEq ι] in
lemma Owned.holder_of_nest (h : Owned s holder) (hns : s.nest c ≠ 0) : holder = some c := by
  by_contra hne
  exact hns (h.others c hne).1

lemma Owned.enter (h : Owned s holder) (hfr : s.held = false) (hns : s.nest c = 0) :
    Owned ({ s with held := true }.move c .tested) (some c) := by
  have hno : holder = none := by
    cases holder with
    | none => rfl
    | some h' => exact absurd (h.holds h' rfl).held (by simp [hfr])
  have hdp := (h.free hno).2
  refine ⟨fun hbad => (nomatch hbad),?_,?_⟩
  · rintro _ ⟨⟩
    exact ⟨rfl,by simp [Lock.move],by simp [Lock.move,hdp,hns],by simp [Lock.move]⟩
  · intro d hd
    have hne : d ≠ c := fun heq => hd (by rw [heq])
    have hout := h.others d (by rw [hno]; exact fun hbad => nomatch hbad)
    simpa [Lock.move,hne] using hout

omit [DecidableEq ι] in
lemma Owned.of_holder (h : Owned s (some c)) (hc : Holds t c)
    (hot : ∀ d, d ≠ c → t.nest d = s.nest d ∧ t.place d = s.place d) : Owned t (some c) := by
  refine ⟨fun hbad => (nomatch hbad),?_,?_⟩
  · rintro _ ⟨⟩
    exact hc
  · intro d hd
    have hne : d ≠ c := fun heq => hd (by rw [heq])
    obtain ⟨hns,hpl⟩ := hot d hne
    rw [hns,hpl]
    exact h.others d hd

lemma Owned.test (h : Owned s holder) (hpl : s.place c = .away)
    (hal : s.nest c = 0 → s.depth = 0) : ∃ holder', Owned (acquireTest s c) holder' := by
  by_cases hns : s.nest c = 0
  · have hdp := hal hns
    rw [acquireTest,if_pos hdp]
    split_ifs with hhe
    · refine ⟨holder,?_⟩
      have hho : holder ≠ some c := by
        intro heq
        exact (h.holds c heq).inside (by rw [hpl]; decide) hns
      refine ⟨h.free,?_,?_⟩
      · intro d hd
        have hne : d ≠ c := fun heq => hho (heq ▸ hd)
        have hhl := h.holds d hd
        exact ⟨hhl.held,by simpa [Lock.move,hne] using hhl.place,
          by simpa [Lock.move,hne] using hhl.depth,by simpa [Lock.move,hne] using hhl.inside⟩
      · intro d hd
        by_cases hdc : d = c
        · subst hdc
          exact ⟨hns,.inr (by simp [Lock.move])⟩
        · simpa [Lock.move,hdc] using h.others d hd
    · exact ⟨_,h.enter (by simpa using hhe) hns⟩
  · obtain rfl := h.holder_of_nest hns
    have hhl := h.holds c rfl
    have hdp := hhl.depth
    rw [if_neg (by rw [hpl]; decide)] at hdp
    rw [acquireTest,if_neg (by omega)]
    refine ⟨_,h.of_holder ⟨hhl.held,by simp [Lock.move],by simpa [Lock.move] using hdp,
      by simp [Lock.move]⟩ ?_⟩
    intro d hd
    simp [Lock.move,hd]

lemma Owned.count (h : Owned s holder) (hpl : s.place c = .tested) :
    ∃ holder', Owned (acquireCount s c) holder' := by
  obtain rfl := h.holder_of (by rw [hpl]; decide) (by rw [hpl]; decide)
  have hhl := h.holds c rfl
  have hdp := hhl.depth
  rw [if_neg (by rw [hpl]; decide)] at hdp
  refine ⟨_,h.of_holder ⟨hhl.held,?_,?_,?_⟩ ?_⟩
  · simp [acquireCount,Lock.move,Lock.renest]
  · simp [acquireCount,Lock.move,Lock.renest,hdp]
  · simp [acquireCount,Lock.move,Lock.renest]
  · intro d hd
    simp [acquireCount,Lock.move,Lock.renest,hd]

lemma Owned.uncount (h : Owned s holder) (hpl : s.place c = .away)
    (hns : s.nest c ≠ 0) : ∃ holder', Owned (releaseCount s c) holder' := by
  obtain rfl := h.holder_of_nest hns
  have hhl := h.holds c rfl
  have hdp := hhl.depth
  rw [if_neg (by rw [hpl]; decide)] at hdp
  refine ⟨_,h.of_holder ⟨hhl.held,?_,?_,?_⟩ ?_⟩
  · simp [releaseCount,Lock.move]
  · simp [releaseCount,Lock.move,hdp]
  · simp [releaseCount,Lock.move,hns]
  · intro d hd
    simp [releaseCount,Lock.move,hd]

lemma Owned.untest (h : Owned s holder) (hpl : s.place c = .lowered) :
    ∃ holder', Owned (releaseTest s c) holder' := by
  obtain rfl := h.holder_of (by rw [hpl]; decide) (by rw [hpl]; decide)
  have hhl := h.holds c rfl
  have hdp := hhl.depth
  have hns := hhl.inside (by rw [hpl]; decide)
  rw [if_pos hpl] at hdp
  by_cases hls : s.depth = 0
  · refine ⟨none,fun _ => ⟨by simp [releaseTest,Lock.move,Lock.renest,hls],
      hls⟩,fun _ hbad => (nomatch hbad),?_⟩
    intro d _
    by_cases hdc : d = c
    · subst hdc
      simp only [releaseTest,Lock.move,Lock.renest,Function.update_self]
      exact ⟨by omega,.inl trivial⟩
    · have hout := h.others d (fun heq => hdc (Option.some.inj heq).symm)
      simpa [releaseTest,Lock.move,Lock.renest,hdc] using hout
  · refine ⟨_,h.of_holder ⟨?_,?_,?_,?_⟩ ?_⟩
    · simp [releaseTest,Lock.move,Lock.renest,hls,hhl.held]
    · simp [releaseTest,Lock.move,Lock.renest]
    · simp only [releaseTest,Lock.move,Lock.renest,Function.update_self]
      rw [if_neg (by decide)]
      omega
    · intro _
      simp only [releaseTest,Lock.move,Lock.renest,Function.update_self]
      omega
    · intro d hd
      simp [releaseTest,Lock.move,Lock.renest,hd]

lemma Owned.step {a : ι × Step} (h : Owned s holder) (hst : act s a = some t)
    (hal : Alone s a) : ∃ holder', Owned t holder' := by
  obtain ⟨c,step⟩ := a
  rw [act] at hst
  split at hst <;> rename_i hst' hpl
  · cases hst
    exact h.test hpl (hal hst')
  · rw [spinlockEnter] at hst
    split_ifs at hst with hhl
    cases hst
    have hho : holder ≠ some c := fun heq => (h.holds c heq).place hpl
    exact ⟨_,h.enter (by simpa using hhl) (h.others c hho).1⟩
  · cases hst
    exact h.count hpl
  · split_ifs at hst with hns
    cases hst
    exact h.uncount hpl hns
  · cases hst
    exact h.untest hpl
  · cases hst

lemma owned_of_reach (h : Reach ((lockRuns ι).guarded Alone) s) : ∃ holder, Owned s holder := by
  refine h.invariant (fun s => ∃ holder, Owned s holder) ?_ ?_
  · rintro s rfl
    exact ⟨none,fun _ => ⟨rfl,rfl⟩,fun _ hbad => (nomatch hbad),fun _ _ => ⟨rfl,.inl rfl⟩⟩
  · rintro s a t ⟨holder,hs⟩ ⟨hst,hal⟩
    exact hs.step hst hal

/-- A caller that passes because another one has counted is inside together with it. -/
theorem Owned.two_inside (h : Owned s holder) (hpl : s.place c = .away) (hns : s.nest c = 0)
    (hdp : s.depth ≠ 0) : ∃ d ≠ c, Inside (acquireCount (acquireTest s c) c) d ∧
      Inside (acquireCount (acquireTest s c) c) c := by
  cases holder with
  | none => exact absurd (h.free rfl).2 hdp
  | some d =>
    have hhl := h.holds d rfl
    have hne : d ≠ c := by
      rintro rfl
      exact hhl.inside (by rw [hpl]; decide) hns
    have hcn := hhl.depth
    refine ⟨d,hne,?_,?_⟩
    · simp only [Inside,acquireCount,acquireTest,if_neg hdp,Lock.move,
        Lock.renest,Function.update_of_ne hne]
      split_ifs at hcn with hlw
      · exact ⟨hhl.inside (by rw [hlw]; decide),fun hls => by omega⟩
      · exact ⟨by omega,fun hls => hlw hls.2⟩
    · simp [Inside,acquireCount,Lock.move,Lock.renest]

/-- Where every outermost acquire is made at depth 0, no two callers are inside at once; one that
is made at another depth lets its caller in beside the one that has counted. -/
theorem one_caller_inside (l : List (ι × Step)) (s : Lock ι)
    (h : Trace ((lockRuns ι).guarded Alone) l s) :
    (∀ c d, Inside s c → Inside s d → c = d) ∧
      ∀ c t, act s (c,.acquireTest) = some t → ¬ Alone s (c,.acquireTest) →
        ∃ u, act t (c,.acquireCount) = some u ∧ ∃ d ≠ c, Inside u d ∧ Inside u c := by
  obtain ⟨holder,how⟩ := owned_of_reach h.reach
  refine ⟨fun c d hc hd => ?_,fun c t hst hal => ?_⟩
  · have hc' := how.holder_of_nest hc.1
    have hd' := how.holder_of_nest hd.1
    exact Option.some.inj (hc'.symm.trans hd')
  simp only [Alone,true_implies,not_forall] at hal
  obtain ⟨hns,hdp⟩ := hal
  have hpl : s.place c = .away := by
    by_contra haw
    rw [act] at hst
    split at hst <;> simp_all
  rw [act,hpl] at hst
  cases hst
  have hts : (acquireTest s c).place c = .tested := by
    simp [acquireTest,hdp,Lock.move]
  refine ⟨_,by rw [act,hts],how.two_inside hpl hns hdp⟩

/-- One caller goes in twice and out again while the other waits for it. -/
def nestedSections : List (Bool × Step) :=
  [(false,.acquireTest),(true,.acquireTest),(false,.acquireCount),(false,.acquireTest),
    (false,.acquireCount),(false,.releaseCount),(false,.releaseTest),(false,.releaseCount),
    (false,.releaseTest),(true,.spinlockEnter),(true,.acquireCount)]

theorem one_caller_inside_nested :
    ∃ s, Trace ((lockRuns Bool).guarded Alone) nestedSections s ∧ Inside s true ∧
      ∀ c d, Inside s c → Inside s d → c = d :=
  exists_actions (P := fun s => Inside s true) rfl (by decide) fun s htr hin =>
    ⟨hin,(one_caller_inside _ s htr).1⟩

/-- The second caller finds the depth of the first and goes in beside it. -/
theorem two_callers_inside :
    ∃ s,
      Trace (lockRuns Bool)
        [(false,.acquireTest),(false,.acquireCount),(true,.acquireTest), (true,.acquireCount)] s ∧
      Inside s false ∧ Inside s true := by
  rw [← System.guarded_true (lockRuns Bool)]
  exact exists_actions rfl (by decide) fun _ _ h => h

end HarlinKernel.RecursiveLock
