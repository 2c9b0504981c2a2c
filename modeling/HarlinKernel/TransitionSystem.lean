import Mathlib.Tactic

/-! Labelled transition systems and their finite runs. A label carries both the
call that was made and what it returned, so that a statement about the results
of a run is a statement about its list of labels. -/
namespace HarlinKernel.TransitionSystem

/-- Start states and labelled steps. -/
structure System (S A : Type*) where
  init : S → Prop
  step : S → A → S → Prop

variable {S R A C O : Type*}

/-- A run is described by its labels, oldest first, and the state it ends in. -/
inductive Trace (T : System S A) : List A → S → Prop
  | start {s} : T.init s → Trace T [] s
  | next {l s a t} : Trace T l s → T.step s a t → Trace T (l ++ [a]) t

/-- States at the end of some run. -/
def Reach (T : System S A) (s : S) : Prop := ∃ l, Trace T l s

variable {T : System S A} {init : S → Prop} {ok : S → C × O → Prop} {act : S → C → Option (O × S)}
  {r : List (C × O) × S} {cs : List C}

namespace Trace

lemma reach {l : List A} {s : S} (h : Trace T l s) : Reach T s := ⟨l,h⟩

/-- What holds at the start and is kept by each step, given the labels so far,
holds at the end of each run. -/
theorem invariant (I : List A → S → Prop) (hin : ∀ s, T.init s → I [] s)
    (hst : ∀ l s a t, I l s → T.step s a t → I (l ++ [a]) t) {l : List A} {s : S}
    (h : Trace T l s) : I l s := by
  induction h with
  | start hs => exact hin _ hs
  | next _ hs ih => exact hst _ _ _ _ ih hs

/-- The step of a label inside a run. -/
lemma step_of_prefix {l l₁ : List A} {a : A} {s : S} (h : Trace T l s) (hp : l₁ ++ [a] <+: l) :
    ∃ t u, Trace T l₁ t ∧ T.step t a u := by
  induction h with
  | start => simp at hp
  | next htr hs ih =>
    rcases List.prefix_concat_iff.mp hp with heq | hp
    · obtain ⟨rfl,ha⟩ := List.append_inj' heq rfl
      obtain rfl := List.singleton_inj.mp ha
      exact ⟨_,_,htr,hs⟩
    · exact ih hp

end Trace

/-- The rule for invariants that do not look at the labels. -/
theorem Reach.invariant (I : S → Prop) (hin : ∀ s, T.init s → I s)
    (hst : ∀ s a t, I s → T.step s a t → I t) {s : S} (h : Reach T s) : I s := by
  obtain ⟨l,h⟩ := h
  exact h.invariant (fun _ s => I s) hin (fun _ => hst)

/-- The runs all of whose steps meet a condition on the state before the step. -/
def System.guarded (T : System S A) (ok : S → A → Prop) : System S A where
  init := T.init
  step s a t := T.step s a t ∧ ok s a

lemma System.guarded_guarded (T : System S A) (p q : S → A → Prop) :
    (T.guarded p).guarded q = T.guarded fun s a => p s a ∧ q s a := by
  simp [System.guarded,and_assoc]

/-- The system of the calls of a function of the state. -/
def calls (init : S → Prop) (run : S → C → O × S) : System S (C × O) where
  init := init
  step s a t := run s a.1 = (a.2,t)

/-- The labels and the last state of a list of calls. -/
def runCalls (run : S → C → O × S) (s : S) : List C → List (C × O) × S
  | [] => ([],s)
  | c :: cs =>
    let rest := runCalls run (run s c).2 cs
    ((c,(run s c).1) :: rest.1,rest.2)

/-- A condition on each call of a list, in the state the call is made in. -/
def CallsMeet (run : S → C → O × S) (ok : S → C × O → Prop) (s : S) : List C → Prop
  | [] => True
  | c :: cs => ok s (c,(run s c).1) ∧ CallsMeet run ok (run s c).2 cs

lemma trace_runCalls {run : S → C → O × S} {l : List (C × O)} {s : S}
    (h : Trace ((calls init run).guarded ok) l s) (cs : List C) (hok : CallsMeet run ok s cs) :
    Trace ((calls init run).guarded ok) (l ++ (runCalls run s cs).1) (runCalls run s cs).2 := by
  induction cs generalizing l s with
  | nil => simpa [runCalls] using h
  | cons c cs ih =>
    have hst : ((calls init run).guarded ok).step s (c,(run s c).1) (run s c).2 :=
      ⟨rfl,hok.1⟩
    simpa [runCalls] using ih (.next h hst) hok.2

lemma trace_of_calls {run : S → C → O × S} {s : S} (hin : init s) (cs : List C)
    (hok : CallsMeet run ok s cs) :
    Trace ((calls init run).guarded ok) (runCalls run s cs).1 (runCalls run s cs).2 :=
  trace_runCalls (.start hin) cs hok

/-- The system of actions that may be disabled. -/
def actions (init : S → Prop) (act : S → A → Option S) : System S A where
  init := init
  step s a t := act s a = some t

/-- A list of actions, each enabled and meeting a condition, from one state to another. -/
def ActionsMeet (act : S → A → Option S) (ok : S → A → Prop) (s : S) : List A → S → Prop
  | [], t => s = t
  | a :: as, t =>
    ok s a ∧
      match act s a with
      | some u => ActionsMeet act ok u as t
      | none => False

lemma trace_actions {act : S → A → Option S} {ok : S → A → Prop} {l : List A} {s t : S}
    (h : Trace ((actions init act).guarded ok) l s) (as : List A)
    (hok : ActionsMeet act ok s as t) : Trace ((actions init act).guarded ok) (l ++ as) t := by
  induction as generalizing l s with
  | nil =>
    obtain rfl : s = t := hok
    simpa using h
  | cons a as ih =>
    obtain ⟨ha,hrs⟩ := hok
    split at hrs
    · rename_i u hu
      have hst : ((actions init act).guarded ok).step s a u := ⟨hu,ha⟩
      simpa using ih (.next h hst) hrs
    · exact hrs.elim

lemma trace_of_actions {act : S → A → Option S} {ok : S → A → Prop} {s t : S} {as : List A}
    (hin : init s) (hok : ActionsMeet act ok s as t) :
    Trace ((actions init act).guarded ok) as t :=
  trace_actions (.start hin) as hok

/-- The state after a list of actions, if each is enabled and meets the condition. -/
def runActions (act : S → A → Option S) (ok : S → A → Prop) [∀ s a, Decidable (ok s a)] (s : S) :
    List A → Option S
  | [] => some s
  | a :: as => if ok s a then (act s a).bind fun u => runActions act ok u as else none

lemma actionsMeet_of_run {act : S → A → Option S} {ok : S → A → Prop} [∀ s a, Decidable (ok s a)]
    {s t : S} {as : List A} (h : runActions act ok s as = some t) : ActionsMeet act ok s as t := by
  induction as generalizing s with
  | nil => exact Option.some.inj h
  | cons a as ih =>
    rw [runActions] at h
    split_ifs at h with ha
    obtain ⟨u,hu,hrs⟩ := Option.bind_eq_some_iff.1 h
    refine ⟨ha,?_⟩
    rw [hu]
    exact ih hrs

/-- A list of actions from a start state is a run, and what can be checked of the state that it
ends in gives the result. -/
theorem exists_actions {act : S → A → Option S} {ok : S → A → Prop} {P Q : S → Prop}
    [∀ s a, Decidable (ok s a)] [DecidablePred P] {s : S} {as : List A} (hin : init s)
    (hrun : (runActions act ok s as).any (fun t => decide (P t)) = true)
    (hP : ∀ t, Trace ((actions init act).guarded ok) as t → P t → Q t) :
    ∃ t, Trace ((actions init act).guarded ok) as t ∧ Q t := by
  obtain ⟨t,ht,hdec⟩ := (Option.any_eq_true _ _).mp hrun
  have hst : Trace ((actions init act).guarded ok) [] s := .start hin
  have htr := trace_actions hst as (actionsMeet_of_run ht)
  exact ⟨t,htr,hP t htr (of_decide_eq_true hdec)⟩

/-- The system of calls that may not return. -/
def replies (init : S → Prop) (act : S → C → Option (O × S)) : System S (C × O) where
  init := init
  step s a t := act s a.1 = some (a.2,t)

/-- The labels and the last state of a list of calls, if each returns and meets the condition. -/
def runReplies (act : S → C → Option (O × S)) (ok : S → C × O → Prop) [∀ s a, Decidable (ok s a)]
    (s : S) : List C → Option (List (C × O) × S)
  | [] => some ([],s)
  | c :: cs =>
    (act s c).bind fun r =>
      if ok s (c,r.1) then (runReplies act ok r.2 cs).map fun t => ((c,r.1) :: t.1,t.2) else none

lemma trace_runReplies [∀ s a, Decidable (ok s a)] {l : List (C × O)} {s : S}
    (h : Trace ((replies init act).guarded ok) l s) (cs : List C)
    (hrun : runReplies act ok s cs = some r) :
    Trace ((replies init act).guarded ok) (l ++ r.1) r.2 := by
  induction cs generalizing l s r with
  | nil =>
    cases hrun
    simpa using h
  | cons c cs ih =>
    obtain ⟨x,hact,hrs⟩ := Option.bind_eq_some_iff.mp hrun
    split_ifs at hrs with hok
    obtain ⟨t,ht,rfl⟩ := Option.map_eq_some_iff.mp hrs
    have hst : ((replies init act).guarded ok).step s (c,x.1) x.2 := ⟨hact,hok⟩
    simpa using ih (.next h hst) ht

lemma trace_of_runReplies [∀ s a, Decidable (ok s a)] {s : S} (hin : init s)
    (hrun : runReplies act ok s cs = some r) : Trace ((replies init act).guarded ok) r.1 r.2 := by
  have hst : Trace ((replies init act).guarded ok) [] s := .start hin
  simpa using trace_runReplies hst cs hrun

lemma runReplies_calls [∀ s a, Decidable (ok s a)] {s : S}
    (hrun : runReplies act ok s cs = some r) : r.1.map Prod.fst = cs := by
  induction cs generalizing s r with
  | nil =>
    cases hrun
    rfl
  | cons c cs ih =>
    obtain ⟨x,-,hrs⟩ := Option.bind_eq_some_iff.mp hrun
    split_ifs at hrs with hok
    obtain ⟨t,ht,rfl⟩ := Option.map_eq_some_iff.mp hrs
    simpa using ih ht

/-- The calls with a history variable beside the state. -/
def recording (act : S → C → Option (O × S)) (update : S → C → O → S → R → R) (x : S × R) (c : C) :
    Option (O × (S × R)) :=
  (act x.1 c).map fun r => (r.1,r.2,update x.1 c r.1 r.2 x.2)

lemma recording_eq_some {update : S → C → O → S → R → R}
    {x y : S × R} {c : C} {o : O} : recording act update x c = some (o,y) ↔
      act x.1 c = some (o,y.1) ∧ y.2 = update x.1 c o y.1 x.2 := by
  rw [recording,Option.map_eq_some_iff]
  constructor
  · rintro ⟨⟨o',s⟩,hact,heq⟩
    cases heq
    exact ⟨hact,rfl⟩
  · rintro ⟨hact,heq⟩
    exact ⟨_,hact,Prod.ext rfl (Prod.ext rfl heq.symm)⟩

lemma System.guarded_true (T : System S A) : (T.guarded fun _ _ => True) = T := by
  simp [System.guarded]

/-- A list of calls from a start state is a run, and what can be checked of the state that it ends
in gives the result. -/
theorem exists_guarded_run {P Q : List (C × O) → S → Prop} [∀ s a, Decidable (ok s a)]
    [∀ l s, Decidable (P l s)] {s : S} (hin : init s)
    (hrun : (runReplies act ok s cs).any (fun t => decide (P t.1 t.2)) = true)
    (hP : ∀ l t, Trace ((replies init act).guarded ok) l t → P l t → Q l t) :
    ∃ l t, Trace ((replies init act).guarded ok) l t ∧ l.map Prod.fst = cs ∧ Q l t := by
  obtain ⟨t,ht,hdec⟩ := (Option.any_eq_true _ _).mp hrun
  have htr := trace_of_runReplies hin ht
  exact ⟨t.1,t.2,htr,runReplies_calls ht,hP _ _ htr (of_decide_eq_true hdec)⟩

lemma exists_run {P Q : List (C × O) → S → Prop} [∀ l s, Decidable (P l s)] {s : S} (hin : init s)
    (hrun : (runReplies act (fun _ _ => True) s cs).any (fun t => decide (P t.1 t.2)) = true)
    (hP : ∀ l t, Trace (replies init act) l t → P l t → Q l t) :
    ∃ l t, Trace (replies init act) l t ∧ l.map Prod.fst = cs ∧ Q l t := by
  rw [← System.guarded_true (replies init act)] at hP ⊢
  exact exists_guarded_run hin hrun hP

/-- A relation that carries each step of the first system to one of the second
under the same label. -/
structure Simulation (T : System S A) (U : System R A) where
  rel : S → R → Prop
  init : ∀ s, T.init s → ∃ r, U.init r ∧ rel s r
  step : ∀ s r a t, rel s r → T.step s a t → ∃ u, U.step r a u ∧ rel t u

/-- Each run of the first system is a run of the second with the same labels. -/
theorem Simulation.trace {U : System R A} (m : Simulation T U)
    {l : List A} {s : S} (h : Trace T l s) : ∃ r, Trace U l r ∧ m.rel s r := by
  induction h with
  | start hs =>
    obtain ⟨r,hr,hrel⟩ := m.init _ hs
    exact ⟨r,.start hr,hrel⟩
  | next _ hs ih =>
    obtain ⟨r,hr,hrel⟩ := ih
    obtain ⟨u,hu,hrel'⟩ := m.step _ _ _ _ hrel hs
    exact ⟨u,.next hr hu,hrel'⟩

end HarlinKernel.TransitionSystem
