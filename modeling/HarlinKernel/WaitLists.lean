import Mathlib.Tactic

/-! Processes that sleep in lists. Each wait `w` belongs to one list, `list w`. A process that has
to wait goes to the end of the list, and a list is woken from its front. A process that was woken
has not run yet. -/
namespace HarlinKernel.WaitLists

open Function (update update_self update_of_ne)

variable {P W L : Type*}

/-- Whether a process waits, and for what. -/
inductive Proc (W : Type*)
  | free
  | asleep (w : W)
  | woken (w : W)
  deriving DecidableEq

def Proc.wake : Proc W → Proc W
  | .asleep w => .woken w
  | p => p

@[simp] lemma Proc.wake_ne_asleep (p : Proc W) (w : W) : p.wake ≠ .asleep w := by
  cases p <;> simp [Proc.wake]

lemma Proc.of_wake {p : Proc W} {w : W} (h : p.wake = .asleep w ∨ p.wake = .woken w) :
    p = .asleep w ∨ p = .woken w := by
  cases p with
  | free => simp [Proc.wake] at h
  | asleep v => simpa [Proc.wake] using h
  | woken v => simpa [Proc.wake] using h

section Waking

variable [DecidableEq P]

def wakeOne (procs : P → Proc W) (p : P) : P → Proc W := update procs p (procs p).wake

lemma foldl_wakeOne (ps : List P) (procs : P → Proc W) (p : P) :
    ps.foldl wakeOne procs p = if p ∈ ps then (procs p).wake else procs p := by
  induction ps generalizing procs with
  | nil => simp
  | cons q ps ih =>
    rw [List.foldl_cons,ih,wakeOne]
    by_cases hpq : p = q
    · subst hpq
      cases hp : procs p <;> simp [Proc.wake]
    · simp [hpq]

/-- The processes and the lists, oldest sleeper first. -/
@[ext] structure Waits (P W L : Type*) where
  procs : P → Proc W
  lists : L → List P

namespace Waits

/-- The process runs. -/
def leave (x : Waits P W L) (p : P) : Waits P W L := { x with procs := update x.procs p .free }

lemma leave_procs (x : Waits P W L) (p : P) :
    (x.leave p).procs = update x.procs p .free := rfl

@[simp] lemma leave_lists (x : Waits P W L) (p : P) : (x.leave p).lists = x.lists := rfl

variable [DecidableEq L]

/-- The first `k` processes of the list are woken and taken out of it. -/
def wake (x : Waits P W L) (l : L) (k : ℕ) : Waits P W L where
  procs := ((x.lists l).take k).foldl wakeOne x.procs
  lists := update x.lists l ((x.lists l).drop k)

/-- The process goes to sleep. -/
def join (list : W → L) (x : Waits P W L) (p : P) (w : W) : Waits P W L where
  procs := update x.procs p (.asleep w)
  lists := update x.lists (list w) (x.lists (list w) ++ [p])

@[simp] lemma wake_lists (x : Waits P W L) (l : L) (k : ℕ) :
    (x.wake l k).lists = update x.lists l ((x.lists l).drop k) := rfl

lemma join_procs (list : W → L) (x : Waits P W L) (p : P) (w : W) :
    (x.join list p w).procs = update x.procs p (.asleep w) := rfl

@[simp] lemma join_lists (list : W → L) (x : Waits P W L) (p : P) (w : W) :
    (x.join list p w).lists = update x.lists (list w) (x.lists (list w) ++ [p]) := rfl

lemma wake_procs (x : Waits P W L) (l : L) (k : ℕ) (p : P) :
    (x.wake l k).procs p = if p ∈ (x.lists l).take k then (x.procs p).wake else x.procs p :=
  foldl_wakeOne _ _ _

lemma wake_asleep {x : Waits P W L} {l : L} {k : ℕ} {p : P} {w : W} :
    (x.wake l k).procs p = .asleep w ↔ x.procs p = .asleep w ∧ p ∉ (x.lists l).take k := by
  rw [wake_procs]
  split_ifs with hp <;> simp [hp]

end Waits

end Waking

section Invariants

variable {list : W → L} {pids : Finset P} {live : L → Prop} {x : Waits P W L}

/-- Who sleeps is in its list. -/
def Listed (list : W → L) (x : Waits P W L) : Prop :=
  ∀ p w, x.procs p = .asleep w → p ∈ x.lists (list w)

/-- The lists in use hold exactly the processes that sleep in them, each once. -/
structure Queued (list : W → L) (pids : Finset P) (live : L → Prop) (x : Waits P W L) : Prop where
  listed : Listed list x
  asleep : ∀ l, live l → ∀ p ∈ x.lists l, ∃ w, x.procs p = .asleep w ∧ list w = l
  nodup : ∀ l, live l → (x.lists l).Nodup
  waiting : ∀ p w, x.procs p = .asleep w ∨ x.procs p = .woken w → p ∈ pids ∧ live (list w)

lemma Queued.created (h : Queued list pids live x) {live' : L → Prop} {y : Waits P W L}
    (hpr : y.procs = x.procs) (hlv : ∀ l, live l → live' l)
    (hold : ∀ l, live l → y.lists l = x.lists l) (hnew : ∀ l, live' l → live l ∨ y.lists l = []) :
    Queued list pids live' y where
  listed p w hp := by
    rw [hpr] at hp
    rw [hold _ (h.waiting p w (.inl hp)).2]
    exact h.listed p w hp
  asleep l hl p hp := by
    rw [hpr]
    obtain hl | hl := hnew l hl
    · rw [hold l hl] at hp
      exact h.asleep l hl p hp
    · simp [hl] at hp
  nodup l hl := by
    obtain hl | hl := hnew l hl
    · rw [hold l hl]
      exact h.nodup l hl
    · simp [hl]
  waiting p w hp := by
    rw [hpr] at hp
    exact ⟨(h.waiting p w hp).1,hlv _ (h.waiting p w hp).2⟩

variable [DecidableEq P]

lemma Listed.leave (h : Listed list x) (p : P) : Listed list (x.leave p) := by
  intro q w hq
  by_cases hqp : q = p
  · subst hqp
    simp [Waits.leave_procs] at hq
  · rw [Waits.leave_procs,update_of_ne hqp] at hq
    exact h q w hq

lemma Queued.leave (h : Queued list pids live x) {p : P} (hp : ∀ w, x.procs p ≠ .asleep w) :
    Queued list pids live (x.leave p) where
  listed := h.listed.leave p
  asleep l hl q hq := by
    obtain ⟨w,hw,hls⟩ := h.asleep l hl q hq
    have hqp : q ≠ p := by
      rintro rfl
      exact hp w hw
    refine ⟨w,?_,hls⟩
    rwa [Waits.leave_procs,update_of_ne hqp]
  nodup := h.nodup
  waiting q w hq := by
    by_cases hqp : q = p
    · subst hqp
      simp [Waits.leave_procs] at hq
    · rw [Waits.leave_procs,update_of_ne hqp] at hq
      exact h.waiting q w hq

variable [DecidableEq L]

lemma Listed.wake (h : Listed list x) (l : L) (k : ℕ) : Listed list (x.wake l k) := by
  intro p w hp
  obtain ⟨hp,hnot⟩ := Waits.wake_asleep.mp hp
  have hmem := h p w hp
  rw [Waits.wake_lists]
  by_cases hl : list w = l
  · subst hl
    rw [update_self]
    rw [← List.take_append_drop k (x.lists (list w)),List.mem_append] at hmem
    exact hmem.resolve_left hnot
  · rwa [update_of_ne hl]

lemma Listed.join (h : Listed list x) (p : P) (w : W) : Listed list (x.join list p w) := by
  intro q v hq
  rw [Waits.join_procs] at hq
  rw [Waits.join_lists]
  by_cases hqp : q = p
  · subst hqp
    rw [update_self] at hq
    obtain rfl := Proc.asleep.inj hq
    simp
  · rw [update_of_ne hqp] at hq
    have hmem := h q v hq
    by_cases hv : list v = list w
    · rw [hv] at hmem ⊢
      simp [hmem]
    · rwa [update_of_ne hv]

lemma Queued.wake (h : Queued list pids live x) {l : L} (hl : live l) (k : ℕ) :
    Queued list pids live (x.wake l k) where
  listed := h.listed.wake l k
  asleep m hm q hq := by
    have hmem : q ∈ x.lists m ∧ q ∉ (x.lists l).take k := by
      rw [Waits.wake_lists] at hq
      by_cases hml : m = l
      · subst hml
        rw [update_self] at hq
        have hds := List.disjoint_take_drop (h.nodup m hm) (le_refl k)
        exact ⟨List.mem_of_mem_drop hq,fun htk => hds htk hq⟩
      · rw [update_of_ne hml] at hq
        refine ⟨hq,fun htk => hml ?_⟩
        obtain ⟨w,hw,rfl⟩ := h.asleep m hm q hq
        obtain ⟨v,hv,rfl⟩ := h.asleep l hl q (List.mem_of_mem_take htk)
        rw [hw] at hv
        rw [Proc.asleep.inj hv]
    obtain ⟨w,hw,hls⟩ := h.asleep m hm q hmem.1
    exact ⟨w,Waits.wake_asleep.mpr ⟨hw,hmem.2⟩,hls⟩
  nodup m hm := by
    rw [Waits.wake_lists]
    by_cases hml : m = l
    · subst hml
      rw [update_self]
      exact (h.nodup m hm).sublist (List.drop_sublist _ _)
    · rw [update_of_ne hml]
      exact h.nodup m hm
  waiting q w hq := by
    rw [Waits.wake_procs] at hq
    split_ifs at hq with htk
    · obtain ⟨v,hv,-⟩ := h.asleep l hl q (List.mem_of_mem_take htk)
      rw [hv] at hq
      obtain rfl : v = w := by simpa [Proc.wake] using hq
      exact h.waiting q v (.inl hv)
    · exact h.waiting q w hq

lemma Queued.join (h : Queued list pids live x) {p : P} (hfr : x.procs p = .free)
    (hp : p ∈ pids) {w : W} (hw : live (list w)) : Queued list pids live (x.join list p w) where
  listed := h.listed.join p w
  asleep l hl q hq := by
    rw [Waits.join_lists] at hq
    rw [Waits.join_procs]
    by_cases hqp : q = p
    · subst hqp
      refine ⟨w,update_self _ _ _,?_⟩
      by_contra hne
      rw [update_of_ne (Ne.symm hne)] at hq
      obtain ⟨v,hv,-⟩ := h.asleep l hl q hq
      rw [hfr] at hv
      cases hv
    · rw [update_of_ne hqp]
      apply h.asleep l hl q
      by_cases hlw : l = list w
      · subst hlw
        simpa [hqp] using hq
      · rwa [update_of_ne hlw] at hq
  nodup l hl := by
    rw [Waits.join_lists]
    by_cases hlw : l = list w
    · subst hlw
      rw [update_self]
      refine List.nodup_append.mpr ⟨h.nodup _ hl,List.nodup_singleton p,?_⟩
      rintro q hq r hr rfl
      obtain rfl := List.mem_singleton.mp hr
      obtain ⟨v,hv,-⟩ := h.asleep _ hl q hq
      rw [hfr] at hv
      cases hv
    · rw [update_of_ne hlw]
      exact h.nodup l hl
  waiting q v hq := by
    by_cases hqp : q = p
    · subst hqp
      obtain rfl : w = v := by simpa [Waits.join_procs] using hq
      exact ⟨hp,hw⟩
    · rw [Waits.join_procs,update_of_ne hqp] at hq
      exact h.waiting q v hq

end Invariants

section Counting

variable [DecidableEq L] {list : W → L} {pids : Finset P}

/-- One for a process that was woken out of the list. -/
def Proc.wokenFrom (list : W → L) (l : L) : Proc W → ℕ
  | .woken w => if list w = l then 1 else 0
  | _ => 0

@[simp] lemma Proc.wokenFrom_free (list : W → L) (l : L) : Proc.free.wokenFrom list l = 0 := rfl

@[simp] lemma Proc.wokenFrom_asleep (list : W → L) (l : L) (w : W) :
    (Proc.asleep w).wokenFrom list l = 0 := rfl

@[simp] lemma Proc.wokenFrom_woken (list : W → L) (l : L) (w : W) :
    (Proc.woken w).wokenFrom list l = if list w = l then 1 else 0 := by
  rw [Proc.wokenFrom]

/-- The number of processes that were woken out of the list and have not run yet. -/
def wokenFrom (list : W → L) (pids : Finset P) (procs : P → Proc W) (l : L) : ℕ :=
  ∑ p ∈ pids, (procs p).wokenFrom list l

lemma wokenFrom_pos {procs : P → Proc W} {l : L} (h : 0 < wokenFrom list pids procs l) :
    ∃ p ∈ pids, ∃ w, procs p = .woken w ∧ list w = l := by
  obtain ⟨p,hp,hpos⟩ := Finset.exists_ne_zero_of_sum_ne_zero h.ne'
  refine ⟨p,hp,?_⟩
  cases hpr : procs p with
  | woken w =>
    exact ⟨w,rfl,by simpa [hpr] using hpos⟩
  | _ => simp [hpr] at hpos

variable [DecidableEq P]

lemma wokenFrom_update (list : W → L) (procs : P → Proc W) {p : P} (hp : p ∈ pids) (v : Proc W)
    (l : L) :
    wokenFrom list pids (update procs p v) l+(procs p).wokenFrom list l =
      wokenFrom list pids procs l+v.wokenFrom list l := by
  have hcm : (fun q => (update procs p v q).wokenFrom list l) =
      update (fun q => (procs q).wokenFrom list l) p (v.wokenFrom list l) :=
    Function.comp_update (Proc.wokenFrom list l) procs p v
  have hsp := Finset.sum_erase_add pids (fun q => (procs q).wokenFrom list l) hp
  rw [wokenFrom,hcm,Finset.sum_update_of_mem hp,Finset.sdiff_singleton_eq_erase,wokenFrom,← hsp]
  omega

lemma wokenFrom_leave (list : W → L) (x : Waits P W L) {p : P} (hp : p ∈ pids) (l : L) :
    wokenFrom list pids (x.leave p).procs l+(x.procs p).wokenFrom list l =
      wokenFrom list pids x.procs l := by
  have hup := wokenFrom_update list x.procs hp .free l
  rwa [Proc.wokenFrom_free,Nat.add_zero] at hup

lemma wokenFrom_join (list : W → L) {x : Waits P W L} {p : P} (hfr : x.procs p = .free)
    (hp : p ∈ pids) (w : W) (l : L) :
    wokenFrom list pids (x.join list p w).procs l = wokenFrom list pids x.procs l := by
  have hup := wokenFrom_update list x.procs hp (.asleep w) l
  rwa [hfr,Proc.wokenFrom_free,Proc.wokenFrom_asleep,Nat.add_zero,Nat.add_zero] at hup

lemma wokenFrom_foldl {m : L} (ps : List P) (procs : P → Proc W) (hnd : ps.Nodup)
    (hps : ∀ p ∈ ps, p ∈ pids ∧ ∃ w, procs p = .asleep w ∧ list w = m) (l : L) :
    wokenFrom list pids (ps.foldl wakeOne procs) l =
      wokenFrom list pids procs l+if m = l then ps.length else 0 := by
  induction ps generalizing procs with
  | nil => simp
  | cons p ps ih =>
    obtain ⟨hnot,hnd⟩ := List.nodup_cons.mp hnd
    obtain ⟨hp,w,hw,hm⟩ := hps p List.mem_cons_self
    have hup := wokenFrom_update list procs hp (procs p).wake l
    rw [List.foldl_cons,ih _ hnd,wakeOne]
    · simp only [hw,Proc.wake,Proc.wokenFrom_asleep,Proc.wokenFrom_woken,hm] at hup ⊢
      split_ifs at hup ⊢ with hml
      · rw [List.length_cons]
        omega
      · omega
    · intro q hq
      have hqp : q ≠ p := by
        rintro rfl
        exact hnot hq
      rw [wakeOne,update_of_ne hqp]
      exact hps q (List.mem_cons_of_mem p hq)

lemma Queued.wokenFrom_wake {live : L → Prop} {x : Waits P W L} (h : Queued list pids live x)
    {m : L} (hm : live m) (k : ℕ) (l : L) :
    wokenFrom list pids (x.wake m k).procs l = wokenFrom list pids x.procs l+if m =
      l then min k (x.lists m).length else 0 := by
  rw [Waits.wake,wokenFrom_foldl (m:=m),List.length_take]
  · exact (h.nodup m hm).sublist (List.take_sublist _ _)
  · intro p hp
    obtain ⟨w,hw,hls⟩ := h.asleep m hm p (List.mem_of_mem_take hp)
    exact ⟨(h.waiting p w (.inl hw)).1,w,hw,hls⟩

end Counting

end HarlinKernel.WaitLists
