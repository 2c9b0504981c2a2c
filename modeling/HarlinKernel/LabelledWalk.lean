import Mathlib.Tactic

/-! Walks along labels in a structure of nodes, where reading a label at a node either
goes on to another node or stops with a result. The rules say which walks an edit of
one edge can change. -/
namespace HarlinKernel.LabelledWalk

inductive Step (N R : Type*)
  | stop (r : R)
  | go (n : N)

variable {N R L K : Type*}

/-- The node at the end of a path, if no label on it stops the walk. -/
def descend (next : N → L → Step N R) : N → List L → Option N
  | n, [] => some n
  | n, l :: ls =>
    match next n l with
    | .stop _ => none
    | .go m => descend next m ls

/-- The result of a walk; none if the labels run out first. -/
def follow (next : N → L → Step N R) : N → List L → Option R
  | _, [] => none
  | n, l :: ls =>
    match next n l with
    | .stop r => some r
    | .go m => follow next m ls

lemma descend_append (next : N → L → Step N R) (n : N) (p q : List L) :
    descend next n (p ++ q) = (descend next n p).bind fun m => descend next m q := by
  induction p generalizing n with
  | nil => rfl
  | cons l p ih =>
    simp only [List.cons_append,descend]
    cases next n l with
    | stop r => rfl
    | go m => exact ih m

variable {n m root new : N} {p q : List L} {l i : L} {next' : N → L → Step N R} {key : N → K}
  {roots : Set N}

lemma descend_snoc {next : N → L → Step N R} : descend next n (p ++ [l]) = some m ↔ ∃ k,
    descend next n p = some k ∧ next k l = .go m := by
  rw [descend_append,Option.bind_eq_some_iff]
  refine exists_congr fun k => and_congr_right fun _ => ?_
  simp only [descend]
  cases next k l with
  | stop r => simp
  | go m' => simp

lemma descend_last {next : N → L → Step N R} (hm : descend next n p = some m) {k : N}
    (hk : descend next n (p ++ [l]) = some k) : next m l = .go k := by
  obtain ⟨m',hm',hgo⟩ := descend_snoc.mp hk
  cases hm.symm.trans hm'
  exact hgo

lemma follow_append {next : N → L → Step N R}
    (h : descend next n p = some m) (q : List L) : follow next n (p ++ q) = follow next m q := by
  induction p generalizing n with
  | nil =>
    cases h
    rfl
  | cons l p ih =>
    simp only [descend] at h
    simp only [List.cons_append,follow]
    cases hnx : next n l with
    | stop r =>
      rw [hnx] at h
      cases h
    | go k =>
      rw [hnx] at h
      exact ih h

lemma follow_some {next : N → L → Step N R} {ls : List L} {r : R} (h : follow next n ls = some r) :
    ∃ q i rest m, ls = q ++ i :: rest ∧ descend next n q = some m ∧ next m i = .stop r := by
  induction ls generalizing n with
  | nil => cases h
  | cons l ls ih =>
    simp only [follow] at h
    cases hnx : next n l with
    | stop x =>
      rw [hnx] at h
      cases h
      exact ⟨[],l,ls,n,rfl,rfl,hnx⟩
    | go k =>
      rw [hnx] at h
      obtain ⟨q,i,rest,m,rfl,hq,hst⟩ := ih h
      exact ⟨l :: q,i,rest,m,rfl,by simpa [descend,hnx] using hq,hst⟩

/-- From `root` the two structures differ at most in the edge `i` of node `n`. -/
def EditedAt (next next' : N → L → Step N R) (root n : N) (i : L) : Prop :=
  ∀ q m l, descend next root q = some m → m ≠ n ∨ l ≠ i → next' m l = next m l

/-- The walk along `q` reads the label `i` at the node `n`. -/
def Uses (next : N → L → Step N R) (root n : N) (i : L) (q : List L) : Prop :=
  ∃ p r, q = p ++ i :: r ∧ descend next root p = some n

lemma Uses.go {next : N → L → Step N R}
    (h : Uses next root n i q) (hq : descend next root q = some m) : ∃ k, next n i = .go k := by
  obtain ⟨p,r,rfl,hp⟩ := h
  rw [descend_append,hp] at hq
  simp only [Option.bind_some,descend] at hq
  cases hnx : next n i with
  | stop x =>
    rw [hnx] at hq
    cases hq
  | go k => exact ⟨k,rfl⟩

lemma Uses.cons {next : N → L → Step N R}
    (hl : next root l = .go m) (h : Uses next m n i q) : Uses next root n i (l :: q) := by
  obtain ⟨p,r,rfl,hp⟩ := h
  exact ⟨l :: p,r,rfl,by simpa [descend,hl] using hp⟩

lemma EditedAt.next {next : N → L → Step N R} (h : EditedAt next next' root n i)
    (hl : next root l = .go m) : EditedAt next next' m n i := by
  intro q k l' hk hne
  exact h (l :: q) k l' (by simpa [descend,hl] using hk) hne

lemma EditedAt.head {next : N → L → Step N R} (h : EditedAt next next' root n i)
    (hq : ¬ Uses next root n i (l :: q)) : next' root l = next root l := by
  refine h [] root l rfl ?_
  by_contra hbt
  push Not at hbt
  obtain ⟨rfl,rfl⟩ := hbt
  exact hq ⟨[],q,rfl,rfl⟩

lemma EditedAt.descend_eq {next : N → L → Step N R} (h : EditedAt next next' root n i)
    (hq : ¬ Uses next root n i q) : descend next' root q = descend next root q := by
  induction q generalizing root with
  | nil => rfl
  | cons l q ih =>
    simp only [descend,h.head hq]
    cases hnx : next root l with
    | stop r => rfl
    | go m => exact ih (h.next hnx) fun huse => hq (huse.cons hnx)

lemma EditedAt.follow_eq {next : N → L → Step N R} (h : EditedAt next next' root n i)
    (hq : ¬ Uses next root n i q) : follow next' root q = follow next root q := by
  induction q generalizing root with
  | nil => rfl
  | cons l q ih =>
    simp only [follow,h.head hq]
    cases hnx : next root l with
    | stop r => rfl
    | go m => exact ih (h.next hnx) fun huse => hq (huse.cons hnx)

lemma follow_congr {next : N → L → Step N R}
    (h : ∀ q m l, descend next root q = some m → next' m l = next m l) (q : List L) :
    follow next' root q = follow next root q := by
  induction q generalizing root with
  | nil => rfl
  | cons l q ih =>
    simp only [follow,h [] root l rfl]
    cases hnx : next root l with
    | stop r => rfl
    | go m =>
      refine ih fun q k l' hk => h (l :: q) k l' ?_
      simpa [descend,hnx] using hk

lemma descend_congr {next : N → L → Step N R}
    (h : ∀ q m l k, descend next root q = some m → (next' m l = .go k ↔ next m l = .go k))
    (q : List L) : descend next' root q = descend next root q := by
  induction q generalizing root with
  | nil => rfl
  | cons l q ih =>
    simp only [descend]
    cases hnx : next root l with
    | stop r =>
      cases hnx' : next' root l with
      | stop r' => rfl
      | go m =>
        have hgo := (h [] root l m rfl).mp hnx'
        rw [hnx] at hgo
        cases hgo
    | go m =>
      rw [(h [] root l m rfl).mpr hnx]
      refine ih fun q k l' k' hk => h (l :: q) k l' k' ?_
      simpa [descend,hnx] using hk

/-- A node is reached from all roots along one path only, nodes with the same key
counting as one. -/
def Unshared (key : N → K) (next : N → L → Step N R) (roots : Set N) : Prop :=
  ∀ r ∈ roots, ∀ s ∈ roots, ∀ p q m n, descend next r p = some m → descend next s q = some n →
    key m = key n → p = q

/-- An edge that stopped is now one to a node without children. -/
structure Linked (next next' : N → L → Step N R) (root n : N) (i : L) (new : N) : Prop where
  edited : EditedAt next next' root n i
  stopped : ∀ k, next n i ≠ .go k
  linked : next' n i = .go new
  leaf : ∀ l k, next' new l ≠ .go k

lemma Linked.not_uses {next : N → L → Step N R} (h : Linked next next' root n i new)
    (hq : descend next root q = some m) : ¬ Uses next root n i q := by
  intro huse
  obtain ⟨k,hk⟩ := huse.go hq
  exact h.stopped k hk

/-- The paths after the link: the old ones and the one to the new node. -/
theorem Linked.descend_cases {next : N → L → Step N R} (h : Linked next next' root n i new)
    (hq : descend next' root q = some m) : descend next root q = some m ∨ m = new ∧ ∃ p,
    q = p ++ [i] ∧ descend next root p = some n := by
  by_cases huse : Uses next root n i q
  · obtain ⟨p,r,rfl,hp⟩ := huse
    have hp' : descend next' root p = some n := by
      rw [h.edited.descend_eq (h.not_uses hp),hp]
    rw [descend_append,hp'] at hq
    simp only [Option.bind_some,descend,h.linked] at hq
    cases r with
    | nil =>
      cases hq
      exact .inr ⟨rfl,p,rfl,hp⟩
    | cons l r =>
      simp only [descend] at hq
      cases hnew : next' new l with
      | stop x =>
        rw [hnew] at hq
        cases hq
      | go k => exact (h.leaf l k hnew).elim
  · rw [h.edited.descend_eq huse] at hq
    exact .inl hq

lemma Linked.descend_old {next : N → L → Step N R} (h : Linked next next' root n i new)
    (hq : descend next root q = some m) : descend next' root q = some m := by
  rw [h.edited.descend_eq (h.not_uses hq),hq]

lemma Unshared.link {next : N → L → Step N R} (h : Unshared key next roots)
    (hln : ∀ r ∈ roots, Linked next next' r n i new)
    (hfr : ∀ r ∈ roots, ∀ q m, descend next r q = some m → key m ≠ key new) :
    Unshared key next' roots := by
  intro r hr s hs p q m k hm hk hkey
  rcases (hln r hr).descend_cases hm with hm | ⟨rfl,p',rfl,hp'⟩
  · rcases (hln s hs).descend_cases hk with hk | ⟨rfl,q',rfl,hq'⟩
    · exact h r hr s hs p q m k hm hk hkey
    · exact (hfr r hr p m hm hkey).elim
  · rcases (hln s hs).descend_cases hk with hk | ⟨rfl,q',rfl,hq'⟩
    · exact (hfr s hs q k hk hkey.symm).elim
    · rw [h r hr s hs p' q' n n hp' hq' rfl]

lemma Unshared.congr {next : N → L → Step N R} (h : Unshared key next roots)
    (hsm : ∀ r ∈ roots, ∀ q, descend next' r q = descend next r q) : Unshared key next' roots := by
  intro r hr s hs p q m n hm hn hkey
  rw [hsm r hr] at hm
  rw [hsm s hs] at hn
  exact h r hr s hs p q m n hm hn hkey

end HarlinKernel.LabelledWalk
