import Mathlib.Tactic

/-! Trees whose nodes are numbers and are linked by a first child and a next sibling. The children
of each node are a chain of links; a node is named by the labels on the way from the root. -/
namespace HarlinKernel.LinkedTree

open Function (update update_self update_of_ne)
open List (mem_cons_self mem_cons_of_mem mem_cons nodup_cons append_inj')
variable {α : Type*}

/-- The links of all nodes, the number that ends a chain and the root. -/
structure Links (α : Type*) where
  nil : ℕ
  root : ℕ
  first : ℕ → ℕ
  next : ℕ → ℕ
  parent : ℕ → ℕ
  label : ℕ → α

/-- From `c` on the links lead through the list and end. -/
def Chain (next : ℕ → ℕ) (nil : ℕ) : ℕ → List ℕ → Prop
  | c, [] => c = nil
  | c, x :: l => c = x ∧ x ≠ nil ∧ Chain next nil (next x) l

section Chain

variable {next next' : ℕ → ℕ} {nil c n x : ℕ} {l l' : List ℕ}

lemma Chain.congr (h : Chain next nil c l) (hsm : ∀ x ∈ l, next' x = next x) :
    Chain next' nil c l := by
  induction l generalizing c with
  | nil => exact h
  | cons x l ih =>
    obtain ⟨hc,hx,hrs⟩ := h
    refine ⟨hc,hx,?_⟩
    rw [hsm x mem_cons_self]
    exact ih hrs fun y hy => hsm y (mem_cons_of_mem x hy)

lemma Chain.unique (h : Chain next nil c l) (h' : Chain next nil c l') : l = l' := by
  induction l generalizing c l' with
  | nil =>
    cases l' with
    | nil => rfl
    | cons y l' => exact absurd (h'.1.symm.trans h) h'.2.1
  | cons x l ih =>
    cases l' with
    | nil => exact absurd (h.1.symm.trans h') h.2.1
    | cons y l' =>
      obtain rfl : x = y := h.1.symm.trans h'.1
      rw [ih h.2.2 h'.2.2]

lemma Chain.ne_nil (h : Chain next nil c l) (hx : x ∈ l) : x ≠ nil := by
  induction l generalizing c with
  | nil => cases hx
  | cons y l ih =>
    rcases mem_cons.mp hx with rfl | hx
    · exact h.2.1
    · exact ih h.2.2 hx

lemma Chain.suffix (h : Chain next nil c l) (hx : x ∈ l) :
    ∃ l₁ l₂, l = l₁ ++ x :: l₂ ∧ Chain next nil x (x :: l₂) := by
  induction l generalizing c with
  | nil => cases hx
  | cons y l ih =>
    rcases mem_cons.mp hx with rfl | hx
    · exact ⟨[],l,rfl,rfl,h.2⟩
    · obtain ⟨l₁,l₂,rfl,hch⟩ := ih h.2.2 hx
      exact ⟨y :: l₁,l₂,rfl,hch⟩

lemma Chain.nodup (h : Chain next nil c l) : l.Nodup := by
  induction l generalizing c with
  | nil => exact List.nodup_nil
  | cons x l ih =>
    refine nodup_cons.mpr ⟨fun hx => ?_,ih h.2.2⟩
    obtain ⟨l₁,l₂,hl,hch⟩ := h.2.2.suffix hx
    have hsm : l = l₂ := Chain.unique h.2.2 hch.2.2
    have hln := congrArg List.length hl
    rw [hsm] at hln
    simp at hln
    omega

lemma Chain.next_injective (h : Chain next nil c l) (hx : x ∈ l) (hn : n ∈ l)
    (hnx : next x = next n) : x = n := by
  obtain ⟨l₁,l₂,hl,hch⟩ := h.suffix hx
  obtain ⟨l₃,l₄,hl',hch'⟩ := h.suffix hn
  have hrs : l₂ = l₄ := Chain.unique hch.2.2 (hnx ▸ hch'.2.2)
  rw [hl,hrs] at hl'
  exact (List.cons.inj (List.append_inj_right' hl' rfl)).1

lemma Chain.unlink (h : Chain next nil c l) (hn : n ∈ l) (hc : c ≠ n) :
    ∃ x ∈ l, x ≠ n ∧ next x = n ∧ ∀ next', next' x = next n →
      (∀ y ∈ l, y ≠ x → y ≠ n → next' y = next y) → Chain next' nil c (l.erase n) := by
  induction l generalizing c with
  | nil => cases hn
  | cons x l ih =>
    obtain ⟨rfl,hx,hrs⟩ := h
    have hn' : n ∈ l := (mem_cons.mp hn).resolve_left (Ne.symm hc)
    have hnot : c ∉ l := (nodup_cons.mp (Chain.nodup ⟨rfl,hx,hrs⟩)).1
    rw [List.erase_cons_tail (by simpa using hc)]
    by_cases hnx : next c = n
    · refine ⟨c,mem_cons_self,hc,hnx,fun next' hnew hsm => ⟨rfl,hx,?_⟩⟩
      rw [hnew]
      obtain ⟨l₂,rfl⟩ : ∃ l₂, l = n :: l₂ := by
        cases l with
        | nil => cases hn'
        | cons y l₂ => exact ⟨l₂,by rw [← hnx,hrs.1]⟩
      rw [List.erase_cons_head]
      have hnd := nodup_cons.mp hrs.nodup
      refine hrs.2.2.congr fun y hy => hsm y (by simp [hy]) ?_ ?_
      · rintro rfl
        exact hnot (mem_cons_of_mem _ hy)
      · rintro rfl
        exact hnd.1 hy
    · obtain ⟨x,hx',hxn,hxx,hch⟩ := ih hrs hn' hnx
      refine ⟨x,mem_cons_of_mem _ hx',hxn,hxx,fun next' hnew hsm => ⟨rfl,hx,?_⟩⟩
      have hcx : c ≠ x := fun heq => hnot (heq ▸ hx')
      rw [hsm c mem_cons_self hcx hc]
      exact hch next' hnew fun y hy => hsm y (mem_cons_of_mem _ hy)

end Chain

/-- The labels on the way from the root to a node. -/
inductive Path (L : Links α) (kids : ℕ → List ℕ) : List α → ℕ → Prop
  | root : Path L kids [] L.root
  | child {p d c} : Path L kids p d → c ∈ kids d → Path L kids (p ++ [L.label c]) c

/-- The children of each node on a path are a chain of nodes that have it as parent and different
labels. -/
structure Tree (L : Links α) (kids : ℕ → List ℕ) : Prop where
  chain : ∀ p d, Path L kids p d → Chain L.next L.nil (L.first d) (kids d)
  parent : ∀ p d, Path L kids p d → ∀ c ∈ kids d, L.parent c = d
  root : ∀ p d, Path L kids p d → L.root ∉ kids d
  labels : ∀ p d, Path L kids p d → ∀ c ∈ kids d, ∀ c' ∈ kids d, L.label c = L.label c' → c = c'

variable {L L' : Links α} {kids : ℕ → List ℕ} {p q : List α} {a : α} {c c' d n : ℕ}

lemma Path.inv (h : Path L kids p c) : (p = [] ∧ c = L.root) ∨ ∃ p' d, Path L kids p' d ∧
    c ∈ kids d ∧ p = p' ++ [L.label c] := by
  cases h with
  | root => exact .inl ⟨rfl,rfl⟩
  | child hp hc => exact .inr ⟨_,_,hp,hc,rfl⟩

lemma Tree.path_unique (h : Tree L kids) (hc : Path L kids p c) (hc' : Path L kids p c') :
    c = c' := by
  induction hc generalizing c' with
  | root =>
    rcases hc'.inv with ⟨-,rfl⟩ | ⟨p',d,-,-,hp⟩
    · rfl
    · simp at hp
  | child hd hmem ih =>
    rcases hc'.inv with ⟨hp,-⟩ | ⟨p',d,hd',hmem',hp⟩
    · simp at hp
    · obtain ⟨rfl,hlb⟩ := append_inj' hp rfl
      obtain rfl := ih hd'
      exact h.labels _ _ hd _ hmem _ hmem' (List.singleton_injective hlb)

lemma Tree.path_injective (h : Tree L kids) (hp : Path L kids p c) (hq : Path L kids q c) :
    p = q := by
  induction hp generalizing q with
  | root =>
    rcases hq.inv with ⟨rfl,-⟩ | ⟨q',d,hd,hmem,-⟩
    · rfl
    · exact absurd hmem (h.root _ _ hd)
  | child hd hmem ih =>
    rcases hq.inv with ⟨-,rfl⟩ | ⟨q',d',hd',hmem',rfl⟩
    · exact absurd hmem (h.root _ _ hd)
    · have hpr := (h.parent _ _ hd _ hmem).symm.trans (h.parent _ _ hd' _ hmem')
      rw [ih (hpr ▸ hd')]

lemma Tree.path_child_iff (h : Tree L kids) (hd : Path L kids p d) :
    Path L kids (p ++ [a]) c ↔ c ∈ kids d ∧ L.label c = a := by
  constructor
  · intro hc
    rcases hc.inv with ⟨hp,-⟩ | ⟨p',d',hd',hmem,hp⟩
    · simp at hp
    · obtain ⟨rfl,hlb⟩ := append_inj' hp rfl
      rw [h.path_unique hd hd']
      exact ⟨hmem,(List.singleton_injective hlb).symm⟩
  · rintro ⟨hmem,rfl⟩
    exact hd.child hmem

lemma Path.ancestor (h : Path L kids (p ++ q) c) : ∃ d, Path L kids p d := by
  induction q using List.reverseRecOn generalizing c with
  | nil => exact ⟨c,by simpa using h⟩
  | append_singleton q a ih =>
    rcases h.inv with ⟨hp,-⟩ | ⟨p',d,hd,-,hp⟩
    · simp at hp
    · rw [← List.append_assoc] at hp
      obtain ⟨rfl,-⟩ := append_inj' hp rfl
      exact ih hd

lemma Path.eq_root (h : Path L kids p c) (hem : kids L.root = []) : c = L.root := by
  induction h with
  | root => rfl
  | child _ hc ih =>
    rw [ih,hem] at hc
    cases hc

/-- A new first child `n` of `d` with the label `a`. -/
structure Inserted (L : Links α) (d n : ℕ) (a : α) (L' : Links α) : Prop where
  nil : L'.nil = L.nil
  root : L'.root = L.root
  first_parent : L'.first d = n
  first_new : L'.first n = L.nil
  first : ∀ i, i ≠ d → i ≠ n → L'.first i = L.first i
  next_new : L'.next n = L.first d
  next : ∀ i, i ≠ n → L'.next i = L.next i
  parent_new : L'.parent n = d
  parent : ∀ i, i ≠ n → L'.parent i = L.parent i
  label_new : L'.label n = a
  label : ∀ i, i ≠ n → L'.label i = L.label i

/-- The children after an insertion. -/
def insertKid (kids : ℕ → List ℕ) (d n : ℕ) : ℕ → List ℕ :=
  update (update kids n []) d (n :: kids d)

lemma insertKid_parent : insertKid kids d n d = n :: kids d := update_self _ _ _

lemma insertKid_new (hne : n ≠ d) : insertKid kids d n n = [] := by
  rw [insertKid,update_of_ne hne,update_self]

lemma insertKid_other (hd : c ≠ d) (hn : c ≠ n) : insertKid kids d n c = kids c := by
  rw [insertKid,update_of_ne hd,update_of_ne hn]

/-- The paths after an insertion: the old ones and that of the new node. -/
theorem Tree.path_insert (h : Tree L kids) (hins : Inserted L d n a L') (hd : Path L kids p d)
    (hfr : ∀ q, ¬ Path L kids q n) :
    Path L' (insertKid kids d n) q c ↔ Path L kids q c ∨ (q = p ++ [a] ∧ c = n) := by
  have hnd : n ≠ d := fun heq => hfr p (heq ▸ hd)
  have hkp : ∀ q c, Path L kids q c → Path L' (insertKid kids d n) q c := by
    intro q c hq
    induction hq with
    | root => exact hins.root ▸ .root
    | @child q x c hx hc ih =>
      have hcn : c ≠ n := fun heq => hfr _ (heq ▸ hx.child hc)
      have hxn : x ≠ n := fun heq => hfr _ (heq ▸ hx)
      rw [← hins.label c hcn]
      refine ih.child ?_
      by_cases hxd : x = d
      · rw [hxd,insertKid_parent]
        exact mem_cons_of_mem n (hxd ▸ hc)
      · rwa [insertKid_other hxd hxn]
  constructor
  · intro hq
    induction hq with
    | root => exact .inl (hins.root ▸ .root)
    | @child q x c _ hc ih =>
      rcases ih with hx | ⟨-,rfl⟩
      · have hxn : x ≠ n := fun heq => hfr q (heq ▸ hx)
        have hold : c ∈ kids x → Path L kids (q ++ [L'.label c]) c := by
          intro hmem
          have hcn : c ≠ n := fun heq => hfr _ (heq ▸ hx.child hmem)
          rw [hins.label c hcn]
          exact hx.child hmem
        by_cases hxd : x = d
        · subst hxd
          rw [insertKid_parent] at hc
          rcases mem_cons.mp hc with rfl | hmem
          · exact .inr ⟨by rw [hins.label_new,h.path_injective hx hd],rfl⟩
          · exact .inl (hold hmem)
        · rw [insertKid_other hxd hxn] at hc
          exact .inl (hold hc)
      · rw [insertKid_new hnd] at hc
        cases hc
  · rintro (hq | ⟨rfl,rfl⟩)
    · exact hkp q c hq
    · rw [← hins.label_new]
      exact (hkp p d hd).child (by rw [insertKid_parent]; exact mem_cons_self)

lemma Tree.insert (h : Tree L kids) (hins : Inserted L d n a L') (hd : Path L kids p d)
    (hfr : ∀ q, ¬ Path L kids q n) (hnil : n ≠ L.nil) (hla : ∀ c ∈ kids d, L.label c ≠ a) :
    Tree L' (insertKid kids d n) := by
  have hnd : n ≠ d := fun heq => hfr p (heq ▸ hd)
  have hrt : n ≠ L.root := fun heq => hfr [] (heq ▸ .root)
  have hot : ∀ q x, Path L kids q x → x ≠ n ∧ ∀ c ∈ kids x, c ≠ n := fun q x hx =>
    ⟨fun heq => hfr q (heq ▸ hx),fun c hc heq => hfr _ (heq ▸ hx.child hc)⟩
  have hcs : ∀ q x, Path L' (insertKid kids d n) q x →
      (x = d ∧ insertKid kids d n x = n :: kids d) ∨ (x = n ∧ insertKid kids d n x = []) ∨
        (x ≠ d ∧ Path L kids q x ∧ insertKid kids d n x = kids x) := by
    intro q x hx
    rcases (h.path_insert hins hd hfr).mp hx with hx | ⟨-,rfl⟩
    · by_cases hxd : x = d
      · exact .inl ⟨hxd,hxd ▸ insertKid_parent⟩
      · exact .inr (.inr ⟨hxd,hx,insertKid_other hxd (hot q x hx).1⟩)
    · exact .inr (.inl ⟨rfl,insertKid_new hnd⟩)
  have hch : ∀ q x, Path L kids q x → Chain L'.next L.nil (L.first x) (kids x) := fun q x hx =>
    (h.chain q x hx).congr fun y hy => hins.next y ((hot q x hx).2 y hy)
  refine ⟨fun q x hx => ?_,fun q x hx c hc => ?_,fun q x hx => ?_,fun q x hx c hc c' hc' heq => ?_⟩
  · rw [hins.nil]
    rcases hcs q x hx with ⟨rfl,hkd⟩ | ⟨rfl,hkd⟩ | ⟨hxd,hx,hkd⟩
    · rw [hkd,hins.first_parent]
      exact ⟨rfl,hnil,hins.next_new ▸ hch p x hd⟩
    · rw [hkd,hins.first_new]
      exact rfl
    · rw [hkd,hins.first x hxd (hot q x hx).1]
      exact hch q x hx
  · rcases hcs q x hx with ⟨rfl,hkd⟩ | ⟨rfl,hkd⟩ | ⟨hxd,hx,hkd⟩ <;> rw [hkd] at hc
    · rcases mem_cons.mp hc with rfl | hc
      · exact hins.parent_new
      · rw [hins.parent c ((hot p x hd).2 c hc)]
        exact h.parent p x hd c hc
    · cases hc
    · rw [hins.parent c ((hot q x hx).2 c hc)]
      exact h.parent q x hx c hc
  · rw [hins.root]
    rcases hcs q x hx with ⟨rfl,hkd⟩ | ⟨rfl,hkd⟩ | ⟨hxd,hx,hkd⟩ <;> rw [hkd]
    · intro hmem
      rcases mem_cons.mp hmem with heq | hmem
      · exact hrt heq.symm
      · exact h.root p x hd hmem
    · exact List.not_mem_nil
    · exact h.root q x hx
  · have hlb : ∀ q x, Path L kids q x → ∀ c ∈ kids x, ∀ c' ∈ kids x,
        L'.label c = L'.label c' → c = c' := by
      intro q x hx c hc c' hc' heq
      rw [hins.label c ((hot q x hx).2 c hc),hins.label c' ((hot q x hx).2 c' hc')] at heq
      exact h.labels q x hx c hc c' hc' heq
    have hnew : ∀ c ∈ kids d, L'.label c ≠ L'.label n := by
      intro c hc
      rw [hins.label_new,hins.label c ((hot p d hd).2 c hc)]
      exact hla c hc
    rcases hcs q x hx with ⟨rfl,hkd⟩ | ⟨rfl,hkd⟩ | ⟨hxd,hx,hkd⟩ <;> rw [hkd] at hc hc'
    · rcases mem_cons.mp hc with rfl | hold <;> rcases mem_cons.mp hc' with rfl | hold'
      · rfl
      · exact absurd heq.symm (hnew c' hold')
      · exact absurd heq (hnew c hold)
      · exact hlb p x hd c hold c' hold' heq
    · cases hc
    · exact hlb q x hx c hc c' hc' heq

/-- The child `n` is taken out of the chain of `d`; nothing is said about its own links. -/
structure Removed (L : Links α) (kids : ℕ → List ℕ) (d n : ℕ) (L' : Links α) : Prop where
  nil : L'.nil = L.nil
  root : L'.root = L.root
  chain : Chain L'.next L.nil (L'.first d) ((kids d).erase n)
  first : ∀ i, i ≠ d → i ≠ n → L'.first i = L.first i
  next : ∀ i, i ∉ kids d → L'.next i = L.next i
  parent : ∀ i, i ≠ n → L'.parent i = L.parent i
  label : ∀ i, i ≠ n → L'.label i = L.label i

def removeKid (kids : ℕ → List ℕ) (d n : ℕ) : ℕ → List ℕ :=
  update kids d ((kids d).erase n)

lemma removeKid_parent : removeKid kids d n d = (kids d).erase n := update_self _ _ _

lemma removeKid_other (hd : c ≠ d) : removeKid kids d n c = kids c := update_of_ne hd _ _

lemma mem_removeKid (h : Tree L kids) (hd : Path L kids p d) (hn : n ∈ kids d) {x : ℕ}
    (hx : Path L kids q x) : c ∈ removeKid kids d n x ↔ c ∈ kids x ∧ c ≠ n := by
  by_cases hxd : x = d
  · subst hxd
    rw [removeKid_parent,(h.chain q x hx).nodup.mem_erase_iff]
    exact and_comm
  · rw [removeKid_other hxd,iff_self_and]
    rintro hc rfl
    exact hxd ((h.parent q x hx c hc).symm.trans (h.parent p d hd c hn))

/-- The paths after a removal: those that do not lead through the node. -/
theorem Tree.path_remove (h : Tree L kids) (hrem : Removed L kids d n L') (hd : Path L kids p d)
    (hn : n ∈ kids d) :
    Path L' (removeKid kids d n) q c ↔ Path L kids q c ∧ ¬ p ++ [L.label n] <+: q := by
  constructor
  · intro hq
    induction hq with
    | root => exact ⟨hrem.root ▸ .root,by simp⟩
    | @child q x c _ hc ih =>
      obtain ⟨hx,hout⟩ := ih
      obtain ⟨hc,hcn⟩ := (mem_removeKid h hd hn hx).mp hc
      rw [hrem.label c hcn]
      refine ⟨hx.child hc,fun hpre => ?_⟩
      rcases List.prefix_concat_iff.mp hpre with heq | hpre
      · exact hcn (h.path_unique (hx.child hc) (heq ▸ hd.child hn))
      · exact hout hpre
  · rintro ⟨hq,hout⟩
    induction hq with
    | root => exact hrem.root ▸ .root
    | @child q x c hx hc ih =>
      have hcn : c ≠ n := by
        rintro rfl
        have heq := h.path_injective (hx.child hc) (hd.child hn)
        exact hout (heq ▸ List.prefix_refl _)
      rw [← hrem.label c hcn]
      refine (ih fun hpre => hout (hpre.trans (List.prefix_append _ _))).child ?_
      exact (mem_removeKid h hd hn hx).mpr ⟨hc,hcn⟩

lemma Tree.remove (h : Tree L kids) (hrem : Removed L kids d n L') (hd : Path L kids p d)
    (hn : n ∈ kids d) : Tree L' (removeKid kids d n) := by
  have hold : ∀ q x, Path L' (removeKid kids d n) q x → Path L kids q x ∧ x ≠ n := by
    intro q x hx
    obtain ⟨hold,hout⟩ := (h.path_remove hrem hd hn).mp hx
    refine ⟨hold,?_⟩
    rintro rfl
    exact hout (h.path_injective (hd.child hn) hold ▸ List.prefix_refl _)
  refine ⟨fun q x hx => ?_,fun q x hx c hc => ?_,fun q x hx => ?_,fun q x hx c hc c' hc' heq => ?_⟩
  · obtain ⟨hx,hxn⟩ := hold q x hx
    rw [hrem.nil]
    by_cases hxd : x = d
    · rw [hxd,removeKid_parent]
      exact hrem.chain
    · rw [removeKid_other hxd,hrem.first x hxd hxn]
      refine (h.chain q x hx).congr fun y hy => hrem.next y fun hy' => hxd ?_
      exact (h.parent q x hx y hy).symm.trans (h.parent p d hd y hy')
  · obtain ⟨hx,-⟩ := hold q x hx
    obtain ⟨hc,hcn⟩ := (mem_removeKid h hd hn hx).mp hc
    rw [hrem.parent c hcn]
    exact h.parent q x hx c hc
  · obtain ⟨hx,-⟩ := hold q x hx
    rw [hrem.root]
    exact fun hmem => h.root q x hx ((mem_removeKid h hd hn hx).mp hmem).1
  · obtain ⟨hx,-⟩ := hold q x hx
    obtain ⟨hc,hcn⟩ := (mem_removeKid h hd hn hx).mp hc
    obtain ⟨hc',hcn'⟩ := (mem_removeKid h hd hn hx).mp hc'
    rw [hrem.label c hcn,hrem.label c' hcn'] at heq
    exact h.labels q x hx c hc c' hc' heq

end HarlinKernel.LinkedTree
