import HarlinKernel.FatTable

/-! Chains of clusters in the file allocation table: the walks along a chain, its extension and
the freeing of its end. -/
namespace HarlinKernel.Fat32

/-- The successor of a cluster, with one number for all marks that end a chain. -/
def follow (fat : ℕ → ℕ) (c : ℕ) : ℕ := if fat32Eoc ≤ fat c then fat32Eoc else fat c

/-- From a cluster on the FAT leads through the list and ends. -/
structure FatChain (g : Geometry) (fat : ℕ → ℕ) (c : ℕ) (l : List ℕ) : Prop where
  chain : LinkedTree.Chain (follow fat) fat32Eoc c l
  valid : ∀ x ∈ l, g.Valid x

section Chains

variable {g : Geometry} {fat fat' : ℕ → ℕ} {c x y z new : ℕ} {l l' : List ℕ}

lemma FatChain.congr_follow (h : FatChain g fat c l)
    (hsm : ∀ x ∈ l, follow fat' x = follow fat x) : FatChain g fat' c l :=
  ⟨h.chain.congr hsm,h.valid⟩

lemma FatChain.congr (h : FatChain g fat c l) (hsm : ∀ x ∈ l, fat' x = fat x) :
    FatChain g fat' c l := by
  refine h.congr_follow fun x hx => ?_
  rw [follow,follow,hsm x hx]

lemma FatChain.nodup (h : FatChain g fat c l) : l.Nodup := h.chain.nodup

lemma FatChain.head (h : FatChain g fat c (x :: l)) : c = x := h.chain.1

lemma FatChain.tail (h : FatChain g fat c (x :: l)) : FatChain g fat (follow fat x) l :=
  ⟨h.chain.2.2,fun y hy => h.valid y (List.mem_cons_of_mem x hy)⟩

lemma FatChain.next (hg : g.Sound) (h : FatChain g fat c (x :: y :: l)) : fat x = y := by
  have hy : follow fat x = y := h.tail.head
  have hlt := hg.lt_eoc (h.valid y (by simp)).2
  rw [follow] at hy
  split_ifs at hy
  · omega
  · exact hy

lemma FatChain.last (h : FatChain g fat c [x]) : fat32Eoc ≤ fat x := by
  have hend : follow fat x = fat32Eoc := h.chain.2.2
  rw [follow] at hend
  split_ifs at hend with heoc
  · exact heoc
  · omega

lemma FatChain.cons (hg : g.Sound) (hx : g.Valid x) (h : FatChain g fat y l)
    (hy : follow fat x = y) : FatChain g fat x (x :: l) := by
  have hne : x ≠ fat32Eoc := (hg.lt_eoc hx.2).ne
  refine ⟨⟨rfl,hne,by rw [hy]; exact h.chain⟩,fun z hz => ?_⟩
  rcases List.mem_cons.mp hz with rfl | hz
  · exact hx
  · exact h.valid z hz

lemma FatChain.cell_ne_zero (h : FatChain g fat c l) (hx : x ∈ l) : fat x ≠ 0 := by
  induction l generalizing c with
  | nil => cases hx
  | cons z l ih =>
    rcases List.mem_cons.mp hx with rfl | hx
    · intro hzr
      have hfl : follow fat x = 0 := by simp [follow,hzr,fat32Eoc]
      have htl := h.tail
      rw [hfl] at htl
      cases l with
      | nil => exact absurd htl.chain (by simp [LinkedTree.Chain,fat32Eoc])
      | cons y l =>
        have hy := (htl.valid y (by simp)).1
        have hhd := htl.head
        omega
    · exact ih h.tail hx

lemma FatChain.concat (h : FatChain g fat c (l ++ [z])) : fat32Eoc ≤ fat z := by
  induction l generalizing c with
  | nil => exact h.last
  | cons x l ih => exact ih h.tail

lemma FatChain.concat_next (hg : g.Sound) (h : FatChain g fat c (l ++ z :: y :: l')) :
    fat z = y := by
  induction l generalizing c with
  | nil => exact h.next hg
  | cons x l ih => exact ih h.tail

lemma FatChain.snoc (hg : g.Sound) (h : FatChain g fat c (l ++ [z])) (hnew : g.Valid new)
    (hz : fat' z = new) (hend : fat32Eoc ≤ fat' new) (hsm : ∀ x ∈ l, fat' x = fat x) :
    FatChain g fat' c (l ++ [z,new]) := by
  induction l generalizing c with
  | nil =>
    have hc : c = z := h.head
    have hlt := hg.lt_eoc hnew.2
    have hls : FatChain g fat' new [new] := by
      refine FatChain.cons hg hnew ⟨?_,by simp⟩ rfl
      simp [LinkedTree.Chain,follow,hend]
    rw [hc]
    refine hls.cons hg (h.valid z (by simp)) ?_
    rw [follow,hz,if_neg (by omega)]
  | cons x l ih =>
    have hc : c = x := h.head
    have hfl : follow fat' x = follow fat x := by
      rw [follow,follow,hsm x (by simp)]
    rw [hc]
    refine FatChain.cons hg (h.valid x (by simp)) (ih h.tail fun y hy => ?_) hfl
    exact hsm y (by simp [hy])

lemma FatChain.suffix (h : FatChain g fat c l) (hx : x ∈ l) :
    ∃ l₁ l₂, l = l₁ ++ x :: l₂ ∧ FatChain g fat x (x :: l₂) := by
  obtain ⟨l₁,l₂,hl,hch⟩ := h.chain.suffix hx
  refine ⟨l₁,l₂,hl,hch,fun y hy => h.valid y ?_⟩
  rw [hl]
  exact List.mem_append_right _ hy

lemma FatChain.length_le (h : FatChain g fat c l) : l.length ≤ g.totalClusters := by
  have hsub : l ⊆ List.range g.totalClusters := fun x hx => List.mem_range.mpr (h.valid x hx).2
  have hln := (h.nodup.subperm hsub).length_le
  simpa using hln

end Chains

variable {z x : ℕ} {e : Device} {fat : ℕ → ℕ}

section Walks

variable {g : Geometry} {d : Device} {c : ℕ} {l : List ℕ}

lemma walkToEnd_spec (hg : g.Sound) (walk count : ℕ) (hd : FatServed g d)
    (h : FatChain g (cell g d.byte) c (l ++ [z])) (hwl : l.length < walk) :
    walkToEnd g walk d c count = (some (z,count+l.length+1),d.tick (l.length+1)) := by
  induction l generalizing d c walk count with
  | nil =>
    obtain ⟨walk,rfl⟩ : ∃ w, walk = w+1 := ⟨walk-1,by simp at hwl; omega⟩
    have hc : c = z := h.head
    subst hc
    have hvl := h.valid c (by simp)
    have hend := h.last
    have hlt := hg.lt_eoc hvl.2
    rw [walkToEnd,nextCluster_ok hg.fits hd hvl.2]
    rw [if_neg (by omega),if_pos hend]
    rfl
  | cons x l ih =>
    obtain ⟨walk,rfl⟩ : ∃ w, walk = w+1 := ⟨walk-1,by simp at hwl; omega⟩
    have hc : c = x := h.head
    subst hc
    have hvl := h.valid c (by simp)
    obtain ⟨y,m,hy⟩ : ∃ y m, l ++ [z] = y :: m := by
      cases l with
      | nil => exact ⟨z,[],rfl⟩
      | cons y l => exact ⟨y,l ++ [z],rfl⟩
    have hls : c :: l ++ [z] = c :: y :: m := by rw [← hy]; rfl
    have hnx : cell g d.byte c = y := (hls ▸ h).next hg
    have hne : y ≠ c := by
      have hnd := (hls ▸ h).nodup
      simp only [List.nodup_cons,List.mem_cons,not_or] at hnd
      exact Ne.symm hnd.1.1
    have hlt := hg.lt_eoc ((hls ▸ h).valid y (by simp)).2
    have htl : FatChain g (cell g d.byte) y (l ++ [z]) := by
      have htl := h.tail
      rwa [follow,hnx,if_neg (by omega)] at htl
    rw [walkToEnd,nextCluster_ok hg.fits hd hvl.2]
    simp only [hnx]
    rw [if_neg hne,if_neg (by omega),ih walk (count+1) (d := d.tick 1) hd htl
      (by simp at hwl; omega),tick_tick]
    simp only [List.length_cons,Prod.mk.injEq,Option.some.injEq,true_and]
    exact ⟨by omega,by rw [Nat.add_comm 1]⟩

/-- What the appending of clusters to a chain has done: the new clusters were free, and the rest
of the FAT is as before but for the end of the chain. -/
structure Extended (g : Geometry) (c : ℕ) (l : List ℕ) (z : ℕ) (new : List ℕ) (d e : Device) :
    Prop where
  chain : FatChain g (cell g e.byte) c (l ++ z :: new)
  free : ∀ x ∈ new, g.Valid x ∧ cell g d.byte x = 0
  others : ∀ x < g.totalClusters, x ∉ new → x ≠ z → cell g e.byte x = cell g d.byte x
  only : FatOnly g d e

lemma appendClusters_spec (hg : g.Sound) (n : ℕ) (hd : FatServed g d)
    (h : FatChain g (cell g d.byte) c (l ++ [z])) :
    ∃ new, Extended g c l z new d (appendClusters g n d z).2 ∧
      (((appendClusters g n d z).1 = true ∧ new.length = n) ∨
        ((appendClusters g n d z).1 = false ∧ new.length < n ∧
          ∀ x, g.Valid x → cell g (appendClusters g n d z).2.byte x ≠ 0)) := by
  induction n generalizing d l z with
  | zero =>
    exact ⟨[],⟨h,by simp,fun _ _ _ _ => rfl,.refl d⟩,.inl ⟨rfl,rfl⟩⟩
  | succ n ih =>
    rw [appendClusters]
    rcases allocateCluster_spec hg.fits hd with ⟨new,hsm,hvl,hfr,hset⟩ | ⟨hno,hus,k,hk⟩
    · -- the new cluster is linked behind the last one
      have hz := h.valid z (by simp)
      obtain ⟨hok,hln⟩ := writeFatEntry_spec hg.fits (hset.only.served hd) hz.2 new
      simp only [hsm]
      rw [linkCluster,hok]
      simp only [if_true]
      generalize (writeFatEntry g (allocateCluster g d).2 z new).2 = e at hln ⊢
      have hcl (x : ℕ) (hx : x < g.totalClusters) : cell g e.byte x =
          if x = z then new else if x = new then fat32Eoc else cell g d.byte x := by
        have hmod : new % 2^28 = new := by
          have hlt := hg.lt_eoc hvl.2
          exact Nat.mod_eq_of_lt (by rw [fat32Eoc] at hlt; omega)
        rw [hln.cell x hx,hset.cell x hx,hmod]
        rfl
      have hnt : new ∉ l ++ [z] := fun hmem => h.cell_ne_zero hmem hfr
      have hnew : new ≠ z := fun heq => hnt (by simp [heq])
      have hch : FatChain g (cell g e.byte) c (l ++ [z] ++ [new]) := by
        rw [List.append_assoc]
        refine h.snoc hg hvl ?_ ?_ ?_
        · rw [hcl z hz.2,if_pos rfl]
        · rw [hcl new hvl.2,if_neg hnew,if_pos rfl]
        intro x hx
        have hxz : x ≠ z := by
          rintro rfl
          have hnd := h.nodup
          rw [List.nodup_append] at hnd
          exact hnd.2.2 x hx x (by simp) rfl
        have hxn : x ≠ new := fun heq => hnt (by simp [← heq,hx])
        rw [hcl x (h.valid x (by simp [hx])).2,if_neg hxz,if_neg hxn]
      have hde : FatOnly g d e := hset.only.trans hln.only
      obtain ⟨rest,hext,hres⟩ := ih (hde.served hd) hch
      have hrs : ∀ x ∈ rest, x ≠ new ∧ x ≠ z := by
        intro x hx
        have hzr := (hext.free x hx).2
        constructor
        · rintro rfl
          exact hch.cell_ne_zero (by simp) hzr
        · rintro rfl
          exact hch.cell_ne_zero (by simp) hzr
      refine ⟨new :: rest,⟨?_,?_,?_,hde.trans hext.only⟩,?_⟩
      · have has : l ++ z :: new :: rest = l ++ [z] ++ new :: rest := by simp
        rw [has]
        exact hext.chain
      · intro x hx
        rcases List.mem_cons.mp hx with rfl | hx
        · exact ⟨hvl,hfr⟩
        · obtain ⟨hxv,hzr⟩ := hext.free x hx
          rw [hcl x hxv.2,if_neg (hrs x hx).2,if_neg (hrs x hx).1] at hzr
          exact ⟨hxv,hzr⟩
      · intro x hx hmem hxz
        simp only [List.mem_cons,not_or] at hmem
        rw [hext.others x hx hmem.2 hmem.1,hcl x hx,if_neg hxz,if_neg hmem.1]
      · rcases hres with ⟨htr,hlen⟩ | ⟨hfl,hlen,hfu⟩
        · exact .inl ⟨htr,by simp [hlen]⟩
        · exact .inr ⟨hfl,by simp [hlen],hfu⟩
    · simp only [hno,hk]
      exact ⟨[],⟨h,by simp,fun _ _ _ _ => rfl,(FatOnly.refl d).tick k⟩,
        .inr ⟨trivial,by simp,hus⟩⟩

/-- The entries of some clusters have been set to 0. -/
structure Freed (g : Geometry) (l : List ℕ) (d e : Device) : Prop where
  cell : ∀ x < g.totalClusters, cell g e.byte x = if x ∈ l then 0 else cell g d.byte x
  only : FatOnly g d e

lemma Freed.nil (d : Device) (n : ℕ) : Freed g [] d (d.tick n) :=
  ⟨fun _ _ => by simp,(FatOnly.refl d).tick n⟩

lemma Freed.cons {k : Device} (h : CellSet g x 0 d e) (h' : Freed g l e k) :
    Freed g (x :: l) d k := by
  refine ⟨fun y hy => ?_,h.only.trans h'.only⟩
  rw [h'.cell y hy,h.cell y hy]
  by_cases hyx : y = x <;> simp [hyx]

/-- A number that continues a chain, or one of the marks that end it. -/
def Leads (g : Geometry) (fat : ℕ → ℕ) (c : ℕ) (l : List ℕ) : Prop :=
  FatChain g fat (if fat32Eoc ≤ c then fat32Eoc else c) l

lemma Leads.of_chain (hg : g.Sound) (h : FatChain g fat x (x :: l)) : Leads g fat x (x :: l) := by
  have hlt := hg.lt_eoc (h.valid x (by simp)).2
  rwa [Leads,if_neg (by omega)]

lemma FatChain.leads (h : FatChain g fat c (x :: l)) :
    Leads g fat (fat x) l := h.tail

lemma Leads.cons (hg : g.Sound) (h : Leads g fat c (x :: l)) :
    c = x ∧ c < fat32Eoc ∧ FatChain g fat x (x :: l) := by
  have hhd : (if fat32Eoc ≤ c then fat32Eoc else c) = x := FatChain.head h
  have hlt := hg.lt_eoc (FatChain.valid h x (by simp)).2
  rw [Leads,hhd] at h
  split_ifs at hhd
  · omega
  · exact ⟨hhd,by omega,h⟩

lemma Leads.nil (h : Leads g fat c []) : fat32Eoc ≤ c := by
  have hend : (if fat32Eoc ≤ c then fat32Eoc else c) = fat32Eoc := FatChain.chain h
  split_ifs at hend <;> omega

lemma Leads.congr {fat' : ℕ → ℕ} (h : Leads g fat c l) (hsm : ∀ x ∈ l, fat' x = fat x) :
    Leads g fat' c l := FatChain.congr h hsm

lemma FatChain.leads_freed (h : FatChain g (cell g d.byte) c (c :: l))
    (hset : CellSet g c 0 (d.tick 1) e) : Leads g (cell g e.byte) (cell g d.byte c) l := by
  refine h.leads.congr fun y hy => ?_
  have hyc : y ≠ c := fun heq => (List.nodup_cons.mp h.nodup).1 (heq ▸ hy)
  rw [hset.cell y (h.valid y (by simp [hy])).2,if_neg hyc]
  rfl

lemma truncateWalk_spec (hg : g.Sound) {l₁ l₂ : List ℕ} (prev : ℕ) (hd : FatServed g d)
    (h : Leads g (cell g d.byte) c (l₁ ++ l₂)) : ∃ c', truncateWalk g l₁.length d prev c =
    ((l₁.getLast?.getD prev,c'),d.tick l₁.length) ∧ Leads g (cell g d.byte) c' l₂ := by
  induction l₁ generalizing d c prev with
  | nil => exact ⟨c,rfl,h⟩
  | cons x l₁ ih =>
    obtain ⟨rfl,hlt,hch⟩ := Leads.cons hg h
    have hvl := hch.valid c (by simp)
    obtain ⟨c',hwl,hld⟩ := ih c (d := d.tick 1) hd hch.leads
    refine ⟨c',?_,hld⟩
    rw [List.length_cons,truncateWalk,if_pos hlt,nextCluster_ok hg.fits hd hvl.2]
    rw [hwl,tick_tick,Nat.add_comm 1]
    cases l₁ with
    | nil => rfl
    | cons y l₁ => simp [List.getLast?_cons]

lemma truncateFree_spec (hg : g.Sound) (fuel : ℕ) {prev : ℕ} (hd : FatServed g d)
    (h : Leads g (cell g d.byte) c l) {r : ℕ × Bool × Device}
    (hr : truncateFree g fuel d prev c true = some r) :
    r.1 = (if l = [] then prev else 0) ∧ Freed g l d r.2.2 := by
  induction l generalizing d c fuel prev with
  | nil =>
    cases fuel with
    | zero => cases hr
    | succ fuel =>
      have heoc := h.nil
      rw [truncateFree,if_neg (by omega)] at hr
      cases hr
      exact ⟨rfl,.nil d 0⟩
  | cons x l ih =>
    cases fuel with
    | zero => cases hr
    | succ fuel =>
      obtain ⟨rfl,hlt,hch⟩ := h.cons hg
      have hvl := hch.valid c (by simp)
      obtain ⟨hok,hset⟩ := writeFatEntry_spec hg.fits (d := d.tick 1) hd hvl.2 0
      rw [truncateFree,if_pos hlt,nextCluster_ok hg.fits hd hvl.2] at hr
      simp only [linkCluster,hok,Bool.and_self] at hr
      obtain ⟨hpr,hfr⟩ := ih fuel (hset.only.served hd) (hch.leads_freed hset) hr
      refine ⟨?_,.cons ⟨hset.cell,((FatOnly.refl d).tick 1).trans hset.only⟩ hfr⟩
      rw [hpr]
      simp

lemma freeChain_spec (hg : g.Sound) (fuel : ℕ) (hd : FatServed g d)
    (h : Leads g (cell g d.byte) c l) (he : freeChain g fuel d c = some e) : Freed g l d e := by
  induction l generalizing d c fuel with
  | nil =>
    cases fuel with
    | zero => cases he
    | succ fuel =>
      have heoc := h.nil
      rw [freeChain,if_neg (by omega)] at he
      obtain rfl := Option.some.inj he
      exact .nil d 0
  | cons x l ih =>
    cases fuel with
    | zero => cases he
    | succ fuel =>
      obtain ⟨rfl,hlt,hch⟩ := h.cons hg
      have hvl := hch.valid c (by simp)
      obtain ⟨-,hset⟩ := writeFatEntry_spec hg.fits (d := d.tick 1) hd hvl.2 0
      rw [freeChain,if_pos ⟨hvl.1,hlt⟩,nextCluster_ok hg.fits hd hvl.2] at he
      simp only at he
      exact .cons ⟨hset.cell,((FatOnly.refl d).tick 1).trans hset.only⟩
        (ih fuel (hset.only.served hd) (hch.leads_freed hset) he)

end Walks

section Freeing

variable {g : Geometry} {d : Device} {c m : ℕ} {fat' : ℕ → ℕ}

/-- The clusters that the freeing loop visits from a cluster on, each by the entry of the one
before as long as that is the number of a cluster. -/
inductive Visited (fat : ℕ → ℕ) (c : ℕ) : ℕ → Prop
  | start (h : 2 ≤ c ∧ c < fat32Eoc) : Visited fat c c
  | next {x : ℕ} (h : Visited fat c x) (hx : 2 ≤ fat x ∧ fat x < fat32Eoc) : Visited fat c (fat x)

lemma not_visited (hc : ¬(2 ≤ c ∧ c < fat32Eoc)) : ¬Visited fat c x := by
  intro h
  induction h with
  | start h => exact hc h
  | next _ _ ih => exact ih

lemma visited_iff (hc : 2 ≤ c ∧ c < fat32Eoc)
    (hsm : ∀ y, Visited fat c y → fat' y = if y = c then 0 else fat y) :
    Visited fat c x ↔ x = c ∨ Visited fat' (fat c) x := by
  constructor
  · intro h
    induction h with
    | start => exact .inl rfl
    | @next y h hy ih =>
      right
      by_cases hyc : y = c
      · subst hyc
        exact .start hy
      · have heq := hsm y h
        rw [if_neg hyc] at heq
        rw [← heq] at hy ⊢
        exact (ih.resolve_left hyc).next hy
  · rintro (rfl | h)
    · exact .start hc
    · induction h with
      | start h => exact (Visited.start hc).next h
      | @next y _ hy ih =>
        have heq := hsm y ih
        split_ifs at heq
        · omega
        · rw [heq] at hy ⊢
          exact ih.next hy

/-- The entries of the visited clusters are 0 in each copy of the FAT, and nothing else differs. -/
structure ChainFreed (g : Geometry) (c : ℕ) (d e : Device) : Prop where
  visited : ∀ fat < g.numberOfFats, ∀ x, Visited (cell g d.byte) c x →
    readLe32 e.byte (g.cellAddress fat x) = 0
  other : ∀ fat < g.numberOfFats, ∀ x < 128*g.sectorsPerFat, ¬Visited (cell g d.byte) c x →
    readLe32 e.byte (g.cellAddress fat x) = readLe32 d.byte (g.cellAddress fat x)
  only : FatOnly g d e

/-- The number of a cluster with an entry in the FAT, or one at which a walk ends. -/
def Geometry.Link (g : Geometry) (v : ℕ) : Prop := v < 2 ∨ v < 128*g.sectorsPerFat ∨ fat32Eoc ≤ v

lemma Geometry.Link.lt (h : g.Link c) (hc : 2 ≤ c ∧ c < fat32Eoc) : c < 128*g.sectorsPerFat := by
  rcases h with h | h | h <;> omega

lemma cleared_card_lt (hc : c < m) (hne : fat c ≠ 0)
    (hsm : ∀ x < m, fat' x = if x = c then 0 else fat x) :
    ((Finset.range m).filter fun x => fat' x ≠ 0).card <
      ((Finset.range m).filter fun x => fat x ≠ 0).card := by
  refine Finset.card_lt_card ((Finset.ssubset_iff_of_subset ?_).2 ⟨c,?_,?_⟩)
  · intro x hx
    simp only [Finset.mem_filter,Finset.mem_range] at hx ⊢
    refine ⟨hx.1,fun hzr => hx.2 ?_⟩
    rw [hsm x hx.1,hzr,ite_self]
  · simp [hc,hne]
  · simp [hsm c hc]

lemma freeChain_out (hc : ¬(2 ≤ c ∧ c < fat32Eoc)) :
    freeChain g 1 d c = some d ∧ ChainFreed g c d d :=
  ⟨if_neg hc,fun _ _ _ h => (not_visited hc h).elim,fun _ _ _ _ _ => rfl,.refl d⟩

/-- The freeing loop ends whatever the FAT links: each round clears an entry or comes to one
that is clear. -/
theorem chain_freeing_exact (hfats : 0 < g.numberOfFats)
    (hlt : g.reservedSectors+g.numberOfFats*g.sectorsPerFat < 2^32) (hd : FatServed g d)
    (hcells : ∀ x < 128*g.sectorsPerFat, g.Link (cell g d.byte x)) (hc : g.Link c) :
    ∃ fuel e, freeChain g fuel d c = some e ∧ ChainFreed g c d e := by
  -- on the number of entries that are not clear
  induction hn : ((Finset.range (128*g.sectorsPerFat)).filter fun x => cell g d.byte x ≠ 0).card
    using Nat.strong_induction_on generalizing d c with
  | _ n ih =>
    by_cases hrn : 2 ≤ c ∧ c < fat32Eoc
    · have hin := hc.lt hrn
      have hg : g.Fits (min (128*g.sectorsPerFat) fat32Eoc) :=
        ⟨hfats,min_le_left _ _,(min_le_right _ _).trans (by decide),hlt⟩
      have hc' : c < min (128*g.sectorsPerFat) fat32Eoc := lt_min hin hrn.2
      obtain ⟨-,hst,hon⟩ := writeFatEntry_copies hg (d := d.tick 1) hd hc' 0
      obtain ⟨d₁,hd₁⟩ : ∃ d₁, d₁ = (writeFatEntry g (d.tick 1) c 0).2 := ⟨_,rfl⟩
      rw [← hd₁] at hst hon
      have hcl : ∀ x < 128*g.sectorsPerFat,
          cell g d₁.byte x = if x = c then 0 else cell g d.byte x := fun x => hst.cell hfats
      have hvs : ∀ x, Visited (cell g d.byte) c x → x < 128*g.sectorsPerFat := by
        intro x h
        induction h with
        | start => exact hin
        | @next y _ hy ih => exact (hcells y ih).lt hy
      have hiff := fun x => visited_iff (x := x) hrn fun y hy => hcl y (hvs y hy)
      obtain ⟨fuel,e,he,hfr⟩ : ∃ fuel e, freeChain g fuel d₁ (cell g d.byte c) = some e ∧
          ChainFreed g (cell g d.byte c) d₁ e := by
        by_cases hnx : 2 ≤ cell g d.byte c ∧ cell g d.byte c < fat32Eoc
        · refine ih _ ?_ (hon.served hd) (fun x hx => ?_) (hcells c hin) rfl
          · rw [← hn]
            exact cleared_card_lt hin (by omega) hcl
          · rw [hcl x hx]
            split_ifs
            · exact .inl two_pos
            · exact hcells x hx
        · obtain ⟨hno,hfr⟩ := freeChain_out (g := g) (d := d₁) hnx
          exact ⟨1,d₁,hno,hfr⟩
      refine ⟨fuel+1,e,?_,fun fat hfat x hx => ?_,fun fat hfat x hx hnot => ?_,
        (((FatOnly.refl d).tick 1).trans hon).trans hfr.only⟩
      · rw [freeChain,if_pos hrn,nextCluster_ok hg hd hc']
        simp only
        rw [← hd₁]
        exact he
      · by_cases hv : Visited (cell g d₁.byte) (cell g d.byte c) x
        · exact hfr.visited fat hfat x hv
        · rw [hfr.other fat hfat x (hvs x hx) hv,hst fat hfat x (hvs x hx),
            if_pos (((hiff x).1 hx).resolve_right hv),Nat.zero_mod]
      · have hnot' := not_or.1 (mt (hiff x).2 hnot)
        rw [hfr.other fat hfat x hx hnot'.2,hst fat hfat x hx,if_neg hnot'.1]
        rfl
    · obtain ⟨hno,hfr⟩ := freeChain_out (g := g) (d := d) hrn
      exact ⟨1,d,hno,hfr⟩

/-- A FAT whose clusters 2 and 3 lead to each other. -/
def circularFat : Buffer := writeLe32 (writeLe32 (fun _ => 0) 520 3) 524 2

theorem chain_freeing_exact_circular : ∃ fuel e,
    freeChain blankVolume.1 fuel { blankVolume.2 with byte := circularFat } 2 = some e ∧
      ChainFreed blankVolume.1 2 { blankVolume.2 with byte := circularFat } e := by
  refine chain_freeing_exact (by decide) (by decide) (fun _ _ _ => ⟨rfl,rfl⟩) ?_ ?_
  · unfold Geometry.Link
    decide
  · exact .inr (.inl (by decide))

end Freeing

end HarlinKernel.Fat32
