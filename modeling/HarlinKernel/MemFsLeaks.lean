import HarlinKernel.MemFsTree

/-! Which nodes of the pool are in use: those of the tree, as long as nothing is removed that still
has entries. -/
namespace HarlinKernel.MemFs

open TransitionSystem LinkedTree

/-- From `c` on the links to the next sibling lead to `x`. -/
inductive Listed (m : Nodes) : ℕ → ℕ → Prop
  | here {c} : c ≠ noNode → Listed m c c
  | there {c x} : c ≠ noNode → Listed m (m c).nextSibling x → Listed m c x

/-- Nodes that links lead to from node 0. -/
inductive Reachable (m : Nodes) : ℕ → Prop
  | root : Reachable m 0
  | child {d c} : Reachable m d → Listed m (m d).firstChild c → Reachable m c

/-- The nodes in use are in the tree, each in the directory that it names as its parent. -/
def NoLeak (m : Nodes) : Prop :=
  ∀ i < memFsNodes, (m i).used = true → Reachable m i ∧
    (i ≠ 0 → Reachable m (m i).parent ∧ Listed m (m (m i).parent).firstChild i)

/-- A removed entry has no entries of its own. -/
def Childless (m : Nodes) (a : Call × Reply) : Prop :=
  match a.1 with
  | .remove path => ∀ n, resolvePath m path = some n → n ≠ noNode → n ≠ 0 →
    (m n).firstChild = noNode
  | _ => True

/-- A new entry that only the number of nodes could refuse. -/
def Wanted (m : Nodes) : Call → Prop
  | .mkdir path | .create path => ∃ r, resolveParentCreate m path = some r ∧ r.1 ≠ noNode ∧
    (m r.1).type = .dir ∧ findChild m r.1 r.2 = some noNode
  | _ => False

/-- The calls are served one after the other, as long as each is wanted in its turn. -/
def Served (m : Nodes) : List Call → Prop
  | [] => True
  | c :: cs => Wanted m c → ∃ r m', act m c = some (r,m') ∧ r.rc = 0 ∧ Served m' cs

variable {m m' : Nodes} {kids kids' : ℕ → List ℕ} {p : List (List UInt8)} {d n : ℕ}

lemma listed_iff_mem {l : List ℕ} {c x : ℕ} (h : Chain (links m).next noNode c l) :
    Listed m c x ↔ x ∈ l := by
  constructor
  · intro hls
    induction hls generalizing l with
    | here hc =>
      cases l with
      | nil => exact absurd h hc
      | cons y l => exact h.1 ▸ List.mem_cons_self
    | there hc _ ih =>
      cases l with
      | nil => exact absurd h hc
      | cons y l =>
        obtain ⟨rfl,-,hrs⟩ := h
        exact List.mem_cons_of_mem _ (ih hrs)
  · intro hx
    induction l generalizing c with
    | nil => cases hx
    | cons y l ih =>
      obtain ⟨rfl,hc,hrs⟩ := h
      rcases List.mem_cons.mp hx with rfl | hx
      · exact .here hc
      · exact .there hc (ih hrs hx)

lemma Sound.reachable_iff (h : Sound m kids) (c : ℕ) :
    Reachable m c ↔ ∃ p, Path (links m) kids p c := by
  constructor
  · intro hrc
    induction hrc with
    | root => exact ⟨[],.root⟩
    | child _ hls ih =>
      obtain ⟨p,hp⟩ := ih
      exact ⟨_,hp.child ((listed_iff_mem (h.tree.chain p _ hp)).mp hls)⟩
  · rintro ⟨p,hp⟩
    induction hp with
    | root => exact .root
    | child hd hc ih => exact ih.child ((listed_iff_mem (h.tree.chain _ _ hd)).mpr hc)

lemma Sound.noLeak_iff (h : Sound m kids) :
    NoLeak m ↔ ∀ i < memFsNodes, (m i).used = true → ∃ p, Path (links m) kids p i := by
  constructor
  · intro hlk i hi hus
    exact (h.reachable_iff i).mp (hlk i hi hus).1
  · intro hpt i hi hus
    obtain ⟨p,hp⟩ := hpt i hi hus
    refine ⟨(h.reachable_iff i).mpr ⟨p,hp⟩,fun hrt => ?_⟩
    obtain ⟨q,d,hd,hmem⟩ := Path.listed hp hrt
    have hpr : (m i).parent = d := h.tree.parent q d hd i hmem
    rw [hpr]
    exact ⟨(h.reachable_iff d).mpr ⟨q,hd⟩,(listed_iff_mem (h.tree.chain q d hd)).mpr hmem⟩

section Steps

variable {c : Call}

lemma Unlinked.noLeak_iff (hun : Unlinked m kids d n m') (h : Sound m kids)
    (hd : Path (links m) kids p d) (hn : n ∈ kids d) (hlk : NoLeak m) :
    NoLeak m' ↔ kids n = [] := by
  have hpn := hd.child hn
  rw [h.noLeak_iff] at hlk
  rw [(h.unlinked hd hn hun).noLeak_iff]
  constructor
  · intro hnew
    by_contra hkd
    obtain ⟨c,hc⟩ := List.exists_mem_of_ne_nil _ hkd
    have hpc := hpn.child hc
    have hpr := h.proper _ c hpc
    have hcn : c ≠ n := h.kid_ne hpn hc
    obtain ⟨q,hq⟩ := hnew c hpr.lt (by rw [hun.used c hcn,hpr.used])
    obtain ⟨hq,hout⟩ := (h.tree.path_remove hun.removed hd hn).mp hq
    rw [← h.tree.path_injective hpc hq] at hout
    exact hout (List.prefix_append _ _)
  · intro hkd i hi hus
    have hin : i ≠ n := by
      rintro rfl
      rw [hun.free] at hus
      cases hus
    rw [hun.used i hin] at hus
    obtain ⟨q,hq⟩ := hlk i hi hus
    refine ⟨q,(h.tree.path_remove hun.removed hd hn).mpr ⟨hq,?_⟩⟩
    rintro ⟨rest,rfl⟩
    cases rest with
    | nil =>
      rw [List.append_nil] at hq
      exact hin (h.tree.path_unique hq hpn)
    | cons a rest =>
      rw [show p ++ [(links m).label n] ++ a :: rest =
        p ++ [(links m).label n] ++ [a] ++ rest by simp]
        at hq
      obtain ⟨x,hx⟩ := hq.ancestor
      have hmem := ((h.tree.path_child_iff hpn).mp hx).1
      rw [hkd] at hmem
      cases hmem

lemma noLeak_init (m : Nodes) : NoLeak (memFsInit m).2 := by
  rw [(Sound.init m).noLeak_iff]
  intro i hi hus
  obtain ⟨-,-,hfr⟩ := memFsInit_eq m
  by_cases hrt : i = 0
  · exact ⟨[],hrt ▸ .root⟩
  · rw [hfr i hi hrt] at hus
    cases hus

/-- Exactly the removal of an entry that has entries leaks nodes. -/
theorem Effect.noLeak_iff {r : Reply} (hef : Effect m kids c m' kids') (h : Sound m kids)
    (hlk : NoLeak m) : NoLeak m' ↔ Childless m (c,r) := by
  have hsn := hef.sound h
  cases hef with
  | none hot =>
    refine iff_of_true hlk ?_
    cases c with
    | remove path => exact fun n hn hno hrt => ((hot path n rfl hn).elim hno hrt).elim
    | _ => trivial
  | init =>
    exact iff_of_true (noLeak_init m) trivial
  | @added _ type path p name d n hc hty hadd =>
    refine iff_of_true (hsn.noLeak_iff.mpr fun i hi hus => ?_)
      (by rcases hc with rfl | rfl <;> trivial)
    rw [h.noLeak_iff] at hlk
    by_cases hin : i = n
    · exact ⟨_,(hadd.path_iff h type).mpr (.inr ⟨rfl,hin⟩)⟩
    · have hus' : (m i).used = true := by
        by_cases hid : i = d
        · rw [hid,added_parent] at hus
          rwa [hid]
        · rwa [added_other hid hin] at hus
      obtain ⟨q,hq⟩ := hlk i hi hus'
      exact ⟨q,(hadd.path_iff h type).mpr (.inl hq)⟩
  | rmdir hd hn hem hun =>
    exact iff_of_true ((hun.noLeak_iff h hd hn hlk).mpr hem) trivial
  | @remove path p d n _ hrs hd hn hun =>
    have hpr := h.proper _ n (hd.child hn)
    have hrt : n ≠ 0 := by
      rintro rfl
      exact h.tree.root p d hd hn
    rw [hun.noLeak_iff h hd hn hlk,h.kids_eq_nil_iff (hd.child hn)]
    refine ⟨fun hfr n' hn' _ _ => ?_,fun hch => ?_⟩
    · rwa [Option.some.inj (hn'.symm.trans hrs)]
    · exact hch n hrs hpr.ne_noNode hrt
  | @written path data n bytes hby =>
    refine iff_of_true (hsn.noLeak_iff.mpr fun i hi hus => ?_) trivial
    rw [h.noLeak_iff] at hlk
    obtain ⟨hln,hfl⟩ := setPayload_same m n bytes
    rw [hln]
    exact hlk i hi ((hfl i).1 ▸ hus)

end Steps

def usedNodes (m : Nodes) : Finset ℕ := (Finset.range memFsNodes).filter fun i => (m i).used = true

lemma usedNodes_added {type : NodeType} {name : List UInt8} (hlt : n < memFsNodes)
    (hfr : (m n).used = false) (hne : n ≠ d) :
    (usedNodes (added m type d n name)).card = (usedNodes m).card+1 := by
  have his : usedNodes (added m type d n name) = insert n (usedNodes m) := by
    ext i
    simp only [usedNodes,Finset.mem_filter,Finset.mem_range,Finset.mem_insert]
    by_cases hin : i = n
    · subst hin
      simp [added_new hne,hlt]
    · by_cases hid : i = d
      · subst hid
        simp [added_parent,hin]
      · simp [added_other hid hin,hin]
  rw [his,Finset.card_insert_of_notMem (by simp [usedNodes,hfr])]

lemma addNode_wanted (type : NodeType) {path : CString} {r : ℕ × List UInt8}
    (hr : resolveParentCreate m path = some r) (hpr : r.1 ≠ noNode) (hdir : (m r.1).type = .dir)
    (hus : (m r.1).used = true) (hab : findChild m r.1 r.2 = some noNode)
    (hrm : (usedNodes m).card < memFsNodes) :
    ∃ n, addNode m type path = some (0,added m type r.1 n r.2) ∧
      (usedNodes (added m type r.1 n r.2)).card = (usedNodes m).card+1 := by
  rcases allocNode_cases m with ⟨n,hlt,hfr,hal⟩ | ⟨hfl,-⟩
  · have hne : n ≠ r.1 := by
      rintro rfl
      rw [hfr] at hus
      cases hus
    have hnd : n ≠ noNode := by
      rw [memFsNodes] at hlt
      rw [noNode]
      omega
    refine ⟨n,?_,usedNodes_added hlt hfr hne⟩
    rw [addNode,hr,Option.bind_some,if_neg hpr,if_neg (not_not.mpr hdir),hab,Option.map_some,
      if_neg (not_not.mpr rfl)]
    simp [hal,if_neg hnd,added,Function.update_of_ne (Ne.symm hne)]
  · have hall : usedNodes m = Finset.range memFsNodes := by
      rw [usedNodes,Finset.filter_eq_self]
      exact fun i hi => hfl i (Finset.mem_range.mp hi)
    rw [hall,Finset.card_range] at hrm
    exact absurd hrm (lt_irrefl _)

/-- As many new entries are served as there are nodes that are not in use. -/
theorem served_of_room (h : Sound m kids) (cs : List Call)
    (hrm : (usedNodes m).card+cs.length ≤ memFsNodes) : Served m cs := by
  induction cs generalizing m kids with
  | nil => trivial
  | cons c cs ih =>
    rw [List.length_cons] at hrm
    have hadd : ∀ (type : NodeType) (path : CString) (r : ℕ × List UInt8),
        resolveParentCreate m path = some r → r.1 ≠ noNode → (m r.1).type = .dir →
        findChild m r.1 r.2 = some noNode → act m c = (addNode m type path).map (fun r =>
          (⟨r.1,[],[]⟩,r.2)) → ∃ r m', act m c = some (r,m') ∧ r.rc = 0 ∧ Served m' cs := by
      intro type path r hr hpr hdir hab hact
      have hus : (m r.1).used = true := by
        obtain ⟨r',hr',hcs⟩ := h.resolveParentCreate path
        cases hr.symm.trans hr'
        rcases hcs with ⟨p,-,-,-,-,hpt⟩ | ⟨hno,-⟩
        · exact (h.proper p r.1 hpt).used
        · exact absurd hno hpr
      obtain ⟨n,hn,hcr⟩ := addNode_wanted type hr hpr hdir hus hab (by omega)
      obtain ⟨r',m',kids',hact',hef⟩ := h.act c
      rw [hact,hn] at hact' ⊢
      cases hact'
      exact ⟨_,_,rfl,rfl,ih (hef.sound h) (by dsimp only; omega)⟩
    cases c with
    | mkdir path =>
      rintro ⟨r,hr,hpr,hdir,hab⟩
      exact hadd .dir path r hr hpr hdir hab rfl
    | create path =>
      rintro ⟨r,hr,hpr,hdir,hab⟩
      exact hadd .file path r hr hpr hdir hab rfl
    | _ => exact fun hwn => hwn.elim

lemma Sound.usedNodes_empty (h : Sound m kids) (hlk : NoLeak m)
    (hem : (m 0).firstChild = noNode) : (usedNodes m).card ≤ 1 := by
  have hkd : kids 0 = [] := (h.kids_eq_nil_iff .root).mpr hem
  have hsub : usedNodes m ⊆ {0} := by
    intro i hi
    obtain ⟨hlt,hus⟩ := Finset.mem_filter.mp hi
    obtain ⟨p,hp⟩ := h.noLeak_iff.mp hlk i (Finset.mem_range.mp hlt) hus
    exact Finset.mem_singleton.mpr (hp.eq_root hkd)
  exact (Finset.card_le_card hsub).trans (Finset.card_singleton 0).le

/-- In runs that remove nothing that still has entries, the nodes in use are those of the tree, and
an empty tree takes 127 new entries. Each removal of something that has entries leaks them. -/
theorem no_leaked_nodes (l : List (Call × Reply)) (m : Nodes)
    (h : Trace (memFsRuns.guarded Childless) l m) :
    NoLeak m ∧
      ((m 0).firstChild = noNode → ∀ cs : List Call, cs.length ≤ 127 → Served m cs) ∧
      ∀ a m', act m a.1 = some (a.2,m') → (NoLeak m' ↔ Childless m a) := by
  have hsn : ∃ kids, Sound m kids ∧ NoLeak m := by
    refine h.reach.invariant (fun m => ∃ kids, Sound m kids ∧ NoLeak m) ?_ ?_
    · intro m hin
      obtain ⟨m₀,hm⟩ : ∃ m₀, m = (memFsInit m₀).2 := hin
      rw [hm]
      exact ⟨fun _ => [],Sound.init m₀,noLeak_init m₀⟩
    · rintro m a m' ⟨kids,hs,hlk⟩ ⟨hst,hch⟩
      obtain ⟨r,m'',kids',hact,hef⟩ := hs.act a.1
      cases hst.symm.trans hact
      exact ⟨kids',hef.sound hs,(hef.noLeak_iff hs hlk).mpr hch⟩
  obtain ⟨kids,hs,hlk⟩ := hsn
  refine ⟨hlk,fun hem cs hcs => ?_,fun a m' hact => ?_⟩
  · have hcr := hs.usedNodes_empty hlk hem
    exact served_of_room hs cs (by rw [memFsNodes]; omega)
  · obtain ⟨r,m'',kids',hact',hef⟩ := hs.act a.1
    cases hact.symm.trans hact'
    exact hef.noLeak_iff hs hlk

/-- The paths `/a` and `/a/b`. -/
def pathA : CString := some [slash,0x61]
def pathAB : CString := some [slash,0x61,slash,0x62]

/-- The pool after `Harlin_MemFsInit`. -/
def emptyPool : Nodes := (memFsInit fun _ => ⟨false,.unset,[],0,0,0,[]⟩).2

lemma emptyPool_init : memFsRuns.init emptyPool := ⟨_,rfl⟩

theorem no_leaked_nodes_removed :
    ∃ l m, Trace (memFsRuns.guarded Childless) l m ∧
      l.map Prod.fst = [.mkdir pathA,.create pathAB,.remove pathAB,.remove pathA] ∧
      (∀ a ∈ l, a.2.rc = 0) ∧ NoLeak m := by
  have hrun : ((act emptyPool (.mkdir pathA)).bind fun r₁ =>
      (act r₁.2 (.create pathAB)).bind fun r₂ =>
      (act r₂.2 (.remove pathAB)).bind fun r₃ => (act r₃.2 (.remove pathA)).map fun r₄ =>
        decide ((r₁.1.rc = 0 ∧ r₂.1.rc = 0 ∧ r₃.1.rc = 0 ∧ r₄.1.rc = 0) ∧
          (resolvePath r₂.2 pathAB = some 2 ∧ (r₂.2 2).firstChild = noNode) ∧
          resolvePath r₃.2 pathA = some 1 ∧ (r₃.2 1).firstChild = noNode)) = some true := by
    decide +kernel
  obtain ⟨r₁,h₁,hrun⟩ := Option.bind_eq_some_iff.mp hrun
  obtain ⟨r₂,h₂,hrun⟩ := Option.bind_eq_some_iff.mp hrun
  obtain ⟨r₃,h₃,hrun⟩ := Option.bind_eq_some_iff.mp hrun
  obtain ⟨r₄,h₄,hfl⟩ := Option.map_eq_some_iff.mp hrun
  obtain ⟨⟨hc₁,hc₂,hc₃,hc₄⟩,⟨hab,hab'⟩,ha,ha'⟩ := of_decide_eq_true hfl
  have htr : Trace (memFsRuns.guarded Childless)
      ([] ++ [(.mkdir pathA,r₁.1)] ++ [(.create pathAB,r₂.1)] ++ [(.remove pathAB,r₃.1)] ++
        [(.remove pathA,r₄.1)]) r₄.2 := by
    refine .next (.next (.next (.next (.start emptyPool_init) ⟨h₁,trivial⟩) ⟨h₂,trivial⟩)
      ⟨h₃,?_⟩) ⟨h₄,?_⟩
    · intro n hn _ _
      rwa [Option.some.inj (hn.symm.trans hab)]
    · intro n hn _ _
      rwa [Option.some.inj (hn.symm.trans ha)]
  refine ⟨_,_,htr,rfl,?_,(no_leaked_nodes _ _ htr).1⟩
  simp [hc₁,hc₂,hc₃,hc₄]

/-- A directory is removed while it has an entry: the node of the entry stays in use and no link
leads to it. -/
theorem remove_leaks_entry :
    ∃ l m, Trace memFsRuns l m ∧ l.map Prod.fst = [.mkdir pathA,.create pathAB,.remove pathA] ∧
      (∀ a ∈ l, a.2.rc = 0) ∧ (m 2).used = true ∧ ¬ Reachable m 2 ∧ ¬ NoLeak m := by
  refine exists_run (P := fun l m => (∀ a ∈ l, a.2.rc = 0) ∧ (m 2).used = true ∧
    (m 0).firstChild = noNode) emptyPool_init (by decide +kernel) ?_
  rintro l m - ⟨hrc,hus,hem⟩
  have hend : ∀ x, ¬ Listed m noNode x := by
    rintro x (hne | hne)
    all_goals exact hne rfl
  have hrt : ∀ x, Reachable m x → x = 0 := by
    intro x hx
    induction hx with
    | root => rfl
    | child _ hls ih =>
      rw [ih,hem] at hls
      exact absurd hls (hend _)
  refine ⟨hrc,hus,fun hrt₂ => ?_,fun hlk => ?_⟩
  · exact absurd (hrt 2 hrt₂) (by decide)
  · exact absurd (hrt 2 (hlk 2 (by decide) hus).1) (by decide)

/-- The reachable nodes in the sibling chains of their directories. -/
structure Shape (m : Nodes) (kids : ℕ → List ℕ) : Prop where
  root : (m 0).used = true ∧ (m 0).type = .dir
  chain :
    ∀ d, Reachable m d → Chain (links m).next noNode (m d).firstChild (kids d) ∧ (kids d).Nodup
  kid : ∀ d, Reachable m d → ∀ c ∈ kids d, c ≠ 0 ∧ Reachable m c ∧ (m c).parent = d
  once : ∀ c, Reachable m c → c ≠ 0 → ∃! d, Reachable m d ∧ c ∈ kids d
  names : ∀ d, Reachable m d → ((kids d).map fun c => (m c).name).Nodup
  node : ∀ c, Reachable m c → Proper m c

/-- The loops over sibling chains end, and the one that unlinks a node finds it. -/
structure LoopsEnd (m : Nodes) : Prop where
  find : ∀ d, Reachable m d → ∀ name, findChild m d name ≠ none
  list : ∀ d, Reachable m d → ∀ max, listFrom m max (memFsNodes+1) (m d).firstChild ≠ none
  unlink : ∀ n, Reachable m n → n ≠ 0 → (m (m n).parent).firstChild ≠ n →
    ∃ c, findPrevious m n (memFsNodes+1) (m (m n).parent).firstChild = some c ∧
      c ≠ noNode ∧ (m c).nextSibling = n

lemma Sound.shape (h : Sound m kids) : Shape m kids := by
  have hrc := h.reachable_iff
  refine ⟨⟨(h.proper _ 0 .root).used,h.root.1⟩,fun d hd => ?_,fun d hd c hc => ?_,
    fun c hc hne => ?_,fun d hd => ?_,fun c hc => ?_⟩
  · obtain ⟨p,hp⟩ := (hrc d).mp hd
    exact ⟨h.tree.chain p d hp,(h.tree.chain p d hp).nodup⟩
  · obtain ⟨p,hp⟩ := (hrc d).mp hd
    refine ⟨?_,(hrc c).mpr ⟨_,hp.child hc⟩,h.tree.parent p d hp c hc⟩
    rintro rfl
    exact h.tree.root p d hp hc
  · obtain ⟨p,hp⟩ := (hrc c).mp hc
    obtain ⟨q,d,hd,hmem⟩ := Path.listed hp hne
    refine ⟨d,⟨(hrc d).mpr ⟨q,hd⟩,hmem⟩,?_⟩
    rintro d' ⟨hd',hmem'⟩
    obtain ⟨q',hq'⟩ := (hrc d').mp hd'
    exact (h.tree.parent q' d' hq' c hmem').symm.trans (h.tree.parent q d hd c hmem)
  · obtain ⟨p,hp⟩ := (hrc d).mp hd
    exact (h.tree.chain p d hp).nodup.map_on fun c hc c' hc' => h.tree.labels p d hp c hc c' hc'
  · obtain ⟨p,hp⟩ := (hrc c).mp hc
    exact h.proper p c hp

lemma Sound.loopsEnd (h : Sound m kids) : LoopsEnd m := by
  have hrc := h.reachable_iff
  refine ⟨fun d hd name => ?_,fun d hd max => ?_,fun n hn hne hfr => ?_⟩
  · obtain ⟨p,hp⟩ := (hrc d).mp hd
    obtain ⟨r,hr,-⟩ := h.findChild hp name
    rw [hr]
    exact Option.some_ne_none r
  · obtain ⟨p,hp⟩ := (hrc d).mp hd
    have hls := listFrom_chain (h.tree.chain p d hp) (h.kids_length hp) max
    exact fun hno => Option.some_ne_none _ (hls.symm.trans hno)
  · obtain ⟨p,hp⟩ := (hrc n).mp hn
    obtain ⟨q,d,hd,hmem⟩ := Path.listed hp hne
    have hpr : (m n).parent = d := h.tree.parent q d hd n hmem
    rw [hpr] at hfr ⊢
    obtain ⟨c,hc,hnx,hfn⟩ := findPrevious_chain (h.tree.chain q d hd) (h.kids_length hd) hmem hfr
    exact ⟨c,hfn,(h.tree.chain q d hd).ne_nil hc,hnx⟩

/-- In every state of every run the pool is a tree, and the loops over it end. -/
theorem mem_fs_tree_loops_end {l : List (Call × Reply)} (h : Trace memFsRuns l m) :
    (∃ kids, Shape m kids) ∧ LoopsEnd m := by
  obtain ⟨kids,hs⟩ := sound_of_trace h
  exact ⟨⟨kids,hs.shape⟩,hs.loopsEnd⟩

/-- A name in `/a`. -/
def pathIn (name : UInt8) : CString := some [slash,0x61,slash,name]

/-- The second of three files in a directory is removed, and its node is used for another one. -/
theorem mem_fs_tree_loops_end_recycled :
    ∃ l m, Trace memFsRuns l m ∧ l.map Prod.fst = [.mkdir pathA,.create (pathIn 0x62),
        .create (pathIn 0x63),.create (pathIn 0x64),.remove (pathIn 0x63),.create (pathIn 0x65)] ∧
      (∀ a ∈ l, a.2.rc = 0) ∧ resolvePath m (pathIn 0x65) = some 3 ∧
      (∃ kids, Shape m kids) ∧ LoopsEnd m := by
  refine exists_run (P := fun l m => (∀ a ∈ l, a.2.rc = 0) ∧
    resolvePath m (pathIn 0x65) = some 3) emptyPool_init (by decide +kernel) ?_
  rintro l m htr ⟨hrc,hnd⟩
  exact ⟨hrc,hnd,mem_fs_tree_loops_end htr⟩

end HarlinKernel.MemFs
