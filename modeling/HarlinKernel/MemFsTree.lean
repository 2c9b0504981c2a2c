import Mathlib.Data.List.TakeWhile
import HarlinKernel.LinkedTree
import HarlinKernel.MemFs

/-! The nodes of the pool that paths lead to form a tree, in every run. A removed directory may
leave its entries behind, used and out of reach. -/
namespace HarlinKernel.MemFs

open TransitionSystem LinkedTree
open Function (update update_idem update_self update_of_ne)
open Option (bind_some map_some)

/-- The pieces between slashes that are not empty. -/
def pieces (chars : List UInt8) : List (List UInt8) :=
  (chars.splitOn slash).filter (· ≠ [])

lemma pieces_eq (rest : List UInt8) :
    pieces rest = (if rest.takeWhile (· ≠ slash) = [] then [] else [rest.takeWhile (· ≠ slash)]) ++
      pieces (rest.drop ((rest.takeWhile (· ≠ slash)).length+1)) := by
  by_cases hmem : slash ∈ rest
  · obtain ⟨seg,rest,rfl,hseg⟩ := List.eq_append_cons_of_mem hmem
    have htk : (seg ++ slash :: rest).takeWhile (· ≠ slash) = seg := by
      rw [List.takeWhile_append_of_pos (by grind)]
      simp
    rw [htk,pieces,List.splitOn_append_cons_self_of_not_mem hseg]
    split_ifs with hnil <;> simp [pieces,hnil]
  · have htk : rest.takeWhile (· ≠ slash) = rest := List.takeWhile_eq_self_iff.mpr (by grind)
    rw [htk,List.drop_eq_nil_of_le (Nat.le_succ _),pieces,List.splitOn_eq_singleton hmem]
    split_ifs with hnil <;> simp [pieces,hnil]

lemma parseSegments_eq {segs : List (List UInt8)} {fuel : ℕ} {rest : List UInt8}
    (hsg : segs.length ≤ pathMaxSegments) (hfu : rest.length ≤ fuel) :
    parseSegments segs fuel rest = (segs ++ pieces rest).take pathMaxSegments := by
  induction fuel generalizing segs rest with
  | zero => simp_all [parseSegments,pieces]
  | succ fuel ih =>
    rw [parseSegments]
    split_ifs with hend
    · rcases hend with rfl | hfl
      · simp [pieces,hsg]
      · rw [List.take_append_of_le_length hfl,List.take_of_length_le hsg]
    · rw [not_or,not_le] at hend
      rw [ih (by split_ifs <;> grind) (by rw [List.length_drop]; omega),pieces_eq rest]
      split_ifs <;> simp

lemma pathParse_eq {chars : List UInt8} (hne : chars ≠ []) (hsh : chars.length < pathMaxChars) :
    pathParse (some chars) =
      some ⟨chars.head? = some slash,(pieces chars).take pathMaxSegments⟩ := by
  rw [pathParse,if_neg (by simp [hne,hsh])]
  have hpr rest : parseSegments [] rest.length rest = (pieces rest).take pathMaxSegments :=
    parseSegments_eq (Nat.zero_le _) le_rfl
  simp only [hpr]
  split_ifs with habs
  · cases chars with
    | nil => cases habs
    | cons c chars =>
      obtain rfl : c = slash := by simpa using habs
      rw [pieces_eq (slash :: chars)]
      simp
  · rfl

lemma pathParse_some {path : CString} {parts : PathParts} (h : pathParse path = some parts) :
    ∃ chars, path = some chars ∧ chars ≠ [] ∧ chars.length < pathMaxChars ∧
      parts = ⟨chars.head? = some slash,(pieces chars).take pathMaxSegments⟩ := by
  cases path with
  | none => cases h
  | some chars =>
    by_cases hbad : chars = [] ∨ pathMaxChars ≤ chars.length
    · rw [pathParse,if_pos hbad] at h
      cases h
    · rw [not_or,not_le] at hbad
      rw [pathParse_eq hbad.1 hbad.2] at h
      exact ⟨chars,rfl,hbad.1,hbad.2,(Option.some.inj h).symm⟩

lemma pathParse_nonempty {path : CString} {parts : PathParts} (h : pathParse path = some parts) :
    ∀ seg ∈ parts.seg, seg ≠ [] := by
  obtain ⟨chars,-,-,-,rfl⟩ := pathParse_some h
  intro seg hseg
  simpa using (List.mem_filter.mp (List.mem_of_mem_take hseg)).2

/-- The links of the pool, labelled with the names. -/
def links (m : Nodes) : Links (List UInt8) where
  nil := noNode
  root := 0
  first i := (m i).firstChild
  next i := (m i).nextSibling
  parent i := (m i).parent
  label i := (m i).name

/-- A node that is in use as it should be. -/
structure Proper (m : Nodes) (c : ℕ) : Prop where
  lt : c < memFsNodes
  used : (m c).used = true
  type : (m c).type ≠ .unset
  name : c ≠ 0 → (m c).name ≠ [] ∧ (m c).name.length < memFsNameMax
  payload : (m c).payload.length ≤ memFsPayload
  file : (m c).type = .file → (m c).firstChild = noNode

/-- The nodes on paths form a tree of proper nodes below the root directory. -/
structure Sound (m : Nodes) (kids : ℕ → List ℕ) : Prop where
  tree : Tree (links m) kids
  proper : ∀ p c, Path (links m) kids p c → Proper m c
  root : (m 0).type = .dir ∧ (m 0).parent = 0

variable {m m' : Nodes} {kids : ℕ → List ℕ} {p : List (List UInt8)} {name : List UInt8} {d n : ℕ}

lemma Proper.ne_noNode (h : Proper m n) : n ≠ noNode := by
  have hlt := h.lt
  rw [memFsNodes] at hlt
  rw [noNode]
  omega

lemma findChildFrom_chain (name : List UInt8) {l : List ℕ} {c fuel : ℕ}
    (h : Chain (links m).next noNode c l) (hfl : l.length < fuel) :
    ∃ r, findChildFrom m name fuel c = some r ∧
      ((r ∈ l ∧ (m r).name = name) ∨ (r = noNode ∧ ∀ x ∈ l, (m x).name ≠ name)) := by
  induction l generalizing c fuel with
  | nil =>
    obtain ⟨fuel,rfl⟩ := Nat.exists_eq_succ_of_ne_zero (Nat.ne_of_gt hfl)
    have hend : c = noNode := h
    exact ⟨noNode,by rw [findChildFrom,if_pos hend],.inr ⟨rfl,fun _ hmem => (nomatch hmem)⟩⟩
  | cons x l ih =>
    obtain ⟨rfl,hne,hrs⟩ := h
    obtain ⟨fuel,rfl⟩ := Nat.exists_eq_succ_of_ne_zero (Nat.ne_of_gt (Nat.zero_lt_of_lt hfl))
    rw [findChildFrom,if_neg hne]
    split_ifs with hnm
    · exact ⟨c,rfl,.inl ⟨List.mem_cons_self,hnm⟩⟩
    obtain ⟨r,hr,hcs⟩ := ih hrs (Nat.lt_of_succ_lt_succ hfl)
    refine ⟨r,hr,hcs.imp ?_ ?_⟩
    · exact fun hfn => ⟨List.mem_cons_of_mem c hfn.1,hfn.2⟩
    · rintro ⟨hno,hot⟩
      refine ⟨hno,fun y hy => ?_⟩
      rcases List.mem_cons.mp hy with rfl | hy
      · exact hnm
      · exact hot y hy

lemma listFrom_chain {l : List ℕ} {c fuel : ℕ} (h : Chain (links m).next noNode c l)
    (hfl : l.length < fuel) (max : ℕ) :
    listFrom m max fuel c =
      some ((l.take max).map fun c => ⟨(m c).name.take (memFsNameMax-1),(m c).type,c⟩) := by
  induction l generalizing c fuel max with
  | nil =>
    obtain ⟨fuel,rfl⟩ := Nat.exists_eq_succ_of_ne_zero (Nat.ne_of_gt hfl)
    have hend : c = noNode := h
    rw [listFrom,if_pos (.inl hend),List.take_nil,List.map_nil]
  | cons x l ih =>
    obtain ⟨rfl,hne,hrs⟩ := h
    obtain ⟨fuel,rfl⟩ := Nat.exists_eq_succ_of_ne_zero (Nat.ne_of_gt (Nat.zero_lt_of_lt hfl))
    cases max with
    | zero => rw [listFrom,if_pos (.inr rfl),List.take_zero,List.map_nil]
    | succ max =>
      have htl : listFrom m max fuel (m c).nextSibling = _ :=
        ih hrs (Nat.lt_of_succ_lt_succ hfl) max
      rw [listFrom,if_neg (by omega),Nat.add_sub_cancel,htl]
      rfl

lemma Sound.kids_length (h : Sound m kids) (hd : Path (links m) kids p d) :
    (kids d).length < memFsNodes+1 := by
  have hnd := (h.tree.chain p d hd).nodup
  have hsub : kids d ⊆ List.range memFsNodes := by
    intro c hc
    rw [List.mem_range]
    exact (h.proper _ c (hd.child hc)).lt
  have hle := (hnd.subperm hsub).length_le
  rw [List.length_range] at hle
  omega

lemma Sound.findChild (h : Sound m kids) (hd : Path (links m) kids p d) (name : List UInt8) :
    ∃ r, findChild m d name = some r ∧
      (Path (links m) kids (p ++ [name]) r ∨
        (r = noNode ∧ ∀ c, ¬ Path (links m) kids (p ++ [name]) c)) := by
  obtain ⟨r,hr,hcs⟩ := findChildFrom_chain name (h.tree.chain p d hd) (h.kids_length hd)
  refine ⟨r,hr,hcs.imp ?_ ?_⟩
  · exact (h.tree.path_child_iff hd).mpr
  · rintro ⟨hno,hot⟩
    refine ⟨hno,fun c hc => ?_⟩
    obtain ⟨hmem,hnm⟩ := (h.tree.path_child_iff hd).mp hc
    exact hot c hmem hnm

lemma Sound.resolveSegs (h : Sound m kids) (hd : Path (links m) kids p d)
    (segs : List (List UInt8)) :
    ∃ r, resolveSegs m d segs = some r ∧
      (Path (links m) kids (p ++ segs) r ∨
        (r = noNode ∧ ∀ c, ¬ Path (links m) kids (p ++ segs) c)) := by
  induction segs generalizing p d with
  | nil => exact ⟨d,rfl,.inl (by simpa using hd)⟩
  | cons seg segs ih =>
    obtain ⟨r,hr,hcs⟩ := h.findChild hd seg
    rw [MemFs.resolveSegs,hr,bind_some]
    have happ : p ++ seg :: segs = p ++ [seg] ++ segs := by simp
    rcases hcs with hr | ⟨rfl,hno⟩
    · rw [if_neg (h.proper _ r hr).ne_noNode,happ]
      exact ih hr
    · rw [if_pos rfl]
      refine ⟨noNode,rfl,.inr ⟨rfl,fun c hc => ?_⟩⟩
      rw [happ] at hc
      obtain ⟨x,hx⟩ := hc.ancestor
      exact hno x hx

lemma Sound.resolvePath (h : Sound m kids) (path : CString) :
    ∃ r, resolvePath m path = some r ∧
      ((∃ parts, pathParse path = some parts ∧ Path (links m) kids parts.seg r) ∨
        (r = noNode ∧
          ∀ parts c, pathParse path = some parts → ¬ Path (links m) kids parts.seg c)) := by
  rw [MemFs.resolvePath.eq_def]
  split
  · rename_i hpa
    refine ⟨noNode,rfl,.inr ⟨rfl,fun parts c hpr => ?_⟩⟩
    rw [hpa] at hpr
    cases hpr
  rename_i parts hpa
  obtain ⟨r,hr,hcs⟩ := h.resolveSegs .root parts.seg
  refine ⟨r,hr,hcs.imp (fun hpt => ⟨parts,hpa,hpt⟩) ?_⟩
  rintro ⟨hne,hno⟩
  refine ⟨hne,fun parts' c hpr hpt => hno c ?_⟩
  rw [hpa] at hpr
  cases hpr
  exact hpt

lemma Sound.lookup_iff (h : Sound m kids) (path : CString) (hn : n ≠ noNode) :
    memFsLookupNode m path = some n ↔
      ∃ parts, pathParse path = some parts ∧ Path (links m) kids parts.seg n := by
  obtain ⟨r,hr,hcs⟩ := h.resolvePath path
  rw [memFsLookupNode,hr,Option.some.injEq]
  constructor
  · rintro rfl
    exact hcs.resolve_right fun hne => hn hne.1
  · rintro ⟨parts,hpr,hpt⟩
    rcases hcs with ⟨parts',hpr',hpt'⟩ | ⟨-,hno⟩
    · cases hpr.symm.trans hpr'
      exact h.tree.path_unique hpt' hpt
    · exact absurd hpt (hno parts n hpr)

lemma Sound.lookup_total (h : Sound m kids) (path : CString) :
    ∃ r, memFsLookupNode m path = some r := by
  obtain ⟨r,hr,-⟩ := h.resolvePath path
  exact ⟨r,hr⟩

lemma Sound.lookup_proper (h : Sound m kids) {path : CString}
    (hlk : memFsLookupNode m path = some n) (hn : n ≠ noNode) : Proper m n := by
  obtain ⟨parts,-,hpt⟩ := (h.lookup_iff path hn).mp hlk
  exact h.proper _ n hpt

lemma allocNode_cases (m : Nodes) : (∃ i < memFsNodes, (m i).used = false ∧
    allocNode m = (i,update m i ⟨true,.unset,[],noNode,noNode,noNode,[]⟩)) ∨
    ((∀ i < memFsNodes, (m i).used = true) ∧ allocNode m = (noNode,m)) := by
  rw [allocNode]
  split
  · rename_i i hfn
    have hfr := List.find?_some hfn
    have hmem := List.mem_of_find?_eq_some hfn
    exact .inl ⟨i,List.mem_range.mp hmem,by simpa using hfr,rfl⟩
  · rename_i hfn
    refine .inr ⟨fun i hi => ?_,rfl⟩
    simpa using List.find?_eq_none.mp hfn i (List.mem_range.mpr hi)

/-- The pool after node `n` has become the first child of `d`. -/
def added (m : Nodes) (type : NodeType) (d n : ℕ) (name : List UInt8) : Nodes :=
  update (update m n ⟨true,type,name,d,noNode,(m d).firstChild,[]⟩) d
    { m d with firstChild := n }

lemma added_new {type : NodeType} (hne : n ≠ d) :
    added m type d n name n = ⟨true,type,name,d,noNode,(m d).firstChild,[]⟩ := by
  rw [added,update_of_ne hne,update_self]

lemma added_parent {type : NodeType} :
    added m type d n name d = { m d with firstChild := n } := update_self _ _ _

lemma added_other {type : NodeType} {i : ℕ} (hd : i ≠ d) (hn : i ≠ n) :
    added m type d n name i = m i := by
  rw [added,update_of_ne hd,update_of_ne hn]

lemma added_inserted (type : NodeType) (hne : n ≠ d) :
    Inserted (links m) d n name (links (added m type d n name)) where
  nil := rfl
  root := rfl
  first_parent := by simp [links,added_parent]
  first_new := by simp [links,added_new hne]
  first i hd hn := by simp [links,added_other hd hn]
  next_new := by simp [links,added_new hne]
  next i hn := by
    by_cases hd : i = d
    · simp [links,hd,added_parent]
    · simp [links,added_other hd hn]
  parent_new := by simp [links,added_new hne]
  parent i hn := by
    by_cases hd : i = d
    · simp [links,hd,added_parent]
    · simp [links,added_other hd hn]
  label_new := by simp [links,added_new hne]
  label i hn := by
    by_cases hd : i = d
    · simp [links,hd,added_parent]
    · simp [links,added_other hd hn]

/-- A new entry `name` of the directory `d` is possible, with node `n`. -/
structure CanAdd (m : Nodes) (kids : ℕ → List ℕ) (path : CString) (p : List (List UInt8))
    (name : List UInt8) (d n : ℕ) : Prop where
  parts : ∃ parts, pathParse path = some parts ∧ parts.seg = p ++ [name]
  short : name.length < memFsNameMax
  parent : Path (links m) kids p d
  dir : (m d).type = .dir
  absent : ∀ c, ¬ Path (links m) kids (p ++ [name]) c
  lt : n < memFsNodes
  free : (m n).used = false

lemma CanAdd.fresh {path : CString} (h : CanAdd m kids path p name d n) (hs : Sound m kids) :
    ∀ q, ¬ Path (links m) kids q n := by
  intro q hq
  have hus := (hs.proper q n hq).used
  rw [h.free] at hus
  cases hus

lemma CanAdd.ne {path : CString} (h : CanAdd m kids path p name d n) (hs : Sound m kids) :
    n ≠ d := fun heq => h.fresh hs p (heq ▸ h.parent)

lemma CanAdd.ne_noNode {path : CString} (hadd : CanAdd m kids path p name d n) : n ≠ noNode := by
  have hlt := hadd.lt
  rw [memFsNodes] at hlt
  rw [noNode]
  omega

lemma Sound.resolveParentCreate (h : Sound m kids) (path : CString) : ∃ r,
    resolveParentCreate m path = some r ∧ ((∃ p parts, pathParse path = some parts ∧
    parts.seg = p ++ [r.2] ∧ r.2.length < memFsNameMax ∧ Path (links m) kids p r.1) ∨
    (r.1 = noNode ∧ ∀ p parts name d, pathParse path = some parts → parts.seg = p ++ [name] →
    name.length < memFsNameMax → ¬ Path (links m) kids p d)) := by
  rw [MemFs.resolveParentCreate.eq_def]
  split
  · rename_i hpa
    refine ⟨_,rfl,.inr ⟨rfl,fun p parts name d hpr => ?_⟩⟩
    rw [hpa] at hpr
    cases hpr
  rename_i parts hpa
  cases hls : parts.seg.getLast? with
  | none =>
    refine ⟨_,rfl,.inr ⟨rfl,fun p parts' name d hpr hseg => ?_⟩⟩
    rw [hpa] at hpr
    cases hpr
    rw [List.getLast?_eq_none_iff] at hls
    simp [hls] at hseg
  | some name =>
    have hseg : parts.seg = parts.seg.dropLast ++ [name] := by
      rw [List.dropLast_append_getLast? name hls]
    obtain ⟨r,hr,hcs⟩ := h.resolveSegs (d:=0) .root parts.seg.dropLast
    have hth : ∀ p parts' name', pathParse path = some parts' → parts'.seg = p ++ [name'] →
        p = parts.seg.dropLast ∧ name' = name := by
      intro p parts' name' hpr hseg'
      rw [hpa] at hpr
      cases hpr
      obtain ⟨hp,hnm⟩ := List.append_inj' (hseg'.symm.trans hseg) rfl
      exact ⟨hp,List.singleton_injective hnm⟩
    simp only [hr,map_some]
    split_ifs with hbad
    · refine ⟨_,rfl,.inr ⟨rfl,fun p parts' name' d hpr hseg' hsh hd => ?_⟩⟩
      obtain ⟨rfl,rfl⟩ := hth p parts' name' hpr hseg'
      rcases hbad with rfl | hln
      · rcases hcs with hr | ⟨-,hno⟩
        · exact (h.proper _ _ hr).ne_noNode rfl
        · exact hno d hd
      · omega
    · refine ⟨_,rfl,hcs.imp ?_ ?_⟩
      · exact fun hpt => ⟨_,parts,hpa,hseg,by dsimp only; omega,hpt⟩
      · exact fun hno => absurd (.inl hno.1) hbad

/-- `Harlin_MemFsMkdir` and `Harlin_MemFsCreate` add a node where this is possible. -/
theorem Sound.addNode (h : Sound m kids) (type : NodeType) (path : CString) : (∃ p name d n,
    CanAdd m kids path p name d n ∧ addNode m type path = some (0,added m type d n name)) ∨
    ((¬ ∃ p name d n, CanAdd m kids path p name d n) ∧ addNode m type path = some (-1,m)) := by
  obtain ⟨r,hr,hcs⟩ := h.resolveParentCreate path
  rw [MemFs.addNode,hr,bind_some]
  rcases hcs with ⟨p,parts,hpr,hseg,hsh,hd⟩ | ⟨hnn,hno⟩
  · rw [if_neg (h.proper _ _ hd).ne_noNode]
    have hth :
        ∀ p' name' d' n', CanAdd m kids path p' name' d' n' → p' = p ∧ name' = r.2 ∧ d' = r.1 := by
      intro p' name' d' n' hadd
      obtain ⟨parts',hpr',hseg'⟩ := hadd.parts
      rw [hpr] at hpr'
      cases hpr'
      obtain ⟨rfl,hnm⟩ := List.append_inj' (hseg'.symm.trans hseg) rfl
      exact ⟨rfl,List.singleton_injective hnm,h.tree.path_unique hadd.parent hd⟩
    by_cases hdir : (m r.1).type = .dir
    · rw [if_neg (not_not.mpr hdir)]
      obtain ⟨c,hc,hfn⟩ := h.findChild hd r.2
      rw [hc,map_some]
      rcases hfn with hfn | ⟨rfl,hab⟩
      · rw [if_pos (h.proper _ _ hfn).ne_noNode]
        refine .inr ⟨?_,rfl⟩
        rintro ⟨p',name',d',n',hadd⟩
        obtain ⟨rfl,rfl,-⟩ := hth p' name' d' n' hadd
        exact hadd.absent c hfn
      rw [if_neg (not_not.mpr rfl)]
      rcases allocNode_cases m with ⟨n,hlt,hfr,hal⟩ | ⟨hfl,hal⟩
      · left
        have hadd : CanAdd m kids path p r.2 r.1 n :=
          ⟨⟨parts,hpr,hseg⟩,hsh,hd,hdir,hab,hlt,hfr⟩
        have hne := hadd.ne h
        have hnd := hadd.ne_noNode
        refine ⟨p,r.2,r.1,n,hadd,?_⟩
        simp [hal,if_neg hnd,added,update_of_ne (Ne.symm hne)]
      · refine .inr ⟨?_,by simp [hal]⟩
        rintro ⟨p',name',d',n',hadd⟩
        have hus := hfl n' hadd.lt
        rw [hadd.free] at hus
        cases hus
    · rw [if_pos hdir]
      refine .inr ⟨?_,rfl⟩
      rintro ⟨p',name',d',n',hadd⟩
      obtain ⟨-,-,rfl⟩ := hth p' name' d' n' hadd
      exact hdir hadd.dir
  · rw [if_pos hnn]
    refine .inr ⟨?_,rfl⟩
    rintro ⟨p,name,d,n,hadd⟩
    obtain ⟨parts,hpr,hseg⟩ := hadd.parts
    exact hno p parts name d hpr hseg hadd.short hadd.parent

lemma CanAdd.path_iff {path : CString} {q : List (List UInt8)} {c : ℕ}
    (hadd : CanAdd m kids path p name d n) (h : Sound m kids) (type : NodeType) :
    Path (links (added m type d n name)) (insertKid kids d n) q c ↔
      Path (links m) kids q c ∨ (q = p ++ [name] ∧ c = n) :=
  h.tree.path_insert (added_inserted type (hadd.ne h)) hadd.parent (hadd.fresh h)

lemma Sound.added {type : NodeType} {path : CString} (h : Sound m kids)
    (hadd : CanAdd m kids path p name d n) (hty : type ≠ .unset) :
    Sound (added m type d n name) (insertKid kids d n) := by
  have hne := hadd.ne h
  have hfr := hadd.fresh h
  have hins : Inserted (links m) d n name (links (MemFs.added m type d n name)) :=
    added_inserted type hne
  have hnd := hadd.ne_noNode
  have hnm : name ≠ [] := by
    obtain ⟨parts,hpa,hseg⟩ := hadd.parts
    exact pathParse_nonempty hpa name (by simp [hseg])
  refine ⟨h.tree.insert hins hadd.parent hfr hnd ?_,?_,?_⟩
  · intro c hc hlb
    exact hadd.absent c ((h.tree.path_child_iff hadd.parent).mpr ⟨hc,hlb⟩)
  · intro q c hc
    rcases (hadd.path_iff h type).mp hc with hc | ⟨-,rfl⟩
    · have hpr := h.proper q c hc
      by_cases hcd : c = d
      · subst hcd
        refine ⟨hpr.lt,?_,?_,?_,?_,?_⟩ <;> rw [added_parent]
        · exact hpr.used
        · exact hpr.type
        · exact hpr.name
        · exact hpr.payload
        · exact fun hfl => absurd (hadd.dir.symm.trans hfl) (by decide)
      · have hcn : c ≠ n := fun heq => hfr q (heq ▸ hc)
        refine ⟨hpr.lt,?_,?_,?_,?_,?_⟩ <;> rw [added_other hcd hcn]
        · exact hpr.used
        · exact hpr.type
        · exact hpr.name
        · exact hpr.payload
        · exact hpr.file
    · refine ⟨hadd.lt,?_,?_,?_,?_,?_⟩ <;> rw [added_new hne]
      · exact hty
      · exact fun _ => ⟨hnm,hadd.short⟩
      · exact Nat.zero_le _
      · exact fun _ => rfl
  · have hrt : n ≠ 0 := fun heq => hfr [] (heq ▸ .root)
    by_cases hd : d = 0
    · subst hd
      rw [added_parent]
      exact h.root
    · rw [added_other (Ne.symm hd) (Ne.symm hrt)]
      exact h.root

lemma CanAdd.lookup {type : NodeType} {path path' : CString} {c : ℕ}
    (hadd : CanAdd m kids path p name d n) (h : Sound m kids) (hty : type ≠ .unset)
    (hc : c ≠ noNode) (hlk : memFsLookupNode m path' = some c) :
    memFsLookupNode (MemFs.added m type d n name) path' = some c := by
  obtain ⟨parts,hpr,hpt⟩ := (h.lookup_iff path' hc).mp hlk
  exact ((h.added hadd hty).lookup_iff path' hc).mpr
    ⟨parts,hpr,(hadd.path_iff h type).mpr (.inl hpt)⟩

lemma CanAdd.lookup_new {type : NodeType} {path : CString} (hadd : CanAdd m kids path p name d n)
    (h : Sound m kids) (hty : type ≠ .unset) :
    memFsLookupNode (MemFs.added m type d n name) path = some n := by
  obtain ⟨parts,hpr,hseg⟩ := hadd.parts
  exact ((h.added hadd hty).lookup_iff path hadd.ne_noNode).mpr
    ⟨parts,hpr,(hadd.path_iff h type).mpr (.inr ⟨hseg,rfl⟩)⟩

lemma CanAdd.lookup_ne {path path' : CString} {c : ℕ} (hadd : CanAdd m kids path p name d n)
    (h : Sound m kids) (hc : c ≠ noNode) (hlk : memFsLookupNode m path' = some c) : c ≠ n := by
  rintro rfl
  have hus := (h.lookup_proper hlk hc).used
  rw [hadd.free] at hus
  cases hus

lemma findPrevious_chain {l : List ℕ} {c fuel : ℕ} (h : Chain (links m).next noNode c l)
    (hfl : l.length < fuel) (hn : n ∈ l) (hc : c ≠ n) :
    ∃ x ∈ l, (m x).nextSibling = n ∧ findPrevious m n fuel c = some x := by
  induction l generalizing c fuel with
  | nil => cases hn
  | cons x l ih =>
    obtain ⟨rfl,hne,hrs⟩ := h
    obtain ⟨fuel,rfl⟩ := Nat.exists_eq_succ_of_ne_zero (Nat.ne_of_gt (Nat.zero_lt_of_lt hfl))
    have hn' : n ∈ l := (List.mem_cons.mp hn).resolve_left (Ne.symm hc)
    rw [findPrevious]
    by_cases hnx : (m c).nextSibling = n
    · rw [if_neg fun hgo => hgo.2 hnx]
      exact ⟨c,List.mem_cons_self,hnx,rfl⟩
    · rw [if_pos ⟨hne,hnx⟩]
      obtain ⟨y,hy,hyn,hfn⟩ := ih hrs (Nat.lt_of_succ_lt_succ hfl) hn' hnx
      exact ⟨y,List.mem_cons_of_mem c hy,hyn,hfn⟩

lemma freeNode_eq (hn : n < memFsNodes) :
    freeNode m n = update m n ⟨false,.unset,[],noNode,noNode,noNode,[]⟩ :=
  if_neg (Nat.not_le.mpr hn)

/-- What unlinking a child leaves as it was. -/
structure Unlinked (m : Nodes) (kids : ℕ → List ℕ) (d n : ℕ) (m' : Nodes) : Prop where
  removed : Removed (links m) kids d n (links m')
  free : (m' n).used = false
  used : ∀ i, i ≠ n → (m' i).used = (m i).used
  type : ∀ i, i ≠ n → (m' i).type = (m i).type
  payload : ∀ i, i ≠ n → (m' i).payload = (m i).payload

lemma Sound.kid_ne (h : Sound m kids) (hd : Path (links m) kids p d) (hn : n ∈ kids d) : n ≠ d := by
  rintro rfl
  have heq := h.tree.path_injective hd (hd.child hn)
  simp at heq

lemma Sound.unlinkNode (h : Sound m kids) (hd : Path (links m) kids p d) (hn : n ∈ kids d) :
    ∃ m', unlinkNode m n = some m' ∧ Unlinked m kids d n m' := by
  have hpr : (m n).parent = d := h.tree.parent p d hd n hn
  have hlt := (h.proper _ n (hd.child hn)).lt
  have hch := h.tree.chain p d hd
  have hne := h.kid_ne hd hn
  have hno := hch.nodup
  rw [MemFs.unlinkNode.eq_def]
  simp only [hpr]
  split_ifs with hfr
  · refine ⟨_,rfl,?_⟩
    rw [freeNode_eq hlt]
    obtain ⟨rest,hkd⟩ : ∃ rest, kids d = n :: rest := by
      cases hkd : kids d with
      | nil =>
        rw [hkd] at hn
        cases hn
      | cons x rest =>
        rw [hkd] at hch
        exact ⟨rest,by rw [← hfr]; exact congrArg (· :: rest) hch.1.symm⟩
    rw [hkd] at hch hno
    refine ⟨⟨rfl,rfl,?_,?_,?_,?_,?_⟩,?_,?_,?_,?_⟩
    · rw [hkd,List.erase_cons_head]
      simp only [links,update_of_ne (Ne.symm hne),update_self]
      refine hch.2.2.congr fun x hx => ?_
      have hxn : x ≠ n := fun heq => (List.nodup_cons.mp hno).1 (heq ▸ hx)
      simp only [links,update_of_ne hxn]
      by_cases hxd : x = d
      · rw [hxd,update_self]
      · rw [update_of_ne hxd]
    · intro i hid hin
      simp [links,update_of_ne hin,update_of_ne hid]
    · intro i hi
      have hin : i ≠ n := fun heq => hi (heq ▸ hn)
      simp only [links,update_of_ne hin]
      by_cases hid : i = d
      · rw [hid,update_self]
      · rw [update_of_ne hid]
    all_goals first
      | rw [update_self]
      | intro i hin
        simp only [links,update_of_ne hin]
        by_cases hid : i = d
        · rw [hid,update_self]
        · rw [update_of_ne hid]
  · obtain ⟨x,hx,hxx,hfn⟩ := findPrevious_chain hch (h.kids_length hd) hn hfr
    obtain ⟨y,hy,hyn,hyx,hcut⟩ := hch.unlink hn hfr
    obtain rfl : x = y := hch.next_injective hx hy (hxx.trans hyx.symm)
    have hnd := hch.ne_nil hx
    have hxd : x ≠ d := h.kid_ne hd hx
    simp only [links] at hfn hnd
    rw [hfn,map_some,if_pos hnd,freeNode_eq hlt]
    refine ⟨_,rfl,⟨rfl,rfl,?_,?_,?_,?_,?_⟩,?_,?_,?_,?_⟩
    · have hfr' : (links (update (update m x { m x with nextSibling := (m n).nextSibling }) n
          ⟨false,.unset,[],noNode,noNode,noNode,[]⟩)).first d = (links m).first d := by
        simp [links,update_of_ne (Ne.symm hne),update_of_ne (Ne.symm hxd)]
      rw [hfr']
      refine hcut _ ?_ ?_
      · simp [links,update_of_ne hyn,update_self]
      · intro z _ hzx hzn
        simp [links,update_of_ne hzn,update_of_ne hzx]
    · intro i hid hin
      simp only [links,update_of_ne hin]
      by_cases hix : i = x
      · rw [hix,update_self]
      · rw [update_of_ne hix]
    · intro i hi
      have hin : i ≠ n := fun heq => hi (heq ▸ hn)
      have hix : i ≠ x := fun heq => hi (heq ▸ hx)
      simp [links,update_of_ne hin,update_of_ne hix]
    all_goals first
      | rw [update_self]
      | intro i hin
        simp only [links,update_of_ne hin]
        by_cases hix : i = x
        · rw [hix,update_self]
        · rw [update_of_ne hix]

lemma Sound.unlinked (h : Sound m kids) (hd : Path (links m) kids p d) (hn : n ∈ kids d)
    (hun : Unlinked m kids d n m') : Sound m' (removeKid kids d n) := by
  have hrt : 0 ≠ n := by
    rintro rfl
    exact h.tree.root p d hd hn
  refine ⟨h.tree.remove hun.removed hd hn,fun q c hc => ?_,?_⟩
  · obtain ⟨hold,hout⟩ := (h.tree.path_remove hun.removed hd hn).mp hc
    have hcn : c ≠ n := by
      rintro rfl
      exact hout (h.tree.path_injective (hd.child hn) hold ▸ List.prefix_refl _)
    have hpr := h.proper q c hold
    have hlb : (m' c).name = (m c).name := hun.removed.label c hcn
    refine ⟨hpr.lt,by rw [hun.used c hcn,hpr.used],by rw [hun.type c hcn]; exact hpr.type,
      by rw [hlb]; exact hpr.name,by rw [hun.payload c hcn]; exact hpr.payload,
      fun hfl => ?_⟩
    rw [hun.type c hcn] at hfl
    have hem := hpr.file hfl
    have hcd : c ≠ d := by
      rintro rfl
      have hkd := h.tree.chain q c hold
      rw [show (links m).first c = noNode from hem] at hkd
      have hnil : kids c = [] := hkd.unique rfl
      rw [hnil] at hn
      cases hn
    exact (hun.removed.first c hcd hcn).trans hem
  · rw [hun.type 0 hrt]
    exact ⟨h.root.1,(hun.removed.parent 0 hrt).trans h.root.2⟩

lemma foldl_freeNode (m : Nodes) (k : ℕ) (hk : k ≤ memFsNodes) (i : ℕ) :
    (List.range k).foldl freeNode m i =
      if i < k then ⟨false,.unset,[],noNode,noNode,noNode,[]⟩ else m i := by
  induction k with
  | zero => rfl
  | succ k ih =>
    rw [List.range_succ,List.foldl_append,List.foldl_cons,List.foldl_nil,freeNode_eq (by omega)]
    by_cases hik : i = k
    · rw [hik,update_self,if_pos (Nat.lt_succ_self k)]
    · rw [update_of_ne hik,ih (by omega)]
      exact if_congr (by omega) rfl rfl

lemma memFsInit_eq (m : Nodes) : (memFsInit m).1 = 0 ∧
    (memFsInit m).2 0 = ⟨true,.dir,[slash],0,noNode,noNode,[]⟩ ∧
      ∀ i < memFsNodes, i ≠ 0 → (memFsInit m).2 i = ⟨false,.unset,[],noNode,noNode,noNode,[]⟩ := by
  obtain ⟨g,hg⟩ : ∃ g, g = (List.range memFsNodes).foldl freeNode m := ⟨_,rfl⟩
  have hfr : ∀ i < memFsNodes, g i = ⟨false,.unset,[],noNode,noNode,noNode,[]⟩ := by
    intro i hi
    rw [hg,foldl_freeNode m memFsNodes le_rfl,if_pos hi]
  have hal : allocNode g = (0,update g 0 ⟨true,.unset,[],noNode,noNode,noNode,[]⟩) := by
    have hrn : List.range memFsNodes = 0 :: (List.range 127).map Nat.succ :=
      List.range_succ_eq_map
    rw [allocNode,hrn,List.find?_cons_of_pos (by rw [hfr 0 (by decide)]; rfl)]
  simp only [memFsInit,← hg,hal,ne_eq,not_true_eq_false,if_false,update_self]
  refine ⟨trivial,trivial,fun i hi hne => ?_⟩
  rw [update_of_ne hne,update_of_ne hne,hfr i hi]

lemma Sound.init (m : Nodes) : Sound (memFsInit m).2 fun _ => [] := by
  obtain ⟨-,hrt,-⟩ := memFsInit_eq m
  have hon : ∀ p c, Path (links (memFsInit m).2) (fun _ => []) p c → c = 0 :=
    fun p c hc => hc.eq_root rfl
  refine ⟨⟨fun p d hd => ?_,fun _ _ _ c hc => (nomatch hc),fun _ _ _ => List.not_mem_nil,
    fun _ _ _ c hc => (nomatch hc)⟩,fun p c hc => ?_,?_⟩
  · rw [hon p d hd]
    simp only [links,hrt]
    exact rfl
  · obtain rfl := hon p c hc
    refine ⟨by decide,?_,?_,fun hne => (hne rfl).elim,?_,?_⟩ <;> rw [hrt]
    · decide
    · exact Nat.zero_le _
    · exact fun _ => rfl
  · rw [hrt]
    exact ⟨rfl,rfl⟩

lemma setPayload_same (m : Nodes) (n : ℕ) (bytes : List UInt8) :
    links (update m n { m n with payload := bytes }) = links m ∧
      ∀ i, (update m n { m n with payload := bytes } i).used = (m i).used ∧
        (update m n { m n with payload := bytes } i).type = (m i).type := by
  have hfl : ∀ i, (update m n { m n with payload := bytes } i).used = (m i).used ∧
      (update m n { m n with payload := bytes } i).type = (m i).type ∧
      (update m n { m n with payload := bytes } i).name = (m i).name ∧
      (update m n { m n with payload := bytes } i).parent = (m i).parent ∧
      (update m n { m n with payload := bytes } i).firstChild = (m i).firstChild ∧
      (update m n { m n with payload := bytes } i).nextSibling = (m i).nextSibling := by
    intro i
    by_cases hin : i = n
    · subst hin
      simp
    · simp [hin]
  exact ⟨by simp [links,hfl],fun i => ⟨(hfl i).1,(hfl i).2.1⟩⟩

lemma Sound.setPayload (h : Sound m kids) {bytes : List UInt8}
    (hby : bytes.length ≤ memFsPayload) :
    Sound (update m n { m n with payload := bytes }) kids := by
  obtain ⟨hln,hfl⟩ := setPayload_same m n bytes
  refine ⟨hln ▸ h.tree,fun p c hc => ?_,?_⟩
  · rw [hln] at hc
    have hpr := h.proper p c hc
    obtain ⟨hus,hty⟩ := hfl c
    have hnm : (update m n { m n with payload := bytes } c).name = (m c).name :=
      congrArg (fun L => L.label c) hln
    have hfr := congrArg (fun L => L.first c) hln
    refine ⟨hpr.lt,hus.trans hpr.used,hty ▸ hpr.type,fun hrt => ?_,?_,
      fun hfi => ?_⟩
    · exact hnm ▸ hpr.name hrt
    · by_cases hcn : c = n
      · rw [hcn,update_self]
        exact hby
      · rw [update_of_ne hcn]
        exact hpr.payload
    · exact hfr.trans (hpr.file (hty ▸ hfi))
  · have hpa := congrArg (fun L => L.parent 0) hln
    rw [(hfl 0).2]
    exact ⟨h.root.1,hpa.trans h.root.2⟩

lemma Sound.lookup_setPayload (h : Sound m kids) {bytes : List UInt8}
    (hby : bytes.length ≤ memFsPayload) (path : CString) {c : ℕ} (hc : c ≠ noNode) :
    memFsLookupNode (update m n { m n with payload := bytes }) path = some c ↔
      memFsLookupNode m path = some c := by
  rw [(h.setPayload hby).lookup_iff path hc,h.lookup_iff path hc,(setPayload_same m n bytes).1]

/-- What a call can do to the pool. -/
inductive Effect (m : Nodes) (kids : ℕ → List ℕ) : Call → Nodes → (ℕ → List ℕ) → Prop
  | none {c} : (∀ path n, c = .remove path → resolvePath m path = some n → n = noNode ∨ n = 0) →
    Effect m kids c m kids
  | init : Effect m kids .init (memFsInit m).2 fun _ => []
  | added {c type path p name d n} : c = .mkdir path ∨ c = .create path → type ≠ .unset →
    CanAdd m kids path p name d n → Effect m kids c (added m type d n name) (insertKid kids d n)
  | rmdir {path p d n m'} : Path (links m) kids p d → n ∈ kids d → kids n = [] →
    Unlinked m kids d n m' → Effect m kids (.rmdir path) m' (removeKid kids d n)
  | remove {path p d n m'} : resolvePath m path = some n → Path (links m) kids p d → n ∈ kids d →
    Unlinked m kids d n m' → Effect m kids (.remove path) m' (removeKid kids d n)
  | written {path data n bytes} : bytes.length ≤ memFsPayload →
    Effect m kids (.write path data) (update m n { m n with payload := bytes }) kids

lemma Effect.sound {c : Call} {kids' : ℕ → List ℕ} (h : Sound m kids)
    (hef : Effect m kids c m' kids') : Sound m' kids' := by
  cases hef with
  | none _ => exact h
  | init => exact .init m
  | added _ hty hadd => exact h.added hadd hty
  | rmdir hd hn _ hun => exact h.unlinked hd hn hun
  | remove _ hd hn hun => exact h.unlinked hd hn hun
  | written hby => exact h.setPayload hby

lemma Path.listed (hn : Path (links m) kids p n) (hrt : n ≠ 0) :
    ∃ q d, Path (links m) kids q d ∧ n ∈ kids d := by
  rcases hn.inv with ⟨-,heq⟩ | ⟨q,d,hd,hmem,-⟩
  · exact absurd heq hrt
  · exact ⟨q,d,hd,hmem⟩

lemma Sound.kids_eq_nil_iff (h : Sound m kids) (hd : Path (links m) kids p d) :
    kids d = [] ↔ (m d).firstChild = noNode := by
  have hch := h.tree.chain p d hd
  constructor
  · intro hkd
    rw [hkd] at hch
    exact hch
  · intro hfr
    exact hch.unique hfr

lemma Sound.act (h : Sound m kids) (c : Call) :
    ∃ r m' kids', act m c = some (r,m') ∧ Effect m kids c m' kids' := by
  have hkp : ∀ c, (∀ path, c ≠ .remove path) → Effect m kids c m kids := fun c hot =>
    .none fun path _ hc => absurd hc (hot path)
  cases c with
  | init => exact ⟨_,_,_,rfl,.init⟩
  | mkdir path =>
    rcases h.addNode .dir path with ⟨p,name,d,n,hadd,heq⟩ | ⟨-,heq⟩
    · exact ⟨_,_,_,by rw [MemFs.act,memFsMkdir,heq]; rfl,.added (.inl rfl) (by decide) hadd⟩
    · exact ⟨_,_,_,by rw [MemFs.act,memFsMkdir,heq]; rfl,hkp _ (by simp)⟩
  | create path =>
    rcases h.addNode .file path with ⟨p,name,d,n,hadd,heq⟩ | ⟨-,heq⟩
    · exact ⟨_,_,_,by rw [MemFs.act,memFsCreate,heq]; rfl,.added (.inr rfl) (by decide) hadd⟩
    · exact ⟨_,_,_,by rw [MemFs.act,memFsCreate,heq]; rfl,hkp _ (by simp)⟩
  | rmdir path =>
    obtain ⟨n,hn,hcs⟩ := h.resolvePath path
    rw [MemFs.act,memFsRmdir,hn,bind_some]
    by_cases hrt : n = noNode ∨ n = 0
    · exact ⟨_,_,_,by rw [if_pos hrt]; rfl,hkp _ (by simp)⟩
    rw [if_neg hrt]
    by_cases hdir : (m n).type ≠ .dir
    · exact ⟨_,_,_,by rw [if_pos hdir]; rfl,hkp _ (by simp)⟩
    rw [if_neg hdir]
    by_cases hfr : (m n).firstChild ≠ noNode
    · exact ⟨_,_,_,by rw [if_pos hfr]; rfl,hkp _ (by simp)⟩
    rw [if_neg hfr]
    rcases hcs with ⟨parts,-,hpt⟩ | ⟨hno,-⟩
    · obtain ⟨q,d,hd,hmem⟩ := Path.listed hpt fun hzr => hrt (.inr hzr)
      obtain ⟨m',hm',hun⟩ := h.unlinkNode hd hmem
      exact ⟨_,_,_,by rw [hm']; rfl,
        .rmdir hd hmem ((h.kids_eq_nil_iff hpt).mpr (not_not.mp hfr)) hun⟩
    · exact absurd (.inl hno) hrt
  | remove path =>
    obtain ⟨n,hn,hcs⟩ := h.resolvePath path
    rw [MemFs.act,memFsRemove,hn,bind_some]
    by_cases hrt : n = noNode ∨ n = 0
    · refine ⟨_,_,_,by rw [if_pos hrt]; rfl,.none fun path' n' hc hn' => ?_⟩
      cases hc
      exact Option.some.inj (hn.symm.trans hn') ▸ hrt
    rw [if_neg hrt]
    rcases hcs with ⟨parts,-,hpt⟩ | ⟨hno,-⟩
    · obtain ⟨q,d,hd,hmem⟩ := Path.listed hpt fun hzr => hrt (.inr hzr)
      obtain ⟨m',hm',hun⟩ := h.unlinkNode hd hmem
      exact ⟨_,_,_,by rw [hm']; rfl,.remove hn hd hmem hun⟩
    · exact absurd (.inl hno) hrt
  | write path data =>
    obtain ⟨n,hn,-⟩ := h.resolvePath path
    rw [MemFs.act,memFsWrite,hn,map_some]
    by_cases hno : n = noNode
    · exact ⟨_,_,_,by rw [if_pos hno]; rfl,hkp _ (by simp)⟩
    rw [if_neg hno]
    by_cases hfl : (m n).type ≠ .file
    · exact ⟨_,_,_,by rw [if_pos hfl]; rfl,hkp _ (by simp)⟩
    · refine ⟨_,_,_,by rw [if_neg hfl]; rfl,.written ?_⟩
      rw [List.length_take]
      exact min_le_left _ _
  | read path size =>
    obtain ⟨n,hn,-⟩ := h.resolvePath path
    exact ⟨_,_,_,by rw [MemFs.act,memFsRead,hn]; rfl,hkp _ (by simp)⟩
  | ls path max =>
    obtain ⟨n,hn,hcs⟩ := h.resolvePath path
    rw [MemFs.act,memFsLs,hn,bind_some]
    by_cases hno : n = noNode
    · exact ⟨_,_,_,by rw [if_pos hno]; rfl,hkp _ (by simp)⟩
    rw [if_neg hno]
    by_cases hdir : (m n).type ≠ .dir
    · exact ⟨_,_,_,by rw [if_pos hdir]; rfl,hkp _ (by simp)⟩
    rcases hcs with ⟨parts,-,hpt⟩ | ⟨hno',-⟩
    · have hls := listFrom_chain (h.tree.chain _ n hpt) (h.kids_length hpt) max
      exact ⟨_,_,_,by rw [if_neg hdir]; exact congrArg _ (congrArg _ hls),hkp _ (by simp)⟩
    · exact absurd hno' hno
  | lookupNode path =>
    obtain ⟨n,hn,-⟩ := h.resolvePath path
    exact ⟨_,_,_,by rw [MemFs.act,memFsLookupNode,hn]; rfl,hkp _ (by simp)⟩

lemma sound_of_trace {l : List (Call × Reply)} (h : Trace memFsRuns l m) :
    ∃ kids, Sound m kids := by
  refine h.reach.invariant (fun m => ∃ kids, Sound m kids) ?_ ?_
  · intro m hin
    obtain ⟨m₀,hm⟩ : ∃ m₀, m = (memFsInit m₀).2 := hin
    rw [hm]
    exact ⟨fun _ => [],Sound.init m₀⟩
  · rintro m a m' ⟨kids,hs⟩ hst
    obtain ⟨r,m'',kids',hact,hef⟩ := hs.act a.1
    cases Eq.trans hst.symm hact
    exact ⟨kids',hef.sound hs⟩

end HarlinKernel.MemFs
