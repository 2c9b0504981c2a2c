import HarlinKernel.MemFsLeaks

/-! `Harlin_PathNormalize` of `fs/path_walk.c`, and which paths of the in-memory file system name
the same node before and after it. -/
namespace HarlinKernel.MemFs

open TransitionSystem LinkedTree
open List (length_append length_cons replicate)

def dot : UInt8 := 0x2E

/-- The loop of `Harlin_PathNormalize` over the segments, with the stack of those kept so far. -/
def normalizeSegs (stack : List (List UInt8)) : List (List UInt8) → Option (List (List UInt8))
  | [] => some stack
  | seg :: segs =>
    if seg = [dot] then normalizeSegs stack segs
    else if seg = [dot,dot] then normalizeSegs stack.dropLast segs
    else if pathMaxSegments ≤ stack.length then none
    else normalizeSegs (stack ++ [seg]) segs

/-- The loop that writes the segments to a buffer of the given size, behind what it holds. -/
def writeSegs (size : ℕ) (first : Bool) (out : List UInt8) : List (List UInt8) → Option (List UInt8)
  | [] => some out
  | seg :: segs =>
    if first = false ∧ size ≤ out.length+1 then none
    else
      let out := if first then out else out ++ [slash]
      if size ≤ out.length+seg.length then none else writeSegs size false (out ++ seg) segs

/-- The characters stored in a buffer of the given size. -/
def pathNormalize (path : CString) (size : ℕ) : Option (List UInt8) :=
  if size < 2 then none
  else
    match pathParse path with
    | none => none
    | some p =>
      match normalizeSegs [] p.seg with
      | none => none
      | some stack =>
        if p.isAbsolute ∧ size ≤ 1 then none
        else
          (writeSegs size true (if p.isAbsolute then [slash] else []) stack).map fun out =>
            if out = [] then [dot] else out

/-- A buffer after the bytes have been stored at the positions behind them. -/
def store (buf : ℕ → UInt8) (l : List (UInt8 × ℕ)) : ℕ → UInt8 :=
  l.foldl (fun b w => Function.update b w.2 w.1) buf

/-- The stores of `my_cpy`, with the terminator. -/
def myCpy (pos : ℕ) (src : List UInt8) : List (UInt8 × ℕ) := (src ++ [0]).zipIdx pos

/-- The stores of the loop that writes the segments, and the position behind the last one. -/
def storeSegs (size : ℕ) (first : Bool) (pos : ℕ) :
    List (List UInt8) → List (UInt8 × ℕ) × Option ℕ
  | [] => ([],some pos)
  | seg :: segs =>
    if first = false ∧ size ≤ pos+1 then ([],none)
    else
      let sep := if first then [] else [(slash,pos)]
      let pos := if first then pos else pos+1
      if size ≤ pos+seg.length then (sep,none)
      else
        let r := storeSegs size false (pos+seg.length) segs
        (sep ++ myCpy pos seg ++ r.1,r.2)

/-- All stores of `Harlin_PathNormalize` and what it returns. -/
def normalizeStores (path : CString) (size : ℕ) : List (UInt8 × ℕ) × Option ℕ :=
  if size < 2 then ([],none)
  else
    match pathParse path with
    | none => ([],none)
    | some p =>
      match normalizeSegs [] p.seg with
      | none => ([],none)
      | some stack =>
        if p.isAbsolute ∧ size ≤ 1 then ([],none)
        else
          let lead := if p.isAbsolute then [(slash,0)] else []
          match storeSegs size true lead.length stack with
          | (l,none) => (lead ++ l,none)
          | (l,some 0) => (lead ++ l ++ [(dot,0),(0,1)],some 1)
          | (l,some pos) => (lead ++ l ++ [(0,pos)],some pos)

section Segments

variable {segs stack : List (List UInt8)}

/-- A segment that `Harlin_PathParse` can produce. -/
def Segment (seg : List UInt8) : Prop := seg ≠ [] ∧ slash ∉ seg

lemma slash_notMem_splitOn (chars : List UInt8) : ∀ seg ∈ chars.splitOn slash, slash ∉ seg := by
  induction chars with
  | nil => simp
  | cons c chars ih =>
    rw [List.splitOn] at ih ⊢
    rw [List.splitOnP_cons_eq_if_modifyHead]
    split_ifs with hc
    · simpa using ih
    · cases hs : chars.splitOnP (· == slash) with
      | nil => simp
      | cons seg segs => simp_all [Ne.symm (beq_iff_eq.not.mp hc)]

lemma pieces_segment {chars : List UInt8} : ∀ seg ∈ pieces chars, Segment seg := by
  intro seg hseg
  rw [pieces,List.mem_filter] at hseg
  exact ⟨by simpa using hseg.2,slash_notMem_splitOn chars seg hseg.1⟩

/-- The segments with slashes between them. -/
def joinSegs : List (List UInt8) → List UInt8
  | [] => []
  | [seg] => seg
  | seg :: segs => seg ++ slash :: joinSegs segs

lemma joinSegs_cons (seg : List UInt8) (h : segs ≠ []) :
    joinSegs (seg :: segs) = seg ++ slash :: joinSegs segs := by
  cases segs with
  | nil => exact absurd rfl h
  | cons seg' segs => rfl

lemma joinSegs_eq (segs : List (List UInt8)) : joinSegs segs = [slash].intercalate segs := by
  induction segs with
  | nil => rfl
  | cons seg segs ih => cases segs <;> simp_all [joinSegs,List.intercalate]

lemma splitOn_joinSegs (h : ∀ seg ∈ segs, Segment seg) (hne : segs ≠ []) :
    (joinSegs segs).splitOn slash = segs := by
  rw [joinSegs_eq,List.splitOn_intercalate slash (fun seg hseg => (h seg hseg).2) hne]

lemma pieces_joinSegs (h : ∀ seg ∈ segs, Segment seg) : pieces (joinSegs segs) = segs := by
  by_cases hne : segs = []
  · subst hne
    rfl
  · rw [pieces,splitOn_joinSegs h hne,List.filter_eq_self]
    exact fun seg hseg => by simpa using (h seg hseg).1

lemma length_joinSegs (segs : List (List UInt8)) :
    (joinSegs segs).length = (segs.map List.length).sum+(segs.length-1) := by
  induction segs with
  | nil => rfl
  | cons seg segs ih =>
    cases segs with
    | nil => simp [joinSegs]
    | cons seg' segs =>
      simp only [joinSegs,length_append,length_cons,List.map_cons,List.sum_cons] at ih ⊢
      omega

lemma mem_joinSegs {c : UInt8} (hc : c ≠ slash) : c ∈ joinSegs segs ↔ ∃ seg ∈ segs, c ∈ seg := by
  induction segs with
  | nil => simp [joinSegs]
  | cons seg segs ih => cases segs <;> simp_all [joinSegs]

lemma joinSegs_sublist {chars : List UInt8} (h : segs.Sublist (chars.splitOn slash)) :
    (joinSegs segs).length ≤ chars.length ∧ ∀ c ∈ joinSegs segs, c = slash ∨ c ∈ chars := by
  have hch : chars = joinSegs (chars.splitOn slash) := by
    rw [joinSegs_eq,List.intercalate_splitOn]
  constructor
  · rw [hch,length_joinSegs,length_joinSegs]
    have hsum := (h.map List.length).sum_le_sum (fun _ _ => Nat.zero_le _)
    have hlen := h.length_le
    omega
  · intro c hc
    by_cases hsl : c = slash
    · exact .inl hsl
    · obtain ⟨seg,hseg,hc⟩ := (mem_joinSegs hsl).mp hc
      exact .inr (hch ▸ (mem_joinSegs hsl).mpr ⟨seg,h.subset hseg,hc⟩)

/-- A segment that is not one of `.` and `..`. -/
def Plain (seg : List UInt8) : Prop := seg ≠ [dot] ∧ seg ≠ [dot,dot]

lemma normalizeSegs_spec {stack' : List (List UInt8)} (hst : ∀ seg ∈ stack, Plain seg)
    (h : normalizeSegs stack segs = some stack') :
    (∀ seg ∈ stack', Plain seg) ∧ stack'.Sublist (stack ++ segs) := by
  induction segs generalizing stack with
  | nil => simp_all [normalizeSegs]
  | cons seg segs ih =>
    rw [normalizeSegs] at h
    split_ifs at h with hdot hdt hfl
    · obtain ⟨hpl,hsub⟩ := ih hst h
      exact ⟨hpl,hsub.trans ((List.sublist_cons_self seg segs).append_left stack)⟩
    · obtain ⟨hpl,hsub⟩ := ih (fun s hs => hst s (List.mem_of_mem_dropLast hs)) h
      exact ⟨hpl,hsub.trans ((List.dropLast_sublist stack).append
        (List.sublist_cons_self seg segs))⟩
    · have hps : ∀ s ∈ stack ++ [seg], Plain s := by simp_all [or_imp,Plain]
      simpa using ih hps h

lemma normalizeSegs_plain (hsg : ∀ seg ∈ segs, Plain seg)
    (hlen : stack.length+segs.length ≤ pathMaxSegments) :
    normalizeSegs stack segs = some (stack ++ segs) := by
  induction segs generalizing stack with
  | nil => simp [normalizeSegs]
  | cons seg segs ih =>
    have hpl := hsg seg (by simp)
    rw [length_cons] at hlen
    rw [normalizeSegs,if_neg hpl.1,if_neg hpl.2,if_neg (by omega),
      ih (fun s hs => hsg s (by simp [hs])) (by rw [length_append,List.length_singleton]; omega)]
    simp

lemma writeSegs_spec {size : ℕ} {first : Bool} {out r : List UInt8} (hout : out.length < size)
    (h : writeSegs size first out segs = some r) :
    r.length < size ∧
    r = out ++ (if segs = [] then [] else (if first then [] else [slash]) ++ joinSegs segs) := by
  induction segs generalizing out first with
  | nil =>
    cases h
    exact ⟨hout,by simp⟩
  | cons seg segs ih =>
    rw [writeSegs] at h
    obtain ⟨out',hout'⟩ : ∃ out', out' = (if first then out else out ++ [slash]) := ⟨_,rfl⟩
    simp only [← hout'] at h
    split_ifs at h with hrm hln
    obtain ⟨hlen,heq⟩ := ih (by rw [length_append]; omega) h
    refine ⟨hlen,?_⟩
    rw [heq,hout',if_neg (List.cons_ne_nil seg segs)]
    by_cases hsg : segs = []
    · subst hsg
      cases first <;> simp [joinSegs]
    · rw [if_neg hsg,joinSegs_cons seg hsg]
      cases first <;> simp

lemma store_append (buf : ℕ → UInt8) (l l' : List (UInt8 × ℕ)) :
    store buf (l ++ l') = store (store buf l) l' := List.foldl_append

/-- The buffer begins with the characters. -/
def Holds (buf : ℕ → UInt8) (out : List UInt8) : Prop := ∀ i c, out[i]? = some c → buf i = c

lemma Holds.store_zipIdx {buf : ℕ → UInt8} {out : List UInt8} (h : Holds buf out)
    (l : List UInt8) : Holds (store buf (l.zipIdx out.length)) (out ++ l) := by
  induction l generalizing buf out with
  | nil => simpa [store] using h
  | cons c l ih =>
    have hst : Holds (Function.update buf out.length c) (out ++ [c]) := by
      intro i d hd
      rcases lt_trichotomy i out.length with hi | rfl | hi
      · rw [Function.update_of_ne hi.ne]
        exact h i d (by rwa [List.getElem?_append_left hi] at hd)
      · simpa using hd
      · rw [List.getElem?_eq_none (by simpa using hi)] at hd
        cases hd
    simpa [store] using ih hst

lemma Holds.left {buf : ℕ → UInt8} {out l : List UInt8} (h : Holds buf (out ++ l)) :
    Holds buf out := fun i c hc => h i c (by
  rwa [List.getElem?_append_left (List.getElem?_eq_some_iff.mp hc).1])

lemma myCpy_lt {pos size : ℕ} {seg : List UInt8} (h : pos+seg.length < size) :
    ∀ w ∈ myCpy pos seg, w.2 < size := by
  intro w hw
  have hlt := List.snd_lt_of_mem_zipIdx hw
  simp at hlt
  omega

lemma storeSegs_spec {size : ℕ} {first : Bool} {out : List UInt8} (hout : out.length < size) :
    (∀ w ∈ (storeSegs size first out.length segs).1, w.2 < size) ∧
    (storeSegs size first out.length segs).2 = (writeSegs size first out segs).map List.length ∧
    ∀ r, writeSegs size first out segs = some r → ∀ buf, Holds buf out →
    Holds (store buf (storeSegs size first out.length segs).1) r := by
  induction segs generalizing out first with
  | nil => simp_all [storeSegs,writeSegs,store]
  | cons seg segs ih =>
    rw [storeSegs,writeSegs]
    by_cases hrm : first = false ∧ size ≤ out.length+1
    · simp [hrm]
    have hsep : (if first then [] else [(slash,out.length)]) =
        (if first then [] else [slash]).zipIdx out.length := by cases first <;> rfl
    have hpos : (if first then out.length else out.length+1) =
        (out ++ if first then [] else [slash]).length := by cases first <;> simp
    have hnx : (if first then out else out ++ [slash]) =
        out ++ if first then [] else [slash] := by cases first <;> simp
    have hsl : ∀ w ∈ (if first then [] else [slash]).zipIdx out.length, w.2 < size := by
      cases first <;> grind
    simp only [if_neg hrm,hsep,hpos,hnx]
    generalize (if first then [] else [slash]) = sep at hsl ⊢
    split_ifs with hln
    · exact ⟨hsl,rfl,by simp⟩
    have hlen : ((out ++ sep) ++ seg).length < size := by
      rw [length_append]
      omega
    obtain ⟨hlt,hpos,hhl⟩ := @ih false _ hlen
    rw [length_append] at hlt hpos hhl
    refine ⟨?_,hpos,fun r hr buf hbuf => ?_⟩
    · simp only [List.mem_append]
      rintro w ((hw | hw) | hw)
      · exact hsl w hw
      · exact myCpy_lt (not_le.mp hln) w hw
      · exact hlt w hw
    · rw [store_append,store_append]
      have hcpy := (hbuf.store_zipIdx sep).store_zipIdx (seg ++ [0])
      rw [← List.append_assoc] at hcpy
      exact hhl r hr _ hcpy.left

end Segments

section Lookup

variable {m : Nodes} {kids : ℕ → List ℕ} {path : CString} {out : List UInt8} {parts : PathParts}

lemma pathParse_segment (h : pathParse path = some parts) :
    (∀ seg ∈ parts.seg, Segment seg) ∧ parts.seg.length ≤ pathMaxSegments := by
  obtain ⟨chars,-,-,-,rfl⟩ := pathParse_some h
  exact ⟨fun seg hseg => pieces_segment seg (List.mem_of_mem_take hseg),List.length_take_le _ _⟩

lemma pathParse_isAbsolute {chars : List UInt8} (h : pathParse (some chars) = some parts) :
    parts.isAbsolute = decide (chars.head? = some slash) := by
  obtain ⟨_,hsm,-,-,rfl⟩ := pathParse_some h
  rw [Option.some.inj hsm]

lemma pathParse_relative (h : pathParse path = some parts) (hrel : parts.isAbsolute = false) :
    parts.seg ≠ [] := by
  obtain ⟨chars,-,hne,-,rfl⟩ := pathParse_some h
  obtain ⟨c,cs,rfl⟩ := List.exists_cons_of_ne_nil hne
  have hc : c ≠ slash := by simpa using hrel
  rw [pieces_eq]
  simp [hc,pathMaxSegments]

lemma head_joinSegs {segs : List (List UInt8)} (h : ∀ seg ∈ segs, Segment seg) (hne : segs ≠ []) :
    joinSegs segs ≠ [] ∧ (joinSegs segs).head? ≠ some slash := by
  obtain ⟨seg,segs,rfl⟩ := List.exists_cons_of_ne_nil hne
  have hseg := h seg (by simp)
  obtain ⟨c,cs,rfl⟩ := List.exists_cons_of_ne_nil hseg.1
  have hc : c ≠ slash := fun heq => hseg.2 (by simp [heq])
  cases segs with
  | nil => simpa [joinSegs] using hc
  | cons seg' segs => simpa [joinSegs] using hc

lemma pathParse_joinSegs {segs : List (List UInt8)} (isAbsolute : Bool)
    (h : ∀ seg ∈ segs, Segment seg) (hlen : segs.length ≤ pathMaxSegments)
    (hne : isAbsolute = true ∨ segs ≠ [])
    (hsh : ((if isAbsolute then [slash] else []) ++ joinSegs segs).length < pathMaxChars) :
    pathParse (some ((if isAbsolute then [slash] else []) ++ joinSegs segs)) =
      some ⟨isAbsolute,segs⟩ := by
  have htk := List.take_of_length_le hlen
  cases isAbsolute with
  | true =>
    rw [pathParse_eq (by simp) hsh,pieces_eq]
    simp [pieces_joinSegs h,htk]
  | false =>
    obtain ⟨hnil,hhd⟩ := head_joinSegs h (hne.resolve_left Bool.false_ne_true)
    rw [pathParse_eq (by simpa using hnil) hsh]
    simp [pieces_joinSegs h,htk,hhd]

/-- The segments that the normalized path is split into. -/
def normalSegs (parts : PathParts) (stack : List (List UInt8)) : List (List UInt8) :=
  if stack = [] ∧ parts.isAbsolute = false then [[dot]] else stack

lemma pathParse_room {chars : List UInt8} {segs : List (List UInt8)}
    (h : pathParse (some chars) = some parts) (hsub : segs.Sublist parts.seg) :
    ((if parts.isAbsolute then [slash] else []) ++ joinSegs segs).length ≤ chars.length ∧
      ∀ c ∈ joinSegs segs, c = slash ∨ c ∈ chars := by
  obtain ⟨_,heq,-,-,rfl⟩ := pathParse_some h
  cases heq
  have hpc := hsub.trans (List.take_sublist _ _)
  by_cases habs : chars.head? = some slash
  · obtain ⟨cs,rfl⟩ := List.head?_eq_some_iff.mp habs
    rw [pieces_eq] at hpc
    have hcs : segs.Sublist (pieces cs) := by simpa using hpc
    obtain ⟨hlen,hmem⟩ := joinSegs_sublist (hcs.trans List.filter_sublist)
    exact ⟨by simpa using hlen,fun c hc => (hmem c hc).imp_right (List.mem_cons_of_mem slash)⟩
  · simpa [habs] using joinSegs_sublist (hpc.trans List.filter_sublist)

/-- What a call that succeeds has found: the stored path is made of the segments left, is not
longer than the argument and is split into these segments again. -/
theorem pathNormalize_spec {size : ℕ} (h : pathNormalize path size = some out) :
    ∃ chars parts stack, path = some chars ∧ pathParse path = some parts ∧
      normalizeSegs [] parts.seg = some stack ∧ (∀ seg ∈ stack, Plain seg ∧ Segment seg) ∧
      stack.length ≤ pathMaxSegments ∧
      out = (if parts.isAbsolute then [slash] else []) ++ joinSegs (normalSegs parts stack) ∧
      out.length < size ∧ out.length ≤ chars.length ∧ (∀ c ∈ out, c ∈ [slash,dot] ∨ c ∈ chars) ∧
      pathParse (some out) = some ⟨parts.isAbsolute,normalSegs parts stack⟩ := by
  rw [pathNormalize] at h
  split_ifs at h with hsz
  split at h
  · cases h
  rename_i parts hpr
  split at h
  · cases h
  rename_i stack hst
  rw [if_neg (by omega)] at h
  obtain ⟨out',hwr,hout⟩ := Option.map_eq_some_iff.mp h
  obtain ⟨hseg,hlen⟩ := pathParse_segment hpr
  obtain ⟨chars,rfl,hne,hch,-⟩ := pathParse_some hpr
  obtain ⟨hpl,hsub⟩ := normalizeSegs_spec (fun _ hmem => absurd hmem List.not_mem_nil) hst
  obtain ⟨hrm,hmem⟩ := pathParse_room hpr hsub
  obtain ⟨hsh,hjn⟩ := writeSegs_spec (by split_ifs <;> grind) hwr
  have hjn' : out' = (if parts.isAbsolute then [slash] else []) ++ joinSegs stack := by
    rw [hjn]
    cases stack <;> simp [joinSegs]
  have hseg' : ∀ seg ∈ stack, Segment seg := fun seg hs => hseg seg (hsub.subset hs)
  have hlen' := hsub.length_le.trans hlen
  refine ⟨chars,parts,stack,rfl,hpr,hst,fun seg hs => ⟨hpl seg hs,hseg' seg hs⟩,hlen',?_⟩
  by_cases hem : stack = [] ∧ parts.isAbsolute = false
  · have hnil : out' = [] := by simp [hjn',hem,joinSegs]
    rw [if_pos hnil] at hout
    subst hout
    rw [normalSegs,if_pos hem,hem.2]
    exact ⟨rfl,by simp; omega,List.length_pos_iff.mpr hne,by simp,by decide⟩
  have hne' : parts.isAbsolute = true ∨ stack ≠ [] := by grind
  have hout' : out' ≠ [] := by
    rw [hjn']
    rcases hne' with habs | hs
    · simp [habs]
    · simp [(head_joinSegs hseg' hs).1]
  rw [if_neg hout'] at hout
  subst hout
  rw [normalSegs,if_neg hem,← pathParse_joinSegs parts.isAbsolute hseg' hlen' hne'
    (hrm.trans_lt hch),← hjn']
  exact ⟨rfl,hsh,hjn' ▸ hrm,by grind,rfl⟩

lemma normalizeStores_spec (path : CString) (size : ℕ) :
    (∀ w ∈ (normalizeStores path size).1, w.2 < size) ∧
      (normalizeStores path size).2 = (pathNormalize path size).map List.length ∧
      ∀ out, pathNormalize path size = some out → ∀ buf,
        Holds (store buf (normalizeStores path size).1) (out ++ [0]) := by
  rw [normalizeStores,pathNormalize]
  by_cases hsz : size < 2
  · simp [hsz]
  cases hpr : pathParse path with
  | none => simp [hsz]
  | some p =>
    cases hst : normalizeSegs [] p.seg with
    | none => simp [hsz,hst]
    | some stack =>
      have hld : (if p.isAbsolute then [(slash,0)] else []) =
          (if p.isAbsolute then [slash] else []).zipIdx ([] : List UInt8).length := by
        cases p.isAbsolute <;> rfl
      have hsh : (if p.isAbsolute then [slash] else []).length < size := by
        split_ifs <;> grind
      simp only [if_neg hsz,hst,if_neg (show ¬ (p.isAbsolute ∧ size ≤ 1) by omega),hld]
      generalize (if p.isAbsolute then [slash] else []) = lead at hsh ⊢
      have hll : ∀ w ∈ lead.zipIdx ([] : List UInt8).length, w.2 < size := fun w hw => by
        simpa using (List.snd_lt_of_mem_zipIdx hw).trans_le (by simpa using hsh.le)
      obtain ⟨hlt,hpos,hhl⟩ := @storeSegs_spec stack size true lead hsh
      have hbs buf : Holds (store buf (lead.zipIdx ([] : List UInt8).length)) lead := by
        have hnil : Holds buf [] := fun i c hc => by simp at hc
        exact hnil.store_zipIdx lead
      rw [List.length_zipIdx]
      generalize storeSegs size true lead.length stack = r at hlt hpos hhl ⊢
      obtain ⟨l,pos⟩ := r
      cases hw : writeSegs size true lead stack with
      | none =>
        obtain rfl : pos = none := by simpa [hw] using hpos
        exact ⟨by grind,rfl,by simp⟩
      | some out =>
        have hr := (writeSegs_spec hsh hw).1
        have hend buf := hhl out hw _ (hbs buf)
        obtain rfl : pos = some out.length := by simpa [hw] using hpos
        cases out with
        | nil =>
          refine ⟨by simp only [List.length_nil]; grind,rfl,fun _ heq buf => ?_⟩
          obtain rfl : [dot] = _ := Option.some.inj heq
          simp only [List.length_nil,store_append]
          exact (hend buf).store_zipIdx [dot,0]
        | cons c out =>
          refine ⟨by grind,rfl,fun _ heq buf => ?_⟩
          obtain rfl : c :: out = _ := Option.some.inj heq
          simp only [length_cons,store_append]
          exact (hend buf).store_zipIdx [0]

lemma pathNormalize_idem {size : ℕ} (h : pathNormalize path size = some out) :
    pathNormalize (some out) size = some out := by
  obtain ⟨chars,parts,stack,-,hpr,hst,hseg,hlen,-,-,-,-,hag⟩ := pathNormalize_spec h
  have hrun : normalizeSegs [] (normalSegs parts stack) = some stack := by
    rw [normalSegs]
    split_ifs with hem
    · rw [hem.1]
      rfl
    · exact normalizeSegs_plain (fun seg hs => (hseg seg hs).1) (by simpa using hlen)
  rw [pathNormalize,hpr] at h
  rw [pathNormalize,hag]
  simpa only [hst,hrun] using h

/-- A path without `.` and `..`, or the relative path `.` alone. -/
def DotFree (parts : PathParts) : Prop :=
  (∀ seg ∈ parts.seg, Plain seg) ∨ (parts.isAbsolute = false ∧ parts.seg = [[dot]])

lemma normalSegs_eq_iff {stack : List (List UInt8)} (hpr : pathParse path = some parts)
    (hst : normalizeSegs [] parts.seg = some stack) :
    normalSegs parts stack = parts.seg ↔ DotFree parts := by
  obtain ⟨hmem,-⟩ := normalizeSegs_spec (fun _ hmem => absurd hmem List.not_mem_nil) hst
  have heq : (∀ seg ∈ parts.seg, Plain seg) → stack = parts.seg := fun hpl => by
    have hlen := (pathParse_segment hpr).2
    exact Option.some.inj (hst.symm.trans (normalizeSegs_plain hpl (by simpa using hlen)))
  rw [normalSegs]
  split_ifs with hem
  · constructor
    · exact fun hsm => .inr ⟨hem.2,hsm.symm⟩
    · rintro (hpl | ⟨-,hdot⟩)
      · have hnil := pathParse_relative hpr hem.2
        rw [← heq hpl,hem.1] at hnil
        exact absurd rfl hnil
      · exact hdot.symm
  · constructor
    · exact fun hsm => .inl (hsm ▸ hmem)
    · rintro (hpl | ⟨hrel,hdot⟩)
      · exact heq hpl
      · rw [hdot] at hst
        cases hst
        exact absurd ⟨rfl,hrel⟩ hem

/-- `Harlin_PathParse` splits a string into all its pieces if there are not more than eight, and
otherwise drops the rest of them. -/
theorem path_parse_exact_iff (chars : List UInt8) (hne : chars ≠ [])
    (hshort : chars.length < pathMaxChars) :
    (pathParse (some chars) = none ∨
      pathParse (some chars) = some ⟨chars.head? = some slash,pieces chars⟩) ↔
      (pieces chars).length ≤ pathMaxSegments := by
  rw [pathParse_eq hne hshort]
  simp

/-- The path `/a//b`. -/
theorem path_parse_exact_iff_two :
    pathParse (some [slash,0x61,slash,slash,0x62]) = none ∨
      pathParse (some [slash,0x61,slash,slash,0x62]) = some ⟨true,[[0x61],[0x62]]⟩ :=
  (path_parse_exact_iff [slash,0x61,slash,slash,0x62] (by decide) (by decide)).mpr (by decide)

/-- The ninth piece of a path is lost, so that two paths are split alike. -/
theorem path_parse_drops_ninth :
    pathParse (some (joinSegs (replicate 8 [0x61] ++ [[0x62]]))) =
        pathParse (some (joinSegs (replicate 8 [0x61] ++ [[0x63]]))) ∧
      pathParse (some (joinSegs (replicate 8 [0x61] ++ [[0x62]]))) =
        some ⟨false,replicate 8 [0x61]⟩ ∧
      pieces (joinSegs (replicate 8 [0x61] ++ [[0x62]])) = replicate 8 [0x61] ++ [[0x62]] := by
  decide

lemma getLast_ne_slash (h : out ≠ [slash])
    (hseg : ∀ seg ∈ (if out.head? = some slash then out.tail else out).splitOn slash, seg ≠ []) :
    out.getLast? ≠ some slash := by
  intro hls
  obtain ⟨front,rfl⟩ := List.getLast?_eq_some_iff.mp hls
  obtain ⟨c,cs,rfl⟩ := List.exists_cons_of_ne_nil fun hnil : front = [] => h (by simp [hnil])
  refine hseg [] ?_ rfl
  split_ifs
  · rw [List.cons_append,List.tail_cons,List.splitOn_append_cons_self]
    simp
  · rw [List.splitOn_append_cons_self]
    simp

/-- `Harlin_PathNormalize` stores only inside of the buffer. If it succeeds, the path in it is not
longer than the argument, has no empty segment, `.` or `..` but as the path `.` itself, ends in no
slash but as the path `/` itself, and is normalized to itself. -/
theorem normalize_canonical (chars : List UInt8) (hchars : 0 ∉ chars) (size : ℕ)
    (buf : ℕ → UInt8) :
    (∀ w ∈ (normalizeStores (some chars) size).1, w.2 < size) ∧
      ∀ n, (normalizeStores (some chars) size).2 = some n → ∃ out : List UInt8,
        out.length = n ∧ 0 ∉ out ∧
        Holds (store buf (normalizeStores (some chars) size).1) (out ++ [0]) ∧
        n < size ∧ n ≤ chars.length ∧
        (out.head? = some slash ↔ chars.head? = some slash) ∧
        (out = [dot] ∨ out = [slash] ∨
          ∀ seg ∈ (if out.head? = some slash then out.tail else out).splitOn slash,
            seg ≠ [] ∧ seg ≠ [dot] ∧ seg ≠ [dot,dot]) ∧
        (out = [slash] ∨ out.getLast? ≠ some slash) ∧
        (normalizeStores (some out) size).2 = some n ∧
        ∀ buf', Holds (store buf' (normalizeStores (some out) size).1) (out ++ [0]) := by
  obtain ⟨hlt,hre,hhl⟩ := normalizeStores_spec (some chars) size
  refine ⟨hlt,fun n hn => ?_⟩
  obtain ⟨out,hout,rfl⟩ := Option.map_eq_some_iff.mp (hre ▸ hn)
  obtain ⟨-,hre',hhl'⟩ := normalizeStores_spec (some out) size
  have hid := pathNormalize_idem hout
  obtain ⟨_,parts,stack,hsm,hpr,-,hseg,-,heq,hsh,hrm,hmem,hag⟩ :=
    pathNormalize_spec hout
  cases hsm
  have hhd := pathParse_isAbsolute hpr
  have hhd' := pathParse_isAbsolute hag
  have hcm : out = [dot] ∨ out = [slash] ∨
      ∀ seg ∈ (if out.head? = some slash then out.tail else out).splitOn slash,
        seg ≠ [] ∧ seg ≠ [dot] ∧ seg ≠ [dot,dot] := by
    by_cases hst : stack = []
    · rw [heq]
      cases habs : parts.isAbsolute <;> simp [normalSegs,hst,habs,joinSegs]
    · have hbd : (if out.head? = some slash then out.tail else out) = joinSegs stack := by
        cases habs : parts.isAbsolute <;> simp_all [normalSegs]
      rw [hbd,splitOn_joinSegs (fun seg hs => (hseg seg hs).2) hst]
      exact .inr (.inr fun seg hs => ⟨(hseg seg hs).2.1,(hseg seg hs).1⟩)
  refine ⟨out,rfl,?_,hhl out hout buf,hsh,hrm,?_,hcm,?_,?_,hhl' out hid⟩
  · intro hzr
    rcases hmem 0 hzr with hsp | hmem
    · revert hsp
      decide
    · exact hchars hmem
  · rw [← decide_eq_decide,← hhd,← hhd']
  · rcases hcm with rfl | hrt | hcm
    · exact .inr (by decide)
    · exact .inl hrt
    · by_cases hrt : out = [slash]
      · exact .inl hrt
      · exact .inr (getLast_ne_slash hrt fun seg hs => (hcm seg hs).1)
  · rw [hre',hid]
    rfl

theorem normalize_canonical_parent :
    (normalizeStores (some [slash,dot,dot]) 2).2 = some 1 ∧
      ∀ w ∈ (normalizeStores (some [slash,dot,dot]) 2).1, w.2 < 2 :=
  ⟨by decide,(normalize_canonical [slash,dot,dot] (by decide) 2 fun _ => 0).1⟩

/-- The segments lead from the root to a node. -/
inductive Named (m : Nodes) : List (List UInt8) → ℕ → Prop
  | root : Named m [] 0
  | child {p d c} : Named m p d → Listed m (m d).firstChild c → Named m (p ++ [(m c).name]) c

lemma Sound.named_iff (h : Sound m kids) {p : List (List UInt8)} {c : ℕ} :
    Named m p c ↔ Path (links m) kids p c := by
  constructor
  · intro hnm
    induction hnm with
    | root => exact .root
    | child _ hls ih => exact ih.child ((listed_iff_mem (h.tree.chain _ _ ih)).mp hls)
  · intro hpt
    induction hpt with
    | root => exact .root
    | child hd hc ih => exact ih.child ((listed_iff_mem (h.tree.chain _ _ hd)).mpr hc)

lemma Sound.lookup_eq_iff (h : Sound m kids) {path' : CString} {parts' : PathParts}
    (hpr : pathParse path = some parts) (hpr' : pathParse path' = some parts') :
    memFsLookupNode m path = memFsLookupNode m path' ↔ parts'.seg = parts.seg ∨
    ((∀ n, ¬ Named m parts.seg n) ∧ ∀ n, ¬ Named m parts'.seg n) := by
  obtain ⟨r,hr,hcs⟩ := h.resolveSegs .root parts.seg
  obtain ⟨r',hr',hcs'⟩ := h.resolveSegs .root parts'.seg
  have hlk : memFsLookupNode m path = some r := by
    rw [memFsLookupNode,MemFs.resolvePath,hpr]
    exact hr
  have hlk' : memFsLookupNode m path' = some r' := by
    rw [memFsLookupNode,MemFs.resolvePath,hpr']
    exact hr'
  rw [hlk,hlk',Option.some.injEq]
  simp only [h.named_iff]
  rcases hcs with hpt | ⟨rfl,hne⟩
  · constructor
    · rintro rfl
      rcases hcs' with hpt' | ⟨rfl,-⟩
      · exact .inl (h.tree.path_injective hpt' hpt)
      · exact absurd rfl (h.proper _ _ hpt).ne_noNode
    · rintro (hsm | ⟨hno,-⟩)
      · rcases hcs' with hpt' | ⟨-,hne'⟩
        · exact h.tree.path_unique hpt (hsm ▸ hpt')
        · exact absurd (hsm ▸ hpt) (hne' r)
      · exact absurd hpt (hno r)
  · constructor
    · rintro rfl
      rcases hcs' with hpt' | ⟨-,hne'⟩
      · exact absurd rfl (h.proper _ _ hpt').ne_noNode
      · exact .inr ⟨hne,hne'⟩
    · intro hcn
      rcases hcs' with hpt' | ⟨rfl,-⟩
      · rcases hcn with hsm | ⟨-,hno'⟩
        · exact absurd (hsm ▸ hpt') (hne r')
        · exact absurd hpt' (hno' r')
      · rfl

/-- A path and its normalized form name the same node if the path has none of the segments `.` and
`..`, and otherwise only if there is nothing at either of them. -/
theorem lookup_normalized_iff (l : List (Call × Reply)) (m : Nodes) (h : Trace memFsRuns l m)
    (path : CString) (out : List UInt8) (parts parts' : PathParts)
    (hout : pathNormalize path pathMaxChars = some out) (hparse : pathParse path = some parts)
    (hparse' : pathParse (some out) = some parts') :
    memFsLookupNode m path = memFsLookupNode m (some out) ↔
      DotFree parts ∨ ((∀ n, ¬ Named m parts.seg n) ∧ ∀ n, ¬ Named m parts'.seg n) := by
  obtain ⟨kids,hs⟩ := sound_of_trace h
  obtain ⟨chars,p,stack,-,hp,hst,-,-,-,-,-,-,hp'⟩ := pathNormalize_spec hout
  cases hparse.symm.trans hp
  cases hparse'.symm.trans hp'
  rw [hs.lookup_eq_iff hparse hparse',normalSegs_eq_iff hparse hst]

/-- The paths `/a//b` and `/a/b` once both entries are there. -/
theorem lookup_normalized_iff_slashes :
    ∃ l m, Trace memFsRuns l m ∧
      l.map Prod.fst = [.mkdir (some [slash,0x61]),.create (some [slash,0x61,slash,0x62])] ∧
      memFsLookupNode m (some [slash,0x61,slash,slash,0x62]) = some 2 ∧
      memFsLookupNode m (some [slash,0x61,slash,slash,0x62]) =
        memFsLookupNode m (some [slash,0x61,slash,0x62]) :=
  exists_run (P := fun _ m => memFsLookupNode m (some [slash,0x61,slash,slash,0x62]) = some 2)
    emptyPool_init (by decide +kernel) fun l m htr hlk =>
      ⟨hlk,(lookup_normalized_iff l m htr (some [slash,0x61,slash,slash,0x62])
        [slash,0x61,slash,0x62] ⟨true,[[0x61],[0x62]]⟩ ⟨true,[[0x61],[0x62]]⟩ (by decide)
        (by decide) (by decide)).mpr (.inl (.inl (by simp [Plain,dot])))⟩

/-- The path `/.` is normalized to the root, but there is nothing at it. -/
theorem lookup_dot_fails :
    Trace memFsRuns [] emptyPool ∧
      pathNormalize (some [slash,dot]) pathMaxChars = some [slash] ∧
      memFsLookupNode emptyPool (some [slash,dot]) = some noNode ∧
      memFsLookupNode emptyPool (some [slash]) = some 0 :=
  ⟨.start emptyPool_init,by decide,by decide +kernel,by decide +kernel⟩

end Lookup

end HarlinKernel.MemFs
