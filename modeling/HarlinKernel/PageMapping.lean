import HarlinKernel.PageTable

/-! What the functions of `mem/vmm.c` that write page tables do to the translations of all
roots. -/
namespace HarlinKernel.PageTable

open Bitmap PageAllocator LabelledWalk

variable {mem mem' : ℕ → ℕ → ℕ} {p p' : Pmm} {roots : Set ℕ}

lemma userEntry_and (entry flags : ℕ) {m : ℕ} (h : vmmUser &&& m = 0) :
    userEntry entry flags &&& m = entry &&& m := by
  rw [userEntry]
  split
  · rw [Nat.and_or_distrib_right,h,Nat.or_zero]
  · rfl

lemma next_userEntry (mem : ℕ → ℕ → ℕ) (f i flags : ℕ) :
    next (setWord mem f i (userEntry (mem f i) flags)) = next mem := by
  funext n l
  by_cases hwr : n.2 ≠ f ∨ l ≠ i
  · rw [next,next,setWord_other mem _ hwr]
  · push Not at hwr
    obtain ⟨rfl,rfl⟩ := hwr
    rw [next,next,setWord_same]
    apply entryStep_congr
    all_goals rw [userEntry_and _ _ (by decide)]

/-- Tables were only added, in frames that were free. -/
structure Extended (s t : Vmm) (roots : Set ℕ) : Prop where
  tables : Tables t.mem t.pmm roots
  old : ∀ r ∈ roots, ∀ q n, descend (next s.mem) (0,r) q = some n →
    descend (next t.mem) (0,r) q = some n
  new : ∀ r ∈ roots, ∀ q n, descend (next t.mem) (0,r) q = some n →
    descend (next s.mem) (0,r) q = some n ∨ FreeFrame s.pmm n.2
  pmm : Shrunk s.pmm t.pmm
  current : t.currentPml4Phys = s.currentPml4Phys
  kernel : t.kernelPml4Phys = s.kernelPml4Phys

variable {s t u : Vmm} {base table r₀ i v l virt phys frame pt pd f flags : ℕ} {n : Node}
  {q₀ q rest : List ℕ}

lemma Extended.trans (h : Extended s t roots) (h' : Extended t u roots) : Extended s u roots := by
  refine ⟨h'.tables,?_,?_,h.pmm.trans h'.pmm,h'.current.trans h.current,h'.kernel.trans h.kernel⟩
  · intro r hr q n hn
    exact h'.old r hr q n (h.old r hr q n hn)
  · intro r hr q n hn
    rcases h'.new r hr q n hn with hn | hfr
    · exact h.new r hr q n hn
    · exact .inr (h.pmm.free _ hfr)

lemma Extended.outside (h : Extended s t roots) (hout : Outside s.mem roots f)
    (hus : ¬ FreeFrame s.pmm f) : Outside t.mem roots f := by
  rintro r hr q n hn rfl
  rcases h.new r hr q n hn with hold | hfr
  · exact hout r hr q n hold rfl
  · exact hus hfr

lemma Extended.rootFrame_eq (h : Extended s t roots) : rootFrame t = rootFrame s :=
  congrArg (· &&& frameMask) h.current

/-- The registers that hold the roots are the same. -/
def SameRoots (s t : Vmm) : Prop :=
  t.currentPml4Phys = s.currentPml4Phys ∧ t.kernelPml4Phys = s.kernelPml4Phys

lemma Extended.of_descend (htab : Tables s.mem s.pmm roots) (hp : Shrunk s.pmm t.pmm)
    (hrt : SameRoots s t)
    (hsm : ∀ r ∈ roots, ∀ q, descend (next t.mem) (0,r) q = descend (next s.mem) (0,r) q)
    (hal : ∀ r ∈ roots, ∀ q n i base, descend (next s.mem) (0,r) q = some n →
      next t.mem n i = .stop (some (base,0x1FFFFF)) → base % 2^21 = 0) : Extended s t roots := by
  refine ⟨⟨hp.sized,htab.unshared.congr ?_,?_,?_⟩,?_,?_,hp,hrt.1,hrt.2⟩
  · rintro ⟨k,r⟩ ⟨rfl,hr⟩
    exact hsm r hr
  · intro r hr q n i base hn
    rw [hsm r hr] at hn
    exact hal r hr q n i base hn
  · intro r hr q n hn hfr
    rw [hsm r hr] at hn
    exact htab.taken r hr q n hn (hp.free _ hfr)
  · intro r hr q n hn
    rw [hsm r hr,hn]
  · intro r hr q n hn
    rw [hsm r hr] at hn
    exact .inl hn

/-- Besides, no address is translated differently. -/
structure Kept (s t : Vmm) (roots : Set ℕ) : Prop extends Extended s t roots where
  same : ∀ r ∈ roots, ∀ v, physAddr t.mem r v = physAddr s.mem r v

lemma Kept.of_next (h : Tables s.mem s.pmm roots) (hnx : next t.mem = next s.mem)
    (hpmm : t.pmm = s.pmm) (hrt : SameRoots s t) : Kept s t roots := by
  refine ⟨.of_descend h ?_ hrt (fun r hr q => by rw [hnx]) ?_,?_⟩
  · rw [hpmm]
    exact Shrunk.refl h.sized
  · rw [hnx]
    exact h.aligned
  · intro r _ v
    rw [physAddr,physAddr,hnx]

lemma Kept.refl (h : Tables s.mem s.pmm roots) : Kept s s roots :=
  Kept.of_next h rfl rfl ⟨rfl,rfl⟩

lemma Kept.trans (h : Kept s t roots) (h' : Kept t u roots) : Kept s u roots := by
  refine ⟨h.toExtended.trans h'.toExtended,?_⟩
  intro r hr v
  rw [h'.same r hr,h.same r hr]

lemma FreeFrame.aligned (h : FreeFrame p frame) (hs : Sized p) : frame &&& frameMask = frame := by
  obtain ⟨i,hi,rfl,-⟩ := h
  have hmax := hs.small
  have had : frameAddr i = 0x300000+i*4096 := rfl
  exact aligned_and_frameMask (by omega) (by omega)

lemma frameAddr_frame (hs : Sized p) (h : Taken p base 1 p') :
    frameAddr base &&& frameMask = frameAddr base :=
  (Taken.free h).aligned hs

lemma allocPage_spec (hs : Sized s.pmm) : allocPage s = (0,s) ∨ ∃ base,
    (allocPage s).1 = frameAddr base ∧ Taken s.pmm base 1 (allocPage s).2.pmm := by
  rcases pmmAlloc_spec hs with hfl | ⟨base,hbs,htk⟩
  · left
    rw [allocPage,hfl]
  · exact .inr ⟨base,hbs,htk⟩

lemma allocPage_pmm (hs : Sized s.pmm) : Shrunk s.pmm (allocPage s).2.pmm := by
  rcases allocPage_spec hs with hfl | ⟨base,-,htk⟩
  · rw [hfl]
    exact Shrunk.refl hs
  · exact Taken.shrunk htk hs

section Link

variable {s t : Vmm} {r₀ i table base : ℕ} {n : Node} {q₀ : List ℕ}

lemma NewTable.extended (h : NewTable s.mem t.mem n i (frameAddr base))
    (htab : Tables s.mem s.pmm roots) (hr₀ : r₀ ∈ roots)
    (hn : descend (next s.mem) (0,r₀) q₀ = some n) (hbs : Taken s.pmm base 1 t.pmm)
    (hrt : SameRoots s t) :
    Extended s t roots ∧ descend (next t.mem) (0,r₀) (q₀ ++ [i]) = some (n.1+1,frameAddr base) := by
  have hout := htab.outside (Taken.free hbs)
  have hp := Taken.shrunk hbs htab.sized
  have hln := fun r (hr : r ∈ roots) => h.link htab hr₀ hn hout hr
  have htab' := h.tables htab hr₀ hn hout hp (Taken.not_free hbs)
  refine ⟨⟨htab',?_,?_,hp,hrt.1,hrt.2⟩,?_⟩
  · intro r hr q m hm
    exact (hln r hr).descend_old hm
  · intro r hr q m hm
    rcases (hln r hr).descend_cases hm with hm | ⟨rfl,-⟩
    · exact .inl hm
    · exact .inr (Taken.free hbs)
  · exact descend_snoc.mpr ⟨n,(hln r₀ hr₀).descend_old hn,h.linked⟩

lemma NewTable.kept (h : NewTable s.mem t.mem n i (frameAddr base))
    (htab : Tables s.mem s.pmm roots) (hr₀ : r₀ ∈ roots)
    (hn : descend (next s.mem) (0,r₀) q₀ = some n) (hdp : n.1 ≤ 2)
    (hbs : Taken s.pmm base 1 t.pmm) (hrt : SameRoots s t) (hsm : ∀ v q l rest,
    labels v = q ++ i :: l :: rest → q.length = n.1 → ∃ a b, next s.mem n i = .stop a ∧
    next t.mem (n.1+1,frameAddr base) l = .stop b ∧ Leaf.at b v = Leaf.at a v) : Kept s t roots ∧
    descend (next t.mem) (0,r₀) (q₀ ++ [i]) = some (n.1+1,frameAddr base) := by
  have hext := h.extended htab hr₀ hn hbs hrt
  have hout := htab.outside (Taken.free hbs)
  refine ⟨⟨hext.1,?_⟩,hext.2⟩
  intro r hr v
  exact h.translate_eq (h.link htab hr₀ hn hout hr) hdp hsm v

lemma link_clear {entry : ℕ} (htab : Tables s.mem s.pmm roots) (hr₀ : r₀ ∈ roots)
    (hn : descend (next s.mem) (0,r₀) q₀ = some n) (hdp : n.1 ≤ 2)
    (hst : next s.mem n i = .stop none) (hbs : Taken s.pmm base 1 t.pmm)
    (hen : entryStep n.1 entry = .go (n.1+1,frameAddr base))
    (hmem : t.mem = setWord (Function.update s.mem (frameAddr base) fun _ => 0) n.2 i entry)
    (hrt : SameRoots s t) :
    Kept s t roots ∧ descend (next t.mem) (0,r₀) (q₀ ++ [i]) = some (n.1+1,frameAddr base) := by
  have hfr : n.2 ≠ frameAddr base := htab.outside (Taken.free hbs) r₀ hr₀ q₀ n hn
  have hem : entryStep (n.1+1) 0 = .stop none := entryStep_absent _ (Nat.zero_and _)
  have hnew : NewTable s.mem t.mem n i (frameAddr base) := by
    rw [hmem]
    refine newTable_write hfr ?_ hen ?_ ?_
    · simp [hst]
    all_goals simp [hem]
  refine hnew.kept htab hr₀ hn hdp hbs hrt ?_
  intro v q l rest _ _
  refine ⟨none,none,hst,?_,rfl⟩
  rw [next,hmem,setWord_other _ _ (.inl hfr.symm),Function.update_self,hem]

/-- A new table with the given content is linked to entry `i` of a table. -/
def linkTable (s : Vmm) (base : ℕ) (content : ℕ → ℕ) (table i flags : ℕ) : Vmm :=
  { s with
    mem := setWord (Function.update s.mem (frameAddr base) content) table i
      (tableEntry (frameAddr base) flags)
    pmm := (pmmAlloc s.pmm).2 }

lemma linkTable_other {content : ℕ → ℕ} {f l flags : ℕ} (hbs : Taken s.pmm base 1 p')
    (hf : ¬ FreeFrame s.pmm f) (hwr : f ≠ table ∨ l ≠ i) :
    (linkTable s base content table i flags).mem f l = s.mem f l := by
  have hne : f ≠ frameAddr base := fun heq => hf (heq ▸ Taken.free hbs)
  exact (setWord_other _ _ hwr).trans (congrFun (Function.update_of_ne hne _ _) l)

lemma link_empty (flags : ℕ) (htab : Tables s.mem s.pmm roots) (hr₀ : r₀ ∈ roots)
    (hn : descend (next s.mem) (0,r₀) q₀ = some n) (hdp : n.1 ≤ 2)
    (hab : s.mem n.2 i &&& vmmPresent = 0) (hbs : Taken s.pmm base 1 (pmmAlloc s.pmm).2) :
    Kept s (linkTable s base (fun _ => 0) n.2 i flags) roots ∧
      descend (next (linkTable s base (fun _ => 0) n.2 i flags).mem) (0,r₀) (q₀ ++ [i]) =
        some (n.1+1,frameAddr base) :=
  link_clear htab hr₀ hn hdp (entryStep_absent n.1 hab) hbs
    (tableEntry_step flags hdp (frameAddr_frame htab.sized hbs)) rfl ⟨rfl,rfl⟩

end Link

lemma getOrAllocTable_present (flags : ℕ) (hf : table &&& frameMask = f)
    (h : s.mem f i &&& vmmPresent ≠ 0) :
    getOrAllocTable s table i flags =
      (s.mem f i &&& frameMask,
         { s with mem := setWord s.mem f i (userEntry (s.mem f i) flags) }) := by
  simp only [getOrAllocTable,readPtEntry,hf,h,ne_eq,not_false_eq_true,if_true,writePtEntry]
  split_ifs with hsm
  · simp [hsm,setWord]
  · rfl

/-- A present entry stays, open to the user if the flags say so; else an empty table is linked
if a frame is free. -/
theorem getOrAllocTable_cases (hs : Sized s.pmm) (hf : table &&& frameMask = f) (i flags : ℕ) :
    s.mem f i &&& vmmPresent ≠ 0 ∧
      getOrAllocTable s table i flags =
        (s.mem f i &&& frameMask,
           { s with mem := setWord s.mem f i (userEntry (s.mem f i) flags) }) ∨
    s.mem f i &&& vmmPresent = 0 ∧
      (getOrAllocTable s table i flags = (0,s) ∨ ∃ base, Taken s.pmm base 1 (pmmAlloc s.pmm).2 ∧
          getOrAllocTable s table i flags =
            (frameAddr base,linkTable s base (fun _ => 0) f i flags)) := by
  by_cases hpr : s.mem f i &&& vmmPresent = 0
  · refine .inr ⟨hpr,?_⟩
    simp only [getOrAllocTable,readPtEntry,hf,hpr,ne_eq,not_true_eq_false,if_false]
    rcases allocPage_spec hs with hfl | ⟨base,hpage,hbs⟩
    · exact .inl (by simp [hfl])
    · refine .inr ⟨base,hbs,?_⟩
      simp only [hpage,frameAddr_ne_zero,if_false,linkTable,tableEntry,frameAddr_frame hs hbs]
      rw [← hf]
      rfl
  · exact .inl ⟨hpr,getOrAllocTable_present flags hf hpr⟩

lemma getOrAllocTable_spec (flags : ℕ) (htab : Tables s.mem s.pmm roots) (hr₀ : r₀ ∈ roots)
    (hn : descend (next s.mem) (0,r₀) q₀ = some n) (hdp : n.1 ≤ 1)
    (hfr : table &&& frameMask = n.2) :
    Kept s (getOrAllocTable s table i flags).2 roots ∧
    ((getOrAllocTable s table i flags).1 = 0 ∨
      descend (next (getOrAllocTable s table i flags).2.mem) (0,r₀) (q₀ ++ [i]) =
          some (n.1+1,(getOrAllocTable s table i flags).1) ∧
        (getOrAllocTable s table i flags).1 &&& frameMask =
          (getOrAllocTable s table i flags).1) := by
  rcases getOrAllocTable_cases htab.sized hfr i flags with
    ⟨hpr,heq⟩ | ⟨hab,heq | ⟨base,hbs,heq⟩⟩ <;> rw [heq]
  · have hgo : next s.mem n i = .go (n.1+1,s.mem n.2 i &&& frameMask) :=
      entryStep_table (by omega) hpr fun hk => by omega
    have hkp : Kept s { s with mem := setWord s.mem n.2 i (userEntry (s.mem n.2 i) flags) } roots :=
      Kept.of_next htab (next_userEntry s.mem n.2 i flags) rfl ⟨rfl,rfl⟩
    exact ⟨hkp,.inr ⟨hkp.old r₀ hr₀ _ _ (descend_snoc.mpr ⟨n,hn,hgo⟩),and_frameMask_and _⟩⟩
  · exact ⟨Kept.refl htab,.inl rfl⟩
  · obtain ⟨hkp,hln⟩ := link_empty flags htab hr₀ hn (by omega) hab hbs
    exact ⟨hkp,.inr ⟨hln,frameAddr_frame htab.sized hbs⟩⟩

/-- The entries that lead to the page table of `virt`. -/
def tablePath (virt : ℕ) : List ℕ := [pml4Idx virt,pdptIdx virt,pdIdx virt]

lemma labels_eq (virt : ℕ) : labels virt = tablePath virt ++ [ptIdx virt] := rfl

lemma tablePath_eq (h : labels v = q ++ i :: (rest ++ [l])) : tablePath v = q ++ i :: rest := by
  have hin := congrArg List.dropLast h
  rw [← List.cons_append,← List.append_assoc,List.dropLast_concat] at hin
  exact hin

/-- The state after the page of `virt` was mapped under the root `r₀`: the other roots see
the page if they share its page table. -/
structure Mapped (s t : Vmm) (roots : Set ℕ) (r₀ virt phys : ℕ) : Prop
    extends Extended s t roots where
  table : ∃ frame, descend (next t.mem) (0,r₀) (tablePath virt) = some (3,frame)
  page : ∀ r ∈ roots, ∀ v, physAddr t.mem r v =
    if labels v = labels virt ∧ descend (next t.mem) (0,r) (tablePath virt) =
        descend (next t.mem) (0,r₀) (tablePath virt) then
      some ((phys &&& frameMask) ||| (v &&& 0xFFF))
    else physAddr s.mem r v
  replaced : t.lastReplacedPhys = ((physAddr s.mem r₀ virt).map (· &&& frameMask)).getD 0

lemma Kept.mapped (h : Kept s t roots) (hr₀ : r₀ ∈ roots)
    (h' : Mapped t u roots r₀ virt phys) : Mapped s u roots r₀ virt phys := by
  refine ⟨h.toExtended.trans h'.toExtended,h'.table,?_,?_⟩
  · intro r hr v
    rw [h'.page r hr,h.same r hr]
  · rw [h'.replaced,h.same r₀ hr₀]

lemma noteReplaced_eq (s : Vmm) (pt idx : ℕ) : noteReplaced s pt idx =
    { s with lastReplacedPhys := (noteReplaced s pt idx).lastReplacedPhys } := by
  rw [noteReplaced]
  split <;> rfl

lemma noteReplaced_frame (hls : s.lastReplacedPhys = 0)
    (hn : descend (next s.mem) (0,r₀) (tablePath virt) = some (3,frame))
    (hfr : pt &&& frameMask = frame) : (noteReplaced s pt (ptIdx virt)).lastReplacedPhys =
    ((physAddr s.mem r₀ virt).map (· &&& frameMask)).getD 0 := by
  have hof : virt &&& 0xFFF < 4096 := lt_of_le_of_lt Nat.and_le_right (by decide)
  rw [physAddr,labels_eq,follow_append hn]
  simp only [noteReplaced,readPtEntry,hfr,follow,next]
  by_cases hpr : s.mem frame (ptIdx virt) &&& vmmPresent = 0
  · simp only [hpr,entryStep_absent _ hpr,ne_eq,not_true_eq_false,if_false]
    exact hls
  · simp only [hpr,entryStep_page hpr,ne_eq,not_false_eq_true,if_true]
    exact (entry_frame (and_frameMask_and _) hof).symm

lemma LeafSet.extended (h : LeafSet s.mem t.mem n i) (htab : Tables s.mem s.pmm roots)
    (hr₀ : r₀ ∈ roots) (hn : descend (next s.mem) (0,r₀) q₀ = some n) (hpmm : t.pmm = s.pmm)
    (hrt : SameRoots s t) : Extended s t roots := by
  have hp : Shrunk s.pmm t.pmm := by
    rw [hpmm]
    exact Shrunk.refl htab.sized
  refine .of_descend htab hp hrt (fun r hr => h.descend_eq htab hr₀ hn hr) ?_
  intro r hr q m l b hm hst
  by_cases hne : m ≠ n ∨ l ≠ i
  · rw [h.edited htab hr₀ hn hr q m l hm hne] at hst
    exact htab.aligned r hr q m l b hm hst
  · push Not at hne
    obtain ⟨rfl,rfl⟩ := hne
    exact (h.small b hst).elim

lemma LeafSet.tables (h : LeafSet mem mem' n i) (htab : Tables mem p roots) (hr₀ : r₀ ∈ roots)
    (hn : descend (next mem) (0,r₀) q₀ = some n) : Tables mem' p roots :=
  (h.extended (s:=⟨mem,p,0,0,0⟩) (t:=⟨mem',p,0,0,0⟩) htab hr₀ hn rfl ⟨rfl,rfl⟩).tables

lemma mapInPt_mem (s : Vmm) (pt virt phys flags : ℕ) : (mapInPt s pt virt phys flags).2.mem =
    setWord s.mem (pt &&& frameMask) (ptIdx virt) (pageEntry phys flags) := by
  rw [mapInPt,noteReplaced_eq]
  rfl

lemma mapInPt_spec (phys flags : ℕ) (htab : Tables s.mem s.pmm roots) (hr₀ : r₀ ∈ roots)
    (hn : descend (next s.mem) (0,r₀) (tablePath virt) = some (3,frame))
    (hfr : pt &&& frameMask = frame) (hls : s.lastReplacedPhys = 0) :
    (mapInPt s pt virt phys flags).1 = 0 ∧
    Mapped s (mapInPt s pt virt phys flags).2 roots r₀ virt (pageEntry phys flags) := by
  refine ⟨rfl,?_⟩
  have hrp := noteReplaced_frame hls hn hfr
  rw [mapInPt,noteReplaced_eq,writePtEntry,hfr]
  have hset : LeafSet s.mem (setWord s.mem frame (ptIdx virt) (pageEntry phys flags)) (3,frame)
      (ptIdx virt) := leafSet_page
  have hds := fun r (hr : r ∈ roots) => hset.descend_eq htab hr₀ hn hr
  refine ⟨hset.extended htab hr₀ hn rfl ⟨rfl,rfl⟩,⟨frame,(hds r₀ hr₀ _).trans hn⟩,?_,
    hrp⟩
  intro r hr v
  have hen : pageEntry phys flags &&& vmmPresent ≠ 0 := or_present _ _
  simp only [hds r hr,hds r₀ hr₀,hn]
  rw [translate_setPage hen htab hr₀ hn hr v]
  rfl

lemma fillSplit_mem (s : Vmm) (pt old n f l : ℕ) : (fillSplit s pt old n).mem f l = if f = pt &&&
    frameMask ∧ l < n then splitEntry old l else s.mem f l := by
  induction n with
  | zero => simp [fillSplit]
  | succ n ih =>
    simp only [fillSplit,writePtEntry]
    by_cases hwr : f ≠ pt &&& frameMask ∨ l ≠ n
    · rw [setWord_other _ _ hwr,ih]
      refine if_congr ?_ rfl rfl
      omega
    · push Not at hwr
      obtain ⟨rfl,rfl⟩ := hwr
      simp

lemma fillSplit_eq (s : Vmm) (pt old n : ℕ) :
    fillSplit s pt old n = { s with mem := (fillSplit s pt old n).mem } := by
  induction n with
  | zero => rfl
  | succ n ih =>
    rw [fillSplit,writePtEntry,ih]

lemma split_order (s : Vmm) (virt phys flags entry : ℕ) (h : pt &&& frameMask ≠ pd &&& frameMask) :
    writePtEntry
      (writePtEntry (noteReplaced s pt (ptIdx virt)) pt (ptIdx virt) (pageEntry phys flags)) pd
      (pdIdx virt) entry =
      (mapInPt (writePtEntry s pd (pdIdx virt) entry) pt virt phys flags).2 := by
  have hrd : readPtEntry (writePtEntry s pd (pdIdx virt) entry) pt (ptIdx virt) =
      readPtEntry s pt (ptIdx virt) := setWord_other _ _ (.inl h)
  simp only [mapInPt,noteReplaced,hrd]
  split <;> simp [writePtEntry,setWord_comm _ _ _ _ _ h]

lemma labels_pt (h : labels v = q ++ i :: l :: rest) (hlen : q.length = 2) : l = ptIdx v := by
  obtain ⟨a,b,rfl⟩ := List.length_eq_two.mp hlen
  simp only [labels,List.cons_append,List.nil_append,List.cons.injEq] at h
  exact h.2.2.2.1.symm

/-- The content of the page table that replaces an entry. -/
def splitTable (old l : ℕ) : ℕ := if old &&& vmmPresent ≠ 0 ∧ l < 512 then splitEntry old l else 0

lemma splitTable_absent {old : ℕ} (h : old &&& vmmPresent = 0) : splitTable old = fun _ => 0 :=
  funext fun _ => if_neg fun hbad => hbad.1 h

/-- An entry that is absent or of 2 MiB is replaced by a page table with the same
translations. -/
theorem link_split (flags : ℕ) (htab : Tables s.mem s.pmm roots) (hr₀ : r₀ ∈ roots)
    (hn : descend (next s.mem) (0,r₀) [pml4Idx virt,pdptIdx virt] = some (2,f))
    (hhg : s.mem f (pdIdx virt) &&& vmmPresent ≠ 0 → s.mem f (pdIdx virt) &&& vmmHuge ≠ 0)
    (hbs : Taken s.pmm base 1 (pmmAlloc s.pmm).2)
    (ht : t = linkTable s base (splitTable (s.mem f (pdIdx virt))) f (pdIdx virt) flags) :
    Kept s t roots ∧ descend (next t.mem) (0,r₀) (tablePath virt) = some (3,frameAddr base) := by
  have hms := frameAddr_frame htab.sized hbs
  by_cases hpr : s.mem f (pdIdx virt) &&& vmmPresent = 0
  · rw [ht,splitTable_absent hpr]
    exact link_empty flags htab hr₀ hn le_rfl hpr hbs
  have hst : next s.mem (2,f) (pdIdx virt) = .stop (some _) :=
    entryStep_huge hpr (hhg hpr)
  have hal : (s.mem f (pdIdx virt) &&& frameMask) % 2^21 = 0 :=
    htab.aligned r₀ hr₀ _ _ _ _ hn hst
  have hfr : f ≠ frameAddr base := htab.outside (Taken.free hbs) r₀ hr₀ _ _ hn
  have hnew : NewTable s.mem t.mem (2,f) (pdIdx virt) (frameAddr base) := by
    rw [ht]
    refine newTable_write (n:=(2,f)) hfr ?_ (tableEntry_step flags le_rfl hms)
      (fun l => (entryStep_last _).1) fun l b hbad => ((entryStep_last _).2 b hbad).elim
    simp [hst]
  subst ht
  refine hnew.kept htab hr₀ hn le_rfl hbs ⟨rfl,rfl⟩ ?_
  intro v q l rest hlb hlen
  obtain rfl := labels_pt hlb hlen
  have hen : (linkTable s base (splitTable (s.mem f (pdIdx virt))) f (pdIdx virt) flags).mem
      (frameAddr base) (ptIdx v) = splitEntry (s.mem f (pdIdx virt)) (ptIdx v) := by
    rw [linkTable]
    dsimp only
    rw [setWord_other _ _ (.inl hfr.symm),Function.update_self,splitTable,
      if_pos ⟨hpr,ptIdx_lt v⟩]
  refine ⟨_,_,hst,entryStep_page ?_,?_⟩
  · rw [hen,splitEntry_present]
    exact hpr
  · simp [Leaf.at,Option.map_some,hen,splitEntry_frame hal (ptIdx_lt v),split_offset hal]

lemma fillSplit_cleared (s : Vmm) (old : ℕ) (hpr : old &&& vmmPresent ≠ 0)
    (hpage : pt &&& frameMask = pt) : fillSplit (clearPagePhys s pt) pt old 512 =
      { s with mem := Function.update s.mem pt (splitTable old) } := by
  rw [fillSplit_eq]
  refine congrArg (fun mem => { s with mem := mem }) ?_
  funext f l
  rw [fillSplit_mem,hpage]
  by_cases hf : f = pt
  · subst hf
    simp [clearPagePhys,splitTable,hpr]
  · simp [clearPagePhys,hf]

lemma mapInPd_cases {old : ℕ} (hs : Sized s.pmm) (hf : pd &&& frameMask = f)
    (hus : ¬ FreeFrame s.pmm f) (hold : s.mem f (pdIdx virt) = old) (phys flags : ℕ) :
    old &&& vmmPresent ≠ 0 ∧ old &&& vmmHuge = 0 ∧
      mapInPd s pd virt phys flags = mapInPt s (old &&& frameMask) virt phys flags ∨
    (old &&& vmmPresent ≠ 0 → old &&& vmmHuge ≠ 0) ∧
      (mapInPd s pd virt phys flags = (-1,s) ∨ ∃ base, Taken s.pmm base 1 (pmmAlloc s.pmm).2 ∧
          mapInPd s pd virt phys flags =
            mapInPt (linkTable s base (splitTable old) f (pdIdx virt) flags) (frameAddr base) virt
              phys flags) := by
  simp only [mapInPd,readPtEntry,hf,hold]
  by_cases hpr : old &&& vmmPresent = 0
  · refine .inr ⟨fun h => absurd hpr h,?_⟩
    simp only [hpr,ne_eq,not_true_eq_false,if_false,splitTable_absent hpr]
    rcases allocPage_spec hs with hfl | ⟨base,hpage,hbs⟩
    · exact .inl (by simp [hfl])
    · refine .inr ⟨base,hbs,?_⟩
      rw [hpage,if_neg (frameAddr_ne_zero base),← hf]
      rfl
  by_cases hhg : old &&& vmmHuge = 0
  · simp [hpr,hhg]
  refine .inr ⟨fun _ => hhg,?_⟩
  simp only [hpr,hhg,ne_eq,not_false_eq_true,if_true]
  rcases allocPage_spec hs with hfl | ⟨base,hpage,hbs⟩
  · exact .inl (by simp [hfl])
  refine .inr ⟨base,hbs,?_⟩
  have hms := frameAddr_frame hs hbs
  have hds : frameAddr base &&& frameMask ≠ pd &&& frameMask := by
    rw [hms,hf]
    exact fun hbad => hus (hbad ▸ Taken.free hbs)
  rw [hpage,if_neg (frameAddr_ne_zero base),split_order _ virt phys flags _ hds,
    fillSplit_cleared _ old hpr hms,← hf]
  rfl

lemma mapInPd_spec (phys flags : ℕ) (htab : Tables s.mem s.pmm roots) (hr₀ : r₀ ∈ roots)
    (hn : descend (next s.mem) (0,r₀) [pml4Idx virt,pdptIdx virt] = some (2,f))
    (hfr : pd &&& frameMask = f) (hls : s.lastReplacedPhys = 0) :
    (mapInPd s pd virt phys flags).1 = -1 ∧ Kept s (mapInPd s pd virt phys flags).2 roots ∨
    (mapInPd s pd virt phys flags).1 = 0 ∧
      Mapped s (mapInPd s pd virt phys flags).2 roots r₀ virt (pageEntry phys flags) := by
  rcases mapInPd_cases htab.sized hfr (htab.taken r₀ hr₀ _ _ hn) rfl phys flags with
    ⟨hpr,hhg,heq⟩ | ⟨hhg,heq | ⟨base,hbs,heq⟩⟩ <;> rw [heq]
  · have htb := (descend_snoc (p:=[pml4Idx virt,pdptIdx virt])).mpr
      ⟨_,hn,entryStep_table le_rfl hpr fun _ => hhg⟩
    exact .inr (mapInPt_spec phys flags htab hr₀ htb (and_frameMask_and _) hls)
  · exact .inl ⟨rfl,Kept.refl htab⟩
  · obtain ⟨hkp,hln⟩ := link_split flags htab hr₀ hn hhg hbs rfl
    have hpt := mapInPt_spec phys flags hkp.tables hr₀ hln (frameAddr_frame htab.sized hbs) hls
    exact .inr ⟨hpt.1,hkp.mapped hr₀ hpt.2⟩

/-- The rule for `vmm_map`: what each table on the way keeps leads to what the last one
gives. -/
theorem vmmMap_rule {P : Vmm → Prop} {Q : ℤ × Vmm → Prop} (htab : Tables s.mem s.pmm roots)
    (hrt : rootFrame s ∈ roots) (hfl : ∀ u, P u → Q (-1,u)) (hs : P s)
    (hpml4 : P (getOrAllocTable s s.currentPml4Phys (pml4Idx virt) flags).2)
    (hpp : ∀ u pdpt, Extended s u roots →
      descend (next u.mem) (0,rootFrame s) [pml4Idx virt] = some (1,pdpt) →
      pdpt &&& frameMask = pdpt → P u → P (getOrAllocTable u pdpt (pdptIdx virt) flags).2)
    (hpd : ∀ u pd, Extended s u roots →
      descend (next u.mem) (0,rootFrame s) [pml4Idx virt,pdptIdx virt] =
        some (2,pd) → pd &&& frameMask = pd → P u →
      Q (mapInPd { u with lastReplacedPhys := 0 } pd virt phys flags)) :
    Q (vmmMap s virt phys flags) := by
  rw [vmmMap]
  split_ifs
  · exact hfl s hs
  have hst : descend (next s.mem) (0,rootFrame s) [] = some (0,rootFrame s) := rfl
  have hsp := getOrAllocTable_spec (i:=pml4Idx virt) flags htab hrt hst (Nat.zero_le 1) rfl
  generalize getOrAllocTable s s.currentPml4Phys (pml4Idx virt) flags = pdpt at hpml4 hsp ⊢
  obtain ⟨hkp,hnx⟩ := hsp
  by_cases hzr : pdpt.1 = 0
  · simp only [hzr,if_true]
    exact hfl _ hpml4
  obtain ⟨hds,hms⟩ := hnx.resolve_left hzr
  simp only [hzr,if_false]
  have hmid := hpp pdpt.2 pdpt.1 hkp.toExtended hds hms hpml4
  have hsp' := getOrAllocTable_spec (i:=pdptIdx virt) flags hkp.tables hrt hds
    (le_refl 1) hms
  generalize getOrAllocTable pdpt.2 pdpt.1 (pdptIdx virt) flags = pd at hmid hsp' ⊢
  obtain ⟨hkp',hnx'⟩ := hsp'
  by_cases hzr' : pd.1 = 0
  · simp only [hzr',if_true]
    exact hfl _ hmid
  obtain ⟨hds',hms'⟩ := hnx'.resolve_left hzr'
  simp only [hzr',if_false]
  exact hpd pd.2 pd.1 (hkp.trans hkp').toExtended hds' hms' hmid

lemma vmmMap_entry (virt phys flags : ℕ) (htab : Tables s.mem s.pmm roots)
    (hrt : rootFrame s ∈ roots) :
    (vmmMap s virt phys flags).1 = -1 ∧ Kept s (vmmMap s virt phys flags).2 roots ∨
    (vmmMap s virt phys flags).1 = 0 ∧
      Mapped s (vmmMap s virt phys flags).2 roots (rootFrame s) virt
        (pageEntry phys flags) := by
  have hst : descend (next s.mem) (0,rootFrame s) [] = some (0,rootFrame s) := rfl
  refine vmmMap_rule (P := (Kept s · roots)) (Q := fun r => r.1 = -1 ∧ Kept s r.2 roots ∨
    r.1 = 0 ∧ Mapped s r.2 roots (rootFrame s) virt (pageEntry phys flags))
    htab hrt (fun u hu => .inl ⟨rfl,hu⟩) (Kept.refl htab)
    (getOrAllocTable_spec flags htab hrt hst (Nat.zero_le 1) rfl).1 ?_ ?_
  · intro u pdpt _ hds hms hu
    exact hu.trans (getOrAllocTable_spec flags hu.tables hrt hds (le_refl 1) hms).1
  · intro u pd _ hds hms hu
    have hrs : Kept s { u with lastReplacedPhys := 0 } roots :=
      hu.trans (Kept.of_next hu.tables rfl rfl ⟨rfl,rfl⟩)
    rcases mapInPd_spec phys flags hrs.tables hrt hds hms rfl with hfl | hdn
    · exact .inl ⟨hfl.1,hrs.trans hfl.2⟩
    · exact .inr ⟨hdn.1,hrs.mapped hrt hdn.2⟩

lemma Mapped.of_frame {phys' : ℕ} (h : Mapped s t roots r₀ virt phys)
    (hph : phys &&& frameMask = phys' &&& frameMask) : Mapped s t roots r₀ virt phys' := by
  refine ⟨h.toExtended,h.table,?_,h.replaced⟩
  rw [← hph]
  exact h.page

lemma vmmMap_spec (virt phys : ℕ) (htab : Tables s.mem s.pmm roots)
    (hrt : rootFrame s ∈ roots) (hfg : flags < 8) :
    (vmmMap s virt phys flags).1 = -1 ∧ Kept s (vmmMap s virt phys flags).2 roots ∨
    (vmmMap s virt phys flags).1 = 0 ∧
      Mapped s (vmmMap s virt phys flags).2 roots (rootFrame s) virt phys := by
  rcases vmmMap_entry virt phys flags htab hrt with hfl | ⟨hrc,hmp⟩
  · exact .inl hfl
  · exact .inr ⟨hrc,hmp.of_frame (pageEntry_frame phys hfg)⟩

lemma vmmMap_tables (virt phys flags : ℕ)
    (htab : Tables s.mem s.pmm {rootFrame s}) :
    Tables (vmmMap s virt phys flags).2.mem (vmmMap s virt phys flags).2.pmm
      {rootFrame (vmmMap s virt phys flags).2} := by
  rcases vmmMap_entry virt phys flags htab rfl with ⟨-,hkp⟩ | ⟨-,hmp⟩
  · rw [hkp.rootFrame_eq]
    exact hkp.tables
  · rw [hmp.rootFrame_eq]
    exact hmp.tables

/-- The state after a page was unmapped: of the addresses with a page table only those of
the page are translated differently. -/
structure Unmapped (s t : Vmm) (roots : Set ℕ) (virt : ℕ) : Prop extends Extended s t roots where
  same : ∀ r ∈ roots, ∀ v frame, descend (next s.mem) (0,r) (tablePath v) = some (3,frame) →
    labels v ≠ labels virt → physAddr t.mem r v = physAddr s.mem r v

lemma Unmapped.refl (h : Tables s.mem s.pmm roots) (virt : ℕ) : Unmapped s s roots virt :=
  ⟨(Kept.refl h).toExtended,fun _ _ _ _ _ _ => rfl⟩

lemma LeafSet.unmapped
    (h : LeafSet s.mem t.mem n i) (htab : Tables s.mem s.pmm roots) (hr₀ : r₀ ∈ roots)
    (hn : descend (next s.mem) (0,r₀) q₀ = some n) (hlb : labels virt = q₀ ++ i :: rest)
    (hpmm : t.pmm = s.pmm) (hrt : SameRoots s t) : Unmapped s t roots virt := by
  refine ⟨h.extended htab hr₀ hn hpmm hrt,?_⟩
  intro r hr v frame hv hne
  rw [physAddr,(h.edited htab hr₀ hn hr).follow_eq,physAddr]
  rintro ⟨q,rest',hq,hd⟩
  have hpt : q = q₀ := htab.unshared (0,r) ⟨rfl,hr⟩ (0,r₀) ⟨rfl,hr₀⟩ q q₀ n n hd hn rfl
  subst hpt
  cases rest' using List.reverseRecOn with
  | nil =>
    refine hne ?_
    have hlen : (labels v).length = (labels virt).length := rfl
    rw [hq,hlb,List.length_append,List.length_append] at hlen
    simp only [List.length_cons,List.length_nil] at hlen
    have hrs : rest = [] := List.length_eq_zero_iff.mp (by omega)
    rw [hq,hlb,hrs]
  | append_singleton rest' l =>
    obtain ⟨k,hk⟩ := Uses.go ⟨q,rest',tablePath_eq hq,hd⟩ hv
    exact h.before k hk

lemma leafSet_clear (hpr : mem frame i &&& vmmPresent ≠ 0)
    (hhg : mem frame i &&& vmmHuge ≠ 0) : LeafSet mem (setWord mem frame i 0) (2,frame) i := by
  have hab : entryStep 2 0 = .stop none := entryStep_absent 2 (Nat.zero_and _)
  refine ⟨fun f l hwr => setWord_other _ _ hwr,?_,?_,?_⟩
  · simp [next,entryStep_huge hpr hhg]
  all_goals simp [next,hab]

lemma vmmUnmap_spec (virt : ℕ) (htab : Tables s.mem s.pmm roots)
    (hrt : rootFrame s ∈ roots) :
    Unmapped s (vmmUnmap s virt) roots virt := by
  simp only [vmmUnmap,readPtEntry,and_frameMask_and]
  have hst : descend (next s.mem) (0,rootFrame s) [] = some (0,rootFrame s) := rfl
  split
  · exact Unmapped.refl htab virt
  rename_i h₀
  have hpp := descend_snoc.mpr ⟨_,hst,entryStep_table (Nat.zero_le 2) h₀ fun hk => by cases hk⟩
  split
  · exact Unmapped.refl htab virt
  rename_i h₁
  have hpd := descend_snoc.mpr ⟨_,hpp,entryStep_table one_le_two h₁ fun hk => by simp at hk⟩
  split
  · exact Unmapped.refl htab virt
  rename_i h₂
  split
  · rename_i hhg
    rw [writePtEntry,and_frameMask_and]
    exact (leafSet_clear h₂ hhg).unmapped htab hrt hpd rfl rfl ⟨rfl,rfl⟩
  · rename_i hhg
    have hpt := descend_snoc.mpr
      ⟨_,hpd,entryStep_table le_rfl h₂ fun _ => not_not.mp hhg⟩
    rw [writePtEntry,and_frameMask_and]
    exact leafSet_page.unmapped htab hrt hpt rfl rfl ⟨rfl,rfl⟩

section Frames

variable {s : Vmm}

lemma getOrAllocTable_pmm (hs : Sized s.pmm) (table idx flags : ℕ) :
    Shrunk s.pmm (getOrAllocTable s table idx flags).2.pmm := by
  rcases getOrAllocTable_cases hs rfl idx flags with ⟨-,heq⟩ | ⟨-,heq | ⟨base,hbs,heq⟩⟩ <;> rw [heq]
  exacts [Shrunk.refl hs,Shrunk.refl hs,Taken.shrunk hbs hs]

lemma mapInPt_pmm (s : Vmm) (pt virt phys flags : ℕ) :
    (mapInPt s pt virt phys flags).2.pmm = s.pmm := by
  rw [mapInPt,noteReplaced_eq]
  rfl

lemma mapInPd_pmm (hs : Sized s.pmm) (pd virt phys flags : ℕ) :
    Shrunk s.pmm (mapInPd s pd virt phys flags).2.pmm := by
  rw [mapInPd]
  dsimp only
  split_ifs
  · exact allocPage_pmm hs
  · rw [fillSplit_eq,noteReplaced_eq]
    exact allocPage_pmm hs
  · rw [mapInPt_pmm]
    exact Shrunk.refl hs
  · exact allocPage_pmm hs
  · rw [mapInPt_pmm]
    exact allocPage_pmm hs

lemma vmmMap_pmm (hs : Sized s.pmm) (virt phys flags : ℕ) :
    Shrunk s.pmm (vmmMap s virt phys flags).2.pmm := by
  rw [vmmMap]
  split_ifs
  · exact Shrunk.refl hs
  have hpp := getOrAllocTable_pmm hs s.currentPml4Phys (pml4Idx virt) flags
  generalize getOrAllocTable s s.currentPml4Phys (pml4Idx virt) flags = pdpt at hpp
  have hpd := hpp.trans (getOrAllocTable_pmm hpp.sized pdpt.1 (pdptIdx virt) flags)
  dsimp only
  generalize getOrAllocTable pdpt.2 pdpt.1 (pdptIdx virt) flags = pd at hpd ⊢
  split_ifs
  · exact hpp
  · exact hpd
  · have hlf : Sized { pd.2 with lastReplacedPhys := 0 }.pmm := hpd.sized
    exact hpd.trans (mapInPd_pmm hlf pd.1 virt phys flags)

lemma vmmUnmap_pmm (s : Vmm) (virt : ℕ) : (vmmUnmap s virt).pmm = s.pmm := by
  rw [vmmUnmap]
  dsimp only
  split_ifs <;> rfl

end Frames

/-- An empty PML4 and a pool of free frames. -/
def emptyTables : Vmm where
  mem := fun _ _ => 0
  pmm := ⟨fun _ => 0,pmmTotalPagesMin,frameAddr pmmTotalPagesMin,0⟩
  kernelPml4Phys := 0x20000
  currentPml4Phys := 0x20000
  lastReplacedPhys := 0

lemma emptyTables_tables :
    Tables emptyTables.mem emptyTables.pmm {rootFrame emptyTables} := by
  refine tables_empty_root ⟨le_rfl,Nat.le_of_ble_eq_true rfl,rfl⟩ (low_not_free ?_) ?_
  · decide
  · intro i
    exact Nat.zero_and vmmPresent

end HarlinKernel.PageTable
