import HarlinKernel.CowRuns

/-! The versions of a file and of its fork, in runs that create files and versions only. -/
namespace HarlinKernel.CowFs

open TransitionSystem
open MemFs (CString Nodes noNode memFsPayload memFsLookupNode memFsCreate CanAdd added)

/-- The calls that are made after the two initialisations. -/
def onlyGrows : Call → Bool
  | .mem (.mkdir _) => true
  | .mem (.create _) => true
  | .mem _ => false
  | .cowFsInit => false
  | _ => true

abbrev OnlyGrows (_ : Files) (a : Call × MemFs.Reply) : Prop := onlyGrows a.1 = true

/-- The names of the versions of each node are distinct. -/
def DistinctNames (s : Files) : Prop :=
  ∀ i < cowMaxVersions, ∀ j < cowMaxVersions, (s.versions i).used = true →
    (s.versions j).used = true → (s.versions i).fileNode = (s.versions j).fileNode →
    (s.versions i).ver = (s.versions j).ver → i = j

/-- The versions belong to nodes in use. -/
def Live (s : Files) : Prop :=
  ∀ i < cowMaxVersions, (s.versions i).used = true → (s.nodes (s.versions i).fileNode).used = true

variable {s s' : Files} {a : Call × MemFs.Reply} {path path' : CString} {n n' d v : ℕ}

variable {r : MemFs.Reply} {c : Call} {srcPath dstPath : CString}

lemma Effect.readAt_other {expectedVer : CString} {data : List UInt8}
    (hef : Effect s (.write path expectedVer data) r s') (hd : At s path d) (hn : At s path' n)
    (hne : d ≠ n) (ver : List UInt8) (size : ℕ) :
    cowReadAt s' path' ver size = cowReadAt s path' ver size := by
  have hsm : s'.nodes = s.nodes ∧ bytesAt s'.versions n ver = bytesAt s.versions n ver := by
    cases hef with
    | writeFailed _ => exact ⟨rfl,rfl⟩
    | overwrite hat _ hfn =>
      obtain rfl := hat.unique hd
      have hnd := (findVer_some.mp hfn).1.2.2.1
      exact ⟨rfl,bytesAt_overwritten_other (hnd.symm ▸ hne) _ ver⟩
    | write hat _ hv =>
      obtain rfl := hat.unique hd
      exact ⟨rfl,bytesAt_stored_other hv hne _ ver⟩
  have hn' : At s' path' n := ⟨by rw [hsm.1]; exact hn.1,hn.2⟩
  rw [hn'.readAt,hn.readAt,hsm.2]

lemma DistinctNames.stored (h : DistinctNames s) (hs : Sane s) (hv : FirstFree s.versions v)
    (n : ℕ) (bytes : List UInt8) : DistinctNames (stored s v n bytes) := by
  have hold : ∀ i < cowMaxVersions, i ≠ v → ((CowFs.stored s v n bytes).versions i).used = true →
      (s.versions i).used = true ∧ ((CowFs.stored s v n bytes).versions i) = s.versions i := by
    intro i _ hiv hus
    simp only [CowFs.stored,Function.update_of_ne hiv] at hus ⊢
    exact ⟨hus,trivial⟩
  have hnew : ((CowFs.stored s v n bytes).versions v).ver = makeVerName (nextVer s) := by
    simp [CowFs.stored]
  intro i hi j hj his hjs hnd hver
  by_cases hiv : i = v
  · by_cases hjv : j = v
    · exact hiv.trans hjv.symm
    · obtain ⟨hjs,hjm⟩ := hold j hj hjv hjs
      rw [hiv,hnew,hjm] at hver
      exact absurd hver.symm (hs.fresh hv hj hjs)
  · obtain ⟨his,him⟩ := hold i hi hiv his
    by_cases hjv : j = v
    · rw [hjv,hnew,him] at hver
      exact absurd hver (hs.fresh hv hi his)
    · obtain ⟨hjs,hjm⟩ := hold j hj hjv hjs
      rw [him,hjm] at hnd hver
      exact h i hi j hj his hjs hnd hver

lemma DistinctNames.overwritten (h : DistinctNames s) (i : ℕ) (bytes : List UInt8) :
    DistinctNames (overwritten s i bytes) := by
  intro j hj k hk
  simp only [overwritten_other]
  exact h j hj k hk

lemma DistinctNames.copied (h : DistinctNames s) {src dst : ℕ} {done : Bool} {vs : Versions}
    (hcp : Copied s.versions src dst (List.range cowMaxVersions) done vs)
    (hnew : ∀ i < cowMaxVersions, (s.versions i).used = true → (s.versions i).fileNode ≠ dst)
    (m : Nodes) :
    DistinctNames { s with
      nodes := m
      versions := vs } := by
  have hsm : ∀ i < cowMaxVersions, (s.versions i).used = true → vs i = s.versions i :=
    hcp.keeps
  have hdst : ∀ i < cowMaxVersions, (s.versions i).used = false → (vs i).used = true →
      (vs i).fileNode = dst := fun i hi hfr hus => (hcp.sound i hi hfr hus).1
  have hds := hcp.distinct List.nodup_range fun j hj k hk hjs hjn hks hkn =>
    h j (List.mem_range.mp hj) k (List.mem_range.mp hk) hjs hks (hjn.trans hkn.symm)
  intro i hi j hj his hjs hnd hver
  dsimp only at his hjs hnd hver
  by_cases hil : (s.versions i).used = true
  · have hi' := hsm i hi hil
    by_cases hjl : (s.versions j).used = true
    · have hj' := hsm j hj hjl
      rw [hi',hj'] at hnd hver
      exact h i hi j hj hil hjl hnd hver
    · rw [hi',hdst j hj (by simpa using hjl) hjs] at hnd
      exact absurd hnd (hnew i hi hil)
  · by_cases hjl : (s.versions j).used = true
    · rw [hsm j hj hjl,hdst i hi (by simpa using hil) his] at hnd
      exact absurd hnd.symm (hnew j hj hjl)
    · exact hds i hi j hj (by simpa using hil) (by simpa using hjl) his hjs hver

/-- What holds in these runs, next to `Sane`: the names are distinct, and a file and its fork are
at different nodes. -/
structure Grown (l : List (Call × MemFs.Reply)) (s : Files) : Prop where
  sane : Sane s
  distinct : DistinctNames s
  live : Live s
  apart : ∀ srcPath dstPath r, (.fork srcPath dstPath,r) ∈ l → r.rc = 0 →
    ∃ n d, At s srcPath n ∧ At s dstPath d ∧ n ≠ d

lemma removes_of_onlyGrows {c : MemFs.Call} (h : onlyGrows (.mem c) = true) :
    removes c = false := by
  cases c <;> first | rfl | cases h

lemma Effect.kept (hef : Effect s c r s') (hs : Sane s)
    (hc : OnlyGrows s (c,r)) : Kept s.nodes s'.nodes := by
  cases hef with
  | mem hact =>
    obtain ⟨kids,htr⟩ := hs.tree
    exact kept_act htr (removes_of_onlyGrows hc) hact
  | cowFsInit => cases hc
  | fork _ htr hadd _ _ => exact kept_added htr hadd (by decide)
  | _ => exact .refl _

lemma Live.stored (h : Live s) (hv : FirstFree s.versions v) (hn : (s.nodes n).used = true)
    (bytes : List UInt8) : Live (stored s v n bytes) := by
  intro i hi hus
  by_cases hiv : i = v
  · subst hiv
    simp only [CowFs.stored,Function.update_self]
    exact hn
  · simp only [CowFs.stored,Function.update_of_ne hiv] at hus ⊢
    exact h i hi hus

lemma Live.ne_free (h : Live s) (hd : (s.nodes d).used = false) :
    ∀ i < cowMaxVersions, (s.versions i).used = true → (s.versions i).fileNode ≠ d := by
  rintro i hi hus rfl
  rw [h i hi hus] at hd
  cases hd

lemma Effect.live (hef : Effect s c r s') (hs : Sane s)
    (hc : OnlyGrows s (c,r)) (h : Live s) : Live s' := by
  have hkp := hef.kept hs hc
  cases hef with
  | mem _ => exact fun i hi hus => hkp.used _ (h i hi hus)
  | cowFsInit => cases hc
  | snapshot hat hv => exact h.stored hv (hs.at_used hat) _
  | overwrite _ _ _ =>
    intro i hi
    simp only [overwritten_other]
    exact h i hi
  | write hat _ hv => exact h.stored hv (hs.at_used hat) _
  | fork hat htr hadd _ hcp =>
    intro i hi hus
    by_cases hold : (s.versions i).used = true
    · dsimp only
      rw [hcp.keeps i hi hold]
      exact hkp.used _ (h i hi hold)
    · dsimp only
      rw [(hcp.sound i hi (by simpa using hold) hus).1,MemFs.added_new (hadd.ne htr)]
  | _ => exact h

lemma Effect.distinct (hef : Effect s c r s') (hs : Sane s)
    (hc : OnlyGrows s (c,r)) (hlv : Live s) (h : DistinctNames s) : DistinctNames s' := by
  cases hef with
  | cowFsInit => cases hc
  | snapshot _ hv => exact h.stored hs hv _ _
  | overwrite _ _ _ => exact h.overwritten _ _
  | write _ _ hv => exact h.stored hs hv _ _
  | fork _ _ hadd _ hcp => exact h.copied hcp (hlv.ne_free hadd.free) _
  | _ => exact h

lemma Effect.fork_apart (hef : Effect s (.fork srcPath dstPath) r s') (hs : Sane s)
    (hr : r.rc = 0) : ∃ n d, At s' srcPath n ∧ At s' dstPath d ∧ n ≠ d := by
  have hkp := hef.kept hs rfl
  cases hef with
  | forkFailed _ => cases hr
  | fork hat htr hadd _ _ =>
    exact ⟨_,_,hat.kept hkp,⟨hadd.lookup_new htr (by decide),hadd.ne_noNode⟩,
      hadd.lookup_ne htr hat.2 hat.1⟩

lemma grown_of_trace {l : List (Call × MemFs.Reply)} (h : Trace (cowRuns.guarded OnlyGrows) l s) :
    Grown l s := by
  refine h.invariant Grown (fun s hs => ?_) fun l s a s' hg hst => ?_
  · have hfr : ∀ i < cowMaxVersions, (s.versions i).used = false := fun i => started.free hs
    refine ⟨started.sane hs,fun i hi _ _ hus => ?_,fun i hi hus => ?_,
      fun _ _ _ hmem => absurd hmem List.not_mem_nil⟩
    · rw [hfr i hi] at hus
      cases hus
    · rw [hfr i hi] at hus
      cases hus
  · obtain ⟨hact,hc⟩ := hst
    have hef := hg.sane.effect_of_act hact
    refine ⟨hef.sane hg.sane,hef.distinct hg.sane hc hg.live hg.distinct,
      hef.live hg.sane hc hg.live,fun srcPath dstPath r hmem hr => ?_⟩
    rcases List.mem_append.mp hmem with hmem | hmem
    · obtain ⟨n,d,hn,hd,hne⟩ := hg.apart srcPath dstPath r hmem hr
      have hkp := hef.kept hg.sane hc
      exact ⟨n,d,hn.kept hkp,hd.kept hkp,hne⟩
    · obtain rfl := List.mem_singleton.mp hmem
      exact hef.fork_apart hg.sane hr

lemma bytesAt_of_distinct (h : DistinctNames s) {i : ℕ} (hi : i < cowMaxVersions)
    (hus : (s.versions i).used = true) :
    bytesAt s.versions (s.versions i).fileNode (s.versions i).ver =
      some (s.versions i).payload := by
  cases hfn : findVer s.versions (s.versions i).fileNode (s.versions i).ver with
  | none => exact absurd rfl (findVer_none.mp hfn i hi hus rfl)
  | some k =>
    obtain ⟨⟨hk,hks,hkn,hkv⟩,-⟩ := findVer_some.mp hfn
    rw [bytesAt,hfn,Option.map_some,h k hk i hi hks hus hkn hkv]

lemma Effect.fork_readAt (hef : Effect s (.fork srcPath dstPath) r s') (hs : Sane s)
    (hlv : Live s) (h : DistinctNames s) (hr : r.rc = 0) (ver : List UInt8) (size : ℕ) (rc : ℤ)
    (data : List UInt8) (hrd : cowReadAt s' srcPath ver size = some (rc,data)) (hrc : rc ≠ -1) :
    cowReadAt s' dstPath ver size = some (rc,data) := by
  have hkp := hef.kept hs rfl
  have hds := hef.distinct hs rfl hlv h
  cases hef with
  | forkFailed _ => cases hr
  | @fork _ _ n kids p name d dst done vs hat htr hadd _ hcp =>
    have hne : n ≠ dst := hadd.lookup_ne htr hat.2 hat.1
    have hn := hat.kept hkp
    have hd : At { s with
        nodes := added s.nodes .file d dst name
        versions := vs } dstPath dst := ⟨hadd.lookup_new htr (by decide),hadd.ne_noNode⟩
    have hdn : done = true := by
      cases done with
      | true => rfl
      | false => cases hr
    rw [hn.readAt,bytesAt] at hrd
    cases hfn : findVer vs n ver with
    | none =>
      simp only [hfn,Option.map_none,Option.getD_none,Option.some.injEq,Prod.mk.injEq] at hrd
      exact absurd hrd.1.symm hrc
    | some i =>
      obtain ⟨⟨hi,hus,hnd,hver⟩,-⟩ := findVer_some.mp hfn
      have hold : (s.versions i).used = true := by
        by_contra hfr
        exact hne (hnd.symm.trans (hcp.sound i hi (by simpa using hfr) hus).1)
      have hsm := hcp.keeps i hi hold
      obtain ⟨j,hj,-,hjs,hjn,hjv,hjp⟩ :=
        hcp.complete hdn i (List.mem_range.mpr hi) hold (hsm ▸ hnd)
      have hby := bytesAt_of_distinct hds hj hjs
      rw [← hsm] at hjv hjp
      rw [hjn,hjv,hver,hjp] at hby
      rw [hd.readAt,hby]
      simpa only [hfn,Option.map_some] using hrd

/-- After a fork each version that can be read of the one file can be read of the other, and from
then on no write to one of them is seen in the other. The names of the versions of a file are
distinct. -/
theorem forked_versions_independent (l : List (Call × MemFs.Reply)) (s : Files)
    (h : Trace (cowRuns.guarded OnlyGrows) l s) :
    DistinctNames s ∧
      (∀ srcPath dstPath r s', act s (.fork srcPath dstPath) = some (r,s') → r.rc = 0 →
        ∀ ver size rc data, cowReadAt s' srcPath ver size = some (rc,data) → rc ≠ -1 →
          cowReadAt s' dstPath ver size = some (rc,data)) ∧
      ∀ srcPath dstPath r, (.fork srcPath dstPath,r) ∈ l → r.rc = 0 →
        ∀ expectedVer data r' s',
          (act s (.write dstPath expectedVer data) = some (r',s') → ∀ ver size,
            cowReadAt s' srcPath ver size = cowReadAt s srcPath ver size) ∧
          (act s (.write srcPath expectedVer data) = some (r',s') → ∀ ver size,
            cowReadAt s' dstPath ver size = cowReadAt s dstPath ver size) := by
  have hg := grown_of_trace h
  have hef : ∀ c r s', act s c = some (r,s') → Effect s c r s' := fun c r s' hact =>
    hg.sane.effect_of_act (a := (c,r)) hact
  refine ⟨hg.distinct,fun srcPath dstPath r s' hact hr => ?_,
    fun srcPath dstPath r hmem hr expectedVer data r' s' => ⟨fun hact => ?_,fun hact => ?_⟩⟩
  · exact (hef _ _ _ hact).fork_readAt hg.sane hg.live hg.distinct hr
  · obtain ⟨n,d,hn,hd,hne⟩ := hg.apart srcPath dstPath r hmem hr
    exact (hef _ _ _ hact).readAt_other hd hn (Ne.symm hne)
  · obtain ⟨n,d,hn,hd,hne⟩ := hg.apart srcPath dstPath r hmem hr
    exact (hef _ _ _ hact).readAt_other hn hd hne

theorem forked_versions_independent_written :
    ∃ l s s' r, Trace (cowRuns.guarded OnlyGrows) l s ∧
      l.map Prod.fst = [.mem (.create pathF),.write pathF none [1],.fork pathF pathG] ∧
      (∀ a ∈ l, 0 ≤ a.2.rc) ∧
      act s (.write pathG (some (makeVerName 1)) [2]) = some (r,s') ∧
      cowReadAt s' pathG (makeVerName 1) 8 = some (1,[2]) ∧
      cowReadAt s' pathF (makeVerName 1) 8 = cowReadAt s pathF (makeVerName 1) 8 := by
  have hrun : ((runReplies act OnlyGrows blankFiles
      [.mem (.create pathF),.write pathF none [1],.fork pathF pathG]).bind fun t =>
        (act t.2 (.write pathG (some (makeVerName 1)) [2])).map fun r =>
          decide ((t.1.map fun a => a.2.rc) = [0,1,0] ∧
            cowReadAt r.2 pathG (makeVerName 1) 8 = some (1,[2]))) = some true := by
    decide +kernel
  obtain ⟨t,ht,hrun⟩ := Option.bind_eq_some_iff.mp hrun
  obtain ⟨r,hr,hfl⟩ := Option.map_eq_some_iff.mp hrun
  obtain ⟨hrcs,hrd⟩ := of_decide_eq_true hfl
  have htr := trace_of_runReplies blankFiles_started ht
  have hcl := runReplies_calls ht
  obtain ⟨a,b,c,hl⟩ := List.length_eq_three.mp (by simpa using congrArg List.length hcl)
  simp only [hl,List.map_cons,List.map_nil,List.cons.injEq,and_true] at hcl hrcs
  obtain ⟨hra,hrb,hrc⟩ := hrcs
  have hmem : (.fork pathF pathG,c.2) ∈ t.1 := by
    rw [hl,← hcl.2.2]
    simp
  refine ⟨t.1,t.2,r.2,r.1,htr,runReplies_calls ht,?_,hr,hrd,?_⟩
  · intro x hx
    rw [hl] at hx
    rcases List.mem_cons.mp hx with rfl | hx
    · omega
    rcases List.mem_cons.mp hx with rfl | hx
    · omega
    · obtain rfl := List.mem_singleton.mp hx
      omega
  · exact ((forked_versions_independent t.1 t.2 htr).2.2 pathF pathG c.2 hmem hrc _ _ _ _).1 hr _ _

def versionsOf (vs : Versions) (n : ℕ) (is : List ℕ) : ℕ :=
  is.countP fun i => (vs i).used ∧ (vs i).fileNode = n

def freeSlots (vs : Versions) : Finset ℕ :=
  (Finset.range cowMaxVersions).filter fun i => (vs i).used = false

lemma forkVersions_done {vs : Versions} {src dst : ℕ} (hne : src ≠ dst) (is : List ℕ) :
    (forkVersions src dst is vs).1 = true ↔ versionsOf vs src is ≤ (freeSlots vs).card := by
  induction is generalizing vs with
  | nil => simp [forkVersions,versionsOf]
  | cons i is ih =>
    rw [forkVersions,versionsOf,List.countP_cons]
    split_ifs with hsrc hsrc' hsrc'
    · rcases allocVer_cases vs dst with ⟨v,hv,hal⟩ | ⟨hfl,hal⟩
      · have hfr : freeSlots (Function.update vs v
            ⟨true,dst,(vs i).ver,(vs i).payload⟩) = (freeSlots vs).erase v := by
          ext j
          by_cases hj : j = v <;> simp [freeSlots,hj]
        have hmem : v ∈ freeSlots vs := by simp [freeSlots,hv.lt,hv.free]
        have hcp : versionsOf (Function.update vs v
            ⟨true,dst,(vs i).ver,(vs i).payload⟩) src is = versionsOf vs src is := by
          refine List.countP_congr fun j _ => ?_
          by_cases hj : j = v
          · simp [hj,hv.free,hne.symm]
          · simp [hj]
        have hcr := Finset.card_pos.mpr ⟨v,hmem⟩
        simp only [hal,Function.update_self,Function.update_idem,
          Function.update_of_ne (hv.ne hsrc.1)]
        rw [ih,hfr,Finset.card_erase_of_mem hmem,hcp,versionsOf]
        omega
      · have hno : freeSlots vs = ∅ := by
          ext j
          simpa [freeSlots] using hfl j
        simp [hal,hno]
    · simp_all
    · simp_all
    · exact ih

/-- A fork that fails leaves both tables as they were if the copy is not created in the first place;
otherwise there must be free slots for all its versions, so that it does not fail. -/
theorem failed_fork_traceless_iff (l : List (Call × MemFs.Reply)) (s : Files)
    (h : Trace cowRuns l s) (srcPath dstPath : CString) :
    (∀ s', cowFork s srcPath dstPath = some (-1,s') →
      s'.nodes = s.nodes ∧ s'.versions = s.versions) ↔
      ∀ n, At s srcPath n → memFsCreate s.nodes dstPath = some (-1,s.nodes) ∨
        versionsOf s.versions n (List.range cowMaxVersions) ≤ (freeSlots s.versions).card := by
  have hs := sane_of_trace h
  rcases hs.at_total srcPath with ⟨n,hat⟩ | hno
  · have hon : ∀ n', At s srcPath n' → n' = n := fun n' hat' => hat'.unique hat
    rcases hs.cowFork_cases hat dstPath with
      ⟨heq,hfr⟩ | ⟨kids,p,name,d,dst,htr,hadd,heq,hne,hfr⟩
    · exact iff_of_true (by simp [hfr]) fun _ _ => .inl heq
    have hnew : added s.nodes .file d dst name ≠ s.nodes := fun hsm => by
      have hus := congrArg MemFs.Node.used (congrFun hsm dst)
      rw [MemFs.added_new (hadd.ne htr),hadd.free] at hus
      cases hus
    have hdn := @forkVersions_done s.versions n dst hne (List.range cowMaxVersions)
    by_cases hcp : (forkVersions n dst (List.range cowMaxVersions) s.versions).1 = true
    · refine iff_of_true (by simp [hfr,hcp]) fun n' hat' => .inr ?_
      rw [hon n' hat']
      exact hdn.mp hcp
    · refine iff_of_false (by simp [hfr,hcp,hnew]) fun hrm => ?_
      rcases hrm n hat with hrf | hrm
      · simp [heq] at hrf
      · exact hcp (hdn.mpr hrm)
  · refine iff_of_true ?_ fun n hat => absurd hat (not_at hno n)
    simp [cowFork,hno]

/-- A file with a version is not copied over another file. -/
theorem failed_fork_traceless_iff_refused :
    ∃ l s, Trace cowRuns l s ∧
      l.map Prod.fst = [.mem (.create pathF),.snapshot pathF,.mem (.create pathG)] ∧
      (s.versions 0).used = true ∧ (cowFork s pathF pathG).map Prod.fst = some (-1) ∧
      ∀ s', cowFork s pathF pathG = some (-1,s') →
        s'.nodes = s.nodes ∧ s'.versions = s.versions := by
  refine exists_run (P := fun _ s => (s.versions 0).used = true ∧
      (cowFork s pathF pathG).map Prod.fst = some (-1) ∧
      (memFsCreate s.nodes pathG).map Prod.fst = some (-1))
    blankFiles_started (by decide +kernel) ?_
  rintro l s htr ⟨hus,hfk,hcr⟩
  refine ⟨hus,hfk,(failed_fork_traceless_iff l s htr pathF pathG).mpr fun n hat => .inl ?_⟩
  rcases (sane_of_trace htr).cowFork_cases hat pathG with ⟨heq,-⟩ | ⟨_,_,_,_,_,-,-,heq,-⟩
  · exact heq
  · rw [heq] at hcr
    cases hcr

/-- With seven free slots left the copy of a file with nine versions fails, but stays. -/
theorem failed_fork_leaves_file :
    ∃ l s s', Trace cowRuns l s ∧
      l.map Prod.fst = .mem (.create pathF) :: List.replicate 9 (.snapshot pathF) ∧
      cowFork s pathF pathG = some (-1,s') ∧ memFsLookupNode s.nodes pathG = some noNode ∧
      memFsLookupNode s'.nodes pathG = some 2 ∧ s'.nodes ≠ s.nodes := by
  have hrun : ((runReplies act (fun _ _ => True) blankFiles
      (.mem (.create pathF) :: List.replicate 9 (.snapshot pathF))).bind fun t =>
        (cowFork t.2 pathF pathG).map fun r =>
          decide (r.1 = -1 ∧ memFsLookupNode t.2.nodes pathG = some noNode ∧
            memFsLookupNode r.2.nodes pathG = some 2)) = some true := by
    decide +kernel
  obtain ⟨t,ht,hrun⟩ := Option.bind_eq_some_iff.mp hrun
  obtain ⟨⟨rc,s'⟩,hr,hfl⟩ := Option.map_eq_some_iff.mp hrun
  obtain ⟨rfl,hbf,haf⟩ := of_decide_eq_true hfl
  have htr := trace_of_runReplies blankFiles_started ht
  rw [System.guarded_true] at htr
  refine ⟨t.1,t.2,s',htr,runReplies_calls ht,hr,hbf,haf,fun hsm => ?_⟩
  rw [hsm,hbf] at haf
  exact absurd haf (by decide)

end HarlinKernel.CowFs
