import HarlinKernel.CowFs

/-! What a call of `fs/cow_fs.c` can do, and what holds of the two tables in every run. -/
namespace HarlinKernel.CowFs

open TransitionSystem
open MemFs (CString Nodes noNode memFsPayload memFsLookupNode memFsCreate CanAdd added)
open Function (update update_self update_of_ne)
open Option (map_some bind_some map_congr mem_def)

/-- The path leads to node `n`. -/
def At (s : Files) (path : CString) (n : ℕ) : Prop :=
  memFsLookupNode s.nodes path = some n ∧ n ≠ noNode

/-- The state after a new version has been put into slot `v`. -/
def stored (s : Files) (v n : ℕ) (bytes : List UInt8) : Files :=
  { s with
    versions := update s.versions v ⟨true,n,makeVerName (nextVer s),bytes⟩
    verCounter := nextVer s }

/-- The state after the version in slot `i` has been overwritten. -/
def overwritten (s : Files) (i : ℕ) (bytes : List UInt8) : Files :=
  { s with versions := update s.versions i { s.versions i with payload := bytes } }

/-- What a call can do. -/
inductive Effect (s : Files) : Call → MemFs.Reply → Files → Prop
  | mem {c r m} : MemFs.act s.nodes c = some (r,m) → Effect s (.mem c) r { s with nodes := m }
  | cowFsInit : Effect s .cowFsInit ⟨0,[],[]⟩ (cowFsInit s)
  | snapshotAbsent {path} : (∀ n, ¬ At s path n) → Effect s (.snapshot path) ⟨-1,[],[]⟩ s
  | snapshotFull {path} : Full s.versions →
    Effect s (.snapshot path) ⟨-1,[],[]⟩ { s with verCounter := nextVer s }
  | snapshot {path n v} : At s path n → FirstFree s.versions v →
    Effect s (.snapshot path) ⟨0,makeVerName (nextVer s),[]⟩ (stored s v n [])
  | writeFailed {path expectedVer data} : (∀ n, At s path n → writeSlot s n expectedVer = none) →
    Effect s (.write path expectedVer data) ⟨-1,[],[]⟩ s
  | overwrite {path ver data n i} : At s path n → ver ≠ [] → findVer s.versions n ver = some i →
    Effect s (.write path (some ver) data) ⟨(data.take memFsPayload).length,[],[]⟩
      (overwritten s i (data.take memFsPayload))
  | write {path expectedVer data n v} : At s path n → expectedVer = none ∨ expectedVer = some [] →
    FirstFree s.versions v →
    Effect s (.write path expectedVer data) ⟨(data.take memFsPayload).length,[],[]⟩
      (stored s v n (data.take memFsPayload))
  | readAt {path ver size r} : Effect s (.readAt path ver size) r s
  | forkFailed {srcPath dstPath} :
    ((∀ n, ¬ At s srcPath n) ∨ memFsCreate s.nodes dstPath = some (-1,s.nodes)) →
    Effect s (.fork srcPath dstPath) ⟨-1,[],[]⟩ s
  | fork {srcPath dstPath n kids p name d dst done vs} : At s srcPath n →
    MemFs.Sound s.nodes kids → CanAdd s.nodes kids dstPath p name d dst →
    memFsCreate s.nodes dstPath = some (0,added s.nodes .file d dst name) →
    Copied s.versions n dst (List.range cowMaxVersions) done vs →
    Effect s (.fork srcPath dstPath) ⟨if done then 0 else -1,[],[]⟩
      { s with
        nodes := added s.nodes .file d dst name
        versions := vs }

variable {s s' : Files} {path path' : CString} {n d i v : ℕ} {ver : List UInt8}

/-- The pool holds a tree, the slots are taken in order, and the names come from the counter, which
has not passed the number of slots as long as one of them is free. -/
structure Sane (s : Files) : Prop where
  tree : ∃ kids, MemFs.Sound s.nodes kids
  filled : Filled s.versions
  counter : ∀ v < cowMaxVersions, (s.versions v).used = false → s.verCounter ≤ v
  named : ∀ i < cowMaxVersions, (s.versions i).used = true → ∃ k ≤ cowMaxVersions,
    (s.versions i).ver = makeVerName k ∧
      ∀ v < cowMaxVersions, (s.versions v).used = false → k ≤ s.verCounter

lemma makeVerName_injective : ∀ j ≤ cowMaxVersions, ∀ k ≤ cowMaxVersions,
    makeVerName j = makeVerName k → j = k := by
  decide

lemma Sane.nextVer_eq (h : Sane s) (hv : FirstFree s.versions v) :
    nextVer s = s.verCounter+1 ∧ s.verCounter+1 ≤ cowMaxVersions := by
  have hcn := h.counter v hv.lt hv.free
  have hlt := hv.lt
  rw [cowMaxVersions] at hlt ⊢
  exact ⟨Nat.mod_eq_of_lt (by omega),by omega⟩

lemma Sane.fresh (h : Sane s) (hv : FirstFree s.versions v) (hi : i < cowMaxVersions)
    (hus : (s.versions i).used = true) : (s.versions i).ver ≠ makeVerName (nextVer s) := by
  obtain ⟨k,hk,hver,hle⟩ := h.named i hi hus
  obtain ⟨hnx,hbn⟩ := h.nextVer_eq hv
  intro heq
  have hkn := makeVerName_injective k hk (nextVer s) (hnx ▸ hbn) (hver.symm.trans heq)
  have hkle := hle v hv.lt hv.free
  omega

lemma Sane.ver_ne_nil (h : Sane s) (hi : i < cowMaxVersions)
    (hus : (s.versions i).used = true) : (s.versions i).ver ≠ [] := by
  obtain ⟨k,-,hver,-⟩ := h.named i hi hus
  rw [hver]
  exact List.cons_ne_nil _ _

lemma Sane.stored (h : Sane s) (hv : FirstFree s.versions v) (n : ℕ) (bytes : List UInt8) :
    Sane (stored s v n bytes) := by
  obtain ⟨hnx,hbn⟩ := h.nextVer_eq hv
  have hcn := h.counter v hv.lt hv.free
  refine ⟨h.tree,hv.filled h.filled rfl,fun w hw hfr => ?_,fun i hi hus => ?_⟩
  · simp only [CowFs.stored] at hfr ⊢
    have hwv : w ≠ v := by
      rintro rfl
      rw [update_self] at hfr
      cases hfr
    rw [update_of_ne hwv] at hfr
    -- all the slots in front of the first free one are in use
    have hvw : v < w := by
      by_contra hle
      have hus := hv.before w (by omega)
      rw [hfr] at hus
      cases hus
    omega
  · simp only [CowFs.stored] at hus ⊢
    by_cases hiv : i = v
    · subst hiv
      rw [update_self]
      exact ⟨nextVer s,hnx ▸ hbn,rfl,fun _ _ _ => le_rfl⟩
    · rw [update_of_ne hiv] at hus ⊢
      obtain ⟨k,hk,hver,hle⟩ := h.named i hi hus
      refine ⟨k,hk,hver,fun w hw _ => ?_⟩
      have hkle := hle v hv.lt hv.free
      omega

lemma Sane.copied (h : Sane s) {src dst : ℕ} {done : Bool} {vs : Versions}
    (hcp : Copied s.versions src dst (List.range cowMaxVersions) done vs) {m : Nodes}
    (hm : ∃ kids, MemFs.Sound m kids) :
    Sane { s with
      nodes := m
      versions := vs } := by
  have hfr : ∀ v < cowMaxVersions, (vs v).used = false → (s.versions v).used = false := by
    intro v hv hvf
    by_contra hus
    rw [hcp.keeps.used hv (by simpa using hus)] at hvf
    cases hvf
  refine ⟨hm,hcp.filled,fun v hv hvf => h.counter v hv (hfr v hv hvf),
    fun i hi hus => ?_⟩
  by_cases hold : (s.versions i).used = true
  · obtain ⟨k,hk,hver,hle⟩ := h.named i hi hold
    have hver' : (vs i).ver = makeVerName k := by
      rw [hcp.keeps i hi hold]
      exact hver
    exact ⟨k,hk,hver',fun v hv hvf => hle v hv (hfr v hv hvf)⟩
  · obtain ⟨-,j,hj,hjs,-,hver,-⟩ := hcp.sound i hi (by simpa using hold) hus
    obtain ⟨k,hk,hver',hle⟩ := h.named j (List.mem_range.mp hj) hjs
    exact ⟨k,hk,hver.trans hver',fun v hv hvf => hle v hv (hfr v hv hvf)⟩

lemma overwritten_other (s : Files) (i j : ℕ) (bytes : List UInt8) :
    ((overwritten s i bytes).versions j).used = (s.versions j).used ∧
      ((overwritten s i bytes).versions j).fileNode = (s.versions j).fileNode ∧
      ((overwritten s i bytes).versions j).ver = (s.versions j).ver := by
  simp only [overwritten]
  by_cases hji : j = i
  · subst hji
    rw [update_self]
    exact ⟨rfl,rfl,rfl⟩
  · rw [update_of_ne hji]
    exact ⟨rfl,rfl,rfl⟩

lemma findVer_overwritten (s : Files) (i : ℕ) (bytes : List UInt8) (n : ℕ) (ver : List UInt8) :
    findVer (overwritten s i bytes).versions n ver = findVer s.versions n ver := by
  simp [findVer,overwritten_other]

lemma Sane.overwritten (h : Sane s) (i : ℕ) (bytes : List UInt8) :
    Sane (overwritten s i bytes) where
  tree := h.tree
  filled j hj := by
    simp only [overwritten_other]
    exact h.filled j hj
  counter v hv := by
    simp only [overwritten_other]
    exact h.counter v hv
  named j hj := by
    simp only [overwritten_other]
    exact h.named j hj

lemma cowFsInit_free (s : Files) (hi : i < cowMaxVersions) :
    ((cowFsInit s).versions i).used = false := by
  simp [cowFsInit,if_pos hi]

lemma sane_cowFsInit (h : ∃ kids, MemFs.Sound s.nodes kids) : Sane (cowFsInit s) where
  tree := h
  filled i hi hus := by
    rw [cowFsInit_free s hi] at hus
    cases hus
  counter _ _ _ := Nat.zero_le _
  named i hi hus := by
    rw [cowFsInit_free s hi] at hus
    cases hus

lemma Sane.at_total (h : Sane s) (path : CString) :
    (∃ n, At s path n) ∨ memFsLookupNode s.nodes path = some noNode := by
  obtain ⟨kids,hs⟩ := h.tree
  obtain ⟨n,hn⟩ := hs.lookup_total path
  by_cases hno : n = noNode
  · exact .inr (hno ▸ hn)
  · exact .inl ⟨n,hn,hno⟩

lemma not_at (h : memFsLookupNode s.nodes path = some noNode) (n : ℕ) : ¬ At s path n :=
  fun hat => hat.2 (Option.some.inj (hat.1.symm.trans h))

lemma At.unique {n' : ℕ} (h : At s path n) (h' : At s path n') : n = n' :=
  Option.some.inj (h.1.symm.trans h'.1)

lemma Sane.snapshot (h : Sane s) (path : CString) :
    ∃ r, act s (.snapshot path) = some r ∧ Effect s (.snapshot path) r.1 r.2 := by
  rcases h.at_total path with ⟨n,hat⟩ | hno
  · rw [act,cowSnapshot,hat.1,map_some,map_some,if_neg hat.2]
    rcases allocVer_cases s.versions n with ⟨v,hv,hal⟩ | ⟨hfl,hal⟩
    · simp only [hal,update_self,Function.update_idem]
      exact ⟨_,rfl,.snapshot hat hv⟩
    · simp only [hal]
      exact ⟨_,rfl,.snapshotFull hfl⟩
  · rw [act,cowSnapshot,hno,map_some,map_some,if_pos rfl]
    exact ⟨_,rfl,.snapshotAbsent (not_at hno)⟩

lemma At.write_expected (h : At s path n) (hver : ver ≠ []) (data : List UInt8) :
    (writeSlot s n (some ver) = none ∧ findVer s.versions n ver = none ∧
      cowWrite s path (some ver) data = some (-1,s)) ∨ ∃ i, findVer s.versions n ver = some i ∧
      cowWrite s path (some ver) data =
        some (((data.take memFsPayload).length : ℤ), overwritten s i (data.take memFsPayload)) := by
  obtain ⟨c,cs,rfl⟩ := List.exists_cons_of_ne_nil hver
  rw [cowWrite,h.1,map_some,if_neg h.2,writeSlot]
  cases hfn : findVer s.versions n (c :: cs) with
  | none => exact .inl ⟨rfl,rfl,rfl⟩
  | some i =>
    have hnd := (findVer_some.mp hfn).1.2.2.1
    refine .inr ⟨i,rfl,?_⟩
    simp only [map_some,← hnd]
    rfl

lemma At.write_new (h : At s path n) {expectedVer : CString}
    (hex : expectedVer = none ∨ expectedVer = some []) (data : List UInt8) :
    (writeSlot s n expectedVer = none ∧ cowWrite s path expectedVer data = some (-1,s)) ∨
    ∃ v, FirstFree s.versions v ∧
      cowWrite s path expectedVer data =
        some (((data.take memFsPayload).length : ℤ), stored s v n (data.take memFsPayload)) := by
  have hsl : writeSlot s n expectedVer = (allocVer s.versions n).map fun r =>
      (r.1,{ s with
        versions := update r.2 r.1 { r.2 r.1 with ver := makeVerName (nextVer s) }
        verCounter := nextVer s }) := by
    rcases hex with rfl | rfl <;> rfl
  rw [cowWrite,h.1,map_some,if_neg h.2,hsl]
  rcases allocVer_cases s.versions n with ⟨v,hv,hal⟩ | ⟨-,hal⟩
  · refine .inr ⟨v,hv,?_⟩
    simp [hal,stored]
  · simp only [hal,Option.map_none]
    exact .inl ⟨trivial,trivial⟩

lemma Sane.write (h : Sane s) (path expectedVer : CString) (data : List UInt8) :
    ∃ r, act s (.write path expectedVer data) = some r ∧
      Effect s (.write path expectedVer data) r.1 r.2 := by
  rcases h.at_total path with ⟨n,hat⟩ | hno
  · by_cases hex : expectedVer = none ∨ expectedVer = some []
    · rcases hat.write_new hex data with ⟨hsl,hwr⟩ | ⟨v,hv,hwr⟩
      · exact ⟨_,by rw [act,hwr]; rfl,.writeFailed fun n' hat' => hat'.unique hat ▸ hsl⟩
      · exact ⟨_,by rw [act,hwr]; rfl,.write hat hex hv⟩
    · obtain ⟨ver,rfl,hver⟩ : ∃ ver, expectedVer = some ver ∧ ver ≠ [] := by
        cases expectedVer with
        | none => exact absurd (.inl rfl) hex
        | some ver => exact ⟨ver,rfl,fun heq => hex (.inr (heq ▸ rfl))⟩
      rcases hat.write_expected hver data with ⟨hsl,-,hwr⟩ | ⟨i,hfn,hwr⟩
      · exact ⟨_,by rw [act,hwr]; rfl,.writeFailed fun n' hat' => hat'.unique hat ▸ hsl⟩
      · exact ⟨_,by rw [act,hwr]; rfl,.overwrite hat hver hfn⟩
  · rw [act,cowWrite,hno,map_some,map_some,if_pos rfl]
    exact ⟨_,rfl,.writeFailed fun n hat => absurd hat (not_at hno n)⟩

/-- A fork fails at once, or the copy has been created when the versions are copied. -/
theorem Sane.cowFork_cases (h : Sane s) {srcPath : CString} (hat : At s srcPath n)
    (dstPath : CString) :
    (memFsCreate s.nodes dstPath = some (-1,s.nodes) ∧ cowFork s srcPath dstPath = some (-1,s)) ∨
    ∃ kids p name d dst, MemFs.Sound s.nodes kids ∧ CanAdd s.nodes kids dstPath p name d dst ∧
      memFsCreate s.nodes dstPath = some (0,added s.nodes .file d dst name) ∧ n ≠ dst ∧
      cowFork s srcPath dstPath =
        some (if (forkVersions n dst (List.range cowMaxVersions) s.versions).1 then 0 else -1,
        { s with
          nodes := added s.nodes .file d dst name
          versions := (forkVersions n dst (List.range cowMaxVersions) s.versions).2 }) := by
  rw [cowFork,hat.1,bind_some,if_neg hat.2]
  obtain ⟨kids,hs⟩ := h.tree
  rcases hs.addNode .file dstPath with ⟨p,name,d,dst,hadd,heq⟩ | ⟨-,heq⟩
  · have hlk := hadd.lookup_new hs (by decide : MemFs.NodeType.file ≠ .unset)
    refine .inr ⟨kids,p,name,d,dst,hs,hadd,heq,hadd.lookup_ne hs hat.2 hat.1,?_⟩
    rw [memFsCreate,heq,bind_some]
    simp only [hlk,map_some,if_neg hadd.ne_noNode]
    rfl
  · rw [memFsCreate,heq,bind_some]
    exact .inl ⟨rfl,rfl⟩

lemma Sane.fork (h : Sane s) (srcPath dstPath : CString) :
    ∃ r, act s (.fork srcPath dstPath) = some r ∧ Effect s (.fork srcPath dstPath) r.1 r.2 := by
  rcases h.at_total srcPath with ⟨n,hat⟩ | hno
  · rcases h.cowFork_cases hat dstPath with ⟨heq,hfr⟩ | ⟨kids,p,name,d,dst,hs,hadd,heq,hne,hfr⟩
    · exact ⟨_,by rw [act,hfr]; rfl,.forkFailed (.inr heq)⟩
    · exact ⟨_,by rw [act,hfr]; rfl,.fork hat hs hadd heq (forkVersions_spec hne _ h.filled)⟩
  · rw [act,cowFork,hno,bind_some,if_pos rfl]
    exact ⟨_,rfl,.forkFailed (.inl (not_at hno))⟩

lemma Sane.effect (h : Sane s) (c : Call) : ∃ r, act s c = some r ∧ Effect s c r.1 r.2 := by
  cases c with
  | mem c =>
    obtain ⟨kids,hs⟩ := h.tree
    obtain ⟨r,m,-,hact,-⟩ := hs.act c
    exact ⟨_,by rw [act,hact]; rfl,.mem hact⟩
  | cowFsInit => exact ⟨_,rfl,.cowFsInit⟩
  | snapshot path => exact h.snapshot path
  | write path expectedVer data => exact h.write path expectedVer data
  | readAt path ver size =>
    obtain ⟨kids,hs⟩ := h.tree
    obtain ⟨n,hn⟩ := hs.lookup_total path
    exact ⟨_,by rw [act,cowReadAt,hn]; rfl,.readAt⟩
  | fork srcPath dstPath => exact h.fork srcPath dstPath

lemma Sane.effect_of_act (h : Sane s) {a : Call × MemFs.Reply} (hact : act s a.1 = some (a.2,s')) :
    Effect s a.1 a.2 s' := by
  obtain ⟨r,hr,hef⟩ := h.effect a.1
  cases hr.symm.trans hact
  exact hef

lemma Effect.sane {c : Call} {r : MemFs.Reply} (hef : Effect s c r s') (h : Sane s) :
    Sane s' := by
  cases hef with
  | mem hact =>
    obtain ⟨kids,hs⟩ := h.tree
    obtain ⟨r',m',kids',hact',hef⟩ := hs.act _
    cases hact'.symm.trans hact
    exact ⟨⟨kids',hef.sound hs⟩,h.filled,h.counter,h.named⟩
  | cowFsInit => exact sane_cowFsInit h.tree
  | snapshotAbsent _ => exact h
  | snapshotFull hfl =>
    refine ⟨h.tree,h.filled,fun v hv hfr => ?_,fun i hi hus => ?_⟩
    · rw [hfl v hv] at hfr
      cases hfr
    · obtain ⟨k,hk,hver,-⟩ := h.named i hi hus
      refine ⟨k,hk,hver,fun v hv hfr => ?_⟩
      rw [hfl v hv] at hfr
      cases hfr
  | snapshot _ hv => exact h.stored hv _ _
  | writeFailed _ => exact h
  | overwrite _ _ _ => exact h.overwritten _ _
  | write _ _ hv => exact h.stored hv _ _
  | readAt => exact h
  | forkFailed _ => exact h
  | fork _ hs hadd _ hcp => exact h.copied hcp ⟨_,hs.added hadd (by decide)⟩

lemma started.sane (h : started s) : Sane s := by
  obtain ⟨s₀,hs⟩ := h
  have hsn := MemFs.Sound.init s₀.nodes
  generalize (MemFs.memFsInit s₀.nodes).2 = m at hs hsn
  rw [hs]
  exact sane_cowFsInit ⟨_,hsn⟩

lemma sane_of_trace {l : List (Call × MemFs.Reply)} (h : Trace cowRuns l s) : Sane s :=
  h.reach.invariant Sane (fun _ => started.sane) fun _ _ _ hs hact =>
    (hs.effect_of_act hact).sane hs

/-- The bytes of a version of a node. -/
def bytesAt (vs : Versions) (n : ℕ) (ver : List UInt8) : Option (List UInt8) :=
  (findVer vs n ver).map fun i => (vs i).payload

lemma At.readAt (h : At s path n) (ver : List UInt8) (size : ℕ) :
    cowReadAt s path ver size =
      some (((bytesAt s.versions n ver).map fun bytes =>
        (((bytes.take size).length : ℤ),bytes.take size)).getD (-1,[])) := by
  rw [cowReadAt,h.1,map_some,if_neg h.2,bytesAt]
  cases findVer s.versions n ver with
  | none => rfl
  | some i => rfl

lemma bytesAt_stored_other (hv : FirstFree s.versions v) (hne : d ≠ n) (bytes ver : List UInt8) :
    bytesAt (stored s v d bytes).versions n ver = bytesAt s.versions n ver := by
  have hfn : findVer (stored s v d bytes).versions n ver = findVer s.versions n ver := by
    refine congrArg (fun p => List.find? p (List.range cowMaxVersions)) (funext fun i => ?_)
    by_cases hiv : i = v
    · simp [stored,hiv,hv.free,hne]
    · simp [stored,hiv]
  rw [bytesAt,bytesAt,hfn]
  refine map_congr fun i hi => ?_
  have hus := (findVer_some.mp (mem_def.mp hi)).1.2.1
  simp [stored,update_of_ne (hv.ne hus)]

lemma bytesAt_overwritten_other {i : ℕ} (hne : (s.versions i).fileNode ≠ n)
    (bytes ver : List UInt8) :
    bytesAt (overwritten s i bytes).versions n ver = bytesAt s.versions n ver := by
  rw [bytesAt,bytesAt,findVer_overwritten]
  refine map_congr fun j hj => ?_
  have hnd := (findVer_some.mp (mem_def.mp hj)).1.2.2.1
  have hji : j ≠ i := fun heq => hne (heq ▸ hnd)
  simp [overwritten,update_of_ne hji]

lemma bytesAt_extends {vs vs' : Versions} (h : Extends vs vs') (hf : Filled vs) {bytes : List UInt8}
    (hby : bytesAt vs n ver = some bytes) : bytesAt vs' n ver = some bytes := by
  obtain ⟨i,hfn,hpay⟩ := Option.map_eq_some_iff.mp hby
  obtain ⟨⟨hi,hus,-,-⟩,-⟩ := findVer_some.mp hfn
  rw [bytesAt,h.findVer hf hfn,map_some,h i hi hus,hpay]

/-- Nothing is taken away from the tree. -/
structure Kept (m m' : Nodes) : Prop where
  lookup : ∀ path n, n ≠ noNode → memFsLookupNode m path = some n → memFsLookupNode m' path = some n
  used : ∀ i, (m i).used = true → (m' i).used = true

lemma Kept.refl (m : Nodes) : Kept m m := ⟨fun _ _ _ h => h,fun _ h => h⟩

lemma kept_added {m : Nodes} {kids : ℕ → List ℕ} {p : List (List UInt8)} {name : List UInt8}
    {type : MemFs.NodeType} (hs : MemFs.Sound m kids) (hadd : CanAdd m kids path p name d n)
    (hty : type ≠ .unset) : Kept m (added m type d n name) := by
  refine ⟨fun path' c hc => hadd.lookup hs hty hc,fun i hus => ?_⟩
  by_cases hid : i = d
  · rw [hid,MemFs.added_parent]
    exact hid ▸ hus
  · by_cases hin : i = n
    · rw [hin,MemFs.added_new (hadd.ne hs)]
    · rw [MemFs.added_other hid hin]
      exact hus

/-- The calls that take entries away. -/
def removes : MemFs.Call → Bool
  | .init => true
  | .rmdir _ => true
  | .remove _ => true
  | _ => false

lemma kept_act {m m' : Nodes} {kids : ℕ → List ℕ} (hs : MemFs.Sound m kids) {c : MemFs.Call}
    {r : MemFs.Reply} (hc : removes c = false) (hact : MemFs.act m c = some (r,m')) :
    Kept m m' := by
  obtain ⟨r',m'',kids',hact',hef⟩ := hs.act c
  cases hact'.symm.trans hact
  cases hef with
  | none _ => exact .refl m
  | added _ hty hadd => exact kept_added hs hadd hty
  | written hby =>
    refine ⟨fun path n hn hlk => ?_,fun i hus => ?_⟩
    · exact (hs.lookup_setPayload hby path hn).mpr hlk
    · rw [((MemFs.setPayload_same m _ _).2 i).1]
      exact hus
  | _ => cases hc

lemma At.kept (h : At s path n) (hk : Kept s.nodes s'.nodes) : At s' path n :=
  ⟨hk.lookup path n h.2 h.1,h.2⟩

lemma Sane.at_used (h : Sane s) (hat : At s path n) : (s.nodes n).used = true := by
  obtain ⟨kids,htr⟩ := h.tree
  exact (htr.lookup_proper hat.1 hat.2).used

lemma started.free (h : started s) (hi : i < cowMaxVersions) : (s.versions i).used = false := by
  obtain ⟨s₀,rfl⟩ := h
  exact cowFsInit_free _ hi

/-- The nodes that a call makes new files of. -/
def created (m m' : Nodes) : Call → ℕ → Bool
  | .mem .init, _ => true
  | _, i => !(m i).used && (m' i).used

/-- The paths `/f` and `/g`. -/
def pathF : CString := some [MemFs.slash,0x66]
def pathG : CString := some [MemFs.slash,0x67]

/-- The state after both initialisations over cleared tables. -/
def blankFiles : Files :=
  cowFsInit ⟨(MemFs.memFsInit fun _ => ⟨false,.unset,[],0,0,0,[]⟩).2,fun _ => ⟨false,0,[],[]⟩,0⟩

lemma blankFiles_started : started blankFiles :=
  ⟨⟨fun _ => ⟨false,.unset,[],0,0,0,[]⟩,fun _ => ⟨false,0,[],[]⟩,0⟩,rfl⟩

end HarlinKernel.CowFs
