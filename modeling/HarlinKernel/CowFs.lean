import HarlinKernel.MemFsTree

/-! The versions of files in `fs/cow_fs.c`: a table of slots, each with the number of a node of the
in-memory file system, a name and a payload. A name is the characters in front of its terminator,
which is among its sixteen bytes; the payload has `payload_size` bytes. -/
namespace HarlinKernel.CowFs

open TransitionSystem
open Function (update update_idem update_self update_of_ne)
open MemFs (CString Nodes noNode memFsPayload memFsLookupNode memFsCreate)

def cowMaxVersions : ℕ := 16

structure Version where
  used : Bool
  fileNode : ℕ
  ver : List UInt8
  payload : List UInt8
  deriving DecidableEq

abbrev Versions := ℕ → Version

/-- The slot, if it is not `(u32)-1`. -/
def findVer (vs : Versions) (fileNode : ℕ) (ver : List UInt8) : Option ℕ :=
  (List.range cowMaxVersions).find? fun i =>
    (vs i).used && decide ((vs i).fileNode = fileNode ∧ (vs i).ver = ver)

/-- The slot, if it is not `(u32)-1`, and the table. -/
def allocVer (vs : Versions) (fileNode : ℕ) : Option (ℕ × Versions) :=
  ((List.range cowMaxVersions).find? fun i => !(vs i).used).map fun i =>
    (i,update vs i ⟨true,fileNode,[],[]⟩)

def makeVerName (n : ℕ) : List UInt8 :=
  [0x76,0x30+UInt8.ofNat (n%10),0x30+UInt8.ofNat (n/10%10),0x30+UInt8.ofNat (n/10/10%10)]

/-- The two tables and `ver_counter`. -/
structure Files where
  nodes : Nodes
  versions : Versions
  verCounter : ℕ

def cowFsInit (s : Files) : Files :=
  { s with
    versions := fun i =>
      if i < cowMaxVersions then
        { s.versions i with
          used := false
          fileNode := noNode
          payload := [] }
      else s.versions i
    verCounter := 0 }

/-- The next value of the 64-bit counter. -/
def nextVer (s : Files) : ℕ := (s.verCounter+1)%2^64

/-- The result, the name that is stored in `out_ver`, and the state. -/
def cowSnapshot (s : Files) (path : CString) : Option (ℤ × List UInt8 × Files) :=
  (memFsLookupNode s.nodes path).map fun n =>
    if n = noNode then (-1,[],s)
    else
      match allocVer s.versions n with
      | none => (-1,[],{ s with verCounter := nextVer s })
      | some (v,vs) =>
        (0,makeVerName (nextVer s),{ s with
          versions := update vs v { vs v with ver := makeVerName (nextVer s) }
          verCounter := nextVer s })

/-- The slot that `Harlin_CowWrite` writes to, and the state then. -/
def writeSlot (s : Files) (n : ℕ) : CString → Option (ℕ × Files)
  | some (c :: cs) => (findVer s.versions n (c :: cs)).map fun slot => (slot,s)
  | _ =>
    (allocVer s.versions n).map fun r =>
      (r.1,{ s with
        versions := update r.2 r.1 { r.2 r.1 with ver := makeVerName (nextVer s) }
        verCounter := nextVer s })

def cowWrite (s : Files) (path expectedVer : CString) (data : List UInt8) : Option (ℤ × Files) :=
  (memFsLookupNode s.nodes path).map fun n =>
    if n = noNode then (-1,s)
    else
      match writeSlot s n expectedVer with
      | none => (-1,s)
      | some (slot,s) =>
        let bytes := data.take memFsPayload
        (bytes.length,{ s with
          versions := update s.versions slot { s.versions slot with
            payload := bytes
            fileNode := n } })

/-- The result and the bytes that are copied to the buffer. -/
def cowReadAt (s : Files) (path : CString) (ver : List UInt8) (size : ℕ) :
    Option (ℤ × List UInt8) :=
  (memFsLookupNode s.nodes path).map fun n =>
    if n = noNode then (-1,[])
    else
      match findVer s.versions n ver with
      | none => (-1,[])
      | some slot =>
        (((s.versions slot).payload.take size).length,(s.versions slot).payload.take size)

/-- The loop of `Harlin_CowFork` over the slots, and whether it came to its end. -/
def forkVersions (src dst : ℕ) : List ℕ → Versions → Bool × Versions
  | [], vs => (true,vs)
  | i :: is, vs =>
    if (vs i).used = true ∧ (vs i).fileNode = src then
      match allocVer vs dst with
      | none => (false,vs)
      | some (nv,vs) =>
        forkVersions src dst is (update vs nv { vs nv with
          ver := (vs i).ver
          payload := (vs i).payload
          fileNode := dst })
    else forkVersions src dst is vs

def cowFork (s : Files) (srcPath dstPath : CString) : Option (ℤ × Files) :=
  (memFsLookupNode s.nodes srcPath).bind fun src =>
    if src = noNode then some (-1,s)
    else
      (memFsCreate s.nodes dstPath).bind fun r =>
        let s := { s with nodes := r.2 }
        if r.1 ≠ 0 then some (-1,s)
        else
          (memFsLookupNode s.nodes dstPath).map fun dst =>
            if dst = noNode then (-1,s)
            else
              let f := forkVersions src dst (List.range cowMaxVersions) s.versions
              (if f.1 then 0 else -1,{ s with versions := f.2 })

inductive Call
  | mem (c : MemFs.Call)
  | cowFsInit
  | snapshot (path : CString)
  | write (path expectedVer : CString) (data : List UInt8)
  | readAt (path : CString) (ver : List UInt8) (size : ℕ)
  | fork (srcPath dstPath : CString)

/-- One call. -/
def act (s : Files) : Call → Option (MemFs.Reply × Files)
  | .mem c => (MemFs.act s.nodes c).map fun r => (r.1,{ s with nodes := r.2 })
  | .cowFsInit => some (⟨0,[],[]⟩,cowFsInit s)
  | .snapshot path => (cowSnapshot s path).map fun r => (⟨r.1,r.2.1,[]⟩,r.2.2)
  | .write path expectedVer data =>
    (cowWrite s path expectedVer data).map fun r => (⟨r.1,[],[]⟩,r.2)
  | .readAt path ver size => (cowReadAt s path ver size).map fun r => (⟨r.1,r.2,[]⟩,s)
  | .fork srcPath dstPath => (cowFork s srcPath dstPath).map fun r => (⟨r.1,[],[]⟩,r.2)

/-- Both initialisations have been called, over whatever the tables held. -/
def started (s : Files) : Prop :=
  ∃ s₀ : Files, s = cowFsInit { s₀ with nodes := (MemFs.memFsInit s₀.nodes).2 }

def cowRuns : System Files (Call × MemFs.Reply) := replies started act

variable {src dst k : ℕ} {is : List ℕ} {done : Bool}

section Table

variable {vs vs' vs'' : Versions} {n i v : ℕ} {ver : List UInt8}

/-- The slots are taken in order. -/
def Filled (vs : Versions) : Prop :=
  ∀ i < cowMaxVersions, (vs i).used = true → ∀ j < i, (vs j).used = true

/-- The slot that the next version gets. -/
structure FirstFree (vs : Versions) (v : ℕ) : Prop where
  lt : v < cowMaxVersions
  free : (vs v).used = false
  before : ∀ j < v, (vs j).used = true

def Full (vs : Versions) : Prop := ∀ i < cowMaxVersions, (vs i).used = true

/-- The slots in use are as they were. -/
def Extends (vs vs' : Versions) : Prop :=
  ∀ i < cowMaxVersions, (vs i).used = true → vs' i = vs i

lemma findVer_some : findVer vs n ver = some i ↔
    (i < cowMaxVersions ∧ (vs i).used = true ∧ (vs i).fileNode = n ∧ (vs i).ver = ver) ∧
      ∀ j < i, (vs j).used = true → (vs j).fileNode = n → (vs j).ver ≠ ver := by
  rw [findVer,List.find?_range_eq_some]
  simp only [Bool.and_eq_true,decide_eq_true_eq,List.mem_range,Bool.not_eq_true']
  constructor
  · rintro ⟨⟨hus,hnd,hver⟩,hlt,hbf⟩
    refine ⟨⟨hlt,hus,hnd,hver⟩,fun j hj hus' hnd' hver' => ?_⟩
    have hno := hbf j hj
    simp [hus',hnd',hver'] at hno
  · rintro ⟨⟨hlt,hus,hnd,hver⟩,hbf⟩
    refine ⟨⟨hus,hnd,hver⟩,hlt,fun j hj => ?_⟩
    by_contra hyes
    simp only [Bool.not_eq_false,Bool.and_eq_true,decide_eq_true_eq] at hyes
    exact hbf j hj hyes.1 hyes.2.1 hyes.2.2

lemma findVer_none : findVer vs n ver = none ↔
    ∀ i < cowMaxVersions, (vs i).used = true → (vs i).fileNode = n → (vs i).ver ≠ ver := by
  rw [findVer,List.find?_eq_none]
  simp

lemma allocVer_cases (vs : Versions) (n : ℕ) :
    (∃ v, FirstFree vs v ∧ allocVer vs n = some (v,update vs v ⟨true,n,[],[]⟩)) ∨
    (Full vs ∧ allocVer vs n = none) := by
  rw [allocVer]
  cases hfn : (List.range cowMaxVersions).find? fun i => !(vs i).used with
  | some v =>
    obtain ⟨hfr,hlt,hbf⟩ := List.find?_range_eq_some.mp hfn
    refine .inl ⟨v,⟨List.mem_range.mp hlt,by simpa using hfr,fun j hj => ?_⟩,rfl⟩
    simpa using hbf j hj
  | none =>
    refine .inr ⟨fun i hi => ?_,rfl⟩
    simpa using List.find?_eq_none.mp hfn i (List.mem_range.mpr hi)

lemma FirstFree.ne (h : FirstFree vs v) (hi : (vs i).used = true) : i ≠ v := by
  rintro rfl
  rw [h.free] at hi
  cases hi

lemma FirstFree.not_full (h : FirstFree vs v) : ¬ Full vs := fun hfl =>
  h.ne (hfl v h.lt) rfl

lemma FirstFree.extends (h : FirstFree vs v) (x : Version) : Extends vs (update vs v x) :=
  fun _ _ hi => update_of_ne (h.ne hi) _ _

lemma FirstFree.filled (h : FirstFree vs v) (hf : Filled vs) {x : Version} (hx : x.used = true) :
    Filled (update vs v x) := by
  intro i hi hus j hj
  by_cases hjv : j = v
  · rw [hjv,update_self]
    exact hx
  · rw [update_of_ne hjv]
    by_cases hiv : i = v
    · exact h.before j (hiv ▸ hj)
    · rw [update_of_ne hiv] at hus
      exact hf i hi hus j hj

lemma Extends.refl (vs : Versions) : Extends vs vs := fun _ _ _ => rfl

lemma Extends.used (h : Extends vs vs') (hi : i < cowMaxVersions) (hus : (vs i).used = true) :
    (vs' i).used = true := by
  rw [h i hi hus]
  exact hus

lemma Extends.trans (h : Extends vs vs') (h' : Extends vs' vs'') : Extends vs vs'' :=
  fun i hi hus => (h' i hi (h.used hi hus)).trans (h i hi hus)

lemma Extends.findVer (h : Extends vs vs') (hf : Filled vs) (hfn : findVer vs n ver = some i) :
    findVer vs' n ver = some i := by
  obtain ⟨⟨hlt,hus,hnd,hver⟩,hbf⟩ := findVer_some.mp hfn
  refine findVer_some.mpr ⟨?_,fun j hj => ?_⟩
  · rw [h i hlt hus]
    exact ⟨hlt,hus,hnd,hver⟩
  · have hus' := hf i hlt hus j hj
    rw [h j (hj.trans hlt) hus']
    exact hbf j hj

/-- What the loop of `Harlin_CowFork` adds: a copy of each version of the one node for the other. -/
structure Copied (vs : Versions) (src dst : ℕ) (is : List ℕ) (done : Bool) (vs' : Versions) :
    Prop where
  keeps : Extends vs vs'
  filled : Filled vs'
  sound : ∀ i < cowMaxVersions, (vs i).used = false → (vs' i).used = true →
    (vs' i).fileNode = dst ∧ ∃ j ∈ is, (vs j).used = true ∧ (vs j).fileNode = src ∧
      (vs' i).ver = (vs j).ver ∧ (vs' i).payload = (vs j).payload
  complete : done = true → ∀ j ∈ is, (vs j).used = true → (vs j).fileNode = src →
    ∃ i < cowMaxVersions, (vs i).used = false ∧ (vs' i).used = true ∧ (vs' i).fileNode = dst ∧
      (vs' i).ver = (vs j).ver ∧ (vs' i).payload = (vs j).payload
  distinct : is.Nodup →
    (∀ j ∈ is, ∀ k ∈ is, (vs j).used = true → (vs j).fileNode = src → (vs k).used = true →
      (vs k).fileNode = src → (vs j).ver = (vs k).ver → j = k) →
    ∀ i < cowMaxVersions, ∀ j < cowMaxVersions, (vs i).used = false → (vs j).used = false →
      (vs' i).used = true → (vs' j).used = true → (vs' i).ver = (vs' j).ver → i = j

lemma Copied.refl (hf : Filled vs)
    (hno : done = true → ∀ j ∈ is, (vs j).used = true → (vs j).fileNode ≠ src) :
    Copied vs src dst is done vs where
  keeps := .refl vs
  filled := hf
  sound i _ hfr hus := by
    rw [hfr] at hus
    cases hus
  complete hdn j hj hus hnd := absurd hnd (hno hdn j hj hus)
  distinct _ _ i _ _ _ hfr _ hus := by
    rw [hfr] at hus
    cases hus

lemma Copied.copy (hne : src ≠ dst) (hv : FirstFree vs v) (hks : (vs k).used = true)
    (hkn : (vs k).fileNode = src)
    (hrs : Copied (update vs v ⟨true,dst,(vs k).ver,(vs k).payload⟩) src dst is done vs') :
    Copied vs src dst (k :: is) done vs' := by
  obtain ⟨vs₁,hvs₁⟩ : ∃ vs₁, vs₁ = update vs v ⟨true,dst,(vs k).ver,(vs k).payload⟩ :=
    ⟨_,rfl⟩
  rw [← hvs₁] at hrs
  have hsl : vs₁ v = ⟨true,dst,(vs k).ver,(vs k).payload⟩ := by
    rw [hvs₁,update_self]
  have hext : Extends vs vs₁ := hvs₁ ▸ hv.extends _
  have hot : ∀ j, j ≠ v → vs₁ j = vs j := fun j hj => by
    rw [hvs₁,update_of_ne hj]
  -- the copy belongs to the other node, so the rest of the loop does not copy it again
  have hsrc : ∀ j, ((vs₁ j).used = true ∧ (vs₁ j).fileNode = src) ↔
      ((vs j).used = true ∧ (vs j).fileNode = src) := by
    intro j
    by_cases hj : j = v
    · subst hj
      rw [hsl,hv.free]
      simp [Ne.symm hne]
    · rw [hot j hj]
  have hsm : ∀ j, (vs j).used = true → vs₁ j = vs j := fun j hj => hot j (hv.ne hj)
  refine ⟨hext.trans hrs.keeps,hrs.filled,?_,?_,?_⟩
  · intro i hi hfr hus
    by_cases hiv : i = v
    · subst hiv
      have hkp := hrs.keeps i hi (by rw [hsl])
      rw [hsl] at hkp
      rw [hkp]
      exact ⟨rfl,k,List.mem_cons_self,hks,hkn,rfl,rfl⟩
    · obtain ⟨hno,j,hj,hjs,hjn,hver,hpay⟩ :=
        hrs.sound i hi (by rw [hot i hiv]; exact hfr) hus
      obtain ⟨hjs',hjn'⟩ := (hsrc j).mp ⟨hjs,hjn⟩
      rw [hsm j hjs'] at hver hpay
      exact ⟨hno,j,List.mem_cons_of_mem k hj,hjs',hjn',hver,hpay⟩
  · intro hdn j hj hjs hjn
    rcases List.mem_cons.mp hj with rfl | hj
    · have hkp := hrs.keeps v hv.lt (by rw [hsl])
      rw [hsl] at hkp
      refine ⟨v,hv.lt,hv.free,?_⟩
      rw [hkp]
      exact ⟨rfl,rfl,rfl,rfl⟩
    obtain ⟨hjs',hjn'⟩ := (hsrc j).mpr ⟨hjs,hjn⟩
    obtain ⟨i,hi,hfr,hrs'⟩ := hrs.complete hdn j hj hjs' hjn'
    have hiv : i ≠ v := by
      rintro rfl
      rw [hsl] at hfr
      cases hfr
    rw [hot i hiv] at hfr
    rw [hsm j hjs] at hrs'
    exact ⟨i,hi,hfr,hrs'⟩
  · intro hnd hinj i hi j hj hif hjf his hjs hver
    obtain ⟨hnt,hnd⟩ := List.nodup_cons.mp hnd
    have hkv : (vs' v).ver = (vs k).ver := by
      rw [hrs.keeps v hv.lt (by rw [hsl]),hsl]
    have hnew : ∀ x < cowMaxVersions, x ≠ v → (vs x).used = false → (vs' x).used = true →
        (vs' x).ver ≠ (vs k).ver := by
      intro x hx hxv hfr hus hsa
      obtain ⟨-,l,hl,hls,hln,hlv,-⟩ :=
        hrs.sound x hx (by rw [hot x hxv]; exact hfr) hus
      obtain ⟨hls',hln'⟩ := (hsrc l).mp ⟨hls,hln⟩
      rw [hsm l hls',hsa] at hlv
      have hkl := hinj k List.mem_cons_self l (List.mem_cons_of_mem k hl) hks hkn hls'
        hln' hlv
      exact hnt (hkl ▸ hl)
    by_cases hiv : i = v
    · by_cases hjv : j = v
      · exact hiv.trans hjv.symm
      · rw [hiv,hkv] at hver
        exact absurd hver.symm (hnew j hj hjv hjf hjs)
    by_cases hjv : j = v
    · rw [hjv,hkv] at hver
      exact absurd hver (hnew i hi hiv hif his)
    rw [← hot i hiv] at hif
    rw [← hot j hjv] at hjf
    refine hrs.distinct hnd (fun l hl x hx hls hln hxs hxn hlx => ?_)
      i hi j hj hif hjf his hjs hver
    obtain ⟨hls',hln'⟩ := (hsrc l).mp ⟨hls,hln⟩
    obtain ⟨hxs',hxn'⟩ := (hsrc x).mp ⟨hxs,hxn⟩
    rw [hsm l hls',hsm x hxs'] at hlx
    exact hinj l (List.mem_cons_of_mem k hl) x (List.mem_cons_of_mem k hx) hls' hln'
      hxs' hxn' hlx

lemma Copied.skip (hk : ¬ ((vs k).used = true ∧ (vs k).fileNode = src))
    (hrs : Copied vs src dst is done vs') : Copied vs src dst (k :: is) done vs' := by
  have hmem : ∀ j ∈ k :: is, (vs j).used = true → (vs j).fileNode = src → j ∈ is := by
    intro j hj hus hnd
    rcases List.mem_cons.mp hj with rfl | hj
    · exact absurd ⟨hus,hnd⟩ hk
    · exact hj
  refine ⟨hrs.keeps,hrs.filled,?_,?_,?_⟩
  · intro i hi hfr hus
    obtain ⟨hnd,j,hj,hcp⟩ := hrs.sound i hi hfr hus
    exact ⟨hnd,j,List.mem_cons_of_mem k hj,hcp⟩
  · exact fun hdn j hj hus hnd =>
      hrs.complete hdn j (hmem j hj hus hnd) hus hnd
  · exact fun hno hinj => hrs.distinct (List.nodup_cons.mp hno).2 fun j hj l hl =>
      hinj j (List.mem_cons_of_mem k hj) l (List.mem_cons_of_mem k hl)

lemma forkVersions_spec (hne : src ≠ dst) (is : List ℕ) (hf : Filled vs) :
    Copied vs src dst is (forkVersions src dst is vs).1 (forkVersions src dst is vs).2 := by
  induction is generalizing vs with
  | nil => exact .refl hf fun _ j hj => absurd hj List.not_mem_nil
  | cons k is ih =>
    rw [forkVersions]
    split_ifs with hk
    · rcases allocVer_cases vs dst with ⟨v,hv,hal⟩ | ⟨-,hal⟩
      · simp only [hal,update_self,update_idem,
          update_of_ne (hv.ne hk.1)]
        exact .copy hne hv hk.1 hk.2 (ih (hv.filled hf rfl))
      · simp only [hal]
        exact .refl hf fun hdn => nomatch hdn
    · exact .skip hk (ih hf)

end Table

end HarlinKernel.CowFs
