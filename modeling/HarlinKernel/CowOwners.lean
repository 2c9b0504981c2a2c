import HarlinKernel.CowRuns

/-! The file that a version belongs to. A history variable gives each file that is created a number
of its own and records for each slot the number of the file that its version was made of. -/
namespace HarlinKernel.CowFs

open TransitionSystem
open MemFs (CString Nodes noNode memFsPayload memFsLookupNode memFsCreate memFsMkdir memFsNodes
  allocNode CanAdd added)

structure Owners where
  stamp : ℕ → ℕ
  owner : ℕ → ℕ
  clock : ℕ

def recordOwners (s : Files) (c : Call) (_ : MemFs.Reply) (s' : Files) (h : Owners) : Owners :=
  let stamp := fun i => if created s.nodes s'.nodes c i then h.clock else h.stamp i
  { stamp := stamp
    owner := fun i =>
      if !(s.versions i).used && (s'.versions i).used then stamp (s'.versions i).fileNode
      else h.owner i
    clock := h.clock+1 }

/-- Runs with the record of the owners. -/
def ownerRuns : System (Files × Owners) (Call × MemFs.Reply) :=
  replies (fun x => started x.1 ∧ x.2 = ⟨fun _ => 0,fun _ => 0,1⟩) (recording act recordOwners)

/-- The version that is found at the path was made of the file that is there. -/
def Belongs (x : Files × Owners) (path : CString) (ver : List UInt8) : Prop :=
  ∃ n i, At x.1 path n ∧ findVer x.1.versions n ver = some i ∧ x.2.owner i = x.2.stamp n

/-- Only versions of the file itself are read and overwritten. -/
structure OwnVersions (x : Files × Owners) : Prop where
  read : ∀ path ver size rc data, cowReadAt x.1 path ver size = some (rc,data) → rc ≠ -1 →
    Belongs x path ver
  write : ∀ path ver data rc s', ver ≠ [] → cowWrite x.1 path (some ver) data = some (rc,s') →
    rc ≠ -1 → Belongs x path ver

/-- No version is in use for the node. -/
def Unversioned (vs : Versions) (n : ℕ) : Prop :=
  ∀ i < cowMaxVersions, (vs i).used = true → (vs i).fileNode ≠ n

instance (vs : Versions) (n : ℕ) : Decidable (Unversioned vs n) :=
  inferInstanceAs (Decidable (∀ i < cowMaxVersions, _ → _))

/-- A new file, and the root of a new tree, gets a node without versions. -/
def Unrecycled (x : Files × Owners) (a : Call × MemFs.Reply) : Prop :=
  match a.1 with
  | .mem .init => Unversioned x.1.versions 0
  | .mem (.mkdir path) =>
    (∃ m, memFsMkdir x.1.nodes path = some (0,m)) →
      Unversioned x.1.versions (allocNode x.1.nodes).1
  | .mem (.create path) =>
    (∃ m, memFsCreate x.1.nodes path = some (0,m)) →
      Unversioned x.1.versions (allocNode x.1.nodes).1
  | .fork srcPath dstPath =>
    (∃ n, At x.1 srcPath n) → (∃ m, memFsCreate x.1.nodes dstPath = some (0,m)) →
      Unversioned x.1.versions (allocNode x.1.nodes).1
  | _ => True

/-- The versions of nodes in use belong to the files that are there. -/
structure Owned (x : Files × Owners) : Prop where
  sane : Sane x.1
  node : ∀ i < cowMaxVersions, (x.1.versions i).used = true →
    (x.1.versions i).fileNode < memFsNodes
  owner : ∀ i < cowMaxVersions, (x.1.versions i).used = true → x.2.owner i < x.2.clock
  stamp : ∀ n, x.2.stamp n < x.2.clock
  same : ∀ i < cowMaxVersions, (x.1.versions i).used = true →
    (x.1.nodes (x.1.versions i).fileNode).used = true →
    x.2.owner i = x.2.stamp (x.1.versions i).fileNode

variable {x y : Files × Owners} {a : Call × MemFs.Reply} {s : Files} {path : CString} {n i : ℕ}
  {ver : List UInt8}

variable {rc : ℤ} {data : List UInt8} {s' : Files} {m m' : Nodes} {type : MemFs.NodeType} {c : Call}
  {r : MemFs.Reply} {kids : ℕ → List ℕ}

lemma Sane.readAt_found (h : Sane s) {size : ℕ}
    (hrd : cowReadAt s path ver size = some (rc,data)) (hrc : rc ≠ -1) :
    ∃ n i, At s path n ∧ findVer s.versions n ver = some i := by
  rcases h.at_total path with ⟨n,hat⟩ | hno
  · rw [hat.readAt,bytesAt] at hrd
    cases hfn : findVer s.versions n ver with
    | none =>
      rw [hfn] at hrd
      cases hrd
      exact absurd rfl hrc
    | some i => exact ⟨n,i,hat,hfn⟩
  · rw [cowReadAt,hno,Option.map_some,if_pos rfl] at hrd
    cases hrd
    exact absurd rfl hrc

lemma Sane.write_refused (h : Sane s) (hver : ver ≠ [])
    (hwr : cowWrite s path (some ver) data = some (rc,s')) :
    (∃ n i, At s path n ∧ findVer s.versions n ver = some i ∧ rc ≠ -1 ∧
      s' = CowFs.overwritten s i (data.take memFsPayload)) ∨
    ((∀ n, At s path n → findVer s.versions n ver = none) ∧ rc = -1 ∧ s' = s) := by
  rcases h.at_total path with ⟨n,hat⟩ | hno
  · rcases hat.write_expected hver data with ⟨-,hfn,heq⟩ | ⟨i,hfn,heq⟩
    · cases hwr.symm.trans heq
      exact .inr ⟨fun n' hat' => hat.unique hat' ▸ hfn,rfl,rfl⟩
    · cases hwr.symm.trans heq
      exact .inl ⟨n,i,hat,hfn,by omega,rfl⟩
  · rw [cowWrite,hno,Option.map_some,if_pos rfl] at hwr
    cases hwr
    exact .inr ⟨fun n hat => absurd hat (not_at hno n),rfl,rfl⟩

lemma Owned.belongs (h : Owned x) (hat : At x.1 path n)
    (hfn : findVer x.1.versions n ver = some i) : Belongs x path ver := by
  obtain ⟨⟨hi,hus,hnd,-⟩,-⟩ := findVer_some.mp hfn
  refine ⟨n,i,hat,hfn,?_⟩
  rw [h.same i hi hus (hnd.symm ▸ h.sane.at_used hat),hnd]

lemma Owned.ownVersions (h : Owned x) : OwnVersions x := by
  refine ⟨fun path ver size rc data hrd hrc => ?_,fun path ver data rc s' hver hwr hrc => ?_⟩
  · obtain ⟨n,i,hat,hfn⟩ := h.sane.readAt_found hrd hrc
    exact h.belongs hat hfn
  · rcases h.sane.write_refused hver hwr with ⟨n,i,hat,hfn,-⟩ | ⟨-,hfl,-⟩
    · exact h.belongs hat hfn
    · exact absurd hfl hrc

lemma not_ownVersions (hat : At x.1 path n) (hfn : findVer x.1.versions n ver = some i)
    (hne : x.2.owner i ≠ x.2.stamp n) : ¬ OwnVersions x := by
  intro hown
  have hrd := hat.readAt ver 0
  rw [bytesAt,hfn] at hrd
  obtain ⟨n',i',hat',hfn',hsm⟩ := hown.read path ver 0 0 [] hrd (by decide)
  obtain rfl := hat.unique hat'
  cases hfn.symm.trans hfn'
  exact hne hsm

lemma addNode_alloc (hadd : MemFs.addNode m type path = some (rc,m')) (hfr : (m i).used = false)
    (hus : (m' i).used = true) : i = (allocNode m).1 := by
  by_contra hne
  have hal : (allocNode m).2 i = m i := by
    rcases MemFs.allocNode_cases m with ⟨n,-,-,heq⟩ | ⟨-,heq⟩
    · rw [heq] at hne ⊢
      exact Function.update_of_ne hne _ _
    · rw [heq]
  have hsm : (m' i).used = (m i).used := by
    rw [MemFs.addNode] at hadd
    obtain ⟨q,-,hadd⟩ := Option.bind_eq_some_iff.mp hadd
    split_ifs at hadd
    · rw [← (Prod.mk.inj (Option.some.inj hadd)).2]
    · rw [← (Prod.mk.inj (Option.some.inj hadd)).2]
    obtain ⟨c,-,heq⟩ := Option.map_eq_some_iff.mp hadd
    dsimp only at heq
    split_ifs at heq
    · rw [← (Prod.mk.inj heq).2]
    · rw [← (Prod.mk.inj heq).2,hal]
    · rw [← (Prod.mk.inj heq).2]
      by_cases hiq : i = q.1
      · rw [← hiq,Function.update_self,Function.update_of_ne hne,hal]
      · rw [Function.update_of_ne hiq,Function.update_of_ne hne,hal]
  rw [hsm,hfr] at hus
  cases hus

/-- A step leaves the owners as they should be if no version in use gets a new file at its node. -/
theorem Owned.step (h : Owned x) (hsn : Sane y.1) (hy : y.2 = recordOwners x.1 c r y.1 x.2)
    (hnd : ∀ i < cowMaxVersions, (y.1.versions i).used = true → (x.1.versions i).used = false →
      (y.1.versions i).fileNode < memFsNodes)
    (hkp : ∀ i < cowMaxVersions, (y.1.versions i).used = true → (x.1.versions i).used = true →
      (y.1.versions i).fileNode = (x.1.versions i).fileNode)
    (hold : ∀ n,
      (∃ i < cowMaxVersions, (y.1.versions i).used = true ∧ (x.1.versions i).used = true ∧
        (x.1.versions i).fileNode = n) → (y.1.nodes n).used = true →
      created x.1.nodes y.1.nodes c n = false ∧ (x.1.nodes n).used = true) : Owned y := by
  have hst : ∀ n, y.2.stamp n < x.2.clock+1 := by
    intro n
    rw [hy]
    simp only [recordOwners]
    split_ifs
    · exact Nat.lt_succ_self _
    · exact Nat.lt_succ_of_lt (h.stamp n)
  have hcl : y.2.clock = x.2.clock+1 := by rw [hy]; rfl
  have hnew : ∀ i, (x.1.versions i).used = false → (y.1.versions i).used = true →
      y.2.owner i = y.2.stamp (y.1.versions i).fileNode := by
    intro i hfr hus
    rw [hy]
    simp [recordOwners,hfr,hus]
  have hsm : ∀ i, (x.1.versions i).used = true → y.2.owner i = x.2.owner i := by
    intro i hus
    rw [hy]
    simp [recordOwners,hus]
  refine ⟨hsn,fun i hi hus => ?_,fun i hi hus => ?_,fun n => hcl ▸ hst n,
    fun i hi hus hlv => ?_⟩
  · cases hbf : (x.1.versions i).used with
    | false => exact hnd i hi hus hbf
    | true => exact hkp i hi hus hbf ▸ h.node i hi hbf
  · rw [hcl]
    cases hbf : (x.1.versions i).used with
    | false => exact hnew i hbf hus ▸ hst _
    | true => exact hsm i hbf ▸ Nat.lt_succ_of_lt (h.owner i hi hbf)
  · cases hbf : (x.1.versions i).used with
    | false => exact hnew i hbf hus
    | true =>
      have hfl := hkp i hi hus hbf
      rw [hfl] at hlv ⊢
      obtain ⟨hnot,hlv'⟩ := hold _ ⟨i,hi,hus,hbf,rfl⟩ hlv
      rw [hsm i hbf,h.same i hi hbf hlv',hy]
      simp [recordOwners,hnot]

/-- The calls that create files. -/
def adds : MemFs.Call → Bool
  | .init => true
  | .mkdir _ => true
  | .create _ => true
  | _ => false

lemma used_of_act (hs : MemFs.Sound m kids) {c : MemFs.Call} (hc : adds c = false)
    (hact : MemFs.act m c = some (r,m')) (hus : (m' i).used = true) : (m i).used = true := by
  have hul : ∀ {d n}, MemFs.Unlinked m kids d n m' → (m i).used = true := by
    intro d n hun
    by_cases hin : i = n
    · rw [hin,hun.free] at hus
      cases hus
    · exact hun.used i hin ▸ hus
  obtain ⟨r',m'',kids',hact',hef⟩ := hs.act c
  cases hact'.symm.trans hact
  cases hef with
  | none _ => exact hus
  | init => cases hc
  | added had _ _ => rcases had with rfl | rfl <;> cases hc
  | rmdir _ _ _ hun => exact hul hun
  | remove _ _ _ hun => exact hul hun
  | written _ =>
    rw [((MemFs.setPayload_same m _ _).2 i).1] at hus
    exact hus

lemma used_of_addNode (hs : MemFs.Sound s.nodes kids)
    (hadd : MemFs.addNode s.nodes type path = some (rc,m))
    (hok : (∃ m, MemFs.addNode s.nodes type path = some (0,m)) →
      Unversioned s.versions (allocNode s.nodes).1) (hi : i < cowMaxVersions)
    (hus : (s.versions i).used = true) (hlv : (m (s.versions i).fileNode).used = true) :
    (s.nodes (s.versions i).fileNode).used = true := by
  by_contra hfr
  have hn := addNode_alloc hadd (by simpa using hfr) hlv
  rcases hs.addNode type path with ⟨_,_,_,_,-,heq⟩ | ⟨-,heq⟩
  · exact hok ⟨_,heq⟩ i hi hus hn
  · cases heq.symm.trans hadd
    exact hfr hlv

lemma Owned.mem (h : Owned x) {c : MemFs.Call} (hact : MemFs.act x.1.nodes c = some (r,m))
    (hsn : Sane { x.1 with nodes := m }) (hok : Unrecycled x (.mem c,r)) :
    Owned ({ x.1 with nodes := m },recordOwners x.1 (.mem c) r { x.1 with nodes := m } x.2) := by
  refine h.step (r:=r) hsn rfl (fun i _ hus hfr => ?_) (fun _ _ _ _ => rfl) ?_
  · rw [hfr] at hus
    cases hus
  rintro n ⟨i,hi,-,hus,rfl⟩ hlv
  obtain ⟨kids,htr⟩ := h.sane.tree
  dsimp only at hlv ⊢
  have hkp : c ≠ .init → (x.1.nodes (x.1.versions i).fileNode).used = true →
      created x.1.nodes m (.mem c) (x.1.versions i).fileNode = false ∧
        (x.1.nodes (x.1.versions i).fileNode).used = true := by
    intro hc hus'
    cases c with
    | init => exact absurd rfl hc
    | _ => exact ⟨by simp [created,hus'],hus'⟩
  cases c with
  | init =>
    obtain ⟨-,rfl⟩ := Prod.mk.inj (Option.some.inj hact)
    have hfr := (MemFs.memFsInit_eq x.1.nodes).2.2 _ (h.node i hi hus) (hok i hi hus)
    rw [hfr] at hlv
    cases hlv
  | mkdir path =>
    obtain ⟨q,hadd,heq⟩ := Option.map_eq_some_iff.mp hact
    obtain ⟨-,rfl⟩ := Prod.mk.inj heq
    exact hkp (by simp) (used_of_addNode htr hadd hok hi hus hlv)
  | create path =>
    obtain ⟨q,hadd,heq⟩ := Option.map_eq_some_iff.mp hact
    obtain ⟨-,rfl⟩ := Prod.mk.inj heq
    exact hkp (by simp) (used_of_addNode htr hadd hok hi hus hlv)
  | _ => exact hkp (by simp) (used_of_act htr rfl hact hlv)

lemma Sane.at_lt (h : Sane s) (hat : At s path n) : n < memFsNodes := by
  obtain ⟨kids,htr⟩ := h.tree
  exact (htr.lookup_proper hat.1 hat.2).lt

lemma Owned.versions (h : Owned x) (hsn : Sane y.1) (hy : y.2 = recordOwners x.1 c r y.1 x.2)
    (hnd : y.1.nodes = x.1.nodes) (hc : ∀ c', c ≠ .mem c')
    (hvr : ∀ i < cowMaxVersions, (y.1.versions i).used = true →
      ((x.1.versions i).used = true ∧ (y.1.versions i).fileNode = (x.1.versions i).fileNode) ∨
        (y.1.versions i).fileNode < memFsNodes ∧ (x.1.versions i).used = false) : Owned y := by
  refine h.step (r:=r) hsn hy (fun i hi hus hfr => ?_) (fun i hi hus hbf => ?_) ?_
  · rcases hvr i hi hus with ⟨hbf,-⟩ | ⟨hlt,-⟩
    · rw [hfr] at hbf
      cases hbf
    · exact hlt
  · rcases hvr i hi hus with ⟨-,hfl⟩ | ⟨-,hfr⟩
    · exact hfl
    · rw [hfr] at hbf
      cases hbf
  · rintro n - hlv
    rw [hnd] at hlv ⊢
    refine ⟨?_,hlv⟩
    cases c with
    | mem c' => exact absurd rfl (hc c')
    | _ => simp [created,hlv]

lemma Owned.stored (h : Owned x) {v : ℕ} {bytes : List UInt8}
    (hat : At x.1 path n) (hv : FirstFree x.1.versions v) (hc : ∀ c', c ≠ .mem c') :
    Owned (CowFs.stored x.1 v n bytes,recordOwners x.1 c r (CowFs.stored x.1 v n bytes) x.2) := by
  refine h.versions (r:=r) (h.sane.stored hv n bytes) rfl rfl hc fun i hi hus => ?_
  by_cases hiv : i = v
  · rw [hiv]
    simp only [CowFs.stored,Function.update_self]
    exact .inr ⟨h.sane.at_lt hat,hv.free⟩
  · simp only [CowFs.stored,Function.update_of_ne hiv] at hus ⊢
    exact .inl ⟨hus,trivial⟩

lemma Owned.effect (h : Owned x) (hef : Effect x.1 a.1 a.2 y.1)
    (hy : y.2 = recordOwners x.1 a.1 a.2 y.1 x.2) (hok : Unrecycled x a) : Owned y := by
  obtain ⟨c,r⟩ := a
  obtain ⟨s',h'⟩ := y
  dsimp only at hef hy hok
  have hsn := hef.sane h.sane
  subst hy
  have hsm : ∀ i < cowMaxVersions, (x.1.versions i).used = true →
      ((x.1.versions i).used = true ∧ (x.1.versions i).fileNode = (x.1.versions i).fileNode) ∨
        (x.1.versions i).fileNode < memFsNodes ∧ (x.1.versions i).used = false :=
    fun i _ hus => .inl ⟨hus,rfl⟩
  cases hef with
  | mem hact => exact h.mem hact hsn hok
  | cowFsInit =>
    refine h.versions (r:=⟨0,[],[]⟩) hsn rfl rfl (by simp) fun i hi hus => ?_
    rw [cowFsInit_free x.1 hi] at hus
    cases hus
  | snapshot hat hv => exact h.stored (r:=⟨0,_,[]⟩) hat hv (by simp)
  | overwrite _ _ _ =>
    refine h.versions (r:=⟨0,[],[]⟩) hsn rfl rfl (by simp) fun i hi => ?_
    simp only [overwritten_other]
    exact fun hus => .inl ⟨hus,trivial⟩
  | write hat _ hv => exact h.stored (r:=⟨0,[],[]⟩) hat hv (by simp)
  | @fork srcPath dstPath n kids p name d dst done vs hat htr hadd heq hcp =>
    refine h.step (r:=⟨0,[],[]⟩) hsn rfl (fun i hi hus hfr => ?_)
      (fun i hi hus hbf => ?_) ?_
    · exact (hcp.sound i hi hfr hus).1 ▸ hadd.lt
    · exact congrArg Version.fileNode (hcp.keeps i hi hbf)
    · rintro _ ⟨i,hi,-,hus,rfl⟩ hlv
      have hbf := used_of_addNode htr heq (hok ⟨n,hat⟩) hi hus hlv
      exact ⟨by simp [created,hbf],hbf⟩
  | _ => exact h.versions (r:=⟨0,[],[]⟩) hsn rfl rfl (by simp) hsm

/-- A version that is left at the node of a new file can be read as one of the file. -/
theorem Owned.recycled (h : Owned x) (hown : OwnVersions y)
    (hy : y.2 = recordOwners x.1 c r y.1 x.2) (hat : At y.1 path n)
    (hcr : created x.1.nodes y.1.nodes c n = true)
    (hext : Extends x.1.versions y.1.versions) : Unversioned x.1.versions n := by
  intro j hj hus hnd
  cases hfn : findVer x.1.versions n (x.1.versions j).ver with
  | none => exact findVer_none.mp hfn j hj hus hnd rfl
  | some i =>
    obtain ⟨⟨hi,his,-,-⟩,-⟩ := findVer_some.mp hfn
    refine not_ownVersions hat (hext.findVer h.sane.filled hfn) ?_ hown
    have how := h.owner i hi his
    rw [hy]
    simp only [recordOwners,hcr,his,Bool.not_true,Bool.false_and,Bool.false_eq_true,if_false,
      if_true]
    omega

lemma Owned.recycled_added (h : Owned x) (hown : OwnVersions y)
    {p : List (List UInt8)} {name : List UInt8} {d dst : ℕ}
    (hy : y.2 = recordOwners x.1 c r y.1 x.2) (htr : MemFs.Sound x.1.nodes kids)
    (hadd : CanAdd x.1.nodes kids path p name d dst) (hty : type ≠ .unset)
    (heq : MemFs.addNode x.1.nodes type path = some (0,added x.1.nodes type d dst name))
    (hnd : y.1.nodes = added x.1.nodes type d dst name)
    (hext : Extends x.1.versions y.1.versions) :
    Unversioned x.1.versions (allocNode x.1.nodes).1 := by
  have hus : (added x.1.nodes type d dst name dst).used = true := by
    rw [MemFs.added_new (hadd.ne htr)]
  have hdst := addNode_alloc heq hadd.free hus
  have hat : At y.1 path dst := ⟨by rw [hnd]; exact hadd.lookup_new htr hty,hadd.ne_noNode⟩
  have hcr : created x.1.nodes y.1.nodes c dst = true := by
    rw [created.eq_def]
    split
    · rfl
    · rw [hnd,hus,hadd.free]
      rfl
  exact hdst ▸ h.recycled hown hy hat hcr hext

lemma Owned.unrecycled (h : Owned x) (hef : Effect x.1 a.1 a.2 y.1)
    (hy : y.2 = recordOwners x.1 a.1 a.2 y.1 x.2) (hown : OwnVersions y) : Unrecycled x a := by
  obtain ⟨c,r⟩ := a
  obtain ⟨s',h'⟩ := y
  dsimp only at hef hy
  cases hef with
  | @mem c r m hact =>
    obtain ⟨kids,htr⟩ := h.sane.tree
    have had : ∀ type : MemFs.NodeType, type ≠ .unset → ∀ path,
        (∃ q, MemFs.addNode x.1.nodes type path = some q ∧ q.2 = m) →
        (∃ m, MemFs.addNode x.1.nodes type path = some (0,m)) →
          Unversioned x.1.versions (allocNode x.1.nodes).1 := by
      rintro type hty path ⟨q,hq,rfl⟩ ⟨m',hm'⟩
      rcases htr.addNode type path with ⟨p,name,d,dst,hadd,heq⟩ | ⟨-,heq⟩
      · cases heq.symm.trans hq
        exact h.recycled_added hown hy htr hadd hty heq rfl (.refl _)
      · cases heq.symm.trans hm'
    cases c with
    | init =>
      have hrt : ∀ m, memFsLookupNode m (some [MemFs.slash]) = some 0 := fun m => rfl
      have hat : At { x.1 with nodes := m } (some [MemFs.slash]) 0 := ⟨hrt m,by decide⟩
      exact h.recycled hown hy hat rfl (.refl _)
    | mkdir path =>
      obtain ⟨q,hq,heq⟩ := Option.map_eq_some_iff.mp hact
      exact had .dir (by decide) path ⟨q,hq,(Prod.mk.inj heq).2⟩
    | create path =>
      obtain ⟨q,hq,heq⟩ := Option.map_eq_some_iff.mp hact
      exact had .file (by decide) path ⟨q,hq,(Prod.mk.inj heq).2⟩
    | _ => trivial
  | forkFailed hfl =>
    rintro ⟨n,hat⟩ ⟨m,hm⟩
    rcases hfl with hab | hcr
    · exact absurd hat (hab n)
    · cases hcr.symm.trans hm
  | fork hat htr hadd heq hcp =>
    intro _ _
    exact h.recycled_added hown hy htr hadd (by decide) heq rfl hcp.keeps
  | _ => trivial

/-- As long as no node with versions is used for a new file, only versions of the file itself are
read and overwritten, and a step that does so ends that. -/
theorem versions_belong (l : List (Call × MemFs.Reply)) (x : Files × Owners)
    (h : Trace (ownerRuns.guarded Unrecycled) l x) :
    OwnVersions x ∧ ∀ a y, ownerRuns.step x a y → (OwnVersions y ↔ Unrecycled x a) := by
  have how : Owned x := by
    refine h.reach.invariant Owned ?_ ?_
    · rintro ⟨s,h⟩ ⟨hs,rfl⟩
      have hfr : ∀ i < cowMaxVersions, (s.versions i).used = false := fun i => hs.free
      refine ⟨hs.sane,fun i hi hus => ?_,fun i hi hus => ?_,fun n => Nat.zero_lt_one,
        fun i hi hus => ?_⟩ <;>
        · dsimp only at hus
          rw [hfr i hi] at hus
          cases hus
    · rintro x a y hx ⟨hst,hok⟩
      obtain ⟨hact,hy⟩ := recording_eq_some.mp hst
      exact hx.effect (hx.sane.effect_of_act hact) hy hok
  refine ⟨how.ownVersions,fun a y hst => ?_⟩
  obtain ⟨hact,hy⟩ := recording_eq_some.mp hst
  have hef := how.sane.effect_of_act hact
  exact ⟨how.unrecycled hef hy,fun hok => (how.effect hef hy hok).ownVersions⟩

def blankOwners : Files × Owners := (blankFiles,⟨fun _ => 0,fun _ => 0,1⟩)

lemma blankOwners_init : ownerRuns.init blankOwners := ⟨blankFiles_started,rfl⟩

theorem versions_belong_created :
    ∃ l x, Trace (ownerRuns.guarded Unrecycled) l x ∧
      l.map Prod.fst = [.mem (.create pathF),.snapshot pathF,.mem (.create pathG)] ∧
      cowReadAt x.1 pathF (makeVerName 1) 8 = some (0,[]) ∧ Belongs x pathF (makeVerName 1) := by
  have hrun : ((recording act recordOwners blankOwners (.mem (.create pathF))).bind fun r₁ =>
      (recording act recordOwners r₁.2 (.snapshot pathF)).bind fun r₂ =>
      (recording act recordOwners r₂.2 (.mem (.create pathG))).map fun r₃ =>
        decide (Unversioned blankOwners.1.versions (allocNode blankOwners.1.nodes).1 ∧
          Unversioned r₂.2.1.versions (allocNode r₂.2.1.nodes).1 ∧
          cowReadAt r₃.2.1 pathF (makeVerName 1) 8 = some (0,[]))) = some true := by
    decide +kernel
  obtain ⟨r₁,h₁,hrun⟩ := Option.bind_eq_some_iff.mp hrun
  obtain ⟨r₂,h₂,hrun⟩ := Option.bind_eq_some_iff.mp hrun
  obtain ⟨r₃,h₃,hfl⟩ := Option.map_eq_some_iff.mp hrun
  obtain ⟨hok₁,hok₃,hrd⟩ := of_decide_eq_true hfl
  have htr : Trace (ownerRuns.guarded Unrecycled) ([] ++ [(.mem (.create pathF),r₁.1)] ++
      [(.snapshot pathF,r₂.1)] ++ [(.mem (.create pathG),r₃.1)]) r₃.2 :=
    .next (.next (.next (.start blankOwners_init) ⟨h₁,fun _ => hok₁⟩) ⟨h₂,trivial⟩)
      ⟨h₃,fun _ => hok₃⟩
  exact ⟨_,_,htr,rfl,hrd,(versions_belong _ _ htr).1.read pathF _ _ _ _ hrd (by decide)⟩

/-- A version of a file that was removed is read as one of the file that is created next. -/
theorem removed_version_read :
    ∃ l x, Trace ownerRuns l x ∧
      l.map Prod.fst =
        [.mem (.create pathF),.snapshot pathF,.mem (.remove pathF), .mem (.create pathF)] ∧
      cowReadAt x.1 pathF (makeVerName 1) 8 = some (0,[]) ∧ ¬ OwnVersions x := by
  refine exists_run (P := fun _ x => memFsLookupNode x.1.nodes pathF = some 1 ∧
      findVer x.1.versions 1 (makeVerName 1) = some 0 ∧ x.2.owner 0 ≠ x.2.stamp 1 ∧
      cowReadAt x.1 pathF (makeVerName 1) 8 = some (0,[])) blankOwners_init (by decide +kernel) ?_
  rintro - x - ⟨hlk,hfn,hne,hrd⟩
  exact ⟨hrd,not_ownVersions ⟨hlk,by decide⟩ hfn hne⟩

/-- The version that was made last of the file at the node. -/
def Latest (x : Files × Owners) (n : ℕ) (ver : List UInt8) : Prop :=
  ∃ i < cowMaxVersions, (x.1.versions i).used = true ∧ (x.1.versions i).fileNode = n ∧
    x.2.owner i = x.2.stamp n ∧ (x.1.versions i).ver = ver ∧
      ∀ j < cowMaxVersions, i < j → (x.1.versions j).used = true → (x.1.versions j).fileNode = n →
        x.2.owner j ≠ x.2.stamp n

def LatestAt (x : Files × Owners) (path : CString) (ver : List UInt8) : Prop :=
  ∃ n, At x.1 path n ∧ Latest x n ver

/-- A write that expects a version succeeds only if it is the latest one, and otherwise changes
nothing. -/
def Checks (x : Files × Owners) (path : CString) (ver : List UInt8) : Prop :=
  ∀ data rc s', cowWrite x.1 path (some ver) data = some (rc,s') →
    (rc ≠ -1 → LatestAt x path ver) ∧ (¬ LatestAt x path ver → rc = -1 ∧ s' = x.1)

/-- Of two writes that expect the same version, with any calls in between, one fails. -/
def OneWins (s : Files) (path : CString) (ver : List UInt8) : Prop :=
  ∀ data rc s' cs t data' rc' s'', cowWrite s path (some ver) data = some (rc,s') →
    runReplies act (fun _ _ => True) s' cs = some t →
    cowWrite t.2 path (some ver) data' = some (rc',s'') → rc = -1 ∨ rc' = -1

/-- Nothing at the path has a version of this name. -/
def NoVersion (s : Files) (path : CString) (ver : List UInt8) : Prop :=
  ∀ n, At s path n → ∀ i < cowMaxVersions, (s.versions i).used = true →
    (s.versions i).fileNode = n → (s.versions i).ver ≠ ver

lemma sane_of_ownerRuns {l : List (Call × MemFs.Reply)} (h : Trace ownerRuns l x) : Sane x.1 := by
  refine h.reach.invariant (fun x => Sane x.1) ?_ fun x a y hx hst => ?_
  · rintro x ⟨hx,-⟩
    exact hx.sane
  · exact (hx.effect_of_act (recording_eq_some.mp hst).1).sane hx

lemma NoVersion.refused (h : NoVersion s path ver) (hs : Sane s) (hver : ver ≠ [])
    (hwr : cowWrite s path (some ver) data = some (rc,s')) : rc = -1 ∧ s' = s := by
  rcases hs.write_refused hver hwr with ⟨n,i,hat,hfn,-⟩ | ⟨-,hrf⟩
  · obtain ⟨⟨hi,hus,hnd,hsm⟩,-⟩ := findVer_some.mp hfn
    exact absurd hsm (h n hat i hi hus hnd)
  · exact hrf

lemma write_twice (h : ¬ NoVersion s path ver) (hver : ver ≠ []) (data data' : List UInt8) :
    ∃ rc s' rc' s'', cowWrite s path (some ver) data = some (rc,s') ∧ rc ≠ -1 ∧
      cowWrite s' path (some ver) data' = some (rc',s'') ∧ rc' ≠ -1 := by
  rw [NoVersion] at h
  push Not at h
  obtain ⟨n,hat,i,hi,hus,hnd,hsa⟩ := h
  have hsm : findVer s.versions n ver ≠ none := fun hno =>
    findVer_none.mp hno i hi hus hnd hsa
  rcases hat.write_expected hver data with ⟨-,hfn,-⟩ | ⟨j,hfn,hwr⟩
  · exact absurd hfn hsm
  · have hat' : At (overwritten s j (data.take memFsPayload)) path n := hat
    rcases hat'.write_expected hver data' with ⟨-,hfn',-⟩ | ⟨k,-,hwr'⟩
    · rw [findVer_overwritten] at hfn'
      exact absurd hfn' hsm
    · exact ⟨_,_,_,_,hwr,by omega,hwr',by omega⟩

/-- Conflicts are detected only where no version has the expected name. A write that expects a
version is right to succeed if this is the latest one, but it does not make a new one. -/
theorem conflicts_detected_iff (l : List (Call × MemFs.Reply)) (x : Files × Owners)
    (h : Trace ownerRuns l x) (path : CString) (ver : List UInt8) (hver : ver ≠ []) :
    (Checks x path ver ∧ OneWins x.1 path ver ↔ NoVersion x.1 path ver) ∧
      (Checks x path ver ↔ NoVersion x.1 path ver ∨ LatestAt x path ver) := by
  have hs := sane_of_ownerRuns h
  have hch : NoVersion x.1 path ver → Checks x path ver := by
    intro hno data rc s' hwr
    have hrf := hno.refused hs hver hwr
    exact ⟨fun hrc => absurd hrf.1 hrc,fun _ => hrf⟩
  refine ⟨⟨fun hbt => ?_,fun hno => ⟨hch hno,?_⟩⟩,fun hcc => ?_,?_⟩
  · by_contra hyes
    obtain ⟨rc,s',rc',s'',hwr,hrc,hwr',hrc'⟩ := write_twice hyes hver [] []
    have hone := hbt.2 [] rc s' [] ([],s') [] rc' s'' hwr rfl hwr'
    exact hone.elim hrc hrc'
  · intro data rc s' cs t data' rc' s'' hwr _ _
    exact .inl (hno.refused hs hver hwr).1
  · by_contra hnt
    rw [not_or] at hnt
    obtain ⟨rc,s',-,-,hwr,hrc,-,-⟩ := write_twice hnt.1 hver [] []
    exact hnt.2 ((hcc [] rc s' hwr).1 hrc)
  · rintro (hno | hlt)
    · exact hch hno
    · exact fun data rc s' _ => ⟨fun _ => hlt,fun hnot => absurd hlt hnot⟩

/-- A file with one version and writers that expect another one. -/
theorem conflicts_detected_iff_other :
    ∃ l x, Trace ownerRuns l x ∧ l.map Prod.fst = [.mem (.create pathF),.snapshot pathF] ∧
      (x.1.versions 0).used = true ∧ (x.1.versions 0).ver = makeVerName 1 ∧
      Checks x pathF (makeVerName 2) ∧ OneWins x.1 pathF (makeVerName 2) := by
  refine exists_run (P := fun _ x => (x.1.versions 0).used = true ∧
      (x.1.versions 0).ver = makeVerName 1 ∧ ∀ i < cowMaxVersions,
        (x.1.versions i).used = true → (x.1.versions i).ver ≠ makeVerName 2)
    blankOwners_init (by decide +kernel) ?_
  rintro l x htr ⟨hus,hver,hno⟩
  exact ⟨hus,hver,(conflicts_detected_iff l x htr pathF (makeVerName 2) (by decide)).1.mpr
    fun n _ i hi hus _ => hno i hi hus⟩

/-- Two writers that expect the first of two versions both succeed. -/
theorem stale_writes_succeed :
    ∃ l x, Trace ownerRuns l x ∧
      l.map Prod.fst = [.mem (.create pathF),.snapshot pathF,.snapshot pathF] ∧
      ¬ LatestAt x pathF (makeVerName 1) ∧
      (∃ s₁ s₂, cowWrite x.1 pathF (some (makeVerName 1)) [1] = some (1,s₁) ∧
        cowWrite s₁ pathF (some (makeVerName 1)) [2] = some (1,s₂)) ∧
      ¬ Checks x pathF (makeVerName 1) ∧ ¬ OneWins x.1 pathF (makeVerName 1) := by
  refine exists_run (P := fun _ x => ((cowWrite x.1 pathF (some (makeVerName 1)) [1]).any fun r₁ =>
      (cowWrite r₁.2 pathF (some (makeVerName 1)) [2]).any fun r₂ => r₁.1 = 1 ∧ r₂.1 = 1) = true ∧
      memFsLookupNode x.1.nodes pathF = some 1 ∧
      (∀ i < cowMaxVersions, (x.1.versions i).used = true →
        (x.1.versions i).ver = makeVerName 1 → i = 0) ∧
      (x.1.versions 1).used = true ∧ (x.1.versions 1).fileNode = 1 ∧ x.2.owner 1 = x.2.stamp 1)
    blankOwners_init (by decide +kernel) ?_
  rintro - x - ⟨hwr,hlk,hfr,hus₁,hnd₁,how₁⟩
  obtain ⟨⟨rc₁,s₁⟩,h₁,hsc⟩ := (Option.any_eq_true _ _).mp hwr
  obtain ⟨⟨rc₂,s₂⟩,h₂,hrcs⟩ := (Option.any_eq_true _ _).mp hsc
  obtain ⟨rfl,rfl⟩ := of_decide_eq_true hrcs
  have hlt : ¬ LatestAt x pathF (makeVerName 1) := by
    rintro ⟨n,hat,i,hi,hus,-,-,hver,hls⟩
    cases hat.1.symm.trans hlk
    obtain rfl := hfr i hi hus hver
    exact hls 1 (by decide) Nat.zero_lt_one hus₁ hnd₁ how₁
  refine ⟨hlt,⟨s₁,s₂,h₁,h₂⟩,fun hch => ?_,fun hone => ?_⟩
  · exact hlt ((hch [1] 1 s₁ h₁).1 (by decide))
  · have hfl := hone [1] 1 s₁ [] ([],s₁) [2] 1 s₂ h₁ rfl h₂
    exact absurd hfl (by decide)

end HarlinKernel.CowFs
