import HarlinKernel.CowRuns

/-! What `Harlin_CowSnapshot` keeps of a file. A history variable records the content that was last
stored in each file and the snapshots that were taken of the files that are still there. -/
namespace HarlinKernel.CowFs

open TransitionSystem
open MemFs (CString Nodes noNode memFsPayload memFsLookupNode)

/-- A snapshot: the path and the node it was taken of, the name that was returned and the content
at that time. -/
structure Snapshot where
  path : CString
  node : ℕ
  ver : List UInt8
  content : List UInt8

structure Contents where
  content : ℕ → List UInt8
  taken : List Snapshot

/-- The node that a successful write stores to, and the bytes. -/
def storedBy (s : Files) (c : Call) (r : MemFs.Reply) : Option (ℕ × List UInt8) :=
  match c with
  | .mem (.write path data) =>
    if r.rc = -1 then none
    else (memFsLookupNode s.nodes path).map fun n => (n,data.take memFsPayload)
  | .write path _ data =>
    if r.rc = -1 then none
    else (memFsLookupNode s.nodes path).map fun n => (n,data.take memFsPayload)
  | _ => none

/-- The snapshots after a call. Those of a file that is removed are dropped. -/
def takenBy (s : Files) (c : Call) (r : MemFs.Reply) (s' : Files) (h : Contents) : List Snapshot :=
  match c with
  | .snapshot path =>
    if r.rc = 0 then
      let n := (memFsLookupNode s.nodes path).getD noNode
      h.taken ++ [⟨path,n,r.data,h.content n⟩]
    else h.taken
  | .mem c =>
    match c with
    | .init => []
    | .rmdir _ => h.taken.filter fun t => decide (memFsLookupNode s'.nodes t.path = some t.node)
    | .remove _ => h.taken.filter fun t => decide (memFsLookupNode s'.nodes t.path = some t.node)
    | _ => h.taken
  | _ => h.taken

def recordContents (s : Files) (c : Call) (r : MemFs.Reply) (s' : Files) (h : Contents) :
    Contents where
  content i :=
    if created s.nodes s'.nodes c i then []
    else
      match storedBy s c r with
      | some (n,bytes) => if i = n then bytes else h.content i
      | none => h.content i
  taken := takenBy s c r s' h

/-- Runs with the record of the contents. -/
def snapshotRuns : System (Files × Contents) (Call × MemFs.Reply) :=
  replies (fun x => started x.1 ∧ x.2 = ⟨fun _ => [],[]⟩) (recording act recordContents)

/-- Each snapshot of a file that is still there is read as the file was. -/
def Frozen (x : Files × Contents) : Prop :=
  ∀ t ∈ x.2.taken, ∀ size,
    cowReadAt x.1 t.path t.ver size = some (((t.content.take size).length : ℤ),t.content.take size)

/-- A snapshot is only taken of an empty file, a version that was returned by a snapshot is not
named as the expected one in a write of some bytes, and the versions are not initialised again as
long as there are snapshots. -/
def Harmless (x : Files × Contents) (a : Call × MemFs.Reply) : Prop :=
  match a.1 with
  | .snapshot path => ¬ Full x.1.versions → ∀ n, At x.1 path n → x.2.content n = []
  | .write path (some ver) data =>
    ∀ n, At x.1 path n → ∀ t ∈ x.2.taken, t.node = n → t.ver = ver → data = []
  | .cowFsInit => x.2.taken = []
  | _ => True

variable {x y : Files × Contents} {a : Call × MemFs.Reply} {s s' : Files} {n v : ℕ}

/-- The snapshots are of empty files and are found as such. -/
structure Kindly (x : Files × Contents) : Prop where
  sane : Sane x.1
  at_path : ∀ t ∈ x.2.taken, At x.1 t.path t.node
  empty : ∀ t ∈ x.2.taken, t.content = []
  bytes : ∀ t ∈ x.2.taken, bytesAt x.1.versions t.node t.ver = some []

lemma Kindly.frozen (h : Kindly x) : Frozen x := by
  intro t ht size
  rw [(h.at_path t ht).readAt,h.bytes t ht,h.empty t ht]
  rfl

lemma bytesAt_stored (hs : Sane s) (hv : FirstFree s.versions v) (n : ℕ) (bytes : List UInt8) :
    bytesAt (stored s v n bytes).versions n (makeVerName (nextVer s)) = some bytes := by
  have hsl : (stored s v n bytes).versions v = ⟨true,n,makeVerName (nextVer s),bytes⟩ := by
    simp [stored]
  have hfn : findVer (stored s v n bytes).versions n (makeVerName (nextVer s)) = some v := by
    refine findVer_some.mpr ⟨by rw [hsl]; exact ⟨hv.lt,rfl,rfl,rfl⟩,fun j hj _ _ => ?_⟩
    have hjs := hv.before j hj
    simp only [stored,Function.update_of_ne (hv.ne hjs)]
    exact hs.fresh hv (hj.trans hv.lt) hjs
  rw [bytesAt,hfn,Option.map_some,hsl]

lemma Kindly.extends (h : Kindly x) (hsn : Sane y.1) (htk : y.2.taken = x.2.taken)
    (hkp : Kept x.1.nodes y.1.nodes) (hext : Extends x.1.versions y.1.versions) : Kindly y := by
  refine ⟨hsn,?_,?_,?_⟩ <;> rw [htk]
  · exact fun t ht => (h.at_path t ht).kept hkp
  · exact h.empty
  · exact fun t ht => bytesAt_extends hext h.sane.filled (h.bytes t ht)

lemma Kindly.mem (h : Kindly x) {c : MemFs.Call} {r : MemFs.Reply} {m : Nodes}
    (hact : MemFs.act x.1.nodes c = some (r,m)) (hsn : Sane { x.1 with nodes := m }) :
    Kindly ({ x.1 with nodes := m },recordContents x.1 (.mem c) r { x.1 with nodes := m } x.2) := by
  cases hc : removes c with
  | false =>
    obtain ⟨kids,htr⟩ := h.sane.tree
    refine h.extends hsn ?_ (kept_act htr hc hact) (.refl _)
    cases c <;> first | rfl | cases hc
  | true =>
    -- what is left of the snapshots is still at its path
    have hlf : ∀ t ∈ takenBy x.1 (.mem c) r { x.1 with nodes := m } x.2,
        t ∈ x.2.taken ∧ memFsLookupNode m t.path = some t.node := by
      intro t ht
      cases c with
      | init => exact absurd ht List.not_mem_nil
      | rmdir _ => simpa [takenBy] using ht
      | remove _ => simpa [takenBy] using ht
      | _ => cases hc
    exact ⟨hsn,fun t ht => ⟨(hlf t ht).2,(h.at_path t (hlf t ht).1).2⟩,
      fun t ht => h.empty t (hlf t ht).1,fun t ht => h.bytes t (hlf t ht).1⟩

lemma Kindly.step (h : Kindly x) (hef : Effect x.1 a.1 a.2 y.1)
    (hy : y.2 = recordContents x.1 a.1 a.2 y.1 x.2) (hok : Harmless x a) : Kindly y := by
  obtain ⟨c,r⟩ := a
  obtain ⟨s',h'⟩ := y
  dsimp only at hef hy hok
  have hsn := hef.sane h.sane
  subst hy
  cases hef with
  | mem hact => exact h.mem hact hsn
  | cowFsInit =>
    have hno : x.2.taken = [] := hok
    refine ⟨hsn,?_,?_,?_⟩ <;> intro t ht <;>
      · simp only [recordContents,takenBy,hno] at ht
        cases ht
  | snapshotAbsent _ => exact h.extends hsn rfl (.refl _) (.refl _)
  | snapshotFull _ => exact h.extends hsn rfl (.refl _) (.refl _)
  | @snapshot path n v hat hv =>
    have hold : Kindly (stored x.1 v n [],x.2) := h.extends hsn rfl (.refl _) (hv.extends _)
    have hem : x.2.content n = [] := hok hv.not_full n hat
    have htk : ∀ t ∈ (recordContents x.1 (.snapshot path) ⟨0,makeVerName (nextVer x.1),[]⟩
        (stored x.1 v n []) x.2).taken,
          t ∈ x.2.taken ∨ t = ⟨path,n,makeVerName (nextVer x.1),[]⟩ := by
      intro t ht
      simpa [recordContents,takenBy,hat.1,hem] using ht
    refine ⟨hsn,fun t ht => ?_,fun t ht => ?_,fun t ht => ?_⟩ <;> rcases htk t ht with ht | rfl
    · exact hold.at_path t ht
    · exact hat
    · exact hold.empty t ht
    · rfl
    · exact hold.bytes t ht
    · exact bytesAt_stored h.sane hv n []
  | writeFailed _ => exact h.extends hsn rfl (.refl _) (.refl _)
  | @overwrite path ver data n i hat hver hfo =>
    refine ⟨hsn,h.at_path,h.empty,fun t ht => ?_⟩
    obtain ⟨j,hfn,hpay⟩ := Option.map_eq_some_iff.mp (h.bytes t ht)
    rw [bytesAt,findVer_overwritten,hfn,Option.map_some]
    by_cases hji : j = i
    · obtain ⟨⟨-,-,hjn,hjv⟩,-⟩ := findVer_some.mp hfn
      obtain ⟨⟨-,-,hin,hiv⟩,-⟩ := findVer_some.mp hfo
      rw [hji] at hjn hjv
      have hdt : data = [] :=
        hok n hat t ht (hjn.symm.trans hin) (hjv.symm.trans hiv)
      simp [overwritten,hji,hdt]
    · simp only [overwritten,Function.update_of_ne hji]
      rw [hpay]
  | write _ _ hv => exact h.extends hsn rfl (.refl _) (hv.extends _)
  | readAt => exact h.extends hsn rfl (.refl _) (.refl _)
  | forkFailed _ => exact h.extends hsn rfl (.refl _) (.refl _)
  | fork _ htr hadd _ hcp =>
    exact h.extends hsn rfl (kept_added htr hadd (by decide)) hcp.keeps

lemma Kindly.ver_ne_nil (h : Kindly x) {t : Snapshot} (ht : t ∈ x.2.taken) : t.ver ≠ [] := by
  obtain ⟨j,hfn,-⟩ := Option.map_eq_some_iff.mp (h.bytes t ht)
  obtain ⟨⟨hj,hus,-,hver⟩,-⟩ := findVer_some.mp hfn
  exact hver ▸ h.sane.ver_ne_nil hj hus

lemma Frozen.content_eq (h : Frozen x) {t : Snapshot} (ht : t ∈ x.2.taken)
    (hat : At x.1 t.path n) {bytes : List UInt8} (hby : bytesAt x.1.versions n t.ver = some bytes) :
    bytes = t.content := by
  have hrd := h t ht (max bytes.length t.content.length)
  rw [hat.readAt,hby] at hrd
  simp only [Option.map_some,Option.getD_some,Option.some.injEq,Prod.mk.injEq] at hrd
  rw [List.take_of_length_le (le_max_left _ _),List.take_of_length_le (le_max_right _ _)] at hrd
  exact hrd.2

lemma Kindly.harmless (h : Kindly x) (hef : Effect x.1 a.1 a.2 y.1)
    (hy : y.2 = recordContents x.1 a.1 a.2 y.1 x.2) (hfr : Frozen y) : Harmless x a := by
  obtain ⟨c,r⟩ := a
  obtain ⟨s',h'⟩ := y
  dsimp only at hef hy
  subst hy
  cases hef with
  | mem _ => trivial
  | cowFsInit =>
    refine List.eq_nil_iff_forall_not_mem.mpr fun t ht => ?_
    have hat : At (cowFsInit x.1) t.path t.node := h.at_path t ht
    have hno : findVer (cowFsInit x.1).versions t.node t.ver = none := by
      refine findVer_none.mpr fun i hi hus => ?_
      rw [cowFsInit_free x.1 hi] at hus
      cases hus
    have hrd := hfr t ht 0
    rw [hat.readAt,bytesAt,hno] at hrd
    cases hrd
  | snapshotAbsent hab => exact fun _ n hat => absurd hat (hab n)
  | snapshotFull hfu => exact fun hnot => absurd hfu hnot
  | @snapshot path n v hat hv =>
    intro _ n' hat'
    obtain rfl := hat.unique hat'
    have hmem : (⟨path,n,makeVerName (nextVer x.1),x.2.content n⟩ : Snapshot) ∈
        takenBy x.1 (.snapshot path) ⟨0,makeVerName (nextVer x.1),[]⟩ (stored x.1 v n []) x.2 := by
      simp [takenBy,hat.1]
    exact (hfr.content_eq hmem hat (bytesAt_stored h.sane hv n [])).symm
  | @writeFailed path expectedVer data hfl =>
    cases expectedVer with
    | none => trivial
    | some ver =>
      intro n hat t ht hnd hver
      have hsl := hfl n hat
      obtain ⟨j,hfn,-⟩ := Option.map_eq_some_iff.mp (h.bytes t ht)
      obtain ⟨c,cs,hcs⟩ := List.exists_cons_of_ne_nil (h.ver_ne_nil ht)
      rw [← hver,hcs,writeSlot,← hcs,← hnd,hfn] at hsl
      cases hsl
  | @overwrite path ver data n i hat hver hfo =>
    intro n' hat' t ht hnd hver'
    obtain rfl := hat.unique hat'
    have hby : bytesAt (overwritten x.1 i (data.take memFsPayload)).versions n t.ver =
        some (data.take memFsPayload) := by
      rw [bytesAt,findVer_overwritten,hver',hfo]
      simp [overwritten]
    have hat₁ : At (overwritten x.1 i (data.take memFsPayload)) t.path n := hnd ▸ h.at_path t ht
    have hcn := hfr.content_eq ht hat₁ hby
    rw [h.empty t ht] at hcn
    exact (List.take_eq_nil_iff.mp hcn).resolve_left (by decide)
  | write _ hem _ =>
    rcases hem with rfl | rfl
    · trivial
    · exact fun n _ t ht _ hver => absurd hver (h.ver_ne_nil ht)
  | readAt => trivial
  | forkFailed _ => trivial
  | fork _ _ _ _ _ => trivial

/-- As long as the condition is met each snapshot is read as the file was, and a step that does not
meet it ends that. -/
theorem snapshots_frozen (l : List (Call × MemFs.Reply)) (x : Files × Contents)
    (h : Trace (snapshotRuns.guarded Harmless) l x) :
    Frozen x ∧ ∀ a y, snapshotRuns.step x a y → (Frozen y ↔ Harmless x a) := by
  have hkn : Kindly x := by
    refine h.reach.invariant Kindly ?_ ?_
    · rintro ⟨s,h⟩ ⟨hs,rfl⟩
      exact ⟨hs.sane,fun _ ht => (nomatch ht),fun _ ht => (nomatch ht),fun _ ht => (nomatch ht)⟩
    · rintro x a y hx ⟨hst,hok⟩
      obtain ⟨hact,hy⟩ := recording_eq_some.mp hst
      exact hx.step (hx.sane.effect_of_act hact) hy hok
  refine ⟨hkn.frozen,fun a y hst => ?_⟩
  obtain ⟨hact,hy⟩ := recording_eq_some.mp hst
  have hef := hkn.sane.effect_of_act hact
  exact ⟨hkn.harmless hef hy,fun hok => (hkn.step hef hy hok).frozen⟩

def blankContents : Files × Contents := (blankFiles,⟨fun _ => [],[]⟩)

lemma blankContents_init : snapshotRuns.init blankContents := ⟨blankFiles_started,rfl⟩

theorem snapshots_frozen_empty :
    ∃ l x, Trace (snapshotRuns.guarded Harmless) l x ∧
      l.map Prod.fst =
        [.mem (.create pathF),.snapshot pathF,.mem (.write pathF [1]),.write pathF none [2]] ∧
      x.2.taken.map (fun t => (t.ver,t.content)) = [(makeVerName 1,[])] ∧ Frozen x := by
  have hrun : ((recording act recordContents blankContents (.mem (.create pathF))).bind fun r₁ =>
      (recording act recordContents r₁.2 (.snapshot pathF)).bind fun r₂ =>
      (recording act recordContents r₂.2 (.mem (.write pathF [1]))).bind fun r₃ =>
      (recording act recordContents r₃.2 (.write pathF none [2])).map fun r₄ =>
        decide (memFsLookupNode r₁.2.1.nodes pathF = some 1 ∧ r₁.2.2.content 1 = [] ∧
          r₄.2.2.taken.map (fun t => (t.ver,t.content)) = [(makeVerName 1,[])])) = some true := by
    decide +kernel
  obtain ⟨r₁,h₁,hrun⟩ := Option.bind_eq_some_iff.mp hrun
  obtain ⟨r₂,h₂,hrun⟩ := Option.bind_eq_some_iff.mp hrun
  obtain ⟨r₃,h₃,hrun⟩ := Option.bind_eq_some_iff.mp hrun
  obtain ⟨r₄,h₄,hfl⟩ := Option.map_eq_some_iff.mp hrun
  obtain ⟨hlk,hem,htk⟩ := of_decide_eq_true hfl
  have hhr : Harmless r₁.2 (.snapshot pathF,r₂.1) := by
    intro _ n hat
    rw [Option.some.inj (hat.1.symm.trans hlk),hem]
  have htr : Trace (snapshotRuns.guarded Harmless) ([] ++ [(.mem (.create pathF),r₁.1)] ++
      [(.snapshot pathF,r₂.1)] ++ [(.mem (.write pathF [1]),r₃.1)] ++
      [(.write pathF none [2],r₄.1)]) r₄.2 :=
    .next (.next (.next (.next (.start blankContents_init) ⟨h₁,trivial⟩) ⟨h₂,hhr⟩)
      ⟨h₃,trivial⟩) ⟨h₄,trivial⟩
  exact ⟨_,_,htr,rfl,htk,(snapshots_frozen _ _ htr).1⟩

/-- The snapshot of a file that holds a byte is empty. -/
theorem snapshot_loses_content :
    ∃ l x, Trace snapshotRuns l x ∧
      l.map Prod.fst = [.mem (.create pathF),.mem (.write pathF [1]),.snapshot pathF] ∧
      (∃ t ∈ x.2.taken, t.path = pathF ∧ t.ver = makeVerName 1 ∧ t.content = [1]) ∧
      cowReadAt x.1 pathF (makeVerName 1) 8 = some (0,[]) ∧ ¬ Frozen x := by
  refine exists_run (P := fun _ x => cowReadAt x.1 pathF (makeVerName 1) 8 = some (0,[]) ∧
      ∃ u ∈ x.2.taken, u.path = pathF ∧ u.ver = makeVerName 1 ∧ u.content = [1])
    blankContents_init (by decide +kernel) ?_
  rintro - x - ⟨hrd,u,hu,hpt,hver,hcn⟩
  refine ⟨⟨u,hu,hpt,hver,hcn⟩,hrd,fun hfr => ?_⟩
  have hkp := hfr u hu 8
  rw [hpt,hver,hrd,hcn] at hkp
  cases hkp

end HarlinKernel.CowFs
