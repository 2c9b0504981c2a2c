import HarlinKernel.Tcp

/-! Several callers of `tcp_connect_remote` and `tcp_close_conn` of `net/network.c` at once.
A connect call selects a slot, fills in its addresses, resolves the remote card, sends SYNs
and waits, in steps between which other calls run; only its first two and its last step
hold the lock. What arrives is an input of the steps. -/
namespace HarlinKernel.TcpTable

open TransitionSystem Ethernet Tcp
open Function (update update_self update_of_ne)

/-- Where a connect call stands, with its slot; `opened` when it has returned the slot and
nobody has closed it, `done` when nothing is open for it. -/
inductive Phase
  | idle
  | allocated (id : ℕ)
  | resolving (id : ℕ)
  | waiting (id retries : ℕ)
  | accepted (id : ℕ)
  | failing (id : ℕ)
  | opened (id : ℕ)
  | done
  deriving DecidableEq

/-- The slot of a call in progress. -/
def Phase.held : Phase → Option ℕ
  | .allocated id => some id
  | .resolving id => some id
  | .waiting id _ => some id
  | .accepted id => some id
  | .failing id => some id
  | _ => none

/-- The slot whose port a call in progress has set. -/
def Phase.addressed : Phase → Option ℕ
  | .resolving id => some id
  | .waiting id _ => some id
  | .accepted id => some id
  | _ => none

/-- The connection table and the connect calls, numbered in the order of their start. -/
structure Net where
  tcp : State
  phase : ℕ → Phase
  count : ℕ

inductive Call
  | alloc
  | address (k : ℕ) (ip : ℕ → UInt8) (port : ℕ)
  | resolve (k : ℕ) (mac : Option (ℕ → UInt8))
  | syn (k : ℕ)
  | accept (k seq : ℕ)
  | refuse (k : ℕ)
  | fail (k : ℕ)
  | finish (k : ℕ)
  | close (id : ℤ)

/-- A step of call `k` on its slot. -/
def Net.move (s : Net) (k id : ℕ) (p : Phase) (c : Conn) (h : Host) : Net :=
  { s with
    tcp := { s.tcp with conns := update s.tcp.conns id c, host := h }
    phase := update s.phase k p }

/-- `tcp_alloc_conn`, the first locked section. -/
def alloc (s : Net) : Option ℤ × Net :=
  match tcpAllocConn s.tcp with
  | (none,t) => (some (-1),⟨t,update s.phase s.count .done,s.count+1⟩)
  | (some id,t) => (none,⟨t,update s.phase s.count (.allocated id),s.count+1⟩)

/-- The second locked section: the addresses and the next local port. -/
def address (s : Net) (k : ℕ) (ip : ℕ → UInt8) (port : ℕ) : Option Net :=
  match s.phase k with
  | .allocated id =>
    let c := (s.tcp.conns id).addressed s.tcp.tcpNextSport ip port
    let t := s.move k id (.resolving id) c s.tcp.host
    some { t with tcp := { t.tcp with tcpNextSport := (s.tcp.tcpNextSport+1) % 2^16 } }
  | _ => none

/-- The first part of `tcp_connect_conn`; `mac` is what `arp_resolve` finds. -/
def resolve (s : Net) (k : ℕ) (mac : Option (ℕ → UInt8)) : Option Net :=
  match s.phase k with
  | .resolving id =>
    let c := s.tcp.conns id
    let synSent := fun c : Conn =>
      s.move k id (.waiting id 5) { c with seqLocal := 1000, seqRemote := 0, state := .synSent }
        s.tcp.host
    if c.macResolved then some (synSent c)
    else
      match mac with
      | some mac => some (synSent { c with remoteMac := mac, macResolved := true })
      | none => some (s.move k id (.failing id) c s.tcp.host)
  | _ => none

/-- One SYN of the retry loop. -/
def syn (s : Net) (k : ℕ) : Option Net :=
  match s.phase k with
  | .waiting id (n+1) =>
    let r := tcpBuildAndSend (s.tcp.conns id) s.tcp.host tcpFlagSyn (fun _ => 0) 0
    some (s.move k id (.waiting id n) r.1 r.2)
  | _ => none

/-- A SYN-ACK with sequence number `seq` arrives. -/
def accept (s : Net) (k seq : ℕ) : Option Net :=
  match s.phase k with
  | .waiting id _ =>
    let c := s.tcp.conns id
    if c.state = .synSent then
      let r := tcpBuildAndSend { c with seqRemote := (seq+1) % 2^32, state := .established }
        s.tcp.host tcpFlagAck (fun _ => 0) 0
      some (s.move k id (.accepted id) r.1 r.2)
    else none
  | _ => none

/-- A reset arrives or the last wait ends. -/
def refuse (s : Net) (k : ℕ) : Option Net :=
  match s.phase k with
  | .waiting id _ =>
    some (s.move k id (.failing id) { s.tcp.conns id with state := .closed } s.tcp.host)
  | _ => none

/-- The locked section after a failure. -/
def fail (s : Net) (k : ℕ) : Option Net :=
  match s.phase k with
  | .failing id =>
    some (s.move k id .done { s.tcp.conns id with state := .closed, macResolved := false }
      s.tcp.host)
  | _ => none

/-- The call returns its slot; it may have been closed already. -/
def finish (s : Net) (k : ℕ) : Option (ℤ × Net) :=
  match s.phase k with
  | .accepted id =>
    let p := if (s.tcp.conns id).state = .closed then .done else .opened id
    some (id,s.move k id p (s.tcp.conns id) s.tcp.host)
  | _ => none

def close (s : Net) (id : ℤ) : Net :=
  { s with
    tcp := tcpCloseConn s.tcp id
    phase := fun k => if 0 ≤ id ∧ s.phase k = .opened id.toNat then .done else s.phase k }

/-- One step and what the connect call returns in it. -/
def act (s : Net) : Call → Option (Option ℤ × Net)
  | .alloc => some (alloc s)
  | .address k ip port => (address s k ip port).map (none,·)
  | .resolve k mac => (resolve s k mac).map (none,·)
  | .syn k => (syn s k).map (none,·)
  | .accept k seq => (accept s k seq).map (none,·)
  | .refuse k => (refuse s k).map (none,·)
  | .fail k => (fail s k).map (some (-1),·)
  | .finish k => (finish s k).map fun r => (some r.1,r.2)
  | .close id => some (none,close s id)

/-- No connection and no call. -/
def Started (s : Net) : Prop :=
  (∀ id, (s.tcp.conns id).state = .closed) ∧ (∀ k, s.phase k = .idle) ∧ s.count = 0

def netRuns : System Net (Call × Option ℤ) := replies Started act

/-- The slot is open, or a call in progress has set its port. -/
def InUse (s : Net) (id : ℕ) : Prop :=
  (s.tcp.conns id).state ≠ .closed ∨ ∃ k < s.count, (s.phase k).addressed = some id

instance (s : Net) (id : ℕ) : Decidable (InUse s id) := inferInstanceAs (Decidable (_ ∨ _))

/-- The slot that `tcp_alloc_conn` finds belongs to no call in progress, and the port
handed out is not in use. -/
def Separate (s : Net) (a : Call × Option ℤ) : Prop :=
  match a.1 with
  | .alloc => ∀ id ∈ (tcpAllocConn s.tcp).1, ∀ k < s.count, (s.phase k).held ≠ some id
  | .address k _ _ => ∀ id < maxTcpConn, (s.phase k).held ≠ some id → InUse s id →
      (s.tcp.conns id).sport ≠ s.tcp.tcpNextSport
  | _ => True

/-- Two returned slots that are still open differ, and so do the ports of open slots. -/
structure Distinct (s : Net) : Prop where
  ids : ∀ k k' id, s.phase k = .opened id → s.phase k' = .opened id → k = k'
  ports : ∀ id id', (s.tcp.conns id).state ≠ .closed → (s.tcp.conns id').state ≠ .closed →
    (s.tcp.conns id).sport = (s.tcp.conns id').sport → id = id'

/-- The slot of a call in progress or still open. -/
def Phase.slot : Phase → Option ℕ
  | .opened id => some id
  | p => p.held

/-- Calls have slots of their own inside the table, a returned slot stays open, and slots in
use have ports of their own. -/
structure Exclusive (s : Net) : Prop where
  fresh : ∀ k, s.count ≤ k → s.phase k = .idle
  small : ∀ id, InUse s id → id < maxTcpConn
  bounds : ∀ k id, (s.phase k).slot = some id → id < maxTcpConn
  slots : ∀ k k' id, (s.phase k).slot = some id → (s.phase k').slot = some id → k = k'
  opened : ∀ k id, s.phase k = .opened id → (s.tcp.conns id).state ≠ .closed
  ports : ∀ id id', InUse s id → InUse s id' →
    (s.tcp.conns id).sport = (s.tcp.conns id').sport → id = id'

variable {p : Phase} {id k id' : ℕ} {s : Net} {c : Conn} {host : Host} {o : Option ℤ}

lemma Phase.slot_of_held (h : p.held = some id) : p.slot = some id := by
  cases p with
  | opened => cases h
  | _ => exact h

lemma Phase.held_of_addressed (h : p.addressed = some id) : p.held = some id := by
  cases p with
  | resolving => exact h
  | waiting => exact h
  | accepted => exact h
  | _ => cases h

lemma Exclusive.distinct (h : Exclusive s) : Distinct s where
  ids k k' id hk hk' := h.slots k k' id (by rw [hk]; rfl) (by rw [hk']; rfl)
  ports id id' hid hid' := h.ports id id' (.inl hid) (.inl hid')

lemma Exclusive.started (h : Started s) : Exclusive s := by
  obtain ⟨hcl,hil,hcn⟩ := h
  have hun : ∀ id, ¬ InUse s id := by
    rintro id (hop | ⟨k,hk,-⟩)
    · exact hop (hcl id)
    · omega
  refine ⟨fun k _ => hil k,fun id hid => (hun id hid).elim,?_,?_,?_,?_⟩
  · intro k id hk
    rw [hil k] at hk
    cases hk
  · intro k k' id hk
    rw [hil k] at hk
    cases hk
  · intro k id hk
    rw [hil k] at hk
    cases hk
  · intro id id' hid
    exact (hun id hid).elim

@[simp] lemma move_conns (s : Net) (k id : ℕ) (p : Phase) (c : Conn) (h : Host) :
    (s.move k id p c h).tcp.conns = update s.tcp.conns id c := rfl

@[simp] lemma move_phase (s : Net) (k id : ℕ) (p : Phase) (c : Conn) (h : Host) :
    (s.move k id p c h).phase = update s.phase k p := rfl

@[simp] lemma move_count (s : Net) (k id : ℕ) (p : Phase) (c : Conn) (h : Host) :
    (s.move k id p c h).count = s.count := rfl

lemma Exclusive.lt_count (h : Exclusive s) (hk : (s.phase k).slot = some id) : k < s.count := by
  by_contra hge
  rw [h.fresh k (by omega)] at hk
  cases hk

/-- What a step of a call may do with its slot: it keeps it or gives it up, and hands it
out only open. -/
structure OwnStep (id : ℕ) (p : Phase) (c : Conn) : Prop where
  slot : ∀ id', p.slot = some id' → id' = id
  opened : ∀ id', p = .opened id' → c.state ≠ .closed

lemma OwnStep.addressed (h : OwnStep id p c) (hp : p.addressed = some id') : id' = id :=
  h.slot id' (Phase.slot_of_held (Phase.held_of_addressed hp))

lemma ownStep_held (h : p.held = some id) (c : Conn) : OwnStep id p c := by
  refine ⟨fun id' hid' => ?_,fun id' hid' => ?_⟩
  · rw [Phase.slot_of_held h] at hid'
    exact (Option.some.inj hid').symm
  · rw [hid'] at h
    cases h

lemma inUse_move (hown : OwnStep id p c)
    (hne : id' ≠ id) (h : InUse (s.move k id p c host) id') : InUse s id' := by
  rcases h with hop | ⟨k',hlt,hk'⟩
  · rw [move_conns,update_of_ne hne] at hop
    exact .inl hop
  · rw [move_phase] at hk'
    by_cases hk : k' = k
    · subst hk
      rw [update_self] at hk'
      exact (hne (hown.addressed hk')).elim
    · rw [update_of_ne hk] at hk'
      exact .inr ⟨k',hlt,hk'⟩

/-- A step of a call on its own slot keeps the slots apart when the port of the slot, if it
is in use afterwards, differs from the others in use. -/
theorem Exclusive.move (h : Exclusive s) (hk : (s.phase k).held = some id) (hown : OwnStep id p c)
    (hpr : InUse (s.move k id p c host) id → ∀ id', id' ≠ id → InUse s id' →
    c.sport ≠ (s.tcp.conns id').sport) : Exclusive (s.move k id p c host) := by
  have hsl := Phase.slot_of_held hk
  have hid := h.bounds k id hsl
  have hlt := h.lt_count hsl
  have hot : ∀ k', k' ≠ k → (s.phase k').slot ≠ some id := fun k' hne hk' =>
    hne (h.slots k' k id hk' hsl)
  refine ⟨fun k' hge => ?_,fun id' hin => ?_,fun k' id' hk' => ?_,fun k' k'' id' hk' hk'' => ?_,
    fun k' id' hk' => ?_,fun id' id'' hin hin' heq => ?_⟩
  · rw [move_phase,update_of_ne (by rw [move_count] at hge; omega)]
    exact h.fresh k' hge
  · by_cases hne : id' = id
    · rw [hne]
      exact hid
    · exact h.small id' (inUse_move hown hne hin)
  · rw [move_phase] at hk'
    by_cases hne : k' = k
    · subst hne
      rw [update_self] at hk'
      rw [hown.slot id' hk']
      exact hid
    · rw [update_of_ne hne] at hk'
      exact h.bounds k' id' hk'
  · rw [move_phase] at hk' hk''
    by_cases hne' : k' = k
    · by_cases hne'' : k'' = k
      · rw [hne',hne'']
      · rw [hne',update_self] at hk'
        rw [update_of_ne hne'',hown.slot id' hk'] at hk''
        exact (hot k'' hne'' hk'').elim
    · by_cases hne'' : k'' = k
      · rw [hne'',update_self] at hk''
        rw [update_of_ne hne',hown.slot id' hk''] at hk'
        exact (hot k' hne' hk').elim
      · rw [update_of_ne hne'] at hk'
        rw [update_of_ne hne''] at hk''
        exact h.slots k' k'' id' hk' hk''
  · rw [move_phase] at hk'
    rw [move_conns]
    by_cases hne : k' = k
    · subst hne
      rw [update_self] at hk'
      obtain rfl := hown.slot id' (by rw [hk']; rfl)
      rw [update_self]
      exact hown.opened id' hk'
    · rw [update_of_ne hne] at hk'
      have hne' : id' ≠ id := by
        rintro rfl
        exact hot k' hne (by rw [hk']; rfl)
      rw [update_of_ne hne']
      exact h.opened k' id' hk'
  · rw [move_conns] at heq
    by_cases hne : id' = id
    · by_cases hne' : id'' = id
      · rw [hne,hne']
      · rw [hne,update_self,update_of_ne hne'] at heq
        exact (hpr (hne ▸ hin) id'' hne' (inUse_move hown hne' hin') heq).elim
    · by_cases hne' : id'' = id
      · rw [hne',update_self,update_of_ne hne] at heq
        exact (hpr (hne' ▸ hin') id' hne (inUse_move hown hne hin) heq.symm).elim
      · rw [update_of_ne hne,update_of_ne hne'] at heq
        exact h.ports id' id'' (inUse_move hown hne hin) (inUse_move hown hne' hin') heq

lemma Exclusive.move_same (h : Exclusive s) (hk : (s.phase k).held = some id)
    (hown : OwnStep id p c) (hpr : c.sport = (s.tcp.conns id).sport)
    (hin : InUse (s.move k id p c host) id → InUse s id) : Exclusive (s.move k id p c host) := by
  refine h.move hk hown fun hid id' hne hin' heq => hne (h.ports id' id hin' (hin hid) ?_)
  rw [← heq,hpr]

section Steps

variable {s t : Net}

lemma Exclusive.inUse (h : Exclusive s) (hk : (s.phase k).addressed = some id) : InUse s id :=
  .inr ⟨k,h.lt_count (Phase.slot_of_held (Phase.held_of_addressed hk)),hk⟩

lemma Exclusive.enter (h : Exclusive s) {u : State} (had : p.addressed = none)
    (hnot : ∀ id, p ≠ .opened id)
    (hsl : ∀ id, p.slot = some id → id < maxTcpConn ∧ ∀ k, (s.phase k).slot ≠ some id)
    (hcn : ∀ id, u.conns id = s.tcp.conns id ∨
      (u.conns id).state = .closed ∧ ∀ k, (s.phase k).slot ≠ some id) :
    Exclusive ⟨u,update s.phase s.count p,s.count+1⟩ := by
  have hin : ∀ id, InUse ⟨u,update s.phase s.count p,s.count+1⟩ id →
      InUse s id ∧ u.conns id = s.tcp.conns id := by
    rintro id (hop | ⟨k,hlt,hk⟩)
    · rcases hcn id with hsm | ⟨hcl,-⟩
      · exact ⟨.inl (hsm ▸ hop),hsm⟩
      · exact (hop hcl).elim
    · dsimp only at hlt hk
      have hne : k ≠ s.count := by
        rintro rfl
        rw [update_self,had] at hk
        cases hk
      rw [update_of_ne hne] at hk
      refine ⟨.inr ⟨k,by omega,hk⟩,(hcn id).resolve_right fun hot => ?_⟩
      exact hot.2 k (Phase.slot_of_held (Phase.held_of_addressed hk))
  refine ⟨fun k hge => ?_,fun id hid => h.small id (hin id hid).1,fun k id hk => ?_,
    fun k k' id hk hk' => ?_,fun k id hk => ?_,fun id id' hid hid' heq => ?_⟩
  · dsimp only at hge ⊢
    rw [update_of_ne (by omega)]
    exact h.fresh k (by omega)
  · by_cases hne : k = s.count
    · dsimp only at hk
      rw [hne,update_self] at hk
      exact (hsl id hk).1
    · dsimp only at hk
      rw [update_of_ne hne] at hk
      exact h.bounds k id hk
  · dsimp only at hk hk'
    by_cases hne : k = s.count
    · by_cases hne' : k' = s.count
      · rw [hne,hne']
      · rw [hne,update_self] at hk
        rw [update_of_ne hne'] at hk'
        exact ((hsl id hk).2 k' hk').elim
    · by_cases hne' : k' = s.count
      · rw [hne',update_self] at hk'
        rw [update_of_ne hne] at hk
        exact ((hsl id hk').2 k hk).elim
      · rw [update_of_ne hne] at hk
        rw [update_of_ne hne'] at hk'
        exact h.slots k k' id hk hk'
  · dsimp only at hk ⊢
    by_cases hne : k = s.count
    · rw [hne,update_self] at hk
      exact (hnot id hk).elim
    · rw [update_of_ne hne] at hk
      have hsm := (hcn id).resolve_right fun hot => hot.2 k (by rw [hk]; rfl)
      rw [hsm]
      exact h.opened k id hk
  · obtain ⟨hid,hsm⟩ := hin id hid
    obtain ⟨hid',hsm'⟩ := hin id' hid'
    rw [hsm,hsm'] at heq
    exact h.ports id id' hid hid' heq

lemma Exclusive.alloc (h : Exclusive s) (hok : Separate s (.alloc,o)) :
    Exclusive (alloc s).2 := by
  unfold TcpTable.alloc
  simp only [Separate,tcpAllocConn] at hok ⊢
  cases hfn : (List.range maxTcpConn).find? fun i => (s.tcp.conns i).state = .closed with
  | none =>
    exact h.enter rfl (fun id hid => by cases hid) (fun id hid => by cases hid) fun id => .inl rfl
  | some id =>
    rw [hfn] at hok
    have hcl : (s.tcp.conns id).state = .closed := by
      simpa using List.find?_some hfn
    have hlt : id < maxTcpConn := List.mem_range.mp (List.mem_of_find?_eq_some hfn)
    have hfr : ∀ k, (s.phase k).slot ≠ some id := by
      intro k hk
      have hcn := h.lt_count hk
      cases hph : s.phase k with
      | opened id' =>
        rw [hph] at hk
        obtain rfl := Option.some.inj hk
        exact h.opened k id' hph hcl
      | _ => exact hok id rfl k hcn (by rw [hph] at hk ⊢; exact hk)
    refine h.enter rfl (fun id' hid' => by cases hid') ?_ ?_
    · rintro id' ⟨⟩
      exact ⟨hlt,hfr⟩
    · intro id'
      by_cases hne : id' = id
      · subst hne
        exact .inr ⟨by simp [Conn.zero],hfr⟩
      · exact .inl (update_of_ne hne _ _)

lemma Exclusive.address (h : Exclusive s) {ip : ℕ → UInt8} {port : ℕ}
    (hok : Separate s (.address k ip port,o)) (ht : address s k ip port = some t) :
    Exclusive t := by
  unfold TcpTable.address at ht
  split at ht
  · rename_i id hk
    cases ht
    have hhl : (s.phase k).held = some id := by rw [hk]; rfl
    have hmv : Exclusive (s.move k id (.resolving id)
        ((s.tcp.conns id).addressed s.tcp.tcpNextSport ip port) s.tcp.host) :=
      h.move hhl (ownStep_held rfl _) fun _ id' hne hin heq =>
        hok id' (h.small id' hin) (by rw [hhl]; simpa using Ne.symm hne) hin heq.symm
    exact ⟨hmv.fresh,hmv.small,hmv.bounds,hmv.slots,hmv.opened,hmv.ports⟩
  · cases ht

lemma Exclusive.resolve (h : Exclusive s) {mac : Option (ℕ → UInt8)}
    (ht : resolve s k mac = some t) : Exclusive t := by
  unfold TcpTable.resolve at ht
  split at ht
  · rename_i id hk
    have hhl : (s.phase k).held = some id := by rw [hk]; rfl
    have hin : InUse s id := h.inUse (by rw [hk]; rfl)
    dsimp only at ht
    split at ht
    · cases ht
      exact h.move_same hhl (ownStep_held rfl _) rfl fun _ => hin
    · split at ht
      · cases ht
        exact h.move_same hhl (ownStep_held rfl _) rfl fun _ => hin
      · cases ht
        exact h.move_same hhl (ownStep_held rfl _) rfl fun _ => hin
  · cases ht

lemma Exclusive.syn (h : Exclusive s) (ht : syn s k = some t) : Exclusive t := by
  unfold TcpTable.syn at ht
  split at ht
  · rename_i id n hk
    cases ht
    exact h.move_same (by rw [hk]; rfl) (ownStep_held rfl _) rfl
      fun _ => h.inUse (by rw [hk]; rfl)
  · cases ht

lemma Exclusive.accept (h : Exclusive s) {seq : ℕ} (ht : accept s k seq = some t) :
    Exclusive t := by
  unfold TcpTable.accept at ht
  split at ht
  · rename_i id n hk
    dsimp only at ht
    split_ifs at ht
    cases ht
    exact h.move_same (by rw [hk]; rfl) (ownStep_held rfl _) rfl
      fun _ => h.inUse (by rw [hk]; rfl)
  · cases ht

lemma Exclusive.refuse (h : Exclusive s) (ht : refuse s k = some t) : Exclusive t := by
  unfold TcpTable.refuse at ht
  split at ht
  · rename_i id n hk
    cases ht
    exact h.move_same (by rw [hk]; rfl) (ownStep_held rfl _) rfl
      fun _ => h.inUse (by rw [hk]; rfl)
  · cases ht

lemma Exclusive.fail (h : Exclusive s) (ht : fail s k = some t) : Exclusive t := by
  unfold TcpTable.fail at ht
  split at ht
  · rename_i id hk
    cases ht
    refine h.move_same (by rw [hk]; rfl) ⟨fun id' hid' => (by cases hid'),
      fun id' hid' => by cases hid'⟩ rfl ?_
    rintro (hop | ⟨k',hlt,hk'⟩)
    · simp at hop
    · rw [move_phase] at hk'
      by_cases hne : k' = k
      · rw [hne,update_self] at hk'
        cases hk'
      · rw [update_of_ne hne] at hk'
        exact .inr ⟨k',hlt,hk'⟩
  · cases ht

lemma Exclusive.finish (h : Exclusive s) {r : ℤ} (ht : finish s k = some (r,t)) :
    Exclusive t := by
  unfold TcpTable.finish at ht
  split at ht
  · rename_i id hk
    cases ht
    refine h.move_same (by rw [hk]; rfl) ⟨fun id' hid' => ?_,fun id' hid' => ?_⟩ rfl
      fun _ => h.inUse (by rw [hk]; rfl)
    · split at hid'
      · cases hid'
      · exact (Option.some.inj hid').symm
    · split_ifs at hid'
      assumption
  · cases ht

lemma tcpCloseConn_conns (u : State) (id : ℤ) (id' : ℕ) :
    ((tcpCloseConn u id).conns id').sport = (u.conns id').sport ∧
      ((tcpCloseConn u id).conns id' = u.conns id' ∨
        ((tcpCloseConn u id).conns id').state = .closed ∧ 0 ≤ id ∧ id' = id.toNat) := by
  rw [tcpCloseConn]
  split
  · exact ⟨rfl,.inl rfl⟩
  rename_i hop
  have hid : 0 ≤ id := by
    simp only [State.refuses,Bool.not_eq_true,Bool.or_eq_false_iff,decide_eq_false_iff_not,
      not_or] at hop
    omega
  dsimp only
  by_cases hne : id' = id.toNat
  · subst hne
    rw [update_self]
    refine ⟨?_,.inr ⟨rfl,hid,rfl⟩⟩
    dsimp only [tcpCloseConnInternal]
    split <;> rfl
  · rw [update_of_ne hne]
    exact ⟨rfl,.inl rfl⟩

lemma Exclusive.close (h : Exclusive s) (id : ℤ) : Exclusive (close s id) := by
  have hph : ∀ k, (TcpTable.close s id).phase k = s.phase k ∨
      (TcpTable.close s id).phase k = .done := by
    intro k
    simp only [TcpTable.close]
    split
    · exact .inr rfl
    · exact .inl rfl
  have hsl : ∀ k id', ((TcpTable.close s id).phase k).slot = some id' →
      (s.phase k).slot = some id' := by
    intro k id' hk
    rcases hph k with hsm | hdn
    · rwa [hsm] at hk
    · rw [hdn] at hk
      cases hk
  have hin : ∀ id', InUse (TcpTable.close s id) id' → InUse s id' := by
    rintro id' (hop | ⟨k,hlt,hk⟩)
    · rcases (tcpCloseConn_conns s.tcp id id').2 with hsm | ⟨hcl,-⟩
      · exact .inl (hsm ▸ hop)
      · exact (hop hcl).elim
    · rcases hph k with hsm | hdn
      · exact .inr ⟨k,hlt,hsm ▸ hk⟩
      · rw [hdn] at hk
        cases hk
  refine ⟨fun k hge => ?_,fun id' hid' => h.small id' (hin id' hid'),
    fun k id' hk => h.bounds k id' (hsl k id' hk),
    fun k k' id' hk hk' => h.slots k k' id' (hsl k id' hk) (hsl k' id' hk'),
    fun k id' hk => ?_,fun id' id'' hid' hid'' heq => ?_⟩
  · have hil := h.fresh k hge
    simp only [TcpTable.close,hil]
    simp
  · simp only [TcpTable.close] at hk ⊢
    split_ifs at hk with hot
    rcases (tcpCloseConn_conns s.tcp id id').2 with hsm | ⟨-,hng,rfl⟩
    · rw [hsm]
      exact h.opened k id' hk
    · exact (hot ⟨hng,hk⟩).elim
  · simp only [TcpTable.close,(tcpCloseConn_conns s.tcp id _).1] at heq
    exact h.ports id' id'' (hin id' hid') (hin id'' hid'') heq

lemma Exclusive.step (h : Exclusive s) {a : Call × Option ℤ} (hst : netRuns.step s a t)
    (hok : Separate s a) : Exclusive t := by
  obtain ⟨c,o⟩ := a
  cases c with
  | alloc =>
    obtain ⟨-,rfl⟩ := Prod.mk.inj (Option.some.inj hst)
    exact h.alloc hok
  | address k ip port =>
    obtain ⟨u,hu,heq⟩ := Option.map_eq_some_iff.mp hst
    obtain ⟨-,rfl⟩ := Prod.mk.inj heq
    exact h.address hok hu
  | resolve k mac =>
    obtain ⟨u,hu,heq⟩ := Option.map_eq_some_iff.mp hst
    obtain ⟨-,rfl⟩ := Prod.mk.inj heq
    exact h.resolve hu
  | syn k =>
    obtain ⟨u,hu,heq⟩ := Option.map_eq_some_iff.mp hst
    obtain ⟨-,rfl⟩ := Prod.mk.inj heq
    exact h.syn hu
  | accept k seq =>
    obtain ⟨u,hu,heq⟩ := Option.map_eq_some_iff.mp hst
    obtain ⟨-,rfl⟩ := Prod.mk.inj heq
    exact h.accept hu
  | refuse k =>
    obtain ⟨u,hu,heq⟩ := Option.map_eq_some_iff.mp hst
    obtain ⟨-,rfl⟩ := Prod.mk.inj heq
    exact h.refuse hu
  | fail k =>
    obtain ⟨u,hu,heq⟩ := Option.map_eq_some_iff.mp hst
    obtain ⟨-,rfl⟩ := Prod.mk.inj heq
    exact h.fail hu
  | finish k =>
    obtain ⟨⟨r,u⟩,hu,heq⟩ := Option.map_eq_some_iff.mp hst
    obtain ⟨-,rfl⟩ := Prod.mk.inj heq
    exact h.finish hu
  | close id =>
    obtain ⟨-,rfl⟩ := Prod.mk.inj (Option.some.inj hst)
    exact h.close id

end Steps

/-- In every run in which each call selects a slot of its own and gets an unused port, the
open connections have different ids and different ports. -/
theorem connections_distinct (l : List (Call × Option ℤ)) (s : Net)
    (h : Trace (netRuns.guarded Separate) l s) : Distinct s := by
  have hex : Exclusive s := by
    refine h.invariant (fun _ => Exclusive) (fun _ hs => .started hs) ?_
    intro _ _ _ _ hs hst
    exact hs.step hst.1 hst.2
  exact hex.distinct

/-- The host after boot, with the first local port of the file. -/
def blankNet : Net :=
  ⟨⟨⟨fun _ => 0,fun _ => 0,fun _ => 0,false,false,[],[]⟩,fun _ => .zero,40000,false⟩,
    fun _ => .idle,0⟩

lemma blankNet_started : Started blankNet := ⟨fun _ => rfl,fun _ => rfl,rfl⟩

instance (s : Net) : (a : Call × Option ℤ) → Decidable (Separate s a)
  | (.alloc,_) => inferInstanceAs (Decidable (∀ id ∈ (tcpAllocConn s.tcp).1, _))
  | (.address _ _ _,_) => inferInstanceAs (Decidable (∀ id < maxTcpConn, _))
  | (.resolve _ _,_) => inferInstanceAs (Decidable True)
  | (.syn _,_) => inferInstanceAs (Decidable True)
  | (.accept _ _,_) => inferInstanceAs (Decidable True)
  | (.refuse _,_) => inferInstanceAs (Decidable True)
  | (.fail _,_) => inferInstanceAs (Decidable True)
  | (.finish _,_) => inferInstanceAs (Decidable True)
  | (.close _,_) => inferInstanceAs (Decidable True)

/-- Two connections opened one after the other. -/
def inTurn : List Call :=
  [.alloc,.address 0 (fun _ => 10) 80,.resolve 0 (some fun _ => 2),.syn 0,.alloc,.accept 0 5000,
    .finish 0,.address 1 (fun _ => 10) 80,.resolve 1 (some fun _ => 2),.syn 1,.accept 1 7000,
    .finish 1]

theorem connections_distinct_in_turn : ∃ l s, Trace (netRuns.guarded Separate) l s ∧
    l.map Prod.fst = inTurn ∧ s.phase 0 = .opened 0 ∧ s.phase 1 = .opened 1 ∧ Distinct s :=
  exists_guarded_run (P := fun _ s => s.phase 0 = .opened 0 ∧ s.phase 1 = .opened 1)
    blankNet_started (by decide) fun l s htr ⟨h₀,h₁⟩ => ⟨h₀,h₁,connections_distinct l s htr⟩

/-- Two calls that both select their slot before either has marked it. -/
def atOnce : List Call :=
  [.alloc,.alloc,.address 0 (fun _ => 10) 80,.address 1 (fun _ => 10) 80,
    .resolve 0 (some fun _ => 2),.syn 0,.accept 0 5000,.finish 0,.resolve 1 (some fun _ => 2),
    .syn 1,.accept 1 7000,.finish 1]

/-- Both return slot 0 and both connections are open. -/
theorem slot_returned_twice : ∃ l s, Trace netRuns l s ∧ l.map Prod.fst = atOnce ∧ ¬ Distinct s :=
  exists_run (P := fun _ s => s.phase 0 = .opened 0 ∧ s.phase 1 = .opened 0) blankNet_started
    (by decide) fun l s htr ⟨h₀,h₁⟩ h => absurd (h.ids 0 1 0 h₀ h₁) (by decide)

end HarlinKernel.TcpTable
