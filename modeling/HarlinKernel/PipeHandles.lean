import HarlinKernel.PipeTable
import HarlinKernel.ProcessTable

/-! The handles of processes on pipes: `process_register_handle`, `process_unregister_handle`
and `process_close_handles` of `proc/scheduler.c`, `Harlin_Fork` as far as it copies handles,
and the system calls that create and close a pipe. A handle is the number of a pipe and its
kind; numbers are used again for later pipes. A history variable numbers the pipes
themselves and keeps who registered, created and inherited each of them. -/
namespace HarlinKernel.PipeHandles

open TransitionSystem PipeTable
open ProcessTable (maxProcesses)
open Function (update update_self update_of_ne)

def procMaxHandles : ℕ := 16

def handleKindPipe : ℤ := 1
def handleKindMsgq : ℤ := 2
def handleKindSem : ℤ := 3

/-- The part of a process slot that concerns handles; `live` is a state other than `NONE`. -/
structure Owner where
  live : Bool
  handles : ℕ → ℤ
  handleKinds : ℕ → ℤ
  handleCount : ℕ

structure Handles where
  procs : ℕ → Owner
  pipes : Table

/-- On the current process. -/
def processRegisterHandle (o : Owner) (kind id : ℤ) : Owner :=
  if procMaxHandles ≤ o.handleCount then o
  else
    { o with
      handles := update o.handles o.handleCount id
      handleKinds := update o.handleKinds o.handleCount kind
      handleCount := o.handleCount+1 }

/-- The loop that moves `n` entries above `j` down by one. -/
def moveDown (a : ℕ → ℤ) (j : ℕ) : ℕ → ℕ → ℤ
  | 0 => a
  | n+1 => moveDown (update a j (a (j+1))) (j+1) n

/-- Removes the first entry with the number, whatever its kind is. -/
def processUnregisterHandle (o : Owner) (id : ℤ) : Owner :=
  match (List.range o.handleCount).find? fun i => o.handles i = id with
  | none => o
  | some i =>
    { o with
      handles := moveDown o.handles i (o.handleCount-1-i)
      handleKinds := moveDown o.handleKinds i (o.handleCount-1-i)
      handleCount := o.handleCount-1 }

/-- The loop of `process_close_handles` over the first `n` handles, on the pipes. -/
def closePipes (o : Owner) : ℕ → Table → Table
  | 0, t => t
  | n+1, t =>
    let t := closePipes o n t
    if o.handleKinds n = handleKindPipe then (pipeClose t (o.handles n)).2 else t

/-- The handles that the same loop passes to `Harlin_MsgDestroy` and `Harlin_SemDestroy`. -/
def closeOthers (o : Owner) : List (ℤ × ℤ) :=
  ((List.range o.handleCount).filter fun i =>
    o.handleKinds i = handleKindMsgq ∨ o.handleKinds i = handleKindSem).map fun i =>
      (o.handleKinds i,o.handles i)

def processCloseHandles (s : Handles) (pid : ℕ) : List (ℤ × ℤ) × Handles :=
  let o := s.procs pid
  (closeOthers o,
    { procs := update s.procs pid { o with handleCount := 0 }
      pipes := closePipes o o.handleCount s.pipes })

/-- The user's pointer for the result of `sys_pipe_create`. -/
inductive UserPtr
  | null | valid | bad
  deriving DecidableEq

def sysPipeCreate (s : Handles) (pid : ℕ) (mem : Option (ℕ → UInt8)) (ptr : UserPtr) :
    ℤ × Handles :=
  let r := pipeCreate s.pipes mem
  if r.1 < 0 then (r.1,{ s with pipes := r.2 })
  else
    (if ptr = .bad then -1 else r.1,
      { procs := update s.procs pid
          (processRegisterHandle (s.procs pid) handleKindPipe r.1)
        pipes := r.2 })

def sysPipeClose (s : Handles) (pid : ℕ) (id : ℤ) : ℤ × Handles :=
  (0,
    { procs := update s.procs pid (processUnregisterHandle (s.procs pid) id)
      pipes := (pipeClose s.pipes id).2 })

/-- The loop of `Harlin_Fork` over the handles; the kinds are those of the slot's last user. -/
def forkHandles (parent child : Owner) : Owner :=
  { live := true
    handles :=
      fun h => if h < parent.handleCount ∧ h < 16 then parent.handles h else child.handles h
    handleKinds := child.handleKinds
    handleCount := parent.handleCount }

/-- The child's slot, if the parent is alive and a slot is free. -/
def forkSlot (s : Handles) (parent : ℤ) : Option ℕ :=
  if parent < 0 ∨ (maxProcesses : ℤ) ≤ parent then none
  else if !(s.procs parent.toNat).live then none
  else (List.range maxProcesses).find? fun i => !(s.procs i).live

def harlinFork (s : Handles) (parent : ℤ) : ℤ × Handles :=
  match forkSlot s parent with
  | none => (-1,s)
  | some child =>
    (0,{ s with
      procs := update s.procs child
        (forkHandles (s.procs parent.toNat) (s.procs child)) })

/-- The process leaves the table after its handles are closed. -/
def processExit (s : Handles) (pid : ℕ) : List (ℤ × ℤ) × Handles :=
  let r := processCloseHandles s pid
  (r.1,{ r.2 with procs := update r.2.procs pid { r.2.procs pid with live := false } })

inductive Call
  | create (pid : ℕ) (mem : Option (ℕ → UInt8)) (ptr : UserPtr)
  | close (pid : ℕ) (id : ℤ)
  | fork (pid : ℕ) (parent : ℤ)
  | exit (pid : ℕ)

def Call.pid : Call → ℕ
  | .create pid _ _ => pid
  | .close pid _ => pid
  | .fork pid _ => pid
  | .exit pid => pid

inductive Reply
  | code (rc : ℤ)
  | gone (destroyed : List (ℤ × ℤ))
  deriving DecidableEq

def run (s : Handles) : Call → Reply × Handles
  | .create pid mem ptr =>
    let r := sysPipeCreate s pid mem ptr
    (.code r.1,r.2)
  | .close pid id =>
    let r := sysPipeClose s pid id
    (.code r.1,r.2)
  | .fork _ parent =>
    let r := harlinFork s parent
    (.code r.1,r.2)
  | .exit pid =>
    let r := processExit s pid
    (.gone r.1,r.2)

/-- A call of a process that is alive. -/
def act (s : Handles) (c : Call) : Option (Reply × Handles) :=
  if c.pid < maxProcesses ∧ (s.procs c.pid).live then some (run s c) else none

/-- Beside the tables: the number of the pipe behind each entry, and what each process has
registered, itself or before a fork, and what it has created or inherited and not closed. -/
structure Book where
  object : ℕ → ℕ
  next : ℕ
  registered : ℕ → ℕ → Bool
  opened : ℕ → ℕ → Bool

/-- The entry that a creating call takes, if it succeeds. -/
def newPipe (s : Handles) (mem : Option (ℕ → UInt8)) : Option ℕ :=
  if mem.isSome then (List.range pipeCount).find? fun i => !(s.pipes i).used else none

def record (s : Handles) (c : Call) (_ : Reply) (_ : Handles) (b : Book) : Book :=
  match c with
  | .create pid mem _ =>
    match newPipe s mem with
    | none => b
    | some i =>
      { object := update b.object i b.next
        next := b.next+1
        registered := fun p n => b.registered p n ||
          decide (p = pid ∧ n = b.next ∧ (s.procs pid).handleCount < procMaxHandles)
        opened := fun p n => b.opened p n || decide (p = pid ∧ n = b.next) }
  | .close pid id =>
    if 0 ≤ id ∧ id < pipeCount ∧ (s.pipes id.toNat).used then
      { b with opened := fun p n => b.opened p n && !decide (p = pid ∧ n = b.object id.toNat) }
    else b
  | .fork _ parent =>
    match forkSlot s parent with
    | none => b
    | some child =>
      { b with
        registered := update b.registered child (b.registered parent.toNat)
        opened := update b.opened child (b.opened parent.toNat) }
  | .exit pid =>
    { b with
      registered := update b.registered pid fun _ => false
      opened := update b.opened pid fun _ => false }

/-- Processes without handles, and no pipe. -/
def Started (x : Handles × Book) : Prop :=
  (∀ p, (x.1.procs p).handleCount = 0) ∧ (∀ p, (x.1.procs p).live = true → p < maxProcesses) ∧
    (∀ i, (x.1.pipes i).used = false) ∧
    ∀ p n, x.2.registered p n = false ∧ x.2.opened p n = false

def handleRuns : System (Handles × Book) (Call × Reply) := replies Started (recording act record)

/-- A process that exits closes only pipes that it registered or inherited and that no
other live process still has open. -/
def ClosesOwn (x : Handles × Book) (pid : ℕ) (s : Handles) : Prop :=
  ∀ i < pipeCount, (x.1.pipes i).used = true → (s.pipes i).used = false →
    x.2.registered pid (x.2.object i) = true ∧
    ∀ q < maxProcesses, q ≠ pid → (x.1.procs q).live = true → x.2.opened q (x.2.object i) = false

/-- The child's handles are those of the parent. -/
def SameHandles (parent child : Owner) : Prop :=
  child.handleCount = parent.handleCount ∧ ∀ h < parent.handleCount,
    child.handles h = parent.handles h ∧ child.handleKinds h = parent.handleKinds h

def Lawful (x : Handles × Book) (a : Call × Reply) (y : Handles × Book) : Prop :=
  match a.1 with
  | .exit pid => ClosesOwn x pid y.1
  | .fork _ parent => ∀ child ∈ forkSlot x.1 parent,
      SameHandles (y.1.procs parent.toNat) (y.1.procs child)
  | _ => True

/-- The process has the number among its handles. -/
def Lists (o : Owner) (id : ℤ) : Prop := ∃ h < o.handleCount, o.handles h = id

instance (o : Owner) (id : ℤ) : Decidable (Lists o id) :=
  inferInstanceAs (Decidable (∃ h < o.handleCount, _))

/-- Only a process without handles is forked, and no process closes a number that another
one has among its handles. -/
def Unshared (x : Handles × Book) (a : Call × Reply) : Prop :=
  match a.1 with
  | .fork _ parent => forkSlot x.1 parent ≠ none → (x.1.procs parent.toNat).handleCount = 0
  | .close pid id => ∀ q < maxProcesses, q ≠ pid → (x.1.procs q).live = true →
      ¬ Lists (x.1.procs q) id
  | _ => True

variable {o : Owner} {id parent : ℤ} {t : Table} {x y : Handles × Book} {mem : Option (ℕ → UInt8)}
  {i h q child : ℕ}

lemma moveDown_apply (a : ℕ → ℤ) (j n k : ℕ) :
    moveDown a j n k = if j ≤ k ∧ k < j+n then a (k+1) else a k := by
  induction n generalizing a j with
  | zero =>
    rw [moveDown,if_neg (by omega)]
  | succ n ih =>
    rw [moveDown,ih]
    by_cases hk : k = j
    · subst hk
      rw [if_neg (by omega),if_pos (by omega),update_self]
    · rw [update_of_ne hk]
      by_cases hin : j+1 ≤ k ∧ k < j+1+n
      · rw [if_pos hin,if_pos (by omega),update_of_ne (by omega)]
      · rw [if_neg hin,if_neg (by omega)]

/-- The numbers of the handles of a process. -/
def Owner.list (o : Owner) : List ℤ := (List.range o.handleCount).map o.handles

lemma mem_list : id ∈ o.list ↔ Lists o id := by simp [Owner.list,Lists]

lemma register_list (o : Owner) (kind id : ℤ) : (processRegisterHandle o kind id).list =
    o.list ++ if o.handleCount < procMaxHandles then [id] else [] := by
  unfold processRegisterHandle
  by_cases hfl : procMaxHandles ≤ o.handleCount
  · rw [if_pos hfl,if_neg (by omega),List.append_nil]
  · rw [if_neg hfl,if_pos (by omega),Owner.list,List.range_succ,List.map_append]
    congr 1
    · refine List.map_congr_left fun i hi => update_of_ne ?_ _ _
      exact Nat.ne_of_lt (List.mem_range.mp hi)
    · simp

lemma unregister_list (o : Owner) (id : ℤ) :
    (processUnregisterHandle o id).list = o.list.erase id := by
  unfold processUnregisterHandle
  cases hfn : (List.range o.handleCount).find? fun i => decide (o.handles i = id) with
  | none =>
    refine (List.erase_of_not_mem fun hmem => ?_).symm
    obtain ⟨i,hi,hid⟩ := List.mem_map.mp hmem
    exact List.find?_eq_none.mp hfn i hi (decide_eq_true hid)
  | some m =>
    obtain ⟨hid,hm,hbf⟩ := List.find?_range_eq_some.mp hfn
    obtain ⟨n,hn⟩ : ∃ n, o.handleCount = m+(n+1) := ⟨o.handleCount-1-m,by simp at hm; omega⟩
    have hnot : id ∉ (List.range m).map o.handles := by
      simpa using fun i hi => by simpa using hbf i hi
    have hold : o.list = (List.range m).map o.handles ++
        id :: (List.range n).map fun k => o.handles (m+(k+1)) := by
      rw [Owner.list,hn,List.range_add,List.range_succ_eq_map]
      simp [← of_decide_eq_true hid,Function.comp_def]
    have hcn : o.handleCount-1 = m+n := by omega
    rw [hold,List.erase_append_right _ hnot,List.erase_cons_head,Owner.list]
    simp only [hcn,Nat.add_sub_cancel_left,List.range_add,List.map_append,List.map_map]
    congr 1
    all_goals
      refine List.map_congr_left fun k hk => ?_
      have hk := List.mem_range.mp hk
      simp only [Function.comp_apply,moveDown_apply]
    · rw [if_neg (by omega)]
    · rw [if_pos (by omega),Nat.add_assoc]

/-- Each pipe in use has the one reader and the one writer it was created with. -/
def Single (t : Table) : Prop := ∀ i, (t i).used = true → (t i).readers = 1 ∧ (t i).writers = 1

lemma pipeClose_single (h : Single t) (id : ℤ) (i : ℕ) : (pipeClose t id).2 i = t i ∨
    ((pipeClose t id).2 i).used = false ∧ (t i).used = true ∧ (i : ℤ) = id ∧ i < pipeCount := by
  unfold pipeClose
  split
  · exact .inl rfl
  rename_i hrn
  split
  · exact .inl rfl
  rename_i hus
  by_cases hi : i = id.toNat
  · subst hi
    have hus' : (t id.toNat).used = true := by simpa using hus
    obtain ⟨hr,hw⟩ := h id.toNat hus'
    right
    refine ⟨?_,hus',by omega,by omega⟩
    simp [Pipe.close,hr,hw]
  · exact .inl (update_of_ne hi _ _)

lemma Single.close (h : Single t) (id : ℤ) : Single (pipeClose t id).2 := by
  intro i hus
  rcases pipeClose_single h id i with hsm | ⟨hcl,-⟩
  · rw [hsm] at hus ⊢
    exact h i hus
  · rw [hcl] at hus
    cases hus

lemma closePipes_spec (h : Single t) (o : Owner) (n : ℕ) : Single (closePipes o n t) ∧ ∀ i,
    closePipes o n t i = t i ∨ (closePipes o n t i).used = false ∧ ∃ k < n, o.handles k = i := by
  induction n with
  | zero => exact ⟨h,fun i => .inl rfl⟩
  | succ n ih =>
    obtain ⟨hsn,hsp⟩ := ih
    have hold : ∀ i, closePipes o n t i = t i ∨
        (closePipes o n t i).used = false ∧ ∃ k < n+1, o.handles k = i := by
      intro i
      rcases hsp i with hsm | ⟨hcl,k,hk,hid⟩
      · exact .inl hsm
      · exact .inr ⟨hcl,k,by omega,hid⟩
    rw [closePipes]
    split
    · refine ⟨hsn.close _,fun i => ?_⟩
      rcases pipeClose_single hsn (o.handles n) i with hsm | ⟨hcl,-,hid,-⟩
      · rw [hsm]
        exact hold i
      · exact .inr ⟨hcl,n,by omega,hid.symm⟩
    · exact ⟨hsn,hold⟩

/-- Each handle of a live process stands for a pipe in use that it registered itself and
that no other live process has open, and no two handles stand for the same pipe. -/
structure Owned (x : Handles × Book) : Prop where
  slot : ∀ p, (x.1.procs p).live = true → p < maxProcesses
  single : Single x.1.pipes
  object : ∀ i, (x.1.pipes i).used = true → x.2.object i < x.2.next
  fresh : ∀ p n, x.2.opened p n = true → n < x.2.next
  listed : ∀ p, (x.1.procs p).live = true → ∀ id ∈ (x.1.procs p).list,
    ∃ i < pipeCount, id = i ∧ (x.1.pipes i).used = true ∧ x.2.registered p (x.2.object i) = true ∧
      ∀ q, q ≠ p → (x.1.procs q).live = true → x.2.opened q (x.2.object i) = false
  nodup : ∀ p, (x.1.procs p).live = true → (x.1.procs p).list.Nodup
  apart : ∀ p q, (x.1.procs p).live = true → (x.1.procs q).live = true →
    ∀ id ∈ (x.1.procs p).list, id ∈ (x.1.procs q).list → p = q

lemma Owned.started (h : Started x) : Owned x := by
  obtain ⟨hcn,hsl,hus,hbk⟩ := h
  have hls : ∀ p, (x.1.procs p).list = [] := fun p => by rw [Owner.list,hcn p]; rfl
  exact ⟨hsl,by simp [Single,hus],by simp [hus],by simp [hbk],by simp [hls],by simp [hls],
    by simp [hls]⟩

/-- A step that creates no pipe: the lists get shorter, a pipe that is closed is on no list any
more, and a process that has a pipe open had it open before or has it from one without handles. -/
theorem Owned.shrink (h : Owned x) (hsl : ∀ p, (y.1.procs p).live = true → p < maxProcesses)
    (hsn : Single y.1.pipes) (hob : y.2.object = x.2.object) (hnx : y.2.next = x.2.next)
    (hls : ∀ p, (y.1.procs p).live = true → (y.1.procs p).list = [] ∨ (x.1.procs p).live = true ∧
      (y.1.procs p).list.Sublist (x.1.procs p).list ∧ y.2.registered p = x.2.registered p)
    (hps : ∀ i, y.1.pipes i = x.1.pipes i ∨ (y.1.pipes i).used = false ∧
      ∀ p, (y.1.procs p).live = true → (i : ℤ) ∉ (y.1.procs p).list)
    (hon : ∀ p n, y.2.opened p n = true → ∃ q, x.2.opened q n = true ∧
      ((y.1.procs p).live = true → (x.1.procs q).live = true ∧ (q = p ∨ (x.1.procs q).list = []))) :
    Owned y := by
  have hold : ∀ p, (y.1.procs p).live = true → ∀ id ∈ (y.1.procs p).list,
      (x.1.procs p).live = true ∧ id ∈ (x.1.procs p).list ∧
        y.2.registered p = x.2.registered p := by
    intro p hp id hid
    rcases hls p hp with hnil | ⟨hlv,hsub,hreg⟩
    · simp [hnil] at hid
    · exact ⟨hlv,hsub.subset hid,hreg⟩
  refine ⟨hsl,hsn,fun i hi => ?_,fun p n hn => ?_,fun p hp id hid => ?_,fun p hp => ?_,
    fun p q hp hq id hid hid' => ?_⟩
  · rw [hob,hnx]
    rcases hps i with hsm | ⟨hcl,-⟩
    · exact h.object i (hsm ▸ hi)
    · simp [hcl] at hi
  · obtain ⟨q,hq,-⟩ := hon p n hn
    exact hnx ▸ h.fresh q n hq
  · obtain ⟨hlv,hmem,hrg⟩ := hold p hp id hid
    obtain ⟨i,hi,rfl,hus,hreg,hop⟩ := h.listed p hlv id hmem
    refine ⟨i,hi,rfl,?_,by rwa [hob,hrg],fun q hne hq => ?_⟩
    · rcases hps i with hsm | ⟨-,hnot⟩
      · rwa [hsm]
      · exact (hnot p hp hid).elim
    · by_contra htr
      obtain ⟨q',hq',hfr⟩ := hon q _ ((Bool.not_eq_false _).mp htr)
      obtain ⟨hlv',rfl | hnil⟩ := hfr hq
      · simp [hob,hop q' hne hlv'] at hq'
      · have hne' : q' ≠ p := fun heq => by simp [← heq,hnil] at hmem
        simp [hob,hop q' hne' hlv'] at hq'
  · rcases hls p hp with hnil | ⟨hlv,hsub,-⟩
    · simp [hnil]
    · exact (h.nodup p hlv).sublist hsub
  · obtain ⟨hlv,hmem,-⟩ := hold p hp id hid
    obtain ⟨hlv',hmem',-⟩ := hold q hq id hid'
    exact h.apart p q hlv hlv' id hmem hmem'

section Steps

variable {s : Handles} {b : Book}

lemma pipeCreate_newPipe (s : Handles) (mem : Option (ℕ → UInt8)) :
    match newPipe s mem with
    | none => pipeCreate s.pipes mem = (harlinNoMemory,s.pipes)
    | some i => ∃ buf, pipeCreate s.pipes mem = ((i : ℤ),update s.pipes i (freshPipe buf)) ∧
        (s.pipes i).used = false ∧ i < pipeCount := by
  unfold newPipe pipeCreate
  cases mem with
  | none =>
    cases (List.range pipeCount).find? fun i => !(s.pipes i).used with
    | none => rfl
    | some i => rfl
  | some buf =>
    cases hfn : (List.range pipeCount).find? fun i => !(s.pipes i).used with
    | none => rfl
    | some i =>
      have hun : (s.pipes i).used = false := by simpa using List.find?_some hfn
      exact ⟨buf,rfl,hun,List.mem_range.mp (List.mem_of_find?_eq_some hfn)⟩

lemma sysPipeCreate_none {pid : ℕ} {ptr : UserPtr}
    (hnew : newPipe s mem = none) : (sysPipeCreate s pid mem ptr).2 = s := by
  have hcr := pipeCreate_newPipe s mem
  rw [hnew] at hcr
  have hneg : harlinNoMemory < 0 := by decide
  simp [sysPipeCreate,hcr,if_pos hneg]

lemma sysPipeCreate_some (pid : ℕ) (ptr : UserPtr) (hnew : newPipe s mem = some i) :
    ∃ buf, (s.pipes i).used = false ∧ i < pipeCount ∧
      (sysPipeCreate s pid mem ptr).2 =
        ⟨update s.procs pid (processRegisterHandle (s.procs pid) handleKindPipe i),
           update s.pipes i (freshPipe buf)⟩ := by
  have hcr := pipeCreate_newPipe s mem
  rw [hnew] at hcr
  obtain ⟨buf,heq,hun,hi⟩ := hcr
  refine ⟨buf,hun,hi,?_⟩
  have hpos : ¬ ((i : ℤ) < 0) := by omega
  simp [sysPipeCreate,heq,if_neg hpos]

lemma processRegisterHandle_live (o : Owner) (kind id : ℤ) :
    (processRegisterHandle o kind id).live = o.live := by
  unfold processRegisterHandle
  split <;> rfl

lemma Owned.create (h : Owned (s,b)) (pid : ℕ) (mem : Option (ℕ → UInt8)) (ptr : UserPtr)
    (r : Reply) (s' : Handles) :
    Owned ((sysPipeCreate s pid mem ptr).2,record s (.create pid mem ptr) r s' b) := by
  cases hnew : newPipe s mem with
  | none =>
    rw [sysPipeCreate_none hnew]
    simpa only [record,hnew] using h
  | some i =>
    obtain ⟨buf,hun,hi,hst⟩ := sysPipeCreate_some pid ptr hnew
    rw [hst]
    simp only [record,hnew]
    have hpr : ∀ q,
        (update s.procs pid (processRegisterHandle (s.procs pid) handleKindPipe i) q).live =
          (s.procs q).live ∧
        (update s.procs pid (processRegisterHandle (s.procs pid) handleKindPipe i) q).list =
          (s.procs q).list ++ if q = pid ∧ (s.procs pid).handleCount < procMaxHandles then [(i : ℤ)]
            else [] := by
      intro q
      by_cases hq : q = pid
      · subst hq
        simp [processRegisterHandle_live,register_list]
      · simp [hq]
    -- the new pipe is none of those that a handle stands for
    have hot : ∀ j, (s.pipes j).used = true → j ≠ i := by
      rintro j hj rfl
      rw [hun] at hj
      cases hj
    have hnot : ∀ q, (s.procs q).live = true → (i : ℤ) ∉ (s.procs q).list := by
      intro q hq hmem
      obtain ⟨j,-,heq,hus,-⟩ := h.listed q hq _ hmem
      exact hot j hus (Int.ofNat_inj.mp heq).symm
    refine ⟨fun q hq => h.slot q ((hpr q).1.symm.trans hq),fun j hj => ?_,fun j hj => ?_,
      fun q n hn => ?_,fun q hq id hid => ?_,fun q hq => ?_,fun q q' hq hq' id hid hid' => ?_⟩
    · by_cases hji : j = i
      · simp [hji,freshPipe]
      · simp only [update_of_ne hji] at hj ⊢
        exact h.single j hj
    · by_cases hji : j = i
      · simp [hji]
      · simp only [update_of_ne hji] at hj ⊢
        exact Nat.lt_succ_of_lt (h.object j hj)
    · simp only [Bool.or_eq_true,decide_eq_true_eq] at hn
      rcases hn with hn | ⟨-,rfl⟩
      · exact Nat.lt_succ_of_lt (h.fresh q n hn)
      · exact Nat.lt_succ_self _
    all_goals simp only [(hpr _).1,(hpr _).2,List.mem_append] at *
    · rcases hid with hid | hid
      · obtain ⟨j,hj,rfl,hus,hreg,hop⟩ := h.listed q hq id hid
        have hlt : b.object j ≠ b.next := Nat.ne_of_lt (h.object j hus)
        refine ⟨j,hj,rfl,?_⟩
        simpa [update_of_ne (hot j hus),hlt] using And.intro hus (And.intro hreg hop)
      · split_ifs at hid with hpid
        · obtain rfl := List.mem_singleton.mp hid
          have hfr : ∀ q, b.opened q b.next = false := fun q => by
            by_contra hop
            exact absurd (h.fresh q _ ((Bool.not_eq_false _).mp hop)) (Nat.lt_irrefl _)
          refine ⟨i,hi,rfl,?_⟩
          simp +contextual [freshPipe,hpid,hfr]
        · cases hid
    · split_ifs
      · exact (h.nodup q hq).append (List.nodup_singleton _) (by simpa using hnot q hq)
      · simpa using h.nodup q hq
    · have hap := h.apart q q' hq hq' id
      split_ifs at hid hid' <;> grind

lemma processUnregisterHandle_live (o : Owner) (id : ℤ) :
    (processUnregisterHandle o id).live = o.live := by
  unfold processUnregisterHandle
  split <;> rfl

lemma sysPipeClose_own (s : Handles) (pid : ℕ) (id : ℤ) :
    (sysPipeClose s pid id).2.procs pid = processUnregisterHandle (s.procs pid) id :=
  update_self ..

lemma sysPipeClose_other {pid : ℕ} (hq : q ≠ pid) (id : ℤ) :
    (sysPipeClose s pid id).2.procs q = s.procs q :=
  update_of_ne hq ..

lemma Owned.close (h : Owned (s,b)) {pid : ℕ}
    (hok : ∀ q < maxProcesses, q ≠ pid → (s.procs q).live = true → ¬ Lists (s.procs q) id)
    (r : Reply) (s' : Handles) :
    Owned ((sysPipeClose s pid id).2,record s (.close pid id) r s' b) := by
  have hpr : ∀ q, ((sysPipeClose s pid id).2.procs q).live = (s.procs q).live ∧
      ((sysPipeClose s pid id).2.procs q).list =
        if q = pid then (s.procs q).list.erase id else (s.procs q).list := by
    intro q
    by_cases hq : q = pid
    · rw [if_pos hq,hq,sysPipeClose_own,processUnregisterHandle_live,unregister_list]
      exact ⟨rfl,rfl⟩
    · rw [if_neg hq,sysPipeClose_other hq]
      exact ⟨rfl,rfl⟩
  have hbk : (record s (.close pid id) r s' b).object = b.object ∧
      (record s (.close pid id) r s' b).next = b.next ∧
      (record s (.close pid id) r s' b).registered = b.registered ∧
      ∀ q n, (record s (.close pid id) r s' b).opened q n = true → b.opened q n = true := by
    simp only [record]
    split
    · refine ⟨rfl,rfl,rfl,fun q n hn => ?_⟩
      exact (Bool.and_eq_true_iff.mp hn).1
    · exact ⟨rfl,rfl,rfl,fun q n hn => hn⟩
  obtain ⟨hob,hnx,hrg,hop⟩ := hbk
  have hlv : ∀ {q}, ((sysPipeClose s pid id).2.procs q).live = true → (s.procs q).live = true :=
    fun hq => (hpr _).1.symm.trans hq
  refine h.shrink (fun q hq => h.slot q (hlv hq)) (h.single.close id) hob hnx ?_ ?_ ?_
  · refine fun q hq => .inr ⟨hlv hq,?_,by rw [hrg]⟩
    rw [(hpr q).2]
    split
    · exact List.erase_sublist
    · exact List.Sublist.refl _
  · intro i
    rcases pipeClose_single h.single id i with hsm | ⟨hcl,-,rfl,-⟩
    · exact .inl hsm
    · refine .inr ⟨hcl,fun q hq hmem => ?_⟩
      rw [(hpr q).2] at hmem
      split at hmem
      · exact (h.nodup q (hlv hq)).not_mem_erase hmem
      · rename_i hne
        exact hok q (h.slot q (hlv hq)) hne (hlv hq) (mem_list.mp hmem)
  · exact fun q n hn => ⟨q,hop q n hn,fun hq => ⟨hlv hq,.inl rfl⟩⟩

lemma forkSlot_some (h : forkSlot s parent = some child) :
    (s.procs parent.toNat).live = true ∧ (s.procs child).live = false ∧ child < maxProcesses := by
  unfold forkSlot at h
  split at h
  · cases h
  · split_ifs at h with hpr
    have hch : (s.procs child).live = false := by simpa using List.find?_some h
    exact ⟨by simpa using hpr,hch,List.mem_range.mp (List.mem_of_find?_eq_some h)⟩

lemma harlinFork_none (h : forkSlot s parent = none) : (harlinFork s parent).2 = s := by
  simp [harlinFork,h]

lemma harlinFork_some (h : forkSlot s parent = some child) :
    (harlinFork s parent).2 =
      ⟨update s.procs child (forkHandles (s.procs parent.toNat) (s.procs child)),s.pipes⟩ := by
  simp [harlinFork,h]

lemma Owned.fork (h : Owned (s,b))
    (hok : forkSlot s parent ≠ none → (s.procs parent.toNat).handleCount = 0) (pid : ℕ) (r : Reply)
    (s' : Handles) : Owned ((harlinFork s parent).2,record s (.fork pid parent) r s' b) := by
  cases hsl : forkSlot s parent with
  | none =>
    rw [harlinFork_none hsl]
    simpa only [record,hsl] using h
  | some child =>
    obtain ⟨hpr,hch,hlt⟩ := forkSlot_some hsl
    have hcn := hok (by rw [hsl]; exact Option.some_ne_none child)
    rw [harlinFork_some hsl]
    simp only [record,hsl]
    refine h.shrink (fun q hq => ?_) h.single rfl rfl (fun q hq => ?_) (fun i => .inl rfl)
      fun q n hn => ?_
    all_goals by_cases hne : q = child
    · exact hne ▸ hlt
    · exact h.slot q (by simpa [hne] using hq)
    · exact .inl (by simp [hne,Owner.list,forkHandles,hcn])
    · exact .inr (by simpa [hne] using hq)
    · refine ⟨parent.toNat,by simpa [hne] using hn,fun _ => ⟨hpr,.inr ?_⟩⟩
      simp [Owner.list,hcn]
    · exact ⟨q,by simpa [hne] using hn,fun hq => ⟨by simpa [hne] using hq,.inl rfl⟩⟩

lemma processExit_own (s : Handles) (pid : ℕ) :
    ((processExit s pid).2.procs pid).live = false := by
  simp [processExit]

lemma processExit_other {pid : ℕ} (hq : q ≠ pid) : (processExit s pid).2.procs q = s.procs q := by
  simp [processExit,processCloseHandles,update_of_ne hq]

lemma processExit_pipes (s : Handles) (pid : ℕ) : (processExit s pid).2.pipes =
    closePipes (s.procs pid) (s.procs pid).handleCount s.pipes := rfl

lemma Owned.exit (h : Owned (s,b)) {pid : ℕ} (hpid : (s.procs pid).live = true) (r : Reply)
    (s' : Handles) : Owned ((processExit s pid).2,record s (.exit pid) r s' b) := by
  obtain ⟨hsn,hps⟩ := closePipes_spec h.single (s.procs pid) (s.procs pid).handleCount
  rw [← processExit_pipes] at hsn hps
  have hot : ∀ q, ((processExit s pid).2.procs q).live = true →
      q ≠ pid ∧ (processExit s pid).2.procs q = s.procs q := by
    intro q hq
    have hne : q ≠ pid := by
      rintro rfl
      rw [processExit_own] at hq
      cases hq
    exact ⟨hne,processExit_other hne⟩
  have hlv : ∀ {q}, ((processExit s pid).2.procs q).live = true → (s.procs q).live = true :=
    fun hq => (hot _ hq).2 ▸ hq
  refine h.shrink (fun q hq => h.slot q (hlv hq)) hsn rfl rfl ?_ ?_ ?_
  · intro q hq
    obtain ⟨hne,hsm⟩ := hot q hq
    exact .inr ⟨hlv hq,by rw [hsm],update_of_ne hne _ _⟩
  · intro i
    rcases hps i with hsm | ⟨hcl,k,hk,hid⟩
    · exact .inl hsm
    · refine .inr ⟨hcl,fun q hq hmem => ?_⟩
      obtain ⟨hne,hsm⟩ := hot q hq
      rw [hsm] at hmem
      exact hne (h.apart q pid (hlv hq) hpid _ hmem (mem_list.mpr ⟨k,hk,hid⟩))
  · intro q n hn
    by_cases hne : q = pid
    · simp [record,hne] at hn
    · exact ⟨q,by simpa [record,hne] using hn,fun hq => ⟨hlv hq,.inl rfl⟩⟩

end Steps

lemma handleRuns_step {c : Call} {r : Reply} (h : handleRuns.step x (c,r) y) :
    (x.1.procs c.pid).live = true ∧ y = ((run x.1 c).2,record x.1 c r (run x.1 c).2 x.2) := by
  obtain ⟨hact,hbk⟩ := recording_eq_some.mp h
  dsimp only [act] at hact hbk
  split_ifs at hact with hlv
  have heq := Option.some.inj hact
  have hst : (run x.1 c).2 = y.1 := by rw [heq]
  rw [← hst] at hbk
  exact ⟨hlv.2,Prod.ext hst.symm hbk⟩

lemma Owned.step (h : Owned x) {a : Call × Reply}
    (hst : handleRuns.step x a y) (hok : Unshared x a) : Owned y := by
  obtain ⟨c,r⟩ := a
  obtain ⟨hlv,rfl⟩ := handleRuns_step hst
  cases c with
  | create pid mem ptr => exact h.create pid mem ptr r _
  | close pid id => exact h.close hok r _
  | fork pid parent => exact h.fork hok pid r _
  | exit pid => exact h.exit hlv r _

lemma Owned.closesOwn (h : Owned x) {pid : ℕ}
    (hpid : (x.1.procs pid).live = true) : ClosesOwn x pid (processExit x.1 pid).2 := by
  intro i hi hus hcl
  rw [processExit_pipes] at hcl
  obtain ⟨-,hps⟩ := closePipes_spec h.single (x.1.procs pid) (x.1.procs pid).handleCount
  rcases hps i with hsm | ⟨-,k,hk,hid⟩
  · rw [hsm,hus] at hcl
    cases hcl
  · obtain ⟨j,-,hj,-,hreg,hop⟩ := h.listed pid hpid i (mem_list.mpr ⟨k,hk,hid⟩)
    obtain rfl := Int.ofNat_inj.mp hj
    exact ⟨hreg,fun q _ hne hlv => hop q hne hlv⟩

lemma sameHandles_fork {s : Handles} (hsl : forkSlot s parent = some child)
    (hcn : (s.procs parent.toNat).handleCount = 0) :
    SameHandles ((harlinFork s parent).2.procs parent.toNat)
      ((harlinFork s parent).2.procs child) := by
  obtain ⟨hpr,hch,-⟩ := forkSlot_some hsl
  have hne : parent.toNat ≠ child := by
    intro heq
    rw [heq,hch] at hpr
    cases hpr
  rw [harlinFork_some hsl]
  dsimp only
  rw [update_self,update_of_ne hne]
  refine ⟨rfl,fun h hh => ?_⟩
  rw [hcn] at hh
  exact absurd hh (Nat.not_lt_zero h)

theorem handles_lawful (l : List (Call × Reply)) (x : Handles × Book)
    (h : Trace (handleRuns.guarded Unshared) l x) (a : Call × Reply) (y : Handles × Book)
    (hstep : (handleRuns.guarded Unshared).step x a y) : Lawful x a y := by
  have how : Owned x := by
    refine h.invariant (fun _ => Owned) (fun _ hs => .started hs) ?_
    intro _ _ _ _ hs hstep
    exact hs.step hstep.1 hstep.2
  obtain ⟨c,r⟩ := a
  obtain ⟨hrun,hok⟩ := hstep
  obtain ⟨hlv,rfl⟩ := handleRuns_step hrun
  cases c with
  | create pid mem ptr => trivial
  | close pid id => trivial
  | fork pid parent =>
    intro child hch
    have hsl : forkSlot x.1 parent = some child := hch
    exact sameHandles_fork hsl (hok (by rw [hsl]; exact Option.some_ne_none child))
  | exit pid => exact how.closesOwn hlv

instance (x : Handles × Book) : (a : Call × Reply) → Decidable (Unshared x a)
  | (.create _ _ _,_) => inferInstanceAs (Decidable True)
  | (.close _ _,_) => inferInstanceAs (Decidable (∀ q < maxProcesses, _))
  | (.fork _ _,_) => inferInstanceAs (Decidable (_ → _))
  | (.exit _,_) => inferInstanceAs (Decidable True)

/-- The table after boot, with `n` processes. -/
def blankHandles (n : ℕ) : Handles × Book :=
  (⟨fun p => ⟨decide (p < n),fun _ => 0,fun _ => 0,0⟩,
    fun _ => ⟨none,0,0,0,0,0,false,fun _ => 0,0,fun _ => 0,0⟩⟩,
    ⟨fun _ => 0,0,fun _ _ => false,fun _ _ => false⟩)

lemma blankHandles_started {n : ℕ} (hn : n ≤ maxProcesses) : Started (blankHandles n) :=
  ⟨fun _ => rfl,fun _ hp => (of_decide_eq_true hp).trans_le hn,fun _ => rfl,fun _ _ => ⟨rfl,rfl⟩⟩

/-- Process 1 is forked while it has no handle; the processes then create pipes of their own. -/
def ownPipes : List Call :=
  [.create 0 (some fun _ => 0) .valid,.fork 0 1,.create 1 (some fun _ => 0) .valid,
    .create 0 (some fun _ => 0) .bad,.close 0 0,.create 2 (some fun _ => 0) .null]

lemma exists_exit {n : ℕ} {c : List Call} {g : Handles × Book → Call × Reply → Prop}
    [∀ x a, Decidable (g x a)] {P : Handles × Book → Handles × Book → Prop}
    [∀ x y, Decidable (P x y)] (hn : n ≤ maxProcesses)
    (h : ((runReplies (recording act record) g (blankHandles n) c).bind fun r =>
      (recording act record r.2 (.exit 0)).map fun q => decide (P r.2 q.2)) = some true) :
    ∃ l x r y, Trace (handleRuns.guarded g) l x ∧ l.map Prod.fst = c ∧
      handleRuns.step x (.exit 0,r) y ∧ P x y := by
  obtain ⟨r,hr,hex⟩ := Option.bind_eq_some_iff.mp h
  obtain ⟨q,hq,hP⟩ := Option.map_eq_some_iff.mp hex
  exact ⟨r.1,r.2,q.1,q.2,trace_of_runReplies (blankHandles_started hn) hr,runReplies_calls hr,hq,
    of_decide_eq_true hP⟩

theorem handles_lawful_ownPipes : ∃ l x a y, Trace (handleRuns.guarded Unshared) l x ∧
    l.map Prod.fst = ownPipes ∧ (handleRuns.guarded Unshared).step x a y ∧ a.1 = .exit 0 ∧
    (x.1.pipes 2).used = true ∧ (y.1.pipes 2).used = false ∧ Lawful x a y := by
  obtain ⟨l,x,r,y,htr,hcl,hst,hbf,haf⟩ := exists_exit (n := 2) (c := ownPipes)
    (g := Unshared) (P := fun x y => (x.1.pipes 2).used = true ∧ (y.1.pipes 2).used = false)
    (by decide) (by decide)
  exact ⟨l,x,_,y,htr,hcl,⟨hst,trivial⟩,rfl,hbf,haf,
    handles_lawful l x htr _ y ⟨hst,trivial⟩⟩

/-- Process 1 closes the pipe of process 0 and creates one, which gets the same number. -/
def reusedNumber : List Call :=
  [.create 0 (some fun _ => 0) .valid,.close 1 0,.create 1 (some fun _ => 0) .valid]

/-- A process is forked after it created a pipe. -/
def sharedPipe : List Call := [.create 0 (some fun _ => 0) .valid,.fork 0 0]

/-- The exit of process 0 closes a pipe that only process 1 registered, and a pipe that its
child still has open. -/
theorem exit_closes_other :
    (∃ l x a y, Trace handleRuns l x ∧ l.map Prod.fst = reusedNumber ∧ handleRuns.step x a y ∧
      a.1 = .exit 0 ∧ ¬ Lawful x a y) ∧
    ∃ l x a y, Trace handleRuns l x ∧ l.map Prod.fst = sharedPipe ∧ handleRuns.step x a y ∧
      a.1 = .exit 0 ∧ ¬ Lawful x a y := by
  constructor
  · obtain ⟨l,x,r,y,htr,hcl,hst,hbf,haf,hot⟩ := exists_exit (n := 2)
      (c := reusedNumber) (g := fun _ _ => True) (P := fun x y => (x.1.pipes 0).used = true ∧
        (y.1.pipes 0).used = false ∧ x.2.registered 0 (x.2.object 0) = false)
      (by decide) (by decide)
    rw [System.guarded_true] at htr
    refine ⟨l,x,_,y,htr,hcl,hst,rfl,fun hlw => ?_⟩
    have hreg := (hlw 0 (by decide) hbf haf).1
    rw [hot] at hreg
    cases hreg
  · obtain ⟨l,x,r,y,htr,hcl,hst,hbf,haf,hlv,hop⟩ := exists_exit (n := 1)
      (c := sharedPipe) (g := fun _ _ => True) (P := fun x y => (x.1.pipes 0).used = true ∧
        (y.1.pipes 0).used = false ∧ (x.1.procs 1).live = true ∧
        x.2.opened 1 (x.2.object 0) = true) (by decide) (by decide)
    rw [System.guarded_true] at htr
    refine ⟨l,x,_,y,htr,hcl,hst,rfl,fun hlw => ?_⟩
    have hcs := (hlw 0 (by decide) hbf haf).2 1 (by decide) (by decide) hlv
    rw [hop] at hcs
    cases hcs

end HarlinKernel.PipeHandles
