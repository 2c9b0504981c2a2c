import HarlinKernel.TransitionSystem
import HarlinKernel.RingBuffer

/-! The pipe table of `proc/pipe.c`. Each call is one step, as its body runs under
the lock of its pipe. The arrays are functions of the index, the pids handed to
`process_wake` are part of a call's result, and the buffer pointer is the
4096-byte block itself or null. -/
namespace HarlinKernel.PipeTable

open TransitionSystem RingBuffer
open Function (update update_of_ne)

def pipeCount : ℕ := 16
def pipeBufferSize : ℕ := 4096
def pipeWaitMax : ℕ := 32

def harlinInvalid : ℤ := -2
def harlinNoMemory : ℤ := -3

structure Pipe where
  buffer : Option (ℕ → UInt8)
  head : ℕ
  tail : ℕ
  size : ℕ
  readers : ℕ
  writers : ℕ
  used : Bool
  readWaiters : ℕ → ℕ
  readWaitCount : ℕ
  writeWaiters : ℕ → ℕ
  writeWaitCount : ℕ

abbrev Table := ℕ → Pipe

/-- What a transfer returns: its return code, the bytes that crossed, and the
pids it passed to `process_wake`. -/
structure Transfer where
  rc : ℤ
  bytes : List UInt8
  woken : List ℕ
  deriving DecidableEq

def Transfer.fail (rc : ℤ) : Transfer := ⟨rc,[],[]⟩

/-- Clear the first `count` entries of a waiter list and wake each of them. -/
def pipeWakeSome (waits : ℕ → ℕ) (count : ℕ) : (ℕ → ℕ) × List ℕ :=
  (fun i => if i < count then 0 else waits i,(List.range count).map waits)

/-- The first entry that holds 0 takes the pid; 0 is also the mark of an empty entry. -/
def pipeAddWaiter (waits : ℕ → ℕ) (count pid : ℕ) : ℤ × (ℕ → ℕ) × ℕ :=
  match (List.range pipeWaitMax).find? fun i => waits i = 0 with
  | some i => (0,update waits i pid,if i+1 > count then i+1 else count)
  | none => (-1,waits,count)

def pipeInit : Table := fun _ =>
  { buffer := none, head := 0, tail := 0, size := pipeBufferSize, readers := 0, writers := 0,
    used := false, readWaiters := fun _ => 0, readWaitCount := 0,
    writeWaiters := fun _ => 0, writeWaitCount := 0 }

/-- The pipe `pipe_create` sets up over a fresh buffer. -/
def freshPipe (buf : ℕ → UInt8) : Pipe where
  buffer := some buf
  head := 0
  tail := 0
  size := pipeBufferSize
  readers := 1
  writers := 1
  used := true
  readWaiters := fun _ => 0
  readWaitCount := 0
  writeWaiters := fun _ => 0
  writeWaitCount := 0

/-- `mem` is the block `kmalloc` returned for the buffer, if any. -/
def pipeCreate (t : Table) (mem : Option (ℕ → UInt8)) : ℤ × Table :=
  match (List.range pipeCount).find? fun i => !(t i).used with
  | none => (harlinNoMemory,t)
  | some i =>
    match mem with
    | none => (harlinNoMemory,t)
    | some buf => (i,update t i (freshPipe buf))

/-- The copy loop of `pipe_read`, with `n` bytes still wanted: the bytes taken and
the new `head`. -/
def readLoop (buf : ℕ → UInt8) (size tail : ℕ) : ℕ → ℕ → List UInt8 × ℕ
  | 0, head => ([],head)
  | n+1, head =>
    if head = tail then ([],head)
    else
      let r := readLoop buf size tail n ((head+1) % size)
      (buf head :: r.1,r.2)

/-- The copy loop of `pipe_write`: the number of bytes stored, the new buffer and
the new `tail`. -/
def writeLoop (size head : ℕ) : List UInt8 → (ℕ → UInt8) → ℕ → ℕ × (ℕ → UInt8) × ℕ
  | [], buf, tail => (0,buf,tail)
  | b :: src, buf, tail =>
    let next := (tail+1) % size
    if next = head then (0,buf,tail)
    else
      let r := writeLoop size head src (update buf tail b) next
      (r.1+1,r.2.1,r.2.2)

def Pipe.wakeReaders (p : Pipe) : List ℕ × Pipe :=
  let w := pipeWakeSome p.readWaiters p.readWaitCount
  (w.2,{ p with readWaiters := w.1, readWaitCount := 0 })

def Pipe.wakeWriters (p : Pipe) : List ℕ × Pipe :=
  let w := pipeWakeSome p.writeWaiters p.writeWaitCount
  (w.2,{ p with writeWaiters := w.1, writeWaitCount := 0 })

/-- The locked section of `pipe_read`. -/
def Pipe.read (p : Pipe) (buf : ℕ → UInt8) (len : ℕ) : Transfer × Pipe :=
  if p.writers = 0 ∧ p.head = p.tail then (.fail 0,p)
  else
    let r := readLoop buf p.size p.tail len p.head
    let q := { p with head := r.2 }
    let w := if 0 < r.1.length ∧ 0 < q.writeWaitCount then q.wakeWriters else ([],q)
    (⟨r.1.length,r.1,w.1⟩,w.2)

/-- `present` is whether the caller's buffer pointer is not null. -/
def pipeRead (t : Table) (id : ℤ) (present : Bool) (len : ℕ) : Transfer × Table :=
  if id < 0 ∨ pipeCount ≤ id then (.fail harlinInvalid,t)
  else if !present ∨ len = 0 then (.fail 0,t)
  else
    match (t id.toNat).used, (t id.toNat).buffer with
    | true, some buf =>
      let r := (t id.toNat).read buf len
      (r.1,update t id.toNat r.2)
    | _, _ => (.fail harlinInvalid,t)

/-- The locked section of `pipe_write`. -/
def Pipe.write (p : Pipe) (buf : ℕ → UInt8) (src : List UInt8) : Transfer × Pipe :=
  if p.readers = 0 then (.fail harlinInvalid,p)
  else
    let r := writeLoop p.size p.head src buf p.tail
    let q := { p with buffer := some r.2.1, tail := r.2.2 }
    let w := if 0 < r.1 ∧ 0 < q.readWaitCount then q.wakeReaders else ([],q)
    (⟨r.1,src.take r.1,w.1⟩,w.2)

/-- The caller's buffer is the list of its `len` bytes, or null. -/
def pipeWrite (t : Table) (id : ℤ) (src : Option (List UInt8)) : Transfer × Table :=
  if id < 0 ∨ pipeCount ≤ id then (.fail harlinInvalid,t)
  else
    match src with
    | none => (.fail 0,t)
    | some src =>
      if src.length = 0 then (.fail 0,t)
      else
        match (t id.toNat).used, (t id.toNat).buffer with
        | true, some buf =>
          let r := (t id.toNat).write buf src
          (r.1,update t id.toNat r.2)
        | _, _ => (.fail harlinInvalid,t)

def pipeReady (t : Table) (id : ℤ) : Bool :=
  if id < 0 ∨ pipeCount ≤ id then false
  else
    let p := t id.toNat
    p.used && p.buffer.isSome && p.head != p.tail

/-- Unsigned 32-bit arithmetic, as in the source. -/
def pipeSpace (t : Table) (id : ℤ) : ℕ :=
  if id < 0 ∨ pipeCount ≤ id then 0
  else
    let p := t id.toNat
    if !p.used ∨ p.buffer.isNone then 0
    else (p.head+p.size+2^32-p.tail-1) % 2^32 % p.size

/-- What `pipe_close` leaves of a pipe in its locked section. -/
def Pipe.close (p : Pipe) : Pipe :=
  let q := { p with
    readWaiters := fun i => if i < pipeWaitMax then 0 else p.readWaiters i
    writeWaiters := fun i => if i < pipeWaitMax then 0 else p.writeWaiters i
    readWaitCount := 0
    writeWaitCount := 0
    readers := p.readers-1
    writers := p.writers-1 }
  if q.readers = 0 ∧ q.writers = 0 then { q with buffer := none, used := false } else q

/-- After the locked section the saved waiters are woken, entries with 0 skipped. -/
def Pipe.closeWakes (p : Pipe) : List ℕ :=
  (((List.range p.readWaitCount).map p.readWaiters).filter (· ≠ 0)) ++
    (((List.range p.writeWaitCount).map p.writeWaiters).filter (· ≠ 0))

def pipeClose (t : Table) (id : ℤ) : List ℕ × Table :=
  if id < 0 ∨ pipeCount ≤ id then ([],t)
  else if !(t id.toNat).used then ([],t)
  else ((t id.toNat).closeWakes,update t id.toNat (t id.toNat).close)

/-- Bytes between `head` and `tail`. -/
def Pipe.occupancy (p : Pipe) : ℕ := (p.tail+p.size-p.head) % p.size

/-- The bytes still in the ring, oldest first. -/
def Pipe.ring (p : Pipe) : List UInt8 :=
  match p.buffer with
  | some buf => contents p.size buf p.head p.occupancy
  | none => []

/-- A pipe between `pipe_create` and the close that frees it. -/
structure Pipe.Open (p : Pipe) (buf : ℕ → UInt8) : Prop where
  used : p.used = true
  buffer : p.buffer = some buf
  size : p.size = pipeBufferSize
  head_lt : p.head < pipeBufferSize
  tail_lt : p.tail < pipeBufferSize
  readers : p.readers = 1
  writers : p.writers = 1

variable {p : Pipe} {buf : ℕ → UInt8} {size head occ k id : ℕ} {t : Table}

lemma occupancy_lt (h : p.Open buf) : p.occupancy < pipeBufferSize := by
  rw [Pipe.occupancy,h.size]
  exact Nat.mod_lt _ (by decide)

lemma tail_eq (h : p.Open buf) : p.tail = (p.head+p.occupancy) % pipeBufferSize := by
  have hh := h.head_lt
  have ht := h.tail_lt
  rw [Pipe.occupancy,h.size]
  unfold pipeBufferSize at *
  omega

lemma occupancy_of_tail {n : ℕ} (hs : p.size = pipeBufferSize) (hh : p.head < pipeBufferSize)
    (hn : n < pipeBufferSize) (ht : p.tail = (p.head+n) % pipeBufferSize) : p.occupancy = n := by
  rw [Pipe.occupancy,hs,ht]
  unfold pipeBufferSize at *
  omega

/-- `pipe_read` takes the oldest bytes, as many as asked for and present. -/
theorem readLoop_eq (buf : ℕ → UInt8) (len : ℕ) (hh : head < size) (ho : occ < size) :
    readLoop buf size ((head+occ) % size) len head =
    (contents size buf head (min len occ),(head+min len occ) % size) := by
  induction len generalizing head occ with
  | zero => simp [readLoop,Nat.mod_eq_of_lt hh]
  | succ len ih =>
    cases occ with
    | zero => simp [readLoop,Nat.mod_eq_of_lt hh]
    | succ occ =>
      have hne : head ≠ (head+(occ+1)) % size := by
        have h := slot_ne head (Nat.succ_pos occ) ho
        rwa [Nat.add_zero,Nat.mod_eq_of_lt hh] at h
      have hnx : (head+1) % size < size := Nat.mod_lt _ (by omega)
      have htl : (head+(occ+1)) % size = ((head+1) % size+occ) % size := by
        rw [Nat.mod_add_mod]
        congr 1
        omega
      have hend : ((head+1) % size+min len occ) % size =
          (head+min (len+1) (occ+1)) % size := by
        rw [Nat.mod_add_mod]
        congr 1
        omega
      have htk := ih hnx (show occ < size by omega)
      rw [readLoop,if_neg hne,htl,htk,hend]
      simp [contents_succ_first,Nat.mod_eq_of_lt hh]

/-- `pipe_write` appends the first bytes of the source, as many as one free slot
less than the ring allows. -/
theorem writeLoop_eq (hh : head < size) (src : List UInt8) (buf : ℕ → UInt8) (ho : occ < size) :
    ∃ buf',
      writeLoop size head src buf ((head+occ) % size) =
        (min src.length (size-1-occ),buf',(head+(occ+min src.length (size-1-occ))) % size) ∧
      contents size buf' head (occ+min src.length (size-1-occ)) =
        contents size buf head occ ++ src.take (min src.length (size-1-occ)) := by
  induction src generalizing buf occ with
  | nil => exact ⟨buf,by simp [writeLoop],by simp⟩
  | cons b src ih =>
    have hnx : ((head+occ) % size+1) % size = (head+(occ+1)) % size := by
      rw [Nat.mod_add_mod]
      rfl
    by_cases hfl : occ+1 = size
    · have hhd : (head+(occ+1)) % size = head := by
        rw [hfl,Nat.add_mod_right,Nat.mod_eq_of_lt hh]
      refine ⟨buf,?_,?_⟩
      · simp only [writeLoop,hnx,hhd,if_true]
        simp [show size-1-occ = 0 by omega]
      · simp [show size-1-occ = 0 by omega]
    have hne : (head+(occ+1)) % size ≠ head := by
      have h := slot_ne head (Nat.succ_pos occ) (show occ+1 < size by omega)
      rw [Nat.add_zero,Nat.mod_eq_of_lt hh] at h
      exact h.symm
    obtain ⟨buf',hrun,hcn⟩ := ih (update buf ((head+occ) % size) b)
      (show occ+1 < size by omega)
    have hmin : min (src.length+1) (size-1-occ) = min src.length (size-1-(occ+1))+1 := by
      omega
    refine ⟨buf',?_,?_⟩
    · simp only [writeLoop,hnx,hne,if_false,hrun,List.length_cons,hmin]
      refine Prod.ext rfl (Prod.ext rfl ?_)
      simp only
      congr 1
      omega
    · rw [List.length_cons,hmin,List.take_succ_cons,List.append_cons,
        ← contents_push buf head ho b,← hcn]
      congr 1
      omega

@[simp] lemma ring_eq (h : p.Open buf) :
    p.ring = contents pipeBufferSize buf p.head p.occupancy := by
  simp [Pipe.ring,h.buffer,h.size]

lemma Pipe.Open.wakeReaders (h : p.Open buf) : p.wakeReaders.2.Open buf :=
  ⟨h.used,h.buffer,h.size,h.head_lt,h.tail_lt,h.readers,h.writers⟩

lemma Pipe.Open.wakeWriters (h : p.Open buf) : p.wakeWriters.2.Open buf :=
  ⟨h.used,h.buffer,h.size,h.head_lt,h.tail_lt,h.readers,h.writers⟩

lemma advance_head_open (h : p.Open buf) (hk : k ≤ p.occupancy) :
    Pipe.Open { p with head := (p.head+k) % pipeBufferSize } buf ∧
    Pipe.occupancy { p with head := (p.head+k) % pipeBufferSize } = p.occupancy-k := by
  have hocc := occupancy_lt h
  refine ⟨⟨h.used,h.buffer,h.size,Nat.mod_lt _ (by decide),h.tail_lt,h.readers,h.writers⟩,?_⟩
  refine occupancy_of_tail h.size (Nat.mod_lt _ (by decide)) (by omega) ?_
  simp only [Nat.mod_add_mod]
  rw [tail_eq h]
  congr 1
  omega

lemma advance_head (h : p.Open buf) (hk : k ≤ p.occupancy) :
    contents pipeBufferSize buf p.head k ++
      Pipe.ring { p with head := (p.head+k) % pipeBufferSize } = p.ring := by
  obtain ⟨hop,hlf⟩ := advance_head_open h hk
  rw [ring_eq hop,hlf,ring_eq h,← contents_add]
  congr 1
  omega

lemma read_eq (h : p.Open buf) (len : ℕ) :
    p.read buf len =
      let k := min len p.occupancy
      let q := { p with head := (p.head+k) % pipeBufferSize }
      let w := if 0 < k ∧ 0 < p.writeWaitCount then q.wakeWriters else ([],q)
      (⟨k,contents pipeBufferSize buf p.head k,w.1⟩,w.2) := by
  have hlp : readLoop buf p.size p.tail len p.head =
      (contents pipeBufferSize buf p.head (min len p.occupancy),
        (p.head+min len p.occupancy) % pipeBufferSize) := by
    rw [h.size,tail_eq h]
    exact readLoop_eq buf len h.head_lt (occupancy_lt h)
  have hw : ¬ (p.writers = 0 ∧ p.head = p.tail) := by simp [h.writers]
  simp [Pipe.read,if_neg hw,hlp]

lemma read_open (h : p.Open buf) (len : ℕ) : (p.read buf len).2.Open buf ∧
    (p.read buf len).1.rc = (min len p.occupancy : ℕ) ∧
    (p.read buf len).1.bytes ++ (p.read buf len).2.ring = p.ring := by
  obtain ⟨hop,-⟩ := advance_head_open h (Nat.min_le_right len p.occupancy)
  have hrn := advance_head h (Nat.min_le_right len p.occupancy)
  simp only [read_eq h]
  split
  · exact ⟨hop.wakeWriters,trivial,hrn⟩
  · exact ⟨hop,trivial,hrn⟩

lemma read_bytes_length (p : Pipe) (buf : ℕ → UInt8) (len : ℕ) :
    (p.read buf len).1.bytes.length = (p.read buf len).1.rc.toNat := by
  simp only [Pipe.read]
  split <;> simp [Transfer.fail]

lemma write_eq (h : p.Open buf) (src : List UInt8) :
    let k := min src.length (pipeBufferSize-1-p.occupancy)
    let tail := (p.head+(p.occupancy+k)) % pipeBufferSize
    ∃ buf', contents pipeBufferSize buf' p.head (p.occupancy+k) =
        contents pipeBufferSize buf p.head p.occupancy ++ src.take k ∧
      p.write buf src =
        let q := { p with buffer := some buf', tail := tail }
        let w := if 0 < k ∧ 0 < p.readWaitCount then q.wakeReaders else ([],q)
        (⟨k,src.take k,w.1⟩,w.2) := by
  obtain ⟨buf',hlp,hcn⟩ := writeLoop_eq h.head_lt src buf (occupancy_lt h)
  rw [← tail_eq h] at hlp
  refine ⟨buf',hcn,?_⟩
  have hr : ¬ p.readers = 0 := by simp [h.readers]
  rw [← h.size] at hlp ⊢
  simp [Pipe.write,if_neg hr,hlp]

lemma advance_tail_open (h : p.Open buf) (buf' : ℕ → UInt8)
    (hk : p.occupancy+k < pipeBufferSize) :
    let q := { p with buffer := some buf', tail := (p.head+(p.occupancy+k)) % pipeBufferSize }
    q.Open buf' ∧ q.occupancy = p.occupancy+k :=
  ⟨⟨h.used,rfl,h.size,h.head_lt,Nat.mod_lt _ (by decide),h.readers,h.writers⟩,
    occupancy_of_tail h.size h.head_lt hk rfl⟩

lemma write_open (h : p.Open buf) (src : List UInt8) :
    (∃ buf', (p.write buf src).2.Open buf') ∧
    (p.write buf src).1.rc = (min src.length (pipeBufferSize-1-p.occupancy) : ℕ) ∧
    (p.write buf src).2.ring =
      p.ring ++ src.take (min src.length (pipeBufferSize-1-p.occupancy)) := by
  obtain ⟨buf',hcn,hwr⟩ := write_eq h src
  have hocc := occupancy_lt h
  obtain ⟨hop,hocc'⟩ := advance_tail_open h buf'
    (k:=min src.length (pipeBufferSize-1-p.occupancy)) (by omega)
  have hrn := ring_eq hop
  rw [hocc'] at hrn
  rw [hcn,← ring_eq h] at hrn
  rw [hwr]
  dsimp only
  split
  · exact ⟨⟨buf',hop.wakeReaders⟩,rfl,hrn⟩
  · exact ⟨⟨buf',hop⟩,rfl,hrn⟩

lemma pipeRead_open (hid : id < pipeCount) (h : (t id).Open buf) (len : ℕ) (hlen : len ≠ 0) :
    pipeRead t id true len = (((t id).read buf len).1,update t id ((t id).read buf len).2) := by
  have hrn : ¬ ((id : ℤ) < 0 ∨ (pipeCount : ℤ) ≤ id) := by omega
  rw [pipeRead,if_neg hrn]
  simp [hlen,h.used,h.buffer]

lemma pipeWrite_open (hid : id < pipeCount) (h : (t id).Open buf) (src : List UInt8)
    (hsrc : src.length ≠ 0) :
    pipeWrite t id (some src) =
      (((t id).write buf src).1,update t id ((t id).write buf src).2) := by
  have hrn : ¬ ((id : ℤ) < 0 ∨ (pipeCount : ℤ) ≤ id) := by omega
  rw [pipeWrite,if_neg hrn]
  simp [hsrc,h.used,h.buffer]

lemma pipeSpace_open (hid : id < pipeCount)
    (h : (t id).Open buf) : pipeSpace t id = pipeBufferSize-1-(t id).occupancy := by
  have hrn : ¬ ((id : ℤ) < 0 ∨ (pipeCount : ℤ) ≤ id) := by omega
  have hh := h.head_lt
  have ht := h.tail_lt
  rw [pipeSpace,if_neg hrn]
  simp only [Int.toNat_natCast,h.used,h.buffer,h.size,Pipe.occupancy,Option.isNone_some,
    Bool.not_true,Bool.false_eq_true,or_self,if_false]
  unfold pipeBufferSize at *
  omega

/-- The calls a pipe can see; `create` carries what `kmalloc` returns. -/
inductive Call
  | create (mem : Option (ℕ → UInt8))
  | read (id : ℤ) (present : Bool) (len : ℕ)
  | write (id : ℤ) (src : Option (List UInt8))
  | close (id : ℤ)

def Call.run (t : Table) : Call → Transfer × Table
  | .create mem => let r := pipeCreate t mem; (⟨r.1,[],[]⟩,r.2)
  | .read id present len => pipeRead t id present len
  | .write id src => pipeWrite t id src
  | .close id => let r := pipeClose t id; (⟨0,[],r.1⟩,r.2)

/-- All bytes that reads of this pipe returned, in order. -/
def bytesRead (id : ℕ) (l : List (Call × Transfer)) : List UInt8 :=
  l.flatMap fun a =>
    match a.1 with
    | .read i _ _ => if i = id then a.2.bytes.take a.2.rc.toNat else []
    | _ => []

/-- The prefixes that writes to this pipe accepted, in order. -/
def bytesAccepted (id : ℕ) (l : List (Call × Transfer)) : List UInt8 :=
  l.flatMap fun a =>
    match a.1 with
    | .write i (some src) => if i = id then src.take a.2.rc.toNat else []
    | _ => []

/-- Runs between the `pipe_create` that returned `id` and the close that frees it. -/
def openRuns (id : ℕ) : System Table (Call × Transfer) :=
  (calls (fun t => ∃ t₀ mem, pipeCreate t₀ mem = ((id : ℤ),t)) Call.run).guarded
    fun _ a => a.1 ≠ .close id

lemma pipeCreate_fresh {t₀ : Table} {mem : Option (ℕ → UInt8)}
    (h : pipeCreate t₀ mem = ((id : ℤ),t)) : id < pipeCount ∧ ∃ buf, t id = freshPipe buf := by
  unfold pipeCreate at h
  split at h
  · simp [harlinNoMemory] at h
  · rename_i i hi
    have hlt : i < pipeCount := List.mem_range.mp (List.mem_of_find?_eq_some hi)
    cases mem with
    | none => simp [harlinNoMemory] at h
    | some buf =>
      obtain ⟨rfl,rfl⟩ := h
      exact ⟨hlt,buf,by simp⟩

lemma freshPipe_open (buf : ℕ → UInt8) : (freshPipe buf).Open buf :=
  ⟨rfl,rfl,rfl,Nat.zero_lt_succ _,Nat.zero_lt_succ _,rfl,rfl⟩

lemma freshPipe_ring (buf : ℕ → UInt8) : (freshPipe buf).ring = [] := by
  have hocc : (freshPipe buf).occupancy = 0 := by simp [freshPipe,Pipe.occupancy]
  rw [ring_eq (freshPipe_open buf),hocc,contents_zero]

lemma run_other (hus : (t id).used = true) (c : Call)
    (hc : match c with
      | .create _ => True
      | .read i _ _ => i ≠ id
      | .write i _ => i ≠ id
      | .close i => i ≠ id) : (c.run t).2 id = t id := by
  have hne : ∀ {i : ℤ}, ¬ (i < 0 ∨ (pipeCount : ℤ) ≤ i) → i ≠ id → id ≠ i.toNat := by omega
  cases c with
  | create mem =>
    simp only [Call.run,pipeCreate]
    split
    · rfl
    · rename_i i hi
      have hi' : (t i).used = false := by simpa using List.find?_some hi
      have hid : id ≠ i := by rintro rfl; simp [hus] at hi'
      cases mem with
      | none => rfl
      | some buf => exact update_of_ne hid _ _
  | read i present len =>
    simp only [Call.run,pipeRead]
    split_ifs with hr hn
    · rfl
    · rfl
    · split
      · exact update_of_ne (hne hr hc) _ _
      · rfl
  | write i src =>
    simp only [Call.run,pipeWrite]
    split_ifs with hr
    · rfl
    cases src with
    | none => rfl
    | some src =>
      dsimp only
      split_ifs
      · rfl
      · split
        · exact update_of_ne (hne hr hc) _ _
        · rfl
  | close i =>
    simp only [Call.run,pipeClose]
    split_ifs with hr
    · rfl
    · rfl
    · exact update_of_ne (hne hr hc) _ _

/-- The stream law of one pipe at the end of a run with labels `l`. -/
structure Stream (id : ℕ) (l : List (Call × Transfer)) (t : Table) : Prop where
  id_lt : id < pipeCount
  isOpen : ∃ buf, (t id).Open buf
  fifo : bytesRead id l ++ (t id).ring = bytesAccepted id l

lemma bytesRead_snoc (id : ℕ) (l : List (Call × Transfer)) (a : Call × Transfer) :
    bytesRead id (l ++ [a]) = bytesRead id l ++ bytesRead id [a] := by
  simp [bytesRead]

lemma bytesAccepted_snoc (id : ℕ) (l : List (Call × Transfer)) (a : Call × Transfer) :
    bytesAccepted id (l ++ [a]) = bytesAccepted id l ++ bytesAccepted id [a] := by
  simp [bytesAccepted]

variable {l : List (Call × Transfer)}

/-- One call keeps the stream law when what it adds to the two streams is what
it does to the ring. -/
theorem Stream.snoc {t' : Table} (h : Stream id l t) {a : Call × Transfer}
    (hop : ∃ buf, (t' id).Open buf)
    (hrn : bytesRead id [a] ++ (t' id).ring = (t id).ring ++ bytesAccepted id [a]) :
    Stream id (l ++ [a]) t' := by
  refine ⟨h.id_lt,hop,?_⟩
  rw [bytesRead_snoc,bytesAccepted_snoc,List.append_assoc,hrn,← List.append_assoc,h.fifo]

lemma Stream.read (h : Stream id l t) (present : Bool) (len : ℕ) :
    Stream id (l ++ [(.read id present len,(pipeRead t id present len).1)])
    (pipeRead t id present len).2 := by
  obtain ⟨buf,hop⟩ := h.isOpen
  have hrn : ¬ ((id : ℤ) < 0 ∨ (pipeCount : ℤ) ≤ id) := by have := h.id_lt; omega
  by_cases hzr : !present ∨ len = 0
  · have hrun : pipeRead t id present len = (.fail 0,t) := by
      rw [pipeRead,if_neg hrn,if_pos hzr]
    rw [hrun]
    exact h.snoc ⟨buf,hop⟩ (by simp [bytesRead,bytesAccepted,Transfer.fail])
  · simp only [Bool.not_eq_true',not_or,Bool.not_eq_false] at hzr
    obtain ⟨rfl,hlen⟩ := hzr
    obtain ⟨hop',hrc,hri⟩ := read_open hop len
    rw [pipeRead_open h.id_lt hop len hlen]
    refine h.snoc ⟨buf,by simpa using hop'⟩ ?_
    have hcn := (read_bytes_length (t id) buf len).le
    simpa [bytesRead,bytesAccepted,List.take_of_length_le hcn] using hri

lemma Stream.write (h : Stream id l t) (src : Option (List UInt8)) :
    Stream id (l ++ [(.write id src,(pipeWrite t id src).1)]) (pipeWrite t id src).2 := by
  obtain ⟨buf,hop⟩ := h.isOpen
  have hrn : ¬ ((id : ℤ) < 0 ∨ (pipeCount : ℤ) ≤ id) := by have := h.id_lt; omega
  cases src with
  | none =>
    have hrun : pipeWrite t id none = (.fail 0,t) := by rw [pipeWrite,if_neg hrn]
    rw [hrun]
    exact h.snoc ⟨buf,hop⟩ (by simp [bytesRead,bytesAccepted])
  | some src =>
    by_cases hzr : src.length = 0
    · have hrun : pipeWrite t id (some src) = (.fail 0,t) := by
        rw [pipeWrite,if_neg hrn]
        simp [hzr]
      rw [hrun]
      exact h.snoc ⟨buf,hop⟩ (by simp [bytesRead,bytesAccepted,Transfer.fail])
    · obtain ⟨⟨buf',hop'⟩,hrc,hri⟩ := write_open hop src
      rw [pipeWrite_open h.id_lt hop src hzr]
      refine h.snoc ⟨buf',by simpa using hop'⟩ ?_
      have hcn : ((t id).write buf src).1.rc.toNat =
          min src.length (pipeBufferSize-1-(t id).occupancy) := by rw [hrc]; rfl
      simpa [bytesRead,bytesAccepted,hcn] using hri

lemma Stream.other (h : Stream id l t) (c : Call)
    (hc : match c with
      | .create _ => True
      | .read i _ _ => i ≠ id
      | .write i _ => i ≠ id
      | .close i => i ≠ id) : Stream id (l ++ [(c,(c.run t).1)]) (c.run t).2 := by
  obtain ⟨buf,hop⟩ := h.isOpen
  have hsm := run_other hop.used c hc
  refine h.snoc ⟨buf,by rw [hsm]; exact hop⟩ ?_
  rw [hsm]
  cases c with
  | create mem => simp [bytesRead,bytesAccepted]
  | read i present len => simp [bytesRead,bytesAccepted,show ¬ i = (id : ℤ) from hc]
  | write i src => cases src <;> simp [bytesRead,bytesAccepted,show ¬ i = (id : ℤ) from hc]
  | close i => simp [bytesRead,bytesAccepted]

lemma openRuns_stream (h : Trace (openRuns id) l t) : Stream id l t := by
  refine h.invariant (Stream id) ?_ ?_
  · rintro t ⟨t₀,mem,hcr⟩
    obtain ⟨hid,buf,hfr⟩ := pipeCreate_fresh hcr
    exact ⟨hid,⟨buf,hfr ▸ freshPipe_open buf⟩,by
      simp [bytesRead,bytesAccepted,hfr,freshPipe_ring]⟩
  rintro l t ⟨c,o⟩ t' hs ⟨hrun,hcl⟩
  have ho : (c.run t).1 = o := congrArg Prod.fst hrun
  have ht : (c.run t).2 = t' := congrArg Prod.snd hrun
  subst ho ht
  cases c with
  | create mem => exact hs.other _ trivial
  | read i present len =>
    by_cases hi : i = id
    · subst hi
      exact hs.read present len
    · exact hs.other _ hi
  | write i src =>
    by_cases hi : i = id
    · subst hi
      exact hs.write src
    · exact hs.other _ hi
  | close i => exact hs.other _ (by rintro rfl; exact hcl rfl)

/-- A pipe is a byte stream: reads return what writes accepted, in order, each
transfer moves as many bytes as fit, and the ring keeps one slot unused. -/
theorem pipe_stream_fifo (id : ℕ) (l : List (Call × Transfer)) (t : Table)
    (h : Trace (openRuns id) l t) :
    bytesRead id l ++ (t id).ring = bytesAccepted id l ∧
      (t id).head < 4096 ∧ (t id).tail < 4096 ∧
      (∀ src : List UInt8,
        (pipeWrite t id (some src)).1.rc = (min src.length (pipeSpace t id) : ℕ)) ∧
      (∀ len : ℕ, (pipeRead t id true len).1.rc = (min len (t id).ring.length : ℕ)) ∧
      pipeSpace t id + (t id).ring.length = 4095 := by
  have hs := openRuns_stream h
  obtain ⟨buf,hop⟩ := hs.isOpen
  have hrn : ¬ ((id : ℤ) < 0 ∨ (pipeCount : ℤ) ≤ id) := by have := hs.id_lt; omega
  have hlen : (t id).ring.length = (t id).occupancy := by simp [ring_eq hop]
  have hsp := pipeSpace_open hs.id_lt hop
  have hocc := occupancy_lt hop
  refine ⟨hs.fifo,hop.head_lt,hop.tail_lt,?_,?_,?_⟩
  · intro src
    by_cases hzr : src.length = 0
    · rw [pipeWrite,if_neg hrn]
      simp [hzr,Transfer.fail]
    · rw [pipeWrite_open hs.id_lt hop src hzr,hsp]
      exact (write_open hop src).2.1
  · intro len
    by_cases hzr : len = 0
    · rw [pipeRead,if_neg hrn]
      simp [hzr,Transfer.fail]
    · rw [pipeRead_open hs.id_lt hop len hzr,hlen]
      exact (read_open hop len).2.1
  · unfold pipeBufferSize at *
    omega

/-- A run of one write and one read of a fresh pipe. -/
theorem pipe_stream_fifo_write_read :
    let t₀ := (pipeCreate pipeInit (some fun _ => 0)).2
    let r := runCalls Call.run t₀ [.write 0 (some [1,2,3]),.read 0 true 2]
    bytesRead 0 r.1 = [1,2] ∧ bytesRead 0 r.1 ++ (r.2 0).ring = bytesAccepted 0 r.1 := by
  refine ⟨by decide,?_⟩
  exact (pipe_stream_fifo 0 _ _ (trace_of_calls ⟨pipeInit,some fun _ => 0,rfl⟩
    [.write 0 (some [1,2,3]),.read 0 true 2] ⟨by simp,by simp,trivial⟩)).1

end HarlinKernel.PipeTable
