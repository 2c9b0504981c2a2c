import HarlinKernel.RecordMemory
import HarlinKernel.PipeTable

/-! The spinlock of `core/spinlock.c` over the bytes of memory. The lock is one 32-bit word, the
compare-and-swap of `core/atomic.asm` works on 64 bits. In a `struct pipe` the other half of these
is the first entry of `read_waiters`. -/
namespace HarlinKernel.Spinlock

open RecordMemory PipeTable

/-- `lock cmpxchg [rdi], rdx` on 64-bit operands and the `sete` behind it. -/
def atomicCmpxchg (m : Memory) (ptr expected desired : ℕ) : ℕ × Memory :=
  if load m ptr 8 = expected % 2^64 then (1,store m ptr desired 8) else (0,m)

def lockWord (m : Memory) (lk : ℕ) : ℕ := load m lk 4

def spinlockTryAcquire (m : Memory) (lk : ℕ) : ℕ × Memory := atomicCmpxchg m lk 0 1

/-- The loop of `spinlock_acquire` from instant `t` on, where `ms` is the memory at each instant:
one instant is a look at the word, and if it is 0 the next one is a compare-and-swap. -/
def spinlockAcquire (ms : ℕ → Memory) (lk : ℕ) : ℕ → ℕ → Option Memory
  | 0, _ => none
  | fuel+1, t =>
    if lockWord (ms t) lk ≠ 0 then spinlockAcquire ms lk fuel (t+1)
    else
      let r := atomicCmpxchg (ms (t+1)) lk 0 1
      if r.1 ≠ 0 then some r.2 else spinlockAcquire ms lk fuel (t+2)

/-- `m'` is `m` but for the lock word, which is 1. -/
structure OnlyWord (m m' : Memory) (lk : ℕ) : Prop where
  word : lockWord m' lk = 1
  rest : ∀ x, x < lk ∨ lk+4 ≤ x → m' x = m x

/-- The lock is taken iff its word is 0, only its word is written, and a free lock is not
waited for forever, whatever happens outside the eight bytes from the word on. -/
structure LockLaw (m : Memory) (lk : ℕ) : Prop where
  free : (spinlockTryAcquire m lk).1 = 1 ↔ lockWord m lk = 0
  frame : (spinlockTryAcquire m lk).1 = 1 → OnlyWord m (spinlockTryAcquire m lk).2 lk
  failed : (spinlockTryAcquire m lk).1 ≠ 1 → (spinlockTryAcquire m lk).2 = m
  acquire : lockWord m lk = 0 → ∀ ms : ℕ → Memory,
    (∀ t x, lk ≤ x → x < lk+8 → ms t x = m x) →
      ∃ fuel t m', spinlockAcquire ms lk fuel 0 = some m' ∧ OnlyWord (ms t) m' lk

/-- The word behind the lock word. -/
def nextWord (m : Memory) (lk : ℕ) : ℕ := load m (lk+4) 4

section Word

variable {m : Memory} {lk : ℕ}

lemma load_eq_words (m : Memory) (lk : ℕ) : load m lk 8 = lockWord m lk+2^32*nextWord m lk :=
  load_add m lk 4 4

lemma tryAcquire_eq_one_iff :
    (spinlockTryAcquire m lk).1 = 1 ↔ lockWord m lk = 0 ∧ nextWord m lk = 0 := by
  rw [spinlockTryAcquire,atomicCmpxchg,load_eq_words]
  split_ifs with hzr
  · omega
  · simp only [false_iff]
    omega

/-- The upper half of the swap stores the 0 that it has found. -/
theorem onlyWord_store (hnx : nextWord m lk = 0) : OnlyWord m (store m lk 1 8) lk := by
  constructor
  · have hall : load (store m lk 1 8) lk 8 = 1 := load_store_same
    rw [load_eq_words] at hall
    omega
  · intro x hx
    by_cases hin : lk+4 ≤ x ∧ x < lk+8
    · obtain ⟨i,rfl⟩ : ∃ i, x = lk+4+i := ⟨x-(lk+4),by omega⟩
      have hi : i < 4 := by omega
      have hold : m (lk+4+i) = 0 := load_eq_zero.1 hnx i hi
      rw [hold,Nat.add_assoc,store_inside (by omega : 4+i < 8)]
      interval_cases i <;> rfl
    · exact store_outside (by omega)

lemma tryAcquire_taken (h : (spinlockTryAcquire m lk).1 = 1) :
    OnlyWord m (spinlockTryAcquire m lk).2 lk := by
  have hnx := (tryAcquire_eq_one_iff.1 h).2
  rw [spinlockTryAcquire,atomicCmpxchg] at h ⊢
  split_ifs at h ⊢
  exact onlyWord_store hnx

lemma tryAcquire_failed (h : (spinlockTryAcquire m lk).1 ≠ 1) :
    (spinlockTryAcquire m lk).2 = m := by
  rw [spinlockTryAcquire,atomicCmpxchg] at h ⊢
  split_ifs at h ⊢
  · exact absurd rfl h
  · rfl

lemma lockWord_congr {m' : Memory} (h : ∀ x, lk ≤ x → x < lk+8 → m' x = m x) :
    lockWord m' lk = lockWord m lk ∧ nextWord m' lk = nextWord m lk :=
  ⟨load_congr fun x hlow hhg => h x hlow (by omega),
    load_congr fun x hlow hhg => h x (by omega) (by omega)⟩

lemma cmpxchg_taken_iff : (atomicCmpxchg m lk 0 1).1 ≠ 0 ↔ (spinlockTryAcquire m lk).1 = 1 := by
  rw [spinlockTryAcquire,atomicCmpxchg]
  split_ifs <;> simp

lemma acquire_stuck {ms : ℕ → Memory} (hnx : ∀ t, nextWord (ms t) lk ≠ 0) (fuel t : ℕ) :
    spinlockAcquire ms lk fuel t = none := by
  induction fuel generalizing t with
  | zero => rfl
  | succ fuel ih =>
    have hfl : ¬(atomicCmpxchg (ms (t+1)) lk 0 1).1 ≠ 0 := by
      rw [cmpxchg_taken_iff,tryAcquire_eq_one_iff]
      exact fun h => hnx (t+1) h.2
    rw [spinlockAcquire,ih,ite_eq_left_iff]
    intro _
    rw [if_neg hfl,ih]

lemma acquire_free {ms : ℕ → Memory} (hwr : ∀ t, lockWord (ms t) lk = 0)
    (hnx : ∀ t, nextWord (ms t) lk = 0) :
    spinlockAcquire ms lk 1 0 = some (spinlockTryAcquire (ms 1) lk).2 := by
  have htk : (atomicCmpxchg (ms 1) lk 0 1).1 ≠ 0 :=
    cmpxchg_taken_iff.2 (tryAcquire_eq_one_iff.2 ⟨hwr 1,hnx 1⟩)
  rw [spinlockAcquire,if_neg (not_not.2 (hwr 0))]
  exact if_pos htk

lemma lockLaw_iff (m : Memory) (lk : ℕ) :
    LockLaw m lk ↔ (lockWord m lk = 0 → nextWord m lk = 0) := by
  constructor
  · intro h hwr
    exact (tryAcquire_eq_one_iff.1 (h.free.2 hwr)).2
  · intro h
    refine ⟨?_,tryAcquire_taken,tryAcquire_failed,?_⟩
    · rw [tryAcquire_eq_one_iff]
      exact ⟨fun hbt => hbt.1,fun hwr => ⟨hwr,h hwr⟩⟩
    · intro hwr ms hms
      have hwo : ∀ t, lockWord (ms t) lk = 0 ∧ nextWord (ms t) lk = 0 := by
        intro t
        obtain ⟨hsm,hsm'⟩ := lockWord_congr (hms t)
        exact ⟨hsm.trans hwr,hsm'.trans (h hwr)⟩
      refine ⟨1,1,_,acquire_free (fun t => (hwo t).1) fun t => (hwo t).2,?_⟩
      exact tryAcquire_taken (tryAcquire_eq_one_iff.2 (hwo 1))

end Word

/-- The members of `struct pipe`; the waiter arrays have 32 entries. -/
inductive PipeField
  | buffer
  | head
  | tail
  | size
  | readers
  | writers
  | used
  | lock
  | readWaiter (i : Fin 32)
  | readWaitCount
  | writeWaiter (i : Fin 32)
  | writeWaitCount
  deriving DecidableEq

def PipeField.offset : PipeField → ℕ
  | .buffer => 0
  | .head => 8
  | .tail => 12
  | .size => 16
  | .readers => 20
  | .writers => 24
  | .used => 28
  | .lock => 32
  | .readWaiter i => 36+4*i
  | .readWaitCount => 164
  | .writeWaiter i => 168+4*i
  | .writeWaitCount => 296

def PipeField.width : PipeField → ℕ
  | .buffer => 8
  | _ => 4

def pipeStruct : Layout PipeField where
  offset := PipeField.offset
  width := PipeField.width
  size := 304
  inside := by
    intro f
    cases f <;> simp only [PipeField.offset,PipeField.width] <;> omega
  apart := by
    intro f g hne
    cases f <;> cases g
    case readWaiter.readWaiter i j =>
      have hij : i.val ≠ j.val := fun h => hne (by rw [Fin.ext h])
      simp only [PipeField.offset,PipeField.width]
      omega
    case writeWaiter.writeWaiter i j =>
      have hij : i.val ≠ j.val := fun h => hne (by rw [Fin.ext h])
      simp only [PipeField.offset,PipeField.width]
      omega
    all_goals
      first
      | exact absurd rfl hne
      | simp only [PipeField.offset,PipeField.width]
        omega

/-- The address of `p->lock`. -/
def pipeLock (p : ℕ) : ℕ := p+PipeField.lock.offset

/-- The struct at `p` holds a pipe, whose lock word is `lock`. -/
structure PipeAt (m : Memory) (p : ℕ) (π : Pipe) (lock : ℕ) : Prop where
  buffer : pipeStruct.record m p .buffer = 0 ↔ π.buffer = none
  head : pipeStruct.record m p .head = π.head
  tail : pipeStruct.record m p .tail = π.tail
  size : pipeStruct.record m p .size = π.size
  readers : pipeStruct.record m p .readers = π.readers
  writers : pipeStruct.record m p .writers = π.writers
  used : pipeStruct.record m p .used ≠ 0 ↔ π.used
  lock : pipeStruct.record m p .lock = lock
  readWaiters : ∀ i : Fin 32, pipeStruct.record m p (.readWaiter i) = π.readWaiters i
  readWaitCount : pipeStruct.record m p .readWaitCount = π.readWaitCount
  writeWaiters : ∀ i : Fin 32, pipeStruct.record m p (.writeWaiter i) = π.writeWaiters i
  writeWaitCount : pipeStruct.record m p .writeWaitCount = π.writeWaitCount

/-- The loop in front of each body of `pipe_read` and `pipe_write` ends, if nobody else
touches the pipe. -/
def CanTakeLock (m : Memory) (p : ℕ) : Prop :=
  ∃ fuel m', spinlockAcquire (fun _ => m) (pipeLock p) fuel 0 = some m'

lemma canTakeLock_iff {m : Memory} {p : ℕ} {π : Pipe} (h : PipeAt m p π 0) :
    CanTakeLock m p ↔ π.readWaiters 0 = 0 := by
  have hwr : lockWord m (pipeLock p) = 0 := h.lock
  have hnx : nextWord m (pipeLock p) = π.readWaiters 0 := h.readWaiters 0
  constructor
  · rintro ⟨fuel,m',hm'⟩
    by_contra hwt
    rw [← hnx] at hwt
    rw [acquire_stuck (fun _ => hwt)] at hm'
    cases hm'
  · intro hwt
    rw [← hnx] at hwt
    exact ⟨1,_,acquire_free (fun _ => hwr) fun _ => hwt⟩

/-- The lock depends on its word alone exactly where the word behind a free lock is 0; for the
lock of a pipe this is the first entry of the readers that wait. -/
theorem lock_word_alone_iff (m : Memory) (lk : ℕ) :
    (LockLaw m lk ↔ (lockWord m lk = 0 → nextWord m lk = 0)) ∧
      ∀ p π, PipeAt m p π 0 → (CanTakeLock m p ↔ π.readWaiters 0 = 0) :=
  ⟨lockLaw_iff m lk,fun _ _ h => canTakeLock_iff h⟩

/-- A pipe after `pipe_read_blocking` has found it empty and put the caller on the list. -/
def addReader (π : Pipe) (pid : ℕ) : Pipe :=
  let r := pipeAddWaiter π.readWaiters π.readWaitCount pid
  { π with
    readWaiters := r.2.1
    readWaitCount := r.2.2 }

/-- A new pipe with one waiting reader, in memory at address 0. -/
def waitedPipe : Memory := fun x =>
  if x = 1 then 0x10 else if x = 17 then 0x10 else if x = 20 ∨ x = 24 ∨ x = 28 then 1
  else if x = 36 then 7 else if x = 164 then 1 else 0

lemma waitedPipe_holds : PipeAt waitedPipe 0 (addReader (freshPipe fun _ => 0) 7) 0 := by
  refine ⟨⟨fun h => ?_,fun h => nomatch h⟩,?_,?_,?_,?_,?_,?_,?_,?_,?_,?_,?_⟩
  · exact absurd h (by decide)
  all_goals decide

/-- The writer that should wake the reader waits for a free lock forever. -/
theorem free_lock_never_taken :
    lockWord waitedPipe (pipeLock 0) = 0 ∧
      PipeAt waitedPipe 0 (addReader (freshPipe fun _ => 0) 7) 0 ∧
      (∀ fuel t, spinlockAcquire (fun _ => waitedPipe) (pipeLock 0) fuel t = none) ∧
      ¬LockLaw waitedPipe (pipeLock 0) := by
  have hnx : nextWord waitedPipe (pipeLock 0) ≠ 0 := by decide
  refine ⟨by decide,waitedPipe_holds,acquire_stuck fun _ => hnx,?_⟩
  rw [lockLaw_iff]
  exact fun h => hnx (h (by decide))

end HarlinKernel.Spinlock
