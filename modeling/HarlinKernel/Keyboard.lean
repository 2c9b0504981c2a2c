import HarlinKernel.DecimalText
import HarlinKernel.RingBuffer
import HarlinKernel.TransitionSystem

/-! The keyboard driver of `drv/keyboard.c`: the interrupt handler tracks the modifier keys and
queues scancodes in a ring of 256 slots, and `keyboard_poll` takes them out. The LED commands of
the handler are left out. -/
namespace HarlinKernel.Keyboard

open DecimalText RingBuffer TransitionSystem

structure Modifiers where
  shiftCount : ℤ
  ctrlCount : ℤ
  altCount : ℤ
  capsLock : Bool
  numLock : Bool
  scrollLock : Bool

def released : Modifiers := ⟨0,0,0,false,false,false⟩

/-- `if (count > 0) count--` -/
def countDown (count : ℤ) : ℤ := if 0 < count then count-1 else count

/-- The branches of the handler on the scancodes of modifier keys. -/
def Modifiers.track (m : Modifiers) (scancode : UInt8) : Modifiers :=
  if scancode = 0x2A ∨ scancode = 0x36 then { m with shiftCount := toS32 (m.shiftCount+1) }
  else if scancode = 0xAA ∨ scancode = 0xB6 then { m with shiftCount := countDown m.shiftCount }
  else if scancode = 0x1D then { m with ctrlCount := toS32 (m.ctrlCount+1) }
  else if scancode = 0x9D then { m with ctrlCount := countDown m.ctrlCount }
  else if scancode = 0x38 then { m with altCount := toS32 (m.altCount+1) }
  else if scancode = 0xB8 then { m with altCount := countDown m.altCount }
  else if scancode = 0x3A then { m with capsLock := !m.capsLock }
  else if scancode = 0x45 then { m with numLock := !m.numLock }
  else if scancode = 0x46 then { m with scrollLock := !m.scrollLock }
  else m

structure State where
  modifiers : Modifiers
  keybuf : ℕ → UInt8
  keybufHead : ℕ
  keybufTail : ℕ
  keybufOverflow : ℤ

def keyboardInit (k : State) : State := ⟨released,k.keybuf,0,0,0⟩

def keyboardIrqHandler (k : State) (scancode : UInt8) : State :=
  let next := (k.keybufTail+1) % 256
  let k := { k with modifiers := k.modifiers.track scancode }
  if next ≠ k.keybufHead then
    { k with keybuf := Function.update k.keybuf k.keybufTail scancode, keybufTail := next }
  else { k with keybufOverflow := toS32 (k.keybufOverflow+1) }

def keyboardPoll (k : State) : UInt8 × State :=
  if k.keybufHead = k.keybufTail then (0,k)
  else (k.keybuf k.keybufHead,{ k with keybufHead := (k.keybufHead+1) % 256 })

def keyboardOverflowCount (k : State) : ℤ := k.keybufOverflow

inductive Call
  | irq (scancode : UInt8)
  | poll

/-- Whether the handler moved the tail, and what a poll of a queue with data returned. -/
inductive Reply
  | stored
  | dropped
  | empty
  | code (scancode : UInt8)
  deriving DecidableEq

def run (k : State) : Call → Reply × State
  | .irq c =>
    let t := keyboardIrqHandler k c
    (if t.keybufTail = k.keybufTail then .dropped else .stored,t)
  | .poll =>
    let r := keyboardPoll k
    (if k.keybufHead = k.keybufTail then .empty else .code r.1,r.2)

/-- The runs after `keyboard_init`, over any contents of the buffer. -/
def keyboardRuns : System State (Call × Reply) := calls (fun k => ∃ k₀, keyboardInit k₀ = k) run

def interrupts (l : List (Call × Reply)) : List UInt8 :=
  l.filterMap fun | (.irq c,_) => some c | _ => none

def accepted (l : List (Call × Reply)) : List UInt8 :=
  l.filterMap fun | (.irq c,.stored) => some c | _ => none

def polled (l : List (Call × Reply)) : List UInt8 :=
  l.filterMap fun | (.poll,.code c) => some c | _ => none

def State.count (k : State) : ℕ := (k.keybufTail+256-k.keybufHead) % 256

/-- The scancodes in the ring, oldest first. -/
def State.queued (k : State) : List UInt8 := contents 256 k.keybuf k.keybufHead k.count

section Queue

variable {k : State} {l : List (Call × Reply)}

/-- The state of a run against its history. -/
structure Consistent (l : List (Call × Reply)) (k : State) : Prop where
  head : k.keybufHead < 256
  tail : k.keybufTail < 256
  queue : polled l ++ k.queued = accepted l
  overflow : k.keybufOverflow = toS32 ((interrupts l).length-(accepted l).length)
  modifiers : k.modifiers = (interrupts l).foldl Modifiers.track released

lemma Consistent.next_eq_head_iff (h : Consistent l k) :
    (k.keybufTail+1) % 256 = k.keybufHead ↔ k.count = 255 := by
  have hhd := h.head
  have htl := h.tail
  rw [State.count]
  omega

/-- A scancode is dropped exactly when the ring is full; the modifiers are tracked all the same. -/
theorem Consistent.run_irq (h : Consistent l k) (c : UInt8) :
    run k (.irq c) =
      if k.count = 255 then (.dropped,{ k with
        modifiers := k.modifiers.track c
        keybufOverflow := toS32 (k.keybufOverflow+1) })
      else (.stored,{ k with
        modifiers := k.modifiers.track c
        keybuf := Function.update k.keybuf k.keybufTail c
        keybufTail := (k.keybufTail+1) % 256 }) := by
  have hmv : (k.keybufTail+1) % 256 ≠ k.keybufTail := by omega
  rw [run,keyboardIrqHandler]
  by_cases hfl : (k.keybufTail+1) % 256 = k.keybufHead
  · simp [hfl,h.next_eq_head_iff.mp hfl]
  · simp [hfl,mt h.next_eq_head_iff.mpr hfl,hmv]

lemma Consistent.irq (h : Consistent l k) (c : UInt8) :
    Consistent (l ++ [(.irq c,(run k (.irq c)).1)]) (run k (.irq c)).2 := by
  have hhd := h.head
  have htl := h.tail
  have hqu := h.queue
  have hmd : (interrupts l ++ [c]).foldl Modifiers.track released = k.modifiers.track c := by
    rw [List.foldl_append,← h.modifiers]
    rfl
  rw [h.run_irq]
  split_ifs with hfl
  · refine ⟨hhd,htl,?_,?_,?_⟩
    · simpa [polled,accepted,State.queued,State.count] using hqu
    · simp [accepted,interrupts,h.overflow,toS32]
      omega
    · simpa [interrupts] using hmd.symm
  refine ⟨hhd,Nat.mod_lt _ (by decide),?_,?_,?_⟩
  · have hcn : ((k.keybufTail+1) % 256+256-k.keybufHead) % 256 = k.count+1 := by
      rw [State.count] at hfl ⊢
      omega
    have hlt : k.count < 256 := Nat.mod_lt _ (by decide)
    have hsl : k.keybufTail = (k.keybufHead+k.count) % 256 := by
      rw [State.count]
      omega
    have hps := contents_push k.keybuf k.keybufHead hlt c
    rw [← hsl] at hps
    simp only [State.queued] at hqu ⊢
    rw [State.count,hcn,hps]
    simp only [polled,accepted] at hqu ⊢
    simp [← hqu]
  · simp [accepted,interrupts,h.overflow,toS32]
  · simpa [interrupts] using hmd.symm

lemma Consistent.poll (h : Consistent l k) :
    Consistent (l ++ [(.poll,(run k .poll).1)]) (run k .poll).2 := by
  have hhd := h.head
  have htl := h.tail
  rw [run,keyboardPoll]
  by_cases hem : k.keybufHead = k.keybufTail
  · rw [if_pos hem,if_pos hem]
    obtain ⟨-,-,hqu,hov,hmd⟩ := h
    exact ⟨hhd,htl,by simpa [polled,accepted] using hqu,
      by simpa [accepted,interrupts] using hov,by simpa [interrupts] using hmd⟩
  rw [if_neg hem,if_neg hem]
  refine ⟨Nat.mod_lt _ (by decide),htl,?_,by simpa [accepted,interrupts] using h.overflow,
    by simpa [interrupts] using h.modifiers⟩
  have hcn : k.count = (k.keybufTail+256-(k.keybufHead+1) % 256) % 256+1 := by
    rw [State.count]
    omega
  have hqu := h.queue
  rw [State.queued,hcn,contents_succ_first,Nat.mod_eq_of_lt hhd] at hqu
  simpa [polled,accepted,State.queued,State.count] using hqu

lemma consistent_of_trace (h : Trace keyboardRuns l k) : Consistent l k := by
  refine h.invariant Consistent ?_ ?_
  · rintro _ ⟨k,rfl⟩
    exact ⟨Nat.zero_lt_succ _,Nat.zero_lt_succ _,
      by simp [polled,accepted,keyboardInit,State.queued,State.count],rfl,rfl⟩
  · rintro l k ⟨c,r⟩ t hk hst
    have hrun : run k c = (r,t) := hst
    cases c with
    | irq c => simpa [hrun] using hk.irq c
    | poll => simpa [hrun] using hk.poll

lemma accepted_length_le (l : List (Call × Reply)) :
    (accepted l).length ≤ (interrupts l).length := by
  induction l with
  | nil => rfl
  | cons a l ih =>
    obtain ⟨_ | _,_ | _ | _ | _⟩ := a <;> simp [accepted,interrupts] at ih ⊢ <;> omega

/-- Polls return the accepted scancodes in order, only a ring of 255 drops one, each interrupt is
accepted or counted, and all of them are seen by the modifiers. -/
theorem keyboard_queue_history (h : Trace keyboardRuns l k) (hn : (interrupts l).length < 2^31) :
    polled l ++ k.queued = accepted l ∧
      (∀ c, (run k (.irq c)).1 = .dropped → k.queued.length = 255) ∧
      (accepted l).length+keyboardOverflowCount k = (interrupts l).length ∧
      k.modifiers = (interrupts l).foldl Modifiers.track released := by
  have hk := consistent_of_trace h
  refine ⟨hk.queue,fun c hdr => ?_,?_,hk.modifiers⟩
  · rw [hk.run_irq] at hdr
    rw [State.queued,contents_length]
    by_contra hrm
    simp [hrm] at hdr
  · have hle := accepted_length_le l
    rw [keyboardOverflowCount,hk.overflow,toS32]
    omega

/-- The left shift key and `A` are pressed, the shift is taken and `A` let go of. -/
theorem keyboard_queue_history_shift :
    ∃ k,
      Trace keyboardRuns
        [(.irq 0x2A,.stored),(.irq 0x1E,.stored),(.poll,.code 0x2A), (.irq 0x9E,.stored)] k ∧
      [0x2A] ++ k.queued = [0x2A,0x1E,0x9E] ∧ keyboardOverflowCount k = 0 ∧
      k.modifiers = { released with shiftCount := 1 } := by
  have hin : keyboardRuns.init (keyboardInit ⟨released,fun _ => 0,0,0,0⟩) := ⟨_,rfl⟩
  have hrun : Trace (keyboardRuns.guarded fun _ _ => True) _ _ :=
    trace_of_calls hin [.irq 0x2A,.irq 0x1E,.poll,.irq 0x9E]
      ⟨trivial,trivial,trivial,trivial,trivial⟩
  rw [System.guarded_true] at hrun
  obtain ⟨hqu,-,-,hmd⟩ := keyboard_queue_history hrun (by decide)
  exact ⟨_,hrun,hqu,rfl,hmd⟩

end Queue

end HarlinKernel.Keyboard
