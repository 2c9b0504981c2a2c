import Mathlib.Tactic

/-! Records in a byte memory: little-endian loads and stores, records whose fields lie at
fixed offsets, doubly linked lists of records, and runs of adjacent pieces of memory. -/
namespace HarlinKernel.RecordMemory

abbrev Memory := ℕ → UInt8

def load (m : Memory) (a : ℕ) : ℕ → ℕ
  | 0 => 0
  | n+1 => (m a).toNat+256*load m (a+1) n

def store (m : Memory) (a v : ℕ) : ℕ → Memory
  | 0 => m
  | n+1 => Function.update (store m (a+1) (v / 256) n) a (UInt8.ofNat v)

section Bytes

variable {m m' : Memory} {a b v n k : ℕ}

lemma store_outside (h : b < a ∨ a+n ≤ b) : store m a v n b = m b := by
  induction n generalizing a v with
  | zero => rfl
  | succ n ih =>
    have hne : b ≠ a := by omega
    rw [store,Function.update_of_ne hne]
    apply ih
    omega

lemma load_congr (h : ∀ x, a ≤ x → x < a+n → m x = m' x) : load m a n = load m' a n := by
  induction n generalizing a with
  | zero => rfl
  | succ n ih =>
    have hhd : m a = m' a := h a le_rfl (by omega)
    have htl : load m (a+1) n = load m' (a+1) n := by
      apply ih
      intro x hlow hhg
      exact h x (by omega) (by omega)
    rw [load,load,hhd,htl]

lemma load_store_apart (h : a+n ≤ b ∨ b+k ≤ a) : load (store m a v n) b k = load m b k := by
  apply load_congr
  intro x hlow hhg
  apply store_outside
  omega

lemma load_lt (m : Memory) (a n : ℕ) : load m a n < 256^n := by
  induction n generalizing a with
  | zero => exact Nat.one_pos
  | succ n ih =>
    have hby := (m a).toNat_lt
    have htl := ih (a+1)
    rw [load,pow_succ']
    omega

lemma load_store_same : load (store m a v n) a n = v % 256^n := by
  induction n generalizing a v with
  | zero => simp [load,Nat.mod_one]
  | succ n ih =>
    have htl : load (store m a v (n+1)) (a+1) n = load (store m (a+1) (v / 256) n) (a+1) n := by
      apply load_congr
      intro x hlow _
      rw [store,Function.update_of_ne (by omega)]
    have hby : (UInt8.ofNat v).toNat = v % 256 := by simp
    rw [load,htl,ih,store,Function.update_self,hby,pow_succ',Nat.mod_mul]

lemma load_add (m : Memory) (a n k : ℕ) : load m a (n+k) = load m a n+256^n*load m (a+n) k := by
  induction n generalizing a with
  | zero => simp [load]
  | succ n ih =>
    rw [Nat.add_right_comm,load,load,ih,Nat.add_right_comm a 1 n,Nat.add_assoc a n 1,pow_succ']
    ring

lemma load_eq_zero : load m a n = 0 ↔ ∀ i < n, m (a+i) = 0 := by
  induction n generalizing a with
  | zero => simp [load]
  | succ n ih =>
    have hby : (m a).toNat = 0 ↔ m a = 0 := by
      rw [← UInt8.toNat_inj]
      rfl
    rw [load,Nat.add_eq_zero_iff,Nat.mul_eq_zero,or_iff_right (by decide),ih,hby]
    constructor
    · rintro ⟨hhd,htl⟩ i hi
      cases i with
      | zero => exact hhd
      | succ i =>
        have := htl i (by omega)
        rwa [Nat.add_right_comm] at this
    · intro h
      refine ⟨h 0 (by omega),fun i hi => ?_⟩
      have := h (i+1) (by omega)
      rwa [Nat.add_right_comm]

lemma load_byte {i : ℕ} (h : i < n) : load m a n / 256^i % 256 = (m (a+i)).toNat := by
  induction n generalizing a i with
  | zero => exact absurd h (Nat.not_lt_zero i)
  | succ n ih =>
    have hby := (m a).toNat_lt
    cases i with
    | zero =>
      rw [load,pow_zero,Nat.div_one]
      change ((m a).toNat+256*load m (a+1) n) % 256 = (m a).toNat
      omega
    | succ i =>
      have hdv : ((m a).toNat+256*load m (a+1) n) / 256 = load m (a+1) n := by omega
      rw [load,pow_succ',← Nat.div_div_eq_div_mul,hdv,ih (by omega),Nat.add_assoc,
        Nat.add_comm 1]

lemma store_inside {i : ℕ} (h : i < n) : store m a v n (a+i) = UInt8.ofNat (v / 256^i) := by
  induction n generalizing a v i with
  | zero => exact absurd h (Nat.not_lt_zero i)
  | succ n ih =>
    cases i with
    | zero => simp [store]
    | succ i =>
      rw [store,Function.update_of_ne (by omega),← Nat.add_assoc,Nat.add_right_comm,
        ih (by omega),pow_succ',Nat.div_div_eq_div_mul]

end Bytes

/-- Fields of a record of `size` bytes, at offsets that keep them apart. -/
structure Layout (F : Type*) where
  offset : F → ℕ
  width : F → ℕ
  size : ℕ
  inside : ∀ f, offset f+width f ≤ size
  apart : ∀ f g, f ≠ g → offset f+width f ≤ offset g ∨ offset g+width g ≤ offset f

namespace Layout

variable {F : Type*} (L : Layout F) {m m' : Memory} {a b v : ℕ} {f : F}

/-- The fields of the record at an address. -/
def record (m : Memory) (a : ℕ) (f : F) : ℕ := load m (a+L.offset f) (L.width f)

def set (m : Memory) (a : ℕ) (f : F) (v : ℕ) : Memory := store m (a+L.offset f) v (L.width f)

lemma record_congr (h : ∀ x, a ≤ x → x < a+L.size → m x = m' x) :
    L.record m a = L.record m' a := by
  funext f
  apply load_congr
  intro x hlow hhg
  have hin := L.inside f
  exact h x (by omega) (by omega)

lemma record_set [DecidableEq F] :
    L.record (L.set m a f v) a = Function.update (L.record m a) f (v % 256^L.width f) := by
  funext g
  by_cases hg : g = f
  · subst hg
    rw [Function.update_self]
    exact load_store_same
  · rw [Function.update_of_ne hg]
    apply load_store_apart
    have hap := L.apart f g (Ne.symm hg)
    omega

lemma set_outside {x : ℕ} (h : x < a ∨ a+L.size ≤ x) : L.set m a f v x = m x := by
  apply store_outside
  have hin := L.inside f
  omega

lemma record_set_apart (h : a+L.size ≤ b ∨ b+L.size ≤ a) :
    L.record (L.set m a f v) b = L.record m b := by
  apply L.record_congr
  intro x hlow hhg
  apply L.set_outside
  omega

end Layout

section Chain

variable {B R : Type*} (addr : B → ℕ) (enc : B → ℕ → ℕ → R)

/-- The address of the first record, or where the list continues. -/
def first : List B → ℕ → ℕ
  | [], next => next
  | b :: _, _ => addr b

/-- The address of the last record, or where the list comes from. -/
def last : ℕ → List B → ℕ
  | prev, [] => prev
  | _, b :: bs => last (addr b) bs

/-- The memory, seen through `view`, holds the listed records; each carries the addresses of
its two neighbours, and the outer neighbours are `prev` and `next`. -/
def Chain (view : ℕ → R) : ℕ → List B → ℕ → Prop
  | _, [], _ => True
  | prev, b :: bs, next =>
    view (addr b) = enc b prev (first addr bs next) ∧ Chain view (addr b) bs next

variable {addr enc} {view view' : ℕ → R} {prev next : ℕ} {xs ys : List B}

lemma first_append : first addr (xs ++ ys) next = first addr xs (first addr ys next) := by
  cases xs <;> rfl

lemma chain_append :
    Chain addr enc view prev (xs ++ ys) next ↔
    Chain addr enc view prev xs (first addr ys next) ∧
      Chain addr enc view (last addr prev xs) ys next := by
  induction xs generalizing prev with
  | nil => simp [Chain,last]
  | cons b bs ih => simp [Chain,last,first_append,ih,and_assoc]

lemma Chain.congr (h : Chain addr enc view prev xs next)
    (hvw : ∀ b ∈ xs, view' (addr b) = view (addr b)) : Chain addr enc view' prev xs next := by
  induction xs generalizing prev with
  | nil => trivial
  | cons b bs ih =>
    obtain ⟨hb,hbs⟩ := h
    refine ⟨?_,ih hbs fun c hc => hvw c (.tail b hc)⟩
    rw [hvw b (.head bs)]
    exact hb

lemma last_append_singleton (b : B) : last addr prev (xs ++ [b]) = addr b := by
  induction xs generalizing prev with
  | nil => rfl
  | cons c cs ih => exact ih

end Chain

section Tiles

variable {B : Type*} (start len : B → ℕ)

/-- Pieces that follow each other from one address to another without gaps. -/
def Tiles : ℕ → List B → ℕ → Prop
  | a, [], e => a = e
  | a, b :: bs, e => start b = a ∧ Tiles (a+len b) bs e

variable {start len} {a e : ℕ} {xs ys : List B}

lemma tiles_append :
    Tiles start len a (xs ++ ys) e ↔ ∃ c, Tiles start len a xs c ∧ Tiles start len c ys e := by
  induction xs generalizing a with
  | nil => simp [Tiles]
  | cons b bs ih => simp [Tiles,ih,and_assoc]

lemma Tiles.le (h : Tiles start len a xs e) : a ≤ e := by
  induction xs generalizing a with
  | nil => exact le_of_eq h
  | cons b bs ih => exact (Nat.le_add_right a (len b)).trans (ih h.2)

lemma Tiles.bounds (h : Tiles start len a xs e) {b : B} (hb : b ∈ xs) :
    a ≤ start b ∧ start b+len b ≤ e := by
  induction xs generalizing a with
  | nil => exact absurd hb (List.not_mem_nil)
  | cons c cs ih =>
    obtain ⟨hc,hcs⟩ := h
    rcases List.mem_cons.1 hb with rfl | hb
    · exact ⟨hc.ge,hc ▸ hcs.le⟩
    · have hbn := ih hcs hb
      omega

lemma Tiles.pairwise (h : Tiles start len a xs e) :
    xs.Pairwise fun x y => start x+len x ≤ start y := by
  induction xs generalizing a with
  | nil => exact List.Pairwise.nil
  | cons b bs ih =>
    obtain ⟨hb,hbs⟩ := h
    refine List.Pairwise.cons ?_ (ih hbs)
    intro c hc
    rw [hb]
    exact (hbs.bounds hc).1

end Tiles

end HarlinKernel.RecordMemory
