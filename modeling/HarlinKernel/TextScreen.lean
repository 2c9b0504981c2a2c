import Mathlib.Tactic

/-! The text screen of `gpu/screen.c` against an unbounded grid of characters. The hardware cursor
that `update_cursor` sets is left out. -/
namespace HarlinKernel.TextScreen

open Function (update update_of_ne update_self)
def screenWidth : ℕ := 80
def screenHeight : ℕ := 25

/-- `(0x07 << 8) | ' '` -/
def blank : UInt16 := 0x0720

/-- `(0x0F << 8) | c`, where a negative `char` is extended by its sign. -/
def cell (c : UInt8) : UInt16 := (if c < 128 then 0x0F00 else 0xFF00) ||| c.toUInt16

structure Screen where
  video : ℕ → UInt16
  cursorX : ℕ
  cursorY : ℕ

/-- The first loop of `screen_scroll`, on its first `n` cells. -/
def copyUp (video : ℕ → UInt16) : ℕ → ℕ → UInt16
  | 0 => video
  | n+1 => update (copyUp video n) n (copyUp video n (n+screenWidth))

/-- Blanks in the `n` cells from `i` on. -/
def clearCells (video : ℕ → UInt16) (i : ℕ) : ℕ → ℕ → UInt16
  | 0 => video
  | n+1 => update (clearCells video i n) (i+n) blank

def screenScroll (s : Screen) : Screen :=
  let last := (screenHeight-1)*screenWidth
  { s with video := clearCells (copyUp s.video last) last screenWidth }

def screenClear (s : Screen) : Screen := ⟨clearCells s.video 0 (screenWidth*screenHeight),0,0⟩

/-- The start of the next line, at the bottom after a scroll. -/
def nextLine (s : Screen) : Screen :=
  let s := { s with cursorX := 0, cursorY := s.cursorY+1 }
  if screenHeight ≤ s.cursorY then screenScroll { s with cursorY := screenHeight-1 } else s

def newline : UInt8 := 0x0A
def backspace : UInt8 := 0x08

def screenPutChar (s : Screen) (c : UInt8) : Screen :=
  if c = newline then nextLine s
  else if c = backspace then
    if 0 < s.cursorX then
      { s with
        cursorX := s.cursorX-1
        video := update s.video (s.cursorY*screenWidth+(s.cursorX-1)) blank }
    else s
  else
    let s := { s with
      video := update s.video (s.cursorY*screenWidth+s.cursorX) (cell c)
      cursorX := s.cursorX+1 }
    if screenWidth ≤ s.cursorX then nextLine s else s

def screenPuts (s : Screen) : List UInt8 → Screen
  | [] => s
  | c :: cs => if c = 0 then s else screenPuts (screenPutChar s c) cs

/-- Characters laid out in rows without end, and the position behind the last one. -/
structure Layout where
  grid : ℕ → ℕ → Option UInt8
  row : ℕ
  col : ℕ

def Layout.put (g : Layout) (c : UInt8) : Layout :=
  if c = newline then { g with row := g.row+1, col := 0 }
  else
    let grid := fun r x => if r = g.row ∧ x = g.col then some c else g.grid r x
    if g.col+1 = 80 then ⟨grid,g.row+1,0⟩ else ⟨grid,g.row,g.col+1⟩

def layout (str : List UInt8) : Layout := str.foldl Layout.put ⟨fun _ _ => none,0,0⟩

def shown : Option UInt8 → UInt16
  | some c => 0x0F00 ||| c.toUInt16
  | none => blank

/-- The screen shows the 25 rows of the layout from `row-24` on, or from the first row. -/
structure Rows (s : Screen) (g : Layout) : Prop where
  y : s.cursorY = min g.row 24
  cells : ∀ y < 25, ∀ x < 80, s.video (y*80+x) = shown (g.grid (g.row-24+y) x)
  below : ∀ r > g.row, ∀ x, g.grid r x = none

/-- The cursor is at the end of the layout as well. -/
structure Shows (s : Screen) (g : Layout) : Prop extends Rows s g where
  x : s.cursorX = g.col
  col : g.col < 80

section Lines

variable {s : Screen} {g : Layout} {video : ℕ → UInt16}

lemma copyUp_apply (n i : ℕ) :
    copyUp video n i = if i < n then video (i+screenWidth) else video i := by
  induction n generalizing i with
  | zero => simp [copyUp]
  | succ n ih =>
    rw [copyUp]
    by_cases hi : i = n
    · subst hi
      simp [ih,screenWidth]
    · rw [update_of_ne hi,ih]
      have hiff : i < n+1 ↔ i < n := by omega
      simp [hiff]

lemma clearCells_apply (start n i : ℕ) :
    clearCells video start n i = if start ≤ i ∧ i < start+n then blank else video i := by
  induction n with
  | zero =>
    rw [if_neg (by omega)]
    rfl
  | succ n ih =>
    rw [clearCells]
    by_cases hi : i = start+n
    · rw [hi,update_self,if_pos (by omega)]
    · rw [update_of_ne hi,ih]
      have hiff : (start ≤ i ∧ i < start+(n+1)) ↔ (start ≤ i ∧ i < start+n) := by omega
      simp [hiff]

lemma Shows.clear (s : Screen) : Shows (screenClear s) (layout []) := by
  refine ⟨⟨rfl,fun y hy x hx => ?_,fun _ _ _ => rfl⟩,rfl,by decide⟩
  simp only [screenClear,clearCells_apply,screenWidth,screenHeight]
  rw [if_pos (by omega)]
  rfl

lemma Rows.nextLine (h : Rows s g) : Shows (nextLine s) { g with row := g.row+1, col := 0 } := by
  have hy := h.y
  have hbl : ∀ r > g.row+1, ∀ x, g.grid r x = none := fun r hr => h.below r (by omega)
  rw [TextScreen.nextLine]
  by_cases hrow : g.row < 24
  · rw [if_neg (by simp only [screenHeight]; omega)]
    refine ⟨⟨by simp only; omega,fun y hy x hx => ?_,hbl⟩,rfl,Nat.zero_lt_succ _⟩
    have htop : g.row+1-24 = g.row-24 := by omega
    rw [htop]
    exact h.cells y hy x hx
  rw [if_pos (by simp only [screenHeight]; omega),screenScroll]
  refine ⟨⟨by simp only [screenHeight]; omega,fun y hy x hx => ?_,hbl⟩,rfl,Nat.zero_lt_succ _⟩
  simp only [clearCells_apply,copyUp_apply,screenHeight,screenWidth]
  by_cases hls : y = 24
  · rw [if_pos (by omega),h.below (g.row+1-24+y) (by omega)]
    rfl
  · have hcl := h.cells (y+1) (by omega) x hx
    rw [if_neg (by omega),if_pos (by omega)]
    rw [show y*80+x+80 = (y+1)*80+x by omega,hcl,
      show g.row-24+(y+1) = g.row+1-24+y by omega]

lemma Shows.put (h : Shows s g) {c : UInt8} (hc : c < 128) (hb : c ≠ backspace) :
    Shows (screenPutChar s c) (g.put c) := by
  have hy := h.y
  have hx := h.x
  have hcol := h.col
  rw [screenPutChar,Layout.put]
  by_cases hn : c = newline
  · rw [if_pos hn,if_pos hn]
    exact h.toRows.nextLine
  rw [if_neg hn,if_neg hn,if_neg hb]
  -- the character is in the row and column of the cursor
  have hrw : Rows
      ⟨update s.video (s.cursorY*screenWidth+s.cursorX) (cell c),s.cursorX+1,s.cursorY⟩
      ⟨fun r x => if r = g.row ∧ x = g.col then some c else g.grid r x,g.row,g.col+1⟩ := by
    refine ⟨hy,fun y hy' x hx' => ?_,fun r hr x => ?_⟩
    · by_cases hat : y = s.cursorY ∧ x = g.col
      · rw [hat.1,hat.2,← hx]
        simp only [screenWidth,update_self]
        rw [if_pos ⟨by omega,trivial⟩,shown,cell,if_pos hc]
      · have hne : y*80+x ≠ s.cursorY*screenWidth+s.cursorX := by
          rw [screenWidth]
          omega
        simp only [update_of_ne hne]
        rw [if_neg (by omega),h.cells y hy' x hx']
    · exact (if_neg fun hat => absurd hat.1 (Nat.ne_of_gt hr)).trans (h.below r hr x)
  simp only [screenWidth,hx] at hrw ⊢
  by_cases hwr : g.col+1 = 80
  · rw [if_pos hwr,if_pos (by omega)]
    exact hrw.nextLine
  · rw [if_neg hwr,if_neg (by omega)]
    exact ⟨hrw,rfl,by simp only; omega⟩

lemma Shows.puts (h : Shows s g) {str : List UInt8}
    (hstr : ∀ c ∈ str, c ≠ 0 ∧ c < 128 ∧ c ≠ backspace) :
    Shows (screenPuts s str) (str.foldl Layout.put g) := by
  induction str generalizing s g with
  | nil => exact h
  | cons c str ih =>
    obtain ⟨⟨hne,hlt,hb⟩,hrs⟩ := List.forall_mem_cons.mp hstr
    rw [screenPuts,if_neg hne]
    exact ih (h.put hlt hb) hrs

end Lines

/-- After `screen_clear` a string of characters 1 to 127 without backspaces is shown as the last
25 rows of its layout, with the cursor at its end. -/
theorem screen_shows_layout (s : Screen) (str : List UInt8)
    (hstr : ∀ c ∈ str, c ≠ 0 ∧ c < 128 ∧ c ≠ backspace) :
    Shows (screenPuts (screenClear s) str) (layout str) := (Shows.clear s).puts hstr

theorem screen_shows_layout_line :
    Shows (screenPuts (screenClear ⟨fun _ => 0,3,7⟩) [0x68,newline,0x69])
      (layout [0x68,newline,0x69]) :=
  screen_shows_layout _ _ (by decide +kernel)

end HarlinKernel.TextScreen
