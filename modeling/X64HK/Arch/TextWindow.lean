import Mathlib.Tactic.SplitIfs
import X64HK.Config
import X64HK.Lib.ByteMemory
import X64HK.Lib.Terminal

/-!
# Text windows

A model of `Kernel/Arch/TextWindow.cpp` over the text buffer of
`Kernel/Arch/Cga.cpp`.  A window is a rectangle of the screen with a cursor of
its own.  `Print` writes at the cursor, wraps at the right edge and scrolls the
window when it runs past the bottom.

A text is a list of bytes that a zero byte may end before its last one.

* `fillRow_apply`, `copyRows_apply` and `scroll_apply` say what happens to
  each cell.
* `Displays` ties the cells and the cursor to the reference terminal of
  `Lib/Terminal.lean`.  `Displays.add` and `Displays.newRow` are its two steps.
* `text_window_is_terminal` is about any sequence of `Print` calls.
* `putChars_staysInside` says what `Print` leaves alone, and `mem_printFrom` which bytes of
  its text it reads.
-/

namespace X64HK

namespace Cga

def ROWS : Nat := 25
def COLUMNS : Nat := 80

/-- `Cga::Cell`. -/
structure Cell where
  character : BitVec 8
  cellAttribute : BitVec 8
  deriving DecidableEq, Repr

/-- `Attribute()`: light grey on black. -/
def DEFAULT_ATTRIBUTE : BitVec 8 := 7

/-- The text buffer and the cursor of the hardware. -/
structure Screen where
  cells : Nat → Cell
  cursor : Nat

def toOffset (column row : Nat) : Nat := row * COLUMNS + column

def setCursor (s : Screen) (column row : Nat) : Screen :=
  { s with cursor := toOffset column row % 2 ^ 16 }

/-- `Cga::Show`. -/
def showCell (s : Screen) (column row : Nat) (cell : Cell) : Screen :=
  if column ≥ COLUMNS ∨ row ≥ ROWS then s
  else
    { s with cells := fun offset => if offset = toOffset column row then cell else s.cells offset }

/-- `Cga::Get`. -/
def get (s : Screen) (column row : Nat) : Cell :=
  if column ≥ COLUMNS ∨ row ≥ ROWS then ⟨32, DEFAULT_ATTRIBUTE⟩ else s.cells (toOffset column row)

variable {s : Screen} {column row : Nat} {cell : Cell}

theorem showCell_apply (hcolumn : column < COLUMNS) (hrow : row < ROWS) (offset : Nat) :
    (showCell s column row cell).cells offset =
      if offset / 80 = row ∧ offset % 80 = column then cell else s.cells offset := by
  have hcolumn' : column < 80 := hcolumn
  have hoffset : offset = toOffset column row ↔ offset / 80 = row ∧ offset % 80 = column := by
    rw [toOffset, show COLUMNS = 80 from rfl]
    omega
  rw [showCell, if_neg (by omega)]
  simp only [hoffset]

theorem get_eq (hcolumn : column < COLUMNS) (hrow : row < ROWS) :
    get s column row = s.cells (row * 80 + column) :=
  if_neg (by omega)

end Cga

open Cga

/-- The rectangle of a window.  The upper bounds are exclusive. -/
structure Area where
  fromColumn : Nat
  toColumn : Nat
  fromRow : Nat
  toRow : Nat
  deriving DecidableEq, Repr

namespace Area

def width (area : Area) : Nat := area.toColumn - area.fromColumn
def height (area : Area) : Nat := area.toRow - area.fromRow

def absoluteColumn (area : Area) (column : Nat) : Nat := area.fromColumn + column
def absoluteRow (area : Area) (row : Nat) : Nat := area.fromRow + row

/-- The area has cells and is inside the screen. -/
structure Inside (area : Area) : Prop where
  columns : area.fromColumn < area.toColumn
  rows : area.fromRow < area.toRow
  right : area.toColumn ≤ COLUMNS
  bottom : area.toRow ≤ ROWS

/-- The cell at this offset belongs to the area. -/
def Holds (area : Area) (offset : Nat) : Prop :=
  area.fromColumn ≤ offset % 80 ∧ offset % 80 < area.toColumn ∧
    area.fromRow ≤ offset / 80 ∧ offset / 80 < area.toRow

instance (area : Area) (offset : Nat) : Decidable (area.Holds offset) :=
  inferInstanceAs (Decidable (_ ∧ _))

/-- The inner loop of `Scroll`, which copies a row to the one above. -/
def copyRow (area : Area) (s : Screen) (row : Nat) : Screen :=
  (List.range area.width).foldl (fun s column =>
    showCell s (area.absoluteColumn column) (area.absoluteRow (row - 1))
      (get s (area.absoluteColumn column) (area.absoluteRow row))) s

/-- The loop over the columns of a row that shows the same cell everywhere. -/
def fillRow (area : Area) (cell : Cell) (s : Screen) (row : Nat) : Screen :=
  (List.range area.width).foldl (fun s column =>
    showCell s (area.absoluteColumn column) (area.absoluteRow row) cell) s

/-- `TextWindow::Scroll`. -/
def scroll (area : Area) (attr : BitVec 8) (s : Screen) : Screen :=
  area.fillRow ⟨32, attr⟩ ((List.range' 1 (area.height - 1)).foldl area.copyRow s) (area.height - 1)

/-- The loop of `TextWindow::Reset`. -/
def fill (area : Area) (cell : Cell) (s : Screen) : Screen :=
  (List.range area.height).foldl (area.fillRow cell) s

end Area

/-- `TextWindow`. -/
structure TextWindow extends Area where
  cursorColumn : Nat := 0
  cursorRow : Nat := 0
  isActive : Bool := false
  deriving DecidableEq, Repr

namespace TextWindow

def NEWLINE : BitVec 8 := 10

def setPosition (window : TextWindow) (s : Screen) (column row : Nat) : TextWindow × Screen :=
  ({ window with cursorColumn := column, cursorRow := row },
    if window.isActive then
      setCursor s (window.absoluteColumn column) (window.absoluteRow row)
    else s)

/-- The end of the body of the loop of `Print`. -/
def scrollIfBelow (attr : BitVec 8) (window : TextWindow) (s : Screen) : TextWindow × Screen :=
  if window.cursorRow ≥ window.height then
    ({ window with cursorRow := window.height - 1 }, window.scroll attr s)
  else (window, s)

/-- The body of the loop of `Print`. -/
def putChar (attr : BitVec 8) (window : TextWindow) (s : Screen) (c : BitVec 8) :
    TextWindow × Screen :=
  if c = NEWLINE then
    scrollIfBelow attr { window with cursorColumn := 0, cursorRow := window.cursorRow + 1 } s
  else
    let shown := showCell s (window.absoluteColumn window.cursorColumn)
      (window.absoluteRow window.cursorRow) ⟨c, attr⟩
    if window.cursorColumn + 1 ≥ window.width then
      scrollIfBelow attr { window with cursorColumn := 0, cursorRow := window.cursorRow + 1 } shown
    else scrollIfBelow attr { window with cursorColumn := window.cursorColumn + 1 } shown

/-- The loop of `Print`. -/
def printLoop (attr : BitVec 8) :
    TextWindow × Screen → List (BitVec 8) → Nat → TextWindow × Screen
  | state, c :: text, length + 1 =>
    if c = 0 then state else printLoop attr (putChar attr state.1 state.2 c) text length
  | state, _, _ => state

/-- `TextWindow::Print`. -/
def print (attr : BitVec 8) (state : TextWindow × Screen) (text : List (BitVec 8))
    (length : Nat) : TextWindow × Screen :=
  let printed := printLoop attr state text length
  setPosition printed.1 printed.2 printed.1.cursorColumn printed.1.cursorRow

/-- `TextWindow::Reset`. -/
def reset (fillCharacter attr : BitVec 8) (window : TextWindow) (s : Screen) :
    TextWindow × Screen :=
  setPosition window (window.fill ⟨fillCharacter, attr⟩ s) 0 0

end TextWindow

/-! ## Loops over cells -/

namespace Area

variable {area : Area} {s : Screen} {row : Nat} {cell : Cell}

/-- The cell is one of the first `n` of this row. -/
def InRow (area : Area) (n row offset : Nat) : Prop :=
  offset / 80 = area.fromRow + row ∧ area.fromColumn ≤ offset % 80 ∧
    offset % 80 < area.fromColumn + n

instance (area : Area) (n row offset : Nat) : Decidable (area.InRow n row offset) :=
  inferInstanceAs (Decidable (_ ∧ _))

theorem Inside.column_lt (h : area.Inside) {column : Nat} (hcolumn : column < area.width) :
    area.absoluteColumn column < COLUMNS := by
  have hright := h.right
  unfold width at hcolumn
  unfold absoluteColumn
  omega

theorem Inside.row_lt (h : area.Inside) (hrow : row < area.height) :
    area.absoluteRow row < ROWS := by
  have hbottom := h.bottom
  unfold height at hrow
  unfold absoluteRow
  omega

/-- The loop over a row, where what is shown next does not depend on what was. -/
theorem showRow_apply (h : area.Inside) (hrow : row < area.height) (value : Screen → Nat → Cell)
    (content : Nat → Cell)
    (hvalue : ∀ n < area.width, ∀ s' : Screen,
      (∀ offset, ¬area.InRow n row offset → s'.cells offset = s.cells offset) →
      value s' n = content (area.absoluteRow row * 80 + area.absoluteColumn n)) :
    ∀ n ≤ area.width, ∀ offset,
      ((List.range n).foldl (fun s column => showCell s (area.absoluteColumn column)
        (area.absoluteRow row) (value s column)) s).cells offset =
        if area.InRow n row offset then content offset else s.cells offset := by
  intro n
  induction n with
  | zero => exact fun _ offset => (if_neg (by unfold InRow; omega)).symm
  | succ n ih =>
    intro hn offset
    have hbefore := ih (Nat.le_of_succ_le hn)
    rw [List.range_succ, List.foldl_append, List.foldl_cons, List.foldl_nil,
      showCell_apply (h.column_lt hn) (h.row_lt hrow), hbefore,
      hvalue n hn _ fun offset hout => (hbefore offset).trans (if_neg hout)]
    split_ifs with h1 h2
    · exact congrArg content (by omega)
    all_goals first | rfl | (unfold InRow absoluteColumn absoluteRow at *; omega)

theorem fillRow_apply (h : area.Inside) (hrow : row < area.height) (offset : Nat) :
    (area.fillRow cell s row).cells offset =
      if area.InRow area.width row offset then cell else s.cells offset :=
  showRow_apply h hrow (fun _ _ => cell) (fun _ => cell) (fun _ _ _ _ => rfl) _ (Nat.le_refl _)
    offset

/-- Copying a row reads no cell that was written. -/
theorem copyRow_apply (h : area.Inside) (hrow : row + 1 < area.height) (offset : Nat) :
    (area.copyRow s (row + 1)).cells offset =
      if area.InRow area.width row offset then s.cells (offset + 80) else s.cells offset := by
  refine showRow_apply h (Nat.lt_of_succ_lt hrow)
    (fun s column => get s (area.absoluteColumn column) (area.absoluteRow (row + 1)))
    (fun offset => s.cells (offset + 80)) (fun n hn s' hkept => ?_) _ (Nat.le_refl _) offset
  have hcolumn := h.column_lt hn
  rw [get_eq hcolumn (h.row_lt hrow), hkept]
  · refine congrArg s.cells ?_
    unfold absoluteRow
    omega
  · rw [show COLUMNS = 80 from rfl] at hcolumn
    unfold InRow absoluteRow
    omega

/-- After the first `n` rows were copied up. -/
theorem copyRows_apply (h : area.Inside) :
    ∀ n < area.height, ∀ offset, ((List.range' 1 n).foldl area.copyRow s).cells offset =
      if area.Holds offset ∧ offset / 80 < area.fromRow + n then s.cells (offset + 80)
      else s.cells offset := by
  intro n
  induction n with
  | zero => exact fun _ offset => (if_neg (by unfold Holds; omega)).symm
  | succ n ih =>
    intro hn offset
    have hcolumns := h.columns
    have hheight : area.height = area.toRow - area.fromRow := rfl
    have hwidth : area.width = area.toColumn - area.fromColumn := rfl
    rw [List.range'_concat, List.foldl_append, List.foldl_cons, List.foldl_nil, Nat.one_mul,
      Nat.add_comm 1 n, copyRow_apply h hn, ih (Nat.lt_of_succ_lt hn),
      ih (Nat.lt_of_succ_lt hn)]
    split_ifs <;> first | rfl | (unfold InRow Holds at *; omega)

/-- Scrolling moves every row up and leaves the last one blank. -/
theorem scroll_apply (h : area.Inside) (attr : BitVec 8) (offset : Nat) :
    (area.scroll attr s).cells offset =
      if area.Holds offset then
        if offset / 80 + 1 = area.toRow then ⟨32, attr⟩ else s.cells (offset + 80)
      else s.cells offset := by
  have hcolumns := h.columns
  have hrows := h.rows
  have hheight : area.height = area.toRow - area.fromRow := rfl
  have hwidth : area.width = area.toColumn - area.fromColumn := rfl
  unfold scroll
  rw [fillRow_apply h (by omega), copyRows_apply h _ (by omega)]
  split_ifs <;> first | rfl | (unfold InRow Holds at *; omega)

theorem fill_apply (h : area.Inside) (offset : Nat) :
    (area.fill cell s).cells offset = if area.Holds offset then cell else s.cells offset := by
  have hwidth : area.width = area.toColumn - area.fromColumn := rfl
  have hcolumns := h.columns
  have hgeneral : ∀ n ≤ area.height,
      ((List.range n).foldl (area.fillRow cell) s).cells offset =
        if area.Holds offset ∧ offset / 80 < area.fromRow + n then cell else s.cells offset := by
    intro n
    induction n with
    | zero => exact fun _ => (if_neg (by unfold Holds; omega)).symm
    | succ n ih =>
      intro hn
      have hheight : area.height = area.toRow - area.fromRow := rfl
      rw [List.range_succ, List.foldl_append, List.foldl_cons, List.foldl_nil, fillRow_apply h hn,
        ih (Nat.le_of_succ_le hn)]
      split_ifs <;> first | rfl | (unfold InRow Holds at *; omega)
  have hrows := h.rows
  have hheight : area.height = area.toRow - area.fromRow := rfl
  unfold fill
  rw [hgeneral area.height (Nat.le_refl _)]
  split_ifs <;> first | rfl | (unfold Holds at *; omega)

end Area

/-! ## The reference terminal -/

namespace TextWindow

theorem setPosition_cells (window : TextWindow) (s : Screen) (column row : Nat) :
    (setPosition window s column row).2.cells = s.cells := by
  unfold setPosition
  split_ifs <;> rfl

variable {area : Area} {start s : Screen} {t : Terminal (BitVec 8)} {window : TextWindow}
  {state : TextWindow × Screen}

/-- What the area shows of a terminal in the cell at this offset.  The rest is blank. -/
def shown (area : Area) (t : Terminal (BitVec 8)) (offset : Nat) : Cell :=
  ⟨(t.cell area.height (offset % 80 - area.fromColumn) (offset / 80 - area.fromRow)).getD 32,
    DEFAULT_ATTRIBUTE⟩

/-- The area shows the terminal and everything else is as it was at the start. -/
def Shows (area : Area) (start : Screen) (t : Terminal (BitVec 8)) (s : Screen) : Prop :=
  ∀ offset, s.cells offset = if area.Holds offset then shown area t offset else start.cells offset

/-- The window and the screen agree with the terminal. -/
structure Displays (area : Area) (start : Screen) (t : Terminal (BitVec 8))
    (state : TextWindow × Screen) : Prop where
  area_eq : state.1.toArea = area
  column : state.1.cursorColumn = t.current.length
  row : state.1.cursorRow = t.cursorRow area.height
  fits : t.current.length < area.width
  shows : Shows area start t state.2

theorem cursorRow_lt (h : area.Inside) (t : Terminal (BitVec 8)) :
    t.cursorRow area.height < area.height := by
  have hrows := h.rows
  unfold Terminal.cursorRow Area.height
  omega

/-- `Cga::Show` at the cursor adds the character to the row. -/
theorem Shows.add (h : area.Inside) (hs : Shows area start t s)
    (hfits : t.current.length < area.width) (c : BitVec 8) :
    Shows area start (t.add c) (showCell s (area.absoluteColumn t.current.length)
      (area.absoluteRow (t.cursorRow area.height)) ⟨c, DEFAULT_ATTRIBUTE⟩) := by
  intro offset
  have hrow := cursorRow_lt h t
  have hwidth : area.width = area.toColumn - area.fromColumn := rfl
  have hheight : area.height = area.toRow - area.fromRow := rfl
  rw [showCell_apply (h.column_lt hfits) (h.row_lt hrow), hs offset]
  by_cases hholds : area.Holds offset
  · rw [if_pos hholds, if_pos hholds]
    unfold shown
    rw [Terminal.cell_add t c (by omega)]
    -- the two descriptions of the cell of the cursor are the same
    split_ifs <;> first | rfl | (unfold Area.Holds Area.absoluteColumn Area.absoluteRow at *; omega)
  · rw [if_neg hholds, if_neg hholds, if_neg]
    unfold Area.Holds Area.absoluteColumn Area.absoluteRow at *
    omega

/-- A row that fits below the cursor. -/
theorem Shows.newRow_of_lt (hs : Shows area start t s) (hbelow : t.rows.length + 1 < area.height) :
    Shows area start t.newRow s := by
  intro offset
  unfold shown
  rw [Terminal.cell_newRow_of_lt hbelow]
  exact hs offset

/-- A row for which the window scrolls. -/
theorem Shows.newRow (h : area.Inside) (hs : Shows area start t s)
    (hfull : area.height ≤ t.rows.length + 1) :
    Shows area start t.newRow (area.scroll DEFAULT_ATTRIBUTE s) := by
  intro offset
  have hheight : area.height = area.toRow - area.fromRow := rfl
  rw [Area.scroll_apply h]
  by_cases hholds : area.Holds offset
  · rw [if_pos hholds, if_pos hholds]
    unfold shown
    rw [Terminal.cell_newRow hfull]
    by_cases hlast : offset / 80 + 1 = area.toRow
    · rw [if_pos hlast, Terminal.cell_eq_none]
      · rfl
      · unfold Terminal.top
        unfold Area.Holds at hholds
        omega
    · -- the row below is in the window too
      have hnext : area.Holds (offset + 80) := by
        unfold Area.Holds at *
        omega
      have hrow : (offset + 80) / 80 - area.fromRow = offset / 80 - area.fromRow + 1 := by
        unfold Area.Holds at hholds
        omega
      rw [if_neg hlast, hs (offset + 80), if_pos hnext]
      unfold shown
      rw [hrow, Nat.add_mod_right]
  · rw [if_neg hholds, if_neg hholds, hs offset, if_neg hholds]

/-- The end of a row, with the cursor still in it. -/
theorem Displays.newRow (h : area.Inside) (harea : window.toArea = area)
    (hrow : window.cursorRow = t.cursorRow area.height) (hs : Shows area start t s) :
    Displays area start t.newRow (scrollIfBelow DEFAULT_ATTRIBUTE
      { window with cursorColumn := 0, cursorRow := window.cursorRow + 1 } s) := by
  subst harea
  have hcolumns := h.columns
  have hrows := h.rows
  have hwidth : window.width = window.toColumn - window.fromColumn := rfl
  have hheight : window.height = window.toRow - window.fromRow := rfl
  have hlength : t.newRow.rows.length = t.rows.length + 1 := by simp [Terminal.newRow]
  have hfits : t.newRow.current.length < window.width := by
    show 0 < window.width
    omega
  unfold Terminal.cursorRow at hrow
  unfold scrollIfBelow
  by_cases hbelow : t.rows.length + 1 < window.height
  · rw [if_neg (by show ¬window.cursorRow + 1 ≥ window.height; omega)]
    refine ⟨rfl, rfl, ?_, hfits, hs.newRow_of_lt hbelow⟩
    show window.cursorRow + 1 = min t.newRow.rows.length (window.height - 1)
    omega
  · rw [if_pos (by show window.cursorRow + 1 ≥ window.height; omega)]
    refine ⟨rfl, rfl, ?_, hfits, hs.newRow h (Nat.le_of_not_lt hbelow)⟩
    show window.height - 1 = min t.newRow.rows.length (window.height - 1)
    omega

/-- One character of `Print` is one character of the terminal. -/
theorem Displays.putChar (h : area.Inside) (hd : Displays area start t state) (c : BitVec 8) :
    Displays area start (t.put (· = NEWLINE) area.width c)
      (putChar DEFAULT_ATTRIBUTE state.1 state.2 c) := by
  obtain ⟨rfl, hcolumn, hrow, hfits, hs⟩ := hd
  have hadded := hs.add h hfits c
  rw [← hcolumn, ← hrow] at hadded
  unfold TextWindow.putChar Terminal.put
  by_cases hbreak : c = NEWLINE
  · rw [if_pos hbreak, if_pos (decide_eq_true hbreak)]
    exact Displays.newRow h rfl hrow hs
  have hlength : (t.add c).current.length = state.1.cursorColumn + 1 := by
    simp [Terminal.add, hcolumn]
  rw [if_neg hbreak, if_neg (by simpa using hbreak), hlength]
  by_cases hwrap : state.1.cursorColumn + 1 < state.1.width
  · have hinside : ¬state.1.cursorRow ≥ state.1.height := by
      have := cursorRow_lt h t
      omega
    rw [if_pos hwrap, if_neg (Nat.not_le.2 hwrap), scrollIfBelow, if_neg hinside]
    exact ⟨rfl, hlength.symm, hrow, by omega, hadded⟩
  · rw [if_neg hwrap, if_pos (Nat.le_of_not_lt hwrap)]
    exact Displays.newRow h rfl hrow hadded

/-- The characters that a call of `Print` takes: up to the zero byte or the length. -/
def printed (text : List (BitVec 8)) (length : Nat) : List (BitVec 8) :=
  (text.take length).takeWhile (· ≠ 0)

/-- `Print` puts its characters one after the other. -/
theorem printLoop_eq_foldl (attr : BitVec 8) (text : List (BitVec 8)) :
    ∀ (length : Nat) (state : TextWindow × Screen), printLoop attr state text length =
      (printed text length).foldl (fun state c => putChar attr state.1 state.2 c) state := by
  induction text with
  | nil =>
    intro length state
    rw [printed, List.take_nil]
    rfl
  | cons c text ih =>
    intro length state
    cases length with
    | zero => rfl
    | succ length =>
      unfold printLoop printed
      rw [List.take_succ_cons]
      by_cases hzero : c = 0
      · rw [if_pos hzero, List.takeWhile_cons_of_neg (by simpa using hzero)]
        rfl
      · rw [if_neg hzero, List.takeWhile_cons_of_pos (by simpa using hzero)]
        exact ih length _

theorem Displays.printLoop (h : area.Inside) (hd : Displays area start t state)
    (text : List (BitVec 8)) (length : Nat) :
    Displays area start ((printed text length).foldl (Terminal.put (· = NEWLINE) area.width) t)
      (printLoop DEFAULT_ATTRIBUTE state text length) := by
  rw [printLoop_eq_foldl]
  generalize printed text length = characters
  induction characters generalizing t state with
  | nil => exact hd
  | cons c characters ih => exact ih (hd.putChar h c)

theorem Displays.print (h : area.Inside) (hd : Displays area start t state)
    (text : List (BitVec 8)) (length : Nat) :
    Displays area start ((printed text length).foldl (Terminal.put (· = NEWLINE) area.width) t)
      (print DEFAULT_ATTRIBUTE state text length) := by
  obtain ⟨harea, hcolumn, hrow, hfits, hs⟩ := hd.printLoop h text length
  refine ⟨harea, hcolumn, hrow, hfits, fun offset => ?_⟩
  show (setPosition _ _ _ _).2.cells offset = _
  rw [setPosition_cells]
  exact hs offset

/-- `Reset` shows the empty terminal. -/
theorem Displays.reset (h : window.Inside) (start : Screen) :
    Displays window.toArea start {} (reset 32 DEFAULT_ATTRIBUTE window start) := by
  have hcolumns := h.columns
  have hwidth : window.width = window.toColumn - window.fromColumn := rfl
  have hfits : 0 < window.width := by omega
  have hempty : ∀ column row,
      (({} : Terminal (BitVec 8)).cell window.height column row) = none := by
    intro column row
    unfold Terminal.cell Terminal.lines
    cases ({} : Terminal (BitVec 8)).top window.height + row <;> rfl
  refine ⟨rfl, rfl, (Nat.zero_min _).symm, hfits, fun offset => ?_⟩
  unfold shown TextWindow.reset
  rw [setPosition_cells, Area.fill_apply h, hempty]
  rfl

/-- `Reset` and then any number of calls of `Print`, each with a text and a length. -/
def printAll (window : TextWindow) (s : Screen) (calls : List (List (BitVec 8) × Nat)) :
    TextWindow × Screen :=
  calls.foldl (fun state call => print DEFAULT_ATTRIBUTE state call.1 call.2)
    (reset 32 DEFAULT_ATTRIBUTE window s)

/-- All characters of the calls. -/
def allPrinted (calls : List (List (BitVec 8) × Nat)) : List (BitVec 8) :=
  calls.flatMap fun call => printed call.1 call.2

theorem displays_printAll (h : window.Inside) (start : Screen)
    (calls : List (List (BitVec 8) × Nat)) :
    Displays window.toArea start
      (Terminal.lay (· = NEWLINE) window.width (allPrinted calls))
      (printAll window start calls) := by
  have hgeneral : ∀ (calls : List (List (BitVec 8) × Nat)) {t : Terminal (BitVec 8)}
      {state : TextWindow × Screen}, Displays window.toArea start t state →
      Displays window.toArea start
        ((allPrinted calls).foldl (Terminal.put (· = NEWLINE) window.width) t)
        (calls.foldl (fun state call => print DEFAULT_ATTRIBUTE state call.1 call.2) state) := by
    intro calls
    induction calls with
    | nil => exact fun hd => hd
    | cons call calls ih =>
      intro t state hd
      rw [allPrinted, List.flatMap_cons, List.foldl_append, List.foldl_cons]
      exact ih (hd.print h call.1 call.2)
  exact hgeneral calls (Displays.reset h start)

/-- The window is a terminal to which this text was written, on a screen that was `start`. -/
structure IsTerminal (window : TextWindow) (start : Screen) (text : List (BitVec 8))
    (state : TextWindow × Screen) : Prop where
  column_lt : state.1.cursorColumn < window.width
  row_lt : state.1.cursorRow < window.height
  outside : ∀ offset, ¬window.Holds offset → state.2.cells offset = start.cells offset
  inside : ∀ column < window.width, ∀ row < window.height,
    get state.2 (window.absoluteColumn column) (window.absoluteRow row) =
      ⟨((Terminal.lay (· = NEWLINE) window.width text).cell window.height column row).getD 32,
        DEFAULT_ATTRIBUTE⟩
  column : state.1.cursorColumn = (Terminal.lay (· = NEWLINE) window.width text).current.length
  row : state.1.cursorRow = (Terminal.lay (· = NEWLINE) window.width text).cursorRow window.height

/-- After `Reset` and any calls of `Print`, a window inside the screen is the terminal to which
the characters of all calls were written.  How they were divided into calls does not matter. -/
theorem text_window_is_terminal (window : TextWindow) (h : window.Inside) (start : Screen)
    (calls : List (List (BitVec 8) × Nat)) :
    IsTerminal window start (allPrinted calls) (printAll window start calls) ∧
      ∀ others, allPrinted others = allPrinted calls →
        (printAll window start others).2.cells = (printAll window start calls).2.cells ∧
          (printAll window start others).1.cursorColumn =
            (printAll window start calls).1.cursorColumn ∧
          (printAll window start others).1.cursorRow =
            (printAll window start calls).1.cursorRow := by
  have hd := displays_printAll h start calls
  have hwidth : window.width = window.toColumn - window.fromColumn := rfl
  have hheight : window.height = window.toRow - window.fromRow := rfl
  refine ⟨⟨hd.column ▸ hd.fits, hd.row ▸ cursorRow_lt h _, fun offset hout => ?_,
    fun column hcolumn row hrow => ?_, hd.column, hd.row⟩, fun others hsame => ?_⟩
  · rw [hd.shows offset, if_neg hout]
  · have hlt := h.column_lt hcolumn
    have hcells : window.absoluteColumn column < 80 := hlt
    have hmod : (window.absoluteRow row * 80 + window.absoluteColumn column) % 80 =
        window.fromColumn + column := by
      unfold Area.absoluteColumn at *
      omega
    have hdiv : (window.absoluteRow row * 80 + window.absoluteColumn column) / 80 =
        window.fromRow + row := by
      unfold Area.absoluteRow
      omega
    rw [get_eq hlt (h.row_lt hrow), hd.shows, if_pos (by unfold Area.Holds; omega), shown, hmod,
      hdiv, Nat.add_sub_cancel_left, Nat.add_sub_cancel_left]
  · have hothers := displays_printAll h start others
    rw [hsame] at hothers
    refine ⟨funext fun offset => ?_, hothers.column.trans hd.column.symm,
      hothers.row.trans hd.row.symm⟩
    rw [hothers.shows offset, hd.shows offset]

/-- A window of three columns and two rows in the middle of a screen. -/
def smallWindow : TextWindow := { fromColumn := 10, toColumn := 13, fromRow := 4, toRow := 6 }

/-- After `abcd`, a newline and `e`, the first row has scrolled away. -/
theorem text_window_is_terminal_scrolled :
    smallWindow.Inside ∧
      (get (printAll smallWindow ⟨fun _ => ⟨0, 0⟩, 0⟩
        [([97, 98, 99, 100], 10), ([10, 101, 0], 3)]).2 10 4).character = 100 := by
  have hinside : smallWindow.Inside := ⟨by decide, by decide, by decide, by decide⟩
  have h := (text_window_is_terminal smallWindow hinside ⟨fun _ => ⟨0, 0⟩, 0⟩
    [([97, 98, 99, 100], 10), ([10, 101, 0], 3)]).1.inside 0 (by decide) 0 (by decide)
  exact ⟨hinside, congrArg Cell.character h⟩

/-! ## What `Print` leaves alone -/

/-- What one character, or many, may not change, with the cursor still in the window. -/
structure StaysInside (before after : TextWindow × Screen) : Prop where
  area_eq : after.1.toArea = before.1.toArea
  isActive : after.1.isActive = before.1.isActive
  column : after.1.cursorColumn < after.1.width
  row : after.1.cursorRow < after.1.height
  cells : ∀ offset, ¬before.1.Holds offset → after.2.cells offset = before.2.cells offset
  cursor : after.2.cursor = before.2.cursor

theorem StaysInside.trans {first second third : TextWindow × Screen}
    (h : StaysInside first second) (h' : StaysInside second third) : StaysInside first third := by
  refine ⟨h'.area_eq.trans h.area_eq, h'.isActive.trans h.isActive, h'.column, h'.row,
    fun offset hout => ?_, h'.cursor.trans h.cursor⟩
  have hcells := h'.cells offset (by rw [h.area_eq]; exact hout)
  exact hcells.trans (h.cells offset hout)

theorem showCell_cursor (s : Screen) (column row : Nat) (cell : Cell) :
    (showCell s column row cell).cursor = s.cursor := by
  unfold showCell
  split_ifs <;> rfl

theorem foldl_cursor {f : Screen → Nat → Screen} (hf : ∀ s n, (f s n).cursor = s.cursor)
    (xs : List Nat) (s : Screen) : (xs.foldl f s).cursor = s.cursor := by
  induction xs generalizing s with
  | nil => rfl
  | cons x xs ih => exact (ih (f s x)).trans (hf s x)

theorem scroll_cursor (area : Area) (attr : BitVec 8) (s : Screen) :
    (area.scroll attr s).cursor = s.cursor := by
  have hcopy : ∀ s row, (area.copyRow s row).cursor = s.cursor := fun s row =>
    foldl_cursor (fun _ _ => showCell_cursor _ _ _ _) _ s
  calc (area.scroll attr s).cursor
      = ((List.range' 1 (area.height - 1)).foldl area.copyRow s).cursor :=
        foldl_cursor (fun _ _ => showCell_cursor _ _ _ _) _ _
    _ = s.cursor := foldl_cursor hcopy _ s

/-- The end of the body, with the cursor moved and a cell of the window shown. -/
theorem scrollIfBelow_staysInside (h : window.Inside) {moved : TextWindow} {shown : Screen}
    (harea : moved.toArea = window.toArea) (hactive : moved.isActive = window.isActive)
    (hcolumn : moved.cursorColumn < window.width)
    (hcells : ∀ offset, ¬window.Holds offset → shown.cells offset = s.cells offset)
    (hcursor : shown.cursor = s.cursor) (attr : BitVec 8) :
    StaysInside (window, s) (scrollIfBelow attr moved shown) := by
  have hrows := h.rows
  have hheight : window.height = window.toRow - window.fromRow := rfl
  unfold scrollIfBelow
  rw [harea]
  by_cases hbelow : moved.cursorRow ≥ window.height
  · rw [if_pos hbelow]
    refine ⟨rfl, hactive, hcolumn, ?_, fun offset hout => ?_, (scroll_cursor _ _ _).trans hcursor⟩
    · show window.height - 1 < window.height
      omega
    · rw [Area.scroll_apply h, if_neg hout]
      exact hcells offset hout
  · rw [if_neg hbelow]
    refine ⟨harea, hactive, ?_, ?_, hcells, hcursor⟩
    · rw [harea]
      exact hcolumn
    · rw [harea]
      exact Nat.lt_of_not_le hbelow

theorem putChar_staysInside (h : window.Inside) (hcolumn : window.cursorColumn < window.width)
    (hrow : window.cursorRow < window.height) (attr : BitVec 8) (s : Screen) (c : BitVec 8) :
    StaysInside (window, s) (putChar attr window s c) := by
  have hcolumns := h.columns
  have hwidth : window.width = window.toColumn - window.fromColumn := rfl
  have hheight : window.height = window.toRow - window.fromRow := rfl
  -- the cell of the cursor is in the window
  have hshown : ∀ offset, ¬window.Holds offset →
      (showCell s (window.absoluteColumn window.cursorColumn)
        (window.absoluteRow window.cursorRow) ⟨c, attr⟩).cells offset = s.cells offset := by
    intro offset hout
    rw [showCell_apply (h.column_lt hcolumn) (h.row_lt hrow), if_neg]
    unfold Area.Holds at hout
    unfold Area.absoluteColumn Area.absoluteRow
    omega
  have hcursor := showCell_cursor s (window.absoluteColumn window.cursorColumn)
    (window.absoluteRow window.cursorRow) ⟨c, attr⟩
  have hfirst : 0 < window.width := by omega
  unfold putChar
  by_cases hbreak : c = NEWLINE
  · rw [if_pos hbreak]
    refine scrollIfBelow_staysInside h ?_ ?_ ?_ (fun _ _ => rfl) rfl attr
    · rfl
    · rfl
    · exact hfirst
  · rw [if_neg hbreak]
    by_cases hwrap : window.cursorColumn + 1 ≥ window.width
    · rw [if_pos hwrap]
      refine scrollIfBelow_staysInside h ?_ ?_ ?_ hshown hcursor attr
      · rfl
      · rfl
      · exact hfirst
    · rw [if_neg hwrap]
      refine scrollIfBelow_staysInside h ?_ ?_ ?_ hshown hcursor attr
      · rfl
      · rfl
      · exact Nat.lt_of_not_le hwrap

/-- The characters of a text one after the other. -/
def putChars (attr : BitVec 8) (state : TextWindow × Screen) (text : List (BitVec 8)) :
    TextWindow × Screen :=
  text.foldl (fun state c => putChar attr state.1 state.2 c) state

theorem putChars_append (attr : BitVec 8) (state : TextWindow × Screen)
    (first second : List (BitVec 8)) :
    putChars attr state (first ++ second) = putChars attr (putChars attr state first) second :=
  List.foldl_append

theorem putChars_staysInside (h : window.Inside) (hcolumn : window.cursorColumn < window.width)
    (hrow : window.cursorRow < window.height) (attr : BitVec 8) (s : Screen)
    (text : List (BitVec 8)) : StaysInside (window, s) (putChars attr (window, s) text) := by
  induction text generalizing window s with
  | nil => exact ⟨rfl, rfl, hcolumn, hrow, fun _ _ => rfl, rfl⟩
  | cons c text ih =>
    have hstep := putChar_staysInside h hcolumn hrow attr s c
    have hinside : (putChar attr window s c).1.Inside := by
      rw [hstep.area_eq]
      exact h
    exact hstep.trans (ih hinside hstep.column hstep.row _)

/-- `Print` in a window that does not have the cursor of the hardware. -/
theorem print_eq_putChars (h : window.Inside) (hcolumn : window.cursorColumn < window.width)
    (hrow : window.cursorRow < window.height) (hactive : window.isActive = false)
    (attr : BitVec 8) (s : Screen) (text : List (BitVec 8)) (length : Nat) :
    print attr (window, s) text length = putChars attr (window, s) (printed text length) := by
  have hkept := putChars_staysInside h hcolumn hrow attr s (printed text length)
  have hloop : printLoop attr (window, s) text length =
      putChars attr (window, s) (printed text length) := printLoop_eq_foldl attr text length _
  unfold print setPosition
  rw [hloop]
  dsimp only
  rw [if_neg]
  rw [hkept.isActive, hactive]
  decide

/-! ## The bytes that `Print` reads -/

/-- The loop of `Print` over a text in memory, with the places that it reads.  The test for
the zero byte comes before the test of the length. -/
def printFrom (attr : BitVec 8) (text : ByteMemory) :
    TextWindow × Screen → Nat → Nat → (TextWindow × Screen) × List Nat
  | state, index, 0 => (state, [index])
  | state, index, length + 1 =>
    if text index = 0 then (state, [index])
    else
      let (final, reads) :=
        printFrom attr text (putChar attr state.1 state.2 (text index)) (index + 1) length
      -- the condition of the loop, the test for a newline and the argument of `Show`
      (final, index :: index :: if text index = NEWLINE then reads else index :: reads)

/-- `Print` of a text in memory. -/
def printText (attr : BitVec 8) (state : TextWindow × Screen) (text : ByteMemory)
    (length : Nat) : (TextWindow × Screen) × List Nat :=
  let (printed, reads) := printFrom attr text state 0 length
  (setPosition printed.1 printed.2 printed.1.cursorColumn printed.1.cursorRow, reads)

theorem printFrom_fst (attr : BitVec 8) (text : ByteMemory) (length : Nat) :
    ∀ (state : TextWindow × Screen) (index : Nat),
      (printFrom attr text state index length).1 =
        printLoop attr state ((List.range' index length).map text) length := by
  induction length with
  | zero => exact fun state index => rfl
  | succ length ih =>
    intro state index
    rw [List.range'_succ, List.map_cons, printFrom, printLoop]
    by_cases hzero : text index = 0
    · rw [if_pos hzero, if_pos hzero]
    · rw [if_neg hzero, if_neg hzero]
      exact ih _ _

theorem printText_fst (attr : BitVec 8) (state : TextWindow × Screen) (text : ByteMemory)
    (length : Nat) :
    (printText attr state text length).1 =
      print attr state ((List.range length).map text) length := by
  have h := printFrom_fst attr text length state 0
  rw [← List.range_eq_range'] at h
  unfold printText print
  rw [← h]

/-- A place is read when no byte in front of it is zero, up to the one behind the length. -/
theorem mem_printFrom (attr : BitVec 8) (text : ByteMemory) {i : Nat} (length : Nat) :
    ∀ (state : TextWindow × Screen) (index : Nat),
      i ∈ (printFrom attr text state index length).2 ↔
        index ≤ i ∧ i ≤ index + length ∧ ∀ j, index ≤ j → j < i → text j ≠ 0 := by
  induction length with
  | zero =>
    intro state index
    rw [printFrom, List.mem_singleton]
    constructor
    · rintro rfl
      exact ⟨Nat.le_refl _, Nat.le_refl _, fun j hlo hhi => by omega⟩
    · rintro ⟨hlo, hhi, -⟩
      omega
  | succ length ih =>
    intro state index
    rw [printFrom]
    by_cases hzero : text index = 0
    · rw [if_pos hzero, List.mem_singleton]
      constructor
      · rintro rfl
        exact ⟨Nat.le_refl _, Nat.le_add_right .., fun j hlo hhi => by omega⟩
      · rintro ⟨hlo, -, hnonzero⟩
        by_contra hne
        exact hnonzero index (Nat.le_refl _) (by omega) hzero
    · have hreads : i ∈ (if text index = NEWLINE then
          (printFrom attr text (putChar attr state.1 state.2 (text index)) (index + 1) length).2
          else index ::
            (printFrom attr text (putChar attr state.1 state.2 (text index)) (index + 1)
              length).2) ∨
          i = index ↔ i = index ∨ (index + 1 ≤ i ∧ i ≤ index + 1 + length ∧
            ∀ j, index + 1 ≤ j → j < i → text j ≠ 0) := by
        rw [← ih (putChar attr state.1 state.2 (text index)) (index + 1)]
        split
        · exact or_comm
        · rw [List.mem_cons]
          tauto
      rw [if_neg hzero]
      simp only [List.mem_cons]
      rw [or_self_left, or_comm, hreads]
      constructor
      · rintro (rfl | ⟨hlo, hhi, hnonzero⟩)
        · exact ⟨Nat.le_refl _, by omega, fun j hlo hhi => by omega⟩
        · refine ⟨by omega, by omega, fun j hj hji => ?_⟩
          by_cases heq : j = index
          · rw [heq]
            exact hzero
          · exact hnonzero j (by omega) hji
      · rintro ⟨hlo, hhi, hnonzero⟩
        by_cases heq : i = index
        · exact Or.inl heq
        · exact Or.inr ⟨by omega, by omega, fun j hj hji => hnonzero j (by omega) hji⟩

end TextWindow

end X64HK
