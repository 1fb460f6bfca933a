import Mathlib.Tactic.Common

/-!
# A scrolling terminal

A terminal lays characters into rows.  A row ends at a line break and after a
fixed number of characters, and a window shows the last rows.  There is no screen
here, only the text: `put` takes one character, and `cell` is what a window of
some height shows at a position.

* `cell_add`: a character is shown where the cursor is.
* `cell_newRow` and `cell_newRow_of_lt`: a new row moves the window down once
  it is full.
-/

/-- The rows that are finished and the one that is not. -/
structure Terminal (α : Type) where
  rows : List (List α) := []
  current : List α := []

namespace Terminal

variable {α : Type} {t : Terminal α} {height row column : Nat}

def newRow (t : Terminal α) : Terminal α := ⟨t.rows ++ [t.current], []⟩

def add (t : Terminal α) (c : α) : Terminal α := ⟨t.rows, t.current ++ [c]⟩

/-- Take one character.  `isBreak` are the characters that end a row. -/
def put (isBreak : α → Bool) (width : Nat) (t : Terminal α) (c : α) : Terminal α :=
  if isBreak c then t.newRow
  else if (t.add c).current.length < width then t.add c
  else (t.add c).newRow

/-- Lay a text into rows. -/
def lay (isBreak : α → Bool) (width : Nat) (text : List α) : Terminal α :=
  text.foldl (put isBreak width) {}

/-- All rows. -/
def lines (t : Terminal α) : List (List α) := t.rows ++ [t.current]

/-- The number of the first row that is shown. -/
def top (t : Terminal α) (height : Nat) : Nat := t.rows.length + 1 - height

/-- The row of the cursor in the window. -/
def cursorRow (t : Terminal α) (height : Nat) : Nat := min t.rows.length (height - 1)

/-- The character at a position of the window, if there is one. -/
def cell (t : Terminal α) (height column row : Nat) : Option α :=
  (t.lines[t.top height + row]?).bind fun characters => characters[column]?

/-- The cursor is in the row that is not finished. -/
theorem top_add_cursorRow (t : Terminal α) (h : 0 < height) :
    t.top height + t.cursorRow height = t.rows.length := by
  unfold top cursorRow
  omega

/-- The cell of a character, and every other one. -/
theorem cell_add (t : Terminal α) (c : α) (h : 0 < height) :
    (t.add c).cell height column row =
      if column = t.current.length ∧ row = t.cursorRow height then some c
      else t.cell height column row := by
  have htop := t.top_add_cursorRow h
  have hsame : (t.add c).top height = t.top height := rfl
  unfold cell lines
  rw [hsame]
  change ((t.rows ++ [t.current ++ [c]])[_]?).bind _ = _
  by_cases hrow : row = t.cursorRow height
  · have hlast : t.top height + row = t.rows.length := by rw [hrow]; exact htop
    rw [hlast, List.getElem?_append_right (Nat.le_refl _),
      List.getElem?_append_right (Nat.le_refl _)]
    simp only [Nat.sub_self, List.getElem?_cons_zero, Option.bind_some, hrow, and_true]
    rcases Nat.lt_trichotomy column t.current.length with hlt | heq | hgt
    · rw [List.getElem?_append_left hlt, if_neg (Nat.ne_of_lt hlt)]
    · rw [if_pos heq, heq, List.getElem?_append_right (Nat.le_refl _), Nat.sub_self]
      rfl
    · rw [if_neg (Nat.ne_of_gt hgt), List.getElem?_eq_none (by simp; omega),
        List.getElem?_eq_none (by omega)]
  · rw [if_neg fun hat => hrow hat.2]
    -- another row than the last one is not touched
    have hother : t.top height + row ≠ t.rows.length := by omega
    rcases Nat.lt_or_gt_of_ne hother with hlt | hgt
    · rw [List.getElem?_append_left hlt, List.getElem?_append_left hlt]
    · rw [List.getElem?_eq_none (by simp; omega), List.getElem?_eq_none (by simp; omega)]

theorem lines_newRow (t : Terminal α) : t.newRow.lines = t.lines ++ [[]] := rfl

/-- A new row at the end shows nothing. -/
theorem bind_lines_newRow (t : Terminal α) (i : Nat) :
    (t.newRow.lines[i]?.bind fun characters => characters[column]?) =
      t.lines[i]?.bind fun characters => characters[column]? := by
  rw [lines_newRow]
  rcases Nat.lt_trichotomy i t.lines.length with hlt | rfl | hgt
  · rw [List.getElem?_append_left hlt]
  · rw [List.getElem?_append_right (Nat.le_refl _), Nat.sub_self,
      List.getElem?_eq_none (Nat.le_refl _)]
    rfl
  · rw [List.getElem?_eq_none (by simp; omega), List.getElem?_eq_none (by omega)]

/-- As long as the window is not full, a new row changes nothing. -/
theorem cell_newRow_of_lt (h : t.rows.length + 1 < height) :
    t.newRow.cell height column row = t.cell height column row := by
  have htop : t.newRow.top height = t.top height := by
    simp only [top, newRow, List.length_append, List.length_singleton]
    omega
  unfold cell
  rw [htop, bind_lines_newRow]

/-- When it is full, every row moves up by one. -/
theorem cell_newRow (h : height ≤ t.rows.length + 1) :
    t.newRow.cell height column row = t.cell height column (row + 1) := by
  have htop : t.newRow.top height + row = t.top height + (row + 1) := by
    simp only [top, newRow, List.length_append, List.length_singleton]
    omega
  unfold cell
  rw [htop, bind_lines_newRow]

/-- Nothing is shown below the last row. -/
theorem cell_eq_none (h : t.rows.length < t.top height + row) :
    t.cell height column row = none := by
  unfold cell
  rw [List.getElem?_eq_none
    (by simp only [lines, List.length_append, List.length_singleton]; omega)]
  rfl

end Terminal
