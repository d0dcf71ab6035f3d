import Mathlib.Tactic

/-!
# Text on rows of a fixed width

The reference layout of a text on an unbounded list of rows: where each character goes, and
where the cursor is behind it.
-/

namespace Infra

/-- The cursor and the character of every cell. -/
structure TextLayout where
  row : Nat
  column : Nat
  cell : Nat → Nat → UInt8

namespace TextLayout

def blank : UInt8 := 0x20

def empty : TextLayout := ⟨0, 0, fun _ _ => blank⟩

/-- A column behind the end of the row is one of the next row. -/
def carry (width : Nat) (l : TextLayout) : TextLayout :=
  if width ≤ l.column then { l with row := l.row + 1, column := l.column - width } else l

def newLine (l : TextLayout) : TextLayout := { l with row := l.row + 1, column := 0 }

/-- The next multiple of 8. -/
def tab (l : TextLayout) : TextLayout := { l with column := (l.column + 8) / 8 * 8 }

/-- A character at the cursor. -/
def write (ch : UInt8) (l : TextLayout) : TextLayout where
  row := l.row
  column := l.column + 1
  cell i j := if i = l.row ∧ j = l.column then ch else l.cell i j

/-- One character more, which may be a newline, a carriage return or a tab. -/
def put (width : Nat) (l : TextLayout) (ch : UInt8) : TextLayout :=
  if ch = 0x0a ∨ ch = 0x0d then l.newLine
  else if ch = 0x09 then l.tab.carry width
  else (l.carry width).write ch

def ofText (width : Nat) (text : List UInt8) : TextLayout := text.foldl (put width) empty

/-- The column is at most the width, and nothing is below the cursor. -/
structure Fits (width : Nat) (l : TextLayout) : Prop where
  column : l.column ≤ width
  below : ∀ i > l.row, ∀ j, l.cell i j = blank

variable {width : Nat} {l : TextLayout}

theorem fits_empty : Fits width empty := ⟨Nat.zero_le width, fun _ _ _ => rfl⟩

/-- A character moves the cursor by at most one row. -/
theorem carry_row : (l.carry width).row = l.row ∨ (l.carry width).row = l.row + 1 := by
  unfold carry
  split
  · exact .inr rfl
  · exact .inl rfl

@[simp] theorem carry_cell : (l.carry width).cell = l.cell := by
  unfold carry
  split <;> rfl

theorem carry_column_lt (h : l.column < 2 * width) : (l.carry width).column < width := by
  unfold carry
  split
  · change l.column - width < width
    omega
  · exact Nat.lt_of_not_le ‹_›

theorem carry_below (h : ∀ i > l.row, ∀ j, l.cell i j = blank) :
    ∀ i > (l.carry width).row, ∀ j, (l.carry width).cell i j = blank := by
  intro i hi j
  rw [carry_cell]
  have hrow : (l.carry width).row = l.row ∨ (l.carry width).row = l.row + 1 := carry_row
  exact h i (by omega) j

/-- Every character keeps the layout in its width. -/
theorem Fits.put (h : Fits width l) (hwidth : 8 < width) (ch : UInt8) :
    Fits width (l.put width ch) := by
  have hcolumn := h.column
  unfold TextLayout.put
  split
  · exact ⟨Nat.zero_le width, fun i hi j => h.below i (Nat.lt_of_succ_lt hi) j⟩
  split
  · have hlt : l.tab.column < 2 * width := by
      unfold tab
      dsimp only
      omega
    exact ⟨Nat.le_of_lt (carry_column_lt hlt), carry_below h.below⟩
  · refine ⟨carry_column_lt (by omega), fun i hi j => ?_⟩
    have hne : ¬ (i = (l.carry width).row ∧ j = (l.carry width).column) :=
      fun he => Nat.lt_irrefl _ (he.1 ▸ hi)
    exact (if_neg hne).trans (carry_below h.below i hi j)

end TextLayout

end Infra
