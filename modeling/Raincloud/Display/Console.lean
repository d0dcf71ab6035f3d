import Raincloud.Display.PotableGrayMap
import Raincloud.Infra.TextLayout

/-!
# The console

The screen shows the last rows of the text that was written.
-/

set_option linter.style.nameCheck false

namespace Raincloud

open Infra

/-! ## Cells -/

/-- The pixel `x` of row `y` of a cell. -/
def cellIndex (i j y x : Nat) : Nat := (i * 16 + y) * 8 * maxColumn + j * 8 + x

/-- The cell shows the glyph of the character. -/
def Shows (font : List UInt8) (frame : FrameBuffer) (i j : Nat) (ch : UInt8) : Prop :=
  ∀ y < 16, ∀ x < 8, frame (cellIndex i j y x) = grayWord (asiicVersions font ch y x)

theorem cellIndex_lt {i j y x : Nat} (hi : i < maxRow) (hj : j < maxColumn) (hy : y < 16)
    (hx : x < 8) : cellIndex i j y x < frameSize := by
  unfold cellIndex frameSize maxRow maxColumn at *
  omega

/-- The frame buffer with the first `n` pixels of a cell written. -/
def painted (versions : Nat → Nat → Nat) (row column : Nat) (frame : FrameBuffer) (n : Nat) :
    FrameBuffer := fun p =>
  if p / 1024 / 16 = row ∧ p % 1024 / 8 = column ∧ p / 1024 % 16 * 8 + p % 8 < n then
    grayWord (versions (p / 1024 % 16) (p % 8)) else frame p

section Paint

variable {versions : Nat → Nat → Nat} {row column : Nat} {frame : FrameBuffer}

theorem painted_zero : painted versions row column frame 0 = frame :=
  funext fun _ => if_neg fun h => Nat.not_lt_zero _ h.2.2

theorem painted_cell {i j y x n : Nat} (hj : j < maxColumn) (hy : y < 16) (hx : x < 8) :
    painted versions row column frame n (cellIndex i j y x)
      = if i = row ∧ j = column ∧ y * 8 + x < n then grayWord (versions y x)
        else frame (cellIndex i j y x) := by
  unfold maxColumn at hj
  have hidx : cellIndex i j y x = (i * 16 + y) * 8 * 128 + j * 8 + x := rfl
  have hrow : cellIndex i j y x / 1024 / 16 = i := by omega
  have hcol : cellIndex i j y x % 1024 / 8 = j := by omega
  have hy : cellIndex i j y x / 1024 % 16 = y := by omega
  have hx : cellIndex i j y x % 8 = x := by omega
  unfold painted
  rw [hrow, hcol, hy, hx]

theorem painted_succ {y x : Nat} (hcol : column < maxColumn) (hy : y < 16) (hx : x < 8) :
    Function.update (painted versions row column frame (y * 8 + x)) (cellIndex row column y x)
        (grayWord (versions y x)) = painted versions row column frame (y * 8 + x + 1) := by
  funext p
  by_cases hp : p = cellIndex row column y x
  · rw [hp, Function.update_self, painted_cell hcol hy hx, if_pos ⟨rfl, rfl, Nat.lt_succ_self _⟩]
  · rw [Function.update_of_ne hp]
    have hidx : cellIndex row column y x = (row * 16 + y) * 8 * 128 + column * 8 + x := rfl
    unfold painted
    refine ite_congr (propext ⟨fun h => ⟨h.1, h.2.1, by omega⟩, fun h => ⟨h.1, h.2.1, ?_⟩⟩)
      (fun _ => rfl) fun _ => rfl
    obtain ⟨h1, h2, h3⟩ := h
    omega

theorem writePGMData_eq (hrow : row < maxRow) (hcol : column < maxColumn) :
    writePGMData versions row column frame = .ok (painted versions row column frame 128) := by
  have hrows : ∀ i < 16, forLoop 8 (fun j frame => writePixel frame
      ((row * 16 + i) * 8 * maxColumn + column * 8 + j) (grayWord (versions i j)))
      (painted versions row column frame (i * 8))
        = .ok (painted versions row column frame ((i + 1) * 8)) := by
    intro i hi
    rw [Nat.succ_mul]
    refine forLoop_ok (fun j => painted versions row column frame (i * 8 + j)) fun j hj => ?_
    have hlt : cellIndex row column i j < frameSize := cellIndex_lt hrow hcol hi hj
    exact (if_pos hlt).trans (congrArg _ (painted_succ hcol hi hj))
  have hloop := forLoop_ok (fun i => painted versions row column frame (i * 8)) hrows
  rw [Nat.zero_mul, painted_zero] at hloop
  exact hloop

end Paint

/-! ## Clearing and scrolling -/

/-- The frame buffer with the first `n` cells cleared. -/
def cleared (font : List UInt8) (frame : FrameBuffer) (n : Nat) : FrameBuffer := fun p =>
  if p / 1024 / 16 * 128 + p % 1024 / 8 < n then
    grayWord (asiicVersions font 0x20 (p / 1024 % 16) (p % 8)) else frame p

theorem cleared_succ (font : List UInt8) (frame : FrameBuffer) {i j : Nat} (hj : j < maxColumn) :
    painted (asiicVersions font 0x20) i j (cleared font frame (i * 128 + j)) 128
      = cleared font frame (i * 128 + j + 1) := by
  unfold maxColumn at hj
  funext p
  have hpixel : p / 1024 % 16 * 8 + p % 8 < 128 := by omega
  unfold painted cleared
  by_cases hp : p / 1024 / 16 = i ∧ p % 1024 / 8 = j
  · rw [if_pos ⟨hp.1, hp.2, hpixel⟩, if_pos (by omega)]
  · rw [if_neg fun h => hp ⟨h.1, h.2.1⟩]
    exact ite_congr (propext ⟨by omega, by omega⟩) (fun _ => rfl) fun _ => rfl

theorem frameBufferClear_eq (font : List UInt8) (frame : FrameBuffer) :
    frameBufferClear font frame = .ok (cleared font frame (48 * 128)) := by
  have hrows : ∀ i < maxRow, forLoop maxColumn
      (fun j => writePGMData (asiicVersions font 0x20) i j) (cleared font frame (i * 128))
        = .ok (cleared font frame ((i + 1) * 128)) := by
    intro i hi
    rw [Nat.succ_mul]
    refine forLoop_ok (fun j => cleared font frame (i * 128 + j)) fun j hj => ?_
    rw [writePGMData_eq hi hj, cleared_succ font frame hj, Nat.add_assoc]
  have hzero : cleared font frame (0 * 128) = frame := funext fun p => if_neg (by omega)
  have hloop := forLoop_ok (fun i => cleared font frame (i * 128)) hrows
  rw [hzero] at hloop
  exact hloop

/-- The frame buffer with its first `k` pixels moved up. -/
def moved (row : Nat) (frame : FrameBuffer) (k : Nat) : FrameBuffer := fun p =>
  if p < k then frame (p + row * 16384) else frame p

/-- The frame buffer moved up, with `k` pixels behind it set to 0. -/
def scrolled (row : Nat) (frame : FrameBuffer) (k : Nat) : FrameBuffer := fun p =>
  if (maxRow - row) * 16384 ≤ p ∧ p < (maxRow - row) * 16384 + k then 0
  else moved row frame ((maxRow - row) * 16384) p

theorem copyPixel_moved {row k : Nat} (frame : FrameBuffer) (h : k + row * 16384 < frameSize) :
    copyPixel k (k + row * 16384) (moved row frame k) = .ok (moved row frame (k + 1)) := by
  have hsrc : moved row frame k (k + row * 16384) = frame (k + row * 16384) := if_neg (by omega)
  have hdst : Function.update (moved row frame k) k (frame (k + row * 16384))
      = moved row frame (k + 1) := by
    funext p
    unfold moved
    by_cases hp : p = k
    · rw [hp, Function.update_self, if_pos (Nat.lt_succ_self k)]
    · rw [Function.update_of_ne hp]
      exact ite_congr (propext ⟨by omega, by omega⟩) (fun _ => rfl) fun _ => rfl
  rw [copyPixel, readPixel, if_pos h, hsrc, ← hdst]
  exact if_pos (Nat.lt_of_le_of_lt (Nat.le_add_right _ _) h)

theorem scrolled_succ (row : Nat) (frame : FrameBuffer) (k : Nat) :
    Function.update (scrolled row frame k) ((maxRow - row) * 16384 + k) 0
      = scrolled row frame (k + 1) := by
  funext p
  unfold scrolled
  by_cases hp : p = (maxRow - row) * 16384 + k
  · rw [hp, Function.update_self, if_pos (by omega)]
  · rw [Function.update_of_ne hp]
    exact ite_congr (propext ⟨by omega, by omega⟩) (fun _ => rfl) fun _ => rfl

theorem scrollScreen_eq {row : Nat} (hrow : row ≤ maxRow) (frame : FrameBuffer) :
    scrollScreen row frame = .ok (scrolled row frame (row * 16384)) := by
  have hmove : ∀ i < (maxRow - row) * 16, forLoop (maxColumn * 8) (fun j =>
      copyPixel (j + i * maxColumn * 8) (j + (i + row * 16) * maxColumn * 8))
      (moved row frame (i * 1024)) = .ok (moved row frame ((i + 1) * 1024)) := by
    intro i hi
    have hline : ∀ j < maxColumn * 8, copyPixel (j + i * maxColumn * 8)
        (j + (i + row * 16) * maxColumn * 8) (moved row frame (i * 1024 + j))
          = .ok (moved row frame (i * 1024 + (j + 1))) := by
      intro j hj
      unfold maxColumn maxRow at *
      have hdst : j + i * 128 * 8 = i * 1024 + j := by omega
      have hsrc : j + (i + row * 16) * 128 * 8 = i * 1024 + j + row * 16384 := by omega
      have hlt : i * 1024 + j + row * 16384 < frameSize := by
        unfold frameSize maxColumn maxRow
        omega
      rw [hdst, hsrc, copyPixel_moved frame hlt, Nat.add_assoc]
    have hloop := forLoop_ok (fun j => moved row frame (i * 1024 + j)) hline
    rw [Nat.add_zero] at hloop
    rw [hloop, Nat.succ_mul]
    rfl
  have hset : ∀ k < row * 16 * maxColumn * 8, writePixel (scrolled row frame k)
      ((maxRow - row) * 16 * maxColumn * 8 + k) 0 = .ok (scrolled row frame (k + 1)) := by
    intro k hk
    have hto : (maxRow - row) * 16 * maxColumn * 8 = (maxRow - row) * 16384 := by
      unfold maxColumn
      omega
    have hlt : (maxRow - row) * 16384 + k < frameSize := by
      unfold frameSize maxColumn maxRow at *
      omega
    rw [hto, writePixel, if_pos hlt, scrolled_succ]
  have hzero : moved row frame (0 * 1024) = frame := funext fun p => if_neg (by omega)
  have hstart : moved row frame ((maxRow - row) * 16 * 1024) = scrolled row frame 0 := by
    rw [Nat.mul_assoc]
    exact funext fun p => (if_neg (by omega)).symm
  have hup := forLoop_ok (fun i => moved row frame (i * 1024)) hmove
  have hclear : forLoop (row * 16 * maxColumn * 8) (fun k frame =>
      writePixel frame ((maxRow - row) * 16 * maxColumn * 8 + k) 0) (scrolled row frame 0)
        = .ok (scrolled row frame (row * 16 * maxColumn * 8)) := forLoop_ok (scrolled row frame) hset
  have hcount : row * 16 * maxColumn * 8 = row * 16384 := by
    unfold maxColumn
    omega
  rw [hzero, hstart] at hup
  rw [hcount] at hclear
  rw [scrollScreen, hup, hcount]
  exact hclear

theorem cleared_shows (font : List UInt8) (frame : FrameBuffer) {i j : Nat} (hi : i < maxRow)
    (hj : j < maxColumn) : Shows font (cleared font frame (48 * 128)) i j 0x20 := by
  intro y hy x hx
  unfold maxColumn maxRow at *
  have hidx : cellIndex i j y x = (i * 16 + y) * 8 * 128 + j * 8 + x := rfl
  have hrow : cellIndex i j y x / 1024 % 16 = y := by omega
  have hcol : cellIndex i j y x % 8 = x := by omega
  unfold cleared
  rw [if_pos (by omega), hrow, hcol]

/-! ## One character -/

/-- The glyph of the space has no pixels. -/
def BlankSpace (font : List UInt8) : Prop :=
  ∀ y < 16, ∀ x < 8, asiicVersions font 0x20 y x = 0

/-- The row of the layout that is shown first. -/
def topRow (l : TextLayout) : Nat := l.row - (maxRow - 1)

/-- The screen shows the last rows of the layout, and no character was put outside of it. -/
structure OnScreen (font : List UInt8) (c : Console) (l : TextLayout) : Prop where
  row : topRow l + c.row = l.row
  column : c.column = l.column
  cells : ∀ i < maxRow, ∀ j < maxColumn, Shows font c.frame i j (l.cell (topRow l + i) j)
  chars : ∀ p ∈ c.chars, p.1 < maxRow ∧ p.2 < maxColumn

section Step

variable {font : List UInt8} {frame : FrameBuffer} {c : Console} {l : TextLayout} {i j : Nat}
  {ch temp : UInt8}

theorem scrolled_shows (h : Shows font frame (i + 1) j ch) (hi : i + 1 < maxRow)
    (hj : j < maxColumn) : Shows font (scrolled 1 frame (1 * 16384)) i j ch := by
  intro y hy x hx
  rw [← h y hy x hx]
  unfold maxColumn maxRow at *
  have hidx : cellIndex i j y x = (i * 16 + y) * 8 * 128 + j * 8 + x := rfl
  have hnext : cellIndex (i + 1) j y x = cellIndex i j y x + 1 * 16384 := by
    unfold cellIndex maxColumn
    omega
  unfold scrolled moved maxRow
  rw [if_neg (by omega), if_pos (by omega), hnext]

theorem scrolled_last (hblank : BlankSpace font) (hj : j < maxColumn) :
    Shows font (scrolled 1 frame (1 * 16384)) (maxRow - 1) j TextLayout.blank := by
  intro y hy x hx
  have hidx : cellIndex (maxRow - 1) j y x = (47 * 16 + y) * 8 * 128 + j * 8 + x := rfl
  have hword : grayWord (asiicVersions font TextLayout.blank y x) = 0 := by
    rw [TextLayout.blank, hblank y hy x hx]
    rfl
  unfold maxColumn at hj
  rw [hword]
  unfold scrolled maxRow at *
  exact if_pos (by omega)

/-- The screen follows a cursor that has moved by at most a row. -/
theorem scrollCursor_ok (l' : TextLayout) (hblank : BlankSpace font) (h : OnScreen font c l)
    (hcell : l'.cell = l.cell) (hrow : l'.row = l.row ∨ l'.row = l.row + 1)
    (hbelow : ∀ i > l.row, ∀ j, l.cell i j = TextLayout.blank) :
    ∃ row frame, scrollCursor (c.row + (l'.row - l.row)) c.frame = .ok (row, frame) ∧
      topRow l' + row = l'.row ∧
      ∀ i < maxRow, ∀ j < maxColumn, Shows font frame i j (l'.cell (topRow l' + i) j) := by
  have htop := h.row
  unfold topRow maxRow at htop
  unfold scrollCursor
  by_cases hscroll : maxRow ≤ c.row + (l'.row - l.row)
  · have hfull : 48 ≤ c.row + (l'.row - l.row) := hscroll
    have hlast : l'.row = l.row + 1 := by omega
    have htop' : topRow l' = topRow l + 1 := by
      unfold topRow maxRow
      omega
    rw [if_pos hscroll, scrollScreen_eq (by decide)]
    refine ⟨_, _, rfl, ?_, fun i hi j hj => ?_⟩
    · unfold topRow maxRow scrollUpRowNum
      omega
    · by_cases hi' : i + 1 < maxRow
      · have hshift : topRow l' + i = topRow l + (i + 1) := by omega
        rw [hcell, hshift]
        exact scrolled_shows (h.cells (i + 1) hi' j hj) hi' hj
      · -- the row that has scrolled in
        have hlast : i = maxRow - 1 := by omega
        rw [hcell, hbelow _ (by unfold topRow maxRow at *; omega), hlast]
        exact scrolled_last hblank hj
  · unfold maxRow at hscroll
    have htop' : topRow l' = topRow l := by
      unfold topRow maxRow
      omega
    refine ⟨_, _, if_neg hscroll, ?_, fun i hi j hj => ?_⟩
    · unfold topRow maxRow
      omega
    · rw [hcell, htop']
      exact h.cells i hi j hj

/-- A character is put into its cell and no other. -/
theorem writeChar_ok (font : List UInt8) {row column : Nat} (hrow : row < maxRow)
    (hcol : column < maxColumn) (ch : UInt8) (frame : FrameBuffer) :
    ∃ frame', writeChar font row column ch frame = .ok frame' ∧
      Shows font frame' row column ch ∧
      ∀ i j ch', j < maxColumn → ¬ (i = row ∧ j = column) → Shows font frame i j ch' →
        Shows font frame' i j ch' := by
  refine ⟨_, writePGMData_eq hrow hcol, fun y hy x hx => ?_, fun i j ch' hj hne h y hy x hx => ?_⟩
  · rw [painted_cell hcol hy hx, if_pos ⟨rfl, rfl, by omega⟩]
  · rw [painted_cell hj hy hx, if_neg fun he => hne ⟨he.1, he.2.1⟩, h y hy x hx]

theorem wrapCursor_carry {row : Nat} (hrow : row < maxRow) (hcol : l.column < 2 ^ 8) :
    wrapCursor row l.column
      = (row + ((l.carry maxColumn).row - l.row), (l.carry maxColumn).column) := by
  unfold wrapCursor TextLayout.carry
  unfold maxRow at hrow
  by_cases hwrap : maxColumn ≤ l.column
  · rw [if_pos hwrap, if_pos hwrap, Prod.mk.injEq]
    unfold maxColumn at *
    constructor <;> dsimp only <;> omega
  · rw [if_neg hwrap, if_neg hwrap, Nat.sub_self, Nat.add_zero]

theorem writeLineBody_eq {visible : Bool} {r k r1 k1 r2 : Nat}
    (hmove : moveCursor temp c.row c.column = (visible, r, k)) (hwrap : wrapCursor r k = (r1, k1))
    (hscroll : scrollCursor r1 c.frame = .ok (r2, frame)) :
    writeLineBody font c temp = if visible then
        writeChar font r2 k1 temp frame >>= fun frame =>
          .ok ⟨r2, (k1 + 1) % 2 ^ 8, frame, c.chars ++ [(r2, k1)]⟩
      else .ok ⟨r2, k1, frame, c.chars⟩ := by
  unfold writeLineBody
  rw [hmove]
  dsimp only
  rw [hwrap]
  dsimp only
  rw [hscroll]
  rfl

theorem moveCursor_newLine {row column : Nat} (h : ch = 0x0a ∨ ch = 0x0d) :
    moveCursor ch row column = (false, (row + 1) % 2 ^ 8, 0) := by
  rcases h with rfl | rfl <;> rfl

theorem moveCursor_visible {row column : Nat} (hline : ¬ (ch = 0x0a ∨ ch = 0x0d))
    (htab : ch ≠ 0x09) : moveCursor ch row column = (true, row, column) := by
  unfold moveCursor
  split
  · exact (hline (.inl (UInt8.toNat.inj ‹_›))).elim
  · exact (hline (.inr (UInt8.toNat.inj ‹_›))).elim
  · exact (htab (UInt8.toNat.inj ‹_›)).elim
  · rfl

theorem OnScreen.row_lt (h : OnScreen font c l) : c.row < maxRow := by
  have hrow := h.row
  unfold topRow maxRow at *
  omega

/-- The screen after a character is the one after it in the layout. -/
theorem writeLineBody_ok (hblank : BlankSpace font) (hfits : l.Fits maxColumn)
    (h : OnScreen font c l) (temp : UInt8) : ∃ c', writeLineBody font c temp = .ok c' ∧
      OnScreen font c' (l.put maxColumn temp) := by
  have hrow := h.row_lt
  have hcolumn : l.column ≤ 128 := hfits.column
  unfold TextLayout.put
  by_cases hline : temp = 0x0a ∨ temp = 0x0d
  · obtain ⟨r, frame, hscroll, htop, hcells⟩ :=
      scrollCursor_ok l.newLine hblank h rfl (.inr rfl) hfits.below
    have hwrap : wrapCursor ((c.row + 1) % 2 ^ 8) 0 = (c.row + (l.newLine.row - l.row), 0) := by
      have hmod : (c.row + 1) % 2 ^ 8 = c.row + 1 := by
        unfold maxRow at hrow
        omega
      rw [hmod]
      change (c.row + 1, 0) = (c.row + (l.row + 1 - l.row), 0)
      rw [Nat.add_sub_cancel_left]
    rw [if_pos hline, writeLineBody_eq (moveCursor_newLine hline) hwrap hscroll]
    exact ⟨_, rfl, htop, rfl, hcells, h.chars⟩
  by_cases htab : temp = 0x09
  · obtain ⟨r, frame, hscroll, htop, hcells⟩ :=
      scrollCursor_ok (l.tab.carry maxColumn) hblank h TextLayout.carry_cell
        TextLayout.carry_row hfits.below
    have hmod : (c.column + 8) / 8 * 8 % 2 ^ 8 = l.tab.column := by
      rw [h.column]
      exact Nat.mod_eq_of_lt (by omega)
    have hmove : moveCursor temp c.row c.column = (false, c.row, l.tab.column) := by
      rw [htab, ← hmod]
      rfl
    have hlt : l.tab.column < 2 ^ 8 := by
      unfold TextLayout.tab
      dsimp only
      omega
    rw [if_neg hline, if_pos htab, writeLineBody_eq hmove (wrapCursor_carry hrow hlt) hscroll]
    exact ⟨_, rfl, htop, rfl, hcells, h.chars⟩
  · obtain ⟨r, frame, hscroll, htop, hcells⟩ :=
      scrollCursor_ok (l.carry maxColumn) hblank h TextLayout.carry_cell
        TextLayout.carry_row hfits.below
    have hmove : moveCursor temp c.row c.column = (true, c.row, l.column) := by
      rw [moveCursor_visible hline htab, h.column]
    have hr : r < maxRow := by
      unfold topRow maxRow at *
      omega
    have hk : (l.carry maxColumn).column < maxColumn :=
      TextLayout.carry_column_lt (Nat.lt_of_le_of_lt hcolumn (by decide))
    obtain ⟨frame', hwrite, hshows, hothers⟩ := writeChar_ok font hr hk temp frame
    rw [if_neg hline, if_neg htab, writeLineBody_eq hmove (wrapCursor_carry hrow (by omega)) hscroll,
      if_pos rfl, hwrite]
    refine ⟨_, rfl, htop, ?_, fun i hi j hj => ?_, fun p hp => ?_⟩
    · unfold maxColumn at *
      exact Nat.mod_eq_of_lt (by omega)
    · change Shows font frame' i j (if topRow (l.carry maxColumn) + i = (l.carry maxColumn).row ∧
        j = (l.carry maxColumn).column then temp else (l.carry maxColumn).cell _ j)
      by_cases hcell : i = r ∧ j = (l.carry maxColumn).column
      · rw [hcell.1, hcell.2, if_pos ⟨htop, rfl⟩]
        exact hshows
      · rw [if_neg fun he => hcell ⟨by omega, he.2⟩]
        exact hothers i j _ hj hcell (hcells i hi j hj)
    · rcases List.mem_append.mp hp with hp | hp
      · exact h.chars p hp
      · rw [List.mem_singleton.mp hp]
        exact ⟨hr, hk⟩

end Step

/-! ## Texts -/

/-- The characters of a text, one after another. -/
theorem writeLine_ok {font : List UInt8} (hblank : BlankSpace font) :
    ∀ (text : List UInt8) (c : Console) (l : TextLayout), l.Fits maxColumn → OnScreen font c l →
      ∃ c', writeLine font c text = .ok c' ∧
        (text.foldl (TextLayout.put maxColumn) l).Fits maxColumn ∧
        OnScreen font c' (text.foldl (TextLayout.put maxColumn) l)
  | [], c, l, hfits, h => ⟨c, rfl, hfits, h⟩
  | temp :: text, c, l, hfits, h => by
    obtain ⟨c', hbody, h'⟩ := writeLineBody_ok hblank hfits h temp
    obtain ⟨c'', hrest, h''⟩ := writeLine_ok hblank text c' _ (hfits.put (by decide) temp) h'
    refine ⟨c'', ?_, h''⟩
    rw [writeLine, List.foldlM_cons, hbody]
    exact hrest

/-- The texts of several calls, one after another. -/
theorem writeLines_ok {font : List UInt8} (hblank : BlankSpace font) :
    ∀ (texts : List (List UInt8)) (c : Console) (l : TextLayout), l.Fits maxColumn →
      OnScreen font c l → ∃ c', texts.foldlM (writeLine font) c = .ok c' ∧
        OnScreen font c' (texts.flatten.foldl (TextLayout.put maxColumn) l)
  | [], c, _, _, h => ⟨c, rfl, h⟩
  | text :: texts, c, l, hfits, h => by
    obtain ⟨c', hline, hfits', h'⟩ := writeLine_ok hblank text c l hfits h
    obtain ⟨c'', hrest, h''⟩ := writeLines_ok hblank texts c' _ hfits' h'
    refine ⟨c'', ?_, ?_⟩
    · rw [List.foldlM_cons, hline]
      exact hrest
    · rw [List.flatten_cons, List.foldl_append]
      exact h''

theorem frameBufferClear_onScreen (font : List UInt8) (frame : FrameBuffer) :
    ∃ frame', frameBufferClear font frame = .ok frame' ∧
      OnScreen font ⟨0, 0, frame', []⟩ TextLayout.empty :=
  ⟨_, frameBufferClear_eq font frame, rfl, rfl, fun _ hi _ hj => cleared_shows font frame hi hj,
    fun _ hp => (List.not_mem_nil hp).elim⟩

/--
After the screen is cleared, however many texts are written: no pixel outside of the frame
buffer is read or written, no character is put outside of the screen, and the screen shows the
last rows of the layout of all texts.
-/
theorem console_shows (font : List UInt8) (hblank : BlankSpace font) (frame : FrameBuffer)
    (texts : List (List UInt8)) : ∃ frame' c, frameBufferClear font frame = .ok frame' ∧
      texts.foldlM (writeLine font) ⟨0, 0, frame', []⟩ = .ok c ∧
      OnScreen font c (TextLayout.ofText maxColumn texts.flatten) := by
  obtain ⟨frame', hclear, hstart⟩ := frameBufferClear_onScreen font frame
  obtain ⟨c, hrun, h⟩ := writeLines_ok hblank texts _ _ TextLayout.fits_empty hstart
  exact ⟨frame', c, hclear, hrun, h⟩

/-- A font in which character 1 has a vertical line and the space has no pixels. -/
def lineFont : List UInt8 :=
  List.replicate 43 0x0a ++ List.replicate 9 0x30 ++ List.replicate 5 0x0a ++
    (List.replicate 16 [0x31, 0x30, 0x0a]).flatten

example : asiicVersions lineFont 1 0 3 = 255 := by decide +kernel

/-- The line, a newline and another line. -/
theorem console_shows_two : ∃ frame' c, frameBufferClear lineFont (fun _ => 7) = .ok frame' ∧
    [[1, 0x0a], [1]].foldlM (writeLine lineFont) ⟨0, 0, frame', []⟩ = .ok c ∧
    OnScreen lineFont c (TextLayout.ofText maxColumn [1, 0x0a, 1]) :=
  console_shows lineFont (by unfold BlankSpace; decide +kernel) (fun _ => 7) [[1, 0x0a], [1]]

end Raincloud
