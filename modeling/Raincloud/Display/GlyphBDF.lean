import Raincloud.Display.PotableGrayMap
import Raincloud.Infra.Lines

/-!
# `GlyphBDF.c`

The font buffer is the list of its bytes, and a pointer into it is what is left of it from there
on. A read behind its end is refused.
-/

set_option linter.style.nameCheck false

namespace Raincloud.Glyph

open Infra

/-! ## The functions -/

def newline : UInt8 := 0x0a

structure GlyphBDF where
  encodin : UInt8
  bitmap : List (List UInt8)
  fileOffset : List Nat

def glyphBDFInit (glyphBDF : GlyphBDF) : GlyphBDF := { glyphBDF with fileOffset := [19, 23, 1, 6] }

/-- To the newline, and over it. -/
def seekLine : List UInt8 → Option (List UInt8)
  | [] => none
  | c :: stream => if c ≠ newline then seekLine stream else some stream

def fileSeek (stream : List UInt8) : Nat → Option (List UInt8)
  | 0 => some stream
  | offset + 1 => do
    let stream ← seekLine stream
    fileSeek stream offset

/-- The loop over `j`. -/
def readDigits : Nat → List UInt8 → Option (List UInt8 × List UInt8)
  | 0, stream => some ([], stream)
  | n + 1, stream => do
    let c ← stream.head?
    let (row, stream) ← readDigits n (stream.drop 1)
    return (c :: row, stream)

/-- The loop over `i`. -/
def readRows : Nat → List UInt8 → Option (List (List UInt8))
  | 0, _ => some []
  | n + 1, stream => do
    let (row, stream) ← readDigits 2 stream
    let rows ← readRows n (stream.drop 1)
    return row :: rows

/-- Two digits of the number, or three from 'd' on. -/
def readEncodin (glyph : UInt8) (stream : List UInt8) : Option UInt8 :=
  if glyph < 0x64 then do
    let a ← stream[0]?
    let b ← stream[1]?
    return (a - 0x30) * 10 + (b - 0x30)
  else do
    let a ← stream[0]?
    let b ← stream[1]?
    let c ← stream[2]?
    return (a - 0x30) * 100 + (b - 0x30) * 10 + (c - 0x30)

def getBitmap (fontBuf : List UInt8) (glyphBDF : GlyphBDF) (glyph : UInt8) : Option GlyphBDF := do
  let off := fun i => glyphBDF.fileOffset.getD i 0
  let stream ← fileSeek fontBuf (off 0 + off 1 * glyph.toNat)
  let stream ← fileSeek stream (off 2)
  let stream := stream.drop 9
  let encodin ← readEncodin glyph stream
  let stream ← fileSeek stream (off 3 - off 2)
  let bitmap ← readRows 16 stream
  return { glyphBDF with encodin := encodin, bitmap := bitmap }

/-! ## The font file -/

/-- '0' to '9' and 'A' to 'F'. -/
def isHexDigit (c : UInt8) : Prop := (0x30 ≤ c ∧ c ≤ 0x39) ∨ (0x41 ≤ c ∧ c ≤ 0x46)

instance (c : UInt8) : Decidable (isHexDigit c) := inferInstanceAs (Decidable (_ ∨ _))

/-- The lines of a glyph. Those of its bitmap have two digits, or four if it is wide. -/
structure GlyphLines where
  startchar : List UInt8
  /-- What is behind "ENCODING ". -/
  encoding : List UInt8
  swidth : List UInt8
  dwidth : List UInt8
  bbx : List UInt8
  bitmap : List UInt8
  wide : Bool
  rows : List (List UInt8)
  endchar : List UInt8
  noNewline : ∀ l ∈ [startchar, encoding, swidth, dwidth, bbx, bitmap, endchar], newline ∉ l
  rows_length : rows.length = 16
  width : ∀ row ∈ rows, row.length = if wide then 4 else 2
  hex : ∀ row ∈ rows, ∀ c ∈ row, isHexDigit c

/-- "ENCODING " -/
def encodingWord : List UInt8 := [0x45, 0x4e, 0x43, 0x4f, 0x44, 0x49, 0x4e, 0x47, 0x20]

def GlyphLines.lines (g : GlyphLines) : List (List UInt8) :=
  [g.startchar, encodingWord ++ g.encoding, g.swidth, g.dwidth, g.bbx, g.bitmap] ++ g.rows ++
    [g.endchar]

structure FontLines where
  header : List (List UInt8)
  glyphs : List GlyphLines
  header_length : header.length = 19
  noNewline : ∀ l ∈ header, newline ∉ l

def FontLines.text (f : FontLines) : List UInt8 :=
  joinLines newline (f.header ++ f.glyphs.flatMap GlyphLines.lines)

/-- The rows of the glyph are in `BITMAP`, and nothing was read outside of the buffer. -/
def RowsRight (fontBuf : List UInt8) (glyph : UInt8) (g : GlyphLines) : Prop :=
  ∀ s, ∃ s', getBitmap fontBuf (glyphBDFInit s) glyph = some s' ∧
    s'.bitmap = g.rows.map (·.take 2)

/-! ## Seeking -/

variable {l rest : List UInt8} {rows : List (List UInt8)} {n : Nat} {g : GlyphLines}
  {f : FontLines} {glyph : UInt8}

theorem seekLine_eq (l : List UInt8) : seekLine l = skipLine newline l := by
  induction l with
  | nil => rfl
  | cons c l ih =>
    unfold seekLine skipLine
    by_cases hc : c = newline
    · rw [if_neg (not_not.mpr hc), if_pos hc]
    · rw [if_pos hc, if_neg hc, ih]

theorem fileSeek_eq (n : Nat) (l : List UInt8) : fileSeek l n = skipLines newline n l := by
  induction n generalizing l with
  | zero => rfl
  | succ n ih =>
    rw [fileSeek, skipLines, seekLine_eq]
    cases skipLine newline l with
    | none => rfl
    | some l' => exact ih l'

theorem seekLine_dropWhile {l l' : List UInt8} (h : seekLine l = some l') :
    (l.dropWhile (· ≠ newline)).tail = l' := by
  induction l with
  | nil => cases h
  | cons c l ih =>
    unfold seekLine at h
    by_cases hc : c ≠ newline
    · rw [if_pos hc] at h
      rw [List.dropWhile_cons, if_pos (decide_eq_true hc)]
      exact ih h
    · rw [if_neg hc] at h
      rw [List.dropWhile_cons, if_neg (by simpa using hc)]
      exact Option.some.inj h

/-- The unchecked function gets to the same place. -/
theorem fileSeek_unchecked (h : fileSeek l n = some rest) : Raincloud.fileSeek l n = rest := by
  induction n generalizing l with
  | zero => exact Option.some.inj h
  | succ n ih =>
    obtain ⟨l', hl', hrest⟩ := Option.bind_eq_some_iff.mp h
    have hline := seekLine_dropWhile hl'
    change Raincloud.fileSeek (l.dropWhile (· ≠ newline)).tail n = rest
    rw [hline]
    exact ih hrest

/-! ## Rows -/

theorem readRows_succ (a b : UInt8) (l : List UInt8) (n : Nat) :
    readRows (n + 1) (a :: b :: l) = (readRows n (l.drop 1)).map ([a, b] :: ·) := by
  have hrow : readDigits 2 (a :: b :: l) = some ([a, b], l) := rfl
  rw [readRows, hrow]
  simp only [Option.bind_eq_bind, Option.bind_some]
  cases readRows n (l.drop 1) with
  | none => rfl
  | some rows => rfl

/-- Lines of two digits are the rows. -/
theorem readRows_narrow (h : ∀ row ∈ rows, row.length = 2) (rest : List UInt8) :
    readRows rows.length (joinLines newline rows ++ rest) = some rows := by
  induction rows with
  | nil => rfl
  | cons row rows ih =>
    obtain ⟨a, b, rfl⟩ := List.length_eq_two.mp (h row List.mem_cons_self)
    rw [joinLines_cons, List.append_assoc, List.length_cons, List.cons_append, List.cons_append,
      List.nil_append, List.cons_append, readRows_succ, List.drop_succ_cons, List.drop_zero,
      ih fun r hr => h r (List.mem_cons_of_mem _ hr)]
    rfl

/-- The rows start three bytes apart. -/
theorem readRows_strides (h : 3 * n ≤ l.length) : ∃ rows, readRows n l = some rows ∧
    ∀ i < n, rows[i]? = some ((l.drop (3 * i)).take 2) := by
  induction n generalizing l with
  | zero => exact ⟨[], rfl, fun i hi => absurd hi (Nat.not_lt_zero i)⟩
  | succ n ih =>
    match l, h with
    | a :: b :: c :: l, h =>
      obtain ⟨rows, hrows, hget⟩ := ih (l := l) (by simp only [List.length_cons] at h; omega)
      refine ⟨[a, b] :: rows, ?_, fun i hi => ?_⟩
      · rw [readRows_succ, List.drop_succ_cons, List.drop_zero, hrows]
        rfl
      · cases i with
        | zero => rfl
        | succ i =>
          rw [List.getElem?_cons_succ, hget i (Nat.lt_of_succ_lt_succ hi), Nat.mul_succ]
          rfl

/-! ## The place of a glyph -/

theorem GlyphLines.lines_length (g : GlyphLines) : g.lines.length = 23 := by
  unfold GlyphLines.lines
  rw [List.length_append, List.length_append, g.rows_length]
  rfl

theorem lines_flatMap_length (gs : List GlyphLines) :
    (gs.flatMap GlyphLines.lines).length = 23 * gs.length := by
  induction gs with
  | nil => rfl
  | cons g gs ih =>
    rw [List.flatMap_cons, List.length_append, g.lines_length, ih, List.length_cons]
    omega

theorem hex_ne_newline {c : UInt8} (h : isHexDigit c) : c ≠ newline := by
  rintro rfl
  exact absurd h (by decide)

theorem GlyphLines.row_noNewline (g : GlyphLines) : ∀ row ∈ g.rows, newline ∉ row :=
  fun row hrow hmem => hex_ne_newline (g.hex row hrow newline hmem) rfl

theorem encodingWord_noNewline : newline ∉ encodingWord := by decide

theorem GlyphLines.lines_noNewline (g : GlyphLines) : ∀ l ∈ g.lines, newline ∉ l := by
  have h := g.noNewline
  simp only [List.forall_mem_cons] at h
  obtain ⟨hstart, hencoding, hs, hd, hb, hbitmap, hend, -⟩ := h
  unfold GlyphLines.lines
  intro l hl
  simp only [List.mem_append, List.mem_cons, List.not_mem_nil, or_false] at hl
  rcases hl with ((rfl | rfl | rfl | rfl | rfl | rfl) | hrow) | rfl
  · exact hstart
  · exact fun hmem => (List.mem_append.mp hmem).elim encodingWord_noNewline hencoding
  · exact hs
  · exact hd
  · exact hb
  · exact hbitmap
  · exact g.row_noNewline l hrow
  · exact hend

/-- The lines in front of a glyph are those of the header and of the glyphs before it. -/
theorem seek_glyph (hg : f.glyphs[n]? = some g) (rest : List UInt8) : ∃ after,
    fileSeek (f.text ++ rest) (19 + 23 * n) = some (joinLines newline g.lines ++ after) := by
  obtain ⟨hn, rfl⟩ := List.getElem?_eq_some_iff.mp hg
  let front := f.header ++ (f.glyphs.take n).flatMap GlyphLines.lines
  have hsplit : f.text = joinLines newline front ++ (joinLines newline f.glyphs[n].lines ++
      joinLines newline ((f.glyphs.drop (n + 1)).flatMap GlyphLines.lines)) := by
    have hglyphs : f.glyphs = f.glyphs.take n ++ f.glyphs[n] :: f.glyphs.drop (n + 1) := by
      rw [← List.drop_eq_getElem_cons hn, List.take_append_drop]
    unfold FontLines.text
    conv_lhs => rw [hglyphs]
    rw [List.flatMap_append, List.flatMap_cons, ← List.append_assoc, joinLines_append,
      joinLines_append, joinLines_append]
  have hlength : front.length = 19 + 23 * n := by
    rw [List.length_append, f.header_length, lines_flatMap_length, List.length_take,
      Nat.min_eq_left (Nat.le_of_lt hn)]
  have hnl : ∀ l ∈ front, newline ∉ l := fun l hl => by
    rcases List.mem_append.mp hl with hl | hl
    · exact f.noNewline l hl
    · obtain ⟨g, -, hmem⟩ := List.mem_flatMap.mp hl
      exact g.lines_noNewline l hmem
  refine ⟨joinLines newline ((f.glyphs.drop (n + 1)).flatMap GlyphLines.lines) ++ rest, ?_⟩
  rw [fileSeek_eq, hsplit, List.append_assoc, List.append_assoc, ← hlength, skipLines_join hnl]

/-- What is behind "ENCODING " in the buffer, with the rows five lines further on. -/
theorem GlyphLines.split (g : GlyphLines) (after : List UInt8) : ∃ tail,
    joinLines newline g.lines ++ after =
      g.startchar ++ newline :: (encodingWord ++ (joinLines newline
        [g.encoding, g.swidth, g.dwidth, g.bbx, g.bitmap] ++
          (joinLines newline g.rows ++ tail))) := by
  refine ⟨joinLines newline [g.endchar] ++ after, ?_⟩
  unfold GlyphLines.lines
  simp only [joinLines_append, joinLines_cons, joinLines_nil, List.append_assoc, List.cons_append,
    List.nil_append]

theorem readEncodin_some (glyph : UInt8) (h : 3 ≤ l.length) :
    ∃ e, readEncodin glyph l = some e := by
  match l, h with
  | a :: b :: c :: l, _ =>
    unfold readEncodin
    split
    · exact ⟨_, rfl⟩
    · exact ⟨_, rfl⟩

theorem getBitmap_init (fontBuf : List UInt8) (s : GlyphBDF) (glyph : UInt8) :
    getBitmap fontBuf (glyphBDFInit s) glyph =
      (fileSeek fontBuf (19 + 23 * glyph.toNat)).bind fun stream =>
        (fileSeek stream 1).bind fun stream =>
          (readEncodin glyph (stream.drop 9)).bind fun encodin =>
            (fileSeek (stream.drop 9) 5).bind fun stream => (readRows 16 stream).bind fun bitmap =>
              some { glyphBDFInit s with encodin := encodin, bitmap := bitmap } := rfl

/-- Wherever a glyph stands, what is read are the bytes from its first row on. -/
theorem getBitmap_eq (hg : f.glyphs[glyph.toNat]? = some g) (rest : List UInt8) (s : GlyphBDF) :
    ∃ encodin tail, getBitmap (f.text ++ rest) (glyphBDFInit s) glyph =
      (readRows 16 (joinLines newline g.rows ++ tail)).map fun bitmap =>
        { glyphBDFInit s with encodin := encodin, bitmap := bitmap } := by
  obtain ⟨after, hseek⟩ := seek_glyph hg rest
  obtain ⟨tail, hsplit⟩ := g.split after
  have hnl := g.noNewline
  simp only [List.forall_mem_cons] at hnl
  obtain ⟨hstart, hencoding, hs, hd, hb, hbitmap, -⟩ := hnl
  have hfive : ∀ l ∈ [g.encoding, g.swidth, g.dwidth, g.bbx, g.bitmap], newline ∉ l := by
    simp only [List.forall_mem_cons]
    exact ⟨hencoding, hs, hd, hb, hbitmap, fun l hl => absurd hl List.not_mem_nil⟩
  have hrows : ∀ body, fileSeek (joinLines newline
      [g.encoding, g.swidth, g.dwidth, g.bbx, g.bitmap] ++ body) 5 = some body := fun body => by
    rw [fileSeek_eq]
    exact skipLines_join hfive
  have hline : fileSeek (joinLines newline g.lines ++ after) 1 = some (encodingWord ++
      (joinLines newline [g.encoding, g.swidth, g.dwidth, g.bbx, g.bitmap] ++
        (joinLines newline g.rows ++ tail))) := by
    rw [fileSeek_eq, hsplit, skipLines, skipLine_line hstart]
    rfl
  obtain ⟨encodin, hencodin⟩ : ∃ e, readEncodin glyph (joinLines newline
      [g.encoding, g.swidth, g.dwidth, g.bbx, g.bitmap] ++
        (joinLines newline g.rows ++ tail)) = some e := by
    have hlines : [g.encoding, g.swidth, g.dwidth, g.bbx, g.bitmap].length ≤
        (joinLines newline [g.encoding, g.swidth, g.dwidth, g.bbx, g.bitmap]).length :=
      length_le_joinLines
    change 5 ≤ _ at hlines
    refine readEncodin_some glyph ?_
    rw [List.length_append]
    omega
  have hnine : ∀ body, (encodingWord ++ body).drop 9 = body := fun body => rfl
  refine ⟨encodin, tail, ?_⟩
  rw [getBitmap_init, hseek, Option.bind_some, hline, Option.bind_some, hnine, hencodin,
    Option.bind_some, hrows, Option.bind_some]
  cases readRows 16 (joinLines newline g.rows ++ tail) with
  | none => rfl
  | some rows => rfl

/-! ## The rows of a glyph -/

theorem length_joinLines {w : Nat} (h : ∀ row ∈ rows, row.length = w) :
    (joinLines newline rows).length = rows.length * (w + 1) := by
  induction rows with
  | nil => exact (Nat.zero_mul _).symm
  | cons row rows ih =>
    rw [joinLines_cons, List.length_append, List.length_cons, List.length_cons,
      h row List.mem_cons_self, ih fun r hr => h r (List.mem_cons_of_mem row hr), Nat.succ_mul]
    omega

/-- Whatever the width, nothing is read outside of the buffer. -/
theorem getBitmap_inside (hg : f.glyphs[glyph.toNat]? = some g) (rest : List UInt8) (s : GlyphBDF) :
    ∃ s' tail, getBitmap (f.text ++ rest) (glyphBDFInit s) glyph = some s' ∧
      readRows 16 (joinLines newline g.rows ++ tail) = some s'.bitmap := by
  obtain ⟨encodin, tail, hrun⟩ := getBitmap_eq hg rest s
  have hlen : 3 * 16 ≤ (joinLines newline g.rows ++ tail).length := by
    rw [List.length_append, length_joinLines g.width, g.rows_length]
    split <;> omega
  obtain ⟨rows, hrows, -⟩ := readRows_strides hlen
  rw [hrows] at hrun
  exact ⟨_, tail, hrun, hrows⟩

/-- A row of two digits is a line. -/
theorem narrow_right (hg : f.glyphs[glyph.toNat]? = some g) (hw : g.wide = false)
    (rest : List UInt8) : RowsRight (f.text ++ rest) glyph g := fun s => by
  obtain ⟨s', tail, hrun, hrows⟩ := getBitmap_inside hg rest s
  have hwidth : ∀ row ∈ g.rows, row.length = 2 := fun row hrow => by
    rw [g.width row hrow, hw]
    rfl
  have hread := readRows_narrow hwidth tail
  rw [g.rows_length, hrows] at hread
  have htake : g.rows.map (·.take 2) = g.rows := by
    refine (List.map_congr_left fun row hrow => ?_).trans (List.map_id g.rows)
    exact List.take_of_length_le (Nat.le_of_eq (hwidth row hrow))
  exact ⟨s', hrun, by rw [htake, Option.some.inj hread]⟩

theorem four_digits (h : l.length = 4) : ∃ a b c d, l = [a, b, c, d] := by
  match l, h with
  | [a, b, c, d], _ => exact ⟨a, b, c, d, rfl⟩

/-- With four digits the second row is the end of the first line, newline and all. -/
theorem wide_not_right (hg : f.glyphs[glyph.toNat]? = some g) (hw : g.wide = true)
    (rest : List UInt8) : ¬ RowsRight (f.text ++ rest) glyph g := fun h => by
  obtain ⟨s', tail, hrun, hrows⟩ := getBitmap_inside hg rest ⟨0, [], []⟩
  obtain ⟨s'', hrun', hbitmap⟩ := h ⟨0, [], []⟩
  obtain rfl := Option.some.inj (hrun.symm.trans hrun')
  have hlength := g.rows_length
  have hwidth := g.width
  have hhex := g.hex
  rw [hw, if_pos rfl] at hwidth
  rw [hbitmap] at hrows
  match hr : g.rows, hlength with
  | r0 :: r1 :: rows, _ =>
    rw [hr] at hrows hwidth hhex
    obtain ⟨a, b, c, d, rfl⟩ := four_digits (hwidth r0 List.mem_cons_self)
    have hmem : r1 ∈ [a, b, c, d] :: r1 :: rows := List.mem_cons_of_mem _ List.mem_cons_self
    obtain ⟨a', b', c', d', rfl⟩ := four_digits (hwidth r1 hmem)
    obtain ⟨body, hbody⟩ : ∃ body, joinLines newline ([a, b, c, d] :: [a', b', c', d'] :: rows) ++
        tail = a :: b :: c :: d :: newline :: body := ⟨_, by rw [joinLines_cons]; rfl⟩
    rw [hbody, readRows_succ, List.drop_succ_cons, List.drop_zero, readRows_succ,
      Option.map_map] at hrows
    obtain ⟨rows', -, he⟩ := Option.map_eq_some_iff.mp hrows
    have hsecond : [d, newline] = [a', b'] := (List.cons.inj (List.cons.inj he).2).1
    have hnewline : newline = b' := (List.cons.inj (List.cons.inj hsecond).2).1
    exact hex_ne_newline (hhex _ hmem b' (by simp)) hnewline.symm

/--
The rows of a glyph are in `BITMAP` if and only if it is not wide. A wide one is read inside of
the buffer, but in the wrong places.
-/
theorem rowsRight_iff (hg : f.glyphs[glyph.toNat]? = some g) (rest : List UInt8) :
    RowsRight (f.text ++ rest) glyph g ↔ g.wide = false := by
  constructor
  · intro h
    exact Bool.eq_false_iff.mpr fun hw => wide_not_right hg hw rest h
  · intro hw
    exact narrow_right hg hw rest

/-- A glyph with the same digit everywhere. -/
def plainGlyph (wide : Bool) (c : UInt8) (hc : isHexDigit c) : GlyphLines where
  startchar := []
  encoding := [0x30]
  swidth := []
  dwidth := []
  bbx := []
  bitmap := []
  wide := wide
  rows := List.replicate 16 (List.replicate (if wide then 4 else 2) c)
  endchar := []
  noNewline := by decide
  rows_length := List.length_replicate
  width := fun r hr => by rw [(List.mem_replicate.mp hr).2, List.length_replicate]
  hex := fun r hr x hx => by
    rw [(List.mem_replicate.mp hr).2] at hx
    rwa [(List.mem_replicate.mp hx).2]

def oneGlyph (g : GlyphLines) : FontLines where
  header := List.replicate 19 []
  glyphs := [g]
  header_length := List.length_replicate
  noNewline := fun l hl => by
    rw [(List.mem_replicate.mp hl).2]
    exact List.not_mem_nil

/-- Rows "11". -/
theorem rowsRight_narrow : RowsRight ((oneGlyph (plainGlyph false 0x31 (by decide))).text ++ []) 0
    (plainGlyph false 0x31 (by decide)) :=
  (rowsRight_iff rfl []).mpr rfl

/-- Rows "AAAA". -/
theorem wide_glyph_misread : ¬ RowsRight
    ((oneGlyph (plainGlyph true 0x41 (by decide))).text ++ []) 0
    (plainGlyph true 0x41 (by decide)) :=
  wide_not_right rfl rfl []

/-! ## The unchecked function -/

theorem readRows_unchecked (h : readRows n l = some rows) :
    ∀ i < n, rows[i]? = some [l.getD (3 * i) 0, l.getD (3 * i + 1) 0] := by
  induction n generalizing l rows with
  | zero => exact fun i hi => absurd hi (Nat.not_lt_zero i)
  | succ n ih =>
    match l, h with
    | a :: b :: l, h =>
      rw [readRows_succ] at h
      obtain ⟨rows', hrows, rfl⟩ := Option.map_eq_some_iff.mp h
      intro i hi
      cases i with
      | zero => rfl
      | succ i =>
        have hplace : ∀ j, (l.drop 1).getD j 0 = (a :: b :: l).getD (j + 3) 0 := fun j => by
          rw [List.getD_eq_getElem?_getD, List.getD_eq_getElem?_getD, List.getElem?_drop,
            Nat.add_comm 1 j]
          rfl
        rw [List.getElem?_cons_succ, ih hrows i (Nat.lt_of_succ_lt_succ hi), hplace, hplace,
          Nat.mul_succ, Nat.add_right_comm]

/-- Where nothing is read outside of the buffer the checks make no difference. -/
theorem getBitmap_unchecked {fontBuf : List UInt8} {s s' : GlyphBDF}
    (h : getBitmap fontBuf (glyphBDFInit s) glyph = some s') : ∀ i < 16, s'.bitmap[i]? =
      some [getBitmapFromGlyphBDF fontBuf glyph i 0, getBitmapFromGlyphBDF fontBuf glyph i 1] := by
  rw [getBitmap_init] at h
  obtain ⟨stream, hstart, h⟩ := Option.bind_eq_some_iff.mp h
  obtain ⟨line, hline, h⟩ := Option.bind_eq_some_iff.mp h
  obtain ⟨encodin, -, h⟩ := Option.bind_eq_some_iff.mp h
  obtain ⟨body, hbody, h⟩ := Option.bind_eq_some_iff.mp h
  obtain ⟨rows, hrows, h⟩ := Option.bind_eq_some_iff.mp h
  obtain rfl := Option.some.inj h
  have hseek : Raincloud.fileSeek ((Raincloud.fileSeek (Raincloud.fileSeek fontBuf
      (19 + 23 * glyph.toNat)) 1).drop 9) (6 - 1) = body := by
    rw [fileSeek_unchecked hstart, fileSeek_unchecked hline, fileSeek_unchecked hbody]
  intro i hi
  unfold getBitmapFromGlyphBDF
  dsimp only
  rw [hseek]
  exact readRows_unchecked hrows i hi

end Raincloud.Glyph
