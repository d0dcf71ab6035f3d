import Raincloud.Infra.Loop

/-!
# `PotableGrayMap.c`

The screen is a frame buffer of one word a pixel, in cells of 8 by 16 pixels. An access
outside of the frame buffer is a fault. The glyphs come from the font file in memory.
-/

set_option linter.style.nameCheck false

namespace Raincloud

open Infra

def maxRow : Nat := 48

def maxColumn : Nat := 128

def scrollUpRowNum : Nat := 1

/-! ## `GlyphBDF.c` -/

/-- `file_seek`: behind the given number of lines. -/
def fileSeek (stream : List UInt8) : Nat → List UInt8
  | 0 => stream
  | offset + 1 => fileSeek (stream.dropWhile (· ≠ 0x0a)).tail offset

/-- `BITMAP[i][j]` as `GetBitmapFromGlyphBDF` reads it; `font` is what is read from `font_buf` on. -/
def getBitmapFromGlyphBDF (font : List UInt8) (glyph : UInt8) (i j : Nat) : UInt8 :=
  let stream := fileSeek font (19 + 23 * glyph.toNat)
  let stream := fileSeek stream 1
  let stream := stream.drop 9
  let stream := fileSeek stream (6 - 1)
  stream.getD (3 * i + j) 0

/-! ## Glyphs -/

/-- The pixels that `PGM_ASIIC_versionsInit` sets for a digit, of the four that it stands for. -/
def digitPixels (digit : UInt8) : List Nat :=
  match digit.toNat with
  | 0x31 => [3]
  | 0x32 => [2]
  | 0x33 => [3, 2]
  | 0x34 => [1]
  | 0x35 => [3, 1]
  | 0x36 => [2, 1]
  | 0x37 => [3, 2, 1]
  | 0x38 => [0]
  | 0x39 => [3, 0]
  | 0x41 => [2, 0]
  | 0x42 => [3, 2, 0]
  | 0x43 => [1, 0]
  | 0x44 => [3, 1, 0]
  | 0x45 => [2, 1, 0]
  | 0x46 => [3, 2, 1, 0]
  | _ => []

/-- `ASIIC_versions[i][j]`. -/
def asiicVersions (font : List UInt8) (glyph : UInt8) (i j : Nat) : Nat :=
  if j % 4 ∈ digitPixels (getBitmapFromGlyphBDF font glyph i (j / 4)) then 255 else 0

/-! ## The frame buffer -/

inductive DisplayFault where
  /-- A pixel outside of the frame buffer. -/
  | outside

abbrev FrameBuffer := Nat → Nat

def frameSize : Nat := maxColumn * 8 * maxRow * 16

def readPixel (frame : FrameBuffer) (index : Nat) : Except DisplayFault Nat :=
  if index < frameSize then .ok (frame index) else .error .outside

def writePixel (frame : FrameBuffer) (index value : Nat) : Except DisplayFault FrameBuffer :=
  if index < frameSize then .ok (Function.update frame index value) else .error .outside

/-- The word of a pixel. -/
def grayWord (v : Nat) : Nat := v ||| v <<< 8 ||| v <<< 16

def writePGMData (versions : Nat → Nat → Nat) (row column : Nat) (frame : FrameBuffer) :
    Except DisplayFault FrameBuffer :=
  forLoop 16 (fun i => forLoop 8 fun j frame =>
    writePixel frame ((row * 16 + i) * 8 * maxColumn + column * 8 + j)
      (grayWord (versions i j))) frame

def frameBufferClear (font : List UInt8) (frame : FrameBuffer) : Except DisplayFault FrameBuffer :=
  forLoop maxRow (fun i => forLoop maxColumn fun j =>
    writePGMData (asiicVersions font 0x20) i j) frame

/-- `*(frame_buffer + dst) = *(frame_buffer + src)`. -/
def copyPixel (dst src : Nat) (frame : FrameBuffer) : Except DisplayFault FrameBuffer := do
  let pixel ← readPixel frame src
  writePixel frame dst pixel

def scrollScreen (row : Nat) (frame : FrameBuffer) : Except DisplayFault FrameBuffer := do
  let frame ← forLoop ((maxRow - row) * 16) (fun i => forLoop (maxColumn * 8) fun j =>
    copyPixel (j + i * maxColumn * 8) (j + (i + row * 16) * maxColumn * 8)) frame
  -- `memset`
  forLoop (row * 16 * maxColumn * 8) (fun k frame =>
    writePixel frame ((maxRow - row) * 16 * maxColumn * 8 + k) 0) frame

def writeChar (font : List UInt8) (row col : Nat) (ch : UInt8) (frame : FrameBuffer) :
    Except DisplayFault FrameBuffer :=
  writePGMData (asiicVersions font ch) row col frame

/-! ## `WriteLine` -/

/-- The statics of `WriteLine`, the frame buffer, and the cells of all calls of `WriteChar`. -/
structure Console where
  row : Nat
  column : Nat
  frame : FrameBuffer
  chars : List (Nat × Nat)

/-- The `switch`: whether the character is visible, and the cursor. -/
def moveCursor (temp : UInt8) (row column : Nat) : Bool × Nat × Nat :=
  match temp.toNat with
  | 0x0a | 0x0d => (false, (row + 1) % 2 ^ 8, 0)
  | 0x09 => (false, row, (column + 8) / 8 * 8 % 2 ^ 8)
  | _ => (true, row, column)

/-- A column behind the last one is one of the next row. -/
def wrapCursor (row column : Nat) : Nat × Nat :=
  if maxColumn ≤ column then ((row + 1) % 2 ^ 8, (column + (2 ^ 8 - maxColumn)) % 2 ^ 8)
  else (row, column)

/-- A row behind the last one scrolls the screen. -/
def scrollCursor (row : Nat) (frame : FrameBuffer) : Except DisplayFault (Nat × FrameBuffer) :=
  if maxRow ≤ row then do
    let frame ← scrollScreen scrollUpRowNum frame
    return ((row + (2 ^ 8 - scrollUpRowNum)) % 2 ^ 8, frame)
  else return (row, frame)

/-- The body of the loop of `WriteLine`. -/
def writeLineBody (font : List UInt8) (c : Console) (temp : UInt8) :
    Except DisplayFault Console := do
  let (visible, row, column) := moveCursor temp c.row c.column
  let (row, column) := wrapCursor row column
  let (row, frame) ← scrollCursor row c.frame
  if visible then
    let frame ← writeChar font row column temp frame
    return ⟨row, (column + 1) % 2 ^ 8, frame, c.chars ++ [(row, column)]⟩
  return ⟨row, column, frame, c.chars⟩

/-- A string is the list of its bytes up to the terminator. -/
def writeLine (font : List UInt8) (c : Console) (str : List UInt8) : Except DisplayFault Console :=
  str.foldlM (writeLineBody font) c

end Raincloud
