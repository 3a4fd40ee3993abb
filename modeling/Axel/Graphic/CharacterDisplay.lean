import Axel.Fault

/-!
# The text display

`CharacterDisplay` writes text to the video memory of the text mode, one cell of 16 bits for
each character, row by row. After the last row the screen scrolls up by one row. The
functions of `graphic` are modelled with their checked indices and arithmetic.
-/

namespace Axel

/-- `Position`, a column and a row. -/
structure Position where
  /-- The first coordinate. -/
  x : ℕ
  /-- The second coordinate. -/
  y : ℕ
  deriving DecidableEq, Repr

/-- `Position::area_from_origin`. -/
def Position.areaFromOrigin (self : Position) : Except Fault ℕ := checkedMul self.x self.y

/-- `Color`. -/
inductive Color where
  | rgb (r g b : Int8)
  | code (rgb : UInt32)
  | black
  | blue
  | green
  | cyan
  | red
  | magenta
  | brown
  | lightGray
  | darkGray
  | lightBlue
  | lightGreen
  | lightCyan
  | lightRed
  | lightMagenta
  | yellow
  | white
  deriving DecidableEq

/-- The cells of the video memory: a slice, which has at most `isize::MAX` bytes. -/
structure Vram where
  /-- The cells. -/
  cells : List UInt16
  /-- Two bytes for each cell. -/
  fits : 2 * cells.length < 2 ^ 63

/-- `vram[i]`. -/
def Vram.get (vram : Vram) (i : ℕ) : Except Fault UInt16 :=
  match vram.cells[i]? with
  | some cell => .ok cell
  | none => .error .indexOutOfBounds

/-- `vram[i] = cell`. -/
def Vram.set (vram : Vram) (i : ℕ) (cell : UInt16) : Except Fault Vram :=
  if i < vram.cells.length then
    .ok ⟨vram.cells.set i cell, by rw [List.length_set]; exact vram.fits⟩
  else .error .indexOutOfBounds

/-- `CharacterDisplay`. -/
structure CharacterDisplay where
  /-- The video memory. -/
  vram : Vram
  /-- The cursor. -/
  currentPosition : Position
  /-- The width and the height of the screen. -/
  maxPosition : Position
  /-- The background colour. -/
  colorBackground : Color
  /-- The foreground colour. -/
  colorForeground : Color

namespace CharacterDisplay

/-- `CharacterDisplay::new`, where `memory` is what the video memory holds: a slice of as many
cells as the area needs, and the default position and colours. -/
def new (memory : ℕ → UInt16) (maxP : Position) : Except Fault CharacterDisplay := do
  let maxTextsNum ← maxP.areaFromOrigin
  if h : 2 * maxTextsNum < 2 ^ 63 then
    return {
      vram := ⟨(List.range maxTextsNum).map memory, by
        rw [List.length_map, List.length_range]; exact h⟩
      currentPosition := ⟨0, 0⟩
      maxPosition := maxP
      colorBackground := .black
      colorForeground := .lightRed }
  else .error .overflow

/-- `CharacterDisplay::set_current_position`. -/
def setCurrentPosition (self : CharacterDisplay) (pos : Position) : CharacterDisplay :=
  { self with currentPosition := pos }

/-- `CharacterDisplay::color`. -/
def color : Color → Except Fault UInt8
  | .black => .ok 0x0
  | .blue => .ok 0x1
  | .green => .ok 0x2
  | .cyan => .ok 0x3
  | .red => .ok 0x4
  | .magenta => .ok 0x5
  | .brown => .ok 0x6
  | .lightGray => .ok 0x7
  | .darkGray => .ok 0x8
  | .lightBlue => .ok 0x9
  | .lightGreen => .ok 0xA
  | .lightCyan => .ok 0xB
  | .lightRed => .ok 0xC
  | .lightMagenta => .ok 0xD
  | .yellow => .ok 0xE
  | .white => .ok 0xF
  | .rgb _ _ _ => .error .panic
  | .code _ => .error .panic

/-- `CharacterDisplay::gen_pixel`. The conversion of the character keeps its lower 16 bits. -/
def genPixel (self : CharacterDisplay) (c : Char) : Except Fault UInt16 := do
  let bg ← color self.colorBackground
  let fg ← color self.colorForeground
  return (bg.toUInt16 <<< 12) ||| (fg.toUInt16 <<< 8) ||| c.val.toUInt16

/-- `Display::set_color_background`. -/
def setColorBackground (self : CharacterDisplay) (bg : Color) : CharacterDisplay :=
  { self with colorBackground := bg }

/-- `Display::set_color_foreground`. -/
def setColorForeground (self : CharacterDisplay) (fg : Color) : CharacterDisplay :=
  { self with colorForeground := fg }

/-- A loop that writes one value to the remaining cells. -/
def fillCells (cell : UInt16) : List ℕ → Vram → Except Fault Vram
  | [], vram => .ok vram
  | i :: rest, vram => do
    let vram ← vram.set i cell
    fillCells cell rest vram

/-- The loop of `print` that moves the remaining cells up by one row. -/
def scrollCells (width : ℕ) : List ℕ → Vram → Except Fault Vram
  | [], vram => .ok vram
  | i :: rest, vram => do
    let cell ← vram.get i
    let target ← checkedSub i width
    let vram ← vram.set target cell
    scrollCells width rest vram

/-- `Display::clear_screen`. -/
def clearScreen (self : CharacterDisplay) : Except Fault CharacterDisplay := do
  let space ← self.genPixel ' '
  let area ← self.maxPosition.areaFromOrigin
  let vram ← fillCells space (List.range area) self.vram
  return { self with vram }

/-- The part of the loop body of `print` that writes one character or starts a new line. -/
def putChar (self : CharacterDisplay) (c : Char) : Except Fault CharacterDisplay := do
  let width := self.maxPosition.x
  let ⟨x, y⟩ := self.currentPosition
  if c ≠ '\n' then
    let code ← self.genPixel c
    let offset ← checkedMul y width
    let index ← checkedAdd x offset
    let vram ← self.vram.set index code
    let x ← checkedAdd x 1
    return { self with vram, currentPosition := ⟨x, y⟩ }
  else
    let y ← checkedAdd y 1
    return { self with currentPosition := ⟨0, y⟩ }

/-- The part of the loop body of `print` that wraps a full line. -/
def wrapLine (self : CharacterDisplay) : Except Fault CharacterDisplay := do
  let ⟨x, y⟩ := self.currentPosition
  if self.maxPosition.x ≤ x then
    let y ← checkedAdd y 1
    return { self with currentPosition := ⟨0, y⟩ }
  else return self

/-- The part of the loop body of `print` that scrolls the screen. -/
def scrollDown (self : CharacterDisplay) (space : UInt16) : Except Fault CharacterDisplay := do
  let ⟨width, height⟩ := self.maxPosition
  let ⟨x, y⟩ := self.currentPosition
  if height ≤ y then
    let area ← self.maxPosition.areaFromOrigin
    let vram ← scrollCells width (List.range' width (area - width)) self.vram
    let rows ← checkedSub height 1
    let lastLine ← checkedMul width rows
    let area ← self.maxPosition.areaFromOrigin
    let vram ← fillCells space (List.range' lastLine (area - lastLine)) vram
    let y ← checkedSub y 1
    return { self with vram, currentPosition := ⟨x, y⟩ }
  else return self

/-- The loop body of `print`. -/
def printChar (self : CharacterDisplay) (c : Char) : Except Fault CharacterDisplay := do
  let self ← self.putChar c
  let space ← self.genPixel ' '
  let self ← self.wrapLine
  self.scrollDown space

/-- The loop of `print` over the remaining characters. -/
def printChars (self : CharacterDisplay) : List Char → Except Fault CharacterDisplay
  | [] => .ok self
  | c :: rest => do
    let self ← self.printChar c
    self.printChars rest

/-- `Display::print`. -/
def print (self : CharacterDisplay) (string : String) : Except Fault CharacterDisplay :=
  self.printChars string.toList

/-- `Display::println`. -/
def println (self : CharacterDisplay) (s : String) : Except Fault CharacterDisplay := do
  let self ← self.print s
  self.print "\n"

/-- `fmt::Write::write_str`, which always returns `Ok(())`. -/
def writeStr (self : CharacterDisplay) (s : String) : Except Fault CharacterDisplay :=
  self.print s

end CharacterDisplay

end Axel
