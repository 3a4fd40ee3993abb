import Axel.Graphic.CharacterDisplay
import Axel.Lib.Strides

/-!
# The graphical display

`GraphicalDisplay` writes pixels to a linear framebuffer. A colour is packed into a word as
the bit information of the video mode says, and the fill routines store that word pixel by
pixel. Memory is a function from addresses to bytes, and words are stored with the lowest byte
first.
-/

namespace Axel

/-- Addition of `u8` values with the overflow check of a debug build. -/
def checkedAddU8 (a b : UInt8) : Except Fault UInt8 :=
  if a.toNat + b.toNat < 2 ^ 8 then .ok (a + b) else .error .overflow

/-- A left shift of a `u32` value with the overflow check of a debug build, which is about the
number of places. -/
def checkedShl (a : UInt32) (places : UInt8) : Except Fault UInt32 :=
  if places.toNat < 32 then .ok (a <<< places.toUInt32) else .error .overflow

/-- `ColorBitInfo`, the size and the position of each component in bits. -/
structure ColorBitInfo where
  /-- The size of the red component. -/
  sizeR : UInt8
  /-- The size of the green component. -/
  sizeG : UInt8
  /-- The size of the blue component. -/
  sizeB : UInt8
  /-- The size of the reserved bits. -/
  sizeRsvd : UInt8
  /-- The position of the red component. -/
  posR : UInt8
  /-- The position of the green component. -/
  posG : UInt8
  /-- The position of the blue component. -/
  posB : UInt8
  /-- The position of the reserved bits. -/
  posRsvd : UInt8
  deriving DecidableEq

/-- `GraphicalDisplay`. -/
structure GraphicalDisplay where
  /-- The address of the framebuffer. -/
  vramAddr : ℕ
  /-- The width and the height of the screen. -/
  maxPosition : Position
  /-- The layout of a pixel. -/
  bitInfo : ColorBitInfo
  /-- The size of a pixel. -/
  bytePerPixel : ℕ
  deriving DecidableEq

/-- The components at their positions in one word. -/
def ColorBitInfo.pack (self : ColorBitInfo) (r g b : UInt32) : Except Fault UInt32 := do
  let rsvd ← checkedShl 0 self.posRsvd
  let r ← checkedShl r self.posR
  let g ← checkedShl g self.posG
  let b ← checkedShl b self.posB
  .ok (rsvd ||| r ||| g ||| b)

namespace GraphicalDisplay

/-- `GraphicalDisplay::new`. -/
def new (vramAddr : ℕ) (maxPosition : Position) (bitInfo : ColorBitInfo) :
    Except Fault GraphicalDisplay := do
  let sizeRG ← checkedAddU8 bitInfo.sizeR bitInfo.sizeG
  let sizeRGB ← checkedAddU8 sizeRG bitInfo.sizeB
  let size ← checkedAddU8 sizeRGB bitInfo.sizeRsvd
  let bpp := size / 8
  .ok { vramAddr, maxPosition, bitInfo, bytePerPixel := bpp.toNat }

/-- `GraphicalDisplay::color`. The components of `Color::Rgb` are signed bytes. -/
def color (self : GraphicalDisplay) : Color → Except Fault UInt32
  | .black => .ok 0x0
  | .blue => .ok 0x1
  | .green => .ok 0x2
  | .cyan => .ok 0x3
  | .red => .ok 0x4
  | .magenta => .ok 0x5
  | .brown => .ok 0x6
  | .lightGray => .ok 0x7
  | .darkGray => .ok 0x8
  | .lightBlue => .ok 0x9
  | .lightGreen => .ok 0xA
  | .lightCyan => .ok 0xB
  | .lightRed => .ok 0xC
  | .lightMagenta => .ok 0xD
  | .yellow => .ok 0xE
  | .white => .ok 0xF
  | .code rgb =>
    let r := (rgb >>> 16).toUInt8
    let g := (rgb >>> 8).toUInt8
    let b := (rgb &&& 0xFF).toUInt8
    self.bitInfo.pack r.toUInt32 g.toUInt32 b.toUInt32
  | .rgb r g b =>
    self.bitInfo.pack r.toInt32.toUInt32 g.toInt32.toUInt32 b.toInt32.toUInt32

end GraphicalDisplay

/-- The bytes of a word, the lowest first. -/
def wordBytes (word : UInt32) : List UInt8 :=
  [word.toUInt8, (word >>> 8).toUInt8, (word >>> 16).toUInt8, (word >>> 24).toUInt8]

/-- The word at an address. -/
def readWord (memory : ℕ → UInt8) (addr : ℕ) : UInt32 :=
  UInt32.ofNat ((memory addr).toNat + 2 ^ 8 * (memory (addr + 1)).toNat +
    2 ^ 16 * (memory (addr + 2)).toNat + 2 ^ 24 * (memory (addr + 3)).toNat)

/-- `*(addr as *mut u32) = word`. -/
def writeWord (memory : ℕ → UInt8) (addr : ℕ) (word : UInt32) : ℕ → UInt8 :=
  Strides.store memory addr (wordBytes word)

/-- A word has four bytes. -/
@[simp] theorem length_wordBytes (word : UInt32) : (wordBytes word).length = 4 := rfl

/-- A word is read back from its bytes. -/
theorem readWord_of_bytes {memory : ℕ → UInt8} {addr : ℕ} {word : UInt32}
    (hbytes : ∀ j (hj : j < (wordBytes word).length), memory (addr + j) = (wordBytes word)[j]) :
    readWord memory addr = word := by
  have h₀ : memory addr = word.toUInt8 := hbytes 0 (by simp)
  have h₁ : memory (addr + 1) = (word >>> 8).toUInt8 := hbytes 1 (by simp)
  have h₂ : memory (addr + 2) = (word >>> 16).toUInt8 := hbytes 2 (by simp)
  have h₃ : memory (addr + 3) = (word >>> 24).toUInt8 := hbytes 3 (by simp)
  have hword := word.toNat_lt
  apply UInt32.toNat_inj.mp
  simp only [readWord, h₀, h₁, h₂, h₃, UInt32.toNat_ofNat', UInt32.toNat_toUInt8,
    UInt32.toNat_shiftRight, Nat.shiftRight_eq_div_pow, UInt32.reduceToNat, Nat.reduceMod,
    Nat.reducePow]
  omega

/-- A word depends on its four bytes only. -/
theorem readWord_congr {memory memory' : ℕ → UInt8} {addr : ℕ}
    (hbytes : ∀ j, j < 4 → memory' (addr + j) = memory (addr + j)) :
    readWord memory' addr = readWord memory addr := by
  have h₀ : memory' addr = memory addr := hbytes 0 (by omega)
  unfold readWord
  rw [h₀, hbytes 1 (by omega), hbytes 2 (by omega), hbytes 3 (by omega)]

namespace GraphicalDisplay

/-- `GraphicalDisplay::fill_display`. -/
def fillDisplay (self : GraphicalDisplay) (c : Color) (memory : ℕ → UInt8) :
    Except Fault (ℕ → UInt8) := do
  let colorBit ← self.color c
  let count ← checkedMul self.maxPosition.x self.maxPosition.y
  (List.range count).foldlM
    (fun memory i => do
      let offset ← checkedMul i 4
      let addr ← checkedAdd self.vramAddr offset
      .ok (writeWord memory addr colorBit))
    memory

/-- What `fill_area` computes before its loops: the first and the last byte of the area in a
row, the distance of two rows, the colour, the end of the area and its first row. -/
structure AreaBounds where
  /-- `beginx`. -/
  beginX : ℕ
  /-- `end_x`. -/
  endX : ℕ
  /-- `dy`. -/
  dy : ℕ
  /-- `ccode`. -/
  ccode : UInt32
  /-- `vy_e`. -/
  vyEnd : ℕ
  /-- `vy` before the first row. -/
  vy : ℕ
  deriving DecidableEq

/-- The first part of `GraphicalDisplay::fill_area`. -/
def areaBounds (self : GraphicalDisplay) (beginPos endPos : Position) (c : Color) :
    Except Fault AreaBounds := do
  let sizeX := self.maxPosition.x
  let beginX ← checkedMul beginPos.x self.bytePerPixel
  let beginY ← checkedMul beginPos.y self.bytePerPixel
  let beginY ← checkedMul beginY sizeX
  let endX ← checkedMul endPos.x self.bytePerPixel
  let endY ← checkedMul endPos.y self.bytePerPixel
  let endY ← checkedMul endY sizeX
  let dy ← checkedMul sizeX self.bytePerPixel
  let ccode ← self.color c
  let vyEnd ← checkedAdd self.vramAddr endY
  let vy ← checkedAdd self.vramAddr beginY
  .ok { beginX, endX, dy, ccode, vyEnd, vy }

/-- The inner loop of `GraphicalDisplay::fill_area`, which fills the area in one row. -/
def fillRow (self : GraphicalDisplay) (bounds : AreaBounds) (fuel vy : ℕ)
    (memory : ℕ → UInt8) : Option (Except Fault (ℕ → UInt8)) :=
  match checkedAdd vy bounds.endX, checkedAdd vy bounds.beginX with
  | .ok ve, .ok v =>
    Strides.loop (fun v => checkedAdd v self.bytePerPixel)
      (fun v memory => some (.ok (writeWord memory v bounds.ccode))) ve fuel v memory
  | .error fault, _ => some (.error fault)
  | _, .error fault => some (.error fault)

/-- `GraphicalDisplay::fill_area`. Both loops have no bound of their own and run on fuel;
`none` means that it ran out. -/
def fillArea (self : GraphicalDisplay) (beginPos endPos : Position) (c : Color)
    (memory : ℕ → UInt8) (fuel : ℕ) : Option (Except Fault (ℕ → UInt8)) :=
  match self.areaBounds beginPos endPos c with
  | .error fault => some (.error fault)
  | .ok bounds =>
    Strides.loop (fun vy => checkedAdd vy bounds.dy) (self.fillRow bounds fuel) bounds.vyEnd
      fuel bounds.vy memory

/-- `GraphicalDisplay::fill_area_by_size`. -/
def fillAreaBySize (self : GraphicalDisplay) (origin size : Position) (c : Color)
    (memory : ℕ → UInt8) (fuel : ℕ) : Option (Except Fault (ℕ → UInt8)) :=
  match checkedAdd origin.x size.x, checkedAdd origin.y size.y with
  | .ok x, .ok y => self.fillArea origin ⟨x, y⟩ c memory fuel
  | .error fault, _ => some (.error fault)
  | _, .error fault => some (.error fault)

end GraphicalDisplay

end Axel
