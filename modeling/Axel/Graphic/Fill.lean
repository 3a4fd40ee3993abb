import Axel.Graphic.GraphicalDisplay
import Mathlib.Tactic.Ring

/-!
# Filling areas of the screen

`fill_area` steps an address through the pixels of a rectangle with two loops, whose bounds
are products that may be zero. It ends in every case. When the arithmetic stays in range it
paints exactly the pixels of the rectangle. `fill_display` fills the whole screen with a
stride of its own, and it agrees with `fill_area` when a pixel has four bytes.
-/

namespace Axel

open Strides

/-- The bits that the components of a pixel add up to. -/
def ColorBitInfo.bits (info : ColorBitInfo) : ℕ :=
  info.sizeR.toNat + info.sizeG.toNat + info.sizeB.toNat + info.sizeRsvd.toNat

/-- An addition of bytes returns exactly when it stays in range. -/
theorem checkedAddU8_eq_ok {a b c : UInt8} :
    checkedAddU8 a b = .ok c ↔ a.toNat + b.toNat < 2 ^ 8 ∧ a + b = c := by
  unfold checkedAddU8
  split
  case isTrue h => exact ⟨fun hok => ⟨h, Except.ok.inj hok⟩, fun hok => congrArg _ hok.2⟩
  case isFalse h => exact ⟨fun hok => (nomatch hok), fun hok => absurd hok.1 h⟩

namespace GraphicalDisplay

/-- The display is the one that `new` makes from its own data; its fields are private. -/
def Built (display : GraphicalDisplay) : Prop :=
  new display.vramAddr display.maxPosition display.bitInfo = .ok display

/-- A pixel has as many bytes as its components have bits, divided by eight. -/
theorem Built.bytePerPixel_eq {display : GraphicalDisplay} (hbuilt : display.Built) :
    display.bytePerPixel = display.bitInfo.bits / 8 := by
  unfold Built new at hbuilt
  simp only [Except.bind_eq_ok, checkedAddU8_eq_ok] at hbuilt
  obtain ⟨sizeRG, ⟨hrg, hrg'⟩, sizeRGB, ⟨hrgb, hrgb'⟩, size, ⟨hsize, hsize'⟩, hdisplay⟩ :=
    hbuilt
  have hbytes : display.bytePerPixel = (size / 8).toNat := by
    rw [← Except.ok.inj hdisplay]
  rw [hbytes, UInt8.toNat_div, ← hsize', UInt8.toNat_add, Nat.mod_eq_of_lt hsize, ← hrgb',
    UInt8.toNat_add, Nat.mod_eq_of_lt hrgb, ← hrg', UInt8.toNat_add, Nat.mod_eq_of_lt hrg]
  rfl

/-! ## The bounds of an area -/

variable {display : GraphicalDisplay} {beginPos endPos : Position} {c : Color}
  {bounds : AreaBounds} {word : UInt32} {memory memory' : ℕ → UInt8}

/-- The address of a pixel. -/
def pixelAddr (display : GraphicalDisplay) (x y : ℕ) : ℕ :=
  display.vramAddr + (y * display.maxPosition.x + x) * display.bytePerPixel

/-- The arithmetic of `fill_area` stays in range up to the last row of an area: a row of the
screen has a size, and the area has an end in the address space. -/
structure RowsFit (display : GraphicalDisplay) (endPos : Position) : Prop where
  /-- The size of a row. -/
  row_lt : display.maxPosition.x * display.bytePerPixel < usizeCount
  /-- The first product of the end of the last row. -/
  endY_lt : endPos.y * display.bytePerPixel < usizeCount
  /-- The address where the last row ends. -/
  end_lt : display.pixelAddr 0 endPos.y < usizeCount

/-- The bounds of an area, computed without overflow. -/
def boundsOf (display : GraphicalDisplay) (beginPos endPos : Position) (word : UInt32) :
    AreaBounds where
  beginX := beginPos.x * display.bytePerPixel
  endX := endPos.x * display.bytePerPixel
  dy := display.maxPosition.x * display.bytePerPixel
  ccode := word
  vyEnd := display.vramAddr + endPos.y * display.bytePerPixel * display.maxPosition.x
  vy := display.vramAddr + beginPos.y * display.bytePerPixel * display.maxPosition.x

/-- The bounds are computed exactly when the colour is and no step overflows. -/
theorem areaBounds_eq_ok :
    display.areaBounds beginPos endPos c = .ok bounds ↔
      (beginPos.x * display.bytePerPixel < usizeCount ∧
        beginPos.y * display.bytePerPixel < usizeCount ∧
        beginPos.y * display.bytePerPixel * display.maxPosition.x < usizeCount ∧
        endPos.x * display.bytePerPixel < usizeCount ∧
        endPos.y * display.bytePerPixel < usizeCount ∧
        endPos.y * display.bytePerPixel * display.maxPosition.x < usizeCount ∧
        display.maxPosition.x * display.bytePerPixel < usizeCount ∧
        display.vramAddr + endPos.y * display.bytePerPixel * display.maxPosition.x < usizeCount ∧
        display.vramAddr + beginPos.y * display.bytePerPixel * display.maxPosition.x <
          usizeCount) ∧
      ∃ word, display.color c = .ok word ∧ display.boundsOf beginPos endPos word = bounds := by
  unfold areaBounds boundsOf
  simp only [Except.bind_eq_ok, checkedMul_eq_ok, checkedAdd_eq_ok, Except.ok.injEq]
  constructor
  · rintro ⟨_, ⟨h₁, rfl⟩, _, ⟨h₂, rfl⟩, _, ⟨h₃, rfl⟩, _, ⟨h₄, rfl⟩, _, ⟨h₅, rfl⟩, _, ⟨h₆, rfl⟩,
      _, ⟨h₇, rfl⟩, word, hword, _, ⟨h₈, rfl⟩, _, ⟨h₉, rfl⟩, hbounds⟩
    exact ⟨⟨h₁, h₂, h₃, h₄, h₅, h₆, h₇, h₈, h₉⟩, word, hword, hbounds⟩
  · rintro ⟨⟨h₁, h₂, h₃, h₄, h₅, h₆, h₇, h₈, h₉⟩, word, hword, hbounds⟩
    exact ⟨_, ⟨h₁, rfl⟩, _, ⟨h₂, rfl⟩, _, ⟨h₃, rfl⟩, _, ⟨h₄, rfl⟩, _, ⟨h₅, rfl⟩, _, ⟨h₆, rfl⟩,
      _, ⟨h₇, rfl⟩, word, hword, _, ⟨h₈, rfl⟩, _, ⟨h₉, rfl⟩, hbounds⟩

/-! ## Termination -/

/-- A checked addition of a positive number goes forward. -/
theorem lt_of_checkedAdd {v v' step : ℕ} (hstep : 0 < step) (hadd : checkedAdd v step = .ok v') :
    v < v' := by
  obtain ⟨-, rfl⟩ := checkedAdd_eq_ok.mp hadd
  exact Nat.lt_add_of_pos_right hstep

/-- The inner loop ends: with pixels of no size the row ends where it begins. -/
theorem fillRow_terminates (hbounds : display.areaBounds beginPos endPos c = .ok bounds) (vy : ℕ)
    (memory : ℕ → UInt8) :
    ∃ result, Returns (fun fuel => display.fillRow bounds fuel vy memory) result := by
  obtain ⟨-, word, -, rfl⟩ := areaBounds_eq_ok.mp hbounds
  unfold fillRow
  cases hve : checkedAdd vy (display.boundsOf beginPos endPos word).endX with
  | error fault => exact ⟨_, .const _⟩
  | ok ve =>
    cases hv : checkedAdd vy (display.boundsOf beginPos endPos word).beginX with
    | error fault => exact ⟨_, .const _⟩
    | ok v =>
      rcases Nat.eq_zero_or_pos display.bytePerPixel with hzero | hpos
      · obtain ⟨-, rfl⟩ := checkedAdd_eq_ok.mp hve
        obtain ⟨-, rfl⟩ := checkedAdd_eq_ok.mp hv
        refine ⟨_, LoopReturns.returns (.of_le ?_)⟩
        simp only [boundsOf, hzero, Nat.mul_zero, Nat.le_refl]
      · have hloop : ∃ result, LoopReturns (fun v => checkedAdd v display.bytePerPixel)
            (fun _ v memory => some (.ok (writeWord memory v word))) ve v memory result :=
          LoopReturns.exists_of_advance (fun _ _ _ hadd => lt_of_checkedAdd hpos hadd)
            (fun _ _ => ⟨_, .const _⟩) v memory
        obtain ⟨result, hloop⟩ := hloop
        exact ⟨result, hloop.returns⟩

/-- `fill_area` ends, for every size of a pixel, every width and all positions: with rows of no
size the area ends where it begins. -/
theorem fillArea_terminates (display : GraphicalDisplay) (beginPos endPos : Position) (c : Color)
    (memory : ℕ → UInt8) :
    ∃ result, Returns (display.fillArea beginPos endPos c memory) result := by
  unfold fillArea
  cases hbounds : display.areaBounds beginPos endPos c with
  | error fault => exact ⟨_, .const _⟩
  | ok bounds =>
    rcases Nat.eq_zero_or_pos bounds.dy with hzero | hpos
    · refine ⟨_, LoopReturns.returns (.of_le ?_)⟩
      obtain ⟨-, word, -, rfl⟩ := areaBounds_eq_ok.mp hbounds
      have hrow : display.bytePerPixel * display.maxPosition.x = 0 := by
        rw [Nat.mul_comm]
        exact hzero
      simp only [boundsOf, Nat.mul_assoc, hrow, Nat.mul_zero, Nat.le_refl]
    · have hloop : ∃ result, LoopReturns (fun vy => checkedAdd vy bounds.dy)
          (display.fillRow bounds) bounds.vyEnd bounds.vy memory result :=
        LoopReturns.exists_of_advance (fun _ _ _ hadd => lt_of_checkedAdd hpos hadd)
          (fun vy memory => fillRow_terminates hbounds vy memory) bounds.vy memory
      obtain ⟨result, hloop⟩ := hloop
      exact ⟨result, hloop.returns⟩

/-- `fill_area_by_size` fills the area of the given size, or its end overflows. -/
theorem fillAreaBySize_cases (display : GraphicalDisplay) (origin size : Position) (c : Color)
    (memory : ℕ → UInt8) :
    (origin.x + size.x < usizeCount ∧ origin.y + size.y < usizeCount ∧
        display.fillAreaBySize origin size c memory =
          display.fillArea origin ⟨origin.x + size.x, origin.y + size.y⟩ c memory) ∨
      display.fillAreaBySize origin size c memory = fun _ => some (.error .overflow) := by
  unfold fillAreaBySize
  by_cases hx : origin.x + size.x < usizeCount
  · by_cases hy : origin.y + size.y < usizeCount
    · refine .inl ⟨hx, hy, ?_⟩
      simp only [checkedAdd_ok hx, checkedAdd_ok hy]
    · refine .inr ?_
      simp only [checkedAdd, if_pos hx, if_neg hy]
  · refine .inr ?_
    simp only [checkedAdd, if_neg hx]

/-- `fill_area_by_size` ends for all positions and sizes. -/
theorem fillAreaBySize_terminates (display : GraphicalDisplay) (origin size : Position)
    (c : Color) (memory : ℕ → UInt8) :
    ∃ result, Returns (display.fillAreaBySize origin size c memory) result := by
  rcases display.fillAreaBySize_cases origin size c memory with ⟨-, -, harea⟩ | hoverflow
  · rw [harea]
    exact display.fillArea_terminates _ _ c memory
  · rw [hoverflow]
    exact ⟨_, .const _⟩

/-! ## What is painted -/

/-- The pixel lies in the area. -/
def InArea (beginPos endPos : Position) (x y : ℕ) : Prop :=
  (beginPos.x ≤ x ∧ x < endPos.x) ∧ beginPos.y ≤ y ∧ y < endPos.y

/-- The pixels of an area have the colour `word`, and nothing else has changed. -/
structure Painted (display : GraphicalDisplay) (beginPos endPos : Position) (word : UInt32)
    (memory memory' : ℕ → UInt8) : Prop where
  /-- A pixel of the area holds the colour. -/
  inside : ∀ x y, InArea beginPos endPos x y → readWord memory' (display.pixelAddr x y) = word
  /-- A pixel of the screen outside the area is as before. -/
  outside : ∀ x y, x < display.maxPosition.x → ¬ InArea beginPos endPos x y →
    readWord memory' (display.pixelAddr x y) = readWord memory (display.pixelAddr x y)
  /-- A byte that belongs to no pixel of the area is as before. -/
  frame : ∀ addr, (∀ x y, InArea beginPos endPos x y →
    addr < display.pixelAddr x y ∨ display.pixelAddr x y + 4 ≤ addr) →
    memory' addr = memory addr

/-- A pixel of a row is a multiple of the stride away from the begin of the row. -/
theorem pixelAddr_eq (display : GraphicalDisplay) (x y : ℕ) :
    display.pixelAddr x y =
      display.vramAddr + y * display.bytePerPixel * display.maxPosition.x +
        x * display.bytePerPixel := by
  unfold pixelAddr
  ring

/-- A pixel some columns and rows further on. -/
theorem pixelAddr_add (display : GraphicalDisplay) (x y i k : ℕ) :
    display.pixelAddr (x + i) (y + k) =
      display.pixelAddr x y + k * (display.maxPosition.x * display.bytePerPixel) +
        i * display.bytePerPixel := by
  unfold pixelAddr
  ring

/-- Two pixels of four bytes do not overlap: one lies before the other in its row or in an
earlier row. -/
theorem pixelAddr_disjoint (hbytes : display.bytePerPixel = 4) {x y x' y' : ℕ}
    (hx : x < display.maxPosition.x) (hx' : x' < display.maxPosition.x)
    (hne : ¬ (x = x' ∧ y = y')) :
    display.pixelAddr x y + 4 ≤ display.pixelAddr x' y' ∨
      display.pixelAddr x' y' + 4 ≤ display.pixelAddr x y := by
  unfold pixelAddr
  rw [hbytes]
  have hrows : ∀ {k l : ℕ}, k < l →
      k * display.maxPosition.x + display.maxPosition.x ≤ l * display.maxPosition.x := by
    intro k l hkl
    rw [← Nat.succ_mul]
    exact Nat.mul_le_mul_right _ hkl
  rcases Nat.lt_trichotomy y y' with hlt | rfl | hgt
  · have hrow := hrows hlt
    omega
  · omega
  · have hrow := hrows hgt
    omega

/-- The inner loop stores the colour once for each pixel of the area in the row. -/
theorem fillRow_returns (hpos : 0 < display.bytePerPixel) (hx : beginPos.x ≤ endPos.x) {vy : ℕ}
    (hfits : vy + endPos.x * display.bytePerPixel < usizeCount) (memory : ℕ → UInt8) :
    Returns (fun fuel =>
        display.fillRow (display.boundsOf beginPos endPos word) fuel vy memory)
      (.ok (row memory (vy + beginPos.x * display.bytePerPixel) display.bytePerPixel
        (wordBytes word) (endPos.x - beginPos.x))) := by
  have hend : endPos.x * display.bytePerPixel =
      beginPos.x * display.bytePerPixel + (endPos.x - beginPos.x) * display.bytePerPixel := by
    rw [← Nat.add_mul, Nat.add_sub_cancel' hx]
  have hbegin : vy + beginPos.x * display.bytePerPixel < usizeCount := by omega
  have hloop : LoopReturns (fun v => checkedAdd v display.bytePerPixel)
      (fun _ v memory => some (.ok (writeWord memory v word)))
      (vy + endPos.x * display.bytePerPixel) (vy + beginPos.x * display.bytePerPixel) memory
      (.ok (row memory (vy + beginPos.x * display.bytePerPixel) display.bytePerPixel
        (wordBytes word) (endPos.x - beginPos.x))) :=
    .count hpos
      (row memory (vy + beginPos.x * display.bytePerPixel) display.bytePerPixel (wordBytes word))
      (endPos.x - beginPos.x) (by rw [hend, Nat.add_assoc])
      (fun v hv => checkedAdd_ok (Nat.lt_of_le_of_lt hv hfits)) (fun i _ _ => .const _)
  unfold fillRow
  simp only [boundsOf, checkedAdd_ok hfits, checkedAdd_ok hbegin]
  exact hloop.returns

/-- The bounds of an area of the screen are computed when its rows fit. -/
theorem RowsFit.areaBounds (hfits : display.RowsFit endPos) (hx : beginPos.x ≤ endPos.x)
    (hwidth : endPos.x ≤ display.maxPosition.x) (hy : beginPos.y ≤ endPos.y)
    (hword : display.color c = .ok word) :
    display.areaBounds beginPos endPos c = .ok (display.boundsOf beginPos endPos word) := by
  have hend := hfits.end_lt
  rw [pixelAddr_eq, Nat.zero_mul, Nat.add_zero] at hend
  have hrow_lt := hfits.row_lt
  have hendY_lt := hfits.endY_lt
  have hendX : endPos.x * display.bytePerPixel ≤
      display.maxPosition.x * display.bytePerPixel := Nat.mul_le_mul_right _ hwidth
  have hbeginX : beginPos.x * display.bytePerPixel ≤ endPos.x * display.bytePerPixel :=
    Nat.mul_le_mul_right _ hx
  have hbeginY : beginPos.y * display.bytePerPixel ≤ endPos.y * display.bytePerPixel :=
    Nat.mul_le_mul_right _ hy
  have hbeginRow : beginPos.y * display.bytePerPixel * display.maxPosition.x ≤
      endPos.y * display.bytePerPixel * display.maxPosition.x := Nat.mul_le_mul_right _ hbeginY
  refine areaBounds_eq_ok.mpr ⟨⟨?_, ?_, ?_, ?_, ?_, ?_, ?_, ?_, ?_⟩, word, hword, rfl⟩
  all_goals omega

/-- The rows from the first row of an area to the row after its last are `dy` apart. -/
theorem boundsOf_vyEnd (display : GraphicalDisplay) (hy : beginPos.y ≤ endPos.y) :
    (display.boundsOf beginPos endPos word).vyEnd =
      (display.boundsOf beginPos endPos word).vy +
        (endPos.y - beginPos.y) * (display.boundsOf beginPos endPos word).dy := by
  obtain ⟨k, hk⟩ := Nat.exists_eq_add_of_le hy
  simp only [boundsOf]
  rw [hk, Nat.add_sub_cancel_left]
  ring

/-- `fill_area` stores the colour row by row when its arithmetic stays in range. -/
theorem fillArea_returns (hpos : 0 < display.bytePerPixel) (hx : beginPos.x ≤ endPos.x)
    (hwidth : endPos.x ≤ display.maxPosition.x) (hy : beginPos.y ≤ endPos.y)
    (hfits : display.RowsFit endPos) (hword : display.color c = .ok word) (memory : ℕ → UInt8) :
    Returns (display.fillArea beginPos endPos c memory)
      (.ok (grid memory (display.pixelAddr beginPos.x beginPos.y)
        (display.maxPosition.x * display.bytePerPixel) display.bytePerPixel (wordBytes word)
        (endPos.x - beginPos.x) (endPos.y - beginPos.y))) := by
  have hend := hfits.end_lt
  rw [pixelAddr_eq, Nat.zero_mul, Nat.add_zero] at hend
  unfold fillArea
  simp only [hfits.areaBounds hx hwidth hy hword]
  rcases Nat.eq_zero_or_pos display.maxPosition.x with hzero | hwidth_pos
  · -- A screen without columns: the area ends in the row where it begins.
    have hcount : endPos.x - beginPos.x = 0 := by omega
    rw [hcount, grid_width_zero]
    refine LoopReturns.returns (.of_le ?_)
    simp only [boundsOf, hzero, Nat.mul_zero, Nat.le_refl]
  · have hendX : endPos.x * display.bytePerPixel ≤
        display.maxPosition.x * display.bytePerPixel := Nat.mul_le_mul_right _ hwidth
    refine LoopReturns.returns (.count (Nat.mul_pos hwidth_pos hpos)
      (grid memory (display.pixelAddr beginPos.x beginPos.y)
        (display.maxPosition.x * display.bytePerPixel) display.bytePerPixel (wordBytes word)
        (endPos.x - beginPos.x))
      (endPos.y - beginPos.y) (display.boundsOf_vyEnd hy)
      (fun vy hvy => checkedAdd_ok (Nat.lt_of_le_of_lt hvy hend)) (fun k hk hroom => ?_))
    have hstart : display.pixelAddr beginPos.x beginPos.y +
          k * (display.maxPosition.x * display.bytePerPixel) =
        display.vramAddr + beginPos.y * display.bytePerPixel * display.maxPosition.x +
          k * (display.maxPosition.x * display.bytePerPixel) +
          beginPos.x * display.bytePerPixel := by
      rw [pixelAddr_eq, Nat.add_right_comm]
    have hfit : display.vramAddr + beginPos.y * display.bytePerPixel * display.maxPosition.x +
        k * (display.maxPosition.x * display.bytePerPixel) +
          endPos.x * display.bytePerPixel < usizeCount := by
      simp only [boundsOf] at hroom
      omega
    rw [grid, hstart]
    exact fillRow_returns hpos hx hfit _

/-- `fill_area` on an area of the screen returns exactly when its colour does and its
arithmetic stays in range. -/
theorem fillArea_ok_iff (hpos : 0 < display.bytePerPixel) (hx : beginPos.x ≤ endPos.x)
    (hwidth : endPos.x ≤ display.maxPosition.x) (hy : beginPos.y ≤ endPos.y)
    (memory : ℕ → UInt8) :
    (∃ memory', Returns (display.fillArea beginPos endPos c memory) (.ok memory')) ↔
      (∃ word, display.color c = .ok word) ∧ display.RowsFit endPos := by
  constructor
  · rintro ⟨memory', hreturns⟩
    cases hbounds : display.areaBounds beginPos endPos c with
    | error fault =>
      have herror : Returns (display.fillArea beginPos endPos c memory) (.error fault) := by
        unfold fillArea
        simp only [hbounds]
        exact .const _
      exact absurd (herror.unique hreturns) (by simp)
    | ok bounds =>
      obtain ⟨⟨-, -, -, -, hendY, -, hrow, hend, -⟩, word, hword, -⟩ :=
        areaBounds_eq_ok.mp hbounds
      refine ⟨⟨word, hword⟩, hrow, hendY, ?_⟩
      rw [pixelAddr_eq, Nat.zero_mul, Nat.add_zero]
      exact hend
  · rintro ⟨⟨word, hword⟩, hfits⟩
    exact ⟨_, fillArea_returns hpos hx hwidth hy hfits hword memory⟩

/-- The stores of `fill_area` paint the area when a pixel has the size of a word. -/
theorem painted_grid (hbytes : display.bytePerPixel = 4)
    (hwidth : endPos.x ≤ display.maxPosition.x) (memory : ℕ → UInt8) :
    display.Painted beginPos endPos word memory
      (grid memory (display.pixelAddr beginPos.x beginPos.y)
        (display.maxPosition.x * display.bytePerPixel) display.bytePerPixel (wordBytes word)
        (endPos.x - beginPos.x) (endPos.y - beginPos.y)) := by
  have hframe : ∀ addr, (∀ x y, InArea beginPos endPos x y →
      addr < display.pixelAddr x y ∨ display.pixelAddr x y + 4 ≤ addr) →
      grid memory (display.pixelAddr beginPos.x beginPos.y)
        (display.maxPosition.x * display.bytePerPixel) display.bytePerPixel (wordBytes word)
        (endPos.x - beginPos.x) (endPos.y - beginPos.y) addr = memory addr := by
    intro addr haddr
    refine grid_outside memory fun i k hi hk => ?_
    have hpixel := haddr (beginPos.x + i) (beginPos.y + k)
      ⟨⟨by omega, by omega⟩, by omega, by omega⟩
    rw [pixelAddr_add] at hpixel
    exact hpixel
  refine ⟨?_, ?_, hframe⟩
  · rintro x y ⟨⟨hbx, hx⟩, hby, hy⟩
    obtain ⟨i, rfl⟩ := Nat.exists_eq_add_of_le hbx
    obtain ⟨k, rfl⟩ := Nat.exists_eq_add_of_le hby
    rw [pixelAddr_add]
    refine readWord_of_bytes fun j hj => ?_
    have hpitch : (endPos.x - beginPos.x) * display.bytePerPixel ≤
        display.maxPosition.x * display.bytePerPixel := Nat.mul_le_mul_right _ (by omega)
    exact grid_inside memory (by rw [hbytes]; rfl) hpitch (by omega) (by omega) hj
  · intro x y hx hout
    refine readWord_congr fun j hj => hframe _ fun x' y' hin => ?_
    have hne : ¬ (x = x' ∧ y = y') := by
      rintro ⟨rfl, rfl⟩
      exact hout hin
    have hdisjoint := pixelAddr_disjoint hbytes hx (Nat.lt_of_lt_of_le hin.1.2 hwidth) hne
    omega

/-- `fill_area` always ends, whatever the size of a pixel and the width of the screen are. With
pixels of 32 bits and an area of the screen it returns exactly when its colour does and the
area lies in the address space, and then it has painted the area and nothing else. -/
theorem fillArea_paints :
    (∀ (display : GraphicalDisplay) (beginPos endPos : Position) (c : Color) (memory : ℕ → UInt8),
      display.Built → display.bitInfo.bits = 32 → beginPos.x ≤ endPos.x →
      endPos.x ≤ display.maxPosition.x → beginPos.y ≤ endPos.y → endPos.y ≤ display.maxPosition.y →
      ((∃ memory', Returns (display.fillArea beginPos endPos c memory) (.ok memory')) ↔
        (∃ word, display.color c = .ok word) ∧ display.RowsFit endPos) ∧
      ∀ memory', Returns (display.fillArea beginPos endPos c memory) (.ok memory') →
        ∃ word, display.color c = .ok word ∧
          display.Painted beginPos endPos word memory memory') ∧
    ∀ (display : GraphicalDisplay) (beginPos endPos : Position) (c : Color) (memory : ℕ → UInt8),
      ∃ result, Returns (display.fillArea beginPos endPos c memory) result := by
  refine ⟨?_, fillArea_terminates⟩
  intro display beginPos endPos c memory hbuilt hbits hx hwidth hy _
  have hbytes : display.bytePerPixel = 4 := by
    rw [hbuilt.bytePerPixel_eq, hbits]
  have hpos : 0 < display.bytePerPixel := by omega
  have hiff := fillArea_ok_iff (c := c) hpos hx hwidth hy memory
  refine ⟨hiff, fun memory' hreturns => ?_⟩
  obtain ⟨⟨word, hword⟩, hfits⟩ := hiff.mp ⟨memory', hreturns⟩
  refine ⟨word, hword, ?_⟩
  have hmemory := (fillArea_returns hpos hx hwidth hy hfits hword memory).unique hreturns
  rw [← Except.ok.inj hmemory]
  exact painted_grid hbytes hwidth memory

/-- A screen of one pixel of 32 bits in the last word of the address space. -/
def topDisplay : GraphicalDisplay where
  vramAddr := 0xFFFFFFFFFFFFFFFC
  maxPosition := ⟨1, 1⟩
  bitInfo := ⟨8, 8, 8, 8, 16, 8, 0, 24⟩
  bytePerPixel := 4

/-- The same pixel at the address of a usual framebuffer. -/
def onePixelDisplay : GraphicalDisplay := { topDisplay with vramAddr := 0xFD000000 }

/-- The painting of a screen of one pixel. -/
theorem fillArea_paints_onePixel :
    ∀ memory', Returns (onePixelDisplay.fillArea ⟨0, 0⟩ ⟨1, 1⟩ .white fun _ => 0)
        (.ok memory') →
      ∃ word, onePixelDisplay.color .white = .ok word ∧
        onePixelDisplay.Painted ⟨0, 0⟩ ⟨1, 1⟩ word (fun _ => 0) memory' :=
  (fillArea_paints.1 onePixelDisplay ⟨0, 0⟩ ⟨1, 1⟩ .white (fun _ => 0) rfl rfl (by decide)
    (by decide) (by decide) (by decide)).2

/-- In the last word of the address space `fill_area` panics: the address after the pixel
overflows. -/
theorem not_fillArea_paints :
    ¬ ∀ (display : GraphicalDisplay) (beginPos endPos : Position) (c : Color) (memory : ℕ → UInt8),
      display.Built → display.bitInfo.bits = 32 → beginPos.x ≤ endPos.x →
      endPos.x ≤ display.maxPosition.x → beginPos.y ≤ endPos.y → endPos.y ≤ display.maxPosition.y →
      ∃ memory', Returns (display.fillArea beginPos endPos c memory) (.ok memory') ∧
        ∃ word, display.color c = .ok word ∧
          display.Painted beginPos endPos word memory memory' := by
  intro hall
  obtain ⟨memory', hreturns, -⟩ := hall topDisplay ⟨0, 0⟩ ⟨1, 1⟩ .white (fun _ => 0) rfl rfl
    (by decide) (by decide) (by decide) (by decide)
  have hfits := ((fillArea_ok_iff (by decide) (by decide) (by decide) (by decide) _).mp
    ⟨memory', hreturns⟩).2
  exact absurd hfits.end_lt (by decide)

/-! ## The whole screen -/

/-- `fill_display` stores the colour once for each pixel, always four bytes apart. -/
theorem fillDisplay_eq_ok (hword : display.color c = .ok word)
    (hcount : display.maxPosition.x * display.maxPosition.y < usizeCount)
    (haddr : ∀ i, i < display.maxPosition.x * display.maxPosition.y →
      display.vramAddr + i * 4 < usizeCount) (memory : ℕ → UInt8) :
    display.fillDisplay c memory =
      .ok (row memory display.vramAddr 4 (wordBytes word)
        (display.maxPosition.x * display.maxPosition.y)) := by
  unfold fillDisplay
  simp only [hword, checkedMul_ok hcount, bind, Except.bind]
  generalize display.maxPosition.x * display.maxPosition.y = count at haddr
  induction count with
  | zero => rfl
  | succ count ih =>
    have hlast := haddr count (Nat.lt_succ_self count)
    rw [List.range_succ, List.foldlM_append,
      ih fun i hi => haddr i (Nat.lt_succ_of_lt hi)]
    simp only [bind, Except.bind, List.foldlM_cons, List.foldlM_nil,
      checkedMul_ok (Nat.lt_of_le_of_lt (Nat.le_add_left _ _) hlast), checkedAdd_ok hlast]
    rfl

/-- The two ways to fill the whole screen leave the same memory, and neither changes a byte
outside the framebuffer. -/
def FillsAgree (display : GraphicalDisplay) (c : Color) : Prop :=
  ∀ memory, ∃ memory', display.fillDisplay c memory = .ok memory' ∧
    Returns (display.fillArea ⟨0, 0⟩ display.maxPosition c memory) (.ok memory') ∧
    ∀ addr, addr < display.vramAddr ∨
      display.vramAddr +
        display.maxPosition.x * display.maxPosition.y * display.bytePerPixel ≤ addr →
      memory' addr = memory addr

/-- On the whole screen `fill_area` stores the pixels as one row. -/
theorem fillArea_screen_returns (hpos : 0 < display.bytePerPixel)
    (hfits : display.RowsFit display.maxPosition) (hword : display.color c = .ok word)
    (memory : ℕ → UInt8) :
    Returns (display.fillArea ⟨0, 0⟩ display.maxPosition c memory)
      (.ok (row memory display.vramAddr display.bytePerPixel (wordBytes word)
        (display.maxPosition.x * display.maxPosition.y))) := by
  have horigin : display.pixelAddr 0 0 = display.vramAddr := by
    simp only [pixelAddr, Nat.zero_mul, Nat.add_zero]
  have hgrid : grid memory (display.pixelAddr 0 0)
        (display.maxPosition.x * display.bytePerPixel) display.bytePerPixel (wordBytes word)
        (display.maxPosition.x - 0) (display.maxPosition.y - 0) =
      row memory display.vramAddr display.bytePerPixel (wordBytes word)
        (display.maxPosition.x * display.maxPosition.y) := by
    rw [horigin, Nat.sub_zero, Nat.sub_zero, grid_eq_row, Nat.mul_comm display.maxPosition.y]
  rw [← hgrid]
  exact fillArea_returns hpos (Nat.zero_le _) (Nat.le_refl _) (Nat.zero_le _) hfits hword
    memory

/-- The last word of the screen goes beyond the framebuffer when a pixel is smaller. -/
theorem not_fillsAgree_of_lt (hpos : 0 < display.bytePerPixel)
    (hlt : display.bytePerPixel < 4)
    (hscreen : 0 < display.maxPosition.x * display.maxPosition.y) :
    ¬ display.FillsAgree c := by
  intro hagree
  -- The colour and the range of the arithmetic do not depend on the memory.
  obtain ⟨memory', -, hreturns, -⟩ := hagree fun _ => 0
  obtain ⟨⟨word, hword⟩, hfits⟩ := (fillArea_ok_iff hpos (Nat.zero_le _) (Nat.le_refl _)
    (Nat.zero_le _) _).mp ⟨memory', hreturns⟩
  have hlength : display.bytePerPixel < (wordBytes word).length := hlt
  obtain ⟨count, hcount⟩ := Nat.exists_eq_add_of_le' hscreen
  -- The byte after the framebuffer, in a memory where it differs from the one stored there.
  obtain ⟨memory', -, hreturns, hframe⟩ :=
    hagree fun _ => (wordBytes word)[display.bytePerPixel] + 1
  have hmemory := (fillArea_screen_returns hpos hfits hword _).unique hreturns
  have hlast := row_last (fun _ => (wordBytes word)[display.bytePerPixel] + 1)
    display.vramAddr display.bytePerPixel count hlength
  rw [← hcount, Except.ok.inj hmemory] at hlast
  rw [hframe _ (.inr (by rw [hcount, Nat.succ_mul, Nat.add_assoc]))] at hlast
  exact absurd hlast (by simp)

/-- The two ways to fill the whole screen agree, for pixels of 16, 24 or 32 bits, exactly when
the colour is computed, the framebuffer lies in the address space, and a pixel has four bytes
or there is no pixel. -/
theorem fillsAgree_iff (display : GraphicalDisplay) (c : Color) (hbuilt : display.Built)
    (hbits : display.bitInfo.bits = 16 ∨ display.bitInfo.bits = 24 ∨
      display.bitInfo.bits = 32) :
    display.FillsAgree c ↔
      ((∃ word, display.color c = .ok word) ∧ display.RowsFit display.maxPosition) ∧
        (display.bytePerPixel = 4 ∨
          display.maxPosition.x * display.maxPosition.y = 0) := by
  have hbytes := hbuilt.bytePerPixel_eq
  have hpos : 0 < display.bytePerPixel := by omega
  constructor
  · intro hagree
    obtain ⟨memory', -, hreturns, -⟩ := hagree fun _ => 0
    refine ⟨(fillArea_ok_iff hpos (Nat.zero_le _) (Nat.le_refl _) (Nat.zero_le _) _).mp
      ⟨memory', hreturns⟩, ?_⟩
    by_contra hcases
    rw [not_or] at hcases
    exact not_fillsAgree_of_lt hpos (by omega) (Nat.pos_of_ne_zero hcases.2) hagree
  · rintro ⟨⟨⟨word, hword⟩, hfits⟩, hsize⟩ memory
    have hend := hfits.end_lt
    rw [pixelAddr_eq, Nat.zero_mul, Nat.add_zero, Nat.mul_right_comm,
      Nat.mul_comm display.maxPosition.y] at hend
    have hcount : display.maxPosition.x * display.maxPosition.y ≤
        display.maxPosition.x * display.maxPosition.y * display.bytePerPixel :=
      Nat.le_mul_of_pos_right _ hpos
    have hrow : row memory display.vramAddr display.bytePerPixel (wordBytes word)
          (display.maxPosition.x * display.maxPosition.y) =
        row memory display.vramAddr 4 (wordBytes word)
          (display.maxPosition.x * display.maxPosition.y) := by
      rcases hsize with hfour | hzero
      · rw [hfour]
      · rw [hzero, row, row]
    have hreturns := fillArea_screen_returns hpos hfits hword memory
    rw [hrow] at hreturns
    refine ⟨_, fillDisplay_eq_ok hword (by omega) (fun i hi => ?_) memory, hreturns,
      fun addr haddr => row_outside memory fun i hi => ?_⟩
    · rcases hsize with hfour | hzero
      · rw [hfour] at hend
        omega
      · omega
    · rcases hsize with hfour | hzero
      · rw [hfour] at haddr
        simp only [length_wordBytes]
        omega
      · omega

/-- The agreement of the two ways for a screen of one pixel of 32 bits. -/
theorem fillsAgree_iff_onePixel : onePixelDisplay.FillsAgree .white :=
  (fillsAgree_iff onePixelDisplay .white rfl (.inr (.inr rfl))).mpr
    ⟨⟨⟨_, rfl⟩, by decide, by decide, by decide⟩, .inl rfl⟩

/-- A screen of one pixel of 16 bits. -/
def highColorDisplay : GraphicalDisplay where
  vramAddr := 0xFD000000
  maxPosition := ⟨1, 1⟩
  bitInfo := ⟨5, 6, 5, 0, 11, 5, 0, 0⟩
  bytePerPixel := 2

/-- With a pixel of 16 bits both ways write two bytes beyond the framebuffer. -/
theorem not_fillsAgree :
    ¬ ∀ (display : GraphicalDisplay) (c : Color), display.Built →
      display.bitInfo.bits = 16 ∨ display.bitInfo.bits = 24 ∨ display.bitInfo.bits = 32 →
      display.FillsAgree c := by
  intro hall
  exact not_fillsAgree_of_lt (by decide) (by decide) (by decide)
    (hall highColorDisplay .white rfl (.inl rfl))

end GraphicalDisplay

end Axel
