import Axel.Graphic.CharacterDisplay
import Mathlib.Logic.Function.Basic
import Mathlib.Tactic.Ring

/-!
# The text display as a terminal

A terminal has unboundedly many rows and never scrolls. The text display shows a window of
it: as many rows as the screen has, down to the lowest row that was opened so far. This file
states what printing means on the terminal and proves that the display, with its scrolling
in place, always shows that window.
-/

namespace Axel

/-- A terminal with unboundedly many rows. -/
structure Terminal where
  /-- The cell in a row and a column. -/
  cell : ℕ → ℕ → UInt16
  /-- The column of the cursor. -/
  x : ℕ
  /-- The row of the cursor. -/
  row : ℕ
  /-- The lowest row opened so far. -/
  lowest : ℕ

namespace Terminal

/-- Write one cell. -/
def setCell (t : Terminal) (row x : ℕ) (code : UInt16) : Terminal :=
  { t with cell := Function.update t.cell row (Function.update (t.cell row) x code) }

/-- Move to the start of the next row, which is filled with spaces when it is opened. -/
def nextRow (space : UInt16) (t : Terminal) : Terminal :=
  if t.lowest < t.row + 1 then
    ⟨Function.update t.cell (t.row + 1) (fun _ => space), 0, t.row + 1, t.row + 1⟩
  else { t with x := 0, row := t.row + 1 }

/-- Write one character: a newline moves to the next row, and so does a character in the last
column. -/
def put (width : ℕ) (pixel : Char → UInt16) (t : Terminal) (c : Char) : Terminal :=
  if c = '\n' then t.nextRow (pixel ' ')
  else if t.x + 1 = width then (t.setCell t.row t.x (pixel c)).nextRow (pixel ' ')
  else { t.setCell t.row t.x (pixel c) with x := t.x + 1 }

/-- Write the characters of a text. -/
def write (width : ℕ) (pixel : Char → UInt16) (t : Terminal) (text : List Char) : Terminal :=
  text.foldl (put width pixel) t

end Terminal

/-- The cells of the screen are those of the terminal from the row `top` on. -/
structure ShowsCells (vram : Vram) (width height top : ℕ) (cell : ℕ → ℕ → UInt16) : Prop where
  /-- The video memory has one cell for each position of the screen. -/
  length_eq : vram.cells.length = width * height
  /-- The cells agree. -/
  cells_eq : ∀ r < height, ∀ col < width,
    vram.cells[r * width + col]? = some (cell (top + r) col)

section Vram

variable {width height top : ℕ} {cell : ℕ → ℕ → UInt16} {vram : Vram}

/-- A position of the screen has an index in the video memory. -/
theorem index_lt {r col : ℕ} (hr : r < height) (hcol : col < width) :
    r * width + col < width * height := by
  have hle : (r + 1) * width ≤ height * width := Nat.mul_le_mul_right width hr
  rw [Nat.add_mul, Nat.one_mul, Nat.mul_comm height] at hle
  omega

/-- Two positions of the screen with one index are the same. -/
theorem index_inj {r col r' col' : ℕ} (hcol : col < width) (hcol' : col' < width)
    (h : r * width + col = r' * width + col') : r = r' ∧ col = col' := by
  have hrow : ∀ r col, col < width → (r * width + col) / width = r := by
    intro r col hcol
    rw [Nat.mul_comm, Nat.mul_add_div (by omega), Nat.div_eq_of_lt hcol, Nat.add_zero]
  have hr : r = r' := by rw [← hrow r col hcol, h, hrow r' col' hcol']
  subst hr
  exact ⟨rfl, by omega⟩

/-- Writing one cell of the video memory. -/
theorem Vram.set_ok {i : ℕ} (h : i < vram.cells.length) (code : UInt16) :
    ∃ vram', vram.set i code = .ok vram' ∧ vram'.cells = vram.cells.set i code :=
  ⟨_, if_pos h, rfl⟩

/-- Writing a position of the screen writes the cell of the terminal. -/
theorem ShowsCells.set (h : ShowsCells vram width height top cell) {x y : ℕ} (hx : x < width)
    (hy : y < height) (code : UInt16) :
    ∃ vram', vram.set (x + y * width) code = .ok vram' ∧ ShowsCells vram' width height top
      (Function.update cell (top + y) (Function.update (cell (top + y)) x code)) := by
  have hlt : x + y * width < vram.cells.length := by
    rw [h.length_eq, Nat.add_comm]
    exact index_lt hy hx
  obtain ⟨vram', hset, hcells⟩ := Vram.set_ok hlt code
  refine ⟨vram', hset, ?_, fun r hr col hcol => ?_⟩
  · rw [hcells, List.length_set, h.length_eq]
  · rw [hcells, List.getElem?_set]
    by_cases hsame : x + y * width = r * width + col
    · obtain ⟨rfl, rfl⟩ := index_inj hx hcol ((Nat.add_comm _ _).trans hsame)
      rw [if_pos hsame, if_pos hlt, Function.update_self, Function.update_self]
    · rw [if_neg hsame, h.cells_eq r hr col hcol]
      by_cases hrow : r = y
      · subst hrow
        rw [Function.update_self, Function.update_of_ne (by rintro rfl; omega)]
      · rw [Function.update_of_ne (by omega)]

/-- The loop that moves the cells up, over the cells from `i` on. -/
theorem scrollCells_spec {i n : ℕ} (hi : width ≤ i) (hn : i + n ≤ vram.cells.length) :
    ∃ vram', CharacterDisplay.scrollCells width (List.range' i n) vram = .ok vram' ∧
      vram'.cells.length = vram.cells.length ∧
      ∀ k, vram'.cells[k]? = if i ≤ k + width ∧ k + width < i + n then vram.cells[k + width]?
        else vram.cells[k]? := by
  induction n generalizing vram i with
  | zero => exact ⟨vram, rfl, rfl, fun k => by rw [if_neg (by omega)]⟩
  | succ n ih =>
    have hget : vram.get i = .ok vram.cells[i] := by
      rw [Vram.get, List.getElem?_eq_getElem (by omega)]
    obtain ⟨vram₁, hset, hcells⟩ :=
      Vram.set_ok (show i - width < vram.cells.length by omega) vram.cells[i]
    have hlength : vram₁.cells.length = vram.cells.length := by rw [hcells, List.length_set]
    obtain ⟨vram', hrun, hlength', hall⟩ := ih (show width ≤ i + 1 by omega)
      (show i + 1 + n ≤ vram₁.cells.length by omega)
    refine ⟨vram', ?_, hlength'.trans hlength, fun k => ?_⟩
    · rw [List.range'_succ, CharacterDisplay.scrollCells]
      simp only [hget, checkedSub_ok hi, hset, bind, Except.bind]
      exact hrun
    · rw [hall k, hcells, List.getElem?_set, List.getElem?_set]
      by_cases hk : k + width = i
      · have hget' : vram.cells[i]? = some vram.cells[i] := List.getElem?_eq_getElem (by omega)
        rw [if_neg (show ¬(i + 1 ≤ k + width ∧ k + width < i + 1 + n) by omega),
          if_pos (show i - width = k by omega), if_pos (by omega),
          if_pos (show i ≤ k + width ∧ k + width < i + (n + 1) by omega), hk, hget']
      · rw [if_neg (show i - width ≠ k by omega)]
        by_cases hin : i + 1 ≤ k + width ∧ k + width < i + 1 + n
        · rw [if_pos hin, if_neg (show i - width ≠ k + width by omega),
            if_pos (show i ≤ k + width ∧ k + width < i + (n + 1) by omega)]
        · rw [if_neg hin, if_neg (show ¬(i ≤ k + width ∧ k + width < i + (n + 1)) by omega)]

/-- The loop that fills cells, from the cell `i` on. -/
theorem fillCells_spec {i n : ℕ} (code : UInt16) (hn : i + n ≤ vram.cells.length) :
    ∃ vram', CharacterDisplay.fillCells code (List.range' i n) vram = .ok vram' ∧
      vram'.cells.length = vram.cells.length ∧
      ∀ k, vram'.cells[k]? = if i ≤ k ∧ k < i + n then some code else vram.cells[k]? := by
  induction n generalizing vram i with
  | zero => exact ⟨vram, rfl, rfl, fun k => by rw [if_neg (by omega)]⟩
  | succ n ih =>
    obtain ⟨vram₁, hset, hcells⟩ :=
      Vram.set_ok (show i < vram.cells.length by omega) code
    have hlength : vram₁.cells.length = vram.cells.length := by rw [hcells, List.length_set]
    obtain ⟨vram', hrun, hlength', hall⟩ := ih (show i + 1 + n ≤ vram₁.cells.length by omega)
    refine ⟨vram', ?_, hlength'.trans hlength, fun k => ?_⟩
    · rw [List.range'_succ, CharacterDisplay.fillCells]
      simp only [hset, bind, Except.bind]
      exact hrun
    · rw [hall k, hcells, List.getElem?_set]
      by_cases hk : i = k
      · rw [if_neg (by omega), if_pos hk, if_pos (by omega), if_pos (by omega)]
      · rw [if_neg hk]
        by_cases hin : i + 1 ≤ k ∧ k < i + 1 + n
        · rw [if_pos hin, if_pos (by omega)]
        · rw [if_neg hin, if_neg (by omega)]

/-- Moving the rows up and clearing the last one shows the window one row further down. -/
theorem ShowsCells.scroll (h : ShowsCells vram width height top cell) (hheight : 1 ≤ height)
    (space : UInt16) :
    ∃ vram₁ vram₂, CharacterDisplay.scrollCells width
        (List.range' width (width * height - width)) vram = .ok vram₁ ∧
      CharacterDisplay.fillCells space (List.range' (width * (height - 1))
        (width * height - width * (height - 1))) vram₁ = .ok vram₂ ∧
      ShowsCells vram₂ width height (top + 1)
        (Function.update cell (top + height) fun _ => space) := by
  obtain ⟨rows, rfl⟩ : ∃ rows, height = rows + 1 := ⟨height - 1, by omega⟩
  have hlength := h.length_eq
  have harea : width * (rows + 1) = width * rows + width := Nat.mul_succ width rows
  rw [harea] at hlength ⊢
  rw [Nat.add_sub_cancel, Nat.add_sub_cancel, Nat.add_sub_cancel_left]
  obtain ⟨vram₁, hscroll, hlength₁, hmoved⟩ :=
    scrollCells_spec le_rfl (show width + width * rows ≤ vram.cells.length by omega)
  obtain ⟨vram₂, hfill, hlength₂, hfilled⟩ :=
    fillCells_spec space (show width * rows + width ≤ vram₁.cells.length by omega)
  refine ⟨vram₁, vram₂, hscroll, hfill, by omega, fun r hr col hcol => ?_⟩
  rw [hfilled]
  by_cases hlast : r = rows
  · subst hlast
    rw [Nat.mul_comm width r, if_pos (by omega), show top + 1 + r = top + (r + 1) by omega,
      Function.update_self]
  · have hlt := index_lt (show r < rows by omega) hcol
    have hnext := h.cells_eq (r + 1) (by omega) col hcol
    have hindex : (r + 1) * width + col = r * width + col + width := by ring
    rw [hindex] at hnext
    rw [if_neg (by omega), hmoved, if_pos (by omega), hnext, Function.update_of_ne (by omega),
      show top + (r + 1) = top + 1 + r by omega]

end Vram

namespace CharacterDisplay

/-- The display shows the window of the terminal that ends with the lowest row opened so far,
and the cursor stands at the same place. -/
structure Shows (d : CharacterDisplay) (t : Terminal) : Prop where
  /-- The terminal has as many rows as the screen. -/
  lowest : d.maxPosition.y ≤ t.lowest + 1
  /-- The cells agree. -/
  cells : ShowsCells d.vram d.maxPosition.x d.maxPosition.y
    (t.lowest + 1 - d.maxPosition.y) t.cell
  /-- The column of the cursor is on the screen. -/
  x_lt : d.currentPosition.x < d.maxPosition.x
  /-- The row of the cursor is on the screen. -/
  y_lt : d.currentPosition.y < d.maxPosition.y
  /-- The columns agree. -/
  x_eq : t.x = d.currentPosition.x
  /-- The rows agree, counted from the window. -/
  row_eq : t.row + d.maxPosition.y = d.currentPosition.y + t.lowest + 1

/-- A screen fits into the address space. -/
theorem area_lt {d : CharacterDisplay} {t : Terminal} (h : d.Shows t) :
    d.maxPosition.x * d.maxPosition.y < 2 ^ 62 ∧ d.maxPosition.x < 2 ^ 62 ∧
      d.maxPosition.y < 2 ^ 62 := by
  have hfits := d.vram.fits
  rw [h.cells.length_eq] at hfits
  have hx := h.x_lt
  have hy := h.y_lt
  have hwidth : d.maxPosition.x ≤ d.maxPosition.x * d.maxPosition.y :=
    Nat.le_mul_of_pos_right _ (by omega)
  have hheight : d.maxPosition.y ≤ d.maxPosition.x * d.maxPosition.y :=
    Nat.le_mul_of_pos_left _ (by omega)
  omega

/-- The screen does not scroll while the cursor is on it. -/
theorem scrollDown_same {d : CharacterDisplay} (h : d.currentPosition.y < d.maxPosition.y)
    (space : UInt16) : d.scrollDown space = .ok d := by
  simp only [scrollDown, if_neg (not_le.mpr h)]
  rfl

/-- Moving the cursor to the start of the next row, with a scroll when it leaves the screen,
is the next row of the terminal. -/
theorem Shows.nextRow {d : CharacterDisplay} {t : Terminal} (h : d.Shows t) (space : UInt16) :
    ∃ vram y, ({ d with currentPosition := ⟨0, d.currentPosition.y + 1⟩ } :
        CharacterDisplay).scrollDown space =
          .ok { d with vram, currentPosition := ⟨0, y⟩ } ∧
      ({ d with vram, currentPosition := ⟨0, y⟩ } : CharacterDisplay).Shows (t.nextRow space) := by
  obtain ⟨harea, hwidth, hheight⟩ := area_lt h
  have hlowest := h.lowest
  have hx := h.x_lt
  have hy := h.y_lt
  have hrow := h.row_eq
  by_cases hscroll : d.maxPosition.y ≤ d.currentPosition.y + 1
  · have hopen : t.lowest < t.row + 1 := by omega
    obtain ⟨vram₁, vram₂, hmoved, hfilled, hshows⟩ := h.cells.scroll (by omega) space
    have hareaOk : d.maxPosition.areaFromOrigin =
        .ok (d.maxPosition.x * d.maxPosition.y) :=
      checkedMul_ok (by unfold usizeCount; omega)
    have hle : d.maxPosition.x * (d.maxPosition.y - 1) ≤ d.maxPosition.x * d.maxPosition.y :=
      Nat.mul_le_mul_left _ (by omega)
    have hrows : checkedSub d.maxPosition.y 1 = .ok (d.maxPosition.y - 1) :=
      checkedSub_ok (by omega)
    have hlast : checkedMul d.maxPosition.x (d.maxPosition.y - 1) =
        .ok (d.maxPosition.x * (d.maxPosition.y - 1)) :=
      checkedMul_ok (by unfold usizeCount; omega)
    have hback : checkedSub (d.currentPosition.y + 1) 1 = .ok d.currentPosition.y :=
      checkedSub_ok (by omega)
    have htop : t.row + 1 + 1 - d.maxPosition.y = t.lowest + 1 - d.maxPosition.y + 1 := by omega
    have hopened : t.lowest + 1 - d.maxPosition.y + d.maxPosition.y = t.row + 1 := by omega
    refine ⟨vram₂, d.currentPosition.y, ?_, ?_⟩
    · simp only [scrollDown, if_pos hscroll, hareaOk, hmoved, hrows, hlast, hfilled, hback, bind,
        Except.bind, pure, Except.pure]
    · rw [hopened] at hshows
      rw [Terminal.nextRow, if_pos hopen]
      exact ⟨by simp only; omega, by simpa only [htop] using hshows, by simp only; omega, hy, rfl,
        by simp only; omega⟩
  · have hopen : ¬t.lowest < t.row + 1 := by omega
    refine ⟨d.vram, d.currentPosition.y + 1, scrollDown_same (by simp only; omega) space, ?_⟩
    rw [Terminal.nextRow, if_neg hopen]
    exact ⟨hlowest, h.cells, by simp only; omega, by simp only; omega, rfl, by simp only; omega⟩

/-- Two displays of one size and the same colours. -/
def Alike (d d' : CharacterDisplay) : Prop :=
  d'.maxPosition = d.maxPosition ∧ ∀ c, d'.genPixel c = d.genPixel c

theorem Alike.refl (d : CharacterDisplay) : Alike d d := ⟨rfl, fun _ => rfl⟩

theorem Alike.trans {d₁ d₂ d₃ : CharacterDisplay} (h₁ : Alike d₁ d₂) (h₂ : Alike d₂ d₃) :
    Alike d₁ d₃ := ⟨h₂.1.trans h₁.1, fun c => (h₂.2 c).trans (h₁.2 c)⟩

section Print

variable {d : CharacterDisplay} {t : Terminal} {pixel : Char → UInt16}

/-- Writing a character at the cursor. -/
theorem Shows.putChar (h : d.Shows t) {c : Char} (hc : c ≠ '\n')
    (hpixel : d.genPixel c = .ok (pixel c)) :
    ∃ vram, d.putChar c = .ok { d with
        vram, currentPosition := ⟨d.currentPosition.x + 1, d.currentPosition.y⟩ } ∧
      ({ d with vram } : CharacterDisplay).Shows (t.setCell t.row t.x (pixel c)) := by
  obtain ⟨harea, hwidth, -⟩ := area_lt h
  have hx := h.x_lt
  have hy := h.y_lt
  have hlowest := h.lowest
  have hrow := h.row_eq
  obtain ⟨vram, hset, hshows⟩ := h.cells.set hx hy (pixel c)
  have hindex := index_lt hy hx
  have hmul : checkedMul d.currentPosition.y d.maxPosition.x =
      .ok (d.currentPosition.y * d.maxPosition.x) := checkedMul_ok (by unfold usizeCount; omega)
  have hadd : checkedAdd d.currentPosition.x (d.currentPosition.y * d.maxPosition.x) =
      .ok (d.currentPosition.x + d.currentPosition.y * d.maxPosition.x) :=
    checkedAdd_ok (by unfold usizeCount; omega)
  have hnext : checkedAdd d.currentPosition.x 1 = .ok (d.currentPosition.x + 1) :=
    checkedAdd_ok (by unfold usizeCount; omega)
  refine ⟨vram, ?_, ?_⟩
  · simp only [CharacterDisplay.putChar, ne_eq, hc, not_false_eq_true, if_true, hpixel, hmul, hadd,
      hset, hnext, bind, Except.bind, pure, Except.pure]
  · have hsame : t.lowest + 1 - d.maxPosition.y + d.currentPosition.y = t.row := by omega
    rw [hsame, ← h.x_eq] at hshows
    exact ⟨hlowest, hshows, hx, hy, h.x_eq, hrow⟩

/-- Starting a new line. -/
theorem Shows.putChar_newline (h : d.Shows t) :
    d.putChar '\n' = .ok { d with currentPosition := ⟨0, d.currentPosition.y + 1⟩ } := by
  obtain ⟨-, -, hheight⟩ := area_lt h
  have hy := h.y_lt
  have hnext : checkedAdd d.currentPosition.y 1 = .ok (d.currentPosition.y + 1) :=
    checkedAdd_ok (by unfold usizeCount; omega)
  simp only [CharacterDisplay.putChar, ne_eq, not_true_eq_false, if_false, hnext, bind, Except.bind,
    pure, Except.pure]

/-- Printing one character keeps the display and the terminal together. -/
theorem Shows.printChar (h : d.Shows t) (hpixel : ∀ c, d.genPixel c = .ok (pixel c)) (c : Char) :
    ∃ d', d.printChar c = .ok d' ∧ d'.Shows (t.put d.maxPosition.x pixel c) ∧ Alike d d' := by
  have hx := h.x_lt
  have hspace : ∀ (vram : Vram) (position : Position),
      ({ d with vram, currentPosition := position } : CharacterDisplay).genPixel ' ' =
        .ok (pixel ' ') := fun _ _ => hpixel ' '
  by_cases hc : c = '\n'
  · subst hc
    obtain ⟨vram, y, hscroll, hshows⟩ := h.nextRow (pixel ' ')
    refine ⟨{ d with vram, currentPosition := ⟨0, y⟩ }, ?_, ?_, rfl, fun _ => rfl⟩
    case refine_2 =>
      rw [Terminal.put, if_pos rfl]
      exact hshows
    have hwrap : ({ d with currentPosition := ⟨0, d.currentPosition.y + 1⟩ } :
        CharacterDisplay).wrapLine =
          .ok { d with currentPosition := ⟨0, d.currentPosition.y + 1⟩ } :=
      if_neg (by simp only; omega)
    simp only [CharacterDisplay.printChar, h.putChar_newline, hspace d.vram, hwrap, hscroll, bind,
      Except.bind]
  · obtain ⟨vram, hput, hwritten⟩ := h.putChar hc (hpixel c)
    by_cases hfull : d.maxPosition.x ≤ d.currentPosition.x + 1
    · obtain ⟨vram', y, hscroll, hshows⟩ := hwritten.nextRow (pixel ' ')
      have hlast : t.x + 1 = d.maxPosition.x := by
        rw [h.x_eq]
        omega
      refine ⟨{ d with vram := vram', currentPosition := ⟨0, y⟩ }, ?_, ?_, rfl, fun _ => rfl⟩
      case refine_2 =>
        rw [Terminal.put, if_neg hc, if_pos hlast]
        exact hshows
      obtain ⟨-, -, hheight⟩ := area_lt h
      have hy := h.y_lt
      have hnext : checkedAdd d.currentPosition.y 1 = .ok (d.currentPosition.y + 1) :=
        checkedAdd_ok (by unfold usizeCount; omega)
      simp only [CharacterDisplay.printChar, hput, hspace, wrapLine, if_pos hfull, hnext, bind,
        Except.bind, pure, Except.pure]
      exact hscroll
    · have hlast : ¬t.x + 1 = d.maxPosition.x := by
        rw [h.x_eq]
        omega
      refine ⟨{ d with
          vram, currentPosition := ⟨d.currentPosition.x + 1, d.currentPosition.y⟩ }, ?_, ?_, rfl,
        fun _ => rfl⟩
      · simp only [CharacterDisplay.printChar, hput, hspace, wrapLine, if_neg hfull, bind,
          Except.bind, pure, Except.pure]
        exact scrollDown_same (d := { d with
          vram, currentPosition := ⟨d.currentPosition.x + 1, d.currentPosition.y⟩ }) h.y_lt _
      · rw [Terminal.put, if_neg hc, if_neg hlast]
        exact ⟨hwritten.lowest, hwritten.cells, by simp only; omega, hwritten.y_lt,
          congrArg (· + 1) h.x_eq, hwritten.row_eq⟩

/-- Printing a text keeps the display and the terminal together. -/
theorem Shows.printChars (h : d.Shows t) (hpixel : ∀ c, d.genPixel c = .ok (pixel c))
    (text : List Char) :
    ∃ d', d.printChars text = .ok d' ∧ d'.Shows (t.write d.maxPosition.x pixel text) ∧
      Alike d d' := by
  induction text generalizing d t with
  | nil => exact ⟨d, rfl, h, .refl d⟩
  | cons c text ih =>
    obtain ⟨d₁, hprint, hshows, halike⟩ := h.printChar hpixel c
    obtain ⟨d', hrun, hshows', halike'⟩ :=
      ih hshows (fun c => (halike.2 c).trans (hpixel c))
    refine ⟨d', ?_, ?_, halike.trans halike'⟩
    · simp only [CharacterDisplay.printChars, hprint, bind, Except.bind]
      exact hrun
    · rw [halike.1] at hshows'
      exact hshows'

end Print

end CharacterDisplay

/-- A call that prints. -/
inductive Output where
  /-- `print`. -/
  | print (string : String)
  /-- `println`. -/
  | println (string : String)
  /-- `write_str`. -/
  | writeStr (string : String)

/-- The characters that a call prints. -/
def Output.text : Output → List Char
  | .print string => string.toList
  | .println string => string.toList ++ ['\n']
  | .writeStr string => string.toList

namespace CharacterDisplay

/-- Perform one call. -/
def emit (self : CharacterDisplay) : Output → Except Fault CharacterDisplay
  | .print string => self.print string
  | .println string => self.println string
  | .writeStr string => self.writeStr string

/-- Perform a sequence of calls. -/
def run (self : CharacterDisplay) : List Output → Except Fault CharacterDisplay
  | [] => .ok self
  | output :: outputs => do
    let self ← self.emit output
    self.run outputs

/-- Printing one text after another. -/
theorem printChars_append (d : CharacterDisplay) (front back : List Char) :
    d.printChars (front ++ back) = d.printChars front >>= fun d => d.printChars back := by
  induction front generalizing d with
  | nil => rfl
  | cons c front ih => simp only [List.cons_append, printChars, ih, bind_assoc]

/-- One call prints its characters. -/
theorem emit_eq (d : CharacterDisplay) (output : Output) :
    d.emit output = d.printChars output.text := by
  cases output with
  | print string => rfl
  | println string =>
    rw [Output.text, printChars_append]
    rfl
  | writeStr string => rfl

/-- A sequence of calls prints the characters of all calls. -/
theorem run_eq (d : CharacterDisplay) (outputs : List Output) :
    d.run outputs = d.printChars (outputs.flatMap Output.text) := by
  induction outputs generalizing d with
  | nil => rfl
  | cons output outputs ih =>
    simp only [run, emit_eq, ih, List.flatMap_cons, printChars_append]

/-- The colours of the text mode make every pixel, and the other ones make none. -/
theorem genPixel_cases (d : CharacterDisplay) :
    (∃ pixel : Char → UInt16, ∀ c, d.genPixel c = .ok (pixel c)) ∨
      ∀ c, d.genPixel c = .error .panic := by
  have hcolor : ∀ x, (∃ code, color x = .ok code) ∨ color x = .error .panic := by
    intro x
    cases x <;> simp [color]
  rcases hcolor d.colorBackground with ⟨bg, hbg⟩ | hbg
  · rcases hcolor d.colorForeground with ⟨fg, hfg⟩ | hfg
    · refine Or.inl ⟨fun c => (bg.toUInt16 <<< 12) ||| (fg.toUInt16 <<< 8) ||| c.val.toUInt16, ?_⟩
      intro c
      simp only [genPixel, hbg, hfg, bind, Except.bind, pure, Except.pure]
    · exact Or.inr fun c => by simp only [genPixel, hbg, hfg, bind, Except.bind]
  · exact Or.inr fun c => by simp only [genPixel, hbg, bind, Except.bind]

/-- Without colours of the text mode, the first character ends in their panic. -/
theorem printChars_panic {d : CharacterDisplay} {t : Terminal} (h : d.Shows t)
    (hpixel : ∀ c, d.genPixel c = .error .panic) (text : List Char) :
    d.printChars text = if text = [] then .ok d else .error .panic := by
  cases text with
  | nil => rfl
  | cons c text =>
    have hprint : d.printChar c = .error .panic := by
      by_cases hc : c = '\n'
      · subst hc
        have hspace : ({ d with currentPosition := ⟨0, d.currentPosition.y + 1⟩ } :
            CharacterDisplay).genPixel ' ' = .error .panic := hpixel ' '
        simp only [CharacterDisplay.printChar, h.putChar_newline, hspace, bind, Except.bind]
      · simp only [CharacterDisplay.printChar, CharacterDisplay.putChar, ne_eq, hc,
          not_false_eq_true, if_true, hpixel, bind, Except.bind]
    rw [if_neg (List.cons_ne_nil c text), printChars, hprint]
    rfl

end CharacterDisplay

/-- The terminal that starts with the cells and the cursor of a display. -/
def Terminal.start (d : CharacterDisplay) : Terminal :=
  ⟨fun row col => d.vram.cells.getD (row * d.maxPosition.x + col) 0, d.currentPosition.x,
    d.currentPosition.y, d.maxPosition.y - 1⟩

/-- The cells of the last rows of a terminal, down to the lowest row opened so far. -/
def Terminal.window (t : Terminal) (width height : ℕ) : List UInt16 :=
  (List.range (width * height)).map fun i =>
    t.cell (t.lowest + 1 - height + i / width) (i % width)

/-- A screen that shows the cells of a terminal holds its window. -/
theorem ShowsCells.cells_eq_window {t : Terminal} {vram : Vram} {width height : ℕ}
    (h : ShowsCells vram width height (t.lowest + 1 - height) t.cell) :
    vram.cells = t.window width height := by
  apply List.ext_getElem?
  intro i
  rw [Terminal.window, List.getElem?_map]
  by_cases hi : i < width * height
  · have hwidth : 0 < width := by
      rcases Nat.eq_zero_or_pos width with rfl | hpos
      · rw [Nat.zero_mul] at hi
        omega
      · exact hpos
    have hrow : i / width < height := (Nat.div_lt_iff_lt_mul hwidth).mpr (by rwa [Nat.mul_comm])
    have hcell := h.cells_eq (i / width) hrow (i % width) (Nat.mod_lt i hwidth)
    rw [Nat.div_add_mod'] at hcell
    rw [hcell, List.getElem?_range hi]
    rfl
  · rw [List.getElem?_eq_none (by rw [h.length_eq]; omega),
      List.getElem?_eq_none (by rw [List.length_range]; omega)]
    rfl

namespace CharacterDisplay

/-- A display with the cursor on the screen shows the terminal that starts with it. -/
theorem shows_start {d : CharacterDisplay}
    (hlength : d.vram.cells.length = d.maxPosition.x * d.maxPosition.y)
    (hx : d.currentPosition.x < d.maxPosition.x) (hy : d.currentPosition.y < d.maxPosition.y) :
    d.Shows (Terminal.start d) := by
  have hlowest : d.maxPosition.y - 1 + 1 = d.maxPosition.y := by omega
  refine ⟨by simp only [Terminal.start]; omega, ⟨hlength, fun r hr col hcol => ?_⟩, hx, hy, rfl,
    by simp only [Terminal.start]; omega⟩
  have hlt : r * d.maxPosition.x + col < d.vram.cells.length := by
    rw [hlength]
    exact index_lt hr hcol
  simp only [Terminal.start, hlowest, Nat.sub_self, Nat.zero_add]
  rw [List.getD_eq_getElem?_getD, List.getElem?_eq_getElem hlt]
  rfl

/-- The text display is a window of the terminal: from any screen with the cursor on it, a
sequence of calls that print either goes through, with the cursor on the screen and the
window of the terminal in the video memory after every character, or the colours are not
of the text mode and the first character panics. -/
theorem run_shows_window (d : CharacterDisplay)
    (hlength : d.vram.cells.length = d.maxPosition.x * d.maxPosition.y)
    (hx : d.currentPosition.x < d.maxPosition.x) (hy : d.currentPosition.y < d.maxPosition.y)
    (outputs : List Output) :
    d.run outputs = d.printChars (outputs.flatMap Output.text) ∧
      ((∃ pixel : Char → UInt16, (∀ c, d.genPixel c = .ok (pixel c)) ∧
        ∀ before, before <+: outputs.flatMap Output.text →
          ∃ d', d.printChars before = .ok d' ∧
            d'.currentPosition.x < d.maxPosition.x ∧ d'.currentPosition.y < d.maxPosition.y ∧
            d'.vram.cells = ((Terminal.start d).write d.maxPosition.x pixel before).window
              d.maxPosition.x d.maxPosition.y) ∨
      ((∀ c, d.genPixel c = .error .panic) ∧
        d.run outputs = if outputs.flatMap Output.text = [] then .ok d else .error .panic)) := by
  have hshows := shows_start hlength hx hy
  refine ⟨d.run_eq outputs, ?_⟩
  rcases d.genPixel_cases with ⟨pixel, hpixel⟩ | hpanic
  · refine Or.inl ⟨pixel, hpixel, fun before _ => ?_⟩
    obtain ⟨d', hrun, hend, halike⟩ := hshows.printChars hpixel before
    have hx' := hend.x_lt
    have hy' := hend.y_lt
    have hcells := hend.cells
    rw [halike.1] at hx' hy' hcells
    exact ⟨d', hrun, hx', hy', hcells.cells_eq_window⟩
  · refine Or.inr ⟨hpanic, ?_⟩
    rw [run_eq]
    exact printChars_panic hshows hpanic _

/-- A new display of a nonempty screen has the cursor on it. -/
theorem new_ready {memory : ℕ → UInt16} {maxP : Position} {d : CharacterDisplay}
    (h : new memory maxP = .ok d) (hwidth : 1 ≤ maxP.x) (hheight : 1 ≤ maxP.y) :
    d.vram.cells.length = d.maxPosition.x * d.maxPosition.y ∧
      d.currentPosition.x < d.maxPosition.x ∧ d.currentPosition.y < d.maxPosition.y := by
  obtain ⟨area, harea, h⟩ := Except.bind_eq_ok.mp h
  obtain ⟨-, rfl⟩ := checkedMul_eq_ok.mp harea
  split at h
  case isTrue =>
    cases h
    exact ⟨by simp, hwidth, hheight⟩
  case isFalse => cases h

/-- Clearing the screen writes a space to every cell and leaves the cursor. -/
theorem clearScreen_spec {d : CharacterDisplay} {space : UInt16}
    (hlength : d.vram.cells.length = d.maxPosition.x * d.maxPosition.y)
    (hpixel : d.genPixel ' ' = .ok space) :
    ∃ vram, d.clearScreen = .ok { d with vram } ∧
      vram.cells = List.replicate (d.maxPosition.x * d.maxPosition.y) space := by
  have hfits := d.vram.fits
  have harea : d.maxPosition.areaFromOrigin = .ok (d.maxPosition.x * d.maxPosition.y) :=
    checkedMul_ok (by unfold usizeCount; omega)
  obtain ⟨vram, hfill, hlength', hcells⟩ :=
    fillCells_spec space (show 0 + d.maxPosition.x * d.maxPosition.y ≤ d.vram.cells.length by omega)
  refine ⟨vram, ?_, List.ext_getElem? fun k => ?_⟩
  · simp only [clearScreen, hpixel, harea, List.range_eq_range', hfill, bind, Except.bind, pure,
      Except.pure]
  · rw [hcells k, List.getElem?_replicate]
    by_cases hk : k < d.maxPosition.x * d.maxPosition.y
    · rw [if_pos (by omega), if_pos hk]
    · rw [if_neg (by omega), if_neg hk, List.getElem?_eq_none (by omega)]

/-- A screen of two rows and two columns with the cursor in the last cell. -/
def sampleDisplay : CharacterDisplay :=
  ⟨⟨[0, 0, 0, 0], by decide⟩, ⟨1, 1⟩, ⟨2, 2⟩, .black, .lightRed⟩

/-- Two calls on a small screen, the first of which scrolls. -/
theorem run_shows_window_sample :
    sampleDisplay.run [.println "ab", .print "c"] =
        sampleDisplay.printChars ([Output.println "ab", .print "c"].flatMap Output.text) ∧
      ((∃ pixel : Char → UInt16, (∀ c, sampleDisplay.genPixel c = .ok (pixel c)) ∧
        ∀ before, before <+: [Output.println "ab", .print "c"].flatMap Output.text →
          ∃ d', sampleDisplay.printChars before = .ok d' ∧
            d'.currentPosition.x < 2 ∧ d'.currentPosition.y < 2 ∧
            d'.vram.cells = ((Terminal.start sampleDisplay).write 2 pixel before).window 2 2) ∨
      ((∀ c, sampleDisplay.genPixel c = .error .panic) ∧
        sampleDisplay.run [.println "ab", .print "c"] =
          if [Output.println "ab", .print "c"].flatMap Output.text = [] then .ok sampleDisplay
          else .error .panic)) :=
  run_shows_window sampleDisplay rfl (by decide) (by decide) [.println "ab", .print "c"]

end CharacterDisplay

end Axel
