import Axel.Graphic.Terminal

/-!
# The colours of the cells

`gen_pixel` packs the background, the foreground and a character into one cell of 16 bits. A
character of the text may need more than the eight bits that the layout has for it. This file
records which cells `print` writes, proves that the record accounts for the whole video
memory, and says for which texts every cell that is written has the colours of the display.
-/

namespace Axel

/-- What `print` does to the video memory. -/
inductive CellEvent where
  /-- A character or the blank of a cleared row is written. -/
  | write (i : ℕ) (cell : UInt16)
  /-- All rows are copied up by one. -/
  | moveUp
  deriving DecidableEq

/-- Perform an event on a screen of the given width and area. -/
def CellEvent.apply (width area : ℕ) (vram : Vram) : CellEvent → Except Fault Vram
  | .write i cell => vram.set i cell
  | .moveUp => CharacterDisplay.scrollCells width (List.range' width (area - width)) vram

namespace CharacterDisplay

/-- Perform events on the video memory of a display. -/
def replay (d : CharacterDisplay) (events : List CellEvent) (vram : Vram) :
    Except Fault Vram :=
  events.foldlM (CellEvent.apply d.maxPosition.x (d.maxPosition.x * d.maxPosition.y)) vram

/-- The events of `putChar`: the character, unless it starts a new line. -/
def putCharEvents (self : CharacterDisplay) (c : Char) : Except Fault (List CellEvent) := do
  if c ≠ '\n' then
    let code ← self.genPixel c
    return [.write (self.currentPosition.x + self.currentPosition.y * self.maxPosition.x) code]
  else return []

/-- The events of `scrollDown`: the rows move up and the last one is cleared. -/
def scrollDownEvents (self : CharacterDisplay) (space : UInt16) : List CellEvent :=
  let ⟨width, height⟩ := self.maxPosition
  if height ≤ self.currentPosition.y then
    .moveUp :: (List.range' (width * (height - 1)) (width * height - width * (height - 1))).map
      fun i => .write i space
  else []

/-- The events of `printChar`. -/
def printCharEvents (self : CharacterDisplay) (c : Char) : Except Fault (List CellEvent) := do
  let events ← self.putCharEvents c
  let self ← self.putChar c
  let space ← self.genPixel ' '
  let self ← self.wrapLine
  return events ++ self.scrollDownEvents space

/-- The events of `printChars`. -/
def printCharsEvents (self : CharacterDisplay) : List Char → Except Fault (List CellEvent)
  | [] => .ok []
  | c :: rest => do
    let events ← self.printCharEvents c
    let self ← self.printChar c
    let more ← self.printCharsEvents rest
    return events ++ more

/-- Two displays of one size and with the same two colours. -/
structure SameLook (d d' : CharacterDisplay) : Prop where
  /-- The sizes agree. -/
  maxPosition : d'.maxPosition = d.maxPosition
  /-- The backgrounds agree. -/
  background : d'.colorBackground = d.colorBackground
  /-- The foregrounds agree. -/
  foreground : d'.colorForeground = d.colorForeground

variable {d d' : CharacterDisplay} {c : Char} {space : UInt16} {text : List Char}

/-- A display looks like itself. -/
theorem SameLook.refl (d : CharacterDisplay) : SameLook d d := ⟨rfl, rfl, rfl⟩

/-- Looking alike is transitive. -/
theorem SameLook.trans {d₁ d₂ d₃ : CharacterDisplay} (h₁ : SameLook d₁ d₂)
    (h₂ : SameLook d₂ d₃) : SameLook d₁ d₃ :=
  ⟨h₂.maxPosition.trans h₁.maxPosition, h₂.background.trans h₁.background,
    h₂.foreground.trans h₁.foreground⟩

/-- Displays that look alike make the same pixels. -/
theorem SameLook.genPixel_eq (h : SameLook d d') (c : Char) :
    d'.genPixel c = d.genPixel c := by
  simp only [genPixel, h.background, h.foreground]

/-- Displays of one size replay events alike. -/
theorem SameLook.replay_eq (h : SameLook d d') (events : List CellEvent) (vram : Vram) :
    d'.replay events vram = d.replay events vram := by
  simp only [replay, h.maxPosition]

/-! ## The record is complete -/

/-- Events are performed one list after the other. -/
theorem replay_append (events more : List CellEvent) (vram : Vram) :
    d.replay (events ++ more) vram = d.replay events vram >>= d.replay more := by
  unfold replay
  rw [List.foldlM_append]

/-- Filling cells is writing them one after the other. -/
theorem fillCells_eq_replay (d : CharacterDisplay) (cell : UInt16) (indices : List ℕ)
    (vram : Vram) :
    fillCells cell indices vram = d.replay (indices.map fun i => .write i cell) vram := by
  induction indices generalizing vram with
  | nil => rfl
  | cons i rest ih =>
    simp only [fillCells, replay, List.map_cons, List.foldlM_cons, CellEvent.apply]
    cases vram.set i cell with
    | error fault => rfl
    | ok vram' => exact ih vram'

/-- What `putChar` does when it returns. -/
theorem putChar_replay (h : d.putChar c = .ok d') :
    ∃ events, d.putCharEvents c = .ok events ∧ d.replay events d.vram = .ok d'.vram ∧
      SameLook d d' := by
  unfold putCharEvents
  by_cases hc : c ≠ '\n'
  · simp only [putChar, if_pos hc] at h
    rw [if_pos hc]
    obtain ⟨code, hcode, h⟩ := Except.bind_eq_ok.mp h
    obtain ⟨offset, hoffset, h⟩ := Except.bind_eq_ok.mp h
    obtain ⟨index, hindex, h⟩ := Except.bind_eq_ok.mp h
    obtain ⟨vram, hset, h⟩ := Except.bind_eq_ok.mp h
    obtain ⟨x, -, hdone⟩ := Except.bind_eq_ok.mp h
    obtain ⟨-, rfl⟩ := checkedMul_eq_ok.mp hoffset
    obtain ⟨-, rfl⟩ := checkedAdd_eq_ok.mp hindex
    cases hdone
    refine ⟨_, Except.bind_eq_ok.mpr ⟨code, hcode, rfl⟩, ?_, rfl, rfl, rfl⟩
    exact Except.bind_eq_ok.mpr ⟨vram, hset, rfl⟩
  · simp only [putChar, if_neg hc] at h
    rw [if_neg hc]
    obtain ⟨y, -, h⟩ := Except.bind_eq_ok.mp h
    cases h
    exact ⟨[], rfl, rfl, rfl, rfl, rfl⟩

/-- Wrapping a line leaves the video memory alone. -/
theorem wrapLine_vram (h : d.wrapLine = .ok d') : d'.vram = d.vram ∧ SameLook d d' := by
  by_cases hfull : d.maxPosition.x ≤ d.currentPosition.x
  · simp only [wrapLine, if_pos hfull] at h
    obtain ⟨y, -, h⟩ := Except.bind_eq_ok.mp h
    cases h
    exact ⟨rfl, rfl, rfl, rfl⟩
  · simp only [wrapLine, if_neg hfull] at h
    cases h
    exact ⟨rfl, .refl d⟩

/-- What `scrollDown` does when it returns. -/
theorem scrollDown_replay (h : d.scrollDown space = .ok d') :
    d.replay (d.scrollDownEvents space) d.vram = .ok d'.vram ∧ SameLook d d' := by
  by_cases hscroll : d.maxPosition.y ≤ d.currentPosition.y
  · simp only [scrollDown, if_pos hscroll] at h
    obtain ⟨area, harea, h⟩ := Except.bind_eq_ok.mp h
    obtain ⟨vram₁, hmoved, h⟩ := Except.bind_eq_ok.mp h
    obtain ⟨rows, hrows, h⟩ := Except.bind_eq_ok.mp h
    obtain ⟨lastLine, hlast, h⟩ := Except.bind_eq_ok.mp h
    obtain ⟨area', harea', h⟩ := Except.bind_eq_ok.mp h
    obtain ⟨vram₂, hfilled, h⟩ := Except.bind_eq_ok.mp h
    obtain ⟨y, -, hdone⟩ := Except.bind_eq_ok.mp h
    obtain ⟨-, rfl⟩ := checkedMul_eq_ok.mp harea
    obtain ⟨-, rfl⟩ := checkedMul_eq_ok.mp harea'
    obtain ⟨-, rfl⟩ := checkedSub_eq_ok.mp hrows
    obtain ⟨-, rfl⟩ := checkedMul_eq_ok.mp hlast
    cases hdone
    rw [fillCells_eq_replay d] at hfilled
    simp only [scrollDownEvents, if_pos hscroll]
    exact ⟨Except.bind_eq_ok.mpr ⟨vram₁, hmoved, hfilled⟩, rfl, rfl, rfl⟩
  · simp only [scrollDown, if_neg hscroll] at h
    cases h
    simp only [scrollDownEvents, if_neg hscroll]
    exact ⟨rfl, .refl d⟩

/-- The events of one character account for the video memory afterwards. -/
theorem printChar_replay (h : d.printChar c = .ok d') :
    ∃ events, d.printCharEvents c = .ok events ∧ d.replay events d.vram = .ok d'.vram ∧
      SameLook d d' := by
  unfold printChar at h
  obtain ⟨d₁, hput, h⟩ := Except.bind_eq_ok.mp h
  obtain ⟨space, hspace, h⟩ := Except.bind_eq_ok.mp h
  obtain ⟨d₂, hwrap, hscroll⟩ := Except.bind_eq_ok.mp h
  obtain ⟨events, hevents, hreplay, hlook₁⟩ := putChar_replay hput
  obtain ⟨hvram, hlook₂⟩ := wrapLine_vram hwrap
  obtain ⟨hcleared, hlook₃⟩ := scrollDown_replay hscroll
  have hlook := hlook₁.trans hlook₂
  refine ⟨events ++ d₂.scrollDownEvents space, ?_, ?_, hlook.trans hlook₃⟩
  · simp only [printCharEvents, hevents, hput, hspace, hwrap, bind, Except.bind]
    rfl
  · rw [hlook.replay_eq, hvram] at hcleared
    rw [replay_append, hreplay]
    exact hcleared

/-- The events of a text account for the video memory afterwards. -/
theorem printChars_replay (h : d.printChars text = .ok d') :
    ∃ events, d.printCharsEvents text = .ok events ∧ d.replay events d.vram = .ok d'.vram ∧
      SameLook d d' := by
  induction text generalizing d with
  | nil =>
    cases h
    exact ⟨[], rfl, rfl, .refl _⟩
  | cons c rest ih =>
    obtain ⟨d₁, hprint, h⟩ := Except.bind_eq_ok.mp h
    obtain ⟨events, hevents, hreplay, hlook⟩ := printChar_replay hprint
    obtain ⟨more, hmore, hreplay', hlook'⟩ := ih h
    refine ⟨events ++ more, ?_, ?_, hlook.trans hlook'⟩
    · simp only [printCharsEvents, hevents, hprint, hmore, bind, Except.bind]
      rfl
    · rw [hlook.replay_eq] at hreplay'
      rw [replay_append, hreplay]
      exact hreplay'

/-! ## What is written -/

variable {bg fg : UInt8} {events : List CellEvent} {i : ℕ} {cell : UInt16}

/-- The cell that `genPixel` makes of two colour codes and a character. -/
def pixelOf (bg fg : UInt8) (c : Char) : UInt16 :=
  (bg.toUInt16 <<< 12) ||| (fg.toUInt16 <<< 8) ||| c.val.toUInt16

/-- With colours of the text mode `genPixel` makes a cell of every character. -/
theorem genPixel_eq_ok (hbg : color d.colorBackground = .ok bg)
    (hfg : color d.colorForeground = .ok fg) (c : Char) :
    d.genPixel c = .ok (pixelOf bg fg c) := by
  simp only [genPixel, hbg, hfg, bind, Except.bind]
  rfl

/-- The events of one character write that character, unless it starts a new line, and apart
from it only blanks. -/
theorem mem_printCharEvents (hpixel : ∀ c, d.genPixel c = .ok (pixelOf bg fg c))
    (hevents : d.printCharEvents c = .ok events) :
    (∀ i cell, .write i cell ∈ events →
      (c ≠ '\n' ∧ cell = pixelOf bg fg c) ∨ cell = pixelOf bg fg ' ') ∧
      (c ≠ '\n' → ∃ i, .write i (pixelOf bg fg c) ∈ events) := by
  unfold printCharEvents at hevents
  obtain ⟨first, hfirst, hevents⟩ := Except.bind_eq_ok.mp hevents
  obtain ⟨d₁, hput, hevents⟩ := Except.bind_eq_ok.mp hevents
  obtain ⟨space, hspace, hevents⟩ := Except.bind_eq_ok.mp hevents
  obtain ⟨d₂, hwrap, hevents⟩ := Except.bind_eq_ok.mp hevents
  cases hevents
  obtain ⟨-, -, -, hlook⟩ := putChar_replay hput
  have hblank : space = pixelOf bg fg ' ' := by
    rw [hlook.genPixel_eq, hpixel] at hspace
    exact (Except.ok.inj hspace).symm
  -- The second part of the events writes blanks only.
  have hcleared : ∀ i cell, .write i cell ∈ d₂.scrollDownEvents space → cell = space := by
    intro i cell hmem
    unfold scrollDownEvents at hmem
    split at hmem
    split at hmem
    · rcases List.mem_cons.mp hmem with hmove | hwrite
      · cases hmove
      · obtain ⟨j, -, hj⟩ := List.mem_map.mp hwrite
        cases hj
        rfl
    · exact absurd hmem List.not_mem_nil
  unfold putCharEvents at hfirst
  by_cases hc : c ≠ '\n'
  · rw [if_pos hc, hpixel] at hfirst
    cases hfirst
    refine ⟨fun i cell hmem => ?_,
      fun _ => ⟨_, List.mem_append_left _ (List.mem_singleton.mpr rfl)⟩⟩
    rcases List.mem_append.mp hmem with hput | hclear
    · cases List.mem_singleton.mp hput
      exact .inl ⟨hc, rfl⟩
    · exact .inr ((hcleared i cell hclear).trans hblank)
  · rw [if_neg hc] at hfirst
    cases hfirst
    refine ⟨fun i cell hmem => ?_, fun hne => absurd hne hc⟩
    exact .inr ((hcleared i cell hmem).trans hblank)

/-- The events of a text write its characters and blanks. -/
theorem mem_printCharsEvents (hpixel : ∀ c, d.genPixel c = .ok (pixelOf bg fg c))
    (hevents : d.printCharsEvents text = .ok events) :
    (∀ i cell, .write i cell ∈ events →
      (∃ c ∈ text, c ≠ '\n' ∧ cell = pixelOf bg fg c) ∨ cell = pixelOf bg fg ' ') ∧
      ∀ c ∈ text, c ≠ '\n' → ∃ i, .write i (pixelOf bg fg c) ∈ events := by
  induction text generalizing d events with
  | nil =>
    cases hevents
    exact ⟨fun _ _ hmem => absurd hmem List.not_mem_nil,
      fun _ hmem => absurd hmem List.not_mem_nil⟩
  | cons first rest ih =>
    unfold printCharsEvents at hevents
    obtain ⟨events₁, hfirst, hevents⟩ := Except.bind_eq_ok.mp hevents
    obtain ⟨d₁, hprint, hevents⟩ := Except.bind_eq_ok.mp hevents
    obtain ⟨more, hmore, hevents⟩ := Except.bind_eq_ok.mp hevents
    cases hevents
    obtain ⟨-, -, -, hlook⟩ := printChar_replay hprint
    obtain ⟨hwritten, hwrites⟩ := mem_printCharEvents hpixel hfirst
    obtain ⟨hwritten', hwrites'⟩ := ih (fun c => (hlook.genPixel_eq c).trans (hpixel c)) hmore
    constructor
    · intro i cell hmem
      rcases List.mem_append.mp hmem with hleft | hright
      · rcases hwritten i cell hleft with ⟨hne, hcell⟩ | hblank
        · exact .inl ⟨first, List.mem_cons_self, hne, hcell⟩
        · exact .inr hblank
      · rcases hwritten' i cell hright with ⟨c, hc, hne, hcell⟩ | hblank
        · exact .inl ⟨c, List.mem_cons_of_mem _ hc, hne, hcell⟩
        · exact .inr hblank
    · intro c hmem hne
      rcases List.mem_cons.mp hmem with rfl | hrest
      · obtain ⟨i, hi⟩ := hwrites hne
        exact ⟨i, List.mem_append_left _ hi⟩
      · obtain ⟨i, hi⟩ := hwrites' c hrest hne
        exact ⟨i, List.mem_append_right _ hi⟩

/-! ## Colours -/

/-- The two colours of a cell, one above the other. -/
def colorByte (bg fg : UInt8) : UInt16 := (bg.toUInt16 <<< 4) ||| fg.toUInt16

/-- The cell decodes to the background in its upper four bits and to the foreground in the
four bits below; the lower eight bits are the character code. -/
def HasColors (bg fg : UInt8) (cell : UInt16) : Prop :=
  cell >>> 12 = bg.toUInt16 ∧ (cell >>> 8) &&& 0xF = fg.toUInt16

/-- The bits of a character that do not fit into a character code are bits that the colours
set anyway. The conversion to `u16` drops the bits from the sixteenth on. -/
def FitsColors (bg fg : UInt8) (c : Char) : Prop :=
  colorByte bg fg ||| (c.val.toUInt16 >>> 8) = colorByte bg fg

/-- A colour code has four bits. -/
theorem color_lt {x : Color} {code : UInt8} (h : color x = .ok code) : code.toNat < 16 := by
  cases x <;> cases h <;> decide

/-- The number of two colours. -/
theorem toNat_colorByte (hbg : bg.toNat < 16) (hfg : fg.toNat < 16) :
    (colorByte bg fg).toNat = 16 * bg.toNat + fg.toNat := by
  have hshift : (bg.toUInt16 <<< 4).toNat = bg.toNat <<< 4 := by
    rw [UInt16.toNat_shiftLeft, UInt8.toNat_toUInt16]
    refine Nat.mod_eq_of_lt ?_
    rw [Nat.shiftLeft_eq]
    exact (by omega : bg.toNat * 2 ^ 4 < 2 ^ 16)
  rw [colorByte, UInt16.toNat_or, hshift, UInt8.toNat_toUInt16,
    ← Nat.shiftLeft_add_eq_or_of_lt (by omega : fg.toNat < 2 ^ 4), Nat.shiftLeft_eq]
  omega

/-- A cell has two colours exactly if its upper byte is the byte of its colours. -/
theorem hasColors_iff (hbg : bg.toNat < 16) (hfg : fg.toNat < 16) :
    HasColors bg fg cell ↔ cell >>> 8 = colorByte bg fg := by
  have hhigh : (cell >>> 12).toNat = cell.toNat / 4096 := by
    rw [UInt16.toNat_shiftRight, Nat.shiftRight_eq_div_pow]
    rfl
  have hbyte : (cell >>> 8).toNat = cell.toNat / 256 := by
    rw [UInt16.toNat_shiftRight, Nat.shiftRight_eq_div_pow]
    rfl
  have hlow : ((cell >>> 8) &&& 0xF).toNat = cell.toNat / 256 % 16 := by
    have hmask : UInt16.toNat 0xF = 2 ^ 4 - 1 := rfl
    rw [UInt16.toNat_and, hbyte, hmask, Nat.and_two_pow_sub_one_eq_mod]
  unfold HasColors
  rw [← UInt16.toNat_inj, ← UInt16.toNat_inj, ← UInt16.toNat_inj, hhigh, hlow, hbyte,
    toNat_colorByte hbg hfg, UInt8.toNat_toUInt16, UInt8.toNat_toUInt16]
  omega

/-- The upper byte of a pixel: the colours, and what the character has there. -/
theorem pixelOf_shiftRight (hbg : bg.toNat < 16) (hfg : fg.toNat < 16) (c : Char) :
    pixelOf bg fg c >>> 8 = colorByte bg fg ||| (c.val.toUInt16 >>> 8) := by
  have hback : (bg.toUInt16 <<< 12) >>> 8 = bg.toUInt16 <<< 4 := by
    apply UInt16.toNat_inj.mp
    simp only [UInt16.toNat_shiftRight, UInt16.toNat_shiftLeft, UInt8.toNat_toUInt16,
      UInt16.reduceToNat, Nat.reduceMod, Nat.shiftLeft_eq, Nat.shiftRight_eq_div_pow]
    omega
  have hfore : (fg.toUInt16 <<< 8) >>> 8 = fg.toUInt16 := by
    apply UInt16.toNat_inj.mp
    simp only [UInt16.toNat_shiftRight, UInt16.toNat_shiftLeft, UInt8.toNat_toUInt16,
      UInt16.reduceToNat, Nat.reduceMod, Nat.shiftLeft_eq, Nat.shiftRight_eq_div_pow]
    omega
  rw [pixelOf, UInt16.shiftRight_or, UInt16.shiftRight_or, hback, hfore, colorByte]

/-- The pixel of a character has the colours exactly if the character fits. -/
theorem hasColors_pixelOf (hbg : bg.toNat < 16) (hfg : fg.toNat < 16) (c : Char) :
    HasColors bg fg (pixelOf bg fg c) ↔ FitsColors bg fg c := by
  rw [hasColors_iff hbg hfg, pixelOf_shiftRight hbg hfg, FitsColors]

/-- The characters of one byte fit all colours. -/
theorem fitsColors_of_lt {c : Char} (hc : c.toNat < 256) : FitsColors bg fg c := by
  have hzero : c.val.toUInt16 >>> 8 = 0 := by
    apply UInt16.toNat_inj.mp
    have hval : c.val.toNat < 256 := hc
    simp only [UInt16.toNat_shiftRight, UInt32.toNat_toUInt16, UInt16.reduceToNat,
      Nat.reduceMod, Nat.shiftRight_eq_div_pow]
    omega
  rw [FitsColors, hzero, UInt16.or_zero]

/-- The cells that `print` writes all have the two colours of the display exactly if every
character of the text but the newlines fits them. -/
theorem print_hasColors_iff {string : String} (hbg : color d.colorBackground = .ok bg)
    (hfg : color d.colorForeground = .ok fg) (hprint : d.print string = .ok d') :
    ∃ events, d.printCharsEvents string.toList = .ok events ∧
      d.replay events d.vram = .ok d'.vram ∧
      ((∀ i cell, .write i cell ∈ events → HasColors bg fg cell) ↔
        ∀ c ∈ string.toList, c ≠ '\n' → FitsColors bg fg c) := by
  obtain ⟨events, hevents, hreplay, -⟩ := printChars_replay hprint
  obtain ⟨hwritten, hwrites⟩ := mem_printCharsEvents (genPixel_eq_ok hbg hfg) hevents
  refine ⟨events, hevents, hreplay, fun hall c hc hne => ?_, fun hfits i cell hmem => ?_⟩
  · obtain ⟨i, hi⟩ := hwrites c hc hne
    exact (hasColors_pixelOf (color_lt hbg) (color_lt hfg) c).mp (hall i _ hi)
  · rcases hwritten i cell hmem with ⟨c, hc, hne, rfl⟩ | rfl
    · exact (hasColors_pixelOf (color_lt hbg) (color_lt hfg) c).mpr (hfits c hc hne)
    · exact (hasColors_pixelOf (color_lt hbg) (color_lt hfg) ' ').mpr
        (fitsColors_of_lt (by decide))

/-- A line break on a small screen, which writes the blanks of a cleared row. -/
theorem print_hasColors_iff_newline :
    ∃ events, sampleDisplay.printCharsEvents (String.ofList ['\n']).toList = .ok events ∧
      sampleDisplay.replay events sampleDisplay.vram =
        .ok ⟨[0, 0, 0x0C20, 0x0C20], by decide⟩ ∧
      ((∀ i cell, .write i cell ∈ events → HasColors 0x0 0xC cell) ↔
        ∀ c ∈ (String.ofList ['\n']).toList, c ≠ '\n' → FitsColors 0x0 0xC c) := by
  have hprint : sampleDisplay.print (String.ofList ['\n']) =
      .ok { sampleDisplay with
        vram := ⟨[0, 0, 0x0C20, 0x0C20], by decide⟩, currentPosition := ⟨0, 1⟩ } := by
    rw [print, String.toList_ofList]
    rfl
  exact print_hasColors_iff rfl rfl hprint

/-- The letter `Ā` has the number 256, which sets a bit of the foreground: it is written in
light magenta instead of light red. -/
theorem not_print_hasColors :
    ¬ ∀ (d d' : CharacterDisplay) (string : String) (bg fg : UInt8)
      (events : List CellEvent), color d.colorBackground = .ok bg →
      color d.colorForeground = .ok fg → d.print string = .ok d' →
      d.printCharsEvents string.toList = .ok events →
      ∀ i cell, .write i cell ∈ events → HasColors bg fg cell := by
  intro hall
  obtain ⟨d', hprint, -⟩ := (shows_start (d := sampleDisplay) rfl (by decide)
    (by decide)).printChars (genPixel_eq_ok rfl rfl) (String.ofList ['Ā']).toList
  obtain ⟨events, hevents, -⟩ := printChars_replay hprint
  obtain ⟨-, hwrites⟩ := mem_printCharsEvents (genPixel_eq_ok rfl rfl) hevents
  obtain ⟨i, hi⟩ := hwrites 'Ā' (by rw [String.toList_ofList]; decide) (by decide)
  have hcolors := hall _ _ _ 0x0 0xC events rfl rfl hprint hevents i _ hi
  exact absurd hcolors.2 (by decide)

end CharacterDisplay

end Axel
