import Axel.Graphic.GraphicalDisplay
import Mathlib.Tactic.Common

/-!
# True colours

`GraphicalDisplay::color` takes a true colour as three signed bytes or as one code. Both ways
shift the components to their positions in a word. The code path narrows each component to an
unsigned byte first; the other one extends the sign of its bytes, and the copies of a sign bit
end up above the component's own bits.
-/

namespace Axel

/-- A shift returns exactly when it is about fewer places than a word has bits. -/
theorem checkedShl_eq_ok {a word : UInt32} {places : UInt8} :
    checkedShl a places = .ok word ↔ places.toNat < 32 ∧ a <<< places.toUInt32 = word := by
  unfold checkedShl
  split
  case isTrue h => exact ⟨fun hok => ⟨h, Except.ok.inj hok⟩, fun hok => congrArg _ hok.2⟩
  case isFalse h => exact ⟨fun hok => (nomatch hok), fun hok => absurd hok.1 h⟩

/-! ## Bits of words -/

/-- A byte has no bits from the eighth on. -/
theorem UInt8.testBit_eq_false {value : UInt8} {k : ℕ} (hk : 8 ≤ k) :
    value.toNat.testBit k = false :=
  Nat.testBit_lt_two_pow (Nat.lt_of_lt_of_le value.toNat_lt
    (Nat.pow_le_pow_right (by omega) hk))

/-- A word has no bits from the thirty-second on. -/
theorem UInt32.testBit_eq_false {word : UInt32} {k : ℕ} (hk : 32 ≤ k) :
    word.toNat.testBit k = false :=
  Nat.testBit_lt_two_pow (Nat.lt_of_lt_of_le word.toNat_lt
    (Nat.pow_le_pow_right (by omega) hk))

/-- The bits of a word that is shifted to the left. -/
theorem testBit_shiftLeft_word {word : UInt32} {places : UInt8} (hplaces : places.toNat < 32)
    {i : ℕ} (hi : i < 32) :
    (word <<< places.toUInt32).toNat.testBit i =
      (decide (places.toNat ≤ i) && word.toNat.testBit (i - places.toNat)) := by
  rw [UInt32.toNat_shiftLeft, UInt8.toNat_toUInt32, Nat.mod_eq_of_lt hplaces,
    Nat.testBit_mod_two_pow, Nat.testBit_shiftLeft, decide_eq_true hi, Bool.true_and]

/-- The bits of a byte that is taken from a word. -/
theorem testBit_toUInt8_shiftRight {word : UInt32} {places : UInt8}
    (hplaces : places.toNat < 32) (k : ℕ) :
    (word >>> places.toUInt32).toUInt8.toNat.testBit k =
      (decide (k < 8) && word.toNat.testBit (places.toNat + k)) := by
  rw [UInt32.toNat_toUInt8, Nat.testBit_mod_two_pow, UInt32.toNat_shiftRight,
    UInt8.toNat_toUInt32, Nat.mod_eq_of_lt hplaces, Nat.testBit_shiftRight]

/-- The bits of a signed byte that is widened to a word: the sign bit is copied upwards. -/
theorem testBit_signExtend {value : UInt8} {k : ℕ} (hk : k < 32) :
    value.toInt8.toInt32.toUInt32.toNat.testBit k =
      (value.toNat.testBit k || (decide (8 ≤ k) && value.toNat.testBit 7)) := by
  have hbits : value.toInt8.toInt32.toUInt32.toNat.testBit k =
      (value.toBitVec.signExtend 32).getLsbD k := rfl
  rw [hbits, BitVec.getLsbD_signExtend, BitVec.msb_eq_getLsbD_last, decide_eq_true hk,
    Bool.true_and]
  split
  case isTrue hlt =>
    rw [decide_eq_false (Nat.not_le.mpr hlt), Bool.false_and, Bool.or_false]
    rfl
  case isFalse hge =>
    rw [decide_eq_true (Nat.not_lt.mp hge), UInt8.testBit_eq_false (Nat.not_lt.mp hge),
      Bool.true_and, Bool.false_or]
    rfl

/-- Two words with the same bits are equal. -/
theorem UInt32.eq_of_testBit {word word' : UInt32}
    (hbits : ∀ i, i < 32 → word.toNat.testBit i = word'.toNat.testBit i) : word = word' := by
  apply UInt32.toNat_inj.mp
  apply Nat.eq_of_testBit_eq
  intro i
  by_cases hi : i < 32
  · exact hbits i hi
  · rw [UInt32.testBit_eq_false (Nat.not_lt.mp hi), UInt32.testBit_eq_false (Nat.not_lt.mp hi)]

/-! ## Components -/

/-- The bit of a word that a component at a position gives to it. -/
def fieldBit (pos value : UInt8) (i : ℕ) : Bool :=
  decide (pos.toNat ≤ i) && value.toNat.testBit (i - pos.toNat)

/-- The copies of the sign bit of a component, above its own bits. -/
def signBit (pos value : UInt8) (i : ℕ) : Bool :=
  decide (pos.toNat + 8 ≤ i) && value.toNat.testBit 7

namespace ColorBitInfo

/-- The bits of the word that has the components in their fields. -/
def componentBit (info : ColorBitInfo) (r g b : UInt8) (i : ℕ) : Bool :=
  fieldBit info.posR r i || fieldBit info.posG g i || fieldBit info.posB b i

/-- The bits that the signs of the components add. -/
def signBits (info : ColorBitInfo) (r g b : UInt8) (i : ℕ) : Bool :=
  signBit info.posR r i || signBit info.posG g i || signBit info.posB b i

/-- Two fields of eight bits have no bit in common. -/
def Apart (pos pos' : UInt8) : Prop :=
  pos.toNat + 8 ≤ pos'.toNat ∨ pos'.toNat + 8 ≤ pos.toNat

/-- Three components of eight bits, in fields of a word that do not overlap. -/
structure ByteFields (info : ColorBitInfo) : Prop where
  /-- The red component has eight bits. -/
  sizeR_eq : info.sizeR = 8
  /-- The green component has eight bits. -/
  sizeG_eq : info.sizeG = 8
  /-- The blue component has eight bits. -/
  sizeB_eq : info.sizeB = 8
  /-- The red component lies in the word. -/
  posR_le : info.posR.toNat + 8 ≤ 32
  /-- The green component lies in the word. -/
  posG_le : info.posG.toNat + 8 ≤ 32
  /-- The blue component lies in the word. -/
  posB_le : info.posB.toNat + 8 ≤ 32
  /-- Red and green are apart. -/
  apartRG : Apart info.posR info.posG
  /-- Red and blue are apart. -/
  apartRB : Apart info.posR info.posB
  /-- Green and blue are apart. -/
  apartGB : Apart info.posG info.posB

/-- The word has the components in their fields and zero everywhere else. -/
structure HasComponents (info : ColorBitInfo) (r g b : UInt8) (word : UInt32) : Prop where
  /-- The red field. -/
  red : (word >>> info.posR.toUInt32).toUInt8 = r
  /-- The green field. -/
  green : (word >>> info.posG.toUInt32).toUInt8 = g
  /-- The blue field. -/
  blue : (word >>> info.posB.toUInt32).toUInt8 = b
  /-- The bits outside the fields. -/
  rest : ∀ i, (∀ pos ∈ [info.posR, info.posG, info.posB],
    i < pos.toNat ∨ pos.toNat + 8 ≤ i) → word.toNat.testBit i = false

variable {info : ColorBitInfo} {r g b : UInt8} {word : UInt32}

/-- Packing returns exactly when no shift overflows, those of the reserved bits included. -/
theorem pack_eq_ok {r g b : UInt32} :
    info.pack r g b = .ok word ↔
      (info.posRsvd.toNat < 32 ∧ info.posR.toNat < 32 ∧ info.posG.toNat < 32 ∧
        info.posB.toNat < 32) ∧
      0 <<< info.posRsvd.toUInt32 ||| r <<< info.posR.toUInt32 ||| g <<< info.posG.toUInt32 |||
        b <<< info.posB.toUInt32 = word := by
  unfold pack
  simp only [Except.bind_eq_ok, checkedShl_eq_ok, Except.ok.injEq]
  constructor
  · rintro ⟨_, ⟨h₁, rfl⟩, _, ⟨h₂, rfl⟩, _, ⟨h₃, rfl⟩, _, ⟨h₄, rfl⟩, hword⟩
    exact ⟨⟨h₁, h₂, h₃, h₄⟩, hword⟩
  · rintro ⟨⟨h₁, h₂, h₃, h₄⟩, hword⟩
    exact ⟨_, ⟨h₁, rfl⟩, _, ⟨h₂, rfl⟩, _, ⟨h₃, rfl⟩, _, ⟨h₄, rfl⟩, hword⟩

/-- The bits of a packed word are those of the shifted components. -/
theorem testBit_pack {r g b : UInt32} (hpack : info.pack r g b = .ok word) {i : ℕ}
    (hi : i < 32) :
    word.toNat.testBit i =
      (decide (info.posR.toNat ≤ i) && r.toNat.testBit (i - info.posR.toNat) ||
        decide (info.posG.toNat ≤ i) && g.toNat.testBit (i - info.posG.toNat) ||
        decide (info.posB.toNat ≤ i) && b.toNat.testBit (i - info.posB.toNat)) := by
  obtain ⟨⟨hrsvd, hr, hg, hb⟩, rfl⟩ := pack_eq_ok.mp hpack
  have hzero : (UInt32.toNat 0).testBit (i - info.posRsvd.toNat) = false :=
    Nat.zero_testBit _
  simp only [UInt32.toNat_or, Nat.testBit_or, testBit_shiftLeft_word hrsvd hi,
    testBit_shiftLeft_word hr hi, testBit_shiftLeft_word hg hi, testBit_shiftLeft_word hb hi,
    hzero, Bool.and_false, Bool.false_or]

/-- The bits of unsigned components that are packed. -/
theorem testBit_pack_unsigned
    (hpack : info.pack r.toUInt32 g.toUInt32 b.toUInt32 = .ok word) {i : ℕ} (hi : i < 32) :
    word.toNat.testBit i = info.componentBit r g b i := by
  rw [testBit_pack hpack hi]
  simp only [UInt8.toNat_toUInt32, componentBit, fieldBit]

/-- One signed component gives its field and the copies of its sign bit. -/
theorem testBit_signed_field {pos value : UInt8} {i : ℕ} (hi : i < 32) :
    (decide (pos.toNat ≤ i) &&
        value.toInt8.toInt32.toUInt32.toNat.testBit (i - pos.toNat)) =
      (fieldBit pos value i || signBit pos value i) := by
  rw [testBit_signExtend (by omega)]
  unfold fieldBit signBit
  by_cases hpos : pos.toNat ≤ i
  · have hsign : decide (8 ≤ i - pos.toNat) = decide (pos.toNat + 8 ≤ i) :=
      decide_eq_decide.mpr (by omega)
    rw [hsign, decide_eq_true hpos, Bool.true_and, Bool.true_and]
  · rw [decide_eq_false hpos, decide_eq_false (by omega : ¬ pos.toNat + 8 ≤ i)]
    simp only [Bool.false_and, Bool.or_false]

/-- The bits of signed components that are packed: the signs come on top. -/
theorem testBit_pack_signed
    (hpack : info.pack r.toInt8.toInt32.toUInt32 g.toInt8.toInt32.toUInt32
      b.toInt8.toInt32.toUInt32 = .ok word) {i : ℕ} (hi : i < 32) :
    word.toNat.testBit i = (info.componentBit r g b i || info.signBits r g b i) := by
  rw [testBit_pack hpack hi, testBit_signed_field hi, testBit_signed_field hi,
    testBit_signed_field hi]
  unfold componentBit signBits
  ac_rfl

/-- A component gives nothing outside its field. -/
theorem fieldBit_outside {pos value : UInt8} {i : ℕ}
    (hi : i < pos.toNat ∨ pos.toNat + 8 ≤ i) : fieldBit pos value i = false := by
  unfold fieldBit
  rcases hi with hlt | hge
  · rw [decide_eq_false (Nat.not_le.mpr hlt), Bool.false_and]
  · rw [UInt8.testBit_eq_false (by omega), Bool.and_false]

/-- A component gives its bits inside its field. -/
theorem fieldBit_inside (pos value : UInt8) (k : ℕ) :
    fieldBit pos value (pos.toNat + k) = value.toNat.testBit k := by
  unfold fieldBit
  rw [decide_eq_true (Nat.le_add_right _ k), Bool.true_and, Nat.add_sub_cancel_left]

/-- A component gives nothing to a field that is apart from its own. -/
theorem fieldBit_apart {pos pos' value : UInt8} (hapart : Apart pos pos') {k : ℕ} (hk : k < 8) :
    fieldBit pos' value (pos.toNat + k) = false := by
  apply fieldBit_outside
  unfold Apart at hapart
  omega

/-- Being apart does not depend on the order. -/
theorem Apart.symm {pos pos' : UInt8} (hapart : Apart pos pos') : Apart pos' pos :=
  Or.symm hapart

/-- A field is read off its bits. -/
theorem field_eq {pos value : UInt8} (hpos : pos.toNat + 8 ≤ 32)
    (hbits : ∀ k, k < 8 → word.toNat.testBit (pos.toNat + k) = value.toNat.testBit k) :
    (word >>> pos.toUInt32).toUInt8 = value := by
  apply UInt8.toNat_inj.mp
  apply Nat.eq_of_testBit_eq
  intro k
  rw [testBit_toUInt8_shiftRight (by omega)]
  by_cases hk : k < 8
  · rw [decide_eq_true hk, Bool.true_and, hbits k hk]
  · rw [decide_eq_false hk, Bool.false_and, UInt8.testBit_eq_false (Nat.not_lt.mp hk)]

/-- A word whose bits are those of the components has the components in their fields. -/
theorem ByteFields.hasComponents (hfields : info.ByteFields)
    (hbits : ∀ i, i < 32 → word.toNat.testBit i = info.componentBit r g b i) :
    info.HasComponents r g b word where
  red := by
    refine field_eq hfields.posR_le fun k hk => ?_
    have hpos := hfields.posR_le
    rw [hbits _ (by omega), componentBit, fieldBit_inside, fieldBit_apart hfields.apartRG hk,
      fieldBit_apart hfields.apartRB hk, Bool.or_false, Bool.or_false]
  green := by
    refine field_eq hfields.posG_le fun k hk => ?_
    have hpos := hfields.posG_le
    rw [hbits _ (by omega), componentBit, fieldBit_inside,
      fieldBit_apart hfields.apartRG.symm hk, fieldBit_apart hfields.apartGB hk,
      Bool.false_or, Bool.or_false]
  blue := by
    refine field_eq hfields.posB_le fun k hk => ?_
    have hpos := hfields.posB_le
    rw [hbits _ (by omega), componentBit, fieldBit_inside,
      fieldBit_apart hfields.apartRB.symm hk, fieldBit_apart hfields.apartGB.symm hk,
      Bool.false_or, Bool.false_or]
  rest := by
    intro i hout
    by_cases hi : i < 32
    · rw [hbits i hi, componentBit, fieldBit_outside (hout _ (by simp)),
        fieldBit_outside (hout _ (by simp)), fieldBit_outside (hout _ (by simp))]
      rfl
    · exact UInt32.testBit_eq_false (Nat.not_lt.mp hi)

/-- Packing into three fields of a word returns when the reserved bits have a position in the
word. -/
theorem ByteFields.pack_returns (hfields : info.ByteFields) (hrsvd : info.posRsvd.toNat < 32)
    (r g b : UInt32) : ∃ word, info.pack r g b = .ok word := by
  have hposR := hfields.posR_le
  have hposG := hfields.posG_le
  have hposB := hfields.posB_le
  exact ⟨_, pack_eq_ok.mpr ⟨⟨hrsvd, by omega, by omega, by omega⟩, rfl⟩⟩

/-- The layout of a colour code: red, green and blue from the twenty-fourth bit down. -/
def codeLayout : ColorBitInfo := ⟨8, 8, 8, 0, 16, 8, 0, 0⟩

/-- The fields of a colour code do not overlap. -/
theorem codeLayout_byteFields : codeLayout.ByteFields :=
  ⟨rfl, rfl, rfl, by decide, by decide, by decide, .inr (by decide), .inr (by decide),
    .inr (by decide)⟩

end ColorBitInfo

/-- The code of a colour, `r << 16 | g << 8 | b`. -/
def colorCode (r g b : UInt8) : UInt32 :=
  r.toUInt32 <<< 16 ||| g.toUInt32 <<< 8 ||| b.toUInt32

/-- A colour code has its components in the fields of the code layout. -/
theorem colorCode_hasComponents (r g b : UInt8) :
    ColorBitInfo.codeLayout.HasComponents r g b (colorCode r g b) := by
  refine ColorBitInfo.codeLayout_byteFields.hasComponents fun i hi => ?_
  refine ColorBitInfo.testBit_pack_unsigned (ColorBitInfo.pack_eq_ok.mpr ⟨by decide, ?_⟩) hi
  have hzero : (0 : UInt32) <<< ColorBitInfo.codeLayout.posRsvd.toUInt32 = 0 := rfl
  have hblue : b.toUInt32 <<< ColorBitInfo.codeLayout.posB.toUInt32 = b.toUInt32 := by
    apply UInt32.toNat_inj.mp
    rw [UInt32.toNat_shiftLeft]
    exact Nat.mod_eq_of_lt b.toUInt32.toNat_lt
  rw [hzero, hblue, UInt32.zero_or]
  rfl

/-- Masking the low byte before it is taken makes no difference. -/
theorem toUInt8_and_low (word : UInt32) : (word &&& 0xFF).toUInt8 = word.toUInt8 := by
  apply UInt8.toNat_inj.mp
  rw [UInt32.toNat_toUInt8, UInt32.toNat_toUInt8, UInt32.toNat_and]
  have hmask : (UInt32.toNat 0xFF) = 2 ^ 8 - 1 := rfl
  rw [hmask, Nat.and_two_pow_sub_one_eq_mod, Nat.mod_mod]

namespace GraphicalDisplay

variable {display : GraphicalDisplay} {r g b : UInt8} {word : UInt32}

/-- `Color::Code` packs the three bytes of the code. -/
theorem color_code (display : GraphicalDisplay) (r g b : UInt8) :
    display.color (.code (colorCode r g b)) =
      display.bitInfo.pack r.toUInt32 g.toUInt32 b.toUInt32 := by
  have hcode := colorCode_hasComponents r g b
  have hred : (colorCode r g b >>> 16).toUInt8 = r := hcode.red
  have hgreen : (colorCode r g b >>> 8).toUInt8 = g := hcode.green
  have hblue : (colorCode r g b).toUInt8 = b := by
    have hshift : colorCode r g b >>> ColorBitInfo.codeLayout.posB.toUInt32 =
        colorCode r g b := by
      apply UInt32.toNat_inj.mp
      rw [UInt32.toNat_shiftRight]
      rfl
    rw [← hshift]
    exact hcode.blue
  simp only [color, hred, hgreen, toUInt8_and_low, hblue]

/-- The two ways of naming a true colour agree: both give the word that has the components in
their fields and zero everywhere else. -/
def TrueColorsAgree (display : GraphicalDisplay) (r g b : UInt8) : Prop :=
  ∃ word, display.color (.rgb r.toInt8 g.toInt8 b.toInt8) = .ok word ∧
    display.color (.code (colorCode r g b)) = .ok word ∧
    display.bitInfo.HasComponents r g b word

/-- The code path is right whenever the shifts do not overflow, for all components. -/
theorem color_code_hasComponents (hfields : display.bitInfo.ByteFields)
    (hword : display.color (.code (colorCode r g b)) = .ok word) :
    display.bitInfo.HasComponents r g b word := by
  rw [color_code] at hword
  exact hfields.hasComponents fun i hi => ColorBitInfo.testBit_pack_unsigned hword hi

/-- Where the two ways agree, the copies of the sign bits fall on bits of the word that are
set anyway. -/
theorem TrueColorsAgree.signBits (hagree : display.TrueColorsAgree r g b) {i : ℕ} (hi : i < 32)
    (hsign : display.bitInfo.signBits r g b i = true) :
    display.bitInfo.componentBit r g b i = true := by
  obtain ⟨word, hrgb, hcode, -⟩ := hagree
  rw [color_code] at hcode
  rw [← ColorBitInfo.testBit_pack_unsigned hcode hi,
    ColorBitInfo.testBit_pack_signed hrgb hi, hsign, Bool.or_true]

/-- The two ways of naming a true colour agree exactly when the reserved bits have a position
in the word, and above each component whose sign bit is set every bit of the word belongs to
another component and is set there. -/
theorem trueColorsAgree_iff (display : GraphicalDisplay) (r g b : UInt8)
    (hfields : display.bitInfo.ByteFields) :
    display.TrueColorsAgree r g b ↔
      display.bitInfo.posRsvd.toNat < 32 ∧
        ∀ i, i < 32 → display.bitInfo.signBits r g b i = true →
          display.bitInfo.componentBit r g b i = true := by
  constructor
  · intro hagree
    refine ⟨?_, fun i hi hsign => hagree.signBits hi hsign⟩
    obtain ⟨word, hrgb, -⟩ := hagree
    exact (ColorBitInfo.pack_eq_ok.mp hrgb).1.1
  · rintro ⟨hrsvd, hsigns⟩
    obtain ⟨word, hcode⟩ := hfields.pack_returns hrsvd r.toUInt32 g.toUInt32 b.toUInt32
    obtain ⟨word', hrgb⟩ := hfields.pack_returns hrsvd r.toInt8.toInt32.toUInt32
      g.toInt8.toInt32.toUInt32 b.toInt8.toInt32.toUInt32
    have hbits := fun i (hi : i < 32) => ColorBitInfo.testBit_pack_unsigned hcode hi
    have hword : word' = word := by
      refine UInt32.eq_of_testBit fun i hi => ?_
      rw [ColorBitInfo.testBit_pack_signed hrgb hi, hbits i hi]
      cases hsign : display.bitInfo.signBits r g b i with
      | false => rw [Bool.or_false]
      | true => rw [hsigns i hi hsign, Bool.true_or]
    rw [hword] at hrgb
    exact ⟨word, hrgb, (display.color_code r g b).trans hcode, hfields.hasComponents hbits⟩

/-- A screen of one pixel in the usual layout of 32 bits. -/
def trueColorDisplay : GraphicalDisplay where
  vramAddr := 0xFD000000
  maxPosition := ⟨1, 1⟩
  bitInfo := ⟨8, 8, 8, 8, 16, 8, 0, 24⟩
  bytePerPixel := 4

/-- The fields of the usual layout. -/
theorem trueColorDisplay_byteFields : trueColorDisplay.bitInfo.ByteFields :=
  ⟨rfl, rfl, rfl, by decide, by decide, by decide, .inr (by decide), .inr (by decide),
    .inr (by decide)⟩

/-- The agreement for a colour whose bytes are all below 128. -/
theorem trueColorsAgree_iff_dark : trueColorDisplay.TrueColorsAgree 1 2 3 :=
  (trueColorsAgree_iff trueColorDisplay 1 2 3 trueColorDisplay_byteFields).mpr
    ⟨by decide, by decide⟩

/-- In the usual layout a blue byte of 255 sets every bit of the word when it is given as a
signed byte. -/
theorem not_trueColorsAgree :
    ¬ ∀ (display : GraphicalDisplay) (r g b : UInt8), display.bitInfo.ByteFields →
      display.TrueColorsAgree r g b := by
  intro hall
  have hagree := hall trueColorDisplay 0 0 255 trueColorDisplay_byteFields
  have hbit : trueColorDisplay.bitInfo.componentBit 0 0 255 8 = true :=
    hagree.signBits (by decide) (by decide)
  exact absurd hbit (by decide)

end GraphicalDisplay

end Axel
