import Axel.Memory.Alignment
import Mathlib.Tactic.NormNum

/-!
# Page entries

A page entry is a 64-bit word that holds the address of a frame and flags. The
functions of `PageEntry` only know the flags that `PageEntryFlags` names; the
processor reads the present bit, the page-size bit and the frame number in the bits
12 to 51. The lemmas at the end say how the two views fit together.
-/

namespace Axel

/-- The union of the flags that `PageEntryFlags` names. -/
def flagBits : BitVec 64 :=
  1 <<< 0 ||| 1 <<< 1 ||| 1 <<< 2 ||| 1 <<< 3 ||| 1 <<< 4 ||| 1 <<< 5 ||| 1 <<< 6 ||| 1 <<< 7 |||
    1 <<< 8 ||| 1 <<< 63

/-- `PageEntryFlags`: a set of the named flags. -/
structure PageEntryFlags where
  /-- The flags as a word. -/
  bits : BitVec 64
  /-- No other bit is set. -/
  named : bits &&& flagBits = bits
  deriving DecidableEq

namespace PageEntryFlags

/-- `PRESENT`. -/
def present : PageEntryFlags := ⟨1 <<< 0, by decide⟩

/-- `WRITABLE`. -/
def writable : PageEntryFlags := ⟨1 <<< 1, by decide⟩

/-- `HUGE_PAGE`. -/
def hugePage : PageEntryFlags := ⟨1 <<< 7, by decide⟩

/-- `from_bits_truncate`: the named flags among the bits of a word. -/
def fromBitsTruncate (bits : BitVec 64) : PageEntryFlags :=
  ⟨bits &&& flagBits, by rw [BitVec.and_assoc, BitVec.and_self]⟩

/-- `contains`. -/
def contains (self other : PageEntryFlags) : Bool := self.bits &&& other.bits == other.bits

/-- The operator `|` on flags. -/
def union (self other : PageEntryFlags) : PageEntryFlags :=
  ⟨self.bits ||| other.bits, by rw [BitVec.and_comm, BitVec.and_or_distrib_left,
    BitVec.and_comm, self.named, BitVec.and_comm, other.named]⟩

end PageEntryFlags

/-- `PageEntry`. -/
structure PageEntry where
  /-- The word in memory. -/
  word : BitVec 64
  deriving DecidableEq

namespace PageEntry

/-- `PageEntry::flags`. -/
def flags (self : PageEntry) : PageEntryFlags := .fromBitsTruncate self.word

/-- `PageEntry::set_flags`: the flags are added to those that are set. -/
def setFlags (self : PageEntry) (flags : PageEntryFlags) : PageEntry :=
  ⟨self.word ||| (self.flags.union flags).bits⟩

/-- The entry that `PageEntry::clear_all` leaves. -/
def cleared : PageEntry := ⟨0⟩

/-- `PageEntry::set_frame_addr`: the flags are kept and `PRESENT` is added. -/
def setFrameAddr (self : PageEntry) (addr : ℕ) : Except Fault PageEntry := do
  debugAssert (addr &&& 0xFFF == 0)
  debugAssert (addr &&& 0xFFFF000000000000 == 0)
  let flags := self.flags
  return (PageEntry.mk (BitVec.ofNat 64 addr)).setFlags (flags.union .present)

/-- `PageEntry::get_frame_addr`. -/
def getFrameAddr (self : PageEntry) : Option ℕ :=
  if self.flags.contains .present then some (self.word &&& ~~~0xFFF).toNat else none

/-- The present bit, as the processor reads it. -/
def isPresent (self : PageEntry) : Bool := self.word.getLsbD 0

/-- The page-size bit, as the processor reads it. -/
def isHuge (self : PageEntry) : Bool := self.word.getLsbD 7

/-- The frame number in the bits 12 to 51, as the processor reads it. -/
def frame (self : PageEntry) : ℕ := (self.word.extractLsb' 12 40).toNat

/-- The table that an entry above level 1 refers to, if it refers to one. -/
def child (self : PageEntry) : Option ℕ :=
  if self.isPresent && !self.isHuge then some self.frame else none

/-- The entry that `set_frame_addr` makes for a frame number. -/
def withFrame (self : PageEntry) (number : ℕ) : PageEntry :=
  (PageEntry.mk (BitVec.ofNat 64 (number * 4096))).setFlags (self.flags.union .present)

/-- The bits of the frame number. -/
def frameBits : BitVec 64 := 0x000FFFFFFFFFF000

/-- The entry without the bits that are neither a named flag nor part of the frame number. -/
def tidy (self : PageEntry) : PageEntry := ⟨self.word &&& (flagBits ||| frameBits)⟩

/-- The entry for a table that refers to itself. -/
def selfEntry (number : ℕ) : PageEntry := (cleared.withFrame number).setFlags .writable

/-- Nothing is set above the bits of the frame number. -/
def Plain (self : PageEntry) : Prop := self.word.toNat < 2 ^ 52

/-- Testing a single flag reads its bit. -/
theorem contains_flag (e : PageEntry) {flag : PageEntryFlags} {k : ℕ} (hk : k < 64)
    (hflag : flag.bits = BitVec.twoPow 64 k) : e.flags.contains flag = e.word.getLsbD k := by
  have hnonzero : BitVec.twoPow 64 k ≠ 0#64 := by
    intro h
    have hbit := congrArg (fun w => w.getLsbD k) h
    simp [hk] at hbit
  have hand : e.flags.bits &&& flag.bits = e.word &&& flag.bits := by
    rw [flags, PageEntryFlags.fromBitsTruncate, BitVec.and_assoc, BitVec.and_comm flagBits,
      flag.named]
  rw [PageEntryFlags.contains, hand, hflag, BitVec.and_twoPow]
  cases e.word.getLsbD k with
  | false => simpa using hnonzero.symm
  | true => simp

/-- The flag `PRESENT` is the present bit of the processor. -/
@[simp] theorem contains_present (e : PageEntry) :
    e.flags.contains .present = e.isPresent :=
  contains_flag e (by decide) (by decide)

/-- The flag `HUGE_PAGE` is the page-size bit of the processor. -/
@[simp] theorem contains_hugePage (e : PageEntry) :
    e.flags.contains .hugePage = e.isHuge :=
  contains_flag e (by decide) (by decide)

/-- No named flag is a bit of the frame number. -/
theorem extract_flags (flags : PageEntryFlags) : flags.bits.extractLsb' 12 40 = 0#40 := by
  rw [← flags.named, BitVec.extractLsb'_and,
    show flagBits.extractLsb' 12 40 = 0#40 by decide, BitVec.and_zero]

/-- Adding flags adds their bits. -/
theorem word_setFlags (e : PageEntry) (flags : PageEntryFlags) :
    (e.setFlags flags).word = e.word ||| flags.bits := by
  show e.word ||| (e.word &&& flagBits ||| flags.bits) = _
  rw [← BitVec.or_assoc]
  congr 1
  apply BitVec.eq_of_getLsbD_eq
  intro i hi
  rw [BitVec.getLsbD_or, BitVec.getLsbD_and]
  cases e.word.getLsbD i <;> rfl

/-- Adding flags keeps the frame number. -/
@[simp] theorem frame_setFlags (e : PageEntry) (flags : PageEntryFlags) :
    (e.setFlags flags).frame = e.frame := by
  rw [frame, word_setFlags, BitVec.extractLsb'_or, extract_flags]
  simp [frame]

/-- Adding flags keeps the present bit set. -/
theorem isPresent_setFlags {e : PageEntry} (h : e.isPresent = true) (flags : PageEntryFlags) :
    (e.setFlags flags).isPresent = true := by
  rw [isPresent] at h
  rw [isPresent, word_setFlags, BitVec.getLsbD_or, h, Bool.true_or]

/-- The bits of the word that `set_frame_addr` stores. -/
theorem word_withFrame (e : PageEntry) (n : ℕ) :
    (e.withFrame n).word = BitVec.ofNat 64 (n * 2 ^ 12) ||| (e.word &&& flagBits ||| 1#64) :=
  word_setFlags _ _

/-- The address of a frame has no bit below the frame number. -/
theorem getLsbD_address {n k : ℕ} (hk : k < 12) :
    (BitVec.ofNat 64 (n * 2 ^ 12)).getLsbD k = false := by
  rw [BitVec.getLsbD_ofNat, Nat.testBit_mul_two_pow]
  simp [hk]

/-- An entry that got a frame is present. -/
@[simp] theorem isPresent_withFrame (e : PageEntry) (n : ℕ) :
    (e.withFrame n).isPresent = true := by
  simp [isPresent, word_withFrame]

/-- An entry that got a frame keeps its page-size bit. -/
@[simp] theorem isHuge_withFrame (e : PageEntry) (n : ℕ) :
    (e.withFrame n).isHuge = e.isHuge := by
  rw [isHuge, word_withFrame, BitVec.getLsbD_or, getLsbD_address (by decide), BitVec.getLsbD_or,
    BitVec.getLsbD_and, show flagBits.getLsbD 7 = true by decide,
    show (1#64).getLsbD 7 = false by decide]
  simp [isHuge]

/-- An entry that got a frame refers to it. -/
theorem frame_withFrame (e : PageEntry) {n : ℕ} (hn : n < 2 ^ 36) : (e.withFrame n).frame = n := by
  rw [withFrame, frame_setFlags, frame, BitVec.extractLsb'_toNat, BitVec.toNat_ofNat,
    Nat.shiftRight_eq_div_pow]
  omega

/-- An entry without the page-size bit refers to the table it got. -/
theorem child_withFrame {e : PageEntry} {n : ℕ} (hn : n < 2 ^ 36) (h : e.isHuge = false) :
    (e.withFrame n).child = some n := by
  simp [child, h, frame_withFrame e hn]

/-- The entry 511 of a new table is present. -/
@[simp] theorem isPresent_selfEntry (n : ℕ) : (selfEntry n).isPresent = true :=
  isPresent_setFlags (isPresent_withFrame _ _) _

/-- Setting `WRITABLE` keeps the page-size bit. -/
@[simp] theorem isHuge_setWritable (e : PageEntry) : (e.setFlags .writable).isHuge = e.isHuge := by
  rw [isHuge, word_setFlags, BitVec.getLsbD_or,
    show PageEntryFlags.writable.bits.getLsbD 7 = false by decide, Bool.or_false, isHuge]

/-- The entry 511 of a new table refers to the table itself. -/
theorem child_selfEntry {n : ℕ} (hn : n < 2 ^ 36) : (selfEntry n).child = some n := by
  rw [child, isPresent_selfEntry, selfEntry, isHuge_setWritable, isHuge_withFrame, frame_setFlags,
    frame_withFrame _ hn]
  rfl

/-- A cleared entry is not present. -/
@[simp] theorem isPresent_cleared : cleared.isPresent = false := by decide

/-- A cleared entry has no page-size bit. -/
@[simp] theorem isHuge_cleared : cleared.isHuge = false := by decide

/-- An entry that is not present refers to no table. -/
theorem child_eq_none {e : PageEntry} (h : e.isPresent = false) : e.child = none := by
  simp [child, h]

/-- An entry without the page-size bit that refers to no table is not present. -/
theorem isPresent_of_child_eq_none {e : PageEntry} (h : e.child = none)
    (hsmall : e.isHuge = false) : e.isPresent = false := by
  simpa [child, hsmall] using h

/-- The reading of `child`. -/
theorem child_eq_some {e : PageEntry} {n : ℕ} :
    e.child = some n ↔ e.isPresent = true ∧ e.isHuge = false ∧ e.frame = n := by
  unfold child
  cases e.isPresent <;> cases e.isHuge <;> simp

/-- `set_frame_addr` accepts the address of every frame below `2 ^ 48`. -/
theorem setFrameAddr_eq (e : PageEntry) {n : ℕ} (hn : n < 2 ^ 36) :
    e.setFrameAddr (n * 4096) = .ok (e.withFrame n) := by
  have hlow : n * 4096 &&& 0xFFF = 0 := by
    rw [show (0xFFF : ℕ) = 2 ^ 12 - 1 by rfl, Nat.and_two_pow_sub_one_eq_mod]
    omega
  have hhigh : n * 4096 &&& 0xFFFF000000000000 = 0 := by
    have h := and_complement_mask (x := n * 4096) (k := 48) (by unfold usizeCount; omega)
      (by decide)
    rw [show usizeCount - 1 - (2 ^ 48 - 1) = 0xFFFF000000000000 by decide] at h
    rw [h]
    omega
  unfold setFrameAddr
  rw [hlow, hhigh]
  rfl

/-- `set_frame_addr` accepts no other multiple of the frame size. -/
theorem setFrameAddr_lt {e e' : PageEntry} {n : ℕ} (hn : n * 4096 < usizeCount)
    (h : e.setFrameAddr (n * 4096) = .ok e') : n < 2 ^ 36 := by
  obtain ⟨_, -, h⟩ := Except.bind_eq_ok.mp h
  obtain ⟨_, hhigh, -⟩ := Except.bind_eq_ok.mp h
  have hzero := debugAssert_eq_ok.mp hhigh
  have hmask := and_complement_mask (k := 48) hn (by decide)
  rw [show usizeCount - 1 - (2 ^ 48 - 1) = 0xFFFF000000000000 by decide,
    beq_iff_eq.mp hzero] at hmask
  omega

/-- Setting `WRITABLE` keeps the table that an entry refers to. -/
theorem child_setWritable {e : PageEntry} {n : ℕ} (h : e.child = some n) :
    (e.setFlags .writable).child = some n := by
  obtain ⟨hpresent, hhuge, hframe⟩ := child_eq_some.mp h
  exact child_eq_some.mpr ⟨isPresent_setFlags hpresent _, by rw [isHuge_setWritable, hhuge],
    by rw [frame_setFlags, hframe]⟩

/-- The address of the frame that an entry refers to. -/
theorem address_frame (e : PageEntry) :
    BitVec.ofNat 64 (e.frame * 2 ^ 12) = e.word &&& frameBits := by
  have hmask : ∀ i < 64, frameBits.getLsbD i = decide (12 ≤ i ∧ i < 52) := by decide
  apply BitVec.eq_of_getLsbD_eq
  intro i hi
  rw [BitVec.getLsbD_ofNat, Nat.testBit_mul_two_pow, BitVec.getLsbD_and, hmask i hi, frame,
    BitVec.testBit_toNat, BitVec.getLsbD_extractLsb']
  by_cases hinside : 12 ≤ i ∧ i < 52
  · have hlt : i - 12 < 40 := by omega
    have hsum : 12 + (i - 12) = i := by omega
    simp [hi, hinside, hlt, hsum]
  · by_cases hlow : 12 ≤ i
    · have hhigh : ¬i - 12 < 40 := by omega
      simp [hinside, hhigh]
    · simp [hlow]

/-- Giving an entry another frame and then its own frame again leaves the named flags and
the frame number. -/
theorem withFrame_withFrame {e : PageEntry} {n : ℕ} (hn : n < 2 ^ 36)
    (hpresent : e.isPresent = true) (hwritable : e.flags.contains .writable = true) :
    ((e.withFrame n).withFrame e.frame).setFlags .writable = e.tidy := by
  have hdisjoint : BitVec.ofNat 64 (n * 2 ^ 12) &&& flagBits = 0#64 := by
    have hframe := address_frame (PageEntry.mk (BitVec.ofNat 64 (n * 2 ^ 12)))
    have hnumber : (PageEntry.mk (BitVec.ofNat 64 (n * 2 ^ 12))).frame = n := by
      rw [frame, BitVec.extractLsb'_toNat, BitVec.toNat_ofNat, Nat.shiftRight_eq_div_pow]
      omega
    rw [hnumber] at hframe
    rw [hframe, BitVec.and_assoc, show frameBits &&& flagBits = 0#64 by decide, BitVec.and_zero]
  have hflags : ∀ flag : PageEntryFlags, e.flags.contains flag = true →
      e.word &&& flagBits ||| flag.bits = e.word &&& flagBits := by
    intro flag hflag
    have hbits : e.word &&& flagBits &&& flag.bits = flag.bits := beq_iff_eq.mp hflag
    rw [← hbits]
    apply BitVec.eq_of_getLsbD_eq
    intro i _
    simp only [BitVec.getLsbD_or, BitVec.getLsbD_and]
    cases e.word.getLsbD i <;> cases flagBits.getLsbD i <;> simp
  have hone : e.word &&& flagBits ||| 1#64 = e.word &&& flagBits :=
    hflags .present (by rw [contains_present, hpresent])
  have htwo : e.word &&& flagBits ||| PageEntryFlags.writable.bits = e.word &&& flagBits :=
    hflags .writable hwritable
  have hkept : (e.withFrame n).word &&& flagBits = e.word &&& flagBits := by
    rw [word_withFrame, hone, BitVec.and_comm, BitVec.and_or_distrib_left, BitVec.and_comm,
      hdisjoint, BitVec.zero_or, BitVec.and_comm, BitVec.and_assoc, BitVec.and_self]
  have hword : (((e.withFrame n).withFrame e.frame).setFlags .writable).word = e.tidy.word := by
    rw [word_setFlags, word_withFrame, hkept, hone, BitVec.or_assoc, htwo, address_frame, tidy,
      ← BitVec.and_or_distrib_left, BitVec.or_comm]
  cases hleft : ((e.withFrame n).withFrame e.frame).setFlags .writable
  cases hright : e.tidy
  rw [hleft, hright] at hword
  exact congrArg PageEntry.mk hword

/-- A cleared entry is plain. -/
theorem plain_cleared : cleared.Plain := by
  unfold Plain cleared
  decide

/-- A plain entry stays plain when it gets a frame. -/
theorem Plain.withFrame {e : PageEntry} (h : e.Plain) {n : ℕ} (hn : n < 2 ^ 36) :
    (e.withFrame n).Plain := by
  unfold Plain at h ⊢
  rw [word_withFrame, BitVec.toNat_or, BitVec.toNat_or, BitVec.toNat_and, BitVec.toNat_ofNat]
  apply Nat.or_lt_two_pow
  · omega
  · apply Nat.or_lt_two_pow
    · rw [Nat.and_comm]
      exact Nat.and_lt_two_pow _ h
    · decide

/-- On a plain entry `get_frame_addr` returns the address of the frame that the
processor reads. -/
theorem Plain.getFrameAddr {e : PageEntry} (h : e.Plain) :
    e.getFrameAddr = if e.isPresent then some (e.frame * 4096) else none := by
  unfold PageEntry.getFrameAddr
  rw [contains_present]
  have hframe : (e.word &&& ~~~0xFFF).toNat = e.frame * 4096 := by
    have hmask := and_complement_mask (x := e.word.toNat) (k := 12) e.word.isLt (by decide)
    rw [show usizeCount - 1 - (2 ^ 12 - 1) = (~~~0xFFF#64).toNat by decide,
      ← BitVec.toNat_and] at hmask
    unfold Plain at h
    rw [show (~~~0xFFF : BitVec 64) = ~~~0xFFF#64 by rfl, hmask, frame, BitVec.extractLsb'_toNat,
      Nat.shiftRight_eq_div_pow]
    generalize e.word.toNat = word at h
    omega
  rw [hframe]

/-- A cleared entry that got a frame returns its address. -/
theorem getFrameAddr_withFrame {n : ℕ} (hn : n < 2 ^ 36) :
    (cleared.withFrame n).getFrameAddr = some (n * 4096) := by
  rw [(plain_cleared.withFrame hn).getFrameAddr, isPresent_withFrame, frame_withFrame _ hn,
    if_pos rfl]

end PageEntry

end Axel
