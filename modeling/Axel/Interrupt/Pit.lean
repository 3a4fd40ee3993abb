import Axel.Interrupt.Pic
import Axel.Lib.BitField
import Axel.Peripheral.Timer
import Mathlib.Tactic.IntervalCases

/-!
# The interval timer

`pit::init` makes channel 0 of the 8254 tick at a given frequency: it computes a counter value of
16 bits and writes it in two halves after a control word. The assertions of
`make_asymptotic_counter_value` admit one frequency whose counter value does not fit into 16 bits,
and frequencies for which the counter value is 1, which the comments of the source forbid.
-/

namespace Axel.Pit

open Timer (Profile)

/-! ## The code -/

/-- `CHANNEL0`. -/
def channel0 : UInt16 := 0x40

/-- `MODE_COMMAND_REGISTER`. -/
def modeCommandRegister : UInt16 := 0x43

/-- `ModeCommandRegister::set_operating_mode`. -/
def setOperatingMode (value r : BitVec 8) : BitVec 8 := BitField.set 3 1 value r

/-- `ModeCommandRegister::set_access_mode`. -/
def setAccessMode (value r : BitVec 8) : BitVec 8 := BitField.set 5 4 value r

/-- A debug assertion of a profile. -/
def profileAssert (profile : Profile) (condition : Bool) : Except Fault Unit :=
  match profile with
  | .dev => debugAssert condition
  | .release => .ok ()

/-- `make_asymptotic_counter_value`. The division panics for 0 in a release build. -/
def makeAsymptoticCounterValue (profile : Profile) (timerFrequencyHz : ℕ) :
    Except Fault (UInt8 × UInt8) := do
  profileAssert profile (decide (18 ≤ timerFrequencyHz))
  profileAssert profile (decide (timerFrequencyHz < 1193181))
  if timerFrequencyHz = 0 then
    .error .panic
  else
    let c := BitVec.ofNat 16 (3579545 / 3 / timerFrequencyHz)
    return (⟨(c >>> 8).setWidth 8⟩, ⟨(c &&& 0xFF).setWidth 8⟩)

/-- The control word of `init`. -/
def controlWord : BitVec 8 := setAccessMode 0b11 (setOperatingMode 0b010 0)

/-- The port writes of `init` to the interval timer, for a frequency. -/
def init (profile : Profile) (timerFrequencyHz : ℕ) : Except Fault (List Pic.PortWrite) := do
  let (h, l) ← makeAsymptoticCounterValue profile timerFrequencyHz
  return [⟨modeCommandRegister, ⟨controlWord⟩⟩, ⟨channel0, l⟩, ⟨channel0, h⟩]

/-! ## The 8254 -/

/-- Channel 0 of the interval timer. -/
structure Channel where
  /-- The operating mode. -/
  mode : BitVec 8
  /-- How the halves of a counter value are written: 1 for the low one, 2 for the high one, 3 for
  both. -/
  access : BitVec 8
  /-- The counter counts in decimal digits. -/
  bcd : Bool
  /-- The low half, when the high half is still to come. -/
  low : Option UInt8
  /-- The counter value that the channel counts down from, if there is one; 0 stands for the
  number of 16-bit values. -/
  value : Option (BitVec 16)
  deriving DecidableEq

namespace Channel

/-- A control word for channel 0 makes it wait for a new counter value. The access mode 0 only
latches the counter for reading. -/
def command (self : Channel) (word : BitVec 8) : Channel :=
  if BitField.get 7 6 word = 0 ∧ BitField.get 5 4 word ≠ 0 then
    { mode := BitField.get 3 1 word
      access := BitField.get 5 4 word
      bcd := BitField.get 0 0 word = 1
      low := none
      value := none }
  else
    self

/-- A write to the port of the channel. -/
def data (self : Channel) (byte : UInt8) : Channel :=
  if self.access = 1 then
    { self with value := some (byte.toBitVec.setWidth 16) }
  else if self.access = 2 then
    { self with value := some (byte.toBitVec.setWidth 16 <<< 8) }
  else
    match self.low with
    | none => { self with low := some byte }
    | some low => { self with low := none, value := some (byte.toBitVec ++ low.toBitVec) }

/-- A port write. -/
def out (self : Channel) (write : Pic.PortWrite) : Channel :=
  if write.port = modeCommandRegister then
    self.command write.value.toBitVec
  else if write.port = channel0 then
    self.data write.value
  else
    self

/-- A series of port writes. -/
def run (self : Channel) (writes : List Pic.PortWrite) : Channel := writes.foldl out self

/-- The number of clocks between two ticks of a channel in the rate generator mode. -/
def period (self : Channel) : Option ℕ :=
  self.value.map fun value => if value = 0 then 2 ^ 16 else value.toNat

end Channel

/-! ## The counter value -/

/-- The rate of the clock of the interval timer, in Hz. -/
def clock : ℕ := 3579545 / 3

/-- The control word selects channel 0, both halves, the rate generator mode and binary counting. -/
theorem controlWord_fields :
    BitField.get 7 6 controlWord = 0 ∧ BitField.get 5 4 controlWord = 0b11 ∧
      BitField.get 3 1 controlWord = 0b010 ∧ BitField.get 0 0 controlWord = 0 := by
  refine ⟨?_, BitField.get_set (by decide) (by decide) (by decide), ?_, ?_⟩
  · exact (BitField.get_set_of_disjoint (by decide) (by decide) (by decide)).trans
      (BitField.get_set_of_disjoint (by decide) (by decide) (by decide))
  · exact (BitField.get_set_of_disjoint (by decide) (by decide) (by decide)).trans
      (BitField.get_set (by decide) (by decide) (by decide))
  · exact (BitField.get_set_of_disjoint (by decide) (by decide) (by decide)).trans
      (BitField.get_set_of_disjoint (by decide) (by decide) (by decide))

/-- The halves of a counter value make up the value. -/
theorem append_halves (c : BitVec 16) :
    (c >>> 8).setWidth 8 ++ (c &&& 0xFF).setWidth 8 = c := by
  have hmask : (0xFF : BitVec 16) = (BitVec.allOnes 8).setWidth 16 := by decide
  rw [hmask, BitField.setWidth_and_allOnes _ (by decide)]
  apply BitVec.eq_of_getLsbD_eq
  intro i hi
  simp only [BitVec.getLsbD_append, BitVec.getLsbD_setWidth, BitVec.getLsbD_ushiftRight]
  grind

/-- The counter value of a frequency that is not 0. -/
theorem makeAsymptoticCounterValue_ok (profile : Profile) {f : ℕ} (hlow : 18 ≤ f)
    (hhigh : f < 1193181) :
    makeAsymptoticCounterValue profile f =
      .ok (⟨(BitVec.ofNat 16 (clock / f) >>> 8).setWidth 8⟩,
        ⟨(BitVec.ofNat 16 (clock / f) &&& 0xFF).setWidth 8⟩) := by
  have hzero : f ≠ 0 := by omega
  have hassert (p : Prop) [Decidable p] (h : p) : profileAssert profile (decide p) = .ok () := by
    rw [decide_eq_true h]
    cases profile <;> rfl
  simp only [makeAsymptoticCounterValue, hassert _ hlow, hassert _ hhigh, if_neg hzero, bind,
    Except.bind, pure, Except.pure, clock]

/-- In a debug build, `init` returns for the frequencies that the assertions admit. -/
theorem init_ok_iff (f : ℕ) :
    (∃ writes, init .dev f = .ok writes) ↔ 18 ≤ f ∧ f < 1193181 := by
  constructor
  · rintro ⟨writes, h⟩
    obtain ⟨value, hvalue, -⟩ := Except.bind_eq_ok.mp h
    obtain ⟨_, hlow, hrest⟩ := Except.bind_eq_ok.mp hvalue
    obtain ⟨_, hhigh, -⟩ := Except.bind_eq_ok.mp hrest
    exact ⟨of_decide_eq_true (debugAssert_eq_ok.mp hlow),
      of_decide_eq_true (debugAssert_eq_ok.mp hhigh)⟩
  · rintro ⟨hlow, hhigh⟩
    exact ⟨_, Except.bind_eq_ok.mpr ⟨_, makeAsymptoticCounterValue_ok .dev hlow hhigh, rfl⟩⟩

/-- The control word starts the programming of channel 0. -/
theorem Channel.command_controlWord (self : Channel) :
    self.command controlWord = ⟨0b010, 0b11, false, none, none⟩ := by
  obtain ⟨hchannel, haccess, hmode, hbcd⟩ := controlWord_fields
  rw [command, hchannel, haccess, hmode, hbcd]
  exact if_pos ⟨rfl, by decide⟩

/-- The halves of a counter value are taken in turn. -/
theorem Channel.data_data (low high : UInt8) :
    ((⟨0b010, 0b11, false, none, none⟩ : Channel).data low).data high =
      ⟨0b010, 0b11, false, none, some (high.toBitVec ++ low.toBitVec)⟩ := rfl

/-- The writes of `init` put channel 0 into the rate generator mode with the counter value. -/
theorem Channel.run_init (self : Channel) {profile : Profile} {f : ℕ} {writes : List Pic.PortWrite}
    (hlow : 18 ≤ f) (hhigh : f < 1193181) (h : init profile f = .ok writes) :
    self.run writes = ⟨0b010, 0b11, false, none, some (BitVec.ofNat 16 (clock / f))⟩ := by
  obtain ⟨value, hvalue, hwrites⟩ := Except.bind_eq_ok.mp h
  rw [makeAsymptoticCounterValue_ok profile hlow hhigh] at hvalue
  obtain rfl := Except.ok.inj hvalue
  obtain rfl := Except.ok.inj hwrites
  show ((self.command controlWord).data _).data _ = _
  rw [command_controlWord, data_data, append_halves]

/-- The period of a counter value. -/
theorem period_eq {f : ℕ} (hlow : 18 ≤ f) (hhigh : f < 1193181) :
    (⟨0b010, 0b11, false, none, some (BitVec.ofNat 16 (clock / f))⟩ : Channel).period =
      some (if f = 18 then 751 else clock / f) := by
  by_cases hf : f = 18
  · subst hf
    decide
  · have hclock : clock = 1193181 := rfl
    have hpos : 0 < clock / f := Nat.div_pos (by omega) (by omega)
    have hlt : clock / f < 2 ^ 16 := by
      rw [Nat.div_lt_iff_lt_mul (by omega)]
      omega
    have hne : BitVec.ofNat 16 (clock / f) ≠ 0 := by
      intro hzero
      have h := congrArg BitVec.toNat hzero
      rw [BitVec.toNat_ofNat, Nat.mod_eq_of_lt hlt] at h
      exact hpos.ne' h
    rw [Channel.period, Option.map_some, if_neg hne, if_neg hf, BitVec.toNat_ofNat,
      Nat.mod_eq_of_lt hlt]

/-- Whatever state channel 0 was in, the port writes of `init` for an admitted frequency make it
tick in the rate generator mode. The period is the number of clocks that comes closest to the
frequency from above exactly when the frequency is not 18 Hz, whose counter value has 17 bits, and
it is legal in this mode exactly up to 596590 Hz. -/
theorem Channel.run_init_frequency (self : Channel) (f : ℕ) :
    ((∃ writes, init .dev f = .ok writes) ↔ 18 ≤ f ∧ f < 1193181) ∧
    ∀ profile writes, 18 ≤ f → f < 1193181 → init profile f = .ok writes →
      (self.run writes).mode = 0b010 ∧ (self.run writes).bcd = false ∧
      ∃ n, (self.run writes).period = some n ∧
        (n * f ≤ clock ∧ clock < (n + 1) * f ↔ f ≠ 18) ∧ (2 ≤ n ↔ f ≤ 596590) := by
  refine ⟨init_ok_iff f, fun profile writes hlow hhigh h => ?_⟩
  rw [self.run_init hlow hhigh h]
  refine ⟨rfl, rfl, _, period_eq hlow hhigh, ?_⟩
  have hclock : clock = 1193181 := rfl
  by_cases hf : f = 18
  · subst hf
    decide
  · rw [if_neg hf]
    refine ⟨iff_of_true ⟨Nat.div_mul_le_self _ _, ?_⟩ hf, ?_⟩
    · rw [← Nat.div_lt_iff_lt_mul (by omega)]
      exact Nat.lt_succ_self _
    · rw [Nat.le_div_iff_mul_le (by omega)]
      omega

end Axel.Pit
