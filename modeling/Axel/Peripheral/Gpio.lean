import Axel.Lib.BitField
import Mathlib.Data.Nat.Notation
import Mathlib.Logic.Function.Basic
import Mathlib.Logic.Function.Iterate

/-!
# The pins of the board

`arch::arm11::peripheral::gpio` selects what a pin is used for and sets its level. Both are
accesses to registers at fixed addresses, and between two accesses the controllers of the board go
on by themselves: the one for the serial bus moves bytes from its queue to the display. This file
models the board with the registers that the kernel uses, and the functions of `gpio` on it. The
function of a pin is three bits of a register, and selecting one leaves the other pins as they are.
-/

namespace Axel.Peripheral

/-! ## Addresses -/

/-- The boards that the kernel can be configured for. -/
inductive Board where
  /-- `RPi_a`. -/
  | rpiA
  /-- `RPi_aplus`. -/
  | rpiAplus
  /-- `RPi_bplus`. -/
  | rpiBplus
  /-- `RPi_zero`. -/
  | rpiZero
  /-- `RPi2_b`. -/
  | rpi2B
  deriving DecidableEq

/-- The address of the peripherals, `base` in `Addr::to_usize`. -/
def Board.base : Board → ℕ
  | .rpiA | .rpiAplus | .rpiBplus | .rpiZero => 0x20000000
  | .rpi2B => 0x3F000000

/-- The registers of the enumeration `Addr` that the functions of `gpio` and `spi` use. -/
inductive Addr where
  /-- The first register of the pins. -/
  | gpioBase
  /-- Set the pins 0 to 31. -/
  | gpioGpSet0
  /-- Set the pins from 32 on. -/
  | gpioGpSet1
  /-- Clear the pins 0 to 31. -/
  | gpioGpClr0
  /-- Clear the pins from 32 on. -/
  | gpioGpClr1
  /-- The control and status of the serial bus. -/
  | spi0RegisterCs
  /-- The queues of the serial bus. -/
  | spi0RegisterFifo
  /-- The clock divider of the serial bus. -/
  | spi0RegisterClk
  deriving DecidableEq

/-- The place of a register after the base. -/
def Addr.offset : Addr → ℕ
  | .gpioBase => 0x00200000
  | .gpioGpSet0 => 0x00200000 + 0x1C
  | .gpioGpSet1 => 0x00200000 + 0x20
  | .gpioGpClr0 => 0x00200000 + 0x28
  | .gpioGpClr1 => 0x00200000 + 0x2C
  | .spi0RegisterCs => 0x00204000 + 0x00
  | .spi0RegisterFifo => 0x00204000 + 0x04
  | .spi0RegisterClk => 0x00204000 + 0x08

/-- `Addr::to_usize`. -/
def Addr.toUsize (board : Board) (addr : Addr) : ℕ := addr.offset + board.base

/-! ## The hardware -/

/-- What the program does not decide: how fast the controller of the serial bus is, what it
receives, and what a load from a register that is only for writing returns. Accesses are
numbered. -/
structure Timing where
  /-- The number of bytes that can be shifted before an access. -/
  shifts : ℕ → ℕ
  /-- A byte that is shifted in before an access. -/
  miso : ℕ → BitVec 8
  /-- What an access to a register without contents returns. -/
  readback : ℕ → BitVec 32

/-- The registers of the board, and what the display has received. -/
structure Hardware where
  /-- The function select registers. -/
  functionSelect : ℕ → BitVec 32
  /-- The levels of the pins that are outputs. -/
  outputs : BitVec 64
  /-- The configuration of the serial bus. -/
  control : BitVec 32
  /-- The clock divider of the serial bus. -/
  clock : BitVec 32
  /-- The bytes to send. -/
  tx : List (BitVec 8)
  /-- The bytes that were received and not read. -/
  rx : List (BitVec 8)
  /-- The bytes that were shifted out to the display, with the level of its data pin. -/
  received : List (Bool × BitVec 8)
  /-- The number of accesses. -/
  time : ℕ

/-- The function of a pin: three bits of a function select register. -/
def Hardware.function (hw : Hardware) (pin : ℕ) : BitVec 32 :=
  BitField.get (3 * (pin % 10) + 2) (3 * (pin % 10)) (hw.functionSelect (pin / 10))

/-- The pins of the display are connected: the select line, the data line and the clock line of the
serial bus, and the data pin of the display as an output. -/
def Hardware.Connected (hw : Hardware) : Prop :=
  hw.function 8 = 0b100 ∧ hw.function 10 = 0b100 ∧ hw.function 11 = 0b100 ∧ hw.function 25 = 0b001

/-- Whether the pins of the display are connected can be computed. -/
instance (hw : Hardware) : Decidable hw.Connected :=
  inferInstanceAs (Decidable (_ ∧ _ ∧ _ ∧ _))

/-- The display is selected: the two bits that choose the select line are clear. -/
def Hardware.Selected (hw : Hardware) : Prop :=
  hw.control.getLsbD 0 = false ∧ hw.control.getLsbD 1 = false

/-- Whether the display is selected can be computed. -/
instance (hw : Hardware) : Decidable hw.Selected :=
  inferInstanceAs (Decidable (_ ∧ _))

/-- The controller of the serial bus shifts a byte: a transfer is active, there is a byte to send,
and there is room for the one that comes in. The display listens if it is selected. -/
def Hardware.shift (miso : BitVec 8) (hw : Hardware) : Hardware :=
  match hw.tx with
  | [] => hw
  | byte :: tx =>
    if hw.control.getLsbD 7 ∧ hw.rx.length < 64 then
      { hw with
        tx
        rx := hw.rx ++ [miso]
        received :=
          if hw.Connected ∧ hw.Selected then
            hw.received ++ [(hw.outputs.getLsbD 25, byte)]
          else hw.received }
    else
      hw

/-- What happens up to the next access. -/
def Hardware.elapse (timing : Timing) (hw : Hardware) : Hardware :=
  { (Hardware.shift (timing.miso hw.time))^[timing.shifts hw.time] hw with time := hw.time + 1 }

/-- The bits of the control register that keep what is written to them: not the two bits that
clear the queues, and not the status. -/
def configMask : BitVec 32 := 0x03E0FFCF

/-- A bit of the status. -/
def statusBit (p : Prop) [Decidable p] (bit : ℕ) : BitVec 32 :=
  if p then (1 : BitVec 32) <<< bit else 0

/-- What the control register shows: the configuration; that the transfer is done; that there are
bytes to read; that there is room for a byte to send. -/
def Hardware.status (hw : Hardware) : BitVec 32 :=
  (hw.control &&& configMask) ||| statusBit (hw.control.getLsbD 7 ∧ hw.tx = []) 16 |||
    statusBit (hw.rx ≠ []) 17 ||| statusBit (hw.tx.length < 64) 18

/-- A load of 32 bits. -/
def Hardware.load (timing : Timing) (board : Board) (addr : ℕ) (hw : Hardware) :
    BitVec 32 × Hardware :=
  let hw := hw.elapse timing
  let offset := addr - board.base
  if offset = Addr.spi0RegisterCs.offset then
    (hw.status, hw)
  else if offset = Addr.spi0RegisterFifo.offset then
    ((hw.rx.head?.map (BitVec.setWidth 32)).getD (timing.readback hw.time),
      { hw with rx := hw.rx.tail })
  else if offset = Addr.spi0RegisterClk.offset then
    (hw.clock, hw)
  else if Addr.gpioBase.offset ≤ offset ∧ offset < Addr.gpioBase.offset + 24 then
    (hw.functionSelect ((offset - Addr.gpioBase.offset) / 4), hw)
  else
    (timing.readback hw.time, hw)

/-- A store of 32 bits. -/
def Hardware.store (timing : Timing) (board : Board) (addr : ℕ) (value : BitVec 32)
    (hw : Hardware) : Hardware :=
  let hw := hw.elapse timing
  let offset := addr - board.base
  if offset = Addr.gpioGpSet0.offset then
    { hw with outputs := hw.outputs ||| value.setWidth 64 }
  else if offset = Addr.gpioGpSet1.offset then
    { hw with outputs := hw.outputs ||| value.setWidth 64 <<< 32 }
  else if offset = Addr.gpioGpClr0.offset then
    { hw with outputs := hw.outputs &&& ~~~value.setWidth 64 }
  else if offset = Addr.gpioGpClr1.offset then
    { hw with outputs := hw.outputs &&& ~~~(value.setWidth 64 <<< 32) }
  else if offset = Addr.spi0RegisterCs.offset then
    { hw with
      control := value &&& configMask
      tx := if value.getLsbD 4 then [] else hw.tx
      rx := if value.getLsbD 5 then [] else hw.rx }
  else if offset = Addr.spi0RegisterFifo.offset then
    if hw.control.getLsbD 7 ∧ hw.tx.length < 64 then
      { hw with tx := hw.tx ++ [value.setWidth 8] }
    else
      hw
  else if offset = Addr.spi0RegisterClk.offset then
    { hw with clock := value }
  else if Addr.gpioBase.offset ≤ offset ∧ offset < Addr.gpioBase.offset + 24 then
    { hw with
      functionSelect :=
        Function.update hw.functionSelect ((offset - Addr.gpioBase.offset) / 4) value }
  else
    hw

/-! ## The code -/

/-- `Function`. -/
inductive Function where
  /-- The pin is an input. -/
  | input
  /-- The pin is an output. -/
  | output
  /-- The first peripheral. -/
  | alternate0
  /-- The second peripheral. -/
  | alternate1
  /-- The third peripheral. -/
  | alternate2
  /-- The fourth peripheral. -/
  | alternate3
  /-- The fifth peripheral. -/
  | alternate4
  /-- The sixth peripheral. -/
  | alternate5
  deriving DecidableEq

/-- The code of a function. -/
def Function.code : Function → BitVec 32
  | .input => 0b000
  | .output => 0b001
  | .alternate0 => 0b100
  | .alternate1 => 0b101
  | .alternate2 => 0b110
  | .alternate3 => 0b111
  | .alternate4 => 0b011
  | .alternate5 => 0b010

/-- `Output`. -/
inductive Output where
  /-- The low level. -/
  | clear
  /-- The high level. -/
  | set
  deriving DecidableEq

/-- `Pin`. -/
inductive Pin where
  /-- The light of the board. -/
  | okLed
  /-- The second select line. -/
  | spi0Ce1N
  /-- The first select line. -/
  | spi0Ce0N
  /-- The line to the kernel. -/
  | spi0Miso
  /-- The line to the display. -/
  | spi0Mosi
  /-- The clock line. -/
  | spi0Sclk
  /-- The data pin of the display. -/
  | ili9340Dc
  /-- The reset pin of the display. -/
  | ili9340Rst
  /-- A button. -/
  | button1
  /-- A button. -/
  | button2
  /-- A button. -/
  | button3
  /-- A button. -/
  | button4
  deriving DecidableEq

/-- The number of a pin. -/
def Pin.number (board : Board) : Pin → ℕ
  | .okLed =>
    match board with
    | .rpiA | .rpiAplus => 16
    | .rpiZero | .rpiBplus | .rpi2B => 47
  | .spi0Ce1N => 7
  | .spi0Ce0N => 8
  | .spi0Miso => 9
  | .spi0Mosi => 10
  | .spi0Sclk => 11
  | .ili9340Dc => 25
  | .ili9340Rst => 18
  | .button1 => 17
  | .button2 => 22
  | .button3 => 23
  | .button4 => 27

/-- `set_pin_function`. -/
def setPinFunction (timing : Timing) (board : Board) (pin : Pin) (func : Function)
    (hw : Hardware) : Hardware :=
  let pinNumber := pin.number board
  let gpfSelNumber := pinNumber / 10
  let gpfSelAddr := Addr.gpioBase.toUsize board + gpfSelNumber * 0x4
  let shift := 3 * (pinNumber % 10)
  let setValue := func.code <<< shift
  let (currentValue, hw) := hw.load timing board gpfSelAddr
  let newValue := (currentValue &&& ~~~((7 : BitVec 32) <<< shift)) ||| setValue
  hw.store timing board gpfSelAddr newValue

/-- The register of `write_output_pin`. -/
def outputRegister (pinNumber : ℕ) (mode : Output) : Addr :=
  if pinNumber ≤ 31 then
    match mode with
    | .set => .gpioGpSet0
    | .clear => .gpioGpClr0
  else
    match mode with
    | .set => .gpioGpSet1
    | .clear => .gpioGpClr1

/-- `write_output_pin`. -/
def writeOutputPin (timing : Timing) (board : Board) (pin : Pin) (mode : Output)
    (hw : Hardware) : Hardware :=
  let pinNumber := pin.number board
  let regAddr := (outputRegister pinNumber mode).toUsize board
  let shift := pinNumber % 32
  let (currentValue, hw) := hw.load timing board regAddr
  let newValue := (currentValue &&& ~~~((1 : BitVec 32) <<< shift)) ||| ((1 : BitVec 32) <<< shift)
  hw.store timing board regAddr newValue

/-! ## Between two accesses -/

variable {timing : Timing} {board : Board} {hw hw' : Hardware}

/-- The controller of the serial bus does not touch the configuration of the board. -/
structure SameConfig (hw hw' : Hardware) : Prop where
  /-- The functions of the pins. -/
  functionSelect : hw'.functionSelect = hw.functionSelect
  /-- The levels of the outputs. -/
  outputs : hw'.outputs = hw.outputs
  /-- The configuration of the serial bus. -/
  control : hw'.control = hw.control

/-- Nothing has changed. -/
theorem SameConfig.refl (hw : Hardware) : SameConfig hw hw := ⟨rfl, rfl, rfl⟩

/-- Changes one after the other. -/
theorem SameConfig.trans {hw'' : Hardware} (h : SameConfig hw hw') (h' : SameConfig hw' hw'') :
    SameConfig hw hw'' :=
  ⟨h'.1.trans h.1, h'.2.trans h.2, h'.3.trans h.3⟩

/-- A byte that is shifted does not touch the configuration. -/
theorem sameConfig_shift (miso : BitVec 8) (hw : Hardware) : SameConfig hw (hw.shift miso) := by
  unfold Hardware.shift
  split
  · exact .refl hw
  · split
    · exact ⟨rfl, rfl, rfl⟩
    · exact .refl hw

/-- Time does not touch the configuration. -/
theorem sameConfig_elapse (timing : Timing) (hw : Hardware) :
    SameConfig hw (hw.elapse timing) := by
  have hshifts (n : ℕ) (miso : BitVec 8) : SameConfig hw ((Hardware.shift miso)^[n] hw) := by
    induction n with
    | zero => exact .refl hw
    | succ n ih =>
      rw [Function.iterate_succ_apply']
      exact ih.trans (sameConfig_shift miso _)
  obtain ⟨hfunction, houtputs, hcontrol⟩ := hshifts (timing.shifts hw.time) (timing.miso hw.time)
  exact ⟨hfunction, houtputs, hcontrol⟩

/-- While there is no byte to send, nothing is shifted. -/
theorem elapse_of_tx_nil (htx : hw.tx = []) :
    hw.elapse timing = { hw with time := hw.time + 1 } := by
  have hshift (miso : BitVec 8) : hw.shift miso = hw := by
    rw [Hardware.shift, htx]
  rw [Hardware.elapse, Function.iterate_fixed (hshift _)]

/-! ## The functions of the pins -/

/-- The place of a function select register. -/
theorem functionSelect_offset (board : Board) (k : ℕ) :
    Addr.gpioBase.toUsize board + k * 4 - board.base = Addr.gpioBase.offset + k * 4 := by
  unfold Addr.toUsize
  omega

/-- The function select registers come before all others. -/
theorem functionSelect_ne {k : ℕ} (hk : k < 6) {addr : Addr} (haddr : addr ≠ .gpioBase) :
    Addr.gpioBase.offset + k * 4 ≠ addr.offset := by
  cases addr with
  | gpioBase => exact absurd rfl haddr
  | _ =>
    simp only [Addr.offset]
    omega

/-- A load of a function select register. -/
theorem load_functionSelect {k : ℕ} (hk : k < 6) (hw : Hardware) :
    hw.load timing board (Addr.gpioBase.toUsize board + k * 4) =
      (hw.functionSelect k, hw.elapse timing) := by
  have hfunction := (sameConfig_elapse timing hw).functionSelect
  simp only [Hardware.load, functionSelect_offset]
  rw [if_neg (functionSelect_ne hk (by decide)), if_neg (functionSelect_ne hk (by decide)),
    if_neg (functionSelect_ne hk (by decide)), if_pos (by omega), Nat.add_sub_cancel_left,
    Nat.mul_div_cancel _ (by decide), hfunction]

/-- A store to a function select register. -/
theorem store_functionSelect {k : ℕ} (hk : k < 6) (value : BitVec 32) (hw : Hardware) :
    hw.store timing board (Addr.gpioBase.toUsize board + k * 4) value =
      { hw.elapse timing with
        functionSelect := Function.update hw.functionSelect k value } := by
  have hfunction := (sameConfig_elapse timing hw).functionSelect
  have hne {addr : Addr} (haddr : addr ≠ .gpioBase) :
      Addr.gpioBase.offset + k * 4 ≠ addr.offset := functionSelect_ne hk haddr
  simp only [Hardware.store, functionSelect_offset]
  rw [if_neg (hne (by decide)), if_neg (hne (by decide)), if_neg (hne (by decide)),
    if_neg (hne (by decide)), if_neg (hne (by decide)), if_neg (hne (by decide)),
    if_neg (hne (by decide)), if_pos (by omega), Nat.add_sub_cancel_left,
    Nat.mul_div_cancel _ (by decide), hfunction]

/-- The pins of the board have less than six registers. -/
theorem Pin.number_lt (board : Board) (pin : Pin) : pin.number board < 54 := by
  cases pin <;> cases board <;> decide

/-- The new value of a function select register: the three bits of the pin are written. -/
theorem functionSelect_update (current : BitVec 32) (func : Function) {d : ℕ} (hd : d < 10) :
    (current &&& ~~~((7 : BitVec 32) <<< (3 * d))) ||| (func.code <<< (3 * d)) =
      BitField.set (3 * d + 2) (3 * d) func.code current := by
  have hmask : ∀ d < 10, (7 : BitVec 32) <<< (3 * d) = BitField.field 32 (3 * d + 2) (3 * d) := by
    decide
  have hcode : ∀ d < 10, (func.code <<< (3 * d)) &&& BitField.field 32 (3 * d + 2) (3 * d) =
      func.code <<< (3 * d) := by
    cases func <;> decide
  rw [BitField.set, BitField.update, hmask d hd, hcode d hd]

/-- `set_pin_function` writes three bits of one register. -/
theorem setPinFunction_functionSelect (pin : Pin) (func : Function) (hw : Hardware) :
    (setPinFunction timing board pin func hw).functionSelect =
      Function.update hw.functionSelect (pin.number board / 10)
        (BitField.set (3 * (pin.number board % 10) + 2) (3 * (pin.number board % 10)) func.code
          (hw.functionSelect (pin.number board / 10))) := by
  have hlt := pin.number_lt board
  have hk : pin.number board / 10 < 6 := by omega
  rw [setPinFunction, load_functionSelect hk]
  simp only [store_functionSelect hk]
  rw [(sameConfig_elapse timing hw).functionSelect,
    functionSelect_update _ _ (Nat.mod_lt _ (by decide))]

/-- `set_pin_function` gives the pin its function and leaves every other pin its own. -/
theorem setPinFunction_function (pin : Pin) (func : Function) (hw : Hardware) (p : ℕ) :
    (setPinFunction timing board pin func hw).function p =
      if p = pin.number board then func.code else hw.function p := by
  rw [Hardware.function, setPinFunction_functionSelect]
  have hcode : func.code.toNat < 2 ^ 3 := by
    cases func <;> decide
  have hcolumn (n : ℕ) : 3 * (n % 10) + 2 < 32 := by omega
  split
  case isTrue hp =>
    rw [hp, Function.update_self]
    refine BitField.get_set (by omega) (hcolumn _) ?_
    rw [Nat.add_sub_cancel_left]
    exact hcode
  case isFalse hp =>
    by_cases hregister : p / 10 = pin.number board / 10
    · rw [hregister, Function.update_self,
        BitField.get_set_of_disjoint (hcolumn _) (hcolumn _) (by omega), Hardware.function,
        hregister]
    · rw [Function.update_of_ne hregister, Hardware.function]

/-- Whether the pins of the display are connected depends on the function select registers. -/
theorem Hardware.Connected.of_functionSelect (h : hw.Connected)
    (hfunction : hw'.functionSelect = hw.functionSelect) : hw'.Connected := by
  unfold Hardware.Connected Hardware.function at h ⊢
  rw [hfunction]
  exact h

/-! ## The levels of the pins -/

/-- The place of a register. -/
theorem Addr.toUsize_sub (board : Board) (addr : Addr) :
    addr.toUsize board - board.base = addr.offset :=
  Nat.add_sub_cancel _ _

/-- A load of a register that sets or clears pins finds nothing of use. -/
theorem load_outputRegister (pinNumber : ℕ) (mode : Output) (hw : Hardware) :
    hw.load timing board ((outputRegister pinNumber mode).toUsize board) =
      (timing.readback (hw.elapse timing).time, hw.elapse timing) := by
  simp only [Hardware.load, Addr.toUsize_sub]
  unfold outputRegister
  split <;> cases mode <;> rfl

/-- The levels after a store to a register that sets or clears pins. -/
def outputsAfter (pinNumber : ℕ) (mode : Output) (value : BitVec 32) (outputs : BitVec 64) :
    BitVec 64 :=
  let pins := if pinNumber ≤ 31 then value.setWidth 64 else value.setWidth 64 <<< 32
  match mode with
  | .set => outputs ||| pins
  | .clear => outputs &&& ~~~pins

/-- A store to a register that sets or clears pins. -/
theorem store_outputRegister (pinNumber : ℕ) (mode : Output) (value : BitVec 32)
    (hw : Hardware) :
    hw.store timing board ((outputRegister pinNumber mode).toUsize board) value =
      { hw.elapse timing with
        outputs := outputsAfter pinNumber mode value (hw.elapse timing).outputs } := by
  simp only [Hardware.store, Addr.toUsize_sub]
  unfold outputRegister outputsAfter
  split <;> cases mode <;> rfl

/-- A store with the bit of a pin sets the level of the pin. -/
theorem getLsbD_outputsAfter {pinNumber : ℕ} (hpin : pinNumber < 64) (mode : Output)
    {value : BitVec 32} (hbit : value.getLsbD (pinNumber % 32) = true) (outputs : BitVec 64) :
    (outputsAfter pinNumber mode value outputs).getLsbD pinNumber = decide (mode = .set) := by
  have hpins : (if pinNumber ≤ 31 then value.setWidth 64
      else value.setWidth 64 <<< 32).getLsbD pinNumber = true := by
    by_cases hle : pinNumber ≤ 31
    · rw [Nat.mod_eq_of_lt (by omega)] at hbit
      rw [if_pos hle, BitVec.getLsbD_setWidth, hbit]
      simpa using hpin
    · have hmod : pinNumber % 32 = pinNumber - 32 := by omega
      rw [hmod] at hbit
      have hlow : pinNumber - 32 < 64 := by omega
      have hnot : ¬pinNumber < 32 := by omega
      rw [if_neg hle, BitVec.getLsbD_shiftLeft, BitVec.getLsbD_setWidth, hbit]
      simp [hpin, hlow, hnot]
  unfold outputsAfter
  cases mode with
  | set =>
    rw [BitVec.getLsbD_or, hpins, Bool.or_true]
    rfl
  | clear =>
    rw [BitVec.getLsbD_and, BitVec.getLsbD_not, hpins]
    simp

/-- `write_output_pin` sets the level of its pin, whatever the load of the register returned. -/
theorem writeOutputPin_eq (pin : Pin) (mode : Output) (hw : Hardware) :
    ∃ outputs, writeOutputPin timing board pin mode hw =
        { (hw.elapse timing).elapse timing with outputs } ∧
      outputs.getLsbD (pin.number board) = decide (mode = .set) := by
  have hlt := pin.number_lt board
  rw [writeOutputPin, load_outputRegister]
  simp only [store_outputRegister]
  refine ⟨_, rfl, getLsbD_outputsAfter (by omega) mode ?_ _⟩
  have hmod : pin.number board % 32 < 32 := Nat.mod_lt _ (by decide)
  rw [BitVec.getLsbD_or, BitVec.getLsbD_shiftLeft]
  simp [hmod]

end Axel.Peripheral
