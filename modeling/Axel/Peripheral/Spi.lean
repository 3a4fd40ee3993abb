import Axel.Peripheral.Gpio

/-!
# The serial bus

`spi_transfer` sends one byte to the display by polling the status of the controller, and
`write_command` and `write_data` set the data pin of the display first, which tells the two kinds of
bytes apart. The controller works at its own speed: between any two accesses it may shift a byte or
not. Whatever its speed, the display receives every byte once, in order, and with the level of the
data pin that belongs to it.
-/

namespace Axel.Peripheral

/-! ## The code -/

/-- The macro `bitmask`. -/
def bitmask (currentValue clobberedMask value : BitVec 32) : BitVec 32 :=
  (currentValue &&& ~~~clobberedMask) ||| (value &&& clobberedMask)

/-- `0b1011 << 4`: the bits that clear both queues, and the one that makes a transfer active. -/
def activate : BitVec 32 := (0b1011 : BitVec 32) <<< 4

/-- `1 << 7`: the bit that makes a transfer active. -/
def transferActive : BitVec 32 := (1 : BitVec 32) <<< 7

/-- Load the status until a bit of it is set: the state after that load, or nothing if that takes
more than `fuel` loads. -/
def poll (timing : Timing) (board : Board) (bit : ℕ) : ℕ → Hardware → Option Hardware
  | 0, _ => none
  | fuel + 1, hw =>
    let (csValue, hw) := hw.load timing board (Addr.spi0RegisterCs.toUsize board)
    if csValue &&& ((1 : BitVec 32) <<< bit) ≠ 0 then some hw else poll timing board bit fuel hw

/-- `spi_transfer`, with a bound for each of its loops. -/
def spiTransfer (timing : Timing) (board : Board) (fuel : ℕ) (transValue : BitVec 8)
    (hw : Hardware) : Option (BitVec 8 × Hardware) := do
  let cs := Addr.spi0RegisterCs.toUsize board
  let fifo := Addr.spi0RegisterFifo.toUsize board
  -- Clear TX and RX FIFO and TA(transfer active) = 1.
  let (csValue, hw) := hw.load timing board cs
  let hw := hw.store timing board cs (bitmask csValue activate activate)
  -- Polling TXD.
  let hw ← poll timing board 18 fuel hw
  -- Write to FIFO
  let hw := hw.store timing board fifo (0xFF &&& transValue.setWidth 32)
  -- Read from FIFO
  let (fifoValue, hw) := hw.load timing board fifo
  let readValue := (fifoValue &&& 0xFF).setWidth 8
  -- Polling DONE
  let hw ← poll timing board 16 fuel hw
  -- Set TA = 0.
  let (csValue, hw) := hw.load timing board cs
  let hw := hw.store timing board cs (bitmask csValue transferActive 0)
  return (readValue, hw)

/-- `write_command` and `write_data`: the level of the data pin, and the byte. -/
def write (timing : Timing) (board : Board) (fuel : ℕ) (byte : Bool × BitVec 8) (hw : Hardware) :
    Option Hardware := do
  let hw := writeOutputPin timing board .ili9340Dc (if byte.1 then .set else .clear) hw
  let (_, hw) ← spiTransfer timing board fuel byte.2 hw
  return hw

/-- A series of calls of `write_command` and `write_data`. -/
def writes (timing : Timing) (board : Board) (fuel : ℕ) (bytes : List (Bool × BitVec 8))
    (hw : Hardware) : Option Hardware :=
  bytes.foldlM (fun hw byte => write timing board fuel byte hw) hw

/-- What `ili9340::init` does before its first command. -/
def startBus (timing : Timing) (board : Board) (hw : Hardware) : Hardware :=
  let hw := setPinFunction timing board .spi0Ce0N .alternate0 hw
  let hw := setPinFunction timing board .spi0Mosi .alternate0 hw
  let hw := setPinFunction timing board .spi0Sclk .alternate0 hw
  let hw := setPinFunction timing board .ili9340Dc .output hw
  let hw := hw.store timing board (Addr.spi0RegisterCs.toUsize board) 0x30
  hw.store timing board (Addr.spi0RegisterClk.toUsize board) 4

/-! ## The state of the bus -/

/-- The controller shifts a byte within any `fuel` accesses. -/
def Prompt (timing : Timing) (fuel : ℕ) : Prop := ∀ t, ∃ i < fuel, 0 < timing.shifts (t + i)

variable {timing : Timing} {board : Board} {hw hw' : Hardware} {fuel : ℕ}

/-- The display is wired to the serial bus: its pins have their functions, and it is selected. -/
structure Wired (hw : Hardware) : Prop where
  /-- The functions of the pins. -/
  connected : hw.Connected
  /-- The display is selected. -/
  selected : hw.Selected

/-- Between two transfers: nothing is to be sent, and the display has received some bytes. -/
structure Idle (received : List (Bool × BitVec 8)) (hw : Hardware) : Prop where
  /-- The display is wired to the bus. -/
  wired : Wired hw
  /-- There is no byte to send. -/
  tx_eq : hw.tx = []
  /-- What the display has received. -/
  received_eq : hw.received = received

/-- A transfer is active, and the queues are empty. -/
structure Ready (received : List (Bool × BitVec 8)) (level : Bool) (hw : Hardware) : Prop
    extends Idle received hw where
  /-- The transfer is active. -/
  active : hw.control.getLsbD 7 = true
  /-- No byte has come in. -/
  rx_eq : hw.rx = []
  /-- The level of the data pin of the display. -/
  level_eq : hw.outputs.getLsbD 25 = level

/-- A byte was handed to the controller. It may have been sent, or it may not. -/
structure Sending (received : List (Bool × BitVec 8)) (level : Bool) (byte : BitVec 8)
    (hw : Hardware) : Prop where
  /-- The display is wired to the bus. -/
  wired : Wired hw
  /-- The transfer is active. -/
  active : hw.control.getLsbD 7 = true
  /-- The level of the data pin of the display. -/
  level_eq : hw.outputs.getLsbD 25 = level
  /-- The byte is to be sent, or the display has received it. -/
  sent : (hw.tx = [byte] ∧ hw.rx.length < 64 ∧ hw.received = received) ∨
    (hw.tx = [] ∧ hw.received = received ++ [(level, byte)])

/-- The wires depend on the configuration only. -/
theorem Wired.of_sameConfig (h : Wired hw) (hsame : SameConfig hw hw') : Wired hw' := by
  refine ⟨h.connected.of_functionSelect hsame.functionSelect, ?_⟩
  rw [Hardware.Selected, hsame.control]
  exact h.selected

/-- Nothing happens on an idle bus. -/
theorem Idle.elapse {received : List (Bool × BitVec 8)} (h : Idle received hw)
    (timing : Timing) : Idle received (hw.elapse timing) := by
  rw [elapse_of_tx_nil h.tx_eq]
  exact ⟨⟨h.wired.connected, h.wired.selected⟩, h.tx_eq, h.received_eq⟩

/-- Nothing happens while the controller waits for a byte. -/
theorem Ready.elapse {received : List (Bool × BitVec 8)} {level : Bool}
    (h : Ready received level hw) (timing : Timing) :
    Ready received level (hw.elapse timing) := by
  have hidle := h.toIdle.elapse timing
  rw [elapse_of_tx_nil h.tx_eq] at hidle ⊢
  exact ⟨hidle, h.active, h.rx_eq, h.level_eq⟩

/-- A byte that is to be sent stays one, or the display receives it. -/
theorem Sending.shift {received : List (Bool × BitVec 8)} {level : Bool} {byte : BitVec 8}
    (h : Sending received level byte hw) (miso : BitVec 8) :
    Sending received level byte (hw.shift miso) ∧ (hw.shift miso).tx = [] := by
  have hsame := sameConfig_shift miso hw
  obtain ⟨hwired, hactive, hlevel, ⟨htx, hrx, hreceived⟩ | ⟨htx, hreceived⟩⟩ := h
  · have hshift : hw.shift miso = { hw with
        tx := []
        rx := hw.rx ++ [miso]
        received := received ++ [(level, byte)] } := by
      simp only [Hardware.shift, htx]
      rw [if_pos ⟨hactive, hrx⟩, if_pos ⟨hwired.connected, hwired.selected⟩, hreceived, hlevel]
    refine ⟨⟨hwired.of_sameConfig hsame, ?_, ?_, .inr ⟨?_, ?_⟩⟩, ?_⟩ <;> rw [hshift]
    · exact hactive
    · exact hlevel
  · have hshift : hw.shift miso = hw := by
      rw [Hardware.shift, htx]
    rw [hshift]
    exact ⟨⟨hwired, hactive, hlevel, .inr ⟨htx, hreceived⟩⟩, htx⟩

/-- The display receives a byte at the next access if the controller works until then. -/
theorem Sending.elapse {received : List (Bool × BitVec 8)} {level : Bool} {byte : BitVec 8}
    (h : Sending received level byte hw) (timing : Timing) :
    Sending received level byte (hw.elapse timing) ∧
      (0 < timing.shifts hw.time → (hw.elapse timing).tx = []) := by
  have hshifts (n : ℕ) (miso : BitVec 8) :
      Sending received level byte ((Hardware.shift miso)^[n] hw) ∧
        (0 < n → ((Hardware.shift miso)^[n] hw).tx = []) := by
    induction n with
    | zero => exact ⟨h, fun hpos => absurd hpos (Nat.lt_irrefl 0)⟩
    | succ n ih =>
      rw [Function.iterate_succ_apply']
      obtain ⟨hsending, htx⟩ := ih.1.shift miso
      exact ⟨hsending, fun _ => htx⟩
  obtain ⟨hsending, htx⟩ := hshifts (timing.shifts hw.time) (timing.miso hw.time)
  exact ⟨⟨⟨hsending.wired.connected, hsending.wired.selected⟩, hsending.active, hsending.level_eq,
    hsending.sent⟩, htx⟩

/-! ## Accesses to the controller -/

/-- A load of the status. -/
theorem load_cs (hw : Hardware) :
    hw.load timing board (Addr.spi0RegisterCs.toUsize board) =
      ((hw.elapse timing).status, hw.elapse timing) := by
  simp only [Hardware.load, Addr.toUsize_sub]
  rfl

/-- A store to the control register. -/
theorem store_cs (value : BitVec 32) (hw : Hardware) :
    hw.store timing board (Addr.spi0RegisterCs.toUsize board) value =
      { hw.elapse timing with
        control := value &&& configMask
        tx := if value.getLsbD 4 then [] else (hw.elapse timing).tx
        rx := if value.getLsbD 5 then [] else (hw.elapse timing).rx } := by
  simp only [Hardware.store, Addr.toUsize_sub]
  rfl

/-- A store to the clock divider. -/
theorem store_clk (value : BitVec 32) (hw : Hardware) :
    hw.store timing board (Addr.spi0RegisterClk.toUsize board) value =
      { hw.elapse timing with clock := value } := by
  simp only [Hardware.store, Addr.toUsize_sub]
  rfl

/-- A load from the queue of received bytes takes at most a byte off the queue. -/
theorem load_fifo (hw : Hardware) :
    ∃ value, hw.load timing board (Addr.spi0RegisterFifo.toUsize board) =
      (value, { hw.elapse timing with rx := (hw.elapse timing).rx.tail }) := by
  simp only [Hardware.load, Addr.toUsize_sub]
  exact ⟨_, rfl⟩

/-- A store to the queue of bytes to send, while a transfer is active. -/
theorem store_fifo (value : BitVec 32) (hw : Hardware) :
    hw.store timing board (Addr.spi0RegisterFifo.toUsize board) value =
      if (hw.elapse timing).control.getLsbD 7 ∧ (hw.elapse timing).tx.length < 64 then
        { hw.elapse timing with tx := (hw.elapse timing).tx ++ [value.setWidth 8] }
      else hw.elapse timing := by
  simp only [Hardware.store, Addr.toUsize_sub]
  rfl

/-- A bit of the status is where it belongs. -/
theorem getLsbD_statusBit (p : Prop) [Decidable p] {bit i : ℕ} (hbit : bit < 32) :
    (statusBit p bit).getLsbD i = (decide p && decide (i = bit)) := by
  unfold statusBit
  split
  case isTrue h =>
    rw [decide_eq_true h, Bool.true_and, BitVec.getLsbD_shiftLeft]
    by_cases hi : i = bit
    · simp [hi, hbit]
    · rw [decide_eq_false hi]
      simp
      omega
  case isFalse h =>
    rw [decide_eq_false h, Bool.false_and]
    exact BitVec.getLsbD_zero

/-- The bits of the configuration can be read in the status. -/
theorem getLsbD_status {i : ℕ} (hi : configMask.getLsbD i = true) (hw : Hardware) :
    hw.status.getLsbD i = hw.control.getLsbD i := by
  have hne {bit : ℕ} (hbit : configMask.getLsbD bit = false) : i ≠ bit := by
    rintro rfl
    rw [hbit] at hi
    cases hi
  have h16 : i ≠ 16 := hne (by decide)
  have h17 : i ≠ 17 := hne (by decide)
  have h18 : i ≠ 18 := hne (by decide)
  rw [Hardware.status, BitVec.getLsbD_or, BitVec.getLsbD_or, BitVec.getLsbD_or, BitVec.getLsbD_and,
    hi, getLsbD_statusBit _ (by decide), getLsbD_statusBit _ (by decide),
    getLsbD_statusBit _ (by decide)]
  simp [h16, h17, h18]

/-- The status says when the transfer is done. -/
theorem getLsbD_status_done (hw : Hardware) :
    hw.status.getLsbD 16 = decide (hw.control.getLsbD 7 = true ∧ hw.tx = []) := by
  have hmask : configMask.getLsbD 16 = false := by decide
  rw [Hardware.status, BitVec.getLsbD_or, BitVec.getLsbD_or, BitVec.getLsbD_or, BitVec.getLsbD_and,
    hmask, getLsbD_statusBit _ (by decide), getLsbD_statusBit _ (by decide),
    getLsbD_statusBit _ (by decide)]
  simp

/-- A bit of the configuration after it was written through a mask. -/
theorem getLsbD_bitmask {i : ℕ} (hi : configMask.getLsbD i = true)
    (csValue mask value : BitVec 32) :
    (bitmask csValue mask value &&& configMask).getLsbD i =
      if mask.getLsbD i then value.getLsbD i else csValue.getLsbD i := by
  rw [BitVec.getLsbD_and, hi, Bool.and_true]
  exact BitField.getLsbD_update i

/-- A test of one bit. -/
theorem and_shiftLeft_ne_zero {v : BitVec 32} {bit : ℕ} (hbit : bit < 32) :
    v &&& ((1 : BitVec 32) <<< bit) ≠ 0 ↔ v.getLsbD bit = true := by
  have hone (i : ℕ) : ((1 : BitVec 32) <<< bit).getLsbD i = decide (i = bit) := by
    have h := getLsbD_statusBit True (i := i) hbit
    rwa [statusBit, if_pos trivial, decide_true, Bool.true_and] at h
  constructor
  · intro hne
    by_contra hfalse
    refine hne (BitVec.eq_of_getLsbD_eq fun i _ => ?_)
    rw [BitVec.getLsbD_and, hone]
    by_cases hi : i = bit
    · rw [hi, Bool.eq_false_iff.mpr hfalse]
      exact BitVec.getLsbD_zero.symm
    · rw [decide_eq_false hi, Bool.and_false]
      exact BitVec.getLsbD_zero.symm
  · intro htrue hzero
    have h := congrArg (BitVec.getLsbD · bit) hzero
    simp only [BitVec.getLsbD_and, hone, htrue, decide_true, Bool.and_self] at h
    exact absurd h.symm (by simp)

/-! ## A transfer -/

/-- A poll goes on until its bit is set. -/
theorem poll_succ {bit : ℕ} (hbit : bit < 32) (hw : Hardware) :
    poll timing board bit (fuel + 1) hw =
      if (hw.elapse timing).status.getLsbD bit = true then some (hw.elapse timing)
      else poll timing board bit fuel (hw.elapse timing) := by
  rw [poll, load_cs]
  simp only [and_shiftLeft_ne_zero hbit]

/-- Writing back the status through a mask that leaves the two lowest bits alone keeps the display
wired. -/
theorem Wired.store_cs {mask : BitVec 32} (h : Wired hw) (h0 : mask.getLsbD 0 = false)
    (h1 : mask.getLsbD 1 = false) (value : BitVec 32) :
    Wired (hw.store timing board (Addr.spi0RegisterCs.toUsize board)
      (bitmask hw.status mask value)) := by
  have hwired := h.of_sameConfig (sameConfig_elapse timing hw)
  rw [Peripheral.store_cs]
  refine ⟨hwired.connected, ?_, ?_⟩
  · show (bitmask hw.status mask value &&& configMask).getLsbD 0 = false
    rw [getLsbD_bitmask (by decide), h0, if_neg Bool.false_ne_true, getLsbD_status (by decide)]
    exact h.selected.1
  · show (bitmask hw.status mask value &&& configMask).getLsbD 1 = false
    rw [getLsbD_bitmask (by decide), h1, if_neg Bool.false_ne_true, getLsbD_status (by decide)]
    exact h.selected.2

/-- The first store of a transfer activates it and clears the queues. -/
theorem Idle.activate {received : List (Bool × BitVec 8)} (h : Idle received hw) :
    Ready received (hw.outputs.getLsbD 25) (hw.store timing board
      (Addr.spi0RegisterCs.toUsize board)
      (bitmask hw.status Peripheral.activate Peripheral.activate)) := by
  have hset {i : ℕ} (hi : Peripheral.activate.getLsbD i = true) :
      (bitmask hw.status Peripheral.activate Peripheral.activate).getLsbD i = true :=
    (BitField.getLsbD_update i).trans (by rw [hi]; rfl)
  have hwired : Wired (hw.store timing board (Addr.spi0RegisterCs.toUsize board)
      (bitmask hw.status Peripheral.activate Peripheral.activate)) :=
    h.wired.store_cs (by decide) (by decide) Peripheral.activate
  have hactive : (bitmask hw.status Peripheral.activate Peripheral.activate &&&
      configMask).getLsbD 7 = true := by
    rw [getLsbD_bitmask (by decide), if_pos (by decide)]
    decide
  rw [store_cs, hset (by decide), hset (by decide)] at hwired ⊢
  have helapse := h.elapse timing
  exact ⟨⟨hwired, rfl, helapse.received_eq⟩, hactive, rfl,
    congrArg (BitVec.getLsbD · 25) (sameConfig_elapse timing hw).outputs⟩

/-- The controller has room for a byte at once. -/
theorem Ready.poll {received : List (Bool × BitVec 8)} {level : Bool}
    (h : Ready received level hw) (fuel : ℕ) :
    poll timing board 18 (fuel + 1) hw = some (hw.elapse timing) := by
  have htx : (hw.elapse timing).tx.length < 64 := by
    rw [(h.elapse timing).tx_eq]
    decide
  have hroom : (hw.elapse timing).status.getLsbD 18 = true := by
    rw [Hardware.status, BitVec.getLsbD_or, getLsbD_statusBit _ (by decide), decide_eq_true htx]
    simp
  rw [poll_succ (by decide), if_pos hroom]

/-- The byte is handed to the controller. -/
theorem Ready.store_fifo {received : List (Bool × BitVec 8)} {level : Bool}
    (h : Ready received level hw) (timing : Timing) (board : Board) (byte : BitVec 8) :
    Sending received level byte (hw.store timing board (Addr.spi0RegisterFifo.toUsize board)
      (0xFF &&& byte.setWidth 32)) := by
  have hready := h.elapse timing
  have hbyte : (0xFF &&& byte.setWidth 32).setWidth 8 = byte := by
    have hmask : (0xFF : BitVec 32) = (BitVec.allOnes 8).setWidth 32 := by decide
    rw [BitVec.and_comm, hmask, BitField.setWidth_and_allOnes _ (by decide)]
    simp
  rw [Peripheral.store_fifo, if_pos ⟨hready.active, by rw [hready.tx_eq]; decide⟩, hready.tx_eq,
    hbyte]
  refine ⟨⟨hready.wired.connected, hready.wired.selected⟩, hready.active, hready.level_eq,
    .inl ⟨rfl, ?_, hready.received_eq⟩⟩
  show (hw.elapse timing).rx.length < 64
  rw [hready.rx_eq]
  decide

/-- Reading a byte does not disturb the one that is sent. -/
theorem Sending.load_fifo {received : List (Bool × BitVec 8)} {level : Bool} {byte : BitVec 8}
    (h : Sending received level byte hw) (timing : Timing) (board : Board) :
    Sending received level byte
      (hw.load timing board (Addr.spi0RegisterFifo.toUsize board)).2 := by
  obtain ⟨value, hload⟩ :
      ∃ value, hw.load timing board (Addr.spi0RegisterFifo.toUsize board) =
        (value, { hw.elapse timing with rx := (hw.elapse timing).rx.tail }) :=
    Peripheral.load_fifo hw
  obtain ⟨hwired, hactive, hlevel, hsent⟩ := (h.elapse timing).1
  rw [hload]
  refine ⟨⟨hwired.connected, hwired.selected⟩, hactive, hlevel, ?_⟩
  obtain ⟨htx, hrx, hreceived⟩ | hsent := hsent
  · refine .inl ⟨htx, ?_, hreceived⟩
    show (hw.elapse timing).rx.tail.length < 64
    rw [List.length_tail]
    omega
  · exact .inr hsent

/-- When there is nothing left to send, the display has received the byte. -/
theorem Sending.idle {received : List (Bool × BitVec 8)} {level : Bool} {byte : BitVec 8}
    (h : Sending received level byte hw) (htx : hw.tx = []) :
    Idle (received ++ [(level, byte)]) hw := by
  obtain ⟨hwired, -, -, ⟨hbyte, -, -⟩ | ⟨-, hreceived⟩⟩ := h
  · rw [htx] at hbyte
    cases hbyte
  · exact ⟨hwired, htx, hreceived⟩

/-- When the poll for the end of the transfer ends, the display has received the byte. -/
theorem Sending.poll_idle {received : List (Bool × BitVec 8)} {level : Bool} {byte : BitVec 8}
    (h : Sending received level byte hw) (hpoll : poll timing board 16 fuel hw = some hw') :
    Idle (received ++ [(level, byte)]) hw' := by
  induction fuel generalizing hw with
  | zero => cases hpoll
  | succ fuel ih =>
    have helapse := (h.elapse timing).1
    rw [poll_succ (by decide), getLsbD_status_done] at hpoll
    split at hpoll
    case isTrue hdone =>
      obtain rfl := Option.some.inj hpoll
      exact helapse.idle (of_decide_eq_true hdone).2
    case isFalse => exact ih helapse hpoll

/-- The poll for the end of the transfer ends when the controller works. -/
theorem Sending.poll_returns {received : List (Bool × BitVec 8)} {level : Bool} {byte : BitVec 8}
    (h : Sending received level byte hw) (board : Board)
    (hshift : ∃ i < fuel, 0 < timing.shifts (hw.time + i)) :
    ∃ hw', poll timing board 16 fuel hw = some hw' := by
  induction fuel generalizing hw with
  | zero =>
    obtain ⟨i, hi, -⟩ := hshift
    exact absurd hi (Nat.not_lt_zero i)
  | succ fuel ih =>
    obtain ⟨helapse, htx⟩ := h.elapse timing
    rw [poll_succ (by decide), getLsbD_status_done]
    split
    case isTrue => exact ⟨_, rfl⟩
    case isFalse hdone =>
      refine ih helapse ?_
      obtain ⟨i, hi, hshifts⟩ := hshift
      cases i with
      | zero => exact absurd (decide_eq_true ⟨helapse.active, htx hshifts⟩) hdone
      | succ i =>
        have htime : (hw.elapse timing).time + i = hw.time + (i + 1) := by
          show hw.time + 1 + i = hw.time + (i + 1)
          omega
        exact ⟨i, by omega, htime ▸ hshifts⟩

/-- The last store of a transfer leaves an idle bus. -/
theorem Idle.deactivate {received : List (Bool × BitVec 8)} (h : Idle received hw) :
    Idle received (hw.store timing board (Addr.spi0RegisterCs.toUsize board)
      (bitmask hw.status transferActive 0)) := by
  have hwired : Wired (hw.store timing board (Addr.spi0RegisterCs.toUsize board)
      (bitmask hw.status transferActive 0)) := h.wired.store_cs (by decide) (by decide) 0
  have helapse := h.elapse timing
  rw [store_cs, helapse.tx_eq, ite_self] at hwired ⊢
  exact ⟨hwired, rfl, helapse.received_eq⟩

/-- The accesses of `spi_transfer`. -/
theorem spiTransfer_eq (transValue : BitVec 8) (hw : Hardware) :
    spiTransfer timing board fuel transValue hw =
      (poll timing board 18 fuel ((hw.elapse timing).store timing board
        (Addr.spi0RegisterCs.toUsize board)
        (bitmask (hw.elapse timing).status activate activate))).bind fun hw =>
      let read := (hw.store timing board (Addr.spi0RegisterFifo.toUsize board)
        (0xFF &&& transValue.setWidth 32)).load timing board (Addr.spi0RegisterFifo.toUsize board)
      (poll timing board 16 fuel read.2).bind fun hw =>
      some ((read.1 &&& 0xFF).setWidth 8, (hw.elapse timing).store timing board
        (Addr.spi0RegisterCs.toUsize board)
        (bitmask (hw.elapse timing).status transferActive 0)) := by
  rw [spiTransfer]
  simp only [load_cs]
  rfl

/-- A transfer hands its byte to the display, with the level of the data pin. -/
theorem Idle.spiTransfer {received : List (Bool × BitVec 8)} (h : Idle received hw)
    (timing : Timing) (board : Board) (fuel : ℕ) (transValue : BitVec 8) :
    (∀ value hw', spiTransfer timing board fuel transValue hw = some (value, hw') →
      Idle (received ++ [(hw.outputs.getLsbD 25, transValue)]) hw') ∧
    (Prompt timing fuel → ∃ value hw',
      spiTransfer timing board fuel transValue hw = some (value, hw')) := by
  have hready : Ready received ((hw.elapse timing).outputs.getLsbD 25)
      ((hw.elapse timing).store timing board (Addr.spi0RegisterCs.toUsize board)
        (bitmask (hw.elapse timing).status Peripheral.activate Peripheral.activate)) :=
    (h.elapse timing).activate
  rw [(sameConfig_elapse timing hw).outputs] at hready
  rw [spiTransfer_eq]
  cases fuel with
  | zero =>
    refine ⟨fun value hw' htransfer => ?_, fun hprompt => ?_⟩
    · cases htransfer
    · obtain ⟨i, hi, -⟩ := hprompt 0
      exact absurd hi (Nat.not_lt_zero i)
  | succ fuel =>
    rw [hready.poll fuel, Option.bind_some]
    have hsending := ((hready.elapse timing).store_fifo timing board transValue).load_fifo
      timing board
    constructor
    · intro value hw' htransfer
      obtain ⟨hw₁, hpoll, hresult⟩ := Option.bind_eq_some_iff.mp htransfer
      obtain ⟨-, rfl⟩ := Prod.mk.inj (Option.some.inj hresult)
      exact ((hsending.poll_idle hpoll).elapse timing).deactivate
    · intro hprompt
      obtain ⟨hw₁, hpoll⟩ := hsending.poll_returns board (hprompt _)
      exact ⟨_, _, Option.bind_eq_some_iff.mpr ⟨hw₁, hpoll, rfl⟩⟩

/-- A byte is written with the level that belongs to it. -/
theorem Idle.write {received : List (Bool × BitVec 8)} (h : Idle received hw)
    (timing : Timing) (board : Board) (fuel : ℕ) (byte : Bool × BitVec 8) :
    (∀ hw', write timing board fuel byte hw = some hw' → Idle (received ++ [byte]) hw') ∧
    (Prompt timing fuel → ∃ hw', write timing board fuel byte hw = some hw') := by
  obtain ⟨level, value⟩ := byte
  obtain ⟨outputs, hpin, hlevel⟩ : ∃ outputs,
      writeOutputPin timing board .ili9340Dc (if level then .set else .clear) hw =
        { (hw.elapse timing).elapse timing with outputs } ∧
      outputs.getLsbD 25 = decide ((if level then Output.set else .clear) = .set) :=
    writeOutputPin_eq .ili9340Dc _ hw
  have hset : outputs.getLsbD 25 = level := by
    rw [hlevel]
    cases level <;> rfl
  have helapse := (h.elapse timing).elapse timing
  have hidle : Idle received { (hw.elapse timing).elapse timing with outputs } :=
    ⟨⟨helapse.wired.connected, helapse.wired.selected⟩, helapse.tx_eq, helapse.received_eq⟩
  obtain ⟨hreceived, hreturns⟩ := hidle.spiTransfer timing board fuel value
  rw [Peripheral.write]
  simp only [hpin]
  constructor
  · intro hw' hwrite
    obtain ⟨⟨read, hw₁⟩, htransfer, hresult⟩ := Option.bind_eq_some_iff.mp hwrite
    obtain rfl := Option.some.inj hresult
    have hbyte := hreceived read hw₁ htransfer
    rwa [hset] at hbyte
  · intro hprompt
    obtain ⟨read, hw₁, htransfer⟩ := hreturns hprompt
    exact ⟨hw₁, Option.bind_eq_some_iff.mpr ⟨(read, hw₁), htransfer, rfl⟩⟩

/-- A series of bytes is received in order. -/
theorem Idle.writes {received : List (Bool × BitVec 8)} (h : Idle received hw)
    (timing : Timing) (board : Board) (fuel : ℕ) (bytes : List (Bool × BitVec 8)) :
    (∀ hw', writes timing board fuel bytes hw = some hw' → Idle (received ++ bytes) hw') ∧
    (Prompt timing fuel → ∃ hw', writes timing board fuel bytes hw = some hw') := by
  induction bytes generalizing received hw with
  | nil =>
    refine ⟨fun hw' hwrites => ?_, fun _ => ⟨hw, rfl⟩⟩
    obtain rfl := Option.some.inj hwrites
    rwa [List.append_nil]
  | cons byte bytes ih =>
    obtain ⟨hreceived, hreturns⟩ := h.write timing board fuel byte
    rw [Peripheral.writes, List.foldlM_cons]
    constructor
    · intro hw' hwrites
      obtain ⟨hw₁, hwrite, hrest⟩ := Option.bind_eq_some_iff.mp hwrites
      have hbytes := (ih (hreceived hw₁ hwrite)).1 hw' hrest
      rwa [List.append_assoc, List.singleton_append] at hbytes
    · intro hprompt
      obtain ⟨hw₁, hwrite⟩ := hreturns hprompt
      obtain ⟨hw', hrest⟩ := (ih (hreceived hw₁ hwrite)).2 hprompt
      exact ⟨hw', Option.bind_eq_some_iff.mpr ⟨hw₁, hwrite, hrest⟩⟩

/-! ## The start -/

/-- The functions of the pins of the display after the start. -/
theorem connected_setPinFunction (timing : Timing) (board : Board) (hw : Hardware) :
    (setPinFunction timing board .ili9340Dc .output
      (setPinFunction timing board .spi0Sclk .alternate0
        (setPinFunction timing board .spi0Mosi .alternate0
          (setPinFunction timing board .spi0Ce0N .alternate0 hw)))).Connected := by
  unfold Hardware.Connected
  simp only [setPinFunction_function]
  exact ⟨rfl, rfl, rfl, rfl⟩

/-- After the start the bus is idle, whatever the board did before. -/
theorem idle_startBus (timing : Timing) (board : Board) (hw : Hardware) :
    Idle (startBus timing board hw).received (startBus timing board hw) := by
  have hconnected := connected_setPinFunction timing board hw
  rw [startBus]
  generalize setPinFunction timing board .ili9340Dc .output _ = hw₁ at hconnected ⊢
  have hsame := sameConfig_elapse timing hw₁
  have hidle : Idle (hw₁.elapse timing).received
      (hw₁.store timing board (Addr.spi0RegisterCs.toUsize board) 0x30) := by
    rw [store_cs]
    refine ⟨⟨?_, ?_⟩, rfl, rfl⟩
    · exact hconnected.of_functionSelect hsame.functionSelect
    · show ((0x30 : BitVec 32) &&& configMask).getLsbD 0 = false ∧
        ((0x30 : BitVec 32) &&& configMask).getLsbD 1 = false
      decide
  have helapse := hidle.elapse timing
  rw [store_clk]
  exact ⟨⟨helapse.wired.connected, helapse.wired.selected⟩, helapse.tx_eq, rfl⟩

/-- From any state of the board, after the start, the display receives the bytes of any series of
calls of `write_command` and `write_data` once, in order, and each with the level of the data pin
that belongs to it, whenever the calls return; and they return when the controller works. -/
theorem startBus_writes (timing : Timing) (board : Board) (fuel : ℕ) (hw : Hardware)
    (bytes : List (Bool × BitVec 8)) :
    (∀ hw', writes timing board fuel bytes (startBus timing board hw) = some hw' →
      Idle ((startBus timing board hw).received ++ bytes) hw') ∧
    (Prompt timing fuel →
      ∃ hw', writes timing board fuel bytes (startBus timing board hw) = some hw') :=
  (idle_startBus timing board hw).writes timing board fuel bytes

/-- A controller that shifts at every other access. -/
example :
    let timing : Timing := ⟨fun t => t % 2, fun _ => 0xFF, fun _ => 0⟩
    let hw : Hardware := ⟨fun _ => 0, 0, 0, 0, [], [], [], 0⟩
    (writes timing .rpi2B 2 [(false, 0x2A), (true, 0x01)] (startBus timing .rpi2B hw)).map
      Hardware.received = some [(false, 0x2A), (true, 0x01)] := by
  decide +kernel

end Axel.Peripheral
