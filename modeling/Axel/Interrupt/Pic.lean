import Mathlib.Logic.Basic

/-!
# The interrupt controllers

`arch::x86_64::interrupt::pic::init` programs the two 8259 interrupt controllers of the
machine with a fixed series of port writes. A controller is a state machine: a command with
the initialisation bit makes it take the data writes that follow as ICW2, ICW3 and, if the
command asked for it, ICW4; any other data write sets the interrupt mask. The series reaches
both controllers, and what a controller makes of a write depends on the writes before it.
-/

namespace Axel.Pic

/-- `MASTER_COMMAND_PORT`. -/
def masterCommandPort : UInt16 := 0x20

/-- `MASTER_DATA_PORT`. -/
def masterDataPort : UInt16 := 0x21

/-- `SLAVE_COMMAND_PORT`. -/
def slaveCommandPort : UInt16 := 0xA0

/-- `SLAVE_DATA_PORT`. -/
def slaveDataPort : UInt16 := 0xA1

/-- `IRQ_OFFSET_MASTER`. -/
def irqOffsetMaster : UInt8 := 0x20

/-- `IRQ_OFFSET_SLAVE`. -/
def irqOffsetSlave : UInt8 := irqOffsetMaster + 8

/-- `ICW1_INIT`. -/
def icw1Init : UInt8 := 0x10

/-- `ICW1_ICW4_REQUIRED`. -/
def icw1Icw4Required : UInt8 := 0x01

/-- `ICW4_8086_MODE`. -/
def icw4Mode8086 : UInt8 := 0x01

/-- A write of one byte to a port. -/
structure PortWrite where
  /-- The port. -/
  port : UInt16
  /-- The byte. -/
  value : UInt8
  deriving DecidableEq

/-- `io_wait`: a write to a port that no controller listens to. -/
def ioWait : PortWrite := ⟨0x80, 0⟩

/-- `init`, the port writes in the order of the source. -/
def init : List PortWrite := [
    -- 1. Send initialize command
    ⟨masterCommandPort, icw1Init ||| icw1Icw4Required⟩, ioWait,
    ⟨masterCommandPort, icw1Init ||| icw1Icw4Required⟩, ioWait,
    -- 2. Send vector offset
    ⟨masterDataPort, irqOffsetMaster⟩, ioWait,
    ⟨slaveDataPort, irqOffsetSlave⟩, ioWait,
    -- 3. Send how it is wired to master/slaves
    ⟨masterDataPort, 4⟩, ioWait,
    ⟨slaveDataPort, 2⟩, ioWait,
    -- 4. Gives additional information about the environment.
    ⟨masterDataPort, icw4Mode8086⟩, ioWait,
    ⟨slaveDataPort, icw4Mode8086⟩, ioWait,
    -- Disable all interrupts.
    ⟨masterDataPort, 0b11111111⟩,
    ⟨slaveDataPort, 0b11111111⟩]

/-! ## The 8259 -/

/-- What a controller takes the next data write as. -/
inductive Phase where
  /-- The interrupt mask: no initialisation is going on. -/
  | operation
  /-- ICW2, the vector base; the flag says whether an ICW4 follows later. -/
  | icw2 (icw4Required : Bool)
  /-- ICW3, the wiring; the flag says whether an ICW4 follows. -/
  | icw3 (icw4Required : Bool)
  /-- ICW4, the mode. -/
  | icw4
  deriving DecidableEq

/-- The state of an 8259. -/
structure Controller where
  /-- How far an initialisation has come. -/
  phase : Phase
  /-- The last initialisation that was begun has been completed. -/
  initialised : Bool
  /-- The vector of its first interrupt. -/
  vectorBase : UInt8
  /-- How it is wired to the other controller. -/
  wiring : UInt8
  /-- It delivers vectors the way the 8086 takes them. -/
  mode8086 : Bool
  /-- The interrupts it holds back. -/
  mask : UInt8
  deriving DecidableEq

namespace Controller

/-- A write to the command port. Commands without the initialisation bit, such as the end of
an interrupt, leave the configuration as it is. -/
def command (self : Controller) (value : UInt8) : Controller :=
  if value &&& icw1Init ≠ 0 then
    { self with
      phase := .icw2 (value &&& icw1Icw4Required ≠ 0)
      initialised := false
      mask := 0 }
  else
    self

/-- A write to the data port. An initialisation without ICW4 leaves the 8086 mode off. -/
def data (self : Controller) (value : UInt8) : Controller :=
  match self.phase with
  | .operation => { self with mask := value }
  | .icw2 icw4Required => { self with phase := .icw3 icw4Required, vectorBase := value }
  | .icw3 true => { self with phase := .icw4, wiring := value }
  | .icw3 false =>
    { self with phase := .operation, initialised := true, wiring := value, mode8086 := false }
  | .icw4 =>
    { self with
      phase := .operation
      initialised := true
      mode8086 := value &&& icw4Mode8086 ≠ 0 }

/-- A controller that listens to two ports of the machine takes a port write. -/
def out (commandPort dataPort : UInt16) (self : Controller) (write : PortWrite) : Controller :=
  if write.port = commandPort then
    self.command write.value
  else if write.port = dataPort then
    self.data write.value
  else
    self

/-- The initialisation is complete with the given vectors and wiring, in 8086 mode, and every
interrupt is masked. -/
structure Configured (pic : Controller) (vectorBase wiring : UInt8) : Prop where
  /-- The next data write sets the mask. -/
  operation : pic.phase = .operation
  /-- The initialisation has been completed. -/
  initialised : pic.initialised = true
  /-- The vector base. -/
  vectorBase_eq : pic.vectorBase = vectorBase
  /-- The wiring. -/
  wiring_eq : pic.wiring = wiring
  /-- The 8086 mode is on. -/
  mode8086 : pic.mode8086 = true
  /-- The mask holds every interrupt back. -/
  mask_eq : pic.mask = 0xFF

/-- A command with the initialisation bit and the ICW4 bit makes the controller wait for
ICW2, whatever it was doing before. -/
theorem command_init (self : Controller) :
    self.command (icw1Init ||| icw1Icw4Required) =
      { self with phase := .icw2 true, initialised := false, mask := 0 } := rfl

/-- A controller that waits for ICW2 and expects an ICW4 takes the four data writes of an
initialisation as they are meant. -/
theorem configured_of_icw2 {self : Controller} (hphase : self.phase = .icw2 true)
    (vectorBase wiring : UInt8) :
    ((((self.data vectorBase).data wiring).data icw4Mode8086).data 0xFF).Configured
      vectorBase wiring := by
  have hbase : (self.data vectorBase) = { self with phase := .icw3 true, vectorBase } := by
    simp only [data, hphase]
  rw [hbase]
  exact ⟨rfl, rfl, rfl, rfl, rfl, rfl⟩

end Controller

/-! ## Both controllers -/

/-- The two controllers of the machine. -/
structure Chipset where
  /-- The controller that is wired to the processor. -/
  master : Controller
  /-- The controller that is wired to the master. -/
  slave : Controller
  deriving DecidableEq

namespace Chipset

/-- A port write reaches both controllers, and each acts on its own ports. -/
def out (self : Chipset) (write : PortWrite) : Chipset where
  master := self.master.out masterCommandPort masterDataPort write
  slave := self.slave.out slaveCommandPort slaveDataPort write

/-- A series of port writes. -/
def run (self : Chipset) (writes : List PortWrite) : Chipset := writes.foldl out self

/-- The master runs on its own: no write to the slave matters to it. -/
theorem run_master (writes : List PortWrite) (self : Chipset) :
    (self.run writes).master =
      writes.foldl (Controller.out masterCommandPort masterDataPort) self.master := by
  induction writes generalizing self with
  | nil => rfl
  | cons write writes ih => exact ih (self.out write)

/-- The slave runs on its own: no write to the master matters to it. -/
theorem run_slave (writes : List PortWrite) (self : Chipset) :
    (self.run writes).slave =
      writes.foldl (Controller.out slaveCommandPort slaveDataPort) self.slave := by
  induction writes generalizing self with
  | nil => rfl
  | cons write writes ih => exact ih (self.out write)

/-- Both controllers are configured as the kernel uses them: the master delivers its vectors
from `0x20` and has the slave at its third line, the slave delivers from `0x28`. -/
structure Configured (chipset : Chipset) : Prop where
  /-- The master. -/
  master : chipset.master.Configured 0x20 4
  /-- The slave. -/
  slave : chipset.slave.Configured 0x28 2

/-- The state the master is left in: both commands reach it, and the second starts the
initialisation again. -/
theorem run_init_master (self : Chipset) :
    (self.run init).master =
      (((((self.master.command (icw1Init ||| icw1Icw4Required)).command
        (icw1Init ||| icw1Icw4Required)).data 0x20).data 4).data icw4Mode8086).data 0xFF :=
  run_master init self

/-- The state the slave is left in: it is sent the four data writes and no command. -/
theorem run_init_slave (self : Chipset) :
    (self.run init).slave =
      (((self.slave.data 0x28).data 2).data icw4Mode8086).data 0xFF :=
  run_slave init self

/-- After `init` the master is configured, whatever state both controllers were in. -/
theorem run_init_master_configured (self : Chipset) :
    (self.run init).master.Configured 0x20 4 := by
  rw [run_init_master]
  apply Controller.configured_of_icw2
  rw [Controller.command_init]

end Chipset

/-- The data writes of `init` leave a controller configured exactly if it waits for ICW2 and
expects an ICW4, or if it takes them all as masks and had the configuration before. -/
theorem Controller.data_configured_iff (self : Controller) :
    ((((self.data 0x28).data 2).data icw4Mode8086).data 0xFF).Configured 0x28 2 ↔
      self.phase = .icw2 true ∨
        (self.phase = .operation ∧ self.initialised = true ∧ self.vectorBase = 0x28 ∧
          self.wiring = 2 ∧ self.mode8086 = true) := by
  obtain ⟨phase, initialised, vectorBase, wiring, mode8086, mask⟩ := self
  cases phase with
  | operation =>
    constructor
    · intro hconf
      exact .inr ⟨rfl, hconf.initialised, hconf.vectorBase_eq, hconf.wiring_eq, hconf.mode8086⟩
    · rintro (hphase | ⟨-, hinit, hbase, hwiring, hmode⟩)
      · cases hphase
      · exact ⟨rfl, hinit, hbase, hwiring, hmode, rfl⟩
  | icw2 icw4Required =>
    cases icw4Required with
    | true => exact iff_of_true (configured_of_icw2 rfl _ _) (.inl rfl)
    | false =>
      -- Without ICW4 the third write is a mask already, and the mode stays off.
      refine iff_of_false (fun hconf => ?_) (by simp)
      exact Bool.false_ne_true hconf.mode8086
  | icw3 icw4Required =>
    -- The vector base is taken for the wiring, so the mode is read off the wiring or not set.
    refine iff_of_false (fun hconf => ?_) (by simp)
    cases icw4Required with
    | true => exact Bool.false_ne_true hconf.mode8086
    | false => exact Bool.false_ne_true hconf.mode8086
  | icw4 =>
    -- The vector base is taken for the mode, and its lowest bit is clear.
    refine iff_of_false (fun hconf => ?_) (by simp)
    exact Bool.false_ne_true hconf.mode8086

/-- `init` configures both controllers exactly if the slave happens to be in the middle of an
initialisation, before its ICW2 and with an ICW4 to come, or to be configured already. The
command that should start the initialisation of the slave is sent to the master. -/
theorem Chipset.run_init_configured_iff (self : Chipset) :
    (self.run init).Configured ↔
      self.slave.phase = .icw2 true ∨
        (self.slave.phase = .operation ∧ self.slave.initialised = true ∧
          self.slave.vectorBase = 0x28 ∧ self.slave.wiring = 2 ∧
          self.slave.mode8086 = true) := by
  rw [← Controller.data_configured_iff, ← run_init_slave]
  exact ⟨Configured.slave, fun hslave => ⟨self.run_init_master_configured, hslave⟩⟩

/-- A controller as it is after power-on, before any command. -/
def Controller.powerOn : Controller where
  phase := .operation
  initialised := false
  vectorBase := 0
  wiring := 0
  mode8086 := false
  mask := 0

/-- From power-on the slave is not initialised: it takes every data write for a mask. -/
theorem Chipset.not_run_init_configured :
    ¬ ∀ chipset : Chipset, (chipset.run init).Configured := by
  intro hall
  have hslave := (hall ⟨.powerOn, .powerOn⟩).slave
  rw [run_init_slave] at hslave
  exact Bool.false_ne_true hslave.initialised

end Axel.Pic
