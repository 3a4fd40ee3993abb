import Axel.Interrupt.DescriptorTable
import Axel.Lib.Preemption
import Mathlib.Data.Finset.Basic
import Mathlib.Data.List.FinRange

/-!
# The timer interrupt

After `pit::init` the timer interrupts the kernel, at any moment and also while an earlier
interrupt is handled: the gates of the kernel are trap gates, which leave interrupts enabled. Only
the interrupt controller holds a tick back, until `timer_handler` has sent the end of the interrupt
before it. This file runs the handler, the controllers and the rest of `main` against each other.
The handler holds the lock of the command port when it sends the end of an interrupt, so a tick
that comes between that write and the release waits for the lock forever.
-/

namespace Axel.Interrupt

open Preemption

/-! ## The controllers at work -/

/-- `END_OF_INTERRUPT`. -/
def endOfInterrupt : UInt8 := 0x20

/-- `enable_timer_interrupt`. -/
def enableTimerInterrupt : Pic.PortWrite := ⟨Pic.masterDataPort, 0b11111110⟩

/-- The interrupt controllers with the interrupts that the master has received. -/
structure Servicing where
  /-- The configuration of both controllers. -/
  config : Pic.Chipset
  /-- The lines of the master that have requested an interrupt. -/
  requests : Finset (Fin 8)
  /-- The lines of the master whose interrupts have not ended. -/
  inService : Finset (Fin 8)
  deriving DecidableEq

namespace Servicing

/-- The line with the highest priority. -/
def highest (lines : Finset (Fin 8)) : Option (Fin 8) :=
  (List.finRange 8).find? fun line => line ∈ lines

/-- The end of an interrupt is for the line with the highest priority that is in service. -/
def finish (lines : Finset (Fin 8)) : Finset (Fin 8) :=
  match highest lines with
  | some line => lines.erase line
  | none => lines

/-- A port write. The start of an initialisation makes the master forget its interrupts. -/
def out (self : Servicing) (write : Pic.PortWrite) : Servicing :=
  let config := self.config.out write
  if write.port = Pic.masterCommandPort then
    if write.value &&& Pic.icw1Init ≠ 0 then
      { config, requests := ∅, inService := ∅ }
    else if write.value = endOfInterrupt then
      { self with config, inService := finish self.inService }
    else
      { self with config }
  else
    { self with config }

/-- A series of port writes. -/
def run (self : Servicing) (writes : List Pic.PortWrite) : Servicing := writes.foldl out self

/-- A line of the master requests an interrupt. -/
def raise (self : Servicing) (line : Fin 8) : Servicing :=
  { self with requests := insert line self.requests }

/-- The line whose interrupt the master passes on: the first one that is requested and not masked,
when no line of this or a higher priority is in service. -/
def request (self : Servicing) : Option (Fin 8) :=
  if self.config.master.phase = .operation then
    (List.finRange 8).find? fun line => decide (line ∈ self.requests) &&
      !self.config.master.mask.toNat.testBit line && decide (∀ other ∈ self.inService, line < other)
  else
    none

/-- The vector of a line. -/
def vector (self : Servicing) (line : Fin 8) : ℕ :=
  self.config.master.vectorBase.toNat / 8 * 8 + line

/-- The processor takes the interrupt of a line. -/
def acknowledge (self : Servicing) (line : Fin 8) : Servicing :=
  { self with
    requests := self.requests.erase line
    inService := insert line self.inService }

end Servicing

/-! ## The code -/

/-- The locks that the code of this file takes. -/
inductive Lock where
  /-- `GLOBAL_CONTEXT.default_output`. -/
  | defaultOutput
  /-- `PROCESS_MANAGER`. -/
  | processManager
  /-- `MASTER_COMMAND_PORT`. -/
  | masterCommandPort
  /-- `SLAVE_COMMAND_PORT`. -/
  | slaveCommandPort
  deriving DecidableEq

/-- The accesses to the devices. -/
inductive Action where
  /-- A port write. -/
  | out (write : Pic.PortWrite)
  /-- The end of a handler, with the interrupt flag that its interrupt saved. -/
  | iret (interruptFlag : Bool)
  deriving DecidableEq

/-- What is left of a routine. -/
abbrev Code := List (Op Lock Action)

/-- `println!`. -/
def println : Code := [.acquire .defaultOutput, .release .defaultOutput]

/-- `Process`; its thread has no data. -/
structure Process where

/-- `MAX_PROCESS_COUNT`. -/
def maxProcessCount : ℕ := 16

/-- `ProcessManager`. -/
structure ProcessManager where
  /-- The processes. -/
  processes : Vector (Option Process) maxProcessCount

/-- `ProcessManager::new`. No function of the kernel stores a process. -/
def ProcessManager.new : ProcessManager where
  processes := Vector.replicate maxProcessCount none

/-- `process::switch_context`, with the code of the closure. -/
def switchContext (manager : ProcessManager) (switchThread : Code) : Code :=
  [.acquire .processManager] ++
    (if manager.processes[0].isSome && manager.processes[1].isSome then switchThread else []) ++
    [.release .processManager]

/-- `send_end_of_interrupt`. -/
def sendEndOfInterrupt (irq : UInt8) : Code :=
  (if Pic.irqOffsetSlave ≤ irq then
    [.acquire .slaveCommandPort, .act (.out ⟨Pic.slaveCommandPort, endOfInterrupt⟩),
      .release .slaveCommandPort]
  else []) ++
  [.acquire .masterCommandPort, .act (.out ⟨Pic.masterCommandPort, endOfInterrupt⟩),
    .release .masterCommandPort]

/-- `timer_handler`, for a closure that `thread::switch_context` passes on. -/
def timerHandler (switchThread : Code) (interruptFlag : Bool) : Code :=
  switchContext .new switchThread ++ sendEndOfInterrupt irqNumberTimer ++
    [.act (.iret interruptFlag)]

/-- `default_handler`. -/
def defaultHandler (interruptFlag : Bool) : Code :=
  println ++ println ++ [.act (.iret interruptFlag)]

/-- `default_handler_with_error_code`. -/
def defaultHandlerWithErrorCode (interruptFlag : Bool) : Code :=
  println ++ println ++ println ++ [.act (.iret interruptFlag)]

/-- The code at the address of a handler. -/
def handlerCode (handlers : Handlers) (switchThread : Code) (addr : BitVec 64)
    (interruptFlag : Bool) : Code :=
  if addr = handlers.timerHandler then timerHandler switchThread interruptFlag
  else if addr = handlers.defaultHandlerWithErrorCode then defaultHandlerWithErrorCode interruptFlag
  else defaultHandler interruptFlag

/-- What is left of `main` when `pit::init` has enabled the interrupts. -/
def startupComplete : Code := println

/-! ## The system -/

/-- The devices and the interrupt flag of the processor. -/
structure Device where
  /-- The interrupt controllers. -/
  pic : Servicing
  /-- The interrupt flag. -/
  interruptFlag : Bool
  deriving DecidableEq

/-- An access to the devices. -/
def perform : Action → Device → Device
  | .out write, device => { device with pic := device.pic.out write }
  | .iret interruptFlag, device => { device with interruptFlag }

/-- A state of the kernel while it handles interrupts. -/
abbrev State := Config Lock Action Device

/-- The kernel with its interrupt descriptor table: `init` has filled the table, whatever lay in
memory before. -/
structure System where
  /-- The build profile. -/
  profile : Timer.Profile
  /-- The addresses of the handlers. -/
  handlers : Handlers
  /-- The code segment of the kernel. -/
  cs : BitVec 16
  /-- The closure of `thread::switch_context`. -/
  switchThread : Code
  /-- The memory of the table before `init`. -/
  memory : InterruptDescriptorTable
  /-- The table. -/
  table : InterruptDescriptorTable
  /-- `init` returned. -/
  init_eq : memory.init profile handlers cs = .ok table

/-- What happens next. -/
inductive Event where
  /-- A line of the master requests an interrupt. -/
  | raise (line : Fin 8)
  /-- The processor takes an interrupt. -/
  | accept
  /-- The running routine goes on. -/
  | exec
  deriving DecidableEq

namespace System

/-- The processor takes an interrupt: it asks the master for the vector, saves its flags and enters
the handler of the gate. A gate other than a trap gate clears the interrupt flag. -/
def accept (self : System) (s : State) : Option State :=
  if s.device.interruptFlag then
    s.device.pic.request.bind fun line =>
      (self.table.gate (s.device.pic.vector line)).map fun gate =>
        { s with
          device := {
            pic := s.device.pic.acknowledge line
            interruptFlag := s.device.interruptFlag && decide (gate.descriptorType = trapGate) }
          stack := handlerCode self.handlers self.switchThread gate.offset s.device.interruptFlag ::
            s.stack }
  else
    none

/-- One event. -/
def step (self : System) (s : State) : Event → Option State
  | .raise line => some { s with device := { s.device with pic := s.device.pic.raise line } }
  | .accept => self.accept s
  | .exec => exec perform s

/-- A series of events. -/
def run (self : System) (events : List Event) (s : State) : Option State :=
  events.foldlM self.step s

/-- The state in which `pit::init` returns, whatever state the controllers were in. -/
def start (_self : System) (pic : Servicing) : State where
  held := ∅
  device := { pic := pic.run (Pic.init ++ [enableTimerInterrupt]), interruptFlag := true }
  stack := [startupComplete]

end System

/-! ## The controllers after `pit::init` -/

/-- The master is configured and passes on the timer only. -/
structure Servicing.Operating (pic : Servicing) : Prop where
  /-- No initialisation is going on. -/
  operation : pic.config.master.phase = .operation
  /-- The vectors. -/
  vectorBase : pic.config.master.vectorBase = 0x20
  /-- The mask. -/
  mask : pic.config.master.mask = 0b11111110

namespace Servicing

/-- A series of port writes configures the controllers as it does without interrupts. -/
theorem run_config (writes : List Pic.PortWrite) (self : Servicing) :
    (self.run writes).config = self.config.run writes := by
  induction writes generalizing self with
  | nil => rfl
  | cons write writes ih =>
    have hout : (self.out write).config = self.config.out write := by
      unfold out
      split
      · split
        · rfl
        · split <;> rfl
      · rfl
    show ((self.out write).run writes).config = (self.config.out write).run writes
    rw [ih, hout]

/-- No port write puts an interrupt in service. -/
theorem run_inService (writes : List Pic.PortWrite) {self : Servicing} (h : self.inService = ∅) :
    (self.run writes).inService = ∅ := by
  induction writes generalizing self with
  | nil => exact h
  | cons write writes ih =>
    apply ih
    unfold out
    split
    · split
      · rfl
      · split
        · exact (congrArg finish h).trans rfl
        · exact h
    · exact h

/-- `pic::init` and `enable_timer_interrupt` leave the master passing on the timer, with no
interrupt in service, whatever state it was in. -/
theorem run_init (self : Servicing) :
    (self.run (Pic.init ++ [enableTimerInterrupt])).Operating ∧
      (self.run (Pic.init ++ [enableTimerInterrupt])).inService = ∅ := by
  have hconfigured := Pic.Chipset.run_init_master_configured self.config
  have hmaster : (self.run (Pic.init ++ [enableTimerInterrupt])).config.master =
      ((self.config.run Pic.init).master).data 0b11111110 := by
    rw [run_config, Pic.Chipset.run, List.foldl_append]
    rfl
  -- The first write starts an initialisation.
  have hfirst :
      (self.out ⟨Pic.masterCommandPort, Pic.icw1Init ||| Pic.icw1Icw4Required⟩).inService = ∅ := rfl
  have hcons : Pic.init ++ [enableTimerInterrupt] =
      ⟨Pic.masterCommandPort, Pic.icw1Init ||| Pic.icw1Icw4Required⟩ ::
        (Pic.init.tail ++ [enableTimerInterrupt]) := rfl
  have hservice : (self.run (Pic.init ++ [enableTimerInterrupt])).inService = ∅ := by
    rw [hcons, run, List.foldl_cons]
    exact run_inService _ hfirst
  generalize (self.config.run Pic.init).master = master at hconfigured hmaster
  have hdata : master.data 0b11111110 = { master with mask := 0b11111110 } := by
    simp only [Pic.Controller.data, hconfigured.operation]
  rw [hdata] at hmaster
  refine ⟨⟨?_, ?_, ?_⟩, hservice⟩ <;> rw [hmaster]
  · exact hconfigured.operation
  · exact hconfigured.vectorBase_eq

/-- The end of an interrupt does not change the configuration. -/
theorem Operating.out_endOfInterrupt {pic : Servicing} (h : pic.Operating) :
    (pic.out ⟨Pic.masterCommandPort, endOfInterrupt⟩).Operating := ⟨h.1, h.2, h.3⟩

/-- Taking the interrupt of the timer does not change the configuration. -/
theorem Operating.acknowledge {pic : Servicing} (h : pic.Operating) :
    (pic.acknowledge 0).Operating := ⟨h.1, h.2, h.3⟩

/-- The master passes on no line but that of the timer, and only if no tick is in service. -/
theorem Operating.request_eq_some {pic : Servicing} (h : pic.Operating) {line : Fin 8}
    (hrequest : pic.request = some line) : line = 0 ∧ 0 ∉ pic.inService := by
  rw [request, if_pos h.operation, h.mask] at hrequest
  have hline := List.find?_some hrequest
  simp only [Bool.and_eq_true, Bool.not_eq_true', decide_eq_true_eq] at hline
  obtain ⟨⟨-, hmask⟩, hservice⟩ := hline
  have hzero : ∀ line : Fin 8, (0b11111110 : UInt8).toNat.testBit line = false → line = 0 := by
    decide
  obtain rfl := hzero line hmask
  exact ⟨rfl, fun hmem => lt_irrefl _ (hservice 0 hmem)⟩

end Servicing

/-! ## The handler -/

/-- What is left of `timer_handler` when it has sent the end of the interrupt. -/
def afterEnd : Code := [.release .masterCommandPort, .act (.iret true)]

/-- What `timer_handler` does until then: there is no process to switch to. -/
def beforeEnd : Code :=
  [.acquire .processManager, .release .processManager, .acquire .masterCommandPort,
    .act (.out ⟨Pic.masterCommandPort, endOfInterrupt⟩)]

/-- `timer_handler` switches no context and sends the end of its interrupt to the master only. -/
theorem timerHandler_eq (switchThread : Code) :
    timerHandler switchThread true = beforeEnd ++ afterEnd := rfl

/-- `timer_handler` starts without locks and uses its locks in pairs. -/
theorem timerHandler_entry (switchThread : Code) : Entry (timerHandler switchThread true) := by
  rw [timerHandler_eq]
  refine ⟨fun lock => ?_, by decide⟩
  cases lock <;> decide

/-- The gate of the timer. -/
theorem System.gate_timer (self : System) :
    self.table.gate 32 = some (Gate.handler self.cs self.handlers.timerHandler) :=
  ((InterruptDescriptorTable.gate_setHandler self.init_eq 32).2).trans (if_pos rfl)

/-- The processor takes an interrupt only when the flag is set and the master passes on the timer.
It enters `timer_handler` and leaves the flag set. -/
theorem System.accept_eq_some (self : System) {s s' : State} (h : s.device.pic.Operating)
    (haccept : self.accept s = some s') :
    s.device.interruptFlag = true ∧ 0 ∉ s.device.pic.inService ∧
      s' = { s with
        device := { pic := s.device.pic.acknowledge 0, interruptFlag := true }
        stack := timerHandler self.switchThread true :: s.stack } := by
  unfold accept at haccept
  split at haccept
  case isFalse => cases haccept
  case isTrue hflag =>
    obtain ⟨line, hrequest, hgate⟩ := Option.bind_eq_some_iff.mp haccept
    obtain ⟨rfl, hservice⟩ := h.request_eq_some hrequest
    have hvector : s.device.pic.vector 0 = 32 := by
      rw [Servicing.vector, h.vectorBase]
      rfl
    rw [hvector, self.gate_timer] at hgate
    refine ⟨hflag, hservice, ?_⟩
    rw [← Option.some.inj hgate, hflag]
    simp [Gate.handler, handlerCode]

/-- A tick that was requested is taken when no tick is in service. -/
theorem System.accept_timer (self : System) {s : State} (h : s.device.pic.Operating)
    (hflag : s.device.interruptFlag = true) (hrequest : 0 ∈ s.device.pic.requests)
    (hservice : s.device.pic.inService = ∅) :
    self.accept s = some { s with
      device := { pic := s.device.pic.acknowledge 0, interruptFlag := true }
      stack := timerHandler self.switchThread true :: s.stack } := by
  have hfirst : s.device.pic.request = some 0 := by
    rw [Servicing.request, if_pos h.operation, h.mask, hservice]
    exact List.find?_cons_of_pos (by simp [hrequest])
  have hvector : s.device.pic.vector 0 = 32 := by
    rw [Servicing.vector, h.vectorBase]
    rfl
  rw [accept, if_pos hflag, hfirst, Option.bind_some, hvector, self.gate_timer, hflag]
  simp [Gate.handler, handlerCode]

/-! ## The invariant -/

/-- The activations of `timer_handler`, the running one first, with the lines in service: the
running one at most has not sent the end of its interrupt. -/
inductive Ticks : Finset (Fin 8) → List Code → Prop
  /-- All have sent it. -/
  | idle {ticks : List Code} (h : ∀ code ∈ ticks, code <:+ afterEnd) : Ticks ∅ ticks
  /-- The running one has not sent it. -/
  | busy {front : Code} {ticks : List Code} (hfront : front <:+ beforeEnd) (hne : front ≠ [])
    (h : ∀ code ∈ ticks, code <:+ afterEnd) : Ticks {0} ((front ++ afterEnd) :: ticks)

/-- The routines after `pit::init`: activations of the handler above what is left of `main`. -/
structure Layout (s : State) : Prop where
  /-- The master passes on the timer only. -/
  operating : s.device.pic.Operating
  /-- Interrupts are enabled, in the handlers too. -/
  interruptFlag : s.device.interruptFlag = true
  /-- The stack. -/
  stack : ∃ ticks base, s.stack = ticks ++ base ∧ Ticks s.device.pic.inService ticks ∧
    (base = [] ∨ ∃ code, base = [code] ∧ code <:+ startupComplete)

/-- The state of the kernel after `pit::init`. -/
structure Running (s : State) : Prop where
  /-- The routines. -/
  layout : Layout s
  /-- The locks that are held are those of the routines. -/
  locks : Preemption.Invariant s
  /-- Unless a routine is blocked, no routine that was interrupted holds the command port. -/
  quiet : ¬Blocked s → ∀ code ∈ s.stack.tail, ¬Owns .masterCommandPort code

/-- What can be left of the handler after the end of its interrupt. -/
theorem suffix_afterEnd {code : Code} (h : code <:+ afterEnd) :
    code = afterEnd ∨ code = [.act (.iret true)] ∨ code = [] := by
  simpa [afterEnd, List.suffix_cons_iff] using h

/-- What can be left of the handler before the end of its interrupt. -/
theorem suffix_beforeEnd {front : Code} (h : front <:+ beforeEnd) (hne : front ≠ []) :
    front = beforeEnd ∨ front = beforeEnd.drop 1 ∨ front = beforeEnd.drop 2 ∨
      front = beforeEnd.drop 3 := by
  simpa [beforeEnd, List.suffix_cons_iff, hne] using h

/-- What can be left of `main`. -/
theorem suffix_startupComplete {code : Code} (h : code <:+ startupComplete) :
    code = startupComplete ∨ code = [.release .defaultOutput] ∨ code = [] := by
  simpa [startupComplete, println, List.suffix_cons_iff] using h

/-- Putting the timer in service and ending its interrupt. -/
theorem finish_timer : Servicing.finish {0} = ∅ := by decide

/-- No other line than that of the timer is ever in service. -/
theorem Layout.inService_of_notMem {s : State} (h : Layout s)
    (hservice : 0 ∉ s.device.pic.inService) : s.device.pic.inService = ∅ := by
  obtain ⟨-, -, ⟨_, _, -, hticks, -⟩⟩ := h
  generalize s.device.pic.inService = service at hservice hticks
  cases hticks with
  | idle => rfl
  | busy => exact absurd (Finset.mem_singleton_self _) hservice

/-- A step of `main` keeps the layout. -/
theorem Layout.exec_main {held : Finset Lock} {pic : Servicing} {code : Code} {s' : State}
    (hoperating : pic.Operating) (hservice : pic.inService = ∅) (hcode : code <:+ startupComplete)
    (hexec : exec perform ⟨held, ⟨pic, true⟩, [code]⟩ = some s') : Layout s' := by
  have hnone : Ticks pic.inService [] := hservice ▸ .idle (List.forall_mem_nil _)
  rcases suffix_startupComplete hcode with rfl | rfl | rfl
  · simp only [startupComplete, println, Preemption.exec] at hexec
    split at hexec
    · cases hexec
    · obtain rfl := Option.some.inj hexec
      exact ⟨hoperating, rfl, [], _, rfl, hnone, .inr ⟨_, rfl, List.suffix_cons _ _⟩⟩
  · obtain rfl := Option.some.inj hexec
    exact ⟨hoperating, rfl, [], _, rfl, hnone, .inr ⟨_, rfl, List.nil_suffix⟩⟩
  · obtain rfl := Option.some.inj hexec
    exact ⟨hoperating, rfl, [], _, rfl, hnone, .inl rfl⟩

/-- A step of an activation that has sent the end of its interrupt keeps the layout. -/
theorem Layout.exec_afterEnd {held : Finset Lock} {pic : Servicing} {code : Code}
    {ticks base : List Code} {s' : State} (hoperating : pic.Operating)
    (hservice : pic.inService = ∅) (hcode : code <:+ afterEnd)
    (hrest : ∀ code ∈ ticks, code <:+ afterEnd)
    (hbase : base = [] ∨ ∃ code, base = [code] ∧ code <:+ startupComplete)
    (hexec : exec perform ⟨held, ⟨pic, true⟩, code :: ticks ++ base⟩ = some s') : Layout s' := by
  have hafter (code : Code) (hcode : code <:+ afterEnd) : Ticks pic.inService (code :: ticks) :=
    hservice ▸ .idle (List.forall_mem_cons.mpr ⟨hcode, hrest⟩)
  rcases suffix_afterEnd hcode with rfl | rfl | rfl
  · obtain rfl := Option.some.inj hexec
    exact ⟨hoperating, rfl, _, base, rfl, hafter _ (List.suffix_cons _ _), hbase⟩
  · obtain rfl := Option.some.inj hexec
    exact ⟨hoperating, rfl, _, base, rfl, hafter _ List.nil_suffix, hbase⟩
  · obtain rfl := Option.some.inj hexec
    exact ⟨hoperating, rfl, ticks, base, rfl, hservice ▸ .idle hrest, hbase⟩

/-- A step of an activation that has not sent the end of its interrupt keeps the layout. -/
theorem Layout.exec_beforeEnd {held : Finset Lock} {pic : Servicing} {front : Code}
    {ticks base : List Code} {s' : State} (hoperating : pic.Operating)
    (hservice : pic.inService = {0}) (hfront : front <:+ beforeEnd) (hne : front ≠ [])
    (hrest : ∀ code ∈ ticks, code <:+ afterEnd)
    (hbase : base = [] ∨ ∃ code, base = [code] ∧ code <:+ startupComplete)
    (hexec : exec perform ⟨held, ⟨pic, true⟩, (front ++ afterEnd) :: ticks ++ base⟩ = some s') :
    Layout s' := by
  have hbusy (front' : Code) (hfront' : front' <:+ beforeEnd) (hne' : front' ≠ []) :
      Ticks pic.inService ((front' ++ afterEnd) :: ticks) :=
    hservice ▸ .busy hfront' hne' hrest
  rcases suffix_beforeEnd hfront hne with rfl | rfl | rfl | rfl
  · simp only [beforeEnd, List.cons_append, Preemption.exec] at hexec
    split at hexec
    · cases hexec
    · obtain rfl := Option.some.inj hexec
      exact ⟨hoperating, rfl, _, base, rfl,
        hbusy (beforeEnd.drop 1) (List.drop_suffix _ _) (List.cons_ne_nil _ _), hbase⟩
  · obtain rfl := Option.some.inj hexec
    exact ⟨hoperating, rfl, _, base, rfl,
      hbusy (beforeEnd.drop 2) (List.drop_suffix _ _) (List.cons_ne_nil _ _), hbase⟩
  · simp only [beforeEnd, List.drop, List.cons_append, Preemption.exec] at hexec
    split at hexec
    · cases hexec
    · obtain rfl := Option.some.inj hexec
      exact ⟨hoperating, rfl, _, base, rfl,
        hbusy (beforeEnd.drop 3) (List.drop_suffix _ _) (List.cons_ne_nil _ _), hbase⟩
  · -- The end of the interrupt is sent.
    obtain rfl := Option.some.inj hexec
    have hnone : (pic.out ⟨Pic.masterCommandPort, endOfInterrupt⟩).inService = ∅ :=
      (congrArg Servicing.finish hservice).trans finish_timer
    have hticks : Ticks (pic.out ⟨Pic.masterCommandPort, endOfInterrupt⟩).inService
        (afterEnd :: ticks) :=
      hnone ▸ .idle (List.forall_mem_cons.mpr ⟨List.suffix_refl _, hrest⟩)
    exact ⟨hoperating.out_endOfInterrupt, rfl, _, base, rfl, hticks, hbase⟩

/-- A step of the running routine keeps the layout. -/
theorem Layout.exec {s s' : State} (h : Layout s) (hexec : exec perform s = some s') :
    Layout s' := by
  obtain ⟨hoperating, hflag, ⟨ticks, base, hstack, hticks, hbase⟩⟩ := h
  obtain ⟨held, ⟨pic, flag⟩, stack⟩ := s
  obtain rfl : stack = ticks ++ base := hstack
  obtain rfl : flag = true := hflag
  change Ticks pic.inService ticks at hticks
  generalize hservice : pic.inService = service at hticks
  cases hticks with
  | idle hidle =>
    rcases ticks with _ | ⟨code, ticks⟩
    · obtain rfl | ⟨code, rfl, hcode⟩ := hbase
      · cases hexec
      · exact exec_main hoperating hservice hcode hexec
    · obtain ⟨hcode, hrest⟩ := List.forall_mem_cons.mp hidle
      exact exec_afterEnd hoperating hservice hcode hrest hbase hexec
  | busy hfront hne hrest => exact exec_beforeEnd hoperating hservice hfront hne hrest hbase hexec

/-- A step of the running routine keeps the invariant. -/
theorem Running.exec {s s' : State} (h : Running s) (hexec : exec perform s = some s') :
    Running s' := by
  refine ⟨h.layout.exec hexec, h.locks.exec hexec, fun hblocked code hcode => ?_⟩
  refine h.quiet (fun hblocked' => hblocked ?_) code (mem_tail_of_exec hexec hcode)
  obtain ⟨below, hbelow⟩ := hblocked'
  exact ⟨below, (exec_blockedOn_iff h.locks hexec).mpr hbelow⟩

/-- When the processor takes an interrupt, no routine holds the lock of the process manager. -/
theorem Layout.not_owns {s : State} (h : Layout s) (hservice : 0 ∉ s.device.pic.inService)
    {code : Code} (hcode : code ∈ s.stack) {lock : Lock} (howns : Owns lock code) :
    lock = .defaultOutput ∨ (lock = .masterCommandPort ∧ code = afterEnd) := by
  obtain ⟨-, -, ⟨ticks, base, hstack, hticks, hbase⟩⟩ := h
  generalize s.device.pic.inService = service at hservice hticks
  rw [hstack, List.mem_append] at hcode
  cases hticks with
  | busy => exact absurd (Finset.mem_singleton_self _) hservice
  | idle hidle =>
    rcases hcode with hcode | hcode
    · rcases suffix_afterEnd (hidle code hcode) with rfl | rfl | rfl
      · cases lock <;> revert howns <;> decide
      · exact howns.elim
      · exact howns.elim
    · obtain rfl | ⟨code', rfl, hsuffix⟩ := hbase
      · cases hcode
      obtain rfl := List.mem_singleton.mp hcode
      rcases suffix_startupComplete hsuffix with rfl | rfl | rfl
      · cases lock <;> revert howns <;> decide
      · cases lock <;> revert howns <;> decide
      · exact howns.elim

/-- The locks that the handler takes. -/
theorem acquire_mem_timerHandler {switchThread : Code} {lock : Lock} :
    .acquire lock ∈ timerHandler switchThread true ↔
      lock = .processManager ∨ lock = .masterCommandPort := by
  rw [timerHandler_eq]
  cases lock <;> decide

/-- An activation that has sent the end of its interrupt and not released the command port is
waited for by the next one. -/
theorem Running.blocked_interrupt_iff {s : State} (h : Running s)
    (hservice : 0 ∉ s.device.pic.inService) (switchThread : Code) :
    (∃ below, BlockedOn below (timerHandler switchThread true :: s.stack)) ↔
      Blocked s ∨ s.stack.head? = some afterEnd := by
  simp only [interrupt_blockedOn_iff h.locks]
  constructor
  · rintro ⟨below, ⟨-, lock, hlock, htake⟩ | hbelow⟩
    · refine or_iff_not_imp_left.mpr fun hblocked => ?_
      obtain ⟨code, hcode, howns⟩ := (h.locks.mem_held lock).mp hlock
      obtain rfl | ⟨rfl, rfl⟩ := h.layout.not_owns hservice hcode howns
      · cases acquire_mem_timerHandler.mp htake with
        | inl hne => cases hne
        | inr hne => cases hne
      · have hquiet := h.quiet hblocked
        rcases hstack : s.stack with _ | ⟨head, rest⟩
        · rw [hstack] at hcode
          cases hcode
        · rw [hstack] at hcode hquiet
          obtain rfl | htail := List.mem_cons.mp hcode
          · rfl
          · exact absurd howns (hquiet _ htail)
    · exact .inl ⟨below, hbelow⟩
  · rintro (⟨below, hbelow⟩ | hhead)
    · exact ⟨below, .inr hbelow⟩
    · have howns : Owns Lock.masterCommandPort afterEnd := by decide
      have hheld := (h.locks.mem_held _).mpr ⟨afterEnd, List.mem_of_mem_head? hhead, howns⟩
      exact ⟨s.stack, .inl ⟨rfl, _, hheld, acquire_mem_timerHandler.mpr (.inr rfl)⟩⟩

/-- The state after the processor has taken an interrupt. -/
theorem Running.accept {self : System} {s s' : State} (h : Running s)
    (haccept : self.accept s = some s') :
    Running s' ∧ (Blocked s' ↔ Blocked s ∨ s.stack.head? = some afterEnd) := by
  obtain ⟨hflag, hservice, rfl⟩ := self.accept_eq_some h.layout.operating haccept
  have hiff := h.blocked_interrupt_iff hservice self.switchThread
  refine ⟨⟨⟨h.layout.operating.acknowledge, rfl, ?_⟩, h.locks.interrupt (timerHandler_entry _) _,
    fun hblocked code hcode howns => ?_⟩, hiff⟩
  · obtain ⟨-, -, ⟨ticks, base, hstack, hticks, hbase⟩⟩ := h.layout
    have hacknowledged : (s.device.pic.acknowledge 0).inService =
      insert 0 s.device.pic.inService := rfl
    refine ⟨timerHandler self.switchThread true :: ticks, base, ?_, ?_, hbase⟩
    · rw [hstack]
      rfl
    · rw [timerHandler_eq]
      show Ticks (s.device.pic.acknowledge 0).inService _
      rw [hacknowledged]
      generalize s.device.pic.inService = service at hservice hticks
      cases hticks with
      | busy => exact absurd (Finset.mem_singleton_self _) hservice
      | idle hidle => exact .busy (List.suffix_refl _) (List.cons_ne_nil _ _) hidle
  · have hheld := (h.locks.mem_held _).mpr ⟨code, hcode, howns⟩
    exact hblocked ⟨s.stack, (interrupt_blockedOn_iff h.locks).mpr
      (.inl ⟨rfl, _, hheld, acquire_mem_timerHandler.mpr (.inr rfl)⟩)⟩

/-- The kernel is running when `pit::init` returns. -/
theorem System.running_start (self : System) (pic : Servicing) : Running (self.start pic) := by
  obtain ⟨hoperating, hservice⟩ := pic.run_init
  refine ⟨⟨hoperating, rfl, [], [startupComplete], rfl, ?_, .inr ⟨_, rfl, List.suffix_refl _⟩⟩,
    ⟨fun lock => ?_, List.pairwise_singleton _ _, ?_⟩, fun _ code hcode => nomatch hcode⟩
  · show Ticks (pic.run (Pic.init ++ [enableTimerInterrupt])).inService []
    rw [hservice]
    exact .idle fun code hcode => nomatch hcode
  · refine iff_of_false (Finset.notMem_empty _) ?_
    rintro ⟨code, hcode, howns⟩
    obtain rfl := List.mem_singleton.mp hcode
    cases lock <;> revert howns <;> decide
  · intro code hcode
    obtain rfl := List.mem_singleton.mp hcode
    decide

/-- The state in which `pit::init` returns has no blocked routine. -/
theorem System.not_blocked_start (self : System) (pic : Servicing) :
    ¬Blocked (self.start pic) := by
  rintro ⟨below, hbelow⟩
  cases hbelow with
  | waits _ hb => cases hb
  | push h => cases h

/-! ## Runs -/

/-- An event and a series of events. -/
theorem System.run_cons_eq_some {self : System} {events : List Event} {event : Event}
    {s s' : State} : self.run (event :: events) s = some s' ↔
      ∃ t, self.step s event = some t ∧ self.run events t = some s' :=
  Option.bind_eq_some_iff

/-- A series of events and one more. -/
theorem System.run_concat_eq_some {self : System} {events : List Event} {event : Event}
    {s s' : State} : self.run (events ++ [event]) s = some s' ↔
      ∃ t, self.run events s = some t ∧ self.step t event = some s' := by
  rw [System.run, List.foldlM_append, Option.bind_eq_bind, Option.bind_eq_some_iff]
  refine exists_congr fun t => and_congr_right fun _ => ?_
  rw [List.foldlM_cons, Option.bind_eq_bind, Option.bind_eq_some_iff]
  exact ⟨fun ⟨_, h, h'⟩ => (Option.some.inj h') ▸ h, fun h => ⟨_, h, rfl⟩⟩

/-- In the series of events, the processor takes a tick when the running routine has sent the end of
the tick before and has not released the command port. -/
def System.Contends (self : System) (events : List Event) (s : State) : Prop :=
  ∃ before after s', events = before ++ .accept :: after ∧ self.run before s = some s' ∧
    s'.stack.head? = some afterEnd

/-- One more event makes a series contend exactly when it takes a tick at such a moment. -/
theorem System.contends_concat_iff {self : System} {events : List Event} {event : Event}
    {s t : State} (hrun : self.run events s = some t) :
    self.Contends (events ++ [event]) s ↔
      self.Contends events s ∨ (event = .accept ∧ t.stack.head? = some afterEnd) := by
  constructor
  · rintro ⟨before, after, s', hevents, hbefore, hhead⟩
    rcases List.eq_nil_or_concat after with rfl | ⟨after, last, rfl⟩
    · obtain ⟨rfl, hlast⟩ := List.append_inj' hevents rfl
      obtain rfl := Option.some.inj (hbefore.symm.trans hrun)
      exact .inr ⟨List.head_eq_of_cons_eq hlast, hhead⟩
    · rw [List.concat_eq_append, ← List.cons_append, ← List.append_assoc] at hevents
      exact .inl ⟨before, after, s', (List.append_inj' hevents rfl).1, hbefore, hhead⟩
  · rintro (⟨before, after, s', rfl, hbefore, hhead⟩ | ⟨rfl, hhead⟩)
    · exact ⟨before, after ++ [event], s', by simp, hbefore, hhead⟩
    · exact ⟨events, [], t, rfl, hrun, hhead⟩

/-- Every event keeps the invariant, and blocks a routine exactly when the processor takes a tick at
such a moment. -/
theorem Running.step {self : System} {s s' : State} {event : Event} (h : Running s)
    (hstep : self.step s event = some s') :
    Running s' ∧
      (Blocked s' ↔ Blocked s ∨ (event = .accept ∧ s.stack.head? = some afterEnd)) := by
  cases event with
  | raise line =>
    obtain rfl := Option.some.inj hstep
    obtain ⟨⟨hoperating, hflag, hstack⟩, hlocks, hquiet⟩ := h
    refine ⟨⟨⟨⟨hoperating.1, hoperating.2, hoperating.3⟩, hflag, hstack⟩,
      ⟨hlocks.mem_held, hlocks.pairwise, hlocks.wellBracketed⟩, hquiet⟩, ?_⟩
    simp [Blocked]
  | accept =>
    obtain ⟨hrunning, hiff⟩ := h.accept hstep
    exact ⟨hrunning, hiff.trans (or_congr_right (by simp))⟩
  | exec =>
    have hiff : Blocked s' ↔ Blocked s :=
      exists_congr fun below => exec_blockedOn_iff h.locks hstep
    exact ⟨h.exec hstep, hiff.trans (by simp)⟩

/-- Every run keeps the invariant. -/
theorem Running.run {self : System} {events : List Event} {s s' : State} (h : Running s)
    (hrun : self.run events s = some s') : Running s' := by
  induction events generalizing s with
  | nil => exact Option.some.inj hrun ▸ h
  | cons event events ih =>
    obtain ⟨t, hstep, hrest⟩ := System.run_cons_eq_some.mp hrun
    exact ih (h.step hstep).1 hrest

/-- A run from the return of `pit::init` blocks a routine exactly when it contends. -/
theorem System.blocked_iff_contends {self : System} {pic : Servicing} {events : List Event}
    {s : State} (hrun : self.run events (self.start pic) = some s) :
    Blocked s ↔ self.Contends events (self.start pic) := by
  induction events using List.reverseRecOn generalizing s with
  | nil =>
    obtain rfl := Option.some.inj hrun
    refine iff_of_false (self.not_blocked_start pic) ?_
    rintro ⟨before, after, -, hevents, -⟩
    exact List.append_ne_nil_of_right_ne_nil _ (List.cons_ne_nil _ _) hevents.symm
  | append_singleton events event ih =>
    obtain ⟨t, ht, hstep⟩ := run_concat_eq_some.mp hrun
    have hrunning := (self.running_start pic).run ht
    rw [contends_concat_iff ht, ← ih ht, (hrunning.step hstep).2]

/-- The events of a run are moves of the routines. -/
theorem System.move {self : System} {s s' : State} {event : Event} (h : Running s)
    (hstep : self.step s event = some s') : Move perform s s' := by
  cases event with
  | raise line =>
    obtain rfl := Option.some.inj hstep
    exact .device _
  | accept =>
    obtain ⟨-, -, rfl⟩ := self.accept_eq_some h.layout.operating hstep
    exact .interrupt _ (timerHandler_entry _)
  | exec => exact .exec hstep

/-- A run is a series of moves. -/
theorem System.moves {self : System} {events : List Event} {s s' : State} (h : Running s)
    (hrun : self.run events s = some s') : Relation.ReflTransGen (Move perform) s s' := by
  induction events generalizing s with
  | nil => exact Option.some.inj hrun ▸ .refl
  | cons event events ih =>
    obtain ⟨t, hstep, hrest⟩ := System.run_cons_eq_some.mp hrun
    exact .head (move h hstep) (ih (h.step hstep).1 hrest)

/-- Steps of the running routine are a run. -/
theorem System.exists_run_exec (self : System) {s s' : State}
    (hsteps : Relation.ReflTransGen (fun s s' => exec perform s = some s') s s') :
    ∃ n, self.run (List.replicate n .exec) s = some s' := by
  induction hsteps using Relation.ReflTransGen.head_induction_on with
  | refl => exact ⟨0, rfl⟩
  | head hstep _ ih =>
    obtain ⟨n, hrun⟩ := ih
    exact ⟨n + 1, run_cons_eq_some.mpr ⟨_, hstep, hrun⟩⟩

/-- When no routine is left, no tick is in service. -/
theorem Layout.inService_eq_empty {s : State} (h : Layout s) (hstack : s.stack = []) :
    s.device.pic.inService = ∅ := by
  obtain ⟨-, -, ⟨ticks, base, happend, hticks, -⟩⟩ := h
  obtain ⟨rfl, -⟩ := List.append_eq_nil_iff.mp (happend.symm.trans hstack)
  generalize s.device.pic.inService = service at hticks
  cases hticks
  rfl

/-- In every run after `pit::init`, with ticks at any moments:
* the processor takes an interrupt only while no tick is in service, and enters `timer_handler` with
  no routine holding the lock of the process manager;
* a routine blocks exactly when a tick is taken between the write that ends the tick before it and
  the release of the command port, and then `main` and the routines below it are never resumed;
* otherwise all routines end when nothing interrupts them, with no tick in service. -/
theorem System.run_timer (self : System) (pic : Servicing) {events : List Event} {s : State}
    (hrun : self.run events (self.start pic) = some s) :
    (∀ s', self.accept s = some s' → s.device.pic.inService = ∅ ∧ .processManager ∉ s.held ∧
      s'.stack = timerHandler self.switchThread true :: s.stack) ∧
    (Blocked s ↔ self.Contends events (self.start pic)) ∧
    (Blocked s → ∃ below, below ≠ [] ∧ ∀ later s', self.run later s = some s' →
      below <:+ s'.stack ∧ below.length < s'.stack.length) ∧
    (¬Blocked s → ∃ n s', self.run (List.replicate n .exec) s = some s' ∧ s'.stack = [] ∧
      s'.device.pic.inService = ∅) := by
  have h := (self.running_start pic).run hrun
  refine ⟨fun s' haccept => ?_, blocked_iff_contends hrun, ?_, fun hblocked => ?_⟩
  · obtain ⟨-, hservice, rfl⟩ := self.accept_eq_some h.layout.operating haccept
    refine ⟨h.layout.inService_of_notMem hservice, fun hheld => ?_, rfl⟩
    obtain ⟨code, hcode, howns⟩ := (h.locks.mem_held _).mp hheld
    obtain hlock | ⟨hlock, -⟩ := h.layout.not_owns hservice hcode howns <;> cases hlock
  · rintro ⟨below, hbelow⟩
    refine ⟨below, hbelow.ne_nil, fun later s' hlater => ?_⟩
    have hblocked := (hbelow.run h.locks (moves h hlater)).2
    exact ⟨hblocked.suffix, hblocked.length_lt⟩
  · obtain ⟨s', hsteps, hend⟩ := exists_finished perform h.locks hblocked
    obtain ⟨n, hfinish⟩ := self.exists_run_exec hsteps
    exact ⟨n, s', hfinish, hend, (h.run hfinish).layout.inService_eq_empty hend⟩

/-- Whatever state the controllers were in, a run leads to a blocked routine: a second tick comes
right after the write that ends the first. -/
theorem System.exists_blocked (self : System) (pic : Servicing) :
    ∃ events s, self.run events (self.start pic) = some s ∧ Blocked s := by
  obtain ⟨hoperating, hservice⟩ := pic.run_init
  unfold start
  generalize pic.run (Pic.init ++ [enableTimerInterrupt]) = pic at hoperating hservice
  have hraise (pic : Servicing) (h : pic.Operating) : (pic.raise 0).Operating := ⟨h.1, h.2, h.3⟩
  let ended : Servicing := ((pic.raise 0).acknowledge 0).out ⟨Pic.masterCommandPort, endOfInterrupt⟩
  have hended : ended.inService = ∅ := by
    show Servicing.finish (insert 0 pic.inService) = ∅
    rw [hservice]
    decide
  let interrupted : State :=
    { held := insert .masterCommandPort (({.processManager} : Finset Lock).erase .processManager)
      device := { pic := ended.raise 0, interruptFlag := true }
      stack := [afterEnd, startupComplete] }
  have hfirst := self.accept_timer
    (s := ⟨∅, ⟨pic.raise 0, true⟩, [startupComplete]⟩) (hraise pic hoperating) rfl
    (Finset.mem_insert_self _ _) hservice
  have hsecond := self.accept_timer (s := interrupted)
    (hraise ended (hraise pic hoperating).acknowledge.out_endOfInterrupt) rfl
    (Finset.mem_insert_self _ _) hended
  have howns : Owns Lock.masterCommandPort afterEnd := by decide
  have hblocked : BlockedOn [afterEnd, startupComplete]
      (timerHandler self.switchThread true :: [afterEnd, startupComplete]) :=
    .waits (acquire_mem_timerHandler.mpr (.inr rfl)) List.mem_cons_self howns
  refine ⟨[.raise 0, .accept, .exec, .exec, .exec, .exec, .raise 0, .accept],
    { interrupted with
      device := { pic := (ended.raise 0).acknowledge 0, interruptFlag := true }
      stack := timerHandler self.switchThread true :: interrupted.stack },
    ?_, [afterEnd, startupComplete], hblocked⟩
  refine run_cons_eq_some.mpr ⟨_, rfl, run_cons_eq_some.mpr ⟨_, hfirst, ?_⟩⟩
  -- The handler runs up to the write that ends its interrupt.
  refine run_cons_eq_some.mpr ⟨_, rfl, run_cons_eq_some.mpr ⟨_, rfl,
    run_cons_eq_some.mpr ⟨_, rfl, run_cons_eq_some.mpr ⟨_, rfl, ?_⟩⟩⟩⟩
  exact run_cons_eq_some.mpr ⟨interrupted, rfl, run_cons_eq_some.mpr ⟨_, hsecond, rfl⟩⟩

/-- The addresses of the handlers in an image. -/
def sampleHandlers : Handlers := ⟨0xFFFF800000101000, 0xFFFF800000102000, 0xFFFF800000103000⟩

/-- A kernel whose table lay in cleared memory. -/
def sampleSystem : System where
  profile := .dev
  handlers := sampleHandlers
  cs := 8
  switchThread := []
  memory := default
  table := _
  init_eq := InterruptDescriptorTable.setHandler_of_le .dev 8 sampleHandlers.timerHandler
    (InterruptDescriptorTable.initDefaults sampleHandlers 8 default)
    (show 0x20 ≤ irqNumberTimer.toNat by decide)

/-- A run that blocks a routine of this kernel, and what follows from it. -/
theorem System.run_timer_sample : ∃ events s, sampleSystem.run events
      (sampleSystem.start ⟨⟨.powerOn, .powerOn⟩, ∅, ∅⟩) = some s ∧
    ∃ below, below ≠ [] ∧ ∀ later s', sampleSystem.run later s = some s' →
      below <:+ s'.stack ∧ below.length < s'.stack.length := by
  obtain ⟨events, s, hrun, hblocked⟩ :=
    sampleSystem.exists_blocked ⟨⟨.powerOn, .powerOn⟩, ∅, ∅⟩
  obtain ⟨-, -, hnever, -⟩ := sampleSystem.run_timer _ hrun
  exact ⟨events, s, hrun, hnever hblocked⟩

end Axel.Interrupt
