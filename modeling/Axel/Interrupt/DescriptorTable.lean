import Axel.Interrupt.Pic
import Axel.Lib.BitField
import Axel.Peripheral.Timer
import Mathlib.Tactic.IntervalCases

/-!
# The interrupt descriptor table

`interrupt::init` fills a table of 256 gates and loads its address. An interrupt makes the
processor read the gate of its vector and jump to the address in it, which is spread over three
fields. This file models the table as the source lays it out, and the processor as it reads a
gate, and says where every vector leads after any series of calls of `set_handler`.
-/

namespace Axel.Interrupt

open Timer (Profile)

/-! ## Descriptors -/

/-- `TRAP_GATE`. -/
def trapGate : BitVec 16 := 0b1111

/-- The fields of `Flags`, of which the descriptors set two. -/
def Flags.setDescriptorType (value flags : BitVec 16) : BitVec 16 := BitField.set 11 8 value flags

/-- `Flags::set_present`. -/
def Flags.setPresent (value : Bool) (flags : BitVec 16) : BitVec 16 :=
  BitField.set 15 15 (if value then 1 else 0) flags

/-- `Descriptor`, an entry of the interrupt descriptor table. -/
structure Descriptor where
  /-- The low 16 bits of the address of the handler. -/
  offsetLow : BitVec 16
  /-- The code segment of the handler. -/
  segmentSelector : BitVec 16
  /-- The flags. -/
  flags : BitVec 16
  /-- The next 16 bits of the address. -/
  offsetMiddle : BitVec 16
  /-- The high 32 bits of the address. -/
  offsetHigh : BitVec 32
  /-- Reserved. -/
  reserved : BitVec 32
  deriving DecidableEq, Inhabited

namespace Descriptor

/-- `Descriptor::parse_addr`. -/
def parseAddr (addr : BitVec 64) : BitVec 16 × BitVec 16 × BitVec 32 :=
  ((addr &&& 0xFFFF).setWidth 16, ((addr >>> 16) &&& 0xFFFF).setWidth 16,
    ((addr >>> 32) &&& 0xFFFFFFFF).setWidth 32)

/-- `Descriptor::new`, for the code segment `cs` of the caller. -/
def new (cs : BitVec 16) (handlerAddress : BitVec 64) : Descriptor :=
  let (offsetLow, offsetMiddle, offsetHigh) := parseAddr handlerAddress
  let flags := Flags.setDescriptorType trapGate (Flags.setPresent true 0)
  { offsetLow, segmentSelector := cs, flags, offsetMiddle, offsetHigh, reserved := 0 }

/-- The sixteen bytes of a descriptor as one number: the fields follow each other in memory, and
the processor is little-endian. -/
def memory (self : Descriptor) : BitVec 128 :=
  self.reserved ++ self.offsetHigh ++ self.offsetMiddle ++ self.flags ++ self.segmentSelector ++
    self.offsetLow

end Descriptor

/-! ## The processor -/

/-- What the processor makes of a gate. -/
structure Gate where
  /-- The address of the handler. -/
  offset : BitVec 64
  /-- The code segment of the handler. -/
  segmentSelector : BitVec 16
  /-- The entry of the interrupt stack table, or 0. -/
  interruptStackTable : BitVec 16
  /-- The kind of gate. -/
  descriptorType : BitVec 16
  /-- The privilege that a software interrupt needs. -/
  privilegeLevel : BitVec 16
  deriving DecidableEq

/-- The processor reads the sixteen bytes of a gate; there is none if it is not present. -/
def Gate.read (memory : BitVec 128) : Option Gate :=
  let flags := memory.extractLsb' 32 16
  if BitField.get 15 15 flags = 1 then
    some {
      offset := memory.extractLsb' 64 32 ++ memory.extractLsb' 48 16 ++ memory.extractLsb' 0 16
      segmentSelector := memory.extractLsb' 16 16
      interruptStackTable := BitField.get 2 0 flags
      descriptorType := BitField.get 11 8 flags
      privilegeLevel := BitField.get 14 13 flags }
  else
    none

/-- The gate of a vector in a table that is loaded with a limit. -/
def Gate.lookup (limit : BitVec 16) (memory : List (BitVec 128)) (vector : ℕ) : Option Gate :=
  if 16 * vector + 15 ≤ limit.toNat then memory[vector]?.bind Gate.read else none

/-- The flags of a new descriptor: a trap gate of the kernel on the current stack. -/
theorem Descriptor.flags_new (cs : BitVec 16) (addr : BitVec 64) :
    BitField.get 15 15 (new cs addr).flags = 1 ∧ BitField.get 11 8 (new cs addr).flags = trapGate ∧
      BitField.get 2 0 (new cs addr).flags = 0 ∧ BitField.get 14 13 (new cs addr).flags = 0 := by
  refine ⟨?_, BitField.get_set (by decide) (by decide) (by decide), ?_, ?_⟩
  · exact (BitField.get_set_of_disjoint (by decide) (by decide) (by decide)).trans
      (BitField.get_set (by decide) (by decide) (by decide))
  · exact (BitField.get_set_of_disjoint (by decide) (by decide) (by decide)).trans
      (BitField.get_set_of_disjoint (by decide) (by decide) (by decide))
  · exact (BitField.get_set_of_disjoint (by decide) (by decide) (by decide)).trans
      (BitField.get_set_of_disjoint (by decide) (by decide) (by decide))

/-- The processor finds the fields of a descriptor where the source puts them. -/
theorem Descriptor.extract_memory (self : Descriptor) :
    self.memory.extractLsb' 0 16 = self.offsetLow ∧
    self.memory.extractLsb' 16 16 = self.segmentSelector ∧
    self.memory.extractLsb' 32 16 = self.flags ∧
    self.memory.extractLsb' 48 16 = self.offsetMiddle ∧
    self.memory.extractLsb' 64 32 = self.offsetHigh := by
  unfold memory
  refine ⟨?_, ?_, ?_, ?_, ?_⟩ <;>
  · apply BitVec.eq_of_getLsbD_eq
    intro i hi
    rw [BitVec.getLsbD_extractLsb']
    simp only [BitVec.getLsbD_append]
    grind

/-- The parts of an address. -/
theorem Descriptor.parseAddr_eq (addr : BitVec 64) :
    parseAddr addr =
      (addr.setWidth 16, (addr >>> 16).setWidth 16, (addr >>> 32).setWidth 32) := by
  have hword : (0xFFFF : BitVec 64) = (BitVec.allOnes 16).setWidth 64 := by decide
  have hdword : (0xFFFFFFFF : BitVec 64) = (BitVec.allOnes 32).setWidth 64 := by decide
  rw [parseAddr, hword, hdword, BitField.setWidth_and_allOnes _ (by decide),
    BitField.setWidth_and_allOnes _ (by decide), BitField.setWidth_and_allOnes _ (by decide)]

/-- The parts of an address make up the address. -/
theorem Descriptor.append_parseAddr (addr : BitVec 64) :
    (parseAddr addr).2.2 ++ (parseAddr addr).2.1 ++ (parseAddr addr).1 = addr := by
  rw [parseAddr_eq]
  apply BitVec.eq_of_getLsbD_eq
  intro i hi
  simp only [BitVec.getLsbD_append, BitVec.getLsbD_setWidth, BitVec.getLsbD_ushiftRight]
  grind

/-- The gate of a handler in the code segment `cs`. -/
def Gate.handler (cs : BitVec 16) (addr : BitVec 64) : Gate where
  offset := addr
  segmentSelector := cs
  interruptStackTable := 0
  descriptorType := trapGate
  privilegeLevel := 0

/-- The processor reads a new descriptor as the gate of its handler. -/
theorem Gate.read_new (cs : BitVec 16) (addr : BitVec 64) :
    Gate.read (Descriptor.new cs addr).memory = some (Gate.handler cs addr) := by
  obtain ⟨hlow, hselector, hflags, hmiddle, hhigh⟩ := (Descriptor.new cs addr).extract_memory
  obtain ⟨hpresent, htype, hist, hprivilege⟩ := Descriptor.flags_new cs addr
  simp only [Gate.read, hlow, hselector, hflags, hmiddle, hhigh, hpresent, htype, hist, hprivilege,
    if_true]
  have haddr := Descriptor.append_parseAddr addr
  exact congrArg some (congrArg (Gate.mk · cs 0 trapGate 0) haddr)

/-! ## The table -/

/-- The addresses of the handlers that the kernel is linked with. -/
structure Handlers where
  /-- `default_handler`. -/
  defaultHandler : BitVec 64
  /-- `default_handler_with_error_code`. -/
  defaultHandlerWithErrorCode : BitVec 64
  /-- `pic::timer_handler`. -/
  timerHandler : BitVec 64

/-- The vectors for which the table holds a handler that takes an error code. -/
def errorCodeVectors : List ℕ := [8, 10, 11, 12, 13, 14, 17]

/-- The default handler of a vector. -/
def Handlers.defaultFor (handlers : Handlers) (vector : ℕ) : BitVec 64 :=
  if vector ∈ errorCodeVectors then handlers.defaultHandlerWithErrorCode
  else handlers.defaultHandler

/-- `IRQ_NUMBER_TIMER`. -/
def irqNumberTimer : UInt8 := Pic.irqOffsetMaster

/-- The handler of a vector after `init` and a series of calls of `set_handler`: that of the last
call for the vector, or else the timer handler or a default handler. -/
def Handlers.registered (handlers : Handlers)
    (calls : List (UInt8 × BitVec 64)) (vector : ℕ) : BitVec 64 :=
  ((calls.reverse.find? fun call => call.1.toNat = vector).map Prod.snd).getD
    (if vector = irqNumberTimer.toNat then handlers.timerHandler else handlers.defaultFor vector)

/-- `InterruptDescriptorTable`. -/
structure InterruptDescriptorTable where
  /-- Vector 0. -/
  divideErrorException : Descriptor
  /-- Vector 1. -/
  debug : Descriptor
  /-- Vector 2. -/
  nonmaskable : Descriptor
  /-- Vector 3. -/
  breakpoint : Descriptor
  /-- Vector 4. -/
  overflow : Descriptor
  /-- Vector 5. -/
  boundRangeExceeded : Descriptor
  /-- Vector 6. -/
  invalidOpcode : Descriptor
  /-- Vector 7. -/
  deviceNotAvailable : Descriptor
  /-- Vector 8. -/
  doubleFault : Descriptor
  /-- Vector 9. -/
  coprocessorSegmentOverrun : Descriptor
  /-- Vector 10. -/
  invalidTss : Descriptor
  /-- Vector 11. -/
  segmentNotPresent : Descriptor
  /-- Vector 12. -/
  stackSegmentNotPresent : Descriptor
  /-- Vector 13. -/
  generalProtection : Descriptor
  /-- Vector 14. -/
  pageFault : Descriptor
  /-- Vector 15. -/
  reserved : Descriptor
  /-- Vector 16. -/
  x87PfuFlotingPointError : Descriptor
  /-- Vector 17. -/
  alignmentCheckException : Descriptor
  /-- Vector 18. -/
  machineCheckException : Descriptor
  /-- Vector 19. -/
  simdFloatingPointException : Descriptor
  /-- Vector 20. -/
  virtualizationException : Descriptor
  /-- The vectors 21 to 31. -/
  reserveds : Vector Descriptor 11
  /-- The vectors from 32 on. -/
  userDefinedInterrupts : Vector Descriptor 224
  deriving Inhabited

namespace InterruptDescriptorTable

/-- The descriptors of the exceptions, in the order in which they lie in memory. -/
def exceptions (self : InterruptDescriptorTable) : List Descriptor :=
  [self.divideErrorException, self.debug, self.nonmaskable, self.breakpoint, self.overflow,
    self.boundRangeExceeded, self.invalidOpcode, self.deviceNotAvailable, self.doubleFault,
    self.coprocessorSegmentOverrun, self.invalidTss, self.segmentNotPresent,
    self.stackSegmentNotPresent, self.generalProtection, self.pageFault, self.reserved,
    self.x87PfuFlotingPointError, self.alignmentCheckException, self.machineCheckException,
    self.simdFloatingPointException, self.virtualizationException]

/-- The descriptors in the order in which they lie in memory. -/
def entries (self : InterruptDescriptorTable) : List Descriptor :=
  self.exceptions ++ self.reserveds.toList ++ self.userDefinedInterrupts.toList

/-- `irq_number - 0x20`, a subtraction of `u8` values. -/
def interruptIndex (profile : Profile) (irqNumber : UInt8) : Except Fault ℕ :=
  match profile with
  | .dev => checkedSub irqNumber.toNat 0x20
  | .release => .ok (irqNumber - 0x20).toNat

/-- `InterruptDescriptorTable::set_handler`. The assertion is not in a release build. -/
def setHandler (profile : Profile) (cs : BitVec 16) (irqNumber : UInt8) (f : BitVec 64)
    (self : InterruptDescriptorTable) : Except Fault InterruptDescriptorTable := do
  if profile = .dev then
    debugAssert (decide (0x20 ≤ irqNumber.toNat))
  let i ← interruptIndex profile irqNumber
  if h : i < 224 then
    return { self with
      userDefinedInterrupts := self.userDefinedInterrupts.set i (Descriptor.new cs f) h }
  else
    .error .indexOutOfBounds

/-- `pic::set_handlers`. -/
def setHandlers (profile : Profile) (handlers : Handlers) (cs : BitVec 16)
    (self : InterruptDescriptorTable) : Except Fault InterruptDescriptorTable :=
  self.setHandler profile cs irqNumberTimer handlers.timerHandler

/-- `InterruptDescriptorTable::init`, before `pic::set_handlers`. -/
def initDefaults (handlers : Handlers) (cs : BitVec 16) (self : InterruptDescriptorTable) :
    InterruptDescriptorTable where
  divideErrorException := .new cs handlers.defaultHandler
  debug := .new cs handlers.defaultHandler
  nonmaskable := .new cs handlers.defaultHandler
  breakpoint := .new cs handlers.defaultHandler
  overflow := .new cs handlers.defaultHandler
  boundRangeExceeded := .new cs handlers.defaultHandler
  invalidOpcode := .new cs handlers.defaultHandler
  deviceNotAvailable := .new cs handlers.defaultHandler
  doubleFault := .new cs handlers.defaultHandlerWithErrorCode
  coprocessorSegmentOverrun := .new cs handlers.defaultHandler
  invalidTss := .new cs handlers.defaultHandlerWithErrorCode
  segmentNotPresent := .new cs handlers.defaultHandlerWithErrorCode
  stackSegmentNotPresent := .new cs handlers.defaultHandlerWithErrorCode
  generalProtection := .new cs handlers.defaultHandlerWithErrorCode
  pageFault := .new cs handlers.defaultHandlerWithErrorCode
  reserved := .new cs handlers.defaultHandler
  x87PfuFlotingPointError := .new cs handlers.defaultHandler
  alignmentCheckException := .new cs handlers.defaultHandlerWithErrorCode
  machineCheckException := .new cs handlers.defaultHandler
  simdFloatingPointException := .new cs handlers.defaultHandler
  virtualizationException := .new cs handlers.defaultHandler
  reserveds := self.reserveds.map fun _ => .new cs handlers.defaultHandler
  userDefinedInterrupts := self.userDefinedInterrupts.map fun _ => .new cs handlers.defaultHandler

/-- `InterruptDescriptorTable::init`. -/
def init (profile : Profile) (handlers : Handlers) (cs : BitVec 16)
    (self : InterruptDescriptorTable) : Except Fault InterruptDescriptorTable :=
  (self.initDefaults handlers cs).setHandlers profile handlers cs

/-- The limit of `InterruptDescriptorTable::load`: `size_of::<Self>() as u16 - 1`. -/
def limit (self : InterruptDescriptorTable) : BitVec 16 :=
  BitVec.ofNat 16 (16 * self.entries.length) - 1

/-- The gate that the processor finds for a vector once the table is loaded. -/
def gate (self : InterruptDescriptorTable) (vector : ℕ) : Option Gate :=
  Gate.lookup self.limit (self.entries.map Descriptor.memory) vector

/-- The table has 256 descriptors. -/
theorem length_entries (self : InterruptDescriptorTable) : self.entries.length = 256 := by
  simp [entries, exceptions]

/-- Every vector of the table is within its limit. -/
theorem gate_eq (self : InterruptDescriptorTable) (vector : ℕ) :
    self.gate vector = (self.entries[vector]?.map Descriptor.memory).bind Gate.read := by
  have hlimit : self.limit.toNat = 4095 := by
    rw [limit, length_entries]
    decide
  rw [gate, Gate.lookup, hlimit, List.getElem?_map]
  by_cases hvector : vector < 256
  · rw [if_pos (by omega)]
  · rw [if_neg (by omega), List.getElem?_eq_none (by rw [length_entries]; omega)]
    rfl

/-! ## Calls of `set_handler` -/

/-- The index of a vector from 32 on. -/
theorem interruptIndex_of_le (profile : Profile) {irqNumber : UInt8}
    (h : 0x20 ≤ irqNumber.toNat) :
    interruptIndex profile irqNumber = .ok (irqNumber.toNat - 0x20) := by
  cases profile with
  | dev => exact checkedSub_ok h
  | release =>
    have hlt : irqNumber.toNat < 256 := irqNumber.toNat_lt
    rw [interruptIndex, UInt8.toNat_sub]
    congr 1
    simp
    omega

/-- In a release build the index of a vector below 32 wraps around. -/
theorem interruptIndex_release {irqNumber : UInt8} (h : irqNumber.toNat < 0x20) :
    interruptIndex .release irqNumber = .ok (irqNumber.toNat + 224) := by
  rw [interruptIndex, UInt8.toNat_sub]
  congr 1
  simp
  omega

/-- `set_handler` stores a descriptor for the vectors from 32 on. -/
theorem setHandler_of_le (profile : Profile) (cs : BitVec 16) {irqNumber : UInt8}
    (f : BitVec 64) (self : InterruptDescriptorTable) (h : 0x20 ≤ irqNumber.toNat) :
    self.setHandler profile cs irqNumber f = .ok { self with
      userDefinedInterrupts := self.userDefinedInterrupts.set (irqNumber.toNat - 0x20)
        (.new cs f) (by have := irqNumber.toNat_lt; omega) } := by
  have hlt : irqNumber.toNat - 0x20 < 224 := by
    have := irqNumber.toNat_lt
    omega
  have hassert : debugAssert (decide (0x20 ≤ irqNumber.toNat)) = .ok () := by
    rw [decide_eq_true h]
    rfl
  simp only [setHandler, interruptIndex_of_le profile h, hassert, bind, Except.bind, ite_self,
    dif_pos hlt]
  cases profile <;> rfl

/-- `set_handler` panics for the vectors below 32: a debug build fails the assertion, and a release
build the bounds check, since the index wraps around. -/
theorem setHandler_of_lt (profile : Profile) (cs : BitVec 16) {irqNumber : UInt8}
    (f : BitVec 64) (self : InterruptDescriptorTable) (h : irqNumber.toNat < 0x20) :
    ∃ fault, self.setHandler profile cs irqNumber f = .error fault := by
  cases profile with
  | dev =>
    refine ⟨.debugAssert, ?_⟩
    have hassert : debugAssert (decide (0x20 ≤ irqNumber.toNat)) = .error .debugAssert := by
      rw [decide_eq_false (Nat.not_le.mpr h)]
      rfl
    simp only [setHandler, if_true, hassert]
    rfl
  | release =>
    have hlarge : ¬irqNumber.toNat + 224 < 224 := by omega
    refine ⟨.indexOutOfBounds, ?_⟩
    simp only [setHandler, interruptIndex_release h, bind, Except.bind, reduceCtorEq, if_false,
      dif_neg hlarge]

/-- In memory, the descriptors from 32 on follow the others. -/
theorem entries_set (self : InterruptDescriptorTable) (d : Descriptor) {i : ℕ} (h : i < 224) :
    { self with userDefinedInterrupts := self.userDefinedInterrupts.set i d h }.entries =
      self.entries.set (32 + i) d := by
  show self.exceptions ++ self.reserveds.toList ++ (self.userDefinedInterrupts.set i d h).toList = _
  have hlength : (self.exceptions ++ self.reserveds.toList).length = 32 := by
    simp [exceptions]
  rw [entries, Vector.toList_set, List.set_append_right _ _ (by omega), hlength,
    Nat.add_sub_cancel_left]

/-- A call of `set_handler` changes the gate of its vector and no other. -/
theorem gate_setHandler {profile : Profile} {cs : BitVec 16} {irqNumber : UInt8}
    {f : BitVec 64} {self t : InterruptDescriptorTable}
    (h : self.setHandler profile cs irqNumber f = .ok t) (vector : ℕ) :
    0x20 ≤ irqNumber.toNat ∧ t.gate vector =
      if irqNumber.toNat = vector then some (Gate.handler cs f) else self.gate vector := by
  have hlt : irqNumber.toNat < 256 := irqNumber.toNat_lt
  have hle : 0x20 ≤ irqNumber.toNat := by
    by_contra hlow
    obtain ⟨fault, hfault⟩ := setHandler_of_lt profile cs f self (Nat.lt_of_not_le hlow)
    rw [hfault] at h
    cases h
  rw [setHandler_of_le profile cs f self hle, Except.ok.injEq] at h
  refine ⟨hle, ?_⟩
  subst h
  rw [gate_eq, gate_eq, entries_set, Nat.add_sub_of_le hle, List.getElem?_set]
  split
  · rw [if_pos (by rw [length_entries]; exact hlt)]
    exact Gate.read_new cs f
  · rfl

/-- The descriptors from 21 on are the same. -/
theorem entries_initDefaults (handlers : Handlers) (cs : BitVec 16)
    (self : InterruptDescriptorTable) :
    (self.initDefaults handlers cs).entries = (self.initDefaults handlers cs).exceptions ++
      List.replicate 235 (.new cs handlers.defaultHandler) := by
  show _ ++ (self.reserveds.map fun _ => Descriptor.new cs handlers.defaultHandler).toList ++
    (self.userDefinedInterrupts.map fun _ => Descriptor.new cs handlers.defaultHandler).toList = _
  rw [Vector.toList_map, Vector.toList_map, List.map_const', List.map_const', Vector.length_toList,
    Vector.length_toList, List.append_assoc, List.replicate_append_replicate]

/-- The gates before `pic::set_handlers`. -/
theorem gate_initDefaults (handlers : Handlers) (cs : BitVec 16) (self : InterruptDescriptorTable)
    {vector : ℕ} (hvector : vector < 256) :
    (self.initDefaults handlers cs).gate vector =
      some (Gate.handler cs (handlers.defaultFor vector)) := by
  have hentry : (self.initDefaults handlers cs).entries[vector]? =
      some (.new cs (handlers.defaultFor vector)) := by
    rw [entries_initDefaults]
    by_cases hlow : vector < 21
    · rw [List.getElem?_append_left (by exact hlow)]
      interval_cases vector <;> rfl
    · have hlength : (self.initDefaults handlers cs).exceptions.length = 21 := rfl
      have hnot : vector ∉ errorCodeVectors := by
        simp only [errorCodeVectors, List.mem_cons, List.not_mem_nil, or_false]
        omega
      rw [List.getElem?_append_right (by omega), hlength, List.getElem?_replicate_of_lt (by omega),
        Handlers.defaultFor, if_neg hnot]
  rw [gate_eq, hentry]
  exact Gate.read_new cs _

/-- A series of calls of `set_handler`. -/
def run (profile : Profile) (cs : BitVec 16) (calls : List (UInt8 × BitVec 64))
    (self : InterruptDescriptorTable) : Except Fault InterruptDescriptorTable :=
  calls.foldlM (fun table call => table.setHandler profile cs call.1 call.2) self

/-- The first call of a series. -/
theorem run_cons_eq_ok {profile : Profile} {cs : BitVec 16} {call : UInt8 × BitVec 64}
    {calls : List (UInt8 × BitVec 64)} {self t : InterruptDescriptorTable} :
    self.run profile cs (call :: calls) = .ok t ↔
      ∃ table, self.setHandler profile cs call.1 call.2 = .ok table ∧
        table.run profile cs calls = .ok t :=
  Except.bind_eq_ok

/-- A series of calls returns exactly when all its vectors are from 32 on. -/
theorem run_ok_iff (profile : Profile) (cs : BitVec 16) (calls : List (UInt8 × BitVec 64))
    (self : InterruptDescriptorTable) :
    (∃ t, self.run profile cs calls = .ok t) ↔ ∀ call ∈ calls, 0x20 ≤ call.1.toNat := by
  induction calls generalizing self with
  | nil => exact iff_of_true ⟨self, rfl⟩ fun _ h => nomatch h
  | cons call calls ih =>
    rw [List.forall_mem_cons]
    simp only [run_cons_eq_ok]
    constructor
    · rintro ⟨t, table, hset, hrun⟩
      exact ⟨(gate_setHandler hset 0).1, (ih table).mp ⟨t, hrun⟩⟩
    · rintro ⟨hle, hcalls⟩
      have hset := setHandler_of_le profile cs call.2 self hle
      obtain ⟨t, hrun⟩ := (ih _).mpr hcalls
      exact ⟨t, _, hset, hrun⟩

/-- After a series of calls, a vector leads to the handler of its last call. -/
theorem gate_run {profile : Profile} {cs : BitVec 16} {calls : List (UInt8 × BitVec 64)}
    {self t : InterruptDescriptorTable} (h : self.run profile cs calls = .ok t) (vector : ℕ) :
    t.gate vector = ((calls.reverse.find? fun call => call.1.toNat = vector).map
      fun call => Gate.handler cs call.2).or (self.gate vector) := by
  induction calls generalizing self with
  | nil =>
    obtain rfl := Except.ok.inj h
    rfl
  | cons call calls ih =>
    obtain ⟨table, hset, hrun⟩ := run_cons_eq_ok.mp h
    rw [ih hrun, (gate_setHandler hset vector).2, List.reverse_cons, List.find?_append]
    by_cases hvector : call.1.toNat = vector
    · cases calls.reverse.find? fun call => call.1.toNat = vector <;> simp [hvector]
    · cases calls.reverse.find? fun call => call.1.toNat = vector <;> simp [hvector]

/-- `init` and a series of calls of `set_handler` return exactly when the calls are for vectors from
32 on, in both profiles and whatever was in memory. Then the processor finds, for each of the 256
vectors, a trap gate of the kernel to the handler that was registered last, and no other gate. -/
theorem init_run (profile : Profile) (handlers : Handlers) (cs : BitVec 16)
    (calls : List (UInt8 × BitVec 64)) (self : InterruptDescriptorTable) :
    ((∃ t, (self.init profile handlers cs >>= run profile cs calls) = .ok t) ↔
      ∀ call ∈ calls, 0x20 ≤ call.1.toNat) ∧
    ∀ t, (self.init profile handlers cs >>= run profile cs calls) = .ok t →
      ∀ vector, t.gate vector = if vector < 256 then
        some (Gate.handler cs (handlers.registered calls vector)) else none := by
  obtain ⟨table, hinit⟩ : ∃ table, self.init profile handlers cs = .ok table :=
    ⟨_, setHandler_of_le profile cs handlers.timerHandler _ (by decide)⟩
  have hbind : (self.init profile handlers cs >>= run profile cs calls) =
      run profile cs calls table := by rw [hinit]; rfl
  rw [hbind]
  refine ⟨run_ok_iff profile cs calls table, fun t hrun vector => ?_⟩
  by_cases hvector : vector < 256
  · rw [if_pos hvector, gate_run hrun, (gate_setHandler hinit vector).2,
      gate_initDefaults _ _ _ hvector, Handlers.registered]
    cases calls.reverse.find? fun call => call.1.toNat = vector with
    | some call => rfl
    | none =>
      by_cases htimer : vector = irqNumberTimer.toNat
      · simp [htimer]
      · simp [htimer, Ne.symm htimer]
  · rw [if_neg hvector, gate_eq, List.getElem?_eq_none (by rw [length_entries]; omega)]
    rfl

end InterruptDescriptorTable

end Axel.Interrupt
