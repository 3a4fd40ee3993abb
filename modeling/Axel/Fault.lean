import Mathlib.Algebra.Group.Nat.Defs
import Mathlib.Data.Nat.Notation
import Mathlib.Logic.Basic

/-!
# Faults and checked arithmetic

The kernel is built with the debug profile, where an arithmetic overflow, a failed
`debug_assert!` and an index past the end of an array stop the machine. A model of
such code returns a value or one of the faults below. Addresses and counters are
natural numbers; `usize` has 64 bits, and the checked operations say when a result
leaves that range. Errors that the source returns as values stay values.
-/

namespace Axel

/-- The events that stop the kernel: the panics of a debug build, the two processor
exceptions a memory access can raise, and a call that breaks the safety contract of
an intrusive list. -/
inductive Fault where
  /-- A checked addition, subtraction or multiplication left the range of `usize`. -/
  | overflow
  /-- A `debug_assert!` or `debug_assert_eq!` failed. -/
  | debugAssert
  /-- An explicit `panic!`, `unimplemented!`, or an `unwrap` of `None` or `Err`. -/
  | panic
  /-- An array was indexed past its end. -/
  | indexOutOfBounds
  /-- `cursor_mut_from_ptr` was called with an object that is not in the list. -/
  | notInList
  /-- An object that is linked already was pushed to an intrusive list. -/
  | alreadyLinked
  /-- The page walk of an accessed address met an entry that is not present. -/
  | pageFault (addr : ℕ)
  /-- The accessed address is not canonical. -/
  | generalProtection (addr : ℕ)
  deriving DecidableEq, Repr

/-- `paging::table::Error`, the errors of the page-table functions. -/
inductive TableError where
  /-- No page table. -/
  | noPageTable
  /-- Already mapped page. -/
  | alreadyMapped
  /-- There is no page table entry. -/
  | noEntry
  deriving DecidableEq, Repr

/-- `memory::Error`, the errors of the memory initialisation. -/
inductive MemoryError where
  /-- No usable memory region. -/
  | noUsableMemory
  /-- Page table error. -/
  | pageTable (inner : TableError)
  deriving DecidableEq, Repr

/-- The number of values of `usize`. -/
def usizeCount : ℕ := 2 ^ 64

/-- Addition of `usize` values with the overflow check of a debug build. -/
def checkedAdd (a b : ℕ) : Except Fault ℕ :=
  if a + b < usizeCount then .ok (a + b) else .error .overflow

/-- Subtraction of `usize` values with the overflow check of a debug build. -/
def checkedSub (a b : ℕ) : Except Fault ℕ :=
  if b ≤ a then .ok (a - b) else .error .overflow

/-- Multiplication of `usize` values with the overflow check of a debug build. -/
def checkedMul (a b : ℕ) : Except Fault ℕ :=
  if a * b < usizeCount then .ok (a * b) else .error .overflow

/-- A debug assertion. -/
def debugAssert (condition : Bool) : Except Fault Unit :=
  if condition then .ok () else .error .debugAssert

/-- An addition that stays in range succeeds with the sum. -/
theorem checkedAdd_ok {a b : ℕ} (h : a + b < usizeCount) : checkedAdd a b = .ok (a + b) :=
  if_pos h

/-- A subtraction that does not underflow succeeds with the difference. -/
theorem checkedSub_ok {a b : ℕ} (h : b ≤ a) : checkedSub a b = .ok (a - b) := if_pos h

/-- A multiplication that stays in range succeeds with the product. -/
theorem checkedMul_ok {a b : ℕ} (h : a * b < usizeCount) : checkedMul a b = .ok (a * b) :=
  if_pos h

/-- A checked addition returns exactly when it stays in range. -/
theorem checkedAdd_eq_ok {a b c : ℕ} :
    checkedAdd a b = .ok c ↔ a + b < usizeCount ∧ a + b = c := by
  unfold checkedAdd
  split
  case isTrue h => simp [h]
  case isFalse h => simp [h]

/-- A checked subtraction returns exactly when it does not underflow. -/
theorem checkedSub_eq_ok {a b c : ℕ} : checkedSub a b = .ok c ↔ b ≤ a ∧ a - b = c := by
  unfold checkedSub
  split
  case isTrue h => simp [h]
  case isFalse h => simp [h]

/-- A checked multiplication returns exactly when it stays in range. -/
theorem checkedMul_eq_ok {a b c : ℕ} :
    checkedMul a b = .ok c ↔ a * b < usizeCount ∧ a * b = c := by
  unfold checkedMul
  split
  case isTrue h => simp [h]
  case isFalse h => simp [h]

/-- A debug assertion returns exactly when its condition holds. -/
theorem debugAssert_eq_ok {condition : Bool} {u : Unit} :
    debugAssert condition = .ok u ↔ condition = true := by
  unfold debugAssert
  split <;> simp_all

/-- A sequence of two fallible computations returns exactly when both do. -/
theorem Except.bind_eq_ok {ε β γ : Type} {x : Except ε β} {f : β → Except ε γ} {c : γ} :
    (x >>= f) = .ok c ↔ ∃ b, x = .ok b ∧ f b = .ok c := by
  cases x with
  | error e => simp [bind, Except.bind]
  | ok b => simp [bind, Except.bind]

end Axel
