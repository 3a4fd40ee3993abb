import Mathlib.Algebra.Group.Nat.Defs
import Mathlib.Data.Nat.Notation

/-!
# Fields of a register

A register is written through a mask: the bits of the mask take the bits of a new value, and
the others stay. The fields of a register are masks of consecutive bits. What was written to a
field is read back, and fields that do not overlap do not disturb each other.
-/

namespace BitField

variable {w : ℕ} {mask mask' value current : BitVec w} {msb lsb msb' lsb' i : ℕ}

/-- The register after a write through a mask. -/
def update (mask value current : BitVec w) : BitVec w := (current &&& ~~~mask) ||| (value &&& mask)

/-- The mask of the bits from `lsb` to `msb`. -/
def field (w msb lsb : ℕ) : BitVec w := (BitVec.allOnes w >>> (w - 1 - msb + lsb)) <<< lsb

/-- Read a field. -/
def get (msb lsb : ℕ) (current : BitVec w) : BitVec w := (current &&& field w msb lsb) >>> lsb

/-- Write a field. -/
def set (msb lsb : ℕ) (value current : BitVec w) : BitVec w :=
  update (field w msb lsb) (value <<< lsb) current

/-- The bits of a register after a write. -/
theorem getLsbD_update (i : ℕ) : (update mask value current).getLsbD i =
    if mask.getLsbD i then value.getLsbD i else current.getLsbD i := by
  by_cases hi : i < w
  · simp only [update, BitVec.getLsbD_or, BitVec.getLsbD_and, BitVec.getLsbD_not, hi]
    cases mask.getLsbD i <;> simp
  · simp [BitVec.getLsbD_of_ge _ _ (Nat.le_of_not_lt hi)]

/-- What was written through a mask is there. -/
theorem update_and_mask : update mask value current &&& mask = value &&& mask := by
  apply BitVec.eq_of_getLsbD_eq
  intro i _
  rw [BitVec.getLsbD_and, BitVec.getLsbD_and, getLsbD_update]
  cases mask.getLsbD i <;> simp

/-- Bits outside the mask are not changed. -/
theorem update_and_of_disjoint (h : mask &&& mask' = 0) :
    update mask value current &&& mask' = current &&& mask' := by
  apply BitVec.eq_of_getLsbD_eq
  intro i _
  have hbit : (mask.getLsbD i && mask'.getLsbD i) = false := by
    rw [← BitVec.getLsbD_and, h]
    exact BitVec.getLsbD_zero
  rw [BitVec.getLsbD_and, BitVec.getLsbD_and, getLsbD_update]
  cases hmask : mask.getLsbD i
  · rfl
  · rw [hmask, Bool.true_and] at hbit
    simp [hbit]

/-- The bits of a field. -/
theorem getLsbD_field (hmsb : msb < w) :
    (field w msb lsb).getLsbD i = (decide (lsb ≤ i) && decide (i ≤ msb)) := by
  simp only [field, BitVec.getLsbD_shiftLeft, BitVec.getLsbD_ushiftRight, BitVec.getLsbD_allOnes]
  by_cases hlsb : lsb ≤ i <;> by_cases hi : i ≤ msb <;> simp [hlsb, hi] <;> omega

/-- Fields that lie apart have no bit in common. -/
theorem field_and_field (hmsb : msb < w) (hmsb' : msb' < w) (h : msb < lsb' ∨ msb' < lsb) :
    field w msb lsb &&& field w msb' lsb' = 0 := by
  apply BitVec.eq_of_getLsbD_eq
  intro i _
  rw [BitVec.getLsbD_and, getLsbD_field hmsb, getLsbD_field hmsb']
  simp
  omega

/-- A field that lies apart from the one that was written is read as before. -/
theorem get_set_of_disjoint (hmsb : msb < w) (hmsb' : msb' < w) (h : msb < lsb' ∨ msb' < lsb) :
    get msb' lsb' (set msb lsb value current) = get msb' lsb' current := by
  rw [get, get, set, update_and_of_disjoint (field_and_field hmsb hmsb' h)]

/-- A value that fits into a field is read back. -/
theorem get_set (hle : lsb ≤ msb) (hmsb : msb < w) (hvalue : value.toNat < 2 ^ (msb - lsb + 1)) :
    get msb lsb (set msb lsb value current) = value := by
  rw [get, set, update_and_mask]
  apply BitVec.eq_of_getLsbD_eq
  intro i hi
  rw [BitVec.getLsbD_ushiftRight, BitVec.getLsbD_and, BitVec.getLsbD_shiftLeft,
    getLsbD_field hmsb]
  by_cases hin : i ≤ msb - lsb
  · have h₁ : lsb + i < w := by omega
    have h₂ : lsb + i ≤ msb := by omega
    simp [h₁, h₂]
  · have hzero : value.getLsbD i = false := by
      rw [← BitVec.testBit_toNat]
      exact Nat.testBit_lt_two_pow (Nat.lt_of_lt_of_le hvalue
        (Nat.pow_le_pow_right (by decide) (by omega)))
    have h₂ : ¬lsb + i ≤ msb := by omega
    simp [hzero, h₂]

/-- A mask of the low bits before a truncation to them changes nothing. -/
theorem setWidth_and_allOnes {n : ℕ} (x : BitVec w) (hn : n ≤ w) :
    (x &&& (BitVec.allOnes n).setWidth w).setWidth n = x.setWidth n := by
  apply BitVec.eq_of_getLsbD_eq
  intro i hi
  have hw : i < w := by omega
  simp [hi, hw]

end BitField
