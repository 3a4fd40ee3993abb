import Mathlib.Data.Nat.Bitwise
import Mathlib.Tactic.Ring

/-!
# Counters that are read in two words

A counter that is wider than a load is read word by word while it keeps running. This
file describes the value that is put together from the low word of one sample and the
high word of a later one: it exceeds the first sample by one full range of the low word
for each time the low word has wrapped around in between.
-/

namespace SplitCounter

/-- The value with the low word of the sample `lo` and the high word of the sample `hi`,
for words with `b` values. -/
def join (b lo hi : ℕ) : ℕ := hi / b * b + lo % b

/-- How often the low word wraps around between two samples. -/
def wraps (b lo hi : ℕ) : ℕ := hi / b - lo / b

/-- Joining the words with a shift, as a program does. -/
theorem shiftLeft_or_eq_join (w lo hi : ℕ) :
    (hi / 2 ^ w) <<< w ||| lo % 2 ^ w = join (2 ^ w) lo hi := by
  rw [← Nat.shiftLeft_add_eq_or_of_lt (Nat.mod_lt _ (Nat.two_pow_pos w)), Nat.shiftLeft_eq]
  rfl

/-- The joined value is ahead of the first sample by the wrap-arounds in between. -/
theorem join_eq {b lo hi : ℕ} (h : lo ≤ hi) : join b lo hi = lo + b * wraps b lo hi := by
  have hdiv : lo / b ≤ hi / b := Nat.div_le_div_right h
  calc join b lo hi
      = (lo / b + wraps b lo hi) * b + lo % b := by
        unfold join wraps
        rw [Nat.add_sub_cancel' hdiv]
    _ = (lo / b * b + lo % b) + b * wraps b lo hi := by ring
    _ = lo + b * wraps b lo hi := by rw [Nat.div_add_mod']

/-- The joined value is never behind the first sample. -/
theorem le_join {b lo hi : ℕ} (h : lo ≤ hi) : lo ≤ join b lo hi := by
  rw [join_eq h]
  exact Nat.le_add_right _ _

/-- The joined value fits in the width of the counter. -/
theorem join_lt {b c lo hi : ℕ} (hb : 0 < b) (h : hi < c * b) : join b lo hi < c * b := by
  have hdiv : hi / b + 1 ≤ c := (Nat.div_lt_iff_lt_mul hb).mpr h
  calc join b lo hi
      < hi / b * b + b := Nat.add_lt_add_left (Nat.mod_lt _ hb) _
    _ = (hi / b + 1) * b := by ring
    _ ≤ c * b := Nat.mul_le_mul_right b hdiv

end SplitCounter
