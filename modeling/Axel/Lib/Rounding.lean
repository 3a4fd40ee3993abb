import Mathlib.Order.Bounds.Basic
import Mathlib.Order.Nat

/-!
# Rounding to a set of values

Rounding down takes a value to the greatest member of a set that is not above it, and
rounding up to the least member that is not below it. Both are idempotent and monotone
whatever the set is. For the multiples of a positive number they are computed by a
division.
-/

namespace Rounding

section Order

variable {α : Type*} [PartialOrder α] {p : α → Prop} {x x' y y' : α}

/-- A value that was rounded down is rounded down to itself. -/
theorem down_self (h : IsGreatest {m | p m ∧ m ≤ x} y) : IsGreatest {m | p m ∧ m ≤ y} y :=
  ⟨⟨h.1.1, le_rfl⟩, fun _ hm => hm.2⟩

/-- Rounding down is monotone. -/
theorem down_mono (h : IsGreatest {m | p m ∧ m ≤ x} y) (h' : IsGreatest {m | p m ∧ m ≤ x'} y')
    (hx : x ≤ x') : y ≤ y' :=
  h'.2 ⟨h.1.1, h.1.2.trans hx⟩

/-- A value that was rounded up is rounded up to itself. -/
theorem up_self (h : IsLeast {m | p m ∧ x ≤ m} y) : IsLeast {m | p m ∧ y ≤ m} y :=
  ⟨⟨h.1.1, le_rfl⟩, fun _ hm => hm.2⟩

/-- Rounding up is monotone. -/
theorem up_mono (h : IsLeast {m | p m ∧ x ≤ m} y) (h' : IsLeast {m | p m ∧ x' ≤ m} y')
    (hx : x ≤ x') : y ≤ y' :=
  h.2 ⟨h'.1.1, hx.trans h'.1.2⟩

/-- Both directions agree exactly on the members of the set. -/
theorem up_eq_down_iff (hup : IsLeast {m | p m ∧ x ≤ m} y)
    (hdown : IsGreatest {m | p m ∧ m ≤ x} y') : y = y' ↔ p x := by
  constructor
  · intro h
    have hxy : x = y := le_antisymm hup.1.2 (h ▸ hdown.1.2)
    exact hxy ▸ hup.1.1
  · intro hx
    have hy : y = x := le_antisymm (hup.2 ⟨hx, le_rfl⟩) hup.1.2
    have hy' : y' = x := le_antisymm hdown.1.2 (hdown.2 ⟨hx, le_rfl⟩)
    rw [hy, hy']

end Order

variable {a x : ℕ}

/-- Rounding down to a multiple. -/
theorem isGreatest_div_mul (ha : 0 < a) (x : ℕ) : IsGreatest {m | a ∣ m ∧ m ≤ x} (x / a * a) := by
  refine ⟨⟨Nat.dvd_mul_left a _, Nat.div_mul_le_self x a⟩, ?_⟩
  rintro m ⟨⟨c, rfl⟩, hm⟩
  have hc : c ≤ x / a := (Nat.le_div_iff_mul_le ha).mpr (by rwa [Nat.mul_comm])
  calc a * c
      = c * a := Nat.mul_comm a c
    _ ≤ x / a * a := Nat.mul_le_mul_right a hc

/-- Rounding up to a multiple. -/
theorem isLeast_div_mul (ha : 0 < a) (x : ℕ) :
    IsLeast {m | a ∣ m ∧ x ≤ m} ((x + (a - 1)) / a * a) := by
  have hmod := Nat.mod_lt (x + (a - 1)) ha
  have hdiv := Nat.div_add_mod' (x + (a - 1)) a
  refine ⟨⟨Nat.dvd_mul_left a _, by omega⟩, ?_⟩
  rintro m ⟨⟨c, rfl⟩, hm⟩
  have hc : (x + (a - 1)) / a ≤ c :=
    Nat.le_of_lt_succ ((Nat.div_lt_iff_lt_mul ha).mpr (by rw [Nat.succ_mul, Nat.mul_comm c]; omega))
  calc (x + (a - 1)) / a * a
      ≤ c * a := Nat.mul_le_mul_right a hc
    _ = a * c := Nat.mul_comm c a

/-- Between two neighbouring multiples, both directions differ by their distance. -/
theorem up_eq_down_add (ha : 0 < a) (hx : ¬a ∣ x) : (x + (a - 1)) / a * a = x / a * a + a := by
  have hpos : 0 < x % a := Nat.pos_of_ne_zero fun h => hx (Nat.dvd_of_mod_eq_zero h)
  have hmod := Nat.mod_lt x ha
  have hdiv := Nat.div_add_mod' x a
  have hquot : (x + (a - 1)) / a = x / a + 1 := by
    apply Nat.div_eq_of_lt_le
    · rw [Nat.succ_mul]
      omega
    · rw [Nat.succ_mul, Nat.succ_mul]
      omega
  rw [hquot, Nat.succ_mul]

end Rounding
