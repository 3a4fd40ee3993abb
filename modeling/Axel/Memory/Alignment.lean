import Axel.Fault
import Axel.Lib.Rounding
import Mathlib.Data.Nat.Bitwise

/-!
# Alignment of addresses

The trait `Alignment` rounds an address to a multiple of a power of two by masking
with a complement. This file embeds both functions with their overflow checks and
gives them their arithmetic meaning.
-/

namespace Axel

/-- `Alignment::align_up`: add the mask, then clear the low bits. -/
def alignUp (self alignment : ℕ) : Except Fault ℕ := do
  let mask ← checkedSub alignment 1
  let sum ← checkedAdd self mask
  return sum &&& (usizeCount - 1 - mask)

/-- `Alignment::align_down`: clear the low bits. -/
def alignDown (self alignment : ℕ) : Except Fault ℕ := do
  let mask ← checkedSub alignment 1
  return self &&& (usizeCount - 1 - mask)

/-- Masking a 64-bit value with the complement of `2 ^ k - 1` removes the remainder
modulo `2 ^ k`. -/
theorem and_complement_mask {x k : ℕ} (hx : x < usizeCount) (hk : k ≤ 64) :
    x &&& (usizeCount - 1 - (2 ^ k - 1)) = x / 2 ^ k * 2 ^ k := by
  have hpow : 2 ^ k ≤ 2 ^ 64 := Nat.pow_le_pow_right (by decide) hk
  apply Nat.eq_of_testBit_eq
  intro i
  have hmask : (usizeCount - 1 - (2 ^ k - 1)).testBit i = (decide (i < 64) && !decide (i < k)) := by
    have h := Nat.testBit_two_pow_sub_succ (x := 2 ^ k - 1) (n := 64) (by omega) i
    rw [Nat.testBit_two_pow_sub_one] at h
    rw [← h]
    congr 1
    unfold usizeCount
    omega
  rw [Nat.testBit_and, hmask, Nat.testBit_mul_two_pow, Nat.testBit_div_two_pow]
  by_cases hik : i < k
  · have : ¬k ≤ i := by omega
    simp [hik, this]
  · have hki : k ≤ i := by omega
    rw [Nat.sub_add_cancel hki]
    by_cases hi : i < 64
    · simp [hi, hik, hki]
    · have hbit : x.testBit i = false := by
        apply Nat.testBit_lt_two_pow
        exact lt_of_lt_of_le hx (Nat.pow_le_pow_right (by decide) (by omega))
      simp [hbit]

/-- Rounding up to a multiple of `2 ^ k` returns the quotient rounded up, as long as
the addition of the mask stays in range. -/
theorem alignUp_eq {x k : ℕ} (hk : k ≤ 64) (h : x + (2 ^ k - 1) < usizeCount) :
    alignUp x (2 ^ k) = .ok ((x + (2 ^ k - 1)) / 2 ^ k * 2 ^ k) := by
  unfold alignUp
  rw [checkedSub_ok Nat.one_le_two_pow, ← and_complement_mask h hk]
  simp only [bind, Except.bind, checkedAdd_ok h, pure, Except.pure]

/-- Rounding down to a multiple of `2 ^ k` returns the quotient rounded down. -/
theorem alignDown_eq {x k : ℕ} (hk : k ≤ 64) (hx : x < usizeCount) :
    alignDown x (2 ^ k) = .ok (x / 2 ^ k * 2 ^ k) := by
  unfold alignDown
  rw [checkedSub_ok Nat.one_le_two_pow, ← and_complement_mask hx hk]
  simp only [bind, Except.bind, pure, Except.pure]

/-- A rounded address is the least multiple of `2 ^ k` that is not below the given one. -/
theorem alignUp_spec {x y k : ℕ} (hk : k ≤ 64) (h : alignUp x (2 ^ k) = .ok y) :
    x ≤ y ∧ y < x + 2 ^ k ∧ 2 ^ k ∣ y := by
  have hpos : 0 < 2 ^ k := Nat.two_pow_pos k
  obtain ⟨mask, hmask, hrest⟩ := Except.bind_eq_ok.mp h
  obtain ⟨sum, hsum, -⟩ := Except.bind_eq_ok.mp hrest
  obtain ⟨-, rfl⟩ := checkedSub_eq_ok.mp hmask
  have hlt := (checkedAdd_eq_ok.mp hsum).1
  have hy : (x + (2 ^ k - 1)) / 2 ^ k * 2 ^ k = y :=
    Except.ok.inj ((alignUp_eq hk hlt).symm.trans h)
  have hdiv := Nat.div_add_mod' (x + (2 ^ k - 1)) (2 ^ k)
  rw [hy] at hdiv
  exact ⟨by omega, by omega, hy ▸ Nat.dvd_mul_left _ _⟩

/-- An aligned address is aligned to nothing else. -/
theorem alignUp_of_dvd {x k : ℕ} (hk : k ≤ 64) (hx : x + (2 ^ k - 1) < usizeCount)
    (hdvd : 2 ^ k ∣ x) : alignUp x (2 ^ k) = .ok x := by
  rw [alignUp_eq hk hx]
  obtain ⟨n, rfl⟩ := hdvd
  have hpos : 0 < 2 ^ k := Nat.two_pow_pos k
  rw [Nat.mul_add_div hpos, Nat.div_eq_of_lt (by omega), Nat.add_zero, Nat.mul_comm]

/-- `align_down` rounds to a multiple of the alignment. -/
theorem alignDown_isGreatest {x k : ℕ} (hk : k ≤ 64) (hx : x < usizeCount) :
    ∃ d, alignDown x (2 ^ k) = .ok d ∧ IsGreatest {m | 2 ^ k ∣ m ∧ m ≤ x} d :=
  ⟨_, alignDown_eq hk hx, Rounding.isGreatest_div_mul (Nat.two_pow_pos k) x⟩

/-- `align_up` rounds to a multiple of the alignment. -/
theorem alignUp_isLeast {x k : ℕ} (hk : k ≤ 64) (hx : x + (2 ^ k - 1) < usizeCount) :
    ∃ u, alignUp x (2 ^ k) = .ok u ∧ IsLeast {m | 2 ^ k ∣ m ∧ x ≤ m} u :=
  ⟨_, alignUp_eq hk hx, Rounding.isLeast_div_mul (Nat.two_pow_pos k) x⟩

/-- An address that was rounded down is not changed by rounding it again. -/
theorem alignDown_alignDown {x d k : ℕ} (hk : k ≤ 64) (hx : x < usizeCount)
    (h : alignDown x (2 ^ k) = .ok d) : alignDown d (2 ^ k) = .ok d := by
  obtain ⟨d', hd', hgreatest⟩ := alignDown_isGreatest hk hx
  obtain rfl : d' = d := Except.ok.inj (hd'.symm.trans h)
  obtain ⟨e, he, hagain⟩ := alignDown_isGreatest hk (lt_of_le_of_lt hgreatest.1.2 hx)
  rw [he, hagain.unique (Rounding.down_self hgreatest)]

/-- The address space ends at a multiple of the alignment, so that an address that was
rounded up can be rounded again. -/
theorem alignUp_room {x u k : ℕ} (hk : k ≤ 64) (hx : x + (2 ^ k - 1) < usizeCount)
    (h : alignUp x (2 ^ k) = .ok u) : u + (2 ^ k - 1) < usizeCount := by
  have hpos : 0 < 2 ^ k := Nat.two_pow_pos k
  have hdvd : 2 ^ k ∣ usizeCount := Nat.pow_dvd_pow 2 hk
  obtain ⟨u', hu', hleast⟩ := alignUp_isLeast hk hx
  obtain rfl : u' = u := Except.ok.inj (hu'.symm.trans h)
  have hle : u' ≤ usizeCount - 2 ^ k :=
    hleast.2 ⟨Nat.dvd_sub hdvd (Nat.dvd_refl _), by omega⟩
  omega

/-- An address that was rounded up is not changed by rounding it again. -/
theorem alignUp_alignUp {x u k : ℕ} (hk : k ≤ 64) (hx : x + (2 ^ k - 1) < usizeCount)
    (h : alignUp x (2 ^ k) = .ok u) : alignUp u (2 ^ k) = .ok u := by
  obtain ⟨u', hu', hleast⟩ := alignUp_isLeast hk hx
  obtain rfl : u' = u := Except.ok.inj (hu'.symm.trans h)
  obtain ⟨v, hv, hagain⟩ := alignUp_isLeast hk (alignUp_room hk hx h)
  rw [hv, hagain.unique (Rounding.up_self hleast)]

/-- `align_down` and `align_up` round down and up to the multiples of the alignment, for
every power of two and every address for which the mask can be added: both are idempotent
and monotone, they agree exactly on the multiples, and elsewhere they are neighbours. -/
theorem alignment_rounds {a : ℕ} (ha : a.isPowerOfTwo) (hlt : a < usizeCount) :
    (∀ x < usizeCount, ∃ d, alignDown x a = .ok d ∧ IsGreatest {m | a ∣ m ∧ m ≤ x} d ∧
      alignDown d a = .ok d) ∧
    (∀ x x', x ≤ x' → x' < usizeCount →
      ∃ d d', alignDown x a = .ok d ∧ alignDown x' a = .ok d' ∧ d ≤ d') ∧
    (∀ x, x + (a - 1) < usizeCount → ∃ d u, alignDown x a = .ok d ∧ alignUp x a = .ok u ∧
      IsLeast {m | a ∣ m ∧ x ≤ m} u ∧ (u = d ↔ a ∣ x) ∧ (¬a ∣ x → u = d + a) ∧
      alignUp u a = .ok u) ∧
    (∀ x x', x ≤ x' → x' + (a - 1) < usizeCount →
      ∃ u u', alignUp x a = .ok u ∧ alignUp x' a = .ok u' ∧ u ≤ u') := by
  obtain ⟨k, rfl⟩ := ha
  have hk : k ≤ 64 := (Nat.pow_lt_pow_iff_right (by decide)).mp hlt |>.le
  refine ⟨fun x hx => ?_, fun x x' hle hx' => ?_, fun x hx => ?_, fun x x' hle hx' => ?_⟩
  · obtain ⟨d, hd, hgreatest⟩ := alignDown_isGreatest hk hx
    exact ⟨d, hd, hgreatest, alignDown_alignDown hk hx hd⟩
  · obtain ⟨d, hd, hgreatest⟩ := alignDown_isGreatest hk (lt_of_le_of_lt hle hx')
    obtain ⟨d', hd', hgreatest'⟩ := alignDown_isGreatest hk hx'
    exact ⟨d, d', hd, hd', Rounding.down_mono hgreatest hgreatest' hle⟩
  · have hdown := alignDown_eq hk (lt_of_le_of_lt (Nat.le_add_right x _) hx)
    have hup := alignUp_eq hk hx
    have hgreatest := Rounding.isGreatest_div_mul (Nat.two_pow_pos k) x
    have hleast := Rounding.isLeast_div_mul (Nat.two_pow_pos k) x
    exact ⟨_, _, hdown, hup, hleast, Rounding.up_eq_down_iff hleast hgreatest,
      Rounding.up_eq_down_add (Nat.two_pow_pos k), alignUp_alignUp hk hx hup⟩
  · obtain ⟨u, hu, hleast⟩ := alignUp_isLeast hk (x := x) (by omega)
    obtain ⟨u', hu', hleast'⟩ := alignUp_isLeast hk hx'
    exact ⟨u, u', hu, hu', Rounding.up_mono hleast hleast' hle⟩

/-- The largest address that can be rounded up to a page. -/
theorem alignment_rounds_last_page :
    alignUp (2 ^ 64 - 4096) 4096 = .ok (2 ^ 64 - 4096) ∧
    ∃ d u, alignDown (2 ^ 64 - 4097) 4096 = .ok d ∧ alignUp (2 ^ 64 - 4097) 4096 = .ok u ∧
      IsLeast {m | 4096 ∣ m ∧ 2 ^ 64 - 4097 ≤ m} u ∧ u = d + 4096 := by
  obtain ⟨-, -, hup, -⟩ := alignment_rounds (a := 4096) ⟨12, rfl⟩ (by decide)
  obtain ⟨d, u, hd, hu, hleast, -, hnext, -⟩ := hup (2 ^ 64 - 4097) (by decide)
  exact ⟨by rfl, d, u, hd, hu, hleast, hnext (by decide)⟩

end Axel
