import Axel.Buddy.Contracts
import Axel.Buddy.Runs
import Mathlib.Algebra.BigOperators.Group.Finset.Piecewise
import Mathlib.Algebra.Order.BigOperators.Group.Finset

/-!
# Fragmentation

A new allocator has at most one block of every order but the largest, one for each binary digit
of the number of objects. `allocate` splits a block only when the orders below are empty, so it
adds no second block to an order, and `free` adds at most one block. The surplus counts the
further blocks of the orders. It bounds how many free objects can lie in blocks that are too
small for a request.
-/

namespace Axel

open Dyadic

variable {T : Type} [Object T]

namespace BuddyAllocator

/-- The free blocks beyond the first of each order, but the largest order. -/
def surplus (s : BuddyAllocator T) : ℕ :=
  ∑ i ∈ Finset.range (maxOrder - 1), ((s.freeLists i).length - 1)

variable {s s' : BuddyAllocator T} {k x : ℕ}

/-- A new allocator has no surplus. -/
theorem surplus_of_new {baseAddr count : ℕ} {objs : ℕ → T}
    (hnew : new baseAddr objs count = .ok s) :
    s.surplus = 0 := by
  obtain ⟨⟨index, s₁⟩, hfill, hs⟩ := Except.bind_eq_ok.mp hnew
  obtain rfl := Except.ok.inj hs
  apply Finset.sum_eq_zero
  intro i hi
  have hlt := Finset.mem_range.mp hi
  have hlength := (fillOrders_length hfill (Nat.zero_le count)).2 i (by omega)
  rw [if_neg (by omega), List.length_nil] at hlength
  omega

/-- The free objects after an allocation. -/
theorem Allocated.countFreeObjs (h : s.Allocated k x s') (hwf : s.WellFormed) :
    s.countFreeObjs = s'.countFreeObjs + 2 ^ k := by
  have hrange : ∀ b ∈ s'.freeBlocks, b.start + 2 ^ b.order ≤ s.objCount := by
    rw [← h.objCount_eq]
    exact h.wellFormed.inRange
  rw [h.wellFormed.countFreeObjs, hwf.countFreeObjs, totalSize_eq_sum_cover hrange,
    totalSize_eq_sum_cover hwf.inRange, ← sum_indicator (b := ⟨x, k⟩) h.inRange,
    ← Finset.sum_add_distrib]
  exact Finset.sum_congr rfl fun j _ => h.cover_eq j

/-- An allocation adds no surplus: a split fills orders that were empty. -/
theorem Allocated.surplus_le (h : s.Allocated k x s') : s'.surplus ≤ s.surplus := by
  obtain ⟨m, rest, -, -, hempty, hlist, hlists⟩ := h.lists
  apply Finset.sum_le_sum
  intro i _
  rw [hlists]
  split
  case isTrue hsplit =>
    rw [hempty i hsplit.1 hsplit.2]
    simp
  case isFalse hkept =>
    split
    case isTrue hm =>
      subst hm
      rw [hlist, List.length_cons]
      omega
    case isFalse => exact le_rfl

/-- A free adds at most one block to the surplus. -/
theorem surplus_of_free (hwf : s.WellFormed) (hk : k < maxOrder)
    (horder : Object.order (s.objs x) = k) (haligned : 2 ^ k ∣ x) (hrange : x + 2 ^ k ≤ s.objCount)
    (hcover : ∀ j, (Block.mk x k).Contains j → cover s.freeBlocks j = 0)
    (hrun : s.free x = .ok s') : s'.surplus ≤ s.surplus + 1 := by
  obtain ⟨-, hfault⟩ := free_spec hwf hk horder haligned hrange hcover
  by_cases hsafe : s.MergeSafe x
  · rw [MergeSafe, horder] at hsafe
    obtain ⟨top, hle, htop, hclimb, hstop⟩ := hsafe
    obtain ⟨s₁, hrun', -, hlists⟩ :=
      free_climb hwf horder haligned hrange hcover hle htop hclimb hstop
    rw [hrun] at hrun'
    obtain rfl := Except.ok.inj hrun'
    calc s'.surplus
        ≤ ∑ i ∈ Finset.range (maxOrder - 1),
          ((s.freeLists i).length - 1 + if i = top then 1 else 0) := by
          apply Finset.sum_le_sum
          intro i _
          rw [hlists]
          split
          case isTrue hmerged =>
            rw [List.length_erase_of_mem (hclimb i hmerged.1 hmerged.2)]
            omega
          case isFalse =>
            split
            case isTrue =>
              rw [List.length_append, List.length_singleton]
              omega
            case isFalse => exact le_rfl
      _ = s.surplus + ∑ i ∈ Finset.range (maxOrder - 1), if i = top then 1 else 0 :=
          Finset.sum_add_distrib
      _ ≤ s.surplus + 1 := by
          rw [Finset.sum_ite_eq']
          split <;> omega
  · exact absurd hrun (hfault hsafe s')

/-- When no block can serve a request, the free objects are those of one smaller block of each
order and of the surplus. -/
theorem countFreeObjs_lt (hwf : s.WellFormed) (hk : k < maxOrder)
    (hempty : ∀ i, k ≤ i → i < maxOrder → s.freeLists i = []) :
    s.countFreeObjs < 2 ^ k + s.surplus * 2 ^ (k - 1) := by
  have hsum : ∀ n ≤ maxOrder - 1,
      ((List.range n).map fun i => (s.freeLists i).length * 2 ^ i).sum < 2 ^ min n k +
        (∑ i ∈ Finset.range n, ((s.freeLists i).length - 1)) * 2 ^ (k - 1) := by
    intro n
    induction n with
    | zero => simp
    | succ n ih =>
      intro hn
      rw [List.range_succ, List.map_append, List.sum_append, List.map_singleton,
        List.sum_singleton, Finset.sum_range_succ, Nat.add_mul]
      have hprevious := ih (by omega)
      by_cases hbelow : n < k
      · have hlength : (s.freeLists n).length ≤ 1 + ((s.freeLists n).length - 1) := by omega
        have hpow : 2 ^ n ≤ 2 ^ (k - 1) := Nat.pow_le_pow_right (by decide) (by omega)
        have hblocks : (s.freeLists n).length * 2 ^ n ≤
            2 ^ n + ((s.freeLists n).length - 1) * 2 ^ (k - 1) :=
          calc (s.freeLists n).length * 2 ^ n
              ≤ (1 + ((s.freeLists n).length - 1)) * 2 ^ n := Nat.mul_le_mul_right _ hlength
            _ = 2 ^ n + ((s.freeLists n).length - 1) * 2 ^ n := by rw [Nat.add_mul, Nat.one_mul]
            _ ≤ _ := Nat.add_le_add_left (Nat.mul_le_mul_left _ hpow) _
        rw [min_eq_left (by omega)] at hprevious ⊢
        rw [pow_succ]
        omega
      · rw [hempty n (by omega) (by omega), List.length_nil, min_eq_right (by omega)]
        rw [min_eq_right (by omega)] at hprevious
        omega
  have hall := hsum (maxOrder - 1) le_rfl
  rw [min_eq_right (by omega)] at hall
  have hmax : maxOrder = maxOrder - 1 + 1 := rfl
  rw [hwf.countFreeObjs, freeBlocks, totalSize_blocksOf, hmax, List.range_succ, List.map_append,
    List.sum_append, List.map_singleton, List.sum_singleton,
    hempty (maxOrder - 1) (by omega) (by decide), List.length_nil, Nat.zero_mul, Nat.add_zero]
  exact hall

/-- A request is served when enough objects are free. -/
theorem allocate_some (hwf : s.WellFormed) (hk : k < maxOrder)
    (hfree : 2 ^ k + s.surplus * 2 ^ (k - 1) ≤ s.countFreeObjs) :
    ∃ x s', s.allocate k = .ok (some x, s') ∧ s.Allocated k x s' := by
  rcases allocate_spec hwf k with ⟨-, hempty⟩ | hsome
  · exact absurd (countFreeObjs_lt hwf hk hempty) (not_lt.mpr hfree)
  · exact hsome

end BuddyAllocator

namespace BuddyCall

/-- Whether a call gives back a block. -/
def isFree : BuddyCall → Bool
  | .allocate _ => false
  | .free _ => true

end BuddyCall

namespace BuddySystem

end BuddySystem

end Axel
