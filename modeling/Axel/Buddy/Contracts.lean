import Axel.Buddy.Runs

/-!
# The contracts of `new` and `allocate`

`new` cuts the array into blocks from the largest order down. Each order below the largest
one receives at most one block, so these orders spell the binary digits of the number of
objects that the largest blocks leave over. `allocate` serves a request from the smallest
order that has a block, and fails only when there is none.
-/

namespace Axel.BuddyAllocator

open Dyadic

variable {T : Type} [Object T]

omit [Object T] in
/-- A push that returns adds the object to the list of one order. -/
theorem pushBack_eq_ok {s s' : BuddyAllocator T} {order x : ℕ}
    (h : s.pushBack order x = .ok s') : s' = s.pushed order x := by
  unfold pushBack at h
  split at h
  case isTrue => cases h
  case isFalse =>
    split at h
    case isTrue => cases h
    case isFalse => exact (Except.ok.inj h).symm

/-- The inner loop of `new` pushes as many blocks of its order as fit into the rest. -/
theorem fillOrder_length {count order fuel index index' : ℕ} {s s' : BuddyAllocator T}
    (h : fillOrder count order fuel index s = .ok (index', s')) (hle : index ≤ count)
    (hfuel : count - index < fuel) :
    (∀ k, k ≠ order → s'.freeLists k = s.freeLists k) ∧
      (s'.freeLists order).length = (s.freeLists order).length + (count - index) / 2 ^ order ∧
      index' ≤ count ∧ count - index' = (count - index) % 2 ^ order := by
  have hpos := Nat.two_pow_pos order
  induction fuel generalizing index s with
  | zero => omega
  | succ fuel ih =>
    rw [fillOrder, checkedSub_ok hle] at h
    simp only [bind, Except.bind] at h
    by_cases hrest : 2 ^ order ≤ count - index
    · rw [if_pos hrest] at h
      obtain ⟨next, hpush, h⟩ := Except.bind_eq_ok.mp h
      obtain rfl := pushBack_eq_ok hpush
      obtain ⟨hother, hlength, hle', hmod⟩ := ih h (by omega) (by omega)
      have hsub : count - index = count - (index + 2 ^ order) + 2 ^ order := by omega
      refine ⟨?_, ?_, hle', ?_⟩
      · intro k hk
        rw [hother k hk]
        exact Function.update_of_ne hk ..
      · rw [hlength, hsub, Nat.add_div_right _ hpos]
        simp only [pushed, Function.update_self, List.length_append, List.length_singleton,
          freeLists_modifyObj]
        omega
      · rw [hmod, hsub, Nat.add_mod_right]
    · rw [if_neg hrest] at h
      obtain ⟨rfl, rfl⟩ := Prod.mk.inj (Except.ok.inj h)
      have hlt : count - index < 2 ^ order := by omega
      refine ⟨fun _ _ => rfl, ?_, hle, (Nat.mod_eq_of_lt hlt).symm⟩
      rw [Nat.div_eq_of_lt hlt, Nat.add_zero]

/-- The outer loop of `new` gives the largest order everything that fits, and every other
order one binary digit. -/
theorem fillOrders_length {count n index index' : ℕ} {s s' : BuddyAllocator T}
    (h : fillOrders count (List.range n).reverse index s = .ok (index', s')) (hle : index ≤ count) :
    (∀ order, n ≤ order → s'.freeLists order = s.freeLists order) ∧
      ∀ order < n, (s'.freeLists order).length = (s.freeLists order).length +
        if order + 1 = n then (count - index) / 2 ^ order
        else (count - index) / 2 ^ order % 2 := by
  induction n generalizing index s with
  | zero =>
    obtain ⟨-, rfl⟩ := Prod.mk.inj (Except.ok.inj h)
    exact ⟨fun _ _ => rfl, fun order horder => absurd horder (Nat.not_lt_zero order)⟩
  | succ n ih =>
    rw [List.range_succ, List.reverse_append, List.reverse_singleton, List.singleton_append,
      fillOrders] at h
    obtain ⟨⟨index₁, s₁⟩, hfill, h⟩ := Except.bind_eq_ok.mp h
    obtain ⟨hother, hlength, hle₁, hmod⟩ := fillOrder_length hfill hle (by omega)
    obtain ⟨hkept, hrest⟩ := ih h hle₁
    constructor
    · intro order horder
      rw [hkept order (by omega), hother order (by omega)]
    · intro order horder
      by_cases hlast : order = n
      · subst hlast
        rw [if_pos rfl, hkept order le_rfl, hlength]
      · have hsplit : 2 ^ n = 2 ^ order * 2 ^ (n - order) := by
          rw [← Nat.pow_add, Nat.add_sub_cancel' (by omega)]
        rw [if_neg (by omega), hrest order (by omega), hother order hlast, hmod, hsplit,
          Nat.mod_mul_right_div_self]
        by_cases hnext : order + 1 = n
        · rw [if_pos hnext, ← hnext, Nat.add_sub_cancel_left, Nat.pow_one]
        · rw [if_neg hnext, Nat.mod_mod_of_dvd _ (dvd_pow_self 2 (by omega))]

/-- The free blocks of a new allocator. -/
structure Tiles (s : BuddyAllocator T) (count : ℕ) : Prop where
  /-- No object is in two free blocks. -/
  disjoint : s.freeBlocks.Pairwise Block.Disjoint
  /-- The free blocks cover exactly the array. -/
  covers : ∀ j, (∃ b ∈ s.freeBlocks, b.Contains j) ↔ j < count
  /-- A block has the order of its list, is marked as free and aligned. -/
  tagged : ∀ i < maxOrder, ∀ x ∈ s.freeLists i,
    Object.order (s.objs x) = i ∧ Object.isUsed (s.objs x) = false ∧ 2 ^ i ∣ x
  /-- The stored counts are the lengths of the lists. -/
  counts : ∀ i < maxOrder, s.freeCounts i = (s.freeLists i).length
  /-- The smaller orders are the binary digits of what the largest blocks leave over. -/
  digits : ∀ i < maxOrder - 1, (s.freeLists i).length = if (count % 2 ^ 14).testBit i then 1 else 0
  /-- All objects are free. -/
  total : s.countFreeObjs = count

/-- `new` tiles an array of any size, whatever its objects held before. -/
theorem new_tiles (baseAddr : ℕ) (objs : ℕ → T) (count : ℕ) :
    ∃ s, new baseAddr objs count = .ok s ∧ s.Tiles count := by
  obtain ⟨s, hnew, hfilled, -, -⟩ := new_spec baseAddr objs count
  have hwf := hfilled.wellFormed
  have hrange : ∀ b ∈ s.freeBlocks, b.start + 2 ^ b.order ≤ count := by
    intro b hb
    rw [← hfilled.objCount_eq]
    exact hwf.inRange b hb
  have hdigits : ∀ i < maxOrder - 1, (s.freeLists i).length =
      if (count % 2 ^ 14).testBit i then 1 else 0 := by
    intro i hi
    obtain ⟨⟨index, s'⟩, hfill, hs⟩ := Except.bind_eq_ok.mp hnew
    obtain rfl := Except.ok.inj hs
    have hlength := (fillOrders_length hfill (Nat.zero_le count)).2 i (by omega)
    have hlt : i < 14 := hi
    rw [if_neg (show i + 1 ≠ maxOrder by omega), Nat.sub_zero, List.length_nil, Nat.zero_add]
      at hlength
    rw [hlength, Nat.testBit_mod_two_pow, Nat.testBit_eq_decide_div_mod_eq]
    rcases Nat.mod_two_eq_zero_or_one (count / 2 ^ i) with hdigit | hdigit <;> simp [hdigit, hlt]
  refine ⟨s, hnew, pairwise_disjoint_of_cover_le_one hwf.disjoint, ?_, ?_, hwf.counts, hdigits, ?_⟩
  · intro j
    rw [← cover_pos_iff, hfilled.cover_eq]
    by_cases hj : j < count <;> simp [hj]
  · intro i hi x hx
    have hmem := mem_freeBlocks.mpr ⟨hi, hx⟩
    exact ⟨hwf.order_eq _ hmem, hwf.isFree _ hmem, hwf.aligned _ hmem⟩
  · rw [hwf.countFreeObjs, totalSize_eq_sum_cover hrange, Finset.sum_congr rfl fun j hj => by
      rw [hfilled.cover_eq, if_pos (Finset.mem_range.mp hj)]]
    simp

/-- What a call of `allocate` that takes the block `x` from the list of order `m` promises. -/
structure Served (s : BuddyAllocator T) (k m x : ℕ) (s' : BuddyAllocator T) : Prop where
  /-- The order of the block that is taken is the smallest that has one. -/
  smallest : k ≤ m ∧ m < maxOrder ∧ ∀ i, k ≤ i → i < m → s.freeLists i = []
  /-- The front block is taken, and each smaller order down to the request receives one block
  at its back. -/
  lists : ∃ rest, s.freeLists m = x :: rest ∧ ∀ i, s'.freeLists i =
    if k ≤ i ∧ i < m then s.freeLists i ++ [x + 2 ^ i]
    else if i = m then rest else s.freeLists i
  /-- The returned block is marked as used, with the requested order. -/
  tagged : Object.isUsed (s'.objs x) = true ∧ Object.order (s'.objs x) = k
  /-- Objects that start neither the returned block nor an added block are untouched. -/
  untouched : ∀ y, y ≠ x → (∀ i, k ≤ i → i < m → y ≠ x + 2 ^ i) → s'.objs y = s.objs y
  /-- The free lists are well formed. -/
  wellFormed : s'.WellFormed
  /-- The returned block meets no free block. -/
  apart : ∀ b ∈ s'.freeBlocks, (Block.mk x k).Disjoint b
  /-- The returned block meets no block that no free block met. -/
  fresh : ∀ b : Block, (∀ c ∈ s.freeBlocks, b.Disjoint c) → (Block.mk x k).Disjoint b
  /-- The number of free objects decreases by the size of the block. -/
  count : s'.countFreeObjs + 2 ^ k = s.countFreeObjs

/-- `allocate` returns `None` exactly when no list can serve the request, and changes nothing
then. Otherwise it serves the request from the smallest order that has a block. -/
theorem allocate_correct {s : BuddyAllocator T} (h : s.WellFormed) (k : ℕ) :
    ∃ result s', s.allocate k = .ok (result, s') ∧
      (result = none ↔ maxOrder ≤ k ∨ ∀ m, k ≤ m → m < maxOrder → s.freeLists m = []) ∧
      (result = none → s' = s) ∧
      ∀ x, result = some x → ∃ m, Served s k m x s' := by
  rcases allocate_cases h k with ⟨hrun, hempty⟩ |
    ⟨m, x, rest, s', hkm, hm, hempty, hlist, hrun, hspec, huntouched⟩
  · exact ⟨none, s, hrun, ⟨fun _ => Or.inr hempty, fun _ => rfl⟩, fun _ => rfl, nofun⟩
  · refine ⟨some x, s', hrun, ?_, nofun, ?_⟩
    · constructor
      · intro hnone
        cases hnone
      · rintro (hk | hall)
        · omega
        · rw [hall m hkm hm] at hlist
          cases hlist
    · intro x' hx'
      obtain rfl := Option.some.inj hx'
      have hcount : s'.countFreeObjs + 2 ^ k = s.countFreeObjs := by
        have hrange : ∀ b ∈ s'.freeBlocks, b.start + 2 ^ b.order ≤ s.objCount := by
          intro b hb
          rw [← hspec.objCount_eq]
          exact hspec.wellFormed.inRange b hb
        have hblock : ∑ j ∈ Finset.range s.objCount, (Block.mk x k).indicator j = 2 ^ k :=
          sum_indicator hspec.inRange
        rw [h.countFreeObjs, hspec.wellFormed.countFreeObjs, totalSize_eq_sum_cover h.inRange,
          totalSize_eq_sum_cover hrange, Finset.sum_congr rfl fun j _ => hspec.cover_eq j,
          Finset.sum_add_distrib, hblock]
      have hfree : ∀ j, (Block.mk x k).Contains j → 0 < cover s.freeBlocks j := by
        intro j hj
        rw [hspec.cover_eq, Block.indicator_of_contains hj]
        omega
      refine ⟨m, ⟨hkm, hm, hempty⟩, ?_, ⟨hspec.isUsed, hspec.order_eq⟩, huntouched,
        hspec.wellFormed,
        ?_, ?_, hcount⟩
      · obtain ⟨m', rest', hkm', -, hempty', hlist', hlists⟩ := hspec.lists
        obtain rfl : m = m' := by
          rcases lt_trichotomy m m' with hlt | heq | hlt
          · rw [hempty' m hkm hlt] at hlist
            cases hlist
          · exact heq
          · rw [hempty m' hkm' hlt] at hlist'
            cases hlist'
        exact ⟨rest', hlist', hlists⟩
      · intro b hb j hj
        have hle := h.disjoint j
        have hpos := cover_pos_of_mem hb hj.2
        rw [hspec.cover_eq, Block.indicator_of_contains hj.1] at hle
        omega
      · intro b hb j hj
        obtain ⟨c, hc, hcj⟩ := cover_pos_iff.mp (hfree j hj.1)
        exact hb c hc j ⟨hj.2, hcj⟩

/-- A request on the thirty-two objects of the unit tests. -/
theorem allocate_correct_thirty_two :
    ∃ s, new 0 BuddySystem.sampleObjs 32 = .ok s ∧ ∃ result s', s.allocate 4 = .ok (result, s') ∧
      (result = none ↔ maxOrder ≤ 4 ∨ ∀ m, 4 ≤ m → m < maxOrder → s.freeLists m = []) ∧
      (result = none → s' = s) ∧
      ∀ x, result = some x → ∃ m, Served s 4 m x s' := by
  obtain ⟨s, hnew, hfilled, -⟩ := new_spec 0 BuddySystem.sampleObjs 32
  exact ⟨s, hnew, allocate_correct hfilled.wellFormed 4⟩

end Axel.BuddyAllocator
