import Mathlib.Algebra.BigOperators.Group.Finset.Basic
import Mathlib.Data.Nat.Bitwise
import Mathlib.Order.Interval.Finset.Nat
import Mathlib.Order.Interval.Set.Disjoint
import Mathlib.Tactic.Ring

/-!
# Dyadic blocks

A dyadic block is an interval of natural numbers whose length is a power of two. The
blocks of one order that start at a multiple of their length come in pairs of
buddies, which together form a block of the next order. This file describes lists
of blocks by the number of members that contain a given index: disjointness, exact
covers and total sizes are all read off that count, and splitting or merging
buddies leaves it unchanged.
-/

namespace Dyadic

/-- The interval of `2 ^ order` numbers from `start` on. -/
structure Block where
  /-- The least member. -/
  start : ℕ
  /-- The exponent of the length. -/
  order : ℕ
  deriving DecidableEq, Repr

/-- Membership in the interval of a block. -/
def Block.Contains (b : Block) (j : ℕ) : Prop := b.start ≤ j ∧ j < b.start + 2 ^ b.order

instance (b : Block) (j : ℕ) : Decidable (b.Contains j) := inferInstanceAs (Decidable (_ ∧ _))

/-- Two blocks without a common member. -/
def Block.Disjoint (b c : Block) : Prop := ∀ j, ¬(b.Contains j ∧ c.Contains j)

/-- A block starts at a multiple of its length. -/
def Block.Aligned (b : Block) : Prop := 2 ^ b.order ∣ b.start

/-- One if the block contains the index, and zero otherwise. -/
def Block.indicator (b : Block) (j : ℕ) : ℕ := if b.Contains j then 1 else 0

/-- The number of blocks of a list that contain the index. -/
def cover (bs : List Block) (j : ℕ) : ℕ := bs.countP (fun b => b.Contains j)

/-- The total length of a list of blocks. -/
def totalSize (bs : List Block) : ℕ := (bs.map (fun b => 2 ^ b.order)).sum

@[simp] theorem Block.contains_mk (x k j : ℕ) :
    (Block.mk x k).Contains j ↔ x ≤ j ∧ j < x + 2 ^ k := Iff.rfl

/-- A block contains its start. -/
theorem Block.contains_start (b : Block) : b.Contains b.start :=
  ⟨le_rfl, Nat.lt_add_of_pos_right (Nat.two_pow_pos _)⟩

@[simp] theorem cover_nil (j : ℕ) : cover [] j = 0 := rfl

@[simp] theorem cover_cons (b : Block) (bs : List Block) (j : ℕ) :
    cover (b :: bs) j = b.indicator j + cover bs j := by
  unfold cover Block.indicator
  rw [List.countP_cons, Nat.add_comm]
  simp

@[simp] theorem cover_append (bs cs : List Block) (j : ℕ) :
    cover (bs ++ cs) j = cover bs j + cover cs j := List.countP_append

/-- The count does not depend on the order of the list. -/
theorem cover_perm {bs cs : List Block} (h : bs.Perm cs) (j : ℕ) : cover bs j = cover cs j :=
  h.countP_eq _

@[simp] theorem totalSize_cons (b : Block) (bs : List Block) :
    totalSize (b :: bs) = 2 ^ b.order + totalSize bs := rfl

theorem Block.indicator_of_contains {b : Block} {j : ℕ} (h : b.Contains j) : b.indicator j = 1 :=
  if_pos h

theorem Block.indicator_of_not_contains {b : Block} {j : ℕ} (h : ¬b.Contains j) :
    b.indicator j = 0 := if_neg h

/-- An index is counted exactly when some block of the list contains it. -/
theorem cover_pos_iff {bs : List Block} {j : ℕ} : 0 < cover bs j ↔ ∃ b ∈ bs, b.Contains j := by
  simp [cover, List.countP_pos_iff]

/-- A member of the list counts at each of its own indices. -/
theorem cover_pos_of_mem {bs : List Block} {b : Block} {j : ℕ} (hb : b ∈ bs) (hj : b.Contains j) :
    0 < cover bs j := cover_pos_iff.mpr ⟨b, hb, hj⟩

/-- A list in which no index is counted twice consists of pairwise disjoint blocks. -/
theorem pairwise_disjoint_of_cover_le_one {bs : List Block} (h : ∀ j, cover bs j ≤ 1) :
    bs.Pairwise Block.Disjoint := by
  induction bs with
  | nil => exact List.Pairwise.nil
  | cons b bs ih =>
    have htail : ∀ j, cover bs j ≤ 1 := fun j => by
      have := h j
      rw [cover_cons] at this
      omega
    refine List.pairwise_cons.mpr ⟨fun c hc j hj => ?_, ih htail⟩
    have hj' := h j
    have hpos := cover_pos_of_mem hc hj.2
    rw [cover_cons, Block.indicator_of_contains hj.1] at hj'
    omega

/-- Counting the members of one block below a bound gives its length. -/
theorem sum_indicator {b : Block} {n : ℕ} (h : b.start + 2 ^ b.order ≤ n) :
    ∑ j ∈ Finset.range n, b.indicator j = 2 ^ b.order := by
  have hfilter : (Finset.range n).filter (fun j => b.Contains j) =
      Finset.Ico b.start (b.start + 2 ^ b.order) := by
    ext j
    rw [Finset.mem_filter, Finset.mem_range, Finset.mem_Ico]
    exact ⟨fun hj => hj.2, fun hj => ⟨by omega, hj⟩⟩
  unfold Block.indicator
  rw [← Finset.sum_filter, hfilter]
  simp

/-- The total size of blocks below a bound is the sum of the counts. -/
theorem totalSize_eq_sum_cover {bs : List Block} {n : ℕ}
    (h : ∀ b ∈ bs, b.start + 2 ^ b.order ≤ n) :
    totalSize bs = ∑ j ∈ Finset.range n, cover bs j := by
  induction bs with
  | nil => simp [totalSize]
  | cons b bs ih =>
    simp only [totalSize_cons, cover_cons, Finset.sum_add_distrib]
    rw [sum_indicator (h b (by simp)), ih (fun c hc => h c (by simp [hc]))]

/-- A block is the union of its two halves, which do not meet. -/
theorem indicator_halves (x k j : ℕ) :
    (Block.mk x (k + 1)).indicator j =
      (Block.mk x k).indicator j + (Block.mk (x + 2 ^ k) k).indicator j := by
  have hpow : 2 ^ (k + 1) = 2 ^ k + 2 ^ k := by rw [Nat.pow_succ]; omega
  simp only [Block.indicator, Block.contains_mk, hpow]
  split <;> split <;> split <;> omega

/-- The start of a block of a list in which no index is counted twice belongs to no
other block. -/
theorem cover_eq_zero_of_perm_cons {b : Block} {bs cs : List Block} (h : bs.Perm (b :: cs))
    (hle : ∀ j, cover bs j ≤ 1) {j : ℕ} (hj : b.Contains j) : cover cs j = 0 := by
  have := hle j
  rw [cover_perm h, cover_cons, Block.indicator_of_contains hj] at this
  omega

/-- The buddy of the block of order `k` that starts at a multiple `x` of its length. -/
def buddy (x k : ℕ) : ℕ := x ^^^ 2 ^ k

/-- Rounding down to a multiple of `2 ^ k`. -/
def floor (x k : ℕ) : ℕ := x / 2 ^ k * 2 ^ k

/-- A rounded number is a multiple. -/
theorem dvd_floor (x k : ℕ) : 2 ^ k ∣ floor x k := Nat.dvd_mul_left _ _

/-- A multiple is not changed by rounding. -/
theorem floor_eq_self {x k : ℕ} (h : 2 ^ k ∣ x) : floor x k = x := Nat.div_mul_cancel h

/-- Rounding down twice is rounding down to the coarser grid. -/
theorem floor_floor_succ (x k : ℕ) : floor (floor x k) (k + 1) = floor x (k + 1) := by
  unfold floor
  rw [Nat.pow_succ, ← Nat.div_div_eq_div_mul, Nat.mul_div_cancel _ (Nat.two_pow_pos k),
    Nat.div_div_eq_div_mul]

/-- The buddy of a block lies right above it or right below it, depending on which
half of the next larger block it is. -/
theorem buddy_cases {x k : ℕ} (h : 2 ^ k ∣ x) :
    (floor x (k + 1) = x ∧ buddy x k = x + 2 ^ k) ∨
    (floor x (k + 1) = buddy x k ∧ x = buddy x k + 2 ^ k) := by
  obtain ⟨m, rfl⟩ := h
  have hpow : 2 ^ (k + 1) = 2 * 2 ^ k := by rw [Nat.pow_succ, Nat.mul_comm]
  have hfloor : floor (2 ^ k * m) (k + 1) = 2 * (m / 2) * 2 ^ k := by
    unfold floor
    rw [hpow, Nat.mul_comm 2 (2 ^ k), Nat.mul_div_mul_left _ _ (Nat.two_pow_pos k)]
    ring
  have hxor : buddy (2 ^ k * m) k = (m ^^^ 1) * 2 ^ k := by
    unfold buddy
    rw [Nat.mul_comm, ← Nat.shiftLeft_eq, ← Nat.shiftLeft_eq, Nat.shiftLeft_xor_distrib,
      Nat.shiftLeft_eq 1, Nat.one_mul]
  have hone : m ^^^ 1 = if m % 2 = 0 then m + 1 else m - 1 := by
    rcases Nat.mod_two_eq_zero_or_one m with hm | hm
    · rw [if_pos hm, Nat.xor_one_of_even (Nat.even_iff.mpr hm)]
    · rw [if_neg (by omega), Nat.xor_one_of_odd (Nat.odd_iff.mpr hm)]
  rw [hfloor, hxor, hone]
  rcases Nat.mod_two_eq_zero_or_one m with hm | hm
  · left
    have heven : 2 * (m / 2) = m := by omega
    rw [if_pos hm, heven]
    exact ⟨Nat.mul_comm _ _, by ring⟩
  · right
    have hodd : 2 * (m / 2) = m - 1 := by omega
    rw [if_neg (by omega), hodd]
    refine ⟨rfl, ?_⟩
    rw [← Nat.succ_mul, Nat.succ_eq_add_one, Nat.sub_add_cancel (by omega), Nat.mul_comm]

/-- A buddy starts at a multiple of the common length. -/
theorem dvd_buddy {x k : ℕ} (h : 2 ^ k ∣ x) : 2 ^ k ∣ buddy x k := by
  rcases buddy_cases h with ⟨-, hb⟩ | ⟨-, hb⟩
  · rw [hb]
    exact Nat.dvd_add h (Nat.dvd_refl _)
  · have : buddy x k = x - 2 ^ k := by omega
    rw [this]
    exact Nat.dvd_sub h (Nat.dvd_refl _)

/-- The buddy of the buddy is the block itself. -/
theorem buddy_buddy (x k : ℕ) : buddy (buddy x k) k = x := by
  unfold buddy
  rw [Nat.xor_assoc, Nat.xor_self, Nat.xor_zero]

/-- No block is its own buddy: their starts differ in one bit. -/
theorem buddy_ne (x k : ℕ) : buddy x k ≠ x := by
  intro h
  have hbit : (buddy x k).testBit k = !x.testBit k := by
    unfold buddy
    rw [Nat.testBit_xor, Nat.testBit_two_pow_self, Bool.xor_true]
  rw [h] at hbit
  exact Bool.not_ne_self _ hbit.symm

/-- The lower one of two buddies starts where the block of the next order does. -/
theorem min_buddy {x k : ℕ} (h : 2 ^ k ∣ x) : min x (buddy x k) = floor x (k + 1) := by
  rcases buddy_cases h with ⟨hf, hb⟩ | ⟨hf, hb⟩
  · rw [hf, hb]
    exact Nat.min_eq_left (Nat.le_add_right _ _)
  · rw [hf]
    exact Nat.min_eq_right (by omega)

/-- Two buddies do not meet, and their union is the block of the next order. -/
theorem indicator_buddy {x k : ℕ} (h : 2 ^ k ∣ x) (j : ℕ) :
    (Block.mk (floor x (k + 1)) (k + 1)).indicator j =
      (Block.mk x k).indicator j + (Block.mk (buddy x k) k).indicator j := by
  rw [indicator_halves]
  rcases buddy_cases h with ⟨hf, hb⟩ | ⟨hf, hb⟩
  · rw [hf, hb]
  · rw [hf, ← hb, Nat.add_comm]

/-- Two buddies have no index in common. -/
theorem inter_buddy {x k : ℕ} (h : 2 ^ k ∣ x) :
    Set.Ico x (x + 2 ^ k) ∩ Set.Ico (buddy x k) (buddy x k + 2 ^ k) = ∅ := by
  rcases buddy_cases h with ⟨-, hb⟩ | ⟨-, hb⟩
  · rw [hb]
    exact Set.Ico_disjoint_Ico_same.inter_eq
  · rw [← hb, Set.inter_comm]
    exact Set.Ico_disjoint_Ico_same.inter_eq

/-- Together, two buddies are the block of the next order. -/
theorem union_buddy {x k : ℕ} (h : 2 ^ k ∣ x) :
    Set.Ico x (x + 2 ^ k) ∪ Set.Ico (buddy x k) (buddy x k + 2 ^ k) =
      Set.Ico (floor x (k + 1)) (floor x (k + 1) + 2 ^ (k + 1)) := by
  have hhalves (y : ℕ) : Set.Ico y (y + 2 ^ k) ∪ Set.Ico (y + 2 ^ k) (y + 2 ^ k + 2 ^ k) =
      Set.Ico y (y + 2 ^ (k + 1)) := by
    rw [Set.Ico_union_Ico_eq_Ico (Nat.le_add_right _ _) (Nat.le_add_right _ _), Nat.pow_succ,
      Nat.mul_two, Nat.add_assoc]
  rcases buddy_cases h with ⟨hf, hb⟩ | ⟨hf, hb⟩
  · rw [hf, hb, hhalves]
  · rw [hf, ← hhalves, ← hb, Set.union_comm]

/-- In the lower half of a larger aligned block, the buddy lies right above. -/
theorem buddy_eq_add {x k : ℕ} (h : 2 ^ (k + 1) ∣ x) : buddy x k = x + 2 ^ k := by
  have hk : 2 ^ k ∣ x := Nat.dvd_trans (Nat.pow_dvd_pow 2 (Nat.le_succ k)) h
  rcases buddy_cases hk with ⟨-, hb⟩ | ⟨hf, hb⟩
  · exact hb
  · rw [floor_eq_self h] at hf
    have := Nat.two_pow_pos k
    omega

/-- The number lies in the block of order `k` that starts at its rounded value. -/
theorem contains_floor (x k : ℕ) : (Block.mk (floor x k) k).Contains x := by
  have hdiv := Nat.div_add_mod' x (2 ^ k)
  rw [Block.contains_mk]
  unfold floor
  omega

/-- The aligned block of order `k` around a number starts at its rounded value. -/
theorem floor_eq_of_contains {x j k : ℕ} (h : 2 ^ k ∣ x) (hj : (Block.mk x k).Contains j) :
    floor j k = x := by
  obtain ⟨m, rfl⟩ := h
  rw [Block.contains_mk, Nat.mul_comm] at hj
  have hdiv : j / 2 ^ k = m :=
    Nat.div_eq_of_lt_le hj.1 (by rw [Nat.add_mul, Nat.one_mul]; exact hj.2)
  rw [floor, hdiv, Nat.mul_comm]

/-- Two buddies lie in the same block of the next order. -/
theorem floor_buddy {x k : ℕ} (h : 2 ^ k ∣ x) : floor (buddy x k) (k + 1) = floor x (k + 1) := by
  apply floor_eq_of_contains (dvd_floor x (k + 1))
  rw [Block.contains_mk]
  rcases buddy_cases h with ⟨hf, hb⟩ | ⟨hf, hb⟩ <;> omega

/-- The blocks around a number grow with the order. -/
theorem contains_floor_of_le {x j k m : ℕ} (hkm : k ≤ m)
    (h : (Block.mk (floor x k) k).Contains j) : (Block.mk (floor x m) m).Contains j := by
  induction m, hkm using Nat.le_induction with
  | base => exact h
  | succ m hm ih =>
    by_contra hnot
    have hind := indicator_buddy (dvd_floor x m) j
    rw [floor_floor_succ, Block.indicator_of_not_contains hnot, Block.indicator_of_contains ih]
      at hind
    omega

/-- The buddy of the block around a number does not meet that block. -/
theorem not_contains_buddy_floor (x k : ℕ) :
    ¬(Block.mk (floor x k) k).Contains (buddy (floor x k) k) := by
  rw [Block.contains_mk]
  rcases buddy_cases (dvd_floor x k) with ⟨-, hb⟩ | ⟨-, hb⟩ <;> omega

/-- The upper half of a larger aligned block is aligned to its own length. -/
theorem dvd_buddy_add {x k : ℕ} (h : 2 ^ (k + 1) ∣ x) : 2 ^ k ∣ x + 2 ^ k :=
  Nat.dvd_add (Nat.dvd_trans (Nat.pow_dvd_pow 2 (Nat.le_succ k)) h) (Nat.dvd_refl _)

/-- The blocks of a family of lists of starts, one list for each order below `n`. -/
def blocksOf (n : ℕ) (lists : ℕ → List ℕ) : List Block :=
  (List.range n).flatMap (fun i => (lists i).map (fun x => Block.mk x i))

/-- A block belongs to the family exactly when its start is in the list of its order. -/
theorem mem_blocksOf {n : ℕ} {lists : ℕ → List ℕ} {b : Block} :
    b ∈ blocksOf n lists ↔ b.order < n ∧ b.start ∈ lists b.order := by
  simp only [blocksOf, List.mem_flatMap, List.mem_range, List.mem_map]
  constructor
  · rintro ⟨i, hi, x, hx, rfl⟩
    exact ⟨hi, hx⟩
  · rintro ⟨hi, hx⟩
    exact ⟨b.order, hi, b.start, hx, rfl⟩

/-- Appending the list of the next order. -/
theorem blocksOf_succ (n : ℕ) (lists : ℕ → List ℕ) :
    blocksOf (n + 1) lists = blocksOf n lists ++ (lists n).map (fun x => Block.mk x n) := by
  simp [blocksOf, List.range_succ]

/-- Families that agree below the bound have the same blocks. -/
theorem blocksOf_congr {n : ℕ} {f g : ℕ → List ℕ} (h : ∀ i < n, f i = g i) :
    blocksOf n f = blocksOf n g := by
  induction n with
  | zero => rfl
  | succ n ih =>
    rw [blocksOf_succ, blocksOf_succ, ih (fun i hi => h i (by omega)), h n (by omega)]

/-- A family whose list of one order has one more start has one more block. -/
theorem blocksOf_perm_cons {n i x : ℕ} {f g : ℕ → List ℕ} (hi : i < n)
    (hlist : (f i).Perm (x :: g i)) (hother : ∀ k, k ≠ i → f k = g k) :
    (blocksOf n f).Perm (⟨x, i⟩ :: blocksOf n g) := by
  induction n with
  | zero => omega
  | succ n ih =>
    rw [blocksOf_succ, blocksOf_succ]
    by_cases hin : i = n
    · subst i
      rw [blocksOf_congr (fun k hk => hother k (by omega))]
      exact ((hlist.map _).append_left _).trans List.perm_middle
    · rw [hother n (fun h => hin h.symm)]
      exact (ih (by omega)).append_right _

/-- The total size of a family, order by order. -/
theorem totalSize_blocksOf (n : ℕ) (lists : ℕ → List ℕ) :
    totalSize (blocksOf n lists) =
      ((List.range n).map (fun i => (lists i).length * 2 ^ i)).sum := by
  induction n with
  | zero => rfl
  | succ n ih =>
    rw [blocksOf_succ, List.range_succ, List.map_append, List.sum_append, ← ih]
    simp [totalSize, Function.comp_def]

end Dyadic
