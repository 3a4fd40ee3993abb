import Axel.Buddy.Allocator

/-!
# Well-formed free lists

The invariant of the free lists, stated without reference to the blocks in use: the
blocks on the lists are aligned, inside the array, disjoint, and tagged by their first
object, and the stored counts are the lengths. Pushing a block of free space and
taking a block from its list keep the invariant.
-/

namespace Axel.BuddyAllocator

open Dyadic

variable {T : Type} [Object T]

/-- The free lists describe disjoint aligned blocks of the array. -/
structure WellFormed (s : BuddyAllocator T) : Prop where
  /-- Every free block starts at a multiple of its length. -/
  aligned : ∀ b ∈ s.freeBlocks, b.Aligned
  /-- Every free block lies inside the array. -/
  inRange : ∀ b ∈ s.freeBlocks, b.start + 2 ^ b.order ≤ s.objCount
  /-- The first object of a free block stores the order of its list. -/
  order_eq : ∀ b ∈ s.freeBlocks, Object.order (s.objs b.start) = b.order
  /-- The first object of a free block is marked as free. -/
  isFree : ∀ b ∈ s.freeBlocks, Object.isUsed (s.objs b.start) = false
  /-- The stored counts are the lengths of the lists. -/
  counts : ∀ i < maxOrder, s.freeCounts i = (s.freeLists i).length
  /-- No object belongs to two free blocks. -/
  disjoint : ∀ j, cover s.freeBlocks j ≤ 1

/-- The state after a successful `pushBack`. -/
def pushed (self : BuddyAllocator T) (order obj : ℕ) : BuddyAllocator T :=
  { self with
    freeLists := Function.update self.freeLists order (self.freeLists order ++ [obj])
    freeCounts := Function.update self.freeCounts order (self.freeCounts order + 1) }

/-- The state after a block has been taken from its list and the count decremented. -/
def taken (self : BuddyAllocator T) (order obj : ℕ) : BuddyAllocator T :=
  { self with
    freeLists := Function.update self.freeLists order ((self.freeLists order).erase obj)
    freeCounts := Function.update self.freeCounts order (self.freeCounts order - 1) }

omit [Object T] in
@[simp] theorem objs_pushed (s : BuddyAllocator T) (i x : ℕ) : (s.pushed i x).objs = s.objs := rfl

omit [Object T] in
@[simp] theorem objCount_pushed (s : BuddyAllocator T) (i x : ℕ) :
    (s.pushed i x).objCount = s.objCount := rfl

omit [Object T] in
@[simp] theorem objs_taken (s : BuddyAllocator T) (i x : ℕ) : (s.taken i x).objs = s.objs := rfl

omit [Object T] in
@[simp] theorem objCount_taken (s : BuddyAllocator T) (i x : ℕ) :
    (s.taken i x).objCount = s.objCount := rfl

omit [Object T] in
@[simp] theorem freeLists_modifyObj (s : BuddyAllocator T) (x : ℕ) (f : T → T) :
    (s.modifyObj x f).freeLists = s.freeLists := rfl

omit [Object T] in
@[simp] theorem freeCounts_modifyObj (s : BuddyAllocator T) (x : ℕ) (f : T → T) :
    (s.modifyObj x f).freeCounts = s.freeCounts := rfl

omit [Object T] in
@[simp] theorem objCount_modifyObj (s : BuddyAllocator T) (x : ℕ) (f : T → T) :
    (s.modifyObj x f).objCount = s.objCount := rfl

omit [Object T] in
@[simp] theorem freeBlocks_modifyObj (s : BuddyAllocator T) (x : ℕ) (f : T → T) :
    (s.modifyObj x f).freeBlocks = s.freeBlocks := rfl

omit [Object T] in
@[simp] theorem objs_modifyObj_self (s : BuddyAllocator T) (x : ℕ) (f : T → T) :
    (s.modifyObj x f).objs x = f (s.objs x) := Function.update_self ..

omit [Object T] in
theorem objs_modifyObj_of_ne (s : BuddyAllocator T) {x y : ℕ} (f : T → T) (h : y ≠ x) :
    (s.modifyObj x f).objs y = s.objs y := Function.update_of_ne h ..

omit [Object T] in
/-- Membership in the list of free blocks is membership in a free list. -/
theorem mem_freeBlocks {s : BuddyAllocator T} {x i : ℕ} :
    ⟨x, i⟩ ∈ s.freeBlocks ↔ i < maxOrder ∧ x ∈ s.freeLists i := mem_blocksOf

omit [Object T] in
/-- An object that no free block contains is not on a free list. -/
theorem not_mem_of_cover_eq_zero {s : BuddyAllocator T} {x i : ℕ} (hi : i < maxOrder)
    (h : cover s.freeBlocks x = 0) : x ∉ s.freeLists i := by
  intro hx
  have hpos := cover_pos_of_mem (mem_freeBlocks.mpr ⟨hi, hx⟩) (Block.contains_start ⟨x, i⟩)
  simp only at hpos
  omega

omit [Object T] in
/-- A pushed block is one more free block. -/
theorem freeBlocks_pushed (s : BuddyAllocator T) {i x : ℕ} (hi : i < maxOrder) :
    (s.pushed i x).freeBlocks.Perm (⟨x, i⟩ :: s.freeBlocks) := by
  refine blocksOf_perm_cons hi ?_ (fun k hk => Function.update_of_ne hk ..)
  simp only [pushed, Function.update_self]
  exact List.perm_append_singleton x _

omit [Object T] in
/-- A taken block is one free block less. -/
theorem freeBlocks_taken {s : BuddyAllocator T} {i x : ℕ} (hi : i < maxOrder)
    (hx : x ∈ s.freeLists i) : s.freeBlocks.Perm (⟨x, i⟩ :: (s.taken i x).freeBlocks) := by
  refine blocksOf_perm_cons hi ?_ (fun k hk => (Function.update_of_ne hk ..).symm)
  simp only [taken, Function.update_self]
  exact List.perm_cons_erase hx

/-- Changing the tags of an object outside the free blocks keeps the invariant. -/
theorem WellFormed.modifyObj {s : BuddyAllocator T} (h : s.WellFormed) {x : ℕ} (f : T → T)
    (hx : cover s.freeBlocks x = 0) : (s.modifyObj x f).WellFormed := by
  have hne : ∀ b ∈ s.freeBlocks, b.start ≠ x := by
    rintro b hb rfl
    have := cover_pos_of_mem hb b.contains_start
    omega
  refine ⟨h.aligned, h.inRange, fun b hb => ?_, fun b hb => ?_, h.counts, h.disjoint⟩
  · rw [objs_modifyObj_of_ne s f (hne b hb)]
    exact h.order_eq b hb
  · rw [objs_modifyObj_of_ne s f (hne b hb)]
    exact h.isFree b hb

/-- Pushing a tagged, aligned block of the array that meets no free block succeeds
and keeps the invariant. -/
theorem WellFormed.pushBack {s : BuddyAllocator T} (h : s.WellFormed) {i x : ℕ}
    (hi : i < maxOrder) (haligned : 2 ^ i ∣ x) (hrange : x + 2 ^ i ≤ s.objCount)
    (horder : Object.order (s.objs x) = i) (hfree : Object.isUsed (s.objs x) = false)
    (hcover : ∀ j, (Block.mk x i).Contains j → cover s.freeBlocks j = 0) :
    s.pushBack i x = .ok (s.pushed i x) ∧ (s.pushed i x).WellFormed := by
  have hx := hcover x (Block.contains_start ⟨x, i⟩)
  have hperm := freeBlocks_pushed s (x := x) hi
  constructor
  · unfold BuddyAllocator.pushBack
    rw [if_neg (by omega), if_neg]
    · rfl
    · rintro ⟨k, hk, hmem⟩
      exact not_mem_of_cover_eq_zero hk hx hmem
  · constructor
    · intro b hb
      rcases List.mem_cons.mp (hperm.mem_iff.mp hb) with rfl | hb
      · exact haligned
      · exact h.aligned b hb
    · intro b hb
      rcases List.mem_cons.mp (hperm.mem_iff.mp hb) with rfl | hb
      · exact hrange
      · exact h.inRange b hb
    · intro b hb
      rcases List.mem_cons.mp (hperm.mem_iff.mp hb) with rfl | hb
      · exact horder
      · exact h.order_eq b hb
    · intro b hb
      rcases List.mem_cons.mp (hperm.mem_iff.mp hb) with rfl | hb
      · exact hfree
      · exact h.isFree b hb
    · intro k hk
      by_cases hki : k = i
      · subst k
        simp [pushed, h.counts i hk]
      · simp only [pushed, Function.update_of_ne hki, h.counts k hk]
    · intro j
      rw [cover_perm hperm, cover_cons]
      by_cases hj : (Block.mk x i).Contains j
      · rw [Block.indicator_of_contains hj, hcover j hj]
      · rw [Block.indicator_of_not_contains hj, Nat.zero_add]
        exact h.disjoint j

/-- Taking a block from its list keeps the invariant. -/
theorem WellFormed.taken {s : BuddyAllocator T} (h : s.WellFormed) {i x : ℕ} (hi : i < maxOrder)
    (hx : x ∈ s.freeLists i) : (s.taken i x).WellFormed := by
  have hperm := freeBlocks_taken hi hx
  have hsub : ∀ b ∈ (s.taken i x).freeBlocks, b ∈ s.freeBlocks := fun b hb =>
    hperm.mem_iff.mpr (List.mem_cons_of_mem _ hb)
  refine ⟨fun b hb => h.aligned b (hsub b hb), fun b hb => h.inRange b (hsub b hb),
    fun b hb => h.order_eq b (hsub b hb), fun b hb => h.isFree b (hsub b hb), ?_, ?_⟩
  · intro k hk
    by_cases hki : k = i
    · subst k
      simp only [BuddyAllocator.taken, Function.update_self, h.counts i hk,
        List.length_erase_of_mem hx]
    · simp only [BuddyAllocator.taken, Function.update_of_ne hki, h.counts k hk]
  · intro j
    have := h.disjoint j
    rw [cover_perm hperm, cover_cons] at this
    omega

/-- A taken block no longer meets any free block. -/
theorem WellFormed.cover_taken {s : BuddyAllocator T} (h : s.WellFormed) {i x j : ℕ}
    (hi : i < maxOrder) (hx : x ∈ s.freeLists i) (hj : (Block.mk x i).Contains j) :
    cover (s.taken i x).freeBlocks j = 0 :=
  cover_eq_zero_of_perm_cons (freeBlocks_taken hi hx) h.disjoint hj

/-- The count of a list with a member can be decremented. -/
theorem WellFormed.decrementCount {s : BuddyAllocator T} (h : s.WellFormed) {i x : ℕ}
    (hi : i < maxOrder) (hx : x ∈ s.freeLists i) (lists : ℕ → List ℕ) :
    ({ s with freeLists := lists } : BuddyAllocator T).decrementCount i =
      .ok { s with
        freeLists := lists
        freeCounts := Function.update s.freeCounts i (s.freeCounts i - 1) } := by
  have hpos : 1 ≤ s.freeCounts i := by
    rw [h.counts i hi]
    exact List.length_pos_of_mem hx
  simp only [BuddyAllocator.decrementCount, checkedSub_ok hpos, bind, Except.bind, pure,
    Except.pure]

/-- The number that `count_free_objs` returns is the total size of the free blocks. -/
theorem WellFormed.countFreeObjs {s : BuddyAllocator T} (h : s.WellFormed) :
    s.countFreeObjs = totalSize s.freeBlocks := by
  have hfold : ∀ (l : List ℕ) (acc : ℕ),
      l.foldl (fun acc order => acc + s.freeCounts order * (1 <<< order)) acc =
        acc + (l.map (fun i => s.freeCounts i * 2 ^ i)).sum := by
    intro l
    induction l with
    | nil => simp
    | cons i l ih =>
      intro acc
      rw [List.foldl_cons, ih, List.map_cons, List.sum_cons, Nat.one_shiftLeft, Nat.add_assoc]
  unfold BuddyAllocator.countFreeObjs freeBlocks
  rw [hfold, Nat.zero_add, totalSize_blocksOf]
  congr 1
  apply List.map_congr_left
  intro i hi
  rw [h.counts i (List.mem_range.mp hi)]

end Axel.BuddyAllocator
