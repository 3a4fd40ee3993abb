import Axel.Buddy.AllocateSemantics

/-!
# Buddies

The allocator finds the buddy of an object by its address: it takes the index of the object
in the array, flips one bit, and compares the address of the result with both ends of the
array. On addresses of the array this is the arithmetic on indices that the other files use.
Every split and every merge rests on what that arithmetic says about the two blocks.
-/

namespace Axel

/-- The array of objects behind `obj_ptr`, by its addresses. -/
structure ObjArray where
  /-- The address of the first object. -/
  objPtr : ℕ
  /-- The size of an object. -/
  objSize : ℕ
  /-- The number of objects. -/
  objCount : ℕ
  /-- An object is not empty: it holds a link. -/
  objSize_pos : 0 < objSize

namespace ObjArray

/-- `obj_ptr.offset(index)`. -/
def offset (self : ObjArray) (index : ℕ) : ℕ := self.objPtr + index * self.objSize

/-- `BuddyAllocator::is_managed_obj` of an address. -/
def isManagedObj (self : ObjArray) (addr : ℕ) : Except Fault Bool := do
  let headAddr := self.objPtr
  let last ← checkedSub self.objCount 1
  let tailAddr := self.offset last
  return decide (headAddr ≤ addr) && decide (addr ≤ tailAddr)

/-- `BuddyAllocator::buddy` of an address. The flip is made on an index that is not
negative. -/
def buddy (self : ObjArray) (raw order : ℕ) : Except Fault (Option ℕ) := do
  let managed ← self.isManagedObj raw
  debugAssert managed
  if maxOrder ≤ order then
    return none
  let index : ℤ := ((raw : ℤ) - self.objPtr) / self.objSize
  if index < 0 ∨ (self.objCount : ℤ) < index then
    return none
  let buddyIndex := index.toNat ^^^ (1 <<< order)
  let addr := self.offset buddyIndex
  let managed ← self.isManagedObj addr
  if managed then return some addr else return none

variable {T : Type} {self : ObjArray} {s : BuddyAllocator T}

/-- An address of the array is managed exactly when its index is. -/
theorem isManagedObj_offset (hcount : s.objCount = self.objCount) (x : ℕ) :
    self.isManagedObj (self.offset x) = s.isManagedObj x := by
  have hhead : self.objPtr ≤ self.offset x := Nat.le_add_right _ _
  have htail (last : ℕ) : self.offset x ≤ self.offset last ↔ x ≤ last := by
    rw [offset, offset, Nat.add_le_add_iff_left]
    exact Nat.mul_le_mul_right_iff self.objSize_pos
  rw [isManagedObj, BuddyAllocator.isManagedObj, hcount]
  simp only [hhead, htail, decide_true, Bool.true_and]

/-- The index of an address of the array. -/
theorem index_offset (x : ℕ) :
    ((self.offset x : ℕ) - self.objPtr : ℤ) / self.objSize = x := by
  have hsize : (self.objSize : ℤ) ≠ 0 := by exact_mod_cast self.objSize_pos.ne'
  rw [offset, Nat.cast_add, Nat.cast_mul, add_sub_cancel_left, Int.mul_ediv_cancel _ hsize]

/-- On addresses of the array, `buddy` is the computation on indices. -/
theorem buddy_offset (hcount : s.objCount = self.objCount) (x order : ℕ) :
    self.buddy (self.offset x) order = (Option.map self.offset) <$> s.buddy x order := by
  have hrange : ((x : ℤ) < 0 ∨ (self.objCount : ℤ) < x) ↔ s.objCount < x := by
    rw [hcount]
    omega
  rw [buddy, BuddyAllocator.buddy, isManagedObj_offset hcount, index_offset]
  simp only [isManagedObj_offset hcount, hrange, Int.toNat_natCast, map_bind]
  congr 1
  funext managed
  congr 1
  funext _
  split
  case isTrue => rfl
  case isFalse =>
    split
    case isTrue => rfl
    case isFalse =>
      simp only [map_bind]
      congr 1
      funext managed
      cases managed <;> rfl

end ObjArray

namespace BuddyAllocator

variable {T : Type} {s : BuddyAllocator T} {x y i : ℕ}

/-- What a buddy that was found says about the order and the array. -/
theorem buddy_eq_some_iff (hx : x < s.objCount) :
    s.buddy x i = .ok (some y) ↔
      i < maxOrder ∧ Dyadic.buddy x i < s.objCount ∧ y = Dyadic.buddy x i := by
  rw [buddy_eq hx]
  split
  case isTrue h => simp [h, eq_comm]
  case isFalse h =>
    have hnot : ¬(i < maxOrder ∧ Dyadic.buddy x i < s.objCount ∧ y = Dyadic.buddy x i) :=
      fun hall => h ⟨hall.1, hall.2.1⟩
    simp [hnot]

/-- Being a buddy is mutual. -/
theorem buddy_symm (hx : x < s.objCount) (h : s.buddy x i = .ok (some y)) :
    s.buddy y i = .ok (some x) := by
  obtain ⟨hi, hlt, rfl⟩ := (buddy_eq_some_iff hx).mp h
  rw [buddy_eq_some_iff hlt, Dyadic.buddy_buddy]
  exact ⟨hi, hx, rfl⟩

/-- The buddy of a managed object is found exactly if the order has a free list and the
object with the flipped bit is managed too. It is a different object, the relation is
mutual, and the blocks of two aligned buddies are the halves of an aligned block of the
next order. -/
theorem buddy_pairs (s : BuddyAllocator T) {x : ℕ} (hx : x < s.objCount) (i : ℕ) :
    ((∃ y, s.buddy x i = .ok (some y)) ↔ i < maxOrder ∧ x ^^^ 2 ^ i < s.objCount) ∧
    (¬(i < maxOrder ∧ x ^^^ 2 ^ i < s.objCount) → s.buddy x i = .ok none) ∧
    ∀ y, s.buddy x i = .ok (some y) →
      y = x ^^^ 2 ^ i ∧ y ≠ x ∧ s.isManagedObj y = .ok true ∧ s.buddy y i = .ok (some x) ∧
      (2 ^ i ∣ x → 2 ^ i ∣ y ∧
        Set.Ico x (x + 2 ^ i) ∩ Set.Ico y (y + 2 ^ i) = ∅ ∧
        Set.Ico x (x + 2 ^ i) ∪ Set.Ico y (y + 2 ^ i) =
          Set.Ico (min x y) (min x y + 2 ^ (i + 1)) ∧
        2 ^ (i + 1) ∣ min x y) := by
  refine ⟨⟨?_, ?_⟩, ?_, ?_⟩
  · rintro ⟨y, hy⟩
    obtain ⟨hi, hlt, -⟩ := (buddy_eq_some_iff hx).mp hy
    exact ⟨hi, hlt⟩
  · rintro ⟨hi, hlt⟩
    exact ⟨_, (buddy_eq_some_iff hx).mpr ⟨hi, hlt, rfl⟩⟩
  · intro hnot
    rw [buddy_eq hx]
    exact congrArg _ (if_neg hnot)
  · intro y hy
    have hsymm := buddy_symm hx hy
    obtain ⟨-, hlt, rfl⟩ := (buddy_eq_some_iff hx).mp hy
    have hmanaged : s.isManagedObj (Dyadic.buddy x i) = .ok true := by
      rw [isManagedObj_eq (by omega), decide_eq_true hlt]
    refine ⟨rfl, Dyadic.buddy_ne x i, hmanaged, hsymm, fun hdvd => ?_⟩
    rw [Dyadic.min_buddy hdvd]
    exact ⟨Dyadic.dvd_buddy hdvd, Dyadic.inter_buddy hdvd, Dyadic.union_buddy hdvd,
      Dyadic.dvd_floor x (i + 1)⟩

/-- An allocator over six objects. -/
def sixObjects : BuddyAllocator Unit := ⟨0, 6, fun _ => (), fun _ => [], fun _ => 0⟩

/-- The objects from 2 to 3 are buddies of those from 0 to 1, and object 4 has no buddy at
order 1. -/
theorem buddy_pairs_six :
    sixObjects.buddy 4 1 = .ok none ∧ sixObjects.buddy 2 1 = .ok (some 0) ∧
    sixObjects.buddy 0 1 = .ok (some 2) ∧
    Set.Ico 2 (2 + 2 ^ 1) ∪ Set.Ico 0 (0 + 2 ^ 1) =
      Set.Ico (min 2 0) (min 2 0 + 2 ^ (1 + 1)) := by
  have hbuddy : sixObjects.buddy 2 1 = .ok (some 0) := rfl
  obtain ⟨-, -, hpair⟩ := buddy_pairs sixObjects (x := 2) (by decide) 1
  obtain ⟨-, -, -, hsymm, hblocks⟩ := hpair 0 hbuddy
  obtain ⟨-, -, hunion, -⟩ := hblocks (by decide)
  exact ⟨(buddy_pairs sixObjects (x := 4) (by decide) 1).2.1 (by decide), hbuddy, hsymm, hunion⟩

end BuddyAllocator

end Axel
