import Axel.Memory.EarlyAllocator

/-!
# Pages and level indices

A virtual address selects one of 512 entries at each of the four levels. A `Page` is a
number, and its address is that number times the page size.
-/

namespace Axel

/-- An index into a page table; `MAX_ENTRY_COUNT` is 512. -/
abbrev Index := Fin 512

/-- A table has entries, so numbers name them. -/
instance neZeroEntries : NeZero 512 := ⟨by decide⟩

/-- The slot of a level-4 table that maps the table itself. -/
def recursiveSlot : Index := 511

/-- An entry before the last one is not the recursive slot. -/
theorem ne_recursiveSlot {i : Index} (hi : i.val < 511) : i ≠ recursiveSlot :=
  Fin.ne_of_val_ne (Nat.ne_of_lt hi)

/-- `page::SIZE`. -/
def pageSize : ℕ := 4096

/-- The nine bits of an address from a given bit on. -/
def indexAt (shift addr : ℕ) : Index :=
  ⟨(addr >>> shift) &&& 0o777, lt_of_le_of_lt Nat.and_le_right (by decide)⟩

/-- `PageIndex::level4_index`. -/
def level4Index (addr : ℕ) : Index := indexAt 39 addr

/-- `PageIndex::level3_index`. -/
def level3Index (addr : ℕ) : Index := indexAt 30 addr

/-- `PageIndex::level2_index`. -/
def level2Index (addr : ℕ) : Index := indexAt 21 addr

/-- `PageIndex::level1_index`. -/
def level1Index (addr : ℕ) : Index := indexAt 12 addr

/-- The three indices that lead to the level-1 table of an address. -/
def tablePath (addr : ℕ) : List Index := [level4Index addr, level3Index addr, level2Index addr]

/-- The four indices of an address, which are the name of its virtual page. -/
def indices (addr : ℕ) : List Index := tablePath addr ++ [level1Index addr]

/-- `page::Page`. -/
structure Page where
  /-- The address divided by the page size. -/
  number : ℕ
  deriving DecidableEq, Repr

/-- `Page::address`. -/
def Page.address (self : Page) : Except Fault ℕ := checkedMul self.number pageSize

/-- `Page::from_address`. -/
def Page.fromAddress (addr : ℕ) : Page := ⟨addr / pageSize⟩

/-- `Page::from_number`. -/
def Page.fromNumber (n : ℕ) : Page := ⟨n⟩

/-- The name of a page by its four indices. -/
def Page.indices (self : Page) : List Index := Axel.indices (self.number * pageSize)

/-- No index of the page is the recursive slot. -/
def Ordinary (ix : List Index) : Prop := ∀ i ∈ ix, i ≠ recursiveSlot

instance (ix : List Index) : Decidable (Ordinary ix) :=
  inferInstanceAs (Decidable (∀ i ∈ ix, i ≠ recursiveSlot))

/-- The number with the given digits in base 512. -/
def digits (ix : List Index) : ℕ := ix.foldl (fun acc i => acc * 512 + i.val) 0

/-- An index is a digit of the address in base 512. -/
theorem indexAt_val (shift addr : ℕ) : (indexAt shift addr).val = addr / 2 ^ shift % 512 := by
  show (addr >>> shift) &&& (2 ^ 9 - 1) = _
  rw [Nat.and_two_pow_sub_one_eq_mod, Nat.shiftRight_eq_div_pow]

/-- The page that four indices name has these indices, whatever lies above them. -/
theorem indices_digits (high : ℕ) (i4 i3 i2 i1 : Index) :
    indices ((high * 512 ^ 4 + digits [i4, i3, i2, i1]) * pageSize) = [i4, i3, i2, i1] := by
  simp only [indices, tablePath, level4Index, level3Index, level2Index, level1Index, digits,
    pageSize, List.foldl_cons, List.foldl_nil, List.cons_append, List.nil_append, List.cons.injEq,
    and_true, Fin.ext_iff, indexAt_val]
  omega

/-- Pages up to the end of a level-1 table have the same tables and consecutive indices. -/
theorem tablePath_add {v k : ℕ} (hv : 4096 ∣ v) (hk : (level1Index v).val + k < 512) :
    tablePath (v + k * 4096) = tablePath v ∧
      (level1Index (v + k * 4096)).val = (level1Index v).val + k := by
  simp only [level1Index, indexAt_val] at hk ⊢
  constructor
  · simp only [tablePath, level4Index, level3Index, level2Index, List.cons.injEq, and_true,
      Fin.ext_iff, indexAt_val]
    omega
  · omega

/-- The number with four digits, as `find_empty_pages` computes it. -/
theorem digits_eq (i4 i3 i2 i1 : Index) : digits [i4, i3, i2, i1] =
    i4.val * 512 * 512 * 512 + i3.val * 512 * 512 + i2.val * 512 + i1.val := by
  simp only [digits, List.foldl_cons, List.foldl_nil]
  omega

end Axel
