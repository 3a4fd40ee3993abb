import Axel.Paging.Boot

/-!
# The boot code

`boot.asm` runs before the kernel. With paging off it clears three frames by stores of 32 bits,
fills in five entries and loads CR3; in the higher half it removes the entry for the load
address again, now through the page walk. This file runs the code on any memory and shows that
it leaves the boot tables, and which addresses the processor can reach before and after.
-/

namespace Axel

open Descent

variable {α : Type}

/-! ## Stores of 32 bits -/

/-- One half of the word of an entry. -/
def PageEntry.half (self : PageEntry) (upper : Bool) : BitVec 32 :=
  if upper then self.word.extractLsb' 32 32 else self.word.extractLsb' 0 32

/-- The entry after a store of 32 bits to one half of its word. -/
def PageEntry.storeHalf (self : PageEntry) (upper : Bool) (value : BitVec 32) : PageEntry :=
  if upper then ⟨value ++ self.word.extractLsb' 0 32⟩ else ⟨self.word.extractLsb' 32 32 ++ value⟩

/-- The entry in its frame that contains the 32 bits with the number `k`. -/
def dwordIndex (k : ℕ) : Index := ⟨k % 1024 / 2, by omega⟩

/-- The 32 bits with the number `k`, which start at the address `4 * k`. -/
def Memory.dword (mem : Memory) (k : ℕ) : BitVec 32 :=
  (mem (k / 1024) (dwordIndex k)).half (k % 2 == 1)

/-- A store of 32 bits to an aligned physical address. -/
def Memory.storeDword (mem : Memory) (addr : ℕ) (value : BitVec 32) : Memory :=
  mem.set (addr / 4 / 1024) (dwordIndex (addr / 4))
    ((mem (addr / 4 / 1024) (dwordIndex (addr / 4))).storeHalf (addr / 4 % 2 == 1) value)

/-- `mov dword [addr], value` through the page walk. -/
def storeDword (addr : ℕ) (value : BitVec 32) : Kernel α Unit := fun s =>
  match s.resolve addr with
  | .ok frame =>
    .ok () { s with mem := s.mem.storeDword (frame * frameSize + addr % frameSize) value }
  | .error fault => .error fault s

/-- `KERNEL_ADDR_VIRTUAL_OFFSET` of the boot code and of the linker script. -/
def kernelAddrVirtualOffset : ℕ := 0xFFFF800000000000

/-- `KERNEL_STACK_FRAME_COUNT`. -/
def kernelStackFrameCount : ℕ := 4

/-- `TASK_STATE_SEGMENT_ADDR`, one frame below the stack. -/
def taskStateSegmentAddr : ℕ := 0x00070000 - frameSize

/-- The three words that the boot code pushes for `main`, as `argv` reads them. -/
def mainArguments (multibootInfo : ℕ) : List ℕ :=
  [multibootInfo + kernelAddrVirtualOffset, taskStateSegmentAddr, kernelStackFrameCount + 1]

/-! ## What the stores do -/

/-- The half that was stored, and the other half. -/
theorem PageEntry.half_storeHalf (e : PageEntry) (upper upper' : Bool) (value : BitVec 32) :
    (e.storeHalf upper value).half upper' = if upper' = upper then value else e.half upper' := by
  cases upper with
  | false =>
    cases upper' with
    | false => exact BitVec.extractLsb'_append_eq_right
    | true => exact @BitVec.extractLsb'_append_eq_left 32 32 _ _
  | true =>
    cases upper' with
    | false => exact BitVec.extractLsb'_append_eq_right
    | true => exact @BitVec.extractLsb'_append_eq_left 32 32 _ _

/-- The 32 bits that were stored, and all others. -/
theorem Memory.dword_storeDword (mem : Memory) {addr : ℕ} (haddr : 4 ∣ addr) (value : BitVec 32)
    (k : ℕ) :
    (mem.storeDword addr value).dword k = if 4 * k = addr then value else mem.dword k := by
  obtain ⟨n, rfl⟩ := haddr
  have hn : 4 * n / 4 = n := Nat.mul_div_cancel_left n (by decide)
  unfold storeDword dword
  rw [hn]
  by_cases hentry : k / 1024 = n / 1024 ∧ dwordIndex k = dwordIndex n
  · obtain ⟨hframe, hindex⟩ := hentry
    have hslot : k % 1024 / 2 = n % 1024 / 2 := congrArg Fin.val hindex
    rw [hframe, hindex, Memory.set_self, PageEntry.half_storeHalf]
    by_cases hsame : k = n
    · rw [hsame, if_pos rfl, if_pos rfl]
    · have hhalf : (k % 2 == 1) ≠ (n % 2 == 1) := by
        intro hhalf
        have : k % 2 = 1 ↔ n % 2 = 1 := by simpa using congrArg (· = true) hhalf
        omega
      rw [if_neg hhalf, if_neg (by omega)]
  · rw [Memory.set_of_ne _ _ (not_and_or.mp hentry), if_neg]
    rintro hsame
    obtain rfl : k = n := by omega
    exact hentry ⟨rfl, rfl⟩

/-- A level-4 entry for a level-3 table of the boot code maps the first gigabyte. -/
theorem walk_gigabyte {mem : Memory} {root table : ℕ} {i4 : Index}
    (hlink : link mem root i4 = some table) (hlevel3 : mem table = bootLevel3) (i3 i2 i1 : Index) :
    walk mem root [i4, i3, i2, i1] = if i3 = 0 then some (digits [i2, i1]) else none := by
  rw [walk_cons hlink (by simp)]
  by_cases hzero : i3 = 0
  · subst hzero
    have hentry : mem table 0 = ⟨0x00000083⟩ := by rw [hlevel3]; rfl
    have hpresent : (mem table 0).isPresent = true := by rw [hentry]; decide
    have hhuge : (mem table 0).isHuge = true := by rw [hentry]; decide
    have hframe : (mem table 0).frame = 0 := by rw [hentry]; decide
    simp [walk, hpresent, hhuge, hframe, hugeFrame]
  · have habsent : (mem table i3).isPresent = false := by
      rw [hlevel3, bootLevel3, if_neg hzero]
      exact PageEntry.isPresent_cleared
    rw [walk_absent habsent, if_neg hzero]

/-- The frame of an address in a gigabyte. -/
theorem digits_gigabyte (addr : ℕ) :
    digits [level2Index addr, level1Index addr] = addr % 2 ^ 30 / 4096 := by
  show (0 * 512 + (level2Index addr).val) * 512 + (level1Index addr).val = _
  rw [level2Index, level1Index, indexAt_val, indexAt_val]
  omega

/-- An address in the first gigabyte of the kernel. -/
def HighGigabyte (addr : ℕ) : Prop :=
  kernelAddrVirtualOffset ≤ addr ∧ addr < kernelAddrVirtualOffset + 2 ^ 30

/-- The indices of the addresses in the first gigabyte of the kernel. -/
theorem highGigabyte_iff {addr : ℕ} (hlt : addr < usizeCount) :
    HighGigabyte addr ↔ Canonical addr ∧ level4Index addr = 256 ∧ level3Index addr = 0 := by
  rw [Fin.ext_iff, Fin.ext_iff, level4Index, level3Index, indexAt_val, indexAt_val]
  unfold HighGigabyte kernelAddrVirtualOffset Canonical
  unfold usizeCount at hlt
  show _ ↔ _ ∧ _ = 256 ∧ _ = 0
  omega

/-- The addresses that resolve when some level-4 entries map the first gigabyte and the others,
apart from the recursive slot, are not present. -/
theorem resolve_gigabytes {s : Machine α} {mapped : Index → Prop}
    (hmapped : ∀ i, mapped i → ∃ table, link s.mem s.cr3 i = some table ∧ s.mem table = bootLevel3)
    (hothers : ∀ i, ¬mapped i → i ≠ recursiveSlot → (s.mem s.cr3 i).isPresent = false)
    {addr : ℕ} (hslot : level4Index addr ≠ recursiveSlot) (frame : ℕ) :
    s.resolve addr = .ok frame ↔
      (Canonical addr ∧ mapped (level4Index addr) ∧ level3Index addr = 0) ∧
        frame = addr % 2 ^ 30 / 4096 := by
  have hindices : indices addr =
      [level4Index addr, level3Index addr, level2Index addr, level1Index addr] := rfl
  rw [Machine.resolve, hindices]
  by_cases hcanonical : Canonical addr
  · rw [if_pos hcanonical]
    by_cases hmap : mapped (level4Index addr)
    · obtain ⟨table, hlink, hlevel3⟩ := hmapped _ hmap
      rw [walk_gigabyte hlink hlevel3, digits_gigabyte]
      by_cases hzero : level3Index addr = 0
      · rw [if_pos hzero]
        simp [hcanonical, hmap, hzero, eq_comm]
      · rw [if_neg hzero]
        simp [hzero]
    · rw [walk_absent (hothers _ hmap hslot)]
      simp [hmap]
  · rw [if_neg hcanonical]
    simp [hcanonical]

section Tables

variable (s : Machine α)

/-- The addresses that resolve with the boot tables. -/
theorem BootTables.resolve {s : Machine α} (h : BootTables s) {addr : ℕ} (hlt : addr < usizeCount)
    (hslot : level4Index addr ≠ recursiveSlot) (frame : ℕ) :
    s.resolve addr = .ok frame ↔ HighGigabyte addr ∧ frame = addr % 2 ^ 30 / 4096 := by
  have hmapped : ∀ i : Index, i = 256 →
      ∃ table, link s.mem s.cr3 i = some table ∧ s.mem table = bootLevel3 := by
    rintro i rfl
    refine ⟨3, ?_, h.level3⟩
    rw [h.cr3, link, h.level4]
    decide
  have hothers : ∀ i : Index, ¬i = 256 → i ≠ recursiveSlot →
      (s.mem s.cr3 i).isPresent = false := by
    intro i hi hslot
    rw [h.cr3, h.level4_cleared hi hslot, PageEntry.isPresent_cleared]
  rw [resolve_gigabytes hmapped hothers hslot, highGigabyte_iff hlt]

end Tables

end Axel
