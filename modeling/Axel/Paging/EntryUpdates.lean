import Axel.Paging.Entry
import Mathlib.Data.List.Induction

/-!
# Runs of updates on one entry

The flags and the address of an entry share one word. `set_flags` and `set_frame_addr` merge
into it, and `flags` and `get_frame_addr` take the parts out again. This file says what a
series of updates on a cleared entry leaves in the word, and what the two getters make of it.
-/

namespace Axel

namespace PageEntryFlags

/-- No flag. -/
def empty : PageEntryFlags := ⟨0, by decide⟩

/-- `NO_EXECUTE`. -/
def noExecute : PageEntryFlags := ⟨1 <<< 63, by decide⟩

/-- Flags with the same bits are equal. -/
theorem ext_bits {flags flags' : PageEntryFlags} (h : flags.bits = flags'.bits) :
    flags = flags' := by
  cases flags
  cases flags'
  exact (PageEntryFlags.mk.injEq _ _ _ _).mpr h

/-- The flag `NO_EXECUTE` is the highest bit. -/
theorem contains_noExecute (flags : PageEntryFlags) :
    flags.contains noExecute = flags.bits.getLsbD 63 := by
  have hflags : PageEntry.flags ⟨flags.bits⟩ = flags := ext_bits flags.named
  have hbit : (PageEntry.flags ⟨flags.bits⟩).contains noExecute = flags.bits.getLsbD 63 :=
    PageEntry.contains_flag ⟨flags.bits⟩ (by decide) (by decide)
  rwa [hflags] at hbit

/-- A union contains `NO_EXECUTE` if one of its parts does. -/
theorem contains_noExecute_union (flags flags' : PageEntryFlags) :
    (flags.union flags').contains noExecute =
      (flags.contains noExecute || flags'.contains noExecute) := by
  simp only [contains_noExecute, union, BitVec.getLsbD_or]

end PageEntryFlags

/-- An address that `set_frame_addr` accepts: page-aligned and below `2 ^ 48`. -/
structure FrameAddr where
  /-- The address. -/
  addr : ℕ
  /-- The address is that of a frame. -/
  aligned : addr % 4096 = 0
  /-- The address has 48 bits. -/
  addr_lt : addr < 2 ^ 48
  deriving DecidableEq

/-- An update of an entry. -/
inductive EntryUpdate where
  /-- `set_flags`. -/
  | setFlags (flags : PageEntryFlags)
  /-- `set_frame_addr`. -/
  | setFrameAddr (addr : FrameAddr)

namespace EntryUpdate

/-- Perform an update. -/
def apply (entry : PageEntry) : EntryUpdate → Except Fault PageEntry
  | .setFlags flags => .ok (entry.setFlags flags)
  | .setFrameAddr addr => entry.setFrameAddr addr.addr

/-- Perform a series of updates on a cleared entry. -/
def run (updates : List EntryUpdate) : Except Fault PageEntry :=
  updates.foldlM apply PageEntry.cleared

/-- The address that an update sets, if it sets one. -/
def addr? : EntryUpdate → Option FrameAddr
  | .setFlags _ => none
  | .setFrameAddr addr => some addr

/-- The flags that an update sets. -/
def flags : EntryUpdate → PageEntryFlags
  | .setFlags flags => flags
  | .setFrameAddr _ => .empty

/-- The last address that a series of updates sets, if it sets one. -/
def lastAddr (updates : List EntryUpdate) : Option FrameAddr :=
  (updates.filterMap addr?).getLast?

/-- The union of all flags that a series of updates sets. -/
def allFlags (updates : List EntryUpdate) : PageEntryFlags :=
  (updates.map flags).foldl PageEntryFlags.union .empty

/-- The flags that the entry has after a series of updates: `PRESENT` is added with the first
address. -/
def entryFlags (updates : List EntryUpdate) : PageEntryFlags :=
  if (lastAddr updates).isSome then (allFlags updates).union .present else allFlags updates

/-- The word that the entry is after a series of updates. -/
def entryWord (updates : List EntryUpdate) : BitVec 64 :=
  BitVec.ofNat 64 ((lastAddr updates).elim 0 FrameAddr.addr) ||| (entryFlags updates).bits

/-! ## The word -/

/-- No flag is a bit of an address. -/
theorem addr_and_flagBits (addr : FrameAddr) :
    BitVec.ofNat 64 addr.addr &&& flagBits = 0#64 := by
  have hmask : ∀ i < 64, 12 ≤ i → i < 48 → flagBits.getLsbD i = false := by decide
  apply BitVec.eq_of_getLsbD_eq
  intro i hi
  rw [BitVec.getLsbD_and, BitVec.getLsbD_ofNat, decide_eq_true hi, Bool.true_and,
    BitVec.getLsbD_zero]
  by_cases hlow : 12 ≤ i
  · by_cases hhigh : i < 48
    · rw [hmask i hi hlow hhigh, Bool.and_false]
    · have hbit : addr.addr.testBit i = false :=
        Nat.testBit_lt_two_pow (Nat.lt_of_lt_of_le addr.addr_lt
          (Nat.pow_le_pow_right (by decide) (Nat.not_lt.mp hhigh)))
      rw [hbit, Bool.false_and]
  · have haligned := addr.aligned
    have hbit : addr.addr.testBit i = false := by
      have haddr : addr.addr = addr.addr / 4096 * 2 ^ 12 := by omega
      rw [haddr, Nat.testBit_mul_two_pow, decide_eq_false hlow, Bool.false_and]
    rw [hbit, Bool.false_and]

/-- The flags of a word that an address and flags make up. -/
theorem flags_of_word (addr : Option FrameAddr) (flags : PageEntryFlags) :
    PageEntry.flags ⟨BitVec.ofNat 64 (addr.elim 0 FrameAddr.addr) ||| flags.bits⟩ = flags := by
  have haddr : BitVec.ofNat 64 (addr.elim 0 FrameAddr.addr) &&& flagBits = 0#64 := by
    cases addr with
    | none => exact BitVec.zero_and
    | some addr => exact addr_and_flagBits addr
  have hword : (BitVec.ofNat 64 (addr.elim 0 FrameAddr.addr) ||| flags.bits) &&& flagBits =
      flags.bits := by
    rw [BitVec.and_comm, BitVec.and_or_distrib_left, BitVec.and_comm, haddr, BitVec.and_comm,
      flags.named, BitVec.zero_or]
  exact PageEntryFlags.ext_bits hword

/-- An update after others: the union of all flags. -/
theorem allFlags_concat (updates : List EntryUpdate) (update : EntryUpdate) :
    allFlags (updates ++ [update]) = (allFlags updates).union update.flags := by
  simp only [allFlags, List.map_append, List.map_cons, List.map_nil, List.foldl_append,
    List.foldl_cons, List.foldl_nil]

/-- The union with no flag changes nothing. -/
theorem union_empty (flags : PageEntryFlags) : flags.union .empty = flags :=
  PageEntryFlags.ext_bits BitVec.or_zero

/-- Setting flags after other updates leaves the last address. -/
theorem lastAddr_concat_setFlags (updates : List EntryUpdate) (flags : PageEntryFlags) :
    lastAddr (updates ++ [.setFlags flags]) = lastAddr updates := by
  simp only [lastAddr, List.filterMap_append, List.filterMap_cons, addr?, List.filterMap_nil,
    List.append_nil]

/-- Setting an address after other updates makes it the last one. -/
theorem lastAddr_concat_setFrameAddr (updates : List EntryUpdate) (addr : FrameAddr) :
    lastAddr (updates ++ [.setFrameAddr addr]) = some addr := by
  simp only [lastAddr, List.filterMap_append, List.filterMap_cons, addr?, List.filterMap_nil,
    List.getLast?_append, List.getLast?_singleton, Option.some_or]

/-- Setting flags adds them to those of the entry. -/
theorem entryFlags_concat_setFlags (updates : List EntryUpdate) (flags : PageEntryFlags) :
    (entryFlags (updates ++ [.setFlags flags])).bits =
      (entryFlags updates).bits ||| flags.bits := by
  unfold entryFlags
  rw [lastAddr_concat_setFlags, allFlags_concat]
  split
  case isTrue =>
    simp only [PageEntryFlags.union, EntryUpdate.flags, BitVec.or_assoc,
      BitVec.or_comm flags.bits]
  case isFalse => rfl

/-- Setting an address adds `PRESENT` to the flags of the entry. -/
theorem entryFlags_concat_setFrameAddr (updates : List EntryUpdate) (addr : FrameAddr) :
    (entryFlags (updates ++ [.setFrameAddr addr])).bits =
      (entryFlags updates).bits ||| PageEntryFlags.present.bits := by
  unfold entryFlags
  rw [lastAddr_concat_setFrameAddr, allFlags_concat, EntryUpdate.flags, union_empty,
    if_pos Option.isSome_some]
  split
  case isTrue => simp only [PageEntryFlags.union, BitVec.or_assoc, BitVec.or_self]
  case isFalse => rfl

/-- The word after one more update. -/
theorem apply_entryWord (updates : List EntryUpdate) (update : EntryUpdate) :
    apply ⟨entryWord updates⟩ update = .ok ⟨entryWord (updates ++ [update])⟩ := by
  cases update with
  | setFlags flags =>
    have hword : (PageEntry.setFlags ⟨entryWord updates⟩ flags).word =
        entryWord (updates ++ [.setFlags flags]) := by
      rw [PageEntry.word_setFlags, entryWord, entryWord, lastAddr_concat_setFlags,
        entryFlags_concat_setFlags, BitVec.or_assoc]
    exact congrArg (fun word => Except.ok (PageEntry.mk word)) hword
  | setFrameAddr addr =>
    have haligned := addr.aligned
    have hlt := addr.addr_lt
    have haddr : addr.addr = addr.addr / 4096 * 4096 := by omega
    have hset : PageEntry.setFrameAddr ⟨entryWord updates⟩ addr.addr =
        .ok (PageEntry.withFrame ⟨entryWord updates⟩ (addr.addr / 4096)) := by
      rw [haddr, PageEntry.setFrameAddr_eq _ (by omega), Nat.mul_div_cancel _ (by decide)]
    have hflags : entryWord updates &&& flagBits = (entryFlags updates).bits :=
      congrArg PageEntryFlags.bits (flags_of_word (lastAddr updates) (entryFlags updates))
    have hword : (PageEntry.withFrame ⟨entryWord updates⟩ (addr.addr / 4096)).word =
        entryWord (updates ++ [.setFrameAddr addr]) := by
      rw [PageEntry.word_withFrame, hflags, entryWord, lastAddr_concat_setFrameAddr,
        entryFlags_concat_setFrameAddr, Option.elim_some]
      change BitVec.ofNat 64 (addr.addr / 4096 * 4096) ||| _ = _
      rw [← haddr]
      rfl
    exact hset.trans (congrArg (fun word => Except.ok (PageEntry.mk word)) hword)

/-- The entry after a series of updates. -/
theorem run_eq (updates : List EntryUpdate) : run updates = .ok ⟨entryWord updates⟩ := by
  induction updates using List.reverseRecOn with
  | nil => rfl
  | append_singleton updates update ih =>
    unfold run at ih ⊢
    rw [List.foldlM_append, ih]
    simp only [bind, Except.bind, List.foldlM_cons, List.foldlM_nil, apply_entryWord, pure,
      Except.pure]

/-! ## The getters -/

/-- The flags of the entry after a series of updates that sets an address. -/
theorem flags_run {updates : List EntryUpdate} {addr : FrameAddr}
    (haddr : lastAddr updates = some addr) :
    PageEntry.flags ⟨entryWord updates⟩ = (allFlags updates).union .present := by
  unfold entryWord
  rw [flags_of_word, entryFlags, haddr]
  rfl

/-- Masking the low bits leaves an address as it is. -/
theorem addr_and_mask (addr : FrameAddr) :
    BitVec.ofNat 64 addr.addr &&& ~~~0xFFF = BitVec.ofNat 64 addr.addr := by
  have haligned := addr.aligned
  have hlt := addr.addr_lt
  have hmask := and_complement_mask (x := addr.addr) (k := 12) (by unfold usizeCount; omega)
    (by decide)
  have hconstant : usizeCount - 1 - (2 ^ 12 - 1) = (~~~0xFFF#64).toNat := by decide
  rw [hconstant] at hmask
  apply BitVec.eq_of_toNat_eq
  rw [BitVec.toNat_and, BitVec.toNat_ofNat, Nat.mod_eq_of_lt (by omega)]
  exact hmask.trans (by omega)

/-- Masking the low bits leaves one flag, the highest. -/
theorem flags_and_mask (flags : PageEntryFlags) :
    flags.bits &&& ~~~0xFFF =
      if flags.contains .noExecute then BitVec.twoPow 64 63 else 0#64 := by
  have hconstant : flagBits &&& ~~~0xFFF = BitVec.twoPow 64 63 := by decide
  rw [PageEntryFlags.contains_noExecute, ← BitVec.and_twoPow, ← hconstant, ← BitVec.and_assoc,
    flags.named]

/-- The frame address of the entry: `NO_EXECUTE` is not masked away. -/
theorem getFrameAddr_run {updates : List EntryUpdate} {addr : FrameAddr}
    (haddr : lastAddr updates = some addr) :
    PageEntry.getFrameAddr ⟨entryWord updates⟩ =
      some (if (allFlags updates).contains .noExecute then 2 ^ 63 + addr.addr
        else addr.addr) := by
  have hlt := addr.addr_lt
  have hflags := flags_run haddr
  have hentry : entryFlags updates = (allFlags updates).union .present := by
    rw [entryFlags, haddr]
    rfl
  have hpresent : ((allFlags updates).union .present).contains .present = true := by
    rw [← hflags, PageEntry.contains_present, PageEntry.isPresent, entryWord, hentry]
    simp [PageEntryFlags.union, PageEntryFlags.present]
  have hnoExecute : ((allFlags updates).union .present).contains .noExecute =
      (allFlags updates).contains .noExecute := by
    rw [PageEntryFlags.contains_noExecute_union]
    exact Bool.or_false _
  have hword : entryWord updates &&& ~~~0xFFF = BitVec.ofNat 64 addr.addr |||
      if (allFlags updates).contains .noExecute then BitVec.twoPow 64 63 else 0#64 := by
    rw [entryWord, haddr, hentry, Option.elim_some, BitVec.and_comm,
      BitVec.and_or_distrib_left, BitVec.and_comm, addr_and_mask, BitVec.and_comm,
      flags_and_mask, hnoExecute]
  rw [PageEntry.getFrameAddr, hflags, if_pos hpresent, hword]
  cases (allFlags updates).contains .noExecute with
  | false =>
    rw [if_neg Bool.false_ne_true, if_neg Bool.false_ne_true, BitVec.or_zero,
      BitVec.toNat_ofNat, Nat.mod_eq_of_lt (by omega)]
  | true =>
    rw [if_pos rfl, if_pos rfl, BitVec.toNat_or, BitVec.toNat_ofNat,
      Nat.mod_eq_of_lt (by omega), Nat.or_comm, BitVec.toNat_twoPow]
    have hsum := Nat.two_pow_add_eq_or_of_lt (i := 63) (b := addr.addr) (by omega) 1
    rw [Nat.mul_one] at hsum
    exact congrArg some hsum.symm

/-- The union of all flags contains `NO_EXECUTE` if the flags of an update do. -/
theorem contains_noExecute_allFlags (updates : List EntryUpdate) :
    (allFlags updates).contains .noExecute =
      updates.any fun update => update.flags.contains .noExecute := by
  induction updates using List.reverseRecOn with
  | nil => decide
  | append_singleton updates update ih =>
    rw [allFlags_concat, PageEntryFlags.contains_noExecute_union, ih, List.any_append,
      List.any_cons, List.any_nil, Bool.or_false]

/-- The union of all flags contains `NO_EXECUTE` exactly if one of the updates sets it. -/
theorem noExecute_allFlags_iff (updates : List EntryUpdate) :
    (allFlags updates).contains .noExecute = true ↔
      ∃ flags, .setFlags flags ∈ updates ∧ flags.contains .noExecute = true := by
  rw [contains_noExecute_allFlags, List.any_eq_true]
  constructor
  · rintro ⟨update, hmem, hflags⟩
    cases update with
    | setFlags flags => exact ⟨flags, hmem, hflags⟩
    | setFrameAddr addr =>
      have hempty : PageEntryFlags.empty.contains .noExecute = false := by decide
      cases hempty.symm.trans hflags
  · rintro ⟨flags, hmem, hflags⟩
    exact ⟨.setFlags flags, hmem, hflags⟩

/-- The entry encodes the last address and all flags, and the getters decode them. -/
def Decodes (updates : List EntryUpdate) (addr : FrameAddr) : Prop :=
  ∃ entry, run updates = .ok entry ∧ entry.getFrameAddr = some addr.addr ∧
    entry.flags = (allFlags updates).union .present

/-- The getters decode what a series of updates encodes exactly if none of the updates sets
`NO_EXECUTE`. The flags are decoded in every case. -/
theorem decodes_iff (updates : List EntryUpdate) (addr : FrameAddr)
    (haddr : lastAddr updates = some addr) :
    Decodes updates addr ↔
      ∀ flags, .setFlags flags ∈ updates → flags.contains .noExecute = false := by
  have hnoExecute := noExecute_allFlags_iff updates
  constructor
  · rintro ⟨entry, hrun, hget, -⟩ flags hmem
    rw [run_eq] at hrun
    cases hrun
    rw [getFrameAddr_run haddr] at hget
    cases hflags : flags.contains .noExecute with
    | false => rfl
    | true =>
      rw [if_pos (hnoExecute.mpr ⟨flags, hmem, hflags⟩)] at hget
      have haddr_eq := Option.some.inj hget
      omega
  · intro hnone
    have hfalse : ¬ (allFlags updates).contains .noExecute = true := by
      rw [hnoExecute]
      rintro ⟨flags, hmem, hflags⟩
      rw [hnone flags hmem] at hflags
      cases hflags
    refine ⟨_, run_eq updates, ?_, flags_run haddr⟩
    rw [getFrameAddr_run haddr, if_neg hfalse]

/-- The address of the second frame. -/
def secondFrame : FrameAddr := ⟨4096, by decide, by decide⟩

/-- The decoding of a writable entry for a frame. -/
theorem decodes_iff_writable : Decodes [.setFrameAddr secondFrame, .setFlags .writable]
    secondFrame :=
  (decodes_iff _ secondFrame rfl).mpr (by
    intro flags hmem
    simp only [List.mem_cons, reduceCtorEq, setFlags.injEq, List.not_mem_nil, or_false,
      false_or] at hmem
    subst hmem
    decide)

/-- An entry that must not be executed does not give its frame address back. -/
theorem not_decodes :
    ¬ ∀ (updates : List EntryUpdate) (addr : FrameAddr), lastAddr updates = some addr →
      Decodes updates addr := by
  intro hall
  obtain ⟨entry, hrun, hget, -⟩ :=
    hall [.setFrameAddr secondFrame, .setFlags .noExecute] secondFrame rfl
  rw [run_eq] at hrun
  cases hrun
  rw [getFrameAddr_run rfl] at hget
  exact absurd hget (by decide)

end EntryUpdate

end Axel
