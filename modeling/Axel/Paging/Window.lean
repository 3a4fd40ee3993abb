import Axel.Paging.Table

/-!
# The recursive window

When the slot 511 of the level-4 table refers to the table itself, the tables appear
in the last part of the address space. The pointers that
`next_level_table_address` computes lie there. This file shows that the processor
resolves such a pointer to the table that the indices lead to. The window may belong
to another table than the one in CR3: it is enough that the slot 511 of the active
table leads to the table that the window shows.
-/

namespace Axel

open Descent Table

variable {α : Type}

/-- The pointer to the table that a path of at most three indices leads to. -/
def windowPtr (path : List Index) : ℕ := path.foldl nextAddress level4PageTable

/-- The recursive window of the table in CR3 shows the tables below `root`. -/
structure Window (mem : Memory) (cr3 root : ℕ) : Prop where
  /-- The slot 511 of the active table leads to the root. -/
  enters : link mem cr3 recursiveSlot = some root
  /-- The slot 511 of the root leads back to the root. -/
  stays : link mem root recursiveSlot = some root

/-- The pointer to a table of the next level, without bit operations. -/
theorem nextAddress_eq (table : ℕ) (i : Index) :
    nextAddress table i = table * 512 % usizeCount / 2 ^ 21 * 2 ^ 21 +
      (table * 512 % usizeCount % 2 ^ 21 ||| i.val * 4096) := by
  have hi : i.val * 4096 < 2 ^ 21 := by
    have := i.isLt
    omega
  unfold nextAddress
  rw [Nat.shiftLeft_eq, Nat.shiftLeft_eq]
  generalize table * 2 ^ 9 % usizeCount = shifted
  have hor : shifted % 2 ^ 21 ||| i.val * 4096 < 2 ^ 21 :=
    Nat.or_lt_two_pow (Nat.mod_lt _ (by decide)) hi
  calc shifted ||| i.val * 4096
      = (2 ^ 21 * (shifted / 2 ^ 21) + shifted % 2 ^ 21) ||| i.val * 4096 := by
        rw [Nat.div_add_mod]
    _ = 2 ^ 21 * (shifted / 2 ^ 21) ||| (shifted % 2 ^ 21 ||| i.val * 4096) := by
        rw [Nat.two_pow_add_eq_or_of_lt (Nat.mod_lt _ (by decide)), Nat.or_assoc]
    _ = 2 ^ 21 * (shifted / 2 ^ 21) + (shifted % 2 ^ 21 ||| i.val * 4096) := by
        rw [Nat.two_pow_add_eq_or_of_lt hor]
    _ = _ := by rw [Nat.mul_comm (2 ^ 21)]

/-- A page-aligned pointer moves up by nine bits and gets the index as its last digit. -/
theorem nextAddress_aligned (page : ℕ) (i : Index) :
    nextAddress (page * 4096) i = page * 2 ^ 21 % usizeCount + i.val * 4096 := by
  have hzero : page * 4096 * 512 % usizeCount % 2 ^ 21 = 0 := by
    unfold usizeCount
    omega
  rw [nextAddress_eq, hzero, Nat.zero_or]
  unfold usizeCount
  omega

/-- The pointer to a level-3 table. -/
theorem windowPtr_one (i4 : Index) : windowPtr [i4] = 2 ^ 64 - 2 ^ 21 + i4 * 2 ^ 12 := by
  have hroot : level4PageTable = 0xfffffffffffff * 4096 := by decide
  rw [windowPtr, List.foldl_cons, List.foldl_nil, hroot, nextAddress_aligned]
  unfold usizeCount
  omega

/-- The pointer to a level-2 table. -/
theorem windowPtr_two (i4 i3 : Index) :
    windowPtr [i4, i3] = 2 ^ 64 - 2 ^ 30 + i4 * 2 ^ 21 + i3 * 2 ^ 12 := by
  have hone := windowPtr_one i4
  have halign : windowPtr [i4] = (2 ^ 52 - 2 ^ 9 + i4.val) * 4096 := by omega
  show nextAddress (windowPtr [i4]) i3 = _
  rw [halign, nextAddress_aligned]
  unfold usizeCount
  omega

/-- The pointer to a level-1 table. -/
theorem windowPtr_three (i4 i3 i2 : Index) :
    windowPtr [i4, i3, i2] = 2 ^ 64 - 2 ^ 39 + i4 * 2 ^ 30 + i3 * 2 ^ 21 + i2 * 2 ^ 12 := by
  have htwo := windowPtr_two i4 i3
  have halign : windowPtr [i4, i3] = (2 ^ 52 - 2 ^ 18 + i4.val * 2 ^ 9 + i3.val) * 4096 := by omega
  show nextAddress (windowPtr [i4, i3]) i2 = _
  rw [halign, nextAddress_aligned]
  unfold usizeCount
  omega

/-- The pointer to the table at a path is canonical, and its indices are as many
recursive slots as are missing to four, followed by the path. -/
theorem windowPtr_spec {path : List Index} (h : path.length ≤ 3) :
    Canonical (windowPtr path) ∧
      indices (windowPtr path) = List.replicate (4 - path.length) recursiveSlot ++ path := by
  unfold Canonical indices tablePath level4Index level3Index level2Index level1Index
  match path with
  | [] => decide
  | [i4] =>
    have h4 := i4.isLt
    rw [windowPtr_one]
    simp [Fin.ext_iff, indexAt_val, recursiveSlot, List.replicate]
    omega
  | [i4, i3] =>
    have h4 := i4.isLt
    have h3 := i3.isLt
    rw [windowPtr_two]
    simp [Fin.ext_iff, indexAt_val, recursiveSlot, List.replicate]
    omega
  | [i4, i3, i2] =>
    have h4 := i4.isLt
    have h3 := i3.isLt
    rw [windowPtr_three]
    simp [Fin.ext_iff, indexAt_val, recursiveSlot]
    omega

/-- Any number of recursive slots leads to the root of the window. -/
theorem Window.descend_replicate {mem : Memory} {cr3 root : ℕ} (h : Window mem cr3 root) (n : ℕ) :
    descend (link mem) cr3 (List.replicate (n + 1) recursiveSlot) = some root := by
  induction n with
  | zero => simpa using h.enters
  | succ n ih => rw [List.replicate_succ', descend_concat ih, h.stays]

/-- A pointer into the window resolves to the table that its path leads to. -/
theorem Window.resolve {s : Machine α} {root table : ℕ} (h : Window s.mem s.cr3 root)
    {path : List Index} (hlen : path.length ≤ 3)
    (htable : descend (link s.mem) root path = some table) :
    s.resolve (windowPtr path) = .ok table := by
  obtain ⟨hcanonical, hindices⟩ := windowPtr_spec hlen
  apply resolve_ok hcanonical
  rw [hindices]
  apply walk_of_descend
  · rw [descend_append, show 4 - path.length = 3 - path.length + 1 by omega,
      h.descend_replicate, Option.bind_some, htable]
  · simp
    omega

/-- The pointer to the level-4 table resolves to the root of the window. -/
theorem Window.resolve_root {s : Machine α} {root : ℕ} (h : Window s.mem s.cr3 root) :
    s.resolve level4PageTable = .ok root :=
  h.resolve (show ([] : List Index).length ≤ 3 by decide) descend_nil

/-- The pointer to a child is computed from the pointer to its parent. -/
theorem windowPtr_concat (path : List Index) (i : Index) :
    windowPtr (path ++ [i]) = nextAddress (windowPtr path) i := by
  simp [windowPtr]

/-- `next_level_table_address` follows an entry exactly when the processor does. -/
theorem nextLevelTableAddress_run {s : Machine α} {table frame : ℕ}
    (h : s.resolve table = .ok frame) (i : Index) :
    nextLevelTableAddress table i s =
      .ok ((link s.mem frame i).map fun _ => nextAddress table i)
        { s with trace := s.trace ++ [.read table frame i] } := by
  rw [nextLevelTableAddress, bind_ok (readEntry_ok h i)]
  simp only [PageEntry.contains_present, PageEntry.contains_hugePage, link, PageEntry.child]
  cases hcond : (s.mem frame i).isPresent && !(s.mem frame i).isHuge with
  | false => simp
  | true => simp

/-- `next_level_table_address` on an entry that refers to a table. -/
theorem nextLevelTableAddress_some {s : Machine α} {table frame child : ℕ}
    (h : s.resolve table = .ok frame) {i : Index} (hlink : link s.mem frame i = some child) :
    nextLevelTableAddress table i s =
      .ok (some (nextAddress table i)) { s with trace := s.trace ++ [.read table frame i] } := by
  rw [nextLevelTableAddress_run h, hlink, Option.map_some]

/-- A pointer is canonical, has the given indices, and is translated to a frame. -/
def Machine.Shows (s : Machine α) (pointer : ℕ) (ix : List Index) (frame : ℕ) : Prop :=
  Canonical pointer ∧ indices pointer = ix ∧ walk s.mem s.cr3 (indices pointer) = some frame

/-- The pointer to a table shows that table. -/
theorem Window.shows {s : Machine α} {root table : ℕ} (h : Window s.mem s.cr3 root)
    {path : List Index} (hlen : path.length ≤ 3)
    (htable : descend (link s.mem) root path = some table) :
    s.Shows (windowPtr path) (List.replicate (4 - path.length) recursiveSlot ++ path) table := by
  obtain ⟨hcanonical, hindices⟩ := windowPtr_spec hlen
  refine ⟨hcanonical, hindices, ?_⟩
  have hresolve := h.resolve hlen htable
  rw [Machine.resolve, if_pos hcanonical] at hresolve
  cases hwalk : walk s.mem s.cr3 (indices (windowPtr path)) with
  | none => simp [hwalk] at hresolve
  | some frame =>
    rw [hwalk] at hresolve
    rw [Except.ok.inj hresolve]

/-- The recursive window is faithful to the processor. When the slot 511 of the active
table refers to the table itself, the pointers that `next_level_table_address` returns
along three entries show the frames in these entries, and the entries read through
the last pointer are those the processor uses for the pages below. -/
theorem window_faithful (s : Machine α) (i4 i3 i2 : Index) {e4 e3 e2 : PageEntry}
    (hpresent : (s.mem s.cr3 recursiveSlot).isPresent = true)
    (hhuge : (s.mem s.cr3 recursiveSlot).isHuge = false)
    (hself : (s.mem s.cr3 recursiveSlot).frame = s.cr3)
    (he4 : s.mem s.cr3 i4 = e4) (he3 : s.mem e4.frame i3 = e3) (he2 : s.mem e3.frame i2 = e2)
    (h4 : e4.isPresent = true ∧ e4.isHuge = false) (h3 : e3.isPresent = true ∧ e3.isHuge = false)
    (h2 : e2.isPresent = true ∧ e2.isHuge = false) :
    let p3 := nextAddress level4PageTable i4
    let p2 := nextAddress p3 i3
    let p1 := nextAddress p2 i2
    (∃ s', nextLevelTableAddress level4PageTable i4 s = .ok (some p3) s') ∧
    (∃ s', nextLevelTableAddress p3 i3 s = .ok (some p2) s') ∧
    (∃ s', nextLevelTableAddress p2 i2 s = .ok (some p1) s') ∧
    s.Shows p3 [recursiveSlot, recursiveSlot, recursiveSlot, i4] e4.frame ∧
    s.Shows p2 [recursiveSlot, recursiveSlot, i4, i3] e3.frame ∧
    s.Shows p1 [recursiveSlot, i4, i3, i2] e2.frame ∧
    ∀ i1, (∃ s', readEntry p1 i1 s = .ok (s.mem e2.frame i1) s') ∧
      walk s.mem s.cr3 [i4, i3, i2, i1] =
        if (s.mem e2.frame i1).isPresent then some (s.mem e2.frame i1).frame else none := by
  intro p3 p2 p1
  have hslot : link s.mem s.cr3 recursiveSlot = some s.cr3 :=
    PageEntry.child_eq_some.mpr ⟨hpresent, hhuge, hself⟩
  have hwindow : Window s.mem s.cr3 s.cr3 := ⟨hslot, hslot⟩
  have hlink4 : link s.mem s.cr3 i4 = some e4.frame :=
    PageEntry.child_eq_some.mpr ⟨he4 ▸ h4.1, he4 ▸ h4.2, by rw [he4]⟩
  have hlink3 : link s.mem e4.frame i3 = some e3.frame :=
    PageEntry.child_eq_some.mpr ⟨he3 ▸ h3.1, he3 ▸ h3.2, by rw [he3]⟩
  have hlink2 : link s.mem e3.frame i2 = some e2.frame :=
    PageEntry.child_eq_some.mpr ⟨he2 ▸ h2.1, he2 ▸ h2.2, by rw [he2]⟩
  have hpath4 : descend (link s.mem) s.cr3 [i4] = some e4.frame := by
    rw [descend_singleton, hlink4]
  have hpath3 : descend (link s.mem) s.cr3 [i4, i3] = some e3.frame :=
    (descend_concat hpath4).trans hlink3
  have hpath2 : descend (link s.mem) s.cr3 [i4, i3, i2] = some e2.frame :=
    (descend_concat hpath3).trans hlink2
  have hroot := hwindow.resolve_root
  have hres4 := hwindow.resolve (by simp) hpath4
  have hres3 := hwindow.resolve (by simp) hpath3
  have hres2 := hwindow.resolve (by simp) hpath2
  refine ⟨⟨_, nextLevelTableAddress_some hroot hlink4⟩,
    ⟨_, nextLevelTableAddress_some hres4 hlink3⟩,
    ⟨_, nextLevelTableAddress_some hres3 hlink2⟩, hwindow.shows (by simp) hpath4,
    hwindow.shows (by simp) hpath3, hwindow.shows (by simp) hpath2, ?_⟩
  intro i1
  exact ⟨⟨_, readEntry_ok hres2 i1⟩, walk_append hpath2 (by simp)⟩

/-- Four tables, each reached through the slot 0 of the one before, below a level-4
table with a recursive slot. -/
def chainMemory : Memory := fun frame i =>
  if frame = 1 ∧ i = recursiveSlot then ⟨0x1003⟩
  else if frame < 4 ∧ i = 0 then ⟨BitVec.ofNat 64 (frame * 0x1000 + 0x1003)⟩
  else .cleared

/-- The window over the chain of four tables. -/
theorem window_faithful_chain :
    (Machine.mk chainMemory 1 () []).Shows
      (nextAddress (nextAddress (nextAddress level4PageTable 0) 0) 0)
      [recursiveSlot, 0, 0, 0] 4 :=
  (window_faithful (Machine.mk chainMemory 1 () []) 0 0 0 (by decide) (by decide) (by decide)
    (show _ = PageEntry.mk 0x2003 by decide) (show _ = PageEntry.mk 0x3003 by decide)
    (show _ = PageEntry.mk 0x4003 by decide) (by decide) (by decide)
    (by decide)).2.2.2.2.2.1

end Axel
