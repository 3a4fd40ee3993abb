import Axel.Paging.FindEmpty
import Axel.Paging.Grafting

/-!
# The boot page tables

The tables that `boot.asm` leaves when it enters the kernel: the level-4 table in the frame
1, with an entry for the kernel and the recursive slot, and the level-3 table in the frame 3,
whose entry 0 is a huge page. The entry for the load address of the kernel has been cleared.
-/

namespace Axel

open Descent Table ActivePageTable

variable {α : Type}

/-- The level-4 table of the boot code. -/
def bootLevel4 (i : Index) : PageEntry :=
  if i = 256 then ⟨0x00003003⟩ else if i = recursiveSlot then ⟨0x00001003⟩ else .cleared

/-- The level-3 table of the boot code. -/
def bootLevel3 (i : Index) : PageEntry := if i = 0 then ⟨0x00000083⟩ else .cleared

/-- The machine runs on the tables of the boot code. Nothing is said about other frames. -/
structure BootTables (s : Machine α) : Prop where
  /-- The active table. -/
  cr3 : s.cr3 = 1
  /-- The level-4 table. -/
  level4 : s.mem 1 = bootLevel4
  /-- The level-3 table. -/
  level3 : s.mem 3 = bootLevel3

namespace BootTables

variable {s : Machine α} (h : BootTables s)
include h

/-- The window of the boot tables shows these tables. -/
theorem window : Window s.mem s.cr3 1 := by
  have hslot : link s.mem 1 recursiveSlot = some 1 := by
    rw [link, h.level4]
    decide
  rw [h.cr3]
  exact ⟨hslot, hslot⟩

/-- Every other entry of the level-4 table is cleared. -/
theorem level4_cleared {i : Index} (hi : i ≠ 256) (hslot : i ≠ recursiveSlot) :
    s.mem 1 i = .cleared := by
  rw [h.level4, bootLevel4, if_neg hi, if_neg hslot]

/-- No entry of the level-3 table refers to a table. -/
theorem link_level3 (i : Index) : link s.mem 3 i = none := by
  rw [link, h.level3, bootLevel3]
  split
  · decide
  · exact PageEntry.child_eq_none PageEntry.isPresent_cleared

/-- There are two tables, each with one path. -/
theorem path_cases {path : List Index} {table : ℕ} (hpath : TablePath path)
    (htable : descend (link s.mem) 1 path = some table) :
    path = [] ∧ table = 1 ∨ path = [256] ∧ table = 3 := by
  cases path with
  | nil => exact Or.inl ⟨rfl, (Option.some.inj htable).symm⟩
  | cons i rest =>
    obtain ⟨child, hlink, hrest⟩ := Option.bind_eq_some_iff.mp htable
    by_cases hi : i = 256
    · subst hi
      have hchild : link s.mem 1 256 = some 3 := by
        rw [link, h.level4]
        decide
      obtain rfl := Option.some.inj (hchild.symm.trans hlink)
      cases rest with
      | nil => exact Or.inr ⟨rfl, (Option.some.inj hrest).symm⟩
      | cons j rest =>
        rw [descend, h.link_level3, Option.bind_none] at hrest
        cases hrest
    · rw [link, h.level4_cleared hi (hpath.2 i (by simp))] at hlink
      cases hlink

/-- The tables of the boot code. -/
theorem tables_eq : tables s.mem 1 = {1, 3} := by
  apply Set.Subset.antisymm
  · rintro table ⟨path, hpath, htable⟩
    rcases h.path_cases hpath htable with ⟨-, rfl⟩ | ⟨-, rfl⟩ <;> simp
  · apply Set.insert_subset root_mem_nodes
    apply Set.singleton_subset_iff.mpr
    refine ⟨[256], ⟨by simp, ?_⟩, ?_⟩
    · simp [recursiveSlot]
    · rw [descend_singleton, link, h.level4]
      decide

/-- The entries of these tables lead to no other tables. -/
theorem link_closed {node child : ℕ} {i : Index} (hnode : node ∈ ({1, 3} : Set ℕ))
    (hlink : link s.mem node i = some child) : child ∈ ({1, 3} : Set ℕ) := by
  rcases hnode with rfl | rfl
  · by_cases hkernel : i = 256
    · rw [hkernel, link, h.level4] at hlink
      exact Or.inr (Option.some.inj hlink).symm
    · by_cases hslot : i = recursiveSlot
      · rw [hslot, h.window.stays] at hlink
        exact Or.inl (Option.some.inj hlink).symm
      · rw [link, h.level4_cleared hkernel hslot] at hlink
        cases hlink
  · rw [h.link_level3] at hlink
    cases hlink

/-- A page walk on the boot tables reads no other frames than these tables. -/
theorem visited_subset : visited s.mem 1 ⊆ {1, 3} :=
  nodes_subset_of_closed (by simp) fun _ hnode _ _ _ hlink => h.link_closed hnode hlink

/-- The level-4 table has no second path. -/
theorem sole : Sole s.mem 1 [] 1 := by
  intro path hpath htable
  rcases h.path_cases hpath htable with ⟨rfl, -⟩ | ⟨-, hthree⟩
  · rfl
  · cases hthree

/-- A search takes the entry 1 of the level-4 table. -/
theorem firstVacant_eq : firstVacant s.mem 1 = some 1 := by
  rw [firstVacant, h.level4]
  decide +kernel

/-- The boot tables are hosted when the allocator hands out neither of them. -/
theorem hosted [FrameAllocator α] {source : FrameSource α} {used : Set ℕ}
    (hused : Disjoint used {1, 3}) (hserves : source.Serves s.allocator (used ∪ {1, 3})) :
    Hosted source used 1 s := by
  refine ⟨h.window, Or.inr ?_, ?_, ?_⟩
  · rw [h.cr3]
    exact root_mem_nodes
  · rw [h.tables_eq]
    exact hused
  · rw [h.tables_eq]
    exact hserves

end BootTables

end Axel
