import Axel.Paging.Atomicity
import Axel.Paging.BuddyFrames
import Axel.Paging.ContinuousMap

/-!
# Failed searches

`find_empty_pages` links up to three new tables, one after another, and only then looks for
enough free entries in the last one. When a later step fails the function returns `None` and
takes nothing back: the new tables stay linked, and later searches skip the entry of the level-4
table. This file says exactly when a call that returns `None` leaves everything as it was, for
tables of any shape.
-/

namespace Axel

open Dyadic Descent Table ActivePageTable

variable {α : Type}

/-- A frame source whose free frames are known by their numbers. -/
structure TrackedSource (α : Type) [FrameAllocator α] extends FrameSource α where
  /-- The numbers of the free frames. -/
  freeFrames : α → Set ℕ
  /-- An allocator that refuses a frame keeps its free frames. -/
  refused : ∀ {a used a'}, Serves a used → FrameAllocator.allocOne a = .ok (none, a') →
    freeFrames a' = freeFrames a
  /-- A frame that is handed out was free, and the others stay free. -/
  taken : ∀ {a used frame a'}, Serves a used →
    FrameAllocator.allocOne a = .ok (some frame, a') →
    frame.number ∈ freeFrames a ∧ freeFrames a' = freeFrames a \ {frame.number}

/-- The free frames of a stack. -/
def FramePool.tracked : TrackedSource FramePool where
  toFrameSource := FramePool.source
  freeFrames a := {frame | frame ∈ a.frames}
  refused := by
    rintro ⟨frames⟩ used a' - halloc
    cases frames with
    | nil =>
      obtain ⟨-, rfl⟩ := Prod.mk.inj (Except.ok.inj halloc)
      rfl
    | cons f rest => cases halloc
  taken := by
    rintro ⟨frames⟩ used frame a' ⟨hnodup, -⟩ halloc
    cases frames with
    | nil => cases halloc
    | cons f rest =>
      obtain ⟨hframe, rfl⟩ := Prod.mk.inj (Except.ok.inj halloc)
      obtain rfl := Option.some.inj hframe
      have hfirst : f ∉ rest := (List.nodup_cons.mp hnodup).1
      refine ⟨List.mem_cons_self, Set.ext fun n => ⟨fun hn => ?_, fun ⟨hn, hne⟩ => ?_⟩⟩
      · refine ⟨List.mem_cons_of_mem f hn, ?_⟩
        rintro rfl
        exact hfirst hn
      · exact (List.mem_cons.mp hn).resolve_left hne

/-- The free objects after a single one was allocated. -/
theorem BuddyAllocator.Allocated.cover_pos_iff {a a' : BuddyAllocator Frame} {x y : ℕ}
    (h : Allocated a 0 x a') (hwf : a.WellFormed) :
    0 < cover a'.freeBlocks y ↔ 0 < cover a.freeBlocks y ∧ y ≠ x := by
  have hcover := h.cover_eq y
  have hdisjoint := hwf.disjoint y
  by_cases hy : y = x
  · subst hy
    rw [Block.indicator_of_contains (Block.contains_start ⟨y, 0⟩)] at hcover
    omega
  · have hout : ¬(Block.mk x 0).Contains y := by
      rw [Block.contains_mk, pow_zero]
      omega
    rw [Block.indicator_of_not_contains hout] at hcover
    omega

/-- The free frames of the buddy allocator are those of its free blocks. -/
def buddyTracked (base count : ℕ) (held : List Block) :
    TrackedSource (BuddyAllocator Frame) where
  toFrameSource := buddySource base count held
  freeFrames a := {n | ∃ x, n = base + x ∧ 0 < cover a.freeBlocks x}
  refused := by
    rintro a used a' ⟨hmanages, -, -⟩ halloc
    rcases BuddyAllocator.allocate_spec hmanages.wellFormed 0 with ⟨hrun, -⟩ | ⟨x, a₁, hrun, -⟩
    all_goals simp only [FrameAllocator.allocOne, hrun, bind, Except.bind, pure, Except.pure,
      Option.map_none, Option.map_some, Except.ok.injEq, Prod.mk.injEq, reduceCtorEq,
      false_and] at halloc
    rw [← halloc.2]
  taken := by
    rintro a used frame a' ⟨hmanages, -, -⟩ halloc
    rcases BuddyAllocator.allocate_spec hmanages.wellFormed 0 with
      ⟨hrun, -⟩ | ⟨x, a₁, hrun, hallocated⟩
    all_goals simp only [FrameAllocator.allocOne, hrun, bind, Except.bind, pure, Except.pure,
      Option.map_none, Option.map_some, Except.ok.injEq, Prod.mk.injEq, reduceCtorEq,
      false_and, Option.some.injEq] at halloc
    obtain ⟨rfl, rfl⟩ := halloc
    have hrange := hallocated.inRange
    have hcount := hmanages.count_eq
    have hnumber := (hmanages.allocated hallocated).number_eq x (by omega)
    have hpos := hallocated.cover_eq x
    rw [Block.indicator_of_contains (Block.contains_start ⟨x, 0⟩)] at hpos
    rw [hnumber]
    refine ⟨⟨x, rfl, by omega⟩, Set.ext fun n => ⟨?_, ?_⟩⟩
    · rintro ⟨y, rfl, hy⟩
      obtain ⟨hold, hne⟩ := (hallocated.cover_pos_iff hmanages.wellFormed).mp hy
      refine ⟨⟨y, rfl, hold⟩, fun hsame => hne ?_⟩
      have hsame : base + y = base + x := hsame
      omega
    · rintro ⟨⟨y, rfl, hold⟩, hne⟩
      refine ⟨y, rfl, (hallocated.cover_pos_iff hmanages.wellFormed).mpr ⟨hold, ?_⟩⟩
      rintro rfl
      exact hne rfl

section Search

variable [FrameAllocator α] {source : TrackedSource α} {used : Set ℕ} {root : ℕ}
  {s s' : Machine α} {count : ℕ}

/-- What every search does, whether or not it finds pages: the paths from the root stay, and no
frame becomes free. -/
structure OnlyAdds (source : TrackedSource α) (root : ℕ) (s s' : Machine α) : Prop where
  /-- Every path leads to the same frame. -/
  paths : ∀ path node, path.length ≤ 4 → descend (link s.mem) root path = some node →
    descend (link s'.mem) root path = some node
  /-- The free frames were free before. -/
  frames : source.freeFrames s'.allocator ⊆ source.freeFrames s.allocator

/-- One run after another. -/
theorem OnlyAdds.trans {s₁ : Machine α} (h : OnlyAdds source root s s₁)
    (h' : OnlyAdds source root s₁ s') : OnlyAdds source root s s' :=
  ⟨fun path node hlen hnode => h'.paths path node hlen (h.paths path node hlen hnode),
    h'.frames.trans h.frames⟩

/-- A run that only reads. -/
theorem OnlyAdds.of_reads (hmem : s'.mem = s.mem) (hallocator : s'.allocator = s.allocator) :
    OnlyAdds source root s s' :=
  ⟨fun path node _ hnode => by rw [hmem, hnode], by rw [hallocator]⟩

/-- Linking a fresh table. -/
theorem LinkedAt.onlyAdds {table child : ℕ} {i : Index}
    (h : LinkedAt source.toFrameSource used root table i child s s')
    (hinside : visited s.mem root ⊆ used) (hserves : source.Serves s.allocator used) :
    OnlyAdds source root s s' := by
  obtain ⟨frame, halloc⟩ := h.taken
  refine ⟨fun path node hlen hnode => ?_, ?_⟩
  · exact descend_kept hinside (fun f hf j => h.kept hf) hlen hnode
  · rw [(source.taken hserves halloc).2]
    exact Set.sdiff_subset

/-- Creating a table at the end of a path. -/
theorem Supplied.create_onlyAdds {front : List Index} {table : ℕ} {i : Index} {r : Option ℕ}
    (h : Supplied source.toFrameSource used root s)
    (htable : descend (link s.mem) root front = some table) (hlen : front.length ≤ 2)
    (hrun : nextLevelTableCreateMut (windowPtr front) i s = .ok r s') :
    OnlyAdds source root s s' := by
  rcases h.create_cases htable hlen i with ⟨child, s₁, -, hrun', hmem, -, hallocator⟩ |
    ⟨-, ⟨s₁, hrun', hmem, -, halloc, -⟩ | ⟨-, -, s₁, hrun'⟩ | ⟨s₁, child, hrun', hlinked⟩⟩
  all_goals rw [hrun] at hrun'
  · obtain ⟨-, rfl⟩ := EStateM.Result.ok.inj hrun'
    exact .of_reads hmem hallocator
  · obtain ⟨-, rfl⟩ := EStateM.Result.ok.inj hrun'
    exact ⟨fun path node _ hnode => by rw [hmem, hnode], (source.refused h.serves halloc).le⟩
  · cases hrun'
  · obtain ⟨-, rfl⟩ := EStateM.Result.ok.inj hrun'
    exact hlinked.onlyAdds h.inside h.serves

/-- A search below a table. -/
theorem Supplied.searchFrom_onlyAdds {levels : ℕ} {path : List Index} {table : ℕ}
    {r : Option Page} (h : Supplied source.toFrameSource used root s)
    (htable : descend (link s.mem) root path = some table) (hlen : path.length + levels ≤ 3)
    (hrun : searchFrom count levels path (windowPtr path) s = .ok r s') :
    OnlyAdds source root s s' :=
  h.searchFrom_rule (fun hmem _ hallocator => .of_reads hmem hallocator) OnlyAdds.trans
    (fun h => h.create_onlyAdds) htable hlen hrun

/-- The first steps of `find_empty_pages`: the level-4 table has no vacant entry, or the
allocator refuses the first frame, or the vacant entry has the page-size bit, or a first table is
linked and the search goes on below it. -/
theorem Supplied.findEmptyPages_start (h : Supplied source.toFrameSource used root s) :
    (firstVacant s.mem root = none ∧ ∃ s', findEmptyPages count s = .ok none s' ∧
      s'.mem = s.mem ∧ s'.allocator = s.allocator) ∨
    ∃ i4, firstVacant s.mem root = some i4 ∧
      ((∃ s', findEmptyPages count s = .ok none s' ∧ s'.mem = s.mem ∧
          FrameAllocator.allocOne s.allocator = .ok (none, s'.allocator)) ∨
        ((s.mem root i4).isHuge = true ∧
          (∃ frame a, FrameAllocator.allocOne s.allocator = .ok (some frame, a)) ∧
          ∃ s', findEmptyPages count s = .error .debugAssert s') ∨
        ∃ s₁ child, findEmptyPages count s = searchFrom count 2 [i4] (windowPtr [i4]) s₁ ∧
          LinkedAt source.toFrameSource used root root i4 child s s₁) := by
  obtain ⟨s₀, hfind, hreach⟩ := findFreeEntryIndex_spec h.window.resolve_root
  have hfind : findFreeEntryIndex level4PageTable s = .ok (firstVacant s.mem root) s₀ := hfind
  have h₀ : Supplied source.toFrameSource used root s₀ :=
    h.of_mem hreach.mem hreach.cr3 (hreach.allocator ▸ h.serves)
  rw [findEmptyPages_eq, bind_ok hfind]
  cases hvacant : firstVacant s.mem root with
  | none => exact Or.inl ⟨rfl, s₀, rfl, hreach.mem, hreach.allocator⟩
  | some i4 =>
    obtain ⟨habsent, -⟩ := h.window.vacant_ne hvacant
    refine Or.inr ⟨i4, rfl, ?_⟩
    simp only [andThen]
    have hroot : descend (link s₀.mem) root [] = some root := descend_nil
    have hzero : ([] : List Index).length ≤ 2 := Nat.zero_le 2
    have hcreate := h₀.create_cases hroot hzero i4
    rw [hreach.mem, hreach.allocator] at hcreate
    rcases hcreate with ⟨child, s₁, hlink, -⟩ |
      ⟨-, ⟨s₁, hrun, hmem, -, halloc, -⟩ | ⟨hhuge, halloc, s₁, hrun⟩ | ⟨s₁, child, hrun, hlinked⟩⟩
    · rw [link, PageEntry.child_eq_none habsent] at hlink
      cases hlink
    · exact Or.inl ⟨s₁, bind_ok hrun, hmem, halloc⟩
    · exact Or.inr (Or.inl ⟨hhuge, halloc, s₁, bind_error hrun⟩)
    · have hrun : nextLevelTableCreateMut level4PageTable i4 s₀ =
          .ok (some (windowPtr [i4])) s₁ := hrun
      rw [bind_ok hrun]
      exact Or.inr (Or.inr ⟨s₁, child, rfl,
        hlinked.of_mem hreach.mem hreach.cr3 hreach.allocator⟩)

/-- What is lost when a search fails after it linked a table: the entry of the level-4 table is
present, and a frame that was free is not free any more. -/
structure Lost (source : TrackedSource α) (root : ℕ) (i4 : Index) (s s' : Machine α) : Prop where
  /-- The entry was not present. -/
  vacant : (s.mem root i4).isPresent = false
  /-- The entry is present. -/
  present : (s'.mem root i4).isPresent = true
  /-- A frame was taken. -/
  taken : ∃ n ∈ source.freeFrames s.allocator, n ∉ source.freeFrames s'.allocator

/-- A search that links a table and then fails loses the entry and a frame. -/
theorem LinkedAt.lost {i4 : Index} {child : ℕ} {s₁ : Machine α} {r : Option Page}
    (h : LinkedAt source.toFrameSource used root root i4 child s s₁)
    (hinside : visited s.mem root ⊆ used) (hserves : source.Serves s.allocator used)
    (hrun : searchFrom count 2 [i4] (windowPtr [i4]) s₁ = .ok r s') :
    Lost source root i4 s s' := by
  have hzero : ([] : List Index).length ≤ 2 := Nat.zero_le 2
  have hreached := h.reached hinside hzero descend_nil
  have hadds := h.supplied.searchFrom_onlyAdds hreached (by simp) hrun
  obtain ⟨frame, halloc⟩ := h.taken
  obtain ⟨hfree, hrest⟩ := source.taken hserves halloc
  refine ⟨h.absent, ?_, frame.number, hfree, fun hin => ?_⟩
  · have hlink := hadds.paths [i4] child (by simp) hreached
    rw [descend_singleton] at hlink
    exact (PageEntry.child_eq_some.mp hlink).1
  · have hstill := hadds.frames hin
    rw [hrest] at hstill
    exact hstill.2 rfl

/-- A call that returned `None` left the memory and the free frames alone, or it lost an entry of
the level-4 table and a frame. -/
theorem Supplied.findEmptyPages_failed (h : Supplied source.toFrameSource used root s)
    (hrun : findEmptyPages count s = .ok none s') :
    (s'.mem = s.mem ∧ source.freeFrames s'.allocator = source.freeFrames s.allocator) ∨
      ∃ i4, Lost source root i4 s s' := by
  rcases h.findEmptyPages_start with ⟨-, s₁, hrun', hmem, hallocator⟩ |
    ⟨i4, -, ⟨s₁, hrun', hmem, halloc⟩ | ⟨-, -, s₁, hrun'⟩ | ⟨s₁, child, hsearch, hlinked⟩⟩
  · rw [hrun] at hrun'
    obtain ⟨-, rfl⟩ := EStateM.Result.ok.inj hrun'
    exact Or.inl ⟨hmem, by rw [hallocator]⟩
  · rw [hrun] at hrun'
    obtain ⟨-, rfl⟩ := EStateM.Result.ok.inj hrun'
    exact Or.inl ⟨hmem, source.refused h.serves halloc⟩
  · rw [hrun] at hrun'
    cases hrun'
  · rw [hsearch] at hrun
    exact Or.inr ⟨i4, hlinked.lost h.inside h.serves hrun⟩

/-- `auto_continuous_map` returns `None` exactly when its search does. -/
theorem autoContinuousMap_eq_none {frame : Frame} :
    autoContinuousMap frame s = .ok none s' ↔
      frame.order < 52 ∧ findEmptyPages (2 ^ frame.order) s = .ok none s' := by
  refine ⟨fun hrun => ?_, fun ⟨horder, hfind⟩ => autoContinuousMap_none horder hfind⟩
  obtain ⟨horder, ⟨-, hfind⟩ | ⟨page, s₁, -, -, hsome⟩⟩ := autoContinuousMap_returned hrun
  · exact ⟨horder, hfind⟩
  · cases hsome

end Search

/-- When the run returns `None`, the same frames are free as before, and no entry of a table
changed that a page walk can read. -/
def LeavesNoTrace [FrameAllocator α] {β : Type} (source : TrackedSource α) (s : Machine α)
    (run : Kernel α (Option β)) : Prop :=
  ∀ s', run s = .ok none s' →
    source.freeFrames s'.allocator = source.freeFrames s.allocator ∧
      ∀ table ∈ visited s.mem s.cr3, ∀ i, s'.mem table i = s.mem table i

/-- A search for so many pages does not fail after it linked a table: the level-4 table has no
vacant entry, or the allocator refuses the first frame, or the vacant entry has the page-size bit
and the search panics, or the search succeeds, since a new table has enough entries and the
allocator has frames for three tables. -/
def FailsEarly [FrameAllocator α] (s : Machine α) (count : ℕ) : Prop :=
  firstVacant s.mem s.cr3 = none ∨
    (∃ a, FrameAllocator.allocOne s.allocator = .ok (none, a)) ∨
    (∃ i4, firstVacant s.mem s.cr3 = some i4 ∧ (s.mem s.cr3 i4).isHuge = true) ∨
    count ≤ 510 ∧ ∃ a, Drawn 3 s.allocator a

section Trace

variable [FrameAllocator α] {source : TrackedSource α} {s : Machine α} {count : ℕ}
  (hwindow : Window s.mem s.cr3 s.cr3)
  (hserves : source.Serves s.allocator (visited s.mem s.cr3))
include hwindow hserves

/-- A search that fails early leaves no trace. -/
theorem FailsEarly.leavesNoTrace (h : FailsEarly s count) (hcount : 1 ≤ count) :
    LeavesNoTrace source s (findEmptyPages count) := by
  have hsupplied := hwindow.supplied hserves
  intro s' hrun
  rcases hsupplied.findEmptyPages_start with ⟨-, s₁, hrun', hmem, hallocator⟩ |
    ⟨i4, hvacant, ⟨s₁, hrun', hmem, halloc⟩ | ⟨-, -, s₁, hrun'⟩ | ⟨s₁, child, -, hlinked⟩⟩
  · rw [hrun] at hrun'
    obtain ⟨-, rfl⟩ := EStateM.Result.ok.inj hrun'
    exact ⟨by rw [hallocator], fun table _ i => by rw [hmem]⟩
  · rw [hrun] at hrun'
    obtain ⟨-, rfl⟩ := EStateM.Result.ok.inj hrun'
    exact ⟨source.refused hserves halloc, fun table _ i => by rw [hmem]⟩
  · rw [hrun] at hrun'
    cases hrun'
  · exfalso
    rcases h with hfull | ⟨a, hnone⟩ | ⟨j4, hvacant', hhuge⟩ | ⟨hle, a, hdrawn⟩
    · rw [hvacant] at hfull
      cases hfull
    · obtain ⟨frame, halloc⟩ := hlinked.taken
      rw [hnone] at halloc
      cases halloc
    · obtain rfl := Option.some.inj (hvacant.symm.trans hvacant')
      rw [hlinked.small] at hhuge
      cases hhuge
    · rcases hsupplied.findEmptyPages_cases hcount with ⟨j4, s₂, hrun', -⟩ |
        ⟨s₂, -, -, -, hfull | ⟨n, b, hn, hdrawn', hnone⟩ | hmany⟩ | ⟨j4, s₂, -, -, hrun'⟩
      · rw [hrun] at hrun'
        cases hrun'
      · rw [hvacant] at hfull
        cases hfull
      · have hthree := le_of_drawn_refused hdrawn hdrawn' hnone
        omega
      · omega
      · rw [hrun] at hrun'
        cases hrun'

/-- A search leaves no trace exactly when it fails early. -/
theorem findEmptyPages_leavesNoTrace_iff (hcount : 1 ≤ count) :
    LeavesNoTrace source s (findEmptyPages count) ↔ FailsEarly s count := by
  refine ⟨fun htrace => ?_, fun h => h.leavesNoTrace hwindow hserves hcount⟩
  have hsupplied := hwindow.supplied hserves
  rcases hsupplied.findEmptyPages_cases hcount with ⟨i4, s', -, hle, hpages⟩ | ⟨s', hrun, -⟩ |
    ⟨i4, s', hvacant, hhuge, -⟩
  · exact Or.inr (Or.inr (Or.inr ⟨hle, s'.allocator, hpages.drawn⟩))
  · rcases hsupplied.findEmptyPages_start with ⟨hfull, -⟩ |
      ⟨i4, hvacant, ⟨s₁, -, -, halloc⟩ | ⟨hhuge, -⟩ | ⟨s₁, child, hsearch, hlinked⟩⟩
    · exact Or.inl hfull
    · exact Or.inr (Or.inl ⟨s₁.allocator, halloc⟩)
    · exact Or.inr (Or.inr (Or.inl ⟨i4, hvacant, hhuge⟩))
    · have hsame := (htrace s' hrun).2 s.cr3 root_mem_nodes i4
      rw [hsearch] at hrun
      have hlost := hlinked.lost hsupplied.inside hserves hrun
      have hpresent := hlost.present
      rw [hsame, hlost.vacant] at hpresent
      cases hpresent
  · exact Or.inr (Or.inr (Or.inl ⟨i4, hvacant, hhuge⟩))

/-- Mapping a block leaves no trace exactly when its search does, or when the size of the block
overflows and the call panics. -/
theorem autoContinuousMap_leavesNoTrace_iff {frame : Frame} :
    LeavesNoTrace source s (autoContinuousMap frame) ↔
      52 ≤ frame.order ∨ FailsEarly s (2 ^ frame.order) := by
  rw [← findEmptyPages_leavesNoTrace_iff hwindow hserves Nat.one_le_two_pow]
  constructor
  · intro htrace
    rcases Nat.lt_or_ge frame.order 52 with horder | horder
    · exact Or.inr fun s' hrun => htrace s' (autoContinuousMap_eq_none.mpr ⟨horder, hrun⟩)
    · exact Or.inl horder
  · rintro hcases s' hrun
    obtain ⟨horder, hfind⟩ := autoContinuousMap_eq_none.mp hrun
    rcases hcases with hlarge | htrace
    · omega
    · exact htrace s' hfind

/-- A failed search leaves no trace exactly when it fails before it linked a table. -/
theorem failedSearch_leavesNoTrace_iff :
    (∀ count, 1 ≤ count →
      (LeavesNoTrace source s (findEmptyPages count) ↔ FailsEarly s count)) ∧
    ∀ frame : Frame, LeavesNoTrace source s (autoContinuousMap frame) ↔
      52 ≤ frame.order ∨ FailsEarly s (2 ^ frame.order) :=
  ⟨fun _ => findEmptyPages_leavesNoTrace_iff hwindow hserves,
    fun _ => autoContinuousMap_leavesNoTrace_iff hwindow hserves⟩

end Trace

/-- On the boot tables with eight free frames, a search only fails late when it asks for more
pages than a table has. -/
theorem bootMachine_failsEarly_iff {count : ℕ} : FailsEarly bootMachine count ↔ count ≤ 510 := by
  have hvacant : firstVacant bootMachine.mem bootMachine.cr3 = some 1 :=
    bootMachine_tables.firstVacant_eq
  constructor
  · rintro (hfull | ⟨a, hnone⟩ | ⟨i4, hvacant', hhuge⟩ | ⟨hle, -⟩)
    · rw [hvacant] at hfull
      cases hfull
    · cases hnone
    · obtain rfl := Option.some.inj (hvacant.symm.trans hvacant')
      have hsmall : (bootMachine.mem bootMachine.cr3 1).isHuge = false := by decide
      rw [hsmall] at hhuge
      cases hhuge
    · exact hle
  · intro hle
    exact Or.inr (Or.inr (Or.inr ⟨hle, _, .some rfl (.some rfl (.some rfl (.none _)))⟩))

/-- A search for 510 pages leaves no trace, and a search for 511 pages does. -/
theorem failedSearch_leavesNoTrace_iff_boot :
    LeavesNoTrace FramePool.tracked bootMachine (findEmptyPages 510) ∧
      ¬LeavesNoTrace FramePool.tracked bootMachine (findEmptyPages 511) := by
  obtain ⟨hwindow, hserves⟩ := bootMachine_supplied
  have hiff : ∀ count, 1 ≤ count →
      (LeavesNoTrace FramePool.tracked bootMachine (findEmptyPages count) ↔
        FailsEarly bootMachine count) := (failedSearch_leavesNoTrace_iff hwindow hserves).1
  rw [hiff 510 (by decide), hiff 511 (by decide), bootMachine_failsEarly_iff,
    bootMachine_failsEarly_iff]
  decide

/-- Mapping a block of 512 frames on the boot tables leaves a trace. -/
theorem not_failedSearch_leavesNoTrace :
    ¬∀ s : Machine FramePool, Window s.mem s.cr3 s.cr3 →
      FramePool.source.Serves s.allocator (visited s.mem s.cr3) →
      (∀ count, 1 ≤ count → LeavesNoTrace FramePool.tracked s (findEmptyPages count)) ∧
        ∀ frame : Frame, LeavesNoTrace FramePool.tracked s (autoContinuousMap frame) := by
  intro hclaim
  obtain ⟨hwindow, hserves⟩ := bootMachine_supplied
  obtain ⟨-, hmap⟩ := hclaim bootMachine hwindow hserves
  have htrace := hmap ⟨32, 9, .used⟩
  rw [autoContinuousMap_leavesNoTrace_iff hwindow hserves, bootMachine_failsEarly_iff] at htrace
  revert htrace
  decide

end Axel
