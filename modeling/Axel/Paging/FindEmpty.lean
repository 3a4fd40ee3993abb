import Axel.Paging.MapSemantics
import Axel.Paging.Search

/-!
# Searching for unmapped pages

`find_empty_pages` takes the first entry of the level-4 table that is not present, and
below it the first such entry of each table. Since an entry that is not present has no
table yet, the search always creates a table at each of the three lower levels, and the
pages it returns start at the entry 1 of a new level-1 table.
-/

namespace Axel

open Descent Table ActivePageTable

variable {α : Type}

/-- A table that is reached along one path and is empty apart from its recursive slot. -/
structure FreshTable (mem : Memory) (root : ℕ) (path : List Index) (table : ℕ) : Prop where
  /-- The path of the table. -/
  reached : descend (link mem) root path = some table
  /-- The table has no second path. -/
  sole : Sole mem root path table
  /-- The entries are cleared. -/
  empty : ∀ i, i ≠ recursiveSlot → mem table i = .cleared
  /-- The recursive slot is set. -/
  slot : (mem table recursiveSlot).isPresent = true

/-- The first entry of the level-4 table that a search finds not present. -/
def firstVacant (mem : Memory) (root : ℕ) : Option Index :=
  (List.finRange 512).tail.find? fun i => !(mem root i).isPresent

/-- The first of the pages that a search returns below an entry of the level-4 table. -/
def foundPage (i4 : Index) : Page := Page.fromNumber (digits [i4, 1, 1, 1])

/-- The indices of the first page that a search returns. -/
theorem foundPage_indices (i4 : Index) :
    (foundPage i4).number < 2 ^ 36 ∧ tablePath ((foundPage i4).number * 4096) = [i4, 1, 1] ∧
      level1Index ((foundPage i4).number * 4096) = 1 := by
  have hindices : tablePath ((foundPage i4).number * 4096) ++
      [level1Index ((foundPage i4).number * 4096)] = [i4, 1, 1] ++ [1] := by
    have hdigits := indices_digits 0 i4 1 1 1
    rw [Nat.zero_mul, Nat.zero_add] at hdigits
    exact hdigits
  obtain ⟨hpath, hlast⟩ := List.append_inj' hindices rfl
  refine ⟨?_, hpath, List.singleton_injective hlast⟩
  show digits [i4, 1, 1, 1] < _
  simp only [digits, List.foldl_cons, List.foldl_nil, Fin.val_one]
  omega

/-- The name of the first page that a search returns. -/
theorem indices_foundPage (i4 : Index) :
    indices ((foundPage i4).number * 4096) = [i4, 1, 1, 1] := by
  obtain ⟨-, hpath, hlevel1⟩ := foundPage_indices i4
  rw [indices, hpath, hlevel1]
  rfl

/-- The first page that a search returns has no recursive slot among its indices. -/
theorem foundPage_ordinary {i4 : Index} (h : i4 ≠ recursiveSlot) : Ordinary [i4, 1, 1, 1] := by
  have hone : (1 : Index) ≠ recursiveSlot := by decide
  simp [Ordinary, h, hone]

/-- The pages that a search returns: the first index that was not present in the level-4
table, and the entry 1 of the new tables below. -/
structure EmptyPages [FrameAllocator α] (s : Machine α) (root : ℕ) (i4 : Index) (last : ℕ)
    (s' : Machine α) : Prop where
  /-- The index in the level-4 table. -/
  found : firstVacant s.mem root = some i4
  /-- It is not the recursive slot. -/
  ordinary : i4 ≠ recursiveSlot
  /-- The new level-1 table. -/
  fresh : FreshTable s'.mem root [i4, 1, 1] last
  /-- The path to the new level-1 table. -/
  pass : Passable s'.mem root [i4, 1, 1]
  /-- The new tables are on this path. -/
  added : NewAlong root [i4, 1, 1] s s'
  /-- Three frames became tables. -/
  drawn : Drawn 3 s.allocator s'.allocator

section Empty

variable [FrameAllocator α] {source : FrameSource α} {used : Set ℕ} {root : ℕ} {s : Machine α}

/-- A run that only reads keeps a machine hosted. -/
theorem Hosted.of_reads (h : Hosted source used root s) {s' : Machine α} {table : ℕ}
    (hreach : Reaches s {table} s.mem s.allocator s') (htable : table ∈ tables s.mem root) :
    Hosted source used root s' ∧ Grown used root s s' := by
  have hgrown : Grown used root s s' :=
    .of_reaches hreach (Set.singleton_subset_iff.mpr htable)
  refine ⟨h.of_grown hgrown ?_, hgrown⟩
  rw [hreach.mem, hreach.allocator]
  exact h.serves

/-- Creating a table in a vacant entry of a table that is reached along one path. -/
theorem Hosted.create_fresh (h : Hosted source used root s) {path : List Index} {table : ℕ}
    {i : Index} (htable : descend (link s.mem) root path = some table) (hpath : TablePath path)
    (hlen : path.length ≤ 2) (hi : i ≠ recursiveSlot) (hsole : Sole s.mem root path table)
    (habsent : (s.mem table i).isPresent = false) :
    (∃ s' child frame, nextLevelTableCreateMut (windowPtr path) i s =
        .ok (some (windowPtr (path ++ [i]))) s' ∧ Hosted source used root s' ∧
      Grown used root s s' ∧ NewAlong root (path ++ [i]) s s' ∧
      FreshTable s'.mem root (path ++ [i]) child ∧ (s.mem table i).isHuge = false ∧
      FrameAllocator.allocOne s.allocator = .ok (some frame, s'.allocator)) ∨
    (∃ s', nextLevelTableCreateMut (windowPtr path) i s = .ok none s' ∧
      Hosted source used root s' ∧ Grown used root s s' ∧
      FrameAllocator.allocOne s.allocator = .ok (none, s'.allocator)) ∨
    (s.mem table i).isHuge = true ∧
      ∃ s', nextLevelTableCreateMut (windowPtr path) i s = .error .debugAssert s' := by
  have hinside : ∀ before after node, path = before ++ after →
      descend (link s.mem) root before = some node → node ∈ tables s.mem root := by
    rintro before after node rfl hnode
    exact mem_nodes hpath.left hnode
  have hvacant : link s.mem table i = none := PageEntry.child_eq_none habsent
  rcases h.create_vacant htable hlen hinside htable hpath hlen hi hsole hvacant with
    ⟨s', child, hrun, h', hgrown, hchild, hfresh, hmem, hnew, frame, halloc⟩ |
    ⟨s', hrun, h', hgrown, -, hempty, -⟩ | hhuge
  · left
    have hconcat : TablePath (path ++ [i]) := hpath.concat (by omega) hi
    have hsole' : Sole s'.mem root (path ++ [i]) child := by
      rcases hgrown.added _ child hconcat hchild with hold | ⟨-, hsole', -⟩
      · exact absurd (Or.inr (mem_nodes hconcat hold)) hfresh
      · exact hsole'
    have hsmall : (s.mem table i).isHuge = false := by
      have hlink : link s'.mem table i = some child := by
        rw [← descend_concat (hgrown.kept path table hpath htable), hchild]
      have hne : table ≠ child := by
        rintro rfl
        exact hfresh (Or.inr (mem_nodes hpath htable))
      rw [link, hmem, linkTable_entry hne] at hlink
      have := (PageEntry.child_eq_some.mp hlink).2.1
      rwa [PageEntry.isHuge_withFrame] at this
    refine ⟨s', child, frame, hrun, h', hgrown, hnew, ⟨hchild, hsole', ?_, ?_⟩, hsmall, halloc⟩
    · intro j hj
      rw [hmem, linkTable_child, if_neg hj]
    · rw [hmem, linkTable_child, if_pos rfl, PageEntry.isPresent_selfEntry]
  · exact Or.inr (Or.inl ⟨s', hrun, h', hgrown, hempty⟩)
  · exact Or.inr (Or.inr hhuge)

/-- Searching a fresh table and creating a table in the entry that was found. -/
theorem Hosted.search_create (h : Hosted source used root s) {path : List Index} {table : ℕ}
    (hpath : TablePath path) (hlen : path.length ≤ 2) (hfresh : FreshTable s.mem root path table) :
    ∃ s₁, findFreeEntryIndex (windowPtr path) s = .ok (some 1) s₁ ∧
      ((∃ s' child frame, nextLevelTableCreateMut (windowPtr path) 1 s₁ =
          .ok (some (windowPtr (path ++ [1]))) s' ∧ Hosted source used root s' ∧
        Grown used root s s' ∧ NewAlong root (path ++ [1]) s s' ∧
        FreshTable s'.mem root (path ++ [1]) child ∧
        FrameAllocator.allocOne s.allocator = .ok (some frame, s'.allocator)) ∨
      ∃ s', nextLevelTableCreateMut (windowPtr path) 1 s₁ = .ok none s' ∧
        Hosted source used root s' ∧ Grown used root s s' ∧
        FrameAllocator.allocOne s.allocator = .ok (none, s'.allocator)) := by
  have hmem : table ∈ tables s.mem root := mem_nodes hpath hfresh.reached
  obtain ⟨s₁, hfind, hreach⟩ := findFree_empty (h.window.resolve (by omega) hfresh.reached)
    (le_refl 1) (fun i hi => by rw [hfresh.empty i hi]; exact PageEntry.isPresent_cleared)
    hfresh.slot
  obtain ⟨h₁, hgrown₁⟩ := h.of_reads hreach hmem
  rw [if_pos (by decide)] at hfind
  refine ⟨s₁, hfind, ?_⟩
  have hone : (1 : Index) ≠ recursiveSlot := by decide
  have hcleared : s₁.mem table 1 = .cleared := by rw [hreach.mem, hfresh.empty 1 hone]
  have htable₁ : descend (link s₁.mem) root path = some table := by rw [hreach.mem, hfresh.reached]
  have hsole₁ : Sole s₁.mem root path table := by
    rw [hreach.mem]
    exact hfresh.sole
  rw [← hreach.allocator]
  rcases h₁.create_fresh htable₁ hpath hlen hone hsole₁ (by rw [hcleared]; rfl) with
    ⟨s', child, frame, hrun, h', hgrown, hnew, htable, -, halloc⟩ |
    ⟨s', hrun, h', hgrown, hempty⟩ | ⟨hhuge, -⟩
  · exact Or.inl ⟨s', child, frame, hrun, h', hgrown₁.trans hgrown,
      (NewAlong.of_mem hreach.mem).trans hnew (List.prefix_refl _), htable, halloc⟩
  · exact Or.inr ⟨s', hrun, h', hgrown₁.trans hgrown, hempty⟩
  · rw [hcleared, PageEntry.isHuge_cleared] at hhuge
    cases hhuge

/-- The part of `find_empty_pages` below a table: the search goes on at the lower levels and
returns the page of all indices that were found. -/
def searchFrom (count : ℕ) : ℕ → List Index → ℕ → Kernel α (Option Page)
  | 0, found, table => do
    andThen (← findFreeEntryIndexWith table count) fun i =>
      return some (Page.fromNumber (digits (found ++ [i])))
  | levels + 1, found, table => do
    andThen (← findFreeEntryIndex table) fun i => do
    andThen (← nextLevelTableCreateMut table i) fun next =>
      searchFrom count levels (found ++ [i]) next

/-- `find_empty_pages` takes an entry of the level-4 table and searches below it. -/
theorem findEmptyPages_eq (count : ℕ) :
    findEmptyPages (α := α) count = (do
      andThen (← findFreeEntryIndex level4PageTable) fun i => do
      andThen (← nextLevelTableCreateMut level4PageTable i) fun next =>
        searchFrom count 2 [i] next) := by
  simp only [findEmptyPages, ← digits_eq]
  rfl

/-- Why a search returns `None` after it found an entry of the level-4 table: the allocator had
fewer frames than tables were needed, or more pages were asked for than a table has. -/
def Refused (count levels : ℕ) (a a' : α) : Prop :=
  (∃ n b, n < levels ∧ Drawn n a b ∧ FrameAllocator.allocOne b = .ok (none, a')) ∨ 510 < count

/-- A table more is needed by a search that starts one level above. -/
theorem Refused.succ {count levels : ℕ} {a a' a'' : α} {frame : Frame}
    (halloc : FrameAllocator.allocOne a = .ok (some frame, a')) (h : Refused count levels a' a'') :
    Refused count (levels + 1) a a'' := by
  rcases h with ⟨n, b, hn, hdrawn, hempty⟩ | hmany
  · exact Or.inl ⟨n + 1, b, Nat.succ_lt_succ hn, .some halloc hdrawn, hempty⟩
  · exact Or.inr hmany

/-- The steps of a search below a table without pages. `Ready` holds before the search of a
table, `Done` after a search that found an entry, and `Left` after one that may have failed. -/
structure SearchSteps {γ : Type} (count : ℕ) (Ready : γ → List Index → Machine α → Prop)
    (Done : γ → ℕ → List Index → Machine α → Machine α → Prop)
    (Left : Machine α → Machine α → Prop) : Prop where
  /-- The search of the level-1 table. -/
  last : ∀ {g path s}, Ready g path s → path.length ≤ 3 →
    ∃ s', findFreeEntryIndexWith (windowPtr path) count s =
        .ok (if count ≤ 510 then some 1 else none) s' ∧
      s'.allocator = s.allocator ∧ Done g 0 path s s' ∧ Left s s'
  /-- The search of a table of a higher level, and the new table below its entry 1. -/
  next : ∀ {g path s}, Ready g path s → path.length ≤ 2 →
    ∃ s₁, findFreeEntryIndex (windowPtr path) s = .ok (some 1) s₁ ∧
      ((∃ s₂ g₂ frame, nextLevelTableCreateMut (windowPtr path) 1 s₁ =
          .ok (some (windowPtr (path ++ [1]))) s₂ ∧
        FrameAllocator.allocOne s.allocator = .ok (some frame, s₂.allocator) ∧
        Ready g₂ (path ++ [1]) s₂ ∧
        (∀ levels s', Done g₂ levels (path ++ [1]) s₂ s' → Done g (levels + 1) path s s') ∧
        ∀ s', Left s₂ s' → Left s s') ∨
      ∃ s₂, nextLevelTableCreateMut (windowPtr path) 1 s₁ = .ok none s₂ ∧
        FrameAllocator.allocOne s.allocator = .ok (none, s₂.allocator) ∧ Left s s₂)

section Steps

variable {γ : Type} {count : ℕ} {Ready : γ → List Index → Machine α → Prop}
  {Done : γ → ℕ → List Index → Machine α → Machine α → Prop}
  {Left : Machine α → Machine α → Prop}

/-- A search below a table takes the entry 1 at each level. -/
theorem SearchSteps.searchFrom (h : SearchSteps count Ready Done Left) (levels : ℕ) {g : γ}
    {path : List Index} (hready : Ready g path s) (hlen : path.length + levels ≤ 3) :
    (∃ s', Axel.searchFrom count levels path (windowPtr path) s =
        .ok (some (Page.fromNumber (digits (path ++ List.replicate (levels + 1) 1)))) s' ∧
      count ≤ 510 ∧ Done g levels path s s' ∧ Drawn levels s.allocator s'.allocator) ∨
    ∃ s', Axel.searchFrom count levels path (windowPtr path) s = .ok none s' ∧ Left s s' ∧
      Refused count levels s.allocator s'.allocator := by
  induction levels generalizing s g path with
  | zero =>
    obtain ⟨s', hfind, hallocator, hdone, hleft⟩ := h.last hready hlen
    by_cases hle : count ≤ 510
    · rw [if_pos hle] at hfind
      exact Or.inl ⟨s', bind_ok hfind, hle, hdone, hallocator ▸ .none _⟩
    · rw [if_neg hle] at hfind
      exact Or.inr ⟨s', bind_ok hfind, hleft, Or.inr (not_le.mp hle)⟩
  | succ levels ih =>
    obtain ⟨s₁, hfind, hcases⟩ := h.next hready (by omega)
    have hstep : Axel.searchFrom count (levels + 1) path (windowPtr path) s = (do
        andThen (← nextLevelTableCreateMut (windowPtr path) 1) fun next =>
          Axel.searchFrom count levels (path ++ [1]) next : Kernel α (Option Page)) s₁ :=
      bind_ok hfind
    rw [hstep]
    rcases hcases with ⟨s₂, g₂, frame, hrun, halloc, hready₂, hdone, hleft⟩ |
      ⟨s₂, hrun, hempty, hleft⟩
    · have hconcat : path ++ List.replicate (levels + 1 + 1) (1 : Index) =
          path ++ [1] ++ List.replicate (levels + 1) 1 := by
        rw [List.replicate_succ, List.append_cons]
      have hlen₂ : (path ++ [1]).length + levels ≤ 3 := by
        rw [List.length_append, List.length_singleton]
        omega
      rw [bind_ok hrun, hconcat]
      rcases ih hready₂ hlen₂ with ⟨s', hsearch, hle, hdone', hdrawn⟩ | ⟨s', hsearch, hleft', hnone⟩
      · exact Or.inl ⟨s', hsearch, hle, hdone _ _ hdone', .some halloc hdrawn⟩
      · exact Or.inr ⟨s', hsearch, hleft _ hleft', hnone.succ halloc⟩
    · exact Or.inr ⟨s₂, bind_ok hrun, hleft,
        Or.inl ⟨0, s.allocator, Nat.succ_pos _, .none _, hempty⟩⟩

/-- `find_empty_pages` from its first search on, by what it does with the entry that this search
found. -/
theorem SearchSteps.findEmptyPages (h : SearchSteps count Ready Done Left) {s₀ : Machine α}
    {found : Option Index} (Huge : Index → Prop) (Result : Index → Machine α → Prop)
    (hfind : findFreeEntryIndex level4PageTable s = .ok found s₀) (hleft₀ : Left s s₀)
    (hcreate : ∀ i4, found = some i4 →
      (∃ s₁ g frame, nextLevelTableCreateMut level4PageTable i4 s₀ =
          .ok (some (windowPtr [i4])) s₁ ∧
        FrameAllocator.allocOne s.allocator = .ok (some frame, s₁.allocator) ∧
        Ready g [i4] s₁ ∧ (∀ s', Done g 2 [i4] s₁ s' → Result i4 s') ∧
        ∀ s', Left s₁ s' → Left s s') ∨
      (∃ s₁, nextLevelTableCreateMut level4PageTable i4 s₀ = .ok none s₁ ∧
        FrameAllocator.allocOne s.allocator = .ok (none, s₁.allocator) ∧ Left s s₁) ∨
      Huge i4 ∧ ∃ s₁, nextLevelTableCreateMut level4PageTable i4 s₀ = .error .debugAssert s₁) :
    (∃ i4 s', found = some i4 ∧
      ActivePageTable.findEmptyPages count s = .ok (some (foundPage i4)) s' ∧ count ≤ 510 ∧
      Result i4 s' ∧ Drawn 3 s.allocator s'.allocator) ∨
    (∃ s', ActivePageTable.findEmptyPages count s = .ok none s' ∧ Left s s' ∧
      (found = none ∨ Refused count 3 s.allocator s'.allocator)) ∨
    ∃ i4 s', found = some i4 ∧ Huge i4 ∧
      ActivePageTable.findEmptyPages count s = .error .debugAssert s' := by
  rw [findEmptyPages_eq, bind_ok hfind]
  cases found with
  | none => exact Or.inr (Or.inl ⟨s₀, rfl, hleft₀, Or.inl rfl⟩)
  | some i4 =>
    simp only [andThen]
    rcases hcreate i4 rfl with ⟨s₁, g, frame, hrun, halloc, hready, hresult, hleft⟩ |
      ⟨s₁, hrun, hempty, hleft⟩ | ⟨hhuge, s₁, hrun⟩
    · rw [bind_ok hrun]
      rcases h.searchFrom 2 hready (by simp) with
        ⟨s', hsearch, hle, hdone, hdrawn⟩ | ⟨s', hsearch, hleft', hnone⟩
      · exact Or.inl ⟨i4, s', rfl, hsearch, hle, hresult _ hdone, .some halloc hdrawn⟩
      · exact Or.inr (Or.inl ⟨s', hsearch, hleft _ hleft', Or.inr (hnone.succ halloc)⟩)
    · exact Or.inr (Or.inl ⟨s₁, bind_ok hrun, hleft,
        Or.inr (Or.inl ⟨0, s.allocator, Nat.succ_pos _, .none _, hempty⟩)⟩)
    · exact Or.inr (Or.inr ⟨i4, s₁, rfl, hhuge, bind_error hrun⟩)

end Steps

/-- The steps of a search below fresh tables, in tables that the window shows. -/
theorem hosted_searchSteps (source : FrameSource α) (used : Set ℕ) (root : ℕ) {count : ℕ}
    (hcount : 1 ≤ count) :
    SearchSteps count
      (fun table path s => Hosted source used root s ∧ TablePath path ∧
        FreshTable s.mem root path table)
      (fun (_ : ℕ) levels path s s' => Hosted source used root s' ∧ Grown used root s s' ∧
        NewAlong root (path ++ List.replicate levels 1) s s' ∧
        ∃ last, FreshTable s'.mem root (path ++ List.replicate levels 1) last)
      fun s s' => Hosted source used root s' ∧ Grown used root s s' := by
  constructor
  · rintro table path s ⟨h, hpath, hfresh⟩ -
    obtain ⟨s', hfind, hreach⟩ := findFree_empty (h.window.resolve hpath.1 hfresh.reached) hcount
      (fun i hi => by rw [hfresh.empty i hi]; exact PageEntry.isPresent_cleared) hfresh.slot
    obtain ⟨h', hgrown⟩ := h.of_reads hreach (mem_nodes hpath hfresh.reached)
    refine ⟨s', hfind, hreach.allocator, ⟨h', hgrown, .of_mem hreach.mem, table, ?_⟩, h', hgrown⟩
    rw [hreach.mem, List.replicate_zero, List.append_nil]
    exact hfresh
  · rintro table path s ⟨h, hpath, hfresh⟩ hlen
    obtain ⟨s₁, hfind, hcases⟩ := h.search_create hpath hlen hfresh
    refine ⟨s₁, hfind, ?_⟩
    rcases hcases with ⟨s₂, child, frame, hrun, h₂, hgrown₂, hnew₂, hfresh₂, halloc⟩ |
      ⟨s₂, hrun, h₂, hgrown₂, hempty⟩
    · refine Or.inl ⟨s₂, child, frame, hrun, halloc,
        ⟨h₂, hpath.concat (by omega) (by decide), hfresh₂⟩, ?_, ?_⟩
      · rintro levels s' ⟨h', hgrown, hnew, hlast⟩
        rw [List.replicate_succ, List.append_cons]
        exact ⟨h', hgrown₂.trans hgrown, hnew₂.trans hnew (List.prefix_append _ _), hlast⟩
      · rintro s' ⟨h', hgrown⟩
        exact ⟨h', hgrown₂.trans hgrown⟩
    · exact Or.inr ⟨s₂, hrun, hempty, h₂, hgrown₂⟩

omit [FrameAllocator α] in
/-- A path through a vacant entry of the root ends there, so it is passable when the root
has no second path. -/
theorem passable_of_vacant {mem : Memory} {i : Index} {path : List Index}
    (hsole : Sole mem root [] root) (habsent : (mem root i).isPresent = false)
    (hsmall : (mem root i).isHuge = false) : Passable mem root (i :: path) := by
  have hnone : ∀ before table, descend (link mem) root (i :: before) ≠ some table := by
    intro before table htable
    rw [descend, link, PageEntry.child_eq_none habsent, Option.bind_none] at htable
    cases htable
  constructor
  · intro before after table hsplit htable
    cases before with
    | nil =>
      obtain rfl := Option.some.inj htable
      exact hsole
    | cons j before =>
      obtain ⟨rfl, -⟩ := List.cons.inj hsplit
      exact absurd htable (hnone before table)
  · intro before j after table hsplit htable
    cases before with
    | nil =>
      obtain rfl := Option.some.inj htable
      obtain ⟨rfl, -⟩ := List.cons.inj hsplit
      exact hsmall
    | cons k before =>
      obtain ⟨rfl, -⟩ := List.cons.inj hsplit
      exact absurd htable (hnone before table)

/-- The entry that the first search finds is not present, so it is not the recursive slot. -/
theorem Window.vacant_ne {mem : Memory} {cr3 : ℕ} (h : Window mem cr3 root) {i4 : Index}
    (hfound : firstVacant mem root = some i4) :
    (mem root i4).isPresent = false ∧ i4 ≠ recursiveSlot := by
  have habsent : (mem root i4).isPresent = false := by simpa using List.find?_some hfound
  refine ⟨habsent, ?_⟩
  rintro rfl
  rw [(PageEntry.child_eq_some.mp h.stays).1] at habsent
  cases habsent

/-- Everything `find_empty_pages` can do, when the level-4 table has no second path. It
returns pages in new tables, or `None` when the level-4 table is full, the allocator ran
out or more pages were asked for than a table has, or it fails an assertion at an entry
with a stray page-size bit. -/
theorem Hosted.findEmptyPages_cases (h : Hosted source used root s)
    (hsole : Sole s.mem root [] root) {count : ℕ} (hcount : 1 ≤ count) :
    (∃ s' i4 last, findEmptyPages count s =
        .ok (some (foundPage i4)) s' ∧ count ≤ 510 ∧
      Hosted source used root s' ∧ Grown used root s s' ∧ EmptyPages s root i4 last s') ∨
    (∃ s', findEmptyPages count s = .ok none s' ∧ Hosted source used root s' ∧
      Grown used root s s' ∧
      (firstVacant s.mem root = none ∨
        (∃ n a, n < 3 ∧ Drawn n s.allocator a ∧
          FrameAllocator.allocOne a = .ok (none, s'.allocator)) ∨
        510 < count)) ∨
    ∃ i4 s', firstVacant s.mem root = some i4 ∧ (s.mem root i4).isHuge = true ∧
      findEmptyPages count s = .error .debugAssert s' := by
  obtain ⟨s₀, hfind, hreach₀⟩ := findFreeEntryIndex_spec h.window.resolve_root
  obtain ⟨h₀, hgrown₀⟩ := h.of_reads hreach₀ root_mem_nodes
  have hfind : findFreeEntryIndex level4PageTable s = .ok (firstVacant s.mem root) s₀ := hfind
  refine ((hosted_searchSteps source used root hcount).findEmptyPages
    (fun i4 => (s.mem root i4).isHuge = true)
    (fun i4 s' => Hosted source used root s' ∧ Grown used root s s' ∧ i4 ≠ recursiveSlot ∧
      Passable s'.mem root [i4, 1, 1] ∧ NewAlong root [i4, 1, 1] s s' ∧
      ∃ last, FreshTable s'.mem root [i4, 1, 1] last)
    hfind ⟨h₀, hgrown₀⟩ ?_).imp ?_ (Or.imp_left ?_)
  · intro i4 hfound
    obtain ⟨habsent, hi4⟩ := h.window.vacant_ne hfound
    have habsent₀ : (s₀.mem root i4).isPresent = false := by rw [hreach₀.mem, habsent]
    have hsole₀ : Sole s₀.mem root [] root := by
      rw [hreach₀.mem]
      exact hsole
    have hcreate := h₀.create_fresh descend_nil within_nil (Nat.zero_le 2) hi4 hsole₀ habsent₀
    rw [hreach₀.mem, hreach₀.allocator, List.nil_append] at hcreate
    rcases hcreate with ⟨s₁, table, frame, hrun, h₁, hgrown₁, hnew₁, hfresh₁, hsmall, halloc⟩ |
      ⟨s₁, hrun, h₁, hgrown₁, hempty⟩ | hhuge
    · have hgrown₁ := hgrown₀.trans hgrown₁
      have hpath : TablePath [i4] := within_nil.concat (by decide) hi4
      refine Or.inl ⟨s₁, table, frame, hrun, halloc, ⟨h₁, hpath, hfresh₁⟩, ?_, ?_⟩
      · rintro s' ⟨h', hgrown, hnew, hlast⟩
        have hpath₃ : TablePath [i4, 1, 1] :=
          (hpath.concat (by simp) (by decide)).concat (by simp) (by decide)
        exact ⟨h', hgrown₁.trans hgrown, hi4,
          (hgrown₁.trans hgrown).passable hpath₃ (passable_of_vacant hsole habsent hsmall),
          ((NewAlong.of_mem hreach₀.mem).trans hnew₁ (List.prefix_refl _)).trans hnew
            (List.prefix_append _ _), hlast⟩
      · rintro s' ⟨h', hgrown⟩
        exact ⟨h', hgrown₁.trans hgrown⟩
    · exact Or.inr (Or.inl ⟨s₁, hrun, hempty, h₁, hgrown₀.trans hgrown₁⟩)
    · exact Or.inr (Or.inr hhuge)
  · rintro ⟨i4, s', hfound, hrun, hle, ⟨h', hgrown, hi4, hpass, hnew, last, hlast⟩, hdrawn⟩
    exact ⟨s', i4, last, hrun, hle, h', hgrown, hfound, hi4, hlast, hpass, hnew, hdrawn⟩
  · rintro ⟨s', hrun, ⟨h', hgrown⟩, hnone⟩
    exact ⟨s', hrun, h', hgrown, hnone⟩

/-- A search that returned made new tables at most, and pages that it returned lie in them. -/
theorem Hosted.findEmptyPages_returned (h : Hosted source used root s)
    (hsole : Sole s.mem root [] root) {count : ℕ} (hcount : 1 ≤ count) {found : Option Page}
    {s' : Machine α} (hrun : findEmptyPages count s = .ok found s') :
    Hosted source used root s' ∧ Grown used root s s' ∧
      (found = none ∨ ∃ i4 last, found = some (foundPage i4) ∧ count ≤ 510 ∧
        EmptyPages s root i4 last s') := by
  rcases h.findEmptyPages_cases hsole hcount with ⟨s₁, i4, last, hfind, hle, h₁, hgrown, hempty⟩ |
    ⟨s₁, hfind, h₁, hgrown, -⟩ | ⟨i4, s₁, -, -, hfind⟩
  all_goals rw [hrun] at hfind
  · obtain ⟨rfl, rfl⟩ := EStateM.Result.ok.inj hfind
    exact ⟨h₁, hgrown, Or.inr ⟨i4, last, rfl, hle, hempty⟩⟩
  · obtain ⟨rfl, rfl⟩ := EStateM.Result.ok.inj hfind
    exact ⟨h₁, hgrown, Or.inl rfl⟩
  · cases hfind

/-- A search for at most 510 pages finds them below the first vacant entry of the level-4 table,
when this entry does not have the page-size bit and the allocator has three frames. -/
theorem Hosted.findEmptyPages_runs (h : Hosted source used root s)
    (hsole : Sole s.mem root [] root) {count : ℕ} (hcount : 1 ≤ count) (hle : count ≤ 510)
    {i4 : Index} (hfound : firstVacant s.mem root = some i4)
    (hsmall : (s.mem root i4).isHuge = false) (hlasts : Lasts 3 s.allocator) :
    ∃ s' last, findEmptyPages count s = .ok (some (foundPage i4)) s' ∧
      Hosted source used root s' ∧ Grown used root s s' ∧ EmptyPages s root i4 last s' := by
  rcases h.findEmptyPages_cases hsole hcount with ⟨s', j4, last, hfind, -, h', hgrown, hempty⟩ |
    ⟨s', -, -, -, hnone | ⟨n, a, hn, hdrawn, hnone⟩ | hmany⟩ | ⟨j4, s', hvacant, hhuge, -⟩
  · obtain rfl := Option.some.inj (hempty.found.symm.trans hfound)
    exact ⟨s', last, hfind, h', hgrown, hempty⟩
  · rw [hfound] at hnone
    cases hnone
  · exact absurd hnone (hlasts n a _ hn hdrawn)
  · omega
  · obtain rfl := Option.some.inj (hfound.symm.trans hvacant)
    rw [hsmall] at hhuge
    cases hhuge

/-- Mapping the page that a search returned fills an entry of a new table. -/
theorem Hosted.map_found (h : Hosted source used root s) {i4 : Index} {last : ℕ} {frame : Frame}
    (hi4 : i4 ≠ recursiveSlot) (hfresh : FreshTable s.mem root [i4, 1, 1] last)
    (hpass : Passable s.mem root [i4, 1, 1]) (hframe : frame.number < 2 ^ 36) :
    ∃ s', map (foundPage i4) frame s = .ok (.ok ()) s' ∧
      Reaches s (tables s.mem root) (s.mem.set last 1 (PageEntry.cleared.withFrame frame.number))
        s.allocator s' := by
  obtain ⟨hnumber, hpage, hlevel1⟩ := foundPage_indices i4
  have hone : (1 : Index) ≠ recursiveSlot := by decide
  have hpath : TablePath [i4, 1, 1] := ⟨by simp, by simp [hi4, hone]⟩
  have hnumber' : (foundPage i4).number < 2 ^ 52 := by omega
  have houtcome := h.map_cases hnumber' hframe (by rw [hpage]; exact hpath)
    (by rw [hpage]; exact hpass)
  rw [hpage] at houtcome
  obtain ⟨s₁, -, hgrown, hsame, -, hcases⟩ := houtcome
  obtain ⟨hmem, hallocator⟩ := hsame (by rw [hfresh.reached]; rfl)
  rw [hlevel1, hmem, hallocator] at hcases
  have hcleared : s.mem last 1 = .cleared := hfresh.empty 1 hone
  obtain ⟨events, htrace, htouch⟩ := hgrown.events
  have hreach₁ : Reaches s (tables s.mem root) s.mem s.allocator s₁ :=
    ⟨hmem, hgrown.cr3, hallocator, events, htrace, hmem ▸ htouch⟩
  rcases hcases with ⟨-, hmissing, -⟩ | ⟨table, n, htable, -, -, hentry⟩
  · rw [hfresh.reached] at hmissing
    cases hmissing
  · obtain rfl : last = table := Option.some.inj (hfresh.reached.symm.trans htable)
    rw [hcleared] at hentry
    rcases hentry with ⟨hpresent, -⟩ | ⟨-, s', hrun, hreach⟩
    · cases hpresent
    · exact ⟨s', hrun, hreach₁.trans
        (hreach.mono (Set.singleton_subset_iff.mpr (mem_nodes hpath htable)))⟩

/-- The tables and the translation after a frame was mapped at the page that a search
returned. -/
theorem EmptyPages.mapped {s₁ s₂ : Machine α} {i4 : Index} {last n : ℕ}
    (hempty : EmptyPages s root i4 last s₁) (hgrown : Grown used root s s₁) (hn : n < 2 ^ 36)
    (hmem : s₂.mem = s₁.mem.set last 1 (PageEntry.cleared.withFrame n)) :
    tables s₂.mem root = tables s₁.mem root ∧
      s₂.mem root recursiveSlot = s.mem root recursiveSlot ∧
      (∀ f, f ∉ tables s₁.mem root → s₂.mem f = s.mem f) ∧
      walk s₂.mem root [i4, 1, 1, 1] = some n ∧
      ∀ ix, Ordinary ix → ix.length = 4 → ix ≠ [i4, 1, 1, 1] →
        walk s₂.mem root ix = walk s.mem root ix := by
  have hone : (1 : Index) ≠ recursiveSlot := by decide
  have hpath : TablePath [i4, 1, 1] := ⟨by simp, by simp [hempty.ordinary, hone]⟩
  have hwalk : ∀ ix, Ordinary ix → ix.length = 4 → walk s₂.mem root ix =
      if ix = [i4, 1, 1, 1] then some n else walk s.mem root ix := by
    intro ix hix hix4
    rw [hmem, set_leaf_walk hempty.fresh.reached hpath rfl hempty.fresh.sole hix hix4,
      PageEntry.isPresent_withFrame, PageEntry.frame_withFrame _ hn, hgrown.walk ix hix hix4]
    rfl
  refine ⟨?_, ?_, ?_, ?_, ?_⟩
  · rw [hmem]
    exact set_leaf_tables rfl hempty.fresh.sole
  · rw [hmem, Memory.set_of_ne _ _ (Or.inr hone.symm), hgrown.slot _ root_mem_nodes]
  · intro f hf
    have hne : f ≠ last := fun hsame => hf (hsame ▸ mem_nodes hpath hempty.fresh.reached)
    rw [hmem, set_frame_of_ne _ _ _ hne, hgrown.frame _ hf]
  · rw [hwalk _ (foundPage_ordinary hempty.ordinary) rfl, if_pos rfl]
  · intro ix hix hix4 hne
    rw [hwalk ix hix hix4, if_neg hne]

end Empty

end Axel
