import Axel.Paging.Cycle

/-!
# Searches in any state

`find_empty_pages` after any calls of the page-table code, with any pages: entries may refer to
arbitrary frames and tables may be shared. The search still takes an entry of the level-4 table
that is not present and makes new tables below it, so that nothing that was mapped changes. Its
page is computed from the four indices alone. The bits above bit 47 of its address are zero, so
the address is not canonical when the level-4 index is 256 or more.
-/

namespace Axel

open Descent Table ActivePageTable

variable {α : Type}

section Search

variable [FrameAllocator α] {source : FrameSource α} {used : Set ℕ} {root table : ℕ}
  {s : Machine α} {front : List Index} {count : ℕ}

/-- Searching a bare table. -/
theorem Supplied.find_bare (h : Supplied source used root s) (hlen : front.length ≤ 3)
    (htable : descend (link s.mem) root front = some table) (hbare : BareTable s.mem table)
    (hcount : 1 ≤ count) :
    ∃ s', findFreeEntryIndexWith (windowPtr front) count s =
        .ok (if count ≤ 510 then some 1 else none) s' ∧
      s'.mem = s.mem ∧ s'.cr3 = s.cr3 ∧ s'.allocator = s.allocator := by
  have hslot : (s.mem table recursiveSlot).isPresent = true := by
    rw [hbare, if_pos rfl, PageEntry.isPresent_selfEntry]
  obtain ⟨s', hfind, hreach⟩ := findFree_empty (h.window.resolve hlen htable) hcount
    (fun i => hbare.absent) hslot
  exact ⟨s', hfind, hreach.mem, hreach.cr3, hreach.allocator⟩

/-- What reading entries and creating tables keep, one step after another, a search below a table
keeps. -/
theorem Supplied.searchFrom_rule {R : Machine α → Machine α → Prop}
    (hreads : ∀ {s s' : Machine α}, s'.mem = s.mem → s'.cr3 = s.cr3 →
      s'.allocator = s.allocator → R s s')
    (htrans : ∀ {s₁ s₂ s₃ : Machine α}, R s₁ s₂ → R s₂ s₃ → R s₁ s₃)
    (hcreate : ∀ {used : Set ℕ} {s s' : Machine α} {front : List Index} {table : ℕ} {i : Index}
      {r : Option ℕ}, Supplied source used root s → descend (link s.mem) root front = some table →
      front.length ≤ 2 → nextLevelTableCreateMut (windowPtr front) i s = .ok r s' → R s s')
    {levels : ℕ} (h : Supplied source used root s)
    (htable : descend (link s.mem) root front = some table) (hlen : front.length + levels ≤ 3)
    {r : Option Page} {s' : Machine α}
    (hrun : searchFrom count levels front (windowPtr front) s = .ok r s') : R s s' := by
  induction levels generalizing s used front table with
  | zero =>
    obtain ⟨found, s₁, hfind, hrun⟩ := bind_eq_ok.mp hrun
    obtain ⟨hmem, hcr3, hallocator⟩ := findFreeFrom_returned hfind
    cases found with
    | none =>
      obtain ⟨-, rfl⟩ := EStateM.Result.ok.inj hrun
      exact hreads hmem hcr3 hallocator
    | some i =>
      obtain ⟨-, rfl⟩ := EStateM.Result.ok.inj hrun
      exact hreads hmem hcr3 hallocator
  | succ levels ih =>
    obtain ⟨found, s₁, hfind, hrun⟩ := bind_eq_ok.mp hrun
    obtain ⟨hmem, hcr3, hallocator⟩ := findFreeFrom_returned hfind
    have hread := hreads hmem hcr3 hallocator
    cases found with
    | none =>
      obtain ⟨-, rfl⟩ := EStateM.Result.ok.inj hrun
      exact hread
    | some i =>
      obtain ⟨next, s₂, hnext, hrun⟩ := bind_eq_ok.mp hrun
      have h₁ : Supplied source used root s₁ := h.of_mem hmem hcr3 (hallocator ▸ h.serves)
      rw [← hmem] at htable
      have hcreated := htrans hread (hcreate h₁ htable (by omega) hnext)
      obtain ⟨⟨used₂, h₂⟩, -, hcases⟩ := h₁.create_returned htable (by omega) hnext
      rcases hcases with rfl | ⟨rfl, child, hchild⟩
      · obtain ⟨-, rfl⟩ := EStateM.Result.ok.inj hrun
        exact hcreated
      · have hlen₂ : (front ++ [i]).length + levels ≤ 3 := by
          rw [List.length_append, List.length_singleton]
          omega
        exact htrans hcreated (ih h₂ hchild hlen₂ hrun)

/-- Searching a bare table of a higher level and creating a table below its entry 1. -/
theorem Supplied.search_create (h : Supplied source used root s) (hlen : front.length ≤ 2)
    (htable : descend (link s.mem) root front = some table) (hbare : BareTable s.mem table) :
    ∃ s₁, findFreeEntryIndex (windowPtr front) s = .ok (some 1) s₁ ∧
      ((∃ s₂ child, nextLevelTableCreateMut (windowPtr front) 1 s₁ =
          .ok (some (windowPtr (front ++ [1]))) s₂ ∧
        LinkedAt source used root table 1 child s s₂ ∧
        descend (link s₂.mem) root (front ++ [1]) = some child ∧ BareTable s₂.mem child) ∨
      ∃ s₂, nextLevelTableCreateMut (windowPtr front) 1 s₁ = .ok none s₂ ∧
        FrameAllocator.allocOne s.allocator = .ok (none, s₂.allocator) ∧ s₂.cr3 = s.cr3 ∧
        Supplied source used root s₂) := by
  obtain ⟨s₁, hfind, hmem, hcr3, hallocator⟩ := h.find_bare (by omega) htable hbare (le_refl 1)
  rw [if_pos (by decide)] at hfind
  have h₁ : Supplied source used root s₁ := h.of_mem hmem hcr3 (hallocator ▸ h.serves)
  have htable₁ : descend (link s₁.mem) root front = some table := by rw [hmem, htable]
  have hone : s₁.mem table 1 = .cleared := by
    rw [hmem, hbare]
    rfl
  refine ⟨s₁, hfind, ?_⟩
  rcases h₁.create_cases htable₁ hlen 1 with ⟨child, s₂, hlink, -⟩ |
    ⟨-, ⟨s₂, hrun, -, hcr3₂, halloc, h₂⟩ | ⟨hhuge, -⟩ | ⟨s₂, child, hrun, hlinked⟩⟩
  · rw [link, hone] at hlink
    cases hlink
  · rw [hallocator] at halloc
    exact Or.inr ⟨s₂, hrun, halloc, hcr3₂.trans hcr3, h₂⟩
  · rw [hone, PageEntry.isHuge_cleared] at hhuge
    cases hhuge
  · have hreached := hlinked.reached h₁.inside hlen htable₁
    exact Or.inl ⟨s₂, child, hrun, hlinked.of_mem hmem hcr3 hallocator, hreached, hlinked.bare⟩

/-- The steps of a search below bare tables, for tables of any shape. The ghost state is the set
of the frames in use and the table. -/
theorem supplied_searchSteps (source : FrameSource α) (root : ℕ) (hcount : 1 ≤ count) :
    SearchSteps count
      (fun (g : Set ℕ × ℕ) front s => Supplied source g.1 root s ∧ TablePath front ∧
        descend (link s.mem) root front = some g.2 ∧ BareTable s.mem g.2)
      (fun g levels _ s s' => s'.cr3 = s.cr3 ∧ (∃ used', Supplied source used' root s') ∧
        Grafted root g.1 g.2 (List.replicate levels 1) s.mem s'.mem)
      fun s s' => s'.cr3 = s.cr3 ∧ ∃ used', Supplied source used' root s' := by
  constructor
  · rintro ⟨used, table⟩ front s ⟨h, hpath, htable, hbare⟩ -
    obtain ⟨s', hfind, hmem, hcr3, hallocator⟩ := h.find_bare hpath.1 htable hbare hcount
    have h' : Supplied source used root s' := h.of_mem hmem hcr3 (hallocator ▸ h.serves)
    refine ⟨s', hfind, hallocator, ⟨hcr3, ⟨used, h'⟩, ?_⟩, hcr3, used, h'⟩
    rw [hmem]
    exact .nil used table s.mem
  · rintro ⟨used, table⟩ front s ⟨h, hpath, htable, hbare⟩ hlen
    obtain ⟨s₁, hfind, hcases⟩ := h.search_create hlen htable hbare
    refine ⟨s₁, hfind, ?_⟩
    rcases hcases with ⟨s₂, child, hrun, hlinked, hreached, hbare₂⟩ | ⟨s₂, hrun, hempty, hcr3, h₂⟩
    · obtain ⟨frame, halloc⟩ := hlinked.taken
      refine Or.inl ⟨s₂, (insert child used, child), frame, hrun, halloc,
        ⟨hlinked.supplied, hpath.concat (by omega) (by decide), hreached, hbare₂⟩, ?_, ?_⟩
      · rintro levels s' ⟨hcr3, hsupplied, hgraft⟩
        rw [hlinked.mem] at hgraft
        exact ⟨hcr3.trans hlinked.cr3, hsupplied, .cons (mem_nodes hpath htable) hlinked.absent
          hlinked.small hlinked.fits hlinked.unused hgraft⟩
      · rintro s' ⟨hcr3, hsupplied⟩
        exact ⟨hcr3.trans hlinked.cr3, hsupplied⟩
    · exact Or.inr ⟨s₂, hrun, hempty, hcr3, used, h₂⟩

/-- What a search does that returns pages below an entry of the level-4 table. -/
structure SearchedPages (source : FrameSource α) (used : Set ℕ) (root : ℕ) (i4 : Index)
    (s s' : Machine α) : Prop where
  /-- The first entry of the level-4 table that is not present. -/
  found : firstVacant s.mem root = some i4
  /-- It is not the recursive slot. -/
  ordinary : i4 ≠ recursiveSlot
  /-- New tables were linked below this entry. -/
  grafted : Grafted root used root [i4, 1, 1] s.mem s'.mem
  /-- The active table is the same. -/
  cr3 : s'.cr3 = s.cr3
  /-- The window still shows the tables. -/
  supplied : ∃ used', Supplied source used' root s'
  /-- Three frames were taken. -/
  drawn : Drawn 3 s.allocator s'.allocator

/-- The level-1 table of the pages that a search returned is reached, new and bare. -/
theorem SearchedPages.bareLeaf {i4 : Index} {s' : Machine α}
    (h : SearchedPages source used root i4 s s') (hinside : visited s.mem root ⊆ used) :
    ∃ last, LeafTable s'.mem s'.cr3 root [i4, 1, 1] last ∧ last ∉ used ∧
      BareTable s'.mem last := by
  have hone : (1 : Index) ≠ recursiveSlot := by decide
  have hordinary : TablePath ([] ++ [i4, 1, 1]) := ⟨by simp, by simp [h.ordinary, hone]⟩
  obtain ⟨last, hlast, hbare⟩ := h.grafted.reached hinside hordinary descend_nil
  obtain ⟨used', hsupplied⟩ := h.supplied
  exact ⟨last, ⟨hsupplied.window, hlast⟩, hbare (by simp)⟩

/-- Everything `find_empty_pages` can do, for tables of any shape. -/
theorem Supplied.findEmptyPages_cases (h : Supplied source used root s) (hcount : 1 ≤ count) :
    (∃ i4 s', findEmptyPages count s = .ok (some (foundPage i4)) s' ∧ count ≤ 510 ∧
      SearchedPages source used root i4 s s') ∨
    (∃ s', findEmptyPages count s = .ok none s' ∧ s'.cr3 = s.cr3 ∧
      (∃ used', Supplied source used' root s') ∧
      (firstVacant s.mem root = none ∨
        (∃ n a, n < 3 ∧ Drawn n s.allocator a ∧
          FrameAllocator.allocOne a = .ok (none, s'.allocator)) ∨ 510 < count)) ∨
    ∃ i4 s', firstVacant s.mem root = some i4 ∧ (s.mem root i4).isHuge = true ∧
      findEmptyPages count s = .error .debugAssert s' := by
  obtain ⟨s₁, hfind, hreach⟩ := findFreeEntryIndex_spec h.window.resolve_root
  have hfind : findFreeEntryIndex level4PageTable s = .ok (firstVacant s.mem root) s₁ := hfind
  have h₁ : Supplied source used root s₁ :=
    h.of_mem hreach.mem hreach.cr3 (hreach.allocator ▸ h.serves)
  have hroot : descend (link s₁.mem) root [] = some root := descend_nil
  have hzero : ([] : List Index).length ≤ 2 := Nat.zero_le 2
  refine ((supplied_searchSteps source root hcount).findEmptyPages
    (fun i4 => (s.mem root i4).isHuge = true)
    (fun i4 s' => i4 ≠ recursiveSlot ∧ Grafted root used root [i4, 1, 1] s.mem s'.mem ∧
      s'.cr3 = s.cr3 ∧ ∃ used', Supplied source used' root s')
    hfind ⟨hreach.cr3, used, h₁⟩ ?_).imp ?_ (Or.imp_left ?_)
  · intro i4 hfound
    obtain ⟨habsent, hi4⟩ := h.window.vacant_ne hfound
    rcases h₁.create_cases hroot hzero i4 with ⟨child, s₂, hlink, -⟩ |
      ⟨-, ⟨s₂, hrun, -, hcr3, halloc, h₂⟩ | ⟨hhuge, -, s₂, hrun⟩ | ⟨s₂, child, hrun, hlinked⟩⟩
    · rw [hreach.mem, link, PageEntry.child_eq_none habsent] at hlink
      cases hlink
    · rw [hreach.allocator] at halloc
      exact Or.inr (Or.inl ⟨s₂, hrun, halloc, hcr3.trans hreach.cr3, used, h₂⟩)
    · rw [hreach.mem] at hhuge
      exact Or.inr (Or.inr ⟨hhuge, s₂, hrun⟩)
    · have hpath : TablePath [i4] := within_nil.concat (by decide) hi4
      have hreached := hlinked.reached h₁.inside hzero hroot
      have hlinked := hlinked.of_mem hreach.mem hreach.cr3 hreach.allocator
      obtain ⟨frame, halloc⟩ := hlinked.taken
      refine Or.inl ⟨s₂, (insert child used, child), frame, hrun, halloc,
        ⟨hlinked.supplied, hpath, hreached, hlinked.bare⟩, ?_, ?_⟩
      · rintro s' ⟨hcr3, hsupplied, hgraft⟩
        rw [hlinked.mem] at hgraft
        exact ⟨hi4, .cons root_mem_nodes hlinked.absent hlinked.small hlinked.fits hlinked.unused
          hgraft, hcr3.trans hlinked.cr3, hsupplied⟩
      · rintro s' ⟨hcr3, hsupplied⟩
        exact ⟨hcr3.trans hlinked.cr3, hsupplied⟩
  · rintro ⟨i4, s', hfound, hrun, hle, ⟨hi4, hgraft, hcr3, hsupplied⟩, hdrawn⟩
    exact ⟨i4, s', hrun, hle, hfound, hi4, hgraft, hcr3, hsupplied, hdrawn⟩
  · rintro ⟨s', hrun, ⟨hcr3, hsupplied⟩, hnone⟩
    exact ⟨s', hrun, hcr3, hsupplied, hnone⟩

/-- The pages that a search returned lie in new tables. -/
theorem Supplied.findEmptyPages_some (h : Supplied source used root s) (hcount : 1 ≤ count)
    {page : Page} {s' : Machine α} (hrun : findEmptyPages count s = .ok (some page) s') :
    ∃ i4, page = foundPage i4 ∧ count ≤ 510 ∧ SearchedPages source used root i4 s s' := by
  rcases h.findEmptyPages_cases hcount with ⟨i4, s₁, hfind, hle, hpages⟩ | ⟨s₁, hfind, -⟩ |
    ⟨i4, s₁, -, -, hfind⟩
  all_goals rw [hrun] at hfind
  · obtain ⟨hpage, rfl⟩ := EStateM.Result.ok.inj hfind
    exact ⟨i4, Option.some.inj hpage, hle, hpages⟩
  · cases hfind
  · cases hfind

/-- A search for at most 510 pages finds them below the first vacant entry of the level-4 table,
when this entry does not have the page-size bit and the allocator has three frames. -/
theorem Supplied.findEmptyPages_runs (h : Supplied source used root s) (hcount : 1 ≤ count)
    (hle : count ≤ 510) {i4 : Index} (hfound : firstVacant s.mem root = some i4)
    (hsmall : (s.mem root i4).isHuge = false) (hlasts : Lasts 3 s.allocator) :
    ∃ s', findEmptyPages count s = .ok (some (foundPage i4)) s' ∧
      SearchedPages source used root i4 s s' := by
  rcases h.findEmptyPages_cases hcount with ⟨j4, s', hfind, -, hpages⟩ |
    ⟨s', -, -, -, hnone | ⟨n, a, hn, hdrawn, hnone⟩ | hmany⟩ | ⟨j4, s', hvacant, hhuge, -⟩
  · obtain rfl := Option.some.inj (hpages.found.symm.trans hfound)
    exact ⟨s', hfind, hpages⟩
  · rw [hfound] at hnone
    cases hnone
  · exact absurd hnone (hlasts n a _ hn hdrawn)
  · omega
  · obtain rfl := Option.some.inj (hfound.symm.trans hvacant)
    rw [hsmall] at hhuge
    cases hhuge

end Search

/-- The entries that the search selected: what the four searches of `find_empty_pages` returned,
in the order of its statements. -/
def Selected [FrameAllocator α] (count : ℕ) (s : Machine α) (i4 i3 i2 i1 : Index)
    (s' : Machine α) : Prop :=
  ∃ s₁ table₃ s₂ s₃ table₂ s₄ s₅ table₁ s₆,
    findFreeEntryIndex level4PageTable s = .ok (some i4) s₁ ∧
    nextLevelTableCreateMut level4PageTable i4 s₁ = .ok (some table₃) s₂ ∧
    findFreeEntryIndex table₃ s₂ = .ok (some i3) s₃ ∧
    nextLevelTableCreateMut table₃ i3 s₃ = .ok (some table₂) s₄ ∧
    findFreeEntryIndex table₂ s₄ = .ok (some i2) s₅ ∧
    nextLevelTableCreateMut table₂ i2 s₅ = .ok (some table₁) s₆ ∧
    findFreeEntryIndexWith table₁ count s₆ = .ok (some i1) s'

/-- What is promised about the pages that `find_empty_pages` returns. -/
structure SoundPages [FrameAllocator α] (count : ℕ) (s : Machine α) (page : Page)
    (s' : Machine α) : Prop where
  /-- The address of the page fits and is canonical. -/
  canonical : page.address = .ok (page.number * 4096) ∧ Canonical (page.number * 4096)
  /-- The indices of the address are those that the search selected. -/
  selected : ∃ i4 i3 i2 i1, Selected count s i4 i3 i2 i1 s' ∧
    indices (page.number * 4096) = [i4, i3, i2, i1]
  /-- The pages have one level-1 table. -/
  together : ∀ k < count, tablePath ((page.number + k) * 4096) = tablePath (page.number * 4096)
  /-- Their tables exist. -/
  tables : (descend (link s'.mem) s'.cr3 (tablePath (page.number * 4096))).isSome
  /-- They are not mapped. -/
  unmapped : ∀ k < count, walk s'.mem s'.cr3 (indices ((page.number + k) * 4096)) = none
  /-- No page that was mapped changed its translation. -/
  kept : ∀ ix : List Index, ix.length = 4 → ∀ frame, walk s.mem s.cr3 ix = some frame →
    walk s'.mem s'.cr3 ix = some frame

/-- A call that goes on after `Some`. -/
theorem andThen_eq_some {β γ : Type} {x : Option β} {f : β → Kernel α (Option γ)} {c : γ}
    {s s' : Machine α} (h : andThen x f s = .ok (some c) s') :
    ∃ b, x = some b ∧ f b s = .ok (some c) s' := by
  cases x with
  | none =>
    obtain ⟨hnone, -⟩ := EStateM.Result.ok.inj h
    cases hnone
  | some b => exact ⟨b, rfl, h⟩

section Result

variable [FrameAllocator α] {source : FrameSource α} {used : Set ℕ} {root : ℕ}
  {s s' : Machine α} {count : ℕ}

/-- The page that a search returns has the indices that it selected. -/
theorem findEmptyPages_selected {page : Page} (h : findEmptyPages count s = .ok (some page) s') :
    ∃ i4 i3 i2 i1, Selected count s i4 i3 i2 i1 s' ∧
      page = Page.fromNumber (digits [i4, i3, i2, i1]) := by
  obtain ⟨found₄, s₁, hfind₄, h⟩ := bind_eq_ok.mp h
  obtain ⟨i4, rfl, h⟩ := andThen_eq_some h
  obtain ⟨table₃, s₂, hcreate₄, h⟩ := bind_eq_ok.mp h
  obtain ⟨table₃, rfl, h⟩ := andThen_eq_some h
  obtain ⟨found₃, s₃, hfind₃, h⟩ := bind_eq_ok.mp h
  obtain ⟨i3, rfl, h⟩ := andThen_eq_some h
  obtain ⟨table₂, s₄, hcreate₃, h⟩ := bind_eq_ok.mp h
  obtain ⟨table₂, rfl, h⟩ := andThen_eq_some h
  obtain ⟨found₂, s₅, hfind₂, h⟩ := bind_eq_ok.mp h
  obtain ⟨i2, rfl, h⟩ := andThen_eq_some h
  obtain ⟨table₁, s₆, hcreate₂, h⟩ := bind_eq_ok.mp h
  obtain ⟨table₁, rfl, h⟩ := andThen_eq_some h
  obtain ⟨found₁, s₇, hfind₁, h⟩ := bind_eq_ok.mp h
  obtain ⟨i1, rfl, h⟩ := andThen_eq_some h
  obtain ⟨hpage, rfl⟩ := EStateM.Result.ok.inj h
  refine ⟨i4, i3, i2, i1, ⟨s₁, table₃, s₂, s₃, table₂, s₄, s₅, table₁, s₆, hfind₄, hcreate₄,
    hfind₃, hcreate₃, hfind₂, hcreate₂, hfind₁⟩, ?_⟩
  rw [← Option.some.inj hpage, digits_eq]

/-- The pages after the first one that a search returns. -/
theorem indices_foundPage_add (i4 : Index) {k : ℕ} (hk : k < 511) :
    tablePath (((foundPage i4).number + k) * 4096) = [i4, 1, 1] ∧
      level1Index (((foundPage i4).number + k) * 4096) = ⟨k + 1, by omega⟩ := by
  obtain ⟨-, hpath, hlevel1⟩ := foundPage_indices i4
  have hend : (level1Index ((foundPage i4).number * 4096)).val + k < 512 := by
    rw [hlevel1, Fin.val_one]
    omega
  obtain ⟨hsame, hindex⟩ := tablePath_add (Dvd.intro_left _ rfl) hend
  rw [Nat.add_mul]
  refine ⟨hsame.trans hpath, Fin.ext ?_⟩
  rw [hindex, hlevel1, Fin.val_one, Nat.add_comm]

/-- The address of the page is canonical when the level-4 index lies in the lower half. -/
theorem canonical_foundPage_iff (i4 : Index) :
    Canonical ((foundPage i4).number * 4096) ↔ i4.val < 256 := by
  have hnumber : (foundPage i4).number = digits [i4, 1, 1, 1] := rfl
  rw [hnumber]
  simp only [Canonical, digits, List.foldl_cons, List.foldl_nil, Fin.val_one]
  omega

/-- The first entry that is not present lies in the lower half exactly when an entry of the lower
half is not present. -/
theorem firstVacant_lower {mem : Memory} {i : Index} (h : firstVacant mem root = some i) :
    i.val < 256 ↔ ∃ j : Index, 1 ≤ j.val ∧ j.val < 256 ∧ (mem root j).isPresent = false := by
  rw [firstVacant] at h
  obtain ⟨hpos, habsent, hbefore⟩ := find_eq_some_iff.mp h
  constructor
  · intro hlower
    exact ⟨i, hpos, hlower, habsent⟩
  · rintro ⟨j, hj, hlower, hvacant⟩
    by_contra hupper
    have hpresent := hbefore j hj (Fin.lt_def.mpr (by omega))
    rw [hvacant] at hpresent
    cases hpresent

/-- One search keeps all that is promised exactly when an entry of the lower half of the level-4
table, from the entry 1 on, is not present. -/
theorem Window.findEmptyPages_sound {page : Page} (h : Window s.mem s.cr3 s.cr3)
    (hserves : source.Serves s.allocator (visited s.mem s.cr3)) (hcount : 1 ≤ count)
    (hfind : findEmptyPages count s = .ok (some page) s') :
    SoundPages count s page s' ↔
      ∃ i : Index, 1 ≤ i.val ∧ i.val < 256 ∧ (s.mem s.cr3 i).isPresent = false := by
  obtain ⟨i4, rfl, hle, hpages⟩ := (h.supplied hserves).findEmptyPages_some hcount hfind
  obtain ⟨hnumber, hpath, -⟩ := foundPage_indices i4
  rw [← firstVacant_lower hpages.found]
  constructor
  · intro hsound
    exact (canonical_foundPage_iff i4).mp hsound.canonical.2
  · intro hlower
    obtain ⟨last, ⟨-, hlast⟩, -, hbare⟩ := hpages.bareLeaf subset_rfl
    refine ⟨⟨Page.address_eq (by omega), ?_⟩, ?_, fun k hk => ?_, ?_, fun k hk => ?_,
      fun ix hix4 frame hwalk => ?_⟩
    · exact (canonical_foundPage_iff i4).mpr hlower
    · obtain ⟨j4, j3, j2, j1, hselected, hdigits⟩ := findEmptyPages_selected hfind
      refine ⟨j4, j3, j2, j1, hselected, ?_⟩
      have hindices := indices_digits 0 j4 j3 j2 j1
      rw [Nat.zero_mul, Nat.zero_add] at hindices
      rw [hdigits]
      exact hindices
    · rw [(indices_foundPage_add i4 (by omega)).1, hpath]
    · rw [hpages.cr3, hpath, hlast]
      rfl
    · obtain ⟨hsame, hlevel1⟩ := indices_foundPage_add i4 (show k < 511 by omega)
      have hentry : (⟨k + 1, by omega⟩ : Index) ≠ recursiveSlot :=
        ne_recursiveSlot (Nat.succ_lt_succ (by omega))
      rw [indices, hsame, hlevel1, hpages.cr3, walk_append hlast (by simp), walk_singleton,
        hbare.absent hentry]
      rfl
    · rw [hpages.cr3]
      refine hpages.grafted.walk_mapped (fun before after node hsplit hafter hnode => ?_) hwalk
      have hlength := congrArg List.length hsplit
      rw [List.length_append] at hlength
      have hpos := List.length_pos_iff.mpr hafter
      exact mem_visited (by omega) hnode

end Result

end Axel
