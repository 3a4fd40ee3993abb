import Axel.Paging.PagingRuns

/-!
# Tables with levels

A table may have several places as long as all of them belong to one level. When the active tables
have levels, `map` and `unmap` of a page without the recursive slot write level-1 entries only,
and new tables start at one level, so all tables stay at their places and keep their levels. The
same holds for `auto_continuous_map`, and this file says what it does to the translation.
-/

namespace Axel

open Descent Table ActivePageTable

variable {α : Type}

/-- The active table has an entry for itself, and each table belongs to one level. -/
structure Layered (s : Machine α) : Prop where
  /-- The window shows the active tables. -/
  window : Window s.mem s.cr3 s.cr3
  /-- Each table has a level. -/
  leveled : Leveled (link s.mem) (· ≠ recursiveSlot) 3 s.cr3

/-- The tables of a tree have levels. -/
theorem TableTree.leveled {mem : Memory} {root : ℕ} (h : TableTree mem root) :
    Leveled (link mem) (· ≠ recursiveSlot) 3 root := by
  intro path path' table hpath hpath' htable htable'
  rw [h.sole path' table hpath' htable' path hpath htable]

/-- The boot tables have levels. -/
theorem BootTables.layered {s : Machine α} (h : BootTables s) : Layered s := by
  have hwindow := h.window
  rw [← h.cr3] at hwindow
  refine ⟨hwindow, ?_⟩
  rw [h.cr3]
  intro path path' table hpath hpath' htable htable'
  rcases h.path_cases hpath htable with ⟨rfl, rfl⟩ | ⟨rfl, rfl⟩
  · rcases h.path_cases hpath' htable' with ⟨rfl, -⟩ | ⟨-, hthree⟩
    · rfl
    · cases hthree
  · rcases h.path_cases hpath' htable' with ⟨-, hone⟩ | ⟨rfl, -⟩
    · cases hone
    · rfl

/-- The tables below a root stay at their places. -/
def KeepsPlaces (root : ℕ) (mem mem' : Memory) : Prop :=
  ∀ path table, TablePath path → descend (link mem) root path = some table →
    descend (link mem') root path = some table

/-- A run that keeps the active table, the levels and the places of the tables. -/
structure Settled (s s' : Machine α) : Prop where
  /-- The active table is the same. -/
  cr3 : s'.cr3 = s.cr3
  /-- The tables have levels. -/
  layered : Layered s'
  /-- The tables stay at their places. -/
  places : KeepsPlaces s.cr3 s.mem s'.mem

/-- One run after another. -/
theorem Settled.trans {s s₁ s' : Machine α} (h : Settled s s₁) (h' : Settled s₁ s') :
    Settled s s' := by
  refine ⟨h'.cr3.trans h.cr3, h'.layered, fun path table hpath htable => ?_⟩
  have hplaces := h'.places
  rw [h.cr3] at hplaces
  exact hplaces path table hpath (h.places path table hpath htable)

/-- A run without a change of the memory. -/
theorem Layered.settled_of_mem {s s' : Machine α} (h : Layered s) (hmem : s'.mem = s.mem)
    (hcr3 : s'.cr3 = s.cr3) : Settled s s' := by
  refine ⟨hcr3, ⟨?_, ?_⟩, fun path table _ htable => by rw [hmem, htable]⟩
  · rw [hmem, hcr3]
    exact h.window
  · rw [hmem, hcr3]
    exact h.leveled

/-- Writing into a level-1 table changes no path. -/
theorem Layered.settled_of_leaf {s s' : Machine α} (h : Layered s) {path : List Index}
    {table : ℕ} (hpath : TablePath path) (hlen : path.length = 3)
    (htable : descend (link s.mem) s.cr3 path = some table) (hcr3 : s'.cr3 = s.cr3)
    (hframe : ∀ f, f ≠ table → s'.mem f = s.mem f) : Settled s s' := by
  have hdescend : ∀ other, TablePath other →
      descend (link s'.mem) s.cr3 other = descend (link s.mem) s.cr3 other := by
    intro other hother
    exact h.leveled.descend_of_last hpath hlen htable
      (fun f i hf => link_of_frame (hframe f hf) i) hother
  have hroot : s.cr3 ≠ table := by
    rintro rfl
    rw [h.leveled.only_root path hpath htable] at hlen
    cases hlen
  have hslot : link s'.mem s.cr3 recursiveSlot = some s.cr3 := by
    rw [link_of_frame (hframe s.cr3 hroot)]
    exact h.window.stays
  refine ⟨hcr3, ⟨?_, ?_⟩, fun other node hother hnode => by rw [hdescend other hother, hnode]⟩
  · rw [hcr3]
    exact ⟨hslot, hslot⟩
  · rw [hcr3]
    exact h.leveled.of_descend_eq hdescend

section Create

variable [FrameAllocator α] {source : FrameSource α} {used : Set ℕ} {root table child : ℕ}
  {s s' : Machine α} {front rest : List Index} {i : Index}

/-- Linking a fresh table at the end of a path keeps the levels and the places of the tables. -/
theorem LinkedAt.leveled (h : LinkedAt source used root table i child s s')
    (hinside : visited s.mem root ⊆ used) (hpath : TablePath front)
    (htable : descend (link s.mem) root front = some table)
    (hlevel : Leveled (link s.mem) (· ≠ recursiveSlot) 3 root) :
    Leveled (link s'.mem) (· ≠ recursiveSlot) 3 root ∧ KeepsPlaces root s.mem s'.mem := by
  have hfresh : child ∉ tables s.mem root :=
    fun hin => h.unused (hinside (tables_subset_visited s.mem root hin))
  have hattach := linkTable_attached htable hpath (PageEntry.child_eq_none h.absent) h.small
    h.fits hfresh
  rw [h.mem]
  exact ⟨hattach.leveled hfresh hlevel, fun path node hin hnode => hattach.kept hfresh hin hnode⟩

/-- Creating tables along a path keeps the levels and the places of the tables. -/
theorem Supplied.createAlong_leveled (h : Supplied source used root s)
    (hlevel : Leveled (link s.mem) (· ≠ recursiveSlot) 3 root) (hpath : TablePath (front ++ rest))
    (htable : descend (link s.mem) root front = some table) {r : Option ℕ}
    (hrun : createAlong (windowPtr front) rest s = .ok r s') :
    (∃ used', Supplied source used' root s') ∧ s'.cr3 = s.cr3 ∧
      Leveled (link s'.mem) (· ≠ recursiveSlot) 3 root ∧ KeepsPlaces root s.mem s'.mem ∧
      (r = none ∨ r = some (windowPtr (front ++ rest)) ∧
        ∃ last, descend (link s'.mem) root (front ++ rest) = some last) := by
  induction rest generalizing s front table used with
  | nil =>
    obtain ⟨rfl, rfl⟩ := EStateM.Result.ok.inj hrun
    rw [List.append_nil]
    exact ⟨⟨used, h⟩, rfl, hlevel, fun _ _ _ hnode => hnode, Or.inr ⟨rfl, table, htable⟩⟩
  | cons i rest ih =>
    obtain ⟨next, s₁, hnext, hrun⟩ := bind_eq_ok.mp hrun
    rw [List.append_cons] at hpath ⊢
    have hlen : front.length ≤ 2 := by
      have hlength := hpath.1
      simp only [List.length_append, List.length_cons, List.length_nil] at hlength
      omega
    rcases h.create_cases htable hlen i with ⟨child, s₂, hlink, hnext', hmem, hcr3, halloc⟩ |
      ⟨-, ⟨s₂, hnext', hmem, hcr3, -, h₂⟩ | ⟨-, -, s₂, hnext'⟩ | ⟨s₂, child, hnext', hlinked⟩⟩
    all_goals rw [hnext] at hnext'
    · obtain ⟨rfl, rfl⟩ := EStateM.Result.ok.inj hnext'
      have h₁ := h.of_mem hmem hcr3 (halloc ▸ h.serves)
      have hchild : descend (link s₁.mem) root (front ++ [i]) = some child := by
        rw [hmem, descend_concat htable, hlink]
      rw [← hmem] at hlevel
      obtain ⟨hsupplied, hcr3', hrest⟩ := ih h₁ hlevel hpath hchild hrun
      rw [hmem] at hrest
      exact ⟨hsupplied, hcr3'.trans hcr3, hrest⟩
    · obtain ⟨rfl, rfl⟩ := EStateM.Result.ok.inj hnext'
      obtain ⟨rfl, rfl⟩ := EStateM.Result.ok.inj hrun
      rw [hmem]
      exact ⟨⟨used, h₂⟩, hcr3, hlevel, fun _ _ _ hnode => hnode, Or.inl rfl⟩
    · cases hnext'
    · obtain ⟨rfl, rfl⟩ := EStateM.Result.ok.inj hnext'
      obtain ⟨hlevel₁, hplaces⟩ := hlinked.leveled h.inside hpath.left.left htable hlevel
      obtain ⟨hsupplied, hcr3', hlevel', hplaces', hresult⟩ := ih hlinked.supplied hlevel₁ hpath
        (hlinked.reached h.inside hlen htable) hrun
      exact ⟨hsupplied, hcr3'.trans hlinked.cr3, hlevel', fun path node hin hnode =>
        hplaces' path node hin (hplaces path node hin hnode), hresult⟩

/-- After the tables of a page were found or created, `map` only writes into its level-1 table. -/
theorem LeafTable.map_frame {s₁ : Machine α} {page : Page} {frame : Frame}
    (h : LeafTable s₁.mem s₁.cr3 root (tablePath (page.number * 4096)) table)
    (hcreate : createAlong level4PageTable (tablePath (page.number * 4096)) s =
      .ok (some (windowPtr (tablePath (page.number * 4096)))) s₁)
    {r : Except TableError Unit} (hrun : map page frame s = .ok r s') :
    s'.cr3 = s₁.cr3 ∧ ∀ f, f ≠ table → s'.mem f = s₁.mem f := by
  obtain ⟨hpage, hcases⟩ := map_returned hrun
  have hspec : ∀ other : Frame, other.number < 2 ^ 36 → map page other s = .ok r s' →
      s'.cr3 = s₁.cr3 ∧ ∀ f, f ≠ table → s'.mem f = s₁.mem f := by
    intro other hother hrun
    rcases h.map_spec hcreate hpage hother with ⟨-, s₂, hmap, hmem, hcr3⟩ |
      ⟨-, s₂, hmap, hmem, hcr3, -⟩
    all_goals
      rw [hrun] at hmap
      obtain ⟨-, rfl⟩ := EStateM.Result.ok.inj hmap
      refine ⟨hcr3, fun f hf => ?_⟩
      rw [hmem]
    exact set_frame_of_ne _ _ _ hf
  rcases hcases with ⟨-, hframe⟩ | ⟨-, hother⟩
  · exact hspec frame hframe hrun
  · exact hspec ⟨0, 0, .used⟩ (by decide) (hother ⟨0, 0, .used⟩ (by decide))

/-- `map` of a page without the recursive slot keeps the tables settled. -/
theorem Layered.map (h : Layered s) (hserves : source.Serves s.allocator (visited s.mem s.cr3))
    {page : Page} {frame : Frame} (hpage : Ordinary page.indices) {r : Except TableError Unit}
    (hrun : ActivePageTable.map page frame s = .ok r s') : Settled s s' := by
  have hpath := hpage.tablePath
  obtain ⟨found, s₁, hcreate, hleaf⟩ := map_created hrun
  obtain ⟨⟨used₁, h₁⟩, hcr3, hlevel, hplaces, hresult⟩ :=
    (h.window.supplied hserves).createAlong_leveled h.leveled hpath descend_nil hcreate
  have hsettled : Settled s s₁ := by
    refine ⟨hcr3, ⟨h₁.window_of_cr3 hcr3, ?_⟩, hplaces⟩
    rw [hcr3]
    exact hlevel
  rcases hresult with rfl | ⟨rfl, last, hlast⟩
  · obtain ⟨-, rfl⟩ := EStateM.Result.ok.inj hleaf
    exact hsettled
  · rw [List.nil_append] at hlast hcreate
    obtain ⟨hcr3', hframe⟩ := LeafTable.map_frame ⟨h₁.window, hlast⟩ hcreate hrun
    rw [← hcr3] at hlast
    exact hsettled.trans (hsettled.layered.settled_of_leaf hpath rfl hlast hcr3' hframe)

/-- `unmap` of a page without the recursive slot keeps the tables settled. -/
theorem Layered.unmap (h : Layered s) {page : Page} (hpage : Ordinary page.indices)
    {r : Except TableError Unit} (hrun : ActivePageTable.unmap page s = .ok r s') :
    Settled s s' := by
  have hpath := hpage.tablePath
  have hnumber : page.number < 2 ^ 52 := by
    rw [ActivePageTable.unmap] at hrun
    obtain ⟨addr, haddr, -⟩ := lift_bind_eq_ok.mp hrun
    have hlt := (checkedMul_eq_ok.mp haddr).1
    unfold pageSize usizeCount at hlt
    omega
  have hreads : (∀ table, descend (link s.mem) s.cr3 (tablePath (page.number * 4096)) =
      some table → (s.mem table (level1Index (page.number * 4096))).isPresent = false) →
      Settled s s' := by
    intro habsent
    obtain ⟨s₁, hrun', hreach⟩ := h.window.unmap_absent hnumber hpath habsent
    rw [hrun] at hrun'
    obtain ⟨-, rfl⟩ := EStateM.Result.ok.inj hrun'
    exact h.settled_of_mem hreach.mem hreach.cr3
  cases htable : descend (link s.mem) s.cr3 (tablePath (page.number * 4096)) with
  | none =>
    refine hreads fun table hin => ?_
    rw [htable] at hin
    cases hin
  | some table =>
    cases hpresent : (s.mem table (level1Index (page.number * 4096))).isPresent with
    | false =>
      refine hreads fun other hother => ?_
      obtain rfl := Option.some.inj (htable.symm.trans hother)
      exact hpresent
    | true =>
      obtain ⟨frameAddr, haddr⟩ : ∃ frameAddr,
          (s.mem table (level1Index (page.number * 4096))).getFrameAddr = some frameAddr :=
        ⟨_, if_pos (by rw [PageEntry.contains_present, hpresent])⟩
      obtain ⟨a, hfree⟩ := h.window.unmap_returned hnumber hpath htable haddr hrun
      obtain ⟨s₁, before, hrun', hmem, hcr3, -⟩ :=
        h.window.unmap_present hnumber hpath htable haddr hfree
      rw [hrun] at hrun'
      obtain ⟨-, rfl⟩ := EStateM.Result.ok.inj hrun'
      refine h.settled_of_leaf hpath rfl htable hcr3 fun f hf => ?_
      rw [hmem]
      exact set_frame_of_ne _ _ _ hf

end Create

section Block

variable [FrameAllocator α] {source : FrameSource α} {used : Set ℕ} {root : ℕ}
  {s s' : Machine α} {frame : Frame}

/-- The frames that a page walk can read and that are no tables have another use. -/
theorem Layered.hosted (h : Layered s)
    (hserves : source.Serves s.allocator (visited s.mem s.cr3)) :
    Hosted source (visited s.mem s.cr3 \ tables s.mem s.cr3) s.cr3 s := by
  refine ⟨h.window, Or.inr root_mem_nodes, disjoint_sdiff_self_left, ?_⟩
  rw [Set.sdiff_union_of_subset (tables_subset_visited s.mem s.cr3)]
  exact hserves

omit [FrameAllocator α] in
/-- New tables have levels. -/
theorem Grown.leveled (h : Grown used root s s')
    (hlevel : Leveled (link s.mem) (· ≠ recursiveSlot) 3 root) :
    Leveled (link s'.mem) (· ≠ recursiveSlot) 3 root := by
  intro path path' table hpath hpath' htable htable'
  rcases h.added path table hpath htable with hold | ⟨-, hsole, -⟩
  · have hold' := h.descend_of_mem hpath' htable' (mem_nodes hpath hold)
    exact hlevel path path' table hpath hpath' hold hold'
  · rw [hsole path' hpath' htable']

/-- Creating tables keeps the tables settled. -/
theorem Layered.settled_of_grown (h : Layered s) (hgrown : Grown used s.cr3 s s')
    (hhosted : Hosted source used s.cr3 s') : Settled s s' := by
  have hwindow := hhosted.window
  refine ⟨hgrown.cr3, ⟨?_, ?_⟩, hgrown.kept⟩
  · rw [hgrown.cr3] at hwindow ⊢
    exact hwindow
  · rw [hgrown.cr3]
    exact hgrown.leveled h.leveled

omit [FrameAllocator α] in
/-- Filling entries of a level-1 table with one path only changes the translation of the pages
with these entries. -/
theorem Filled.walk_other {mem mem' : Memory} {path ix : List Index} {last : ℕ}
    {calls : List (Page × Frame)} (h : Filled mem last calls mem')
    (hsole : Sole mem root path last) (hlen : path.length = 3)
    (hcalls : ∀ call ∈ calls, tablePath (call.1.number * 4096) = path) (hix : Ordinary ix)
    (hix4 : ix.length = 4) (hout : ∀ call ∈ calls, ix ≠ call.1.indices) :
    walk mem' root ix = walk mem root ix := by
  apply walk_congr
  intro before j after table hsplit htable
  apply h.kept
  by_contra hsame
  obtain ⟨rfl, hj⟩ : table = last ∧ j ∈ calls.map fun call =>
      level1Index (call.1.number * 4096) := by
    simpa only [not_or, not_not, ne_eq] using hsame
  have hlength := congrArg List.length hsplit
  rw [List.length_append, List.length_cons] at hlength
  have hbefore : TablePath before := by
    refine ⟨by omega, fun k hk => hix k ?_⟩
    rw [hsplit]
    exact List.mem_append_left _ hk
  obtain rfl := hsole before hbefore htable
  obtain rfl : after = [] := List.length_eq_zero_iff.mp (by omega)
  obtain ⟨call, hcall, rfl⟩ := List.mem_map.mp hj
  refine hout call hcall ?_
  rw [hsplit, Page.indices_eq, hcalls call hcall]

/-- What `auto_continuous_map` does when it returns a range below an entry of the level-4 table. -/
structure MappedBelow (i4 : Index) (frame : Frame) (r : Option (ℕ × ℕ)) (s s' : Machine α) :
    Prop where
  /-- The entry was the first one that is not present. -/
  found : firstVacant s.mem s.cr3 = some i4
  /-- It is not the recursive slot. -/
  ordinary : i4 ≠ recursiveSlot
  /-- The pages fit into one level-1 table. -/
  few : 2 ^ frame.order ≤ 510
  /-- The range. -/
  range : r = some ((foundPage i4).number * 4096,
    (foundPage i4).number * 4096 + 2 ^ frame.order * 4096)
  /-- The entry refers to a table now. -/
  linked : ∃ child, link s'.mem s.cr3 i4 = some child
  /-- Only the pages of the range are translated in another way. -/
  kept : ∀ ix, Ordinary ix → ix.length = 4 →
    (∀ call ∈ blockMappings ((foundPage i4).number * 4096) (frame.number * 4096)
      (2 ^ frame.order), ix ≠ call.1.indices) →
    walk s'.mem s.cr3 ix = walk s.mem s.cr3 ix

/-- Mapping a block at the pages that a search returned keeps the tables settled and changes the
translation of these pages only. -/
theorem Layered.mapped_below (h : Layered s) {s₁ : Machine α} {i4 : Index} {last : ℕ}
    (hhosted : Hosted source used s.cr3 s₁) (hgrown : Grown used s.cr3 s s₁)
    (hempty : EmptyPages s s.cr3 i4 last s₁) (hle : 2 ^ frame.order ≤ 510)
    (hmaps : mapAll (blockMappings ((foundPage i4).number * 4096) (frame.number * 4096)
      (2 ^ frame.order)) s₁ = .ok (.ok ()) s') :
    Settled s s' ∧ MappedBelow i4 frame (some ((foundPage i4).number * 4096,
      (foundPage i4).number * 4096 + 2 ^ frame.order * 4096)) s s' := by
  have hsettled := h.settled_of_grown hgrown hhosted
  have hleaf : LeafTable s₁.mem s₁.cr3 s.cr3 [i4, 1, 1] last :=
    ⟨hhosted.window, hempty.fresh.reached⟩
  have habsent : ∀ i, i ≠ recursiveSlot → (s₁.mem last i).isPresent = false := by
    intro i hi
    rw [hempty.fresh.empty i hi, PageEntry.isPresent_cleared]
  obtain ⟨hleaf', hcr3, hfilled⟩ :=
    hleaf.mapAll_block_returned habsent Nat.one_le_two_pow hle hmaps
  have hpath : TablePath [i4, 1, 1] := by
    have hone : (1 : Index) ≠ recursiveSlot := by decide
    exact ⟨by simp, by simp [hempty.ordinary, hone]⟩
  have hreached : descend (link s₁.mem) s₁.cr3 [i4, 1, 1] = some last := by
    rw [hgrown.cr3]
    exact hempty.fresh.reached
  have hfills := hsettled.layered.settled_of_leaf hpath rfl hreached hcr3 fun f hf =>
    funext fun j => hfilled.kept f j (Or.inl hf)
  have hcalls : ∀ call ∈ blockMappings ((foundPage i4).number * 4096) (frame.number * 4096)
      (2 ^ frame.order), tablePath (call.1.number * 4096) = [i4, 1, 1] := by
    intro call hcall
    obtain ⟨i, hi, rfl⟩ := List.mem_map.mp hcall
    rw [List.mem_range] at hi
    exact (foundPage_add i4 (by omega) rfl).2.1
  obtain ⟨child, hlink, -⟩ := Option.bind_eq_some_iff.mp hleaf'.reached
  refine ⟨hsettled.trans hfills, hempty.found, hempty.ordinary, hle, rfl, ⟨child, hlink⟩,
    fun ix hix hix4 hout => ?_⟩
  rw [hfilled.walk_other hempty.fresh.sole rfl hcalls hix hix4 hout, hgrown.walk ix hix hix4]

/-- `auto_continuous_map` keeps the tables settled, and it changes no translation or those of the
pages of its range. -/
theorem Layered.autoContinuousMap (h : Layered s)
    (hserves : source.Serves s.allocator (visited s.mem s.cr3)) {r : Option (ℕ × ℕ)}
    (hrun : ActivePageTable.autoContinuousMap frame s = .ok r s') :
    Settled s s' ∧
      ((r = none ∧ ∀ ix, Ordinary ix → ix.length = 4 →
          walk s'.mem s.cr3 ix = walk s.mem s.cr3 ix) ∨
        ∃ i4, MappedBelow i4 frame r s s') := by
  have hsole := h.leveled.only_root
  have hhosted := h.hosted hserves
  obtain ⟨-, ⟨rfl, hfind⟩ | ⟨page, s₁, hfind, hmaps, rfl⟩⟩ := autoContinuousMap_returned hrun
  · obtain ⟨hhosted', hgrown, -⟩ := hhosted.findEmptyPages_returned hsole Nat.one_le_two_pow hfind
    exact ⟨h.settled_of_grown hgrown hhosted', Or.inl ⟨rfl, hgrown.walk⟩⟩
  · obtain ⟨hhosted', hgrown, hnone | ⟨i4, last, hpage, hle, hempty⟩⟩ :=
      hhosted.findEmptyPages_returned hsole Nat.one_le_two_pow hfind
    · cases hnone
    · obtain rfl := Option.some.inj hpage
      obtain ⟨hsettled, hmapped⟩ := h.mapped_below hhosted' hgrown hempty hle hmaps
      exact ⟨hsettled, Or.inr ⟨i4, hmapped⟩⟩

/-- `auto_continuous_map` returns when the frames of the block fit into entries and the entries
of the level-4 table that are not present are zero. -/
theorem Layered.autoContinuousMap_runs (h : Layered s)
    (hserves : source.Serves s.allocator (visited s.mem s.cr3)) (horder : frame.order < 52)
    (hframe : frame.number + 2 ^ frame.order ≤ 2 ^ 36)
    (hzero : ∀ i, (s.mem s.cr3 i).isPresent = false → s.mem s.cr3 i = .cleared) :
    ∃ r s', ActivePageTable.autoContinuousMap frame s = .ok r s' := by
  rcases (h.hosted hserves).findEmptyPages_cases h.leveled.only_root Nat.one_le_two_pow with
    ⟨s₁, i4, last, hfound, hle, hhosted, -, hempty⟩ | ⟨s₁, hfound, -⟩ |
    ⟨i4, s₁, hvacant, hhuge, -⟩
  · obtain ⟨s', hmaps, -⟩ := hempty.mapAll_runs hhosted Nat.one_le_two_pow hle hframe
    exact ⟨_, s', autoContinuousMap_some hle hframe hfound hmaps⟩
  · exact ⟨none, s₁, autoContinuousMap_none horder hfound⟩
  · obtain ⟨habsent, -⟩ := h.window.vacant_ne hvacant
    rw [hzero i4 habsent, PageEntry.isHuge_cleared] at hhuge
    cases hhuge

end Block

section Range

variable {i4 : Index} {count n : ℕ}

/-- The range that `auto_continuous_map` returns lies below one entry of the level-4 table. -/
theorem foundPage_range (i4 : Index) (hle : count ≤ 510) :
    i4.val * 2 ^ 39 ≤ (foundPage i4).number * 4096 ∧
      (foundPage i4).number * 4096 + count * 4096 ≤ (i4.val + 1) * 2 ^ 39 := by
  have hnumber : (foundPage i4).number = digits [i4, 1, 1, 1] := rfl
  rw [hnumber, digits_eq, Fin.val_one]
  omega

/-- Pages with the same indices have the same address modulo `2 ^ 48`. -/
theorem Page.address_of_indices {page page' : Page} (h : page.indices = page'.indices) :
    page.number * 4096 % 2 ^ 48 = page'.number * 4096 % 2 ^ 48 := by
  simp only [Page.indices, Axel.indices, tablePath, level4Index, level3Index, level2Index,
    Axel.level1Index, pageSize, List.cons_append, List.nil_append, List.cons.injEq, and_true,
    Fin.ext_iff, indexAt_val] at h
  omega

/-- A page outside the range, modulo `2 ^ 48`, is none of its pages. -/
theorem indices_ne_of_outside {page : Page} (hle : count ≤ 510)
    (hout : page.number * 4096 % 2 ^ 48 ∉ Set.Ico ((foundPage i4).number * 4096)
      ((foundPage i4).number * 4096 + count * 4096)) :
    ∀ call ∈ blockMappings ((foundPage i4).number * 4096) (n * 4096) count,
      page.indices ≠ call.1.indices := by
  intro call hcall hsame
  obtain ⟨i, hi, rfl⟩ := List.mem_map.mp hcall
  rw [List.mem_range] at hi
  obtain ⟨hnumber, -, -⟩ := foundPage_add i4 (show i < 511 by omega) rfl
  obtain ⟨-, hend⟩ := foundPage_range i4 hle
  have haddr := Page.address_of_indices hsame
  rw [hnumber] at haddr
  rw [haddr, Nat.mod_eq_of_lt (by omega), Nat.add_mul, Set.mem_Ico] at hout
  exact hout ⟨Nat.le_add_right _ _, Nat.add_lt_add_left (by omega) _⟩

end Range

end Axel
