import Axel.Paging.BlockMapping

/-!
# Searches after any calls

The states that `find_empty_pages`, `map`, `unmap` and `auto_continuous_map` reach from the boot
tables, for any pages and frames. Such calls can map tables through the recursive slot, so the
tables have no particular shape. The recursive slot of the active table itself is the one thing
that stays, unless `unmap` clears it, and then no table can be reached any more.
-/

namespace Axel

open Descent Table ActivePageTable

variable {α : Type}

section Returned

variable [FrameAllocator α] {source : FrameSource α} {used : Set ℕ} {root table : ℕ}
  {s s' : Machine α} {front : List Index} {count : ℕ}

/-- The whole search is the search below the level-4 table. -/
theorem findEmptyPages_eq_searchFrom (count : ℕ) :
    findEmptyPages (α := α) count = searchFrom count 3 [] (windowPtr []) :=
  findEmptyPages_eq count

/-- A search below any table keeps what the allocator promises, for any number of pages. -/
theorem Supplied.searchFrom_returned {levels : ℕ} (h : Supplied source used root s)
    (hlen : front.length + levels ≤ 3) (htable : descend (link s.mem) root front = some table)
    {r : Option Page} (hrun : searchFrom count levels front (windowPtr front) s = .ok r s') :
    (∃ used', Supplied source used' root s') ∧ s'.cr3 = s.cr3 := by
  let keeps : Machine α → Machine α → Prop := fun s s' => ∀ used, Supplied source used root s →
    (∃ used', Supplied source used' root s') ∧ s'.cr3 = s.cr3
  have hreads : ∀ {s s' : Machine α}, s'.mem = s.mem → s'.cr3 = s.cr3 →
      s'.allocator = s.allocator → keeps s s' := fun hmem hcr3 hallocator used h =>
    ⟨⟨used, h.of_mem hmem hcr3 (hallocator ▸ h.serves)⟩, hcr3⟩
  have htrans : ∀ {s₁ s₂ s₃ : Machine α}, keeps s₁ s₂ → keeps s₂ s₃ → keeps s₁ s₃ := by
    intro s₁ s₂ s₃ h₁ h₂ used h
    obtain ⟨⟨used', h'⟩, hcr3⟩ := h₁ used h
    obtain ⟨hsupplied, hcr3'⟩ := h₂ used' h'
    exact ⟨hsupplied, hcr3'.trans hcr3⟩
  refine h.searchFrom_rule hreads htrans ?_ htable hlen hrun used h
  intro _ s s' front table i r _ htable hlen hrun used h
  obtain ⟨hsupplied, hcr3, -⟩ := h.create_returned htable hlen hrun
  exact ⟨hsupplied, hcr3⟩

/-- The window of a root that is the active table. -/
theorem Supplied.window_of_cr3 (h : Supplied source used root s') (hcr3 : s'.cr3 = root) :
    Window s'.mem s'.cr3 s'.cr3 := by
  subst hcr3
  exact h.window

end Returned

/-- A call of the page-table code. -/
inductive PagingCall where
  /-- `find_empty_pages(count)`. -/
  | findEmptyPages (count : ℕ)
  /-- `map(page, frame)`. -/
  | map (page : Page) (frame : Frame)
  /-- `unmap(page)`. -/
  | unmap (page : Page)
  /-- `auto_continuous_map(frame)`. -/
  | autoContinuousMap (frame : Frame)

/-- Run a call and drop its result. -/
def PagingCall.run [FrameAllocator α] : PagingCall → Kernel α Unit
  | .findEmptyPages count => do
    let _ ← ActivePageTable.findEmptyPages count
    return ()
  | .map page frame => do
    let _ ← ActivePageTable.map page frame
    return ()
  | .unmap page => do
    let _ ← ActivePageTable.unmap page
    return ()
  | .autoContinuousMap frame => do
    let _ ← ActivePageTable.autoContinuousMap frame
    return ()

/-- The states that calls reach, when the allocator hands out no frame that a page walk can
read. -/
inductive PagingRun [FrameAllocator α] (source : FrameSource α) (s₀ : Machine α) :
    Machine α → Prop where
  /-- No call. -/
  | start : PagingRun source s₀ s₀
  /-- One more call that returned. -/
  | call {s s' : Machine α} {call : PagingCall} : PagingRun source s₀ s →
    source.Serves s.allocator (visited s.mem s.cr3) → call.run s = .ok () s' →
    PagingRun source s₀ s'

/-- The recursive slot of the active table refers to the table, or it is not present and no
table can be reached. -/
def Anchored (s : Machine α) : Prop :=
  link s.mem s.cr3 recursiveSlot = some s.cr3 ∨ (s.mem s.cr3 recursiveSlot).isPresent = false

namespace Anchored

variable {s s' : Machine α}

/-- When the level-4 table can be reached, the window shows the active tables. -/
theorem window (h : Anchored s) {frame : ℕ} (hresolve : s.resolve level4PageTable = .ok frame) :
    Window s.mem s.cr3 s.cr3 := by
  rcases h with hself | habsent
  · exact ⟨hself, hself⟩
  · have hindices : indices level4PageTable =
        [recursiveSlot, recursiveSlot, recursiveSlot, recursiveSlot] := by decide
    rw [Machine.resolve, if_pos (by decide), hindices, walk_absent habsent] at hresolve
    cases hresolve

/-- A window over the active tables is an anchor. -/
theorem of_window (h : Window s.mem s.cr3 s.cr3) : Anchored s := Or.inl h.enters

/-- The anchor survives when an entry that is not present is written. -/
theorem fill (h : Window s.mem s.cr3 s.cr3) (hcr3 : s'.cr3 = s.cr3) {frame : ℕ} {i : Index}
    {e : PageEntry} (habsent : (s.mem frame i).isPresent = false)
    (hmem : s'.mem = s.mem.set frame i e) : Anchored s' := by
  left
  rw [hcr3, hmem]
  exact link_set_vacant (PageEntry.child_eq_none habsent) e h.enters

/-- The anchor survives when an entry is cleared. -/
theorem clear (h : Anchored s) (hcr3 : s'.cr3 = s.cr3) {frame : ℕ} {i : Index}
    (hmem : s'.mem = s.mem.set frame i .cleared) : Anchored s' := by
  unfold Anchored
  rw [hcr3, hmem]
  by_cases hslot : s.cr3 = frame ∧ recursiveSlot = i
  · obtain ⟨rfl, rfl⟩ := hslot
    right
    rw [Memory.set_self, PageEntry.isPresent_cleared]
  · rw [link, Memory.set_of_ne _ _ (not_and_or.mp hslot), ← link]
    exact h

variable [FrameAllocator α] {source : FrameSource α}

omit [FrameAllocator α] in
/-- A search of the level-4 table only returns when the table can be reached. -/
theorem window_of_search (h : Anchored s) {found : Option Index}
    (hfind : findFreeEntryIndex level4PageTable s = .ok found s') :
    Window s.mem s.cr3 s.cr3 := by
  cases hlist : (List.finRange 512).tail with
  | nil =>
    have hlength := congrArg List.length hlist
    rw [List.length_tail, List.length_finRange] at hlength
    cases hlength
  | cons i rest =>
    rw [findFreeEntryIndex, findFreeEntryIndexWith, hlist] at hfind
    obtain ⟨e, s₂, hread, -⟩ := bind_eq_ok.mp hfind
    obtain ⟨frame, hresolve, -⟩ := readEntry_returned hread
    exact h.window hresolve

/-- `find_empty_pages` only returns when the level-4 table can be reached. -/
theorem window_of_find (h : Anchored s) {count : ℕ} {r : Option Page}
    (hrun : findEmptyPages count s = .ok r s') : Window s.mem s.cr3 s.cr3 := by
  obtain ⟨found, s₁, hfind, -⟩ := bind_eq_ok.mp hrun
  exact h.window_of_search hfind

/-- `map` only returns when the level-4 table can be reached. -/
theorem window_of_create (h : Anchored s) {path : List Index} {r : Option ℕ} (hpath : path ≠ [])
    (hrun : createAlong level4PageTable path s = .ok r s') : Window s.mem s.cr3 s.cr3 := by
  obtain ⟨i, rest, rfl⟩ := List.exists_cons_of_ne_nil hpath
  obtain ⟨next, s₁, hcreate, -⟩ := bind_eq_ok.mp hrun
  obtain ⟨found, s₂, hlookup, -⟩ := bind_eq_ok.mp hcreate
  obtain ⟨⟨frame, hresolve⟩, -⟩ := nextLevelTableMut_returned hlookup
  exact h.window hresolve

/-- A search keeps the anchor. -/
theorem findEmptyPages (h : Anchored s) (hserves : source.Serves s.allocator (visited s.mem s.cr3))
    {count : ℕ} {r : Option Page} (hrun : ActivePageTable.findEmptyPages count s = .ok r s') :
    Anchored s' := by
  have hsupplied := (h.window_of_find hrun).supplied hserves
  rw [findEmptyPages_eq_searchFrom] at hrun
  obtain ⟨⟨used, h'⟩, hcr3⟩ := hsupplied.searchFrom_returned (Nat.le_refl 3) descend_nil hrun
  exact of_window (h'.window_of_cr3 hcr3)

/-- `map` keeps the anchor. -/
theorem map (h : Anchored s) (hserves : source.Serves s.allocator (visited s.mem s.cr3))
    {page : Page} {frame : Frame} {r : Except TableError Unit}
    (hrun : ActivePageTable.map page frame s = .ok r s') : Anchored s' := by
  obtain ⟨table, s₁, hcreate, hleaf⟩ := map_created hrun
  have hsupplied := (h.window_of_create (by simp [tablePath]) hcreate).supplied hserves
  have hlen : ([] ++ tablePath (page.number * 4096)).length ≤ 3 := Nat.le_refl 3
  obtain ⟨⟨used, h₁⟩, hcr3₁⟩ := hsupplied.createAlong_returned descend_nil hlen hcreate
  have hwindow := h₁.window_of_cr3 hcr3₁
  obtain ⟨hcr3, hmem | ⟨frame, e, habsent, hmem⟩⟩ := mapLeaf_returned hleaf
  · rw [← hmem, ← hcr3] at hwindow
    exact of_window hwindow
  · exact fill hwindow hcr3 habsent hmem

/-- `unmap` keeps the anchor. -/
theorem unmap (h : Anchored s) {page : Page} {r : Except TableError Unit}
    (hrun : ActivePageTable.unmap page s = .ok r s') : Anchored s' := by
  obtain ⟨hcr3, hmem | ⟨frame, i, hmem⟩⟩ := unmap_cleared hrun
  · unfold Anchored
    rw [hcr3, hmem]
    exact h
  · exact h.clear hcr3 hmem

/-- `auto_continuous_map` keeps the anchor. -/
theorem autoContinuousMap (h : Anchored s)
    (hserves : source.Serves s.allocator (visited s.mem s.cr3)) {frame : Frame}
    {r : Option (ℕ × ℕ)} (hrun : ActivePageTable.autoContinuousMap frame s = .ok r s') :
    Anchored s' := by
  obtain ⟨-, ⟨-, hfind⟩ | ⟨page, s₁, hfind, hmaps, -⟩⟩ := autoContinuousMap_returned hrun
  · exact h.findEmptyPages hserves hfind
  · have hsupplied := (h.window_of_find hfind).supplied hserves
    obtain ⟨i4, rfl, hle, hpages⟩ := hsupplied.findEmptyPages_some Nat.one_le_two_pow hfind
    obtain ⟨table, hleaf, -, hbare⟩ := hpages.bareLeaf subset_rfl
    obtain ⟨hleaf', hcr3, -⟩ :=
      hleaf.mapAll_block_returned (fun i => hbare.absent) Nat.one_le_two_pow hle hmaps
    have hwindow := hleaf'.window
    rw [← hpages.cr3, ← hcr3] at hwindow
    exact of_window hwindow

end Anchored

variable [FrameAllocator α] {source : FrameSource α} {s₀ s s' : Machine α}

/-- Every state that calls reach from the boot tables is anchored. -/
theorem PagingRun.anchored (hrun : PagingRun source s₀ s) (hboot : BootTables s₀) :
    Anchored s := by
  induction hrun with
  | start =>
    have hwindow := hboot.window
    rw [← hboot.cr3] at hwindow
    exact .of_window hwindow
  | @call s s' call _ hserves hcall ih =>
    cases call with
    | findEmptyPages count =>
      obtain ⟨r, s₁, hfind, hpure⟩ := bind_eq_ok.mp hcall
      obtain ⟨-, rfl⟩ := EStateM.Result.ok.inj hpure
      exact ih.findEmptyPages hserves hfind
    | map page frame =>
      obtain ⟨r, s₁, hmap, hpure⟩ := bind_eq_ok.mp hcall
      obtain ⟨-, rfl⟩ := EStateM.Result.ok.inj hpure
      exact ih.map hserves hmap
    | unmap page =>
      obtain ⟨r, s₁, hunmap, hpure⟩ := bind_eq_ok.mp hcall
      obtain ⟨-, rfl⟩ := EStateM.Result.ok.inj hpure
      exact ih.unmap hunmap
    | autoContinuousMap frame =>
      obtain ⟨r, s₁, hmaps, hpure⟩ := bind_eq_ok.mp hcall
      obtain ⟨-, rfl⟩ := EStateM.Result.ok.inj hpure
      exact ih.autoContinuousMap hserves hmaps

/-- After any calls, a search that returns pages keeps all that is promised about them exactly
when an entry of the lower half of the level-4 table, from the entry 1 on, is not present. -/
theorem findEmptyPages_sound_iff {count : ℕ} {page : Page} (hboot : BootTables s₀)
    (hrun : PagingRun source s₀ s) (hserves : source.Serves s.allocator (visited s.mem s.cr3))
    (hcount : 1 ≤ count) (hfind : findEmptyPages count s = .ok (some page) s') :
    SoundPages count s page s' ↔
      ∃ i : Index, 1 ≤ i.val ∧ i.val < 256 ∧ (s.mem s.cr3 i).isPresent = false :=
  ((hrun.anchored hboot).window_of_find hfind).findEmptyPages_sound hserves hcount hfind

/-- One search on the boot tables keeps what is promised. -/
theorem findEmptyPages_sound_boot :
    ∃ s', findEmptyPages 1 bootMachine = .ok (some (foundPage 1)) s' ∧
      SoundPages 1 bootMachine (foundPage 1) s' := by
  have hwindow : Window bootMachine.mem bootMachine.cr3 bootMachine.cr3 :=
    bootMachine_tables.window
  have hserves : FramePool.source.Serves bootMachine.allocator
      (visited bootMachine.mem bootMachine.cr3) :=
    FramePool.serves_mono bootMachine_tables.visited_subset bootMachine_serves
  have hfirst : firstVacant bootMachine.mem bootMachine.cr3 = some 1 :=
    bootMachine_tables.firstVacant_eq
  obtain ⟨s', hfind, -⟩ := (hwindow.supplied hserves).findEmptyPages_runs (le_refl 1) (by decide)
    hfirst (by decide) (FramePool.lasts (by decide))
  exact ⟨s', hfind, (findEmptyPages_sound_iff bootMachine_tables .start hserves (le_refl 1)
    hfind).mpr ⟨1, by decide, by decide, by decide⟩⟩

/-- The entries of the level-4 table up to `n` are in use, and those behind it are as the boot
code left them. -/
structure Consumed (n : ℕ) (s : Machine FramePool) : Prop where
  /-- The window shows the tables. -/
  window : Window s.mem s.cr3 s.cr3
  /-- The active table. -/
  cr3 : s.cr3 = 1
  /-- The entries in use. -/
  taken : ∀ i : Index, 1 ≤ i.val → i.val ≤ n → (s.mem 1 i).isPresent = true
  /-- The entries behind them. -/
  kept : ∀ i : Index, n < i.val → s.mem 1 i = bootLevel4 i
  /-- The allocator hands out no frame that a page walk can read. -/
  serves : FramePool.source.Serves s.allocator (visited s.mem s.cr3)
  /-- Each search took three frames. -/
  frames : s.allocator.frames.length + 3 * n = 768

namespace Consumed

variable {n : ℕ} {s : Machine FramePool}

/-- A search takes the first entry that is not present. -/
theorem find (h : Consumed n s) {i : Index} (hn : n < 256) (hfirst : FirstFree (s.mem 1) i)
    (hcleared : s.mem 1 i = .cleared) :
    ∃ s', findEmptyPages 1 s = .ok (some (foundPage i)) s' ∧
      SearchedPages FramePool.source (visited s.mem s.cr3) s.cr3 i s s' := by
  have hfound : firstVacant s.mem s.cr3 = some i := by
    rw [h.cr3, firstVacant]
    exact find_eq_some_iff.mpr hfirst
  have hsmall : (s.mem s.cr3 i).isHuge = false := by
    rw [h.cr3, hcleared, PageEntry.isHuge_cleared]
  have hframes := h.frames
  exact (h.window.supplied h.serves).findEmptyPages_runs (le_refl 1) (by decide) hfound hsmall
    (FramePool.lasts (by omega))

/-- A search in the lower half uses one more entry. -/
theorem succ (h : Consumed n s) (hn : n < 255) :
    ∃ s', findEmptyPages 1 s = .ok (some (foundPage ⟨n + 1, by omega⟩)) s' ∧
      Consumed (n + 1) s' := by
  have hcleared : s.mem 1 ⟨n + 1, by omega⟩ = .cleared := by
    rw [h.kept _ (Nat.lt_succ_self n), bootLevel4, if_neg, if_neg]
    · exact ne_recursiveSlot (Nat.succ_lt_succ (by omega))
    · intro hkernel
      have hval : n + 1 = 256 := congrArg Fin.val hkernel
      omega
  have hfirst : FirstFree (s.mem 1) ⟨n + 1, by omega⟩ := by
    refine ⟨Nat.succ_pos n, by rw [hcleared, PageEntry.isPresent_cleared], fun j hj hlt => ?_⟩
    exact h.taken j hj (Nat.lt_succ_iff.mp hlt)
  obtain ⟨s', hfind, hpages⟩ := h.find (by omega) hfirst hcleared
  obtain ⟨used', hsupplied⟩ := hpages.supplied
  obtain ⟨table, hleaf, -⟩ := hpages.bareLeaf subset_rfl
  have hgraft := hpages.grafted
  rw [h.cr3] at hgraft
  have hroot : 1 ∈ visited s.mem 1 := root_mem_nodes
  refine ⟨s', hfind, hsupplied.window_of_cr3 hpages.cr3, hpages.cr3.trans h.cr3, ?_, ?_, ?_, ?_⟩
  · intro i hpos hle
    by_cases hlt : i.val ≤ n
    · have hpresent := h.taken i hpos hlt
      rw [hgraft.kept hroot hpresent, hpresent]
    · have hlast : (⟨n + 1, by omega⟩ : Index) = i := Fin.ext (show n + 1 = i.val by omega)
      obtain ⟨child, hlink, -⟩ := Option.bind_eq_some_iff.mp hleaf.reached
      rw [h.cr3, hlast] at hlink
      exact (PageEntry.child_eq_some.mp hlink).1
  · intro i hlt
    rw [← h.kept i (by omega)]
    apply hgraft.entry_eq hroot
    right
    intro hhead
    have hval : n + 1 = i.val := congrArg Fin.val (Option.some.inj hhead)
    omega
  · rw [hpages.cr3]
    exact FramePool.serves_mono hsupplied.inside hsupplied.serves
  · have hframes := h.frames
    have hlength := FramePool.length_of_drawn hpages.drawn
    omega

/-- When the lower half is used up, a search takes the entry after the one of the kernel. -/
theorem upper (h : Consumed 255 s) :
    ∃ s', findEmptyPages 1 s = .ok (some (foundPage 257)) s' := by
  have hcleared : s.mem 1 257 = .cleared := by
    rw [h.kept 257 (by decide)]
    decide
  have hfirst : FirstFree (s.mem 1) 257 := by
    refine ⟨by decide, by rw [hcleared, PageEntry.isPresent_cleared], fun j hj hlt => ?_⟩
    by_cases hle : j.val ≤ 255
    · exact h.taken j hj hle
    · have hlt : j.val < 257 := hlt
      obtain rfl : j = 256 := Fin.ext (by show j.val = 256; omega)
      rw [h.kept 256 (by decide)]
      decide
  obtain ⟨s', hfind, -⟩ := h.find (by decide) hfirst hcleared
  exact ⟨s', hfind⟩

end Consumed

/-- The boot tables with 768 free frames. -/
def fullMachine : Machine FramePool := { bootMachine with allocator := ⟨List.range' 16 768⟩ }

/-- The machine runs on the boot tables. -/
theorem fullMachine_tables : BootTables fullMachine := ⟨rfl, rfl, rfl⟩

/-- Searches use up the lower half of the level-4 table. -/
theorem consumed_runs {n : ℕ} (hn : n ≤ 255) :
    ∃ s, PagingRun FramePool.source fullMachine s ∧ Consumed n s := by
  induction n with
  | zero =>
    refine ⟨fullMachine, .start, fullMachine_tables.window, rfl, ?_, ?_, ?_, ?_⟩
    · intro i hpos hle
      omega
    · intro i _
      rfl
    · apply FramePool.serves_mono fullMachine_tables.visited_subset
      refine ⟨List.nodup_range', fun frame hframe => ?_⟩
      obtain ⟨hle, hlt⟩ := List.mem_range'_1.mp hframe
      simp only [Set.mem_insert_iff, Set.mem_singleton_iff]
      omega
    · rw [fullMachine, List.length_range']
  | succ n ih =>
    obtain ⟨s, hrun, hconsumed⟩ := ih (by omega)
    obtain ⟨s', hfind, hconsumed'⟩ := hconsumed.succ (by omega)
    have hcall : (PagingCall.findEmptyPages 1).run s = .ok () s' := bind_ok hfind
    exact ⟨s', .call hrun hconsumed.serves hcall, hconsumed'⟩

/-- After 255 searches the next one returns a page whose address is not canonical. -/
theorem not_findEmptyPages_sound :
    ¬∀ (s₀ s s' : Machine FramePool) (count : ℕ) (page : Page), BootTables s₀ →
      PagingRun FramePool.source s₀ s →
      FramePool.source.Serves s.allocator (visited s.mem s.cr3) → 1 ≤ count →
      findEmptyPages count s = .ok (some page) s' → SoundPages count s page s' := by
  intro hclaim
  obtain ⟨s, hrun, hconsumed⟩ := consumed_runs (le_refl 255)
  obtain ⟨s', hfind⟩ := hconsumed.upper
  have hsound := hclaim fullMachine s s' 1 (foundPage 257) fullMachine_tables hrun
    hconsumed.serves (le_refl 1) hfind
  exact absurd ((canonical_foundPage_iff 257).mp hsound.canonical.2) (by decide)

end Axel
