import Axel.Paging.MapSemantics

/-!
# Pages of one level-1 table

When all tables of a page exist, a call of `map` finds them and works on one entry of the
level-1 table. This needs neither the allocator nor any assumption on the other tables, and it
holds for paths with recursive slots as well.
-/

namespace Axel

open Descent Table ActivePageTable

variable {α : Type}

/-- The window shows the tables below a root, and a path of three indices, recursive slots
included, leads to a table. -/
structure LeafTable (mem : Memory) (cr3 root : ℕ) (path : List Index) (table : ℕ) : Prop where
  /-- The window shows the tables. -/
  window : Window mem cr3 root
  /-- The path leads to the table. -/
  reached : descend (link mem) root path = some table

/-- Filling an entry that is not present keeps the table reachable. -/
theorem LeafTable.fill {mem : Memory} {cr3 root table : ℕ} {path : List Index}
    (h : LeafTable mem cr3 root path table) {f : ℕ} {i : Index}
    (habsent : (mem f i).isPresent = false)
    (e : PageEntry) : LeafTable (mem.set f i e) cr3 root path table := by
  have hmono : ∀ g j child, link mem g j = some child → link (mem.set f i e) g j = some child :=
    fun g j child hlink => link_set_vacant (PageEntry.child_eq_none habsent) e hlink
  exact ⟨h.window.mono hmono, descend_mono hmono h.reached⟩

section Existing

variable [FrameAllocator α] {s : Machine α} {root table : ℕ}

/-- Creating tables that exist along a path finds them. -/
theorem Window.createAlong_existing (h : Window s.mem s.cr3 root) (front rest : List Index)
    (hlen : (front ++ rest).length ≤ 3)
    (htable : descend (link s.mem) root (front ++ rest) = some table) :
    ∃ s', createAlong (windowPtr front) rest s = .ok (some (windowPtr (front ++ rest))) s' ∧
      s'.mem = s.mem ∧ s'.cr3 = s.cr3 ∧ s'.allocator = s.allocator := by
  induction rest generalizing s front with
  | nil => exact ⟨s, by rw [List.append_nil]; rfl, rfl, rfl, rfl⟩
  | cons i rest ih =>
    have hsplit : front ++ i :: rest = front ++ [i] ++ rest := by simp
    rw [hsplit] at hlen htable ⊢
    have hshort : front.length ≤ 2 := by
      simp only [List.length_append, List.length_singleton] at hlen
      omega
    have hlink : ∃ node child, descend (link s.mem) root front = some node ∧
        link s.mem node i = some child := by
      rw [descend_append] at htable
      obtain ⟨child, hchild, -⟩ := Option.bind_eq_some_iff.mp htable
      rw [descend_append] at hchild
      obtain ⟨node, hnode, hlink⟩ := Option.bind_eq_some_iff.mp hchild
      rw [descend_singleton] at hlink
      exact ⟨node, child, hnode, hlink⟩
    obtain ⟨node, child, hnode, hlink⟩ := hlink
    obtain ⟨s₁, hrun, hreach⟩ := create_existing h hnode hshort hlink
    have h₁ : Window s₁.mem s₁.cr3 root := by
      rw [hreach.mem, hreach.cr3]
      exact h
    obtain ⟨s', hrun', hmem, hcr3, hallocator⟩ :=
      ih h₁ (front ++ [i]) hlen (by rw [hreach.mem]; exact htable)
    refine ⟨s', ?_, hmem.trans hreach.mem, hcr3.trans hreach.cr3,
      hallocator.trans hreach.allocator⟩
    rw [createAlong, bind_ok hrun]
    exact hrun'

omit [FrameAllocator α] in
/-- What `map` does after its tables were found or created. -/
theorem LeafTable.mapLeaf_spec {path : List Index} (h : LeafTable s.mem s.cr3 root path table)
    (hlen : path.length = 3) (i : Index) {n : ℕ} (hn : n < 2 ^ 36) :
    ((s.mem table i).isPresent = true ∧
      ∃ s', mapLeaf (some (windowPtr path)) i (n * 4096) s = .ok (.error .alreadyMapped) s' ∧
        s'.mem = s.mem ∧ s'.cr3 = s.cr3) ∨
    (s.mem table i).isPresent = false ∧
      ∃ s', mapLeaf (some (windowPtr path)) i (n * 4096) s = .ok (.ok ()) s' ∧
        s'.mem = s.mem.set table i ((s.mem table i).withFrame n) ∧ s'.cr3 = s.cr3 ∧
        s'.allocator = s.allocator := by
  have hresolve := h.window.resolve hlen.le h.reached
  obtain ⟨s₁, hread, hreach⟩ := readEntry_spec hresolve i
  cases hpresent : (s.mem table i).isPresent with
  | true =>
    refine Or.inl ⟨rfl, s₁, ?_, hreach.mem, hreach.cr3⟩
    rw [mapLeaf, bind_ok hread]
    simp [hpresent]
  | false =>
    obtain ⟨s₂, hset, hreach₂⟩ := setEntryFrameAddr_spec
      ((resolve_congr hreach.mem hreach.cr3 _).trans hresolve) i hn
    rw [hreach.mem] at hreach₂
    refine Or.inr ⟨rfl, s₂, ?_, hreach₂.mem, hreach₂.cr3.trans hreach.cr3,
      hreach₂.allocator.trans hreach.allocator⟩
    rw [mapLeaf, bind_ok hread]
    simp [hpresent, bind_ok hset]

/-- The page of a call lies in a level-1 table, its numbers fit, and its entry is not present. -/
structure Fillable (mem : Memory) (path : List Index) (table : ℕ) (call : Page × Frame) : Prop where
  /-- The number of the page. -/
  page : call.1.number < 2 ^ 52
  /-- The number of the frame. -/
  frame : call.2.number < 2 ^ 36
  /-- The path of the page. -/
  path_eq : tablePath (call.1.number * 4096) = path
  /-- The entry of the page. -/
  absent : (mem table (level1Index (call.1.number * 4096))).isPresent = false

/-- What `map` does with a page, after its tables were found or created. -/
theorem LeafTable.map_spec {s₁ : Machine α} {page : Page} {frame : Frame}
    (h : LeafTable s₁.mem s₁.cr3 root (tablePath (page.number * 4096)) table)
    (hcreate : createAlong level4PageTable (tablePath (page.number * 4096)) s =
      .ok (some (windowPtr (tablePath (page.number * 4096)))) s₁)
    (hpage : page.number < 2 ^ 52) (hframe : frame.number < 2 ^ 36) :
    ((s₁.mem table (level1Index (page.number * 4096))).isPresent = true ∧
      ∃ s', map page frame s = .ok (.error .alreadyMapped) s' ∧ s'.mem = s₁.mem ∧
        s'.cr3 = s₁.cr3) ∨
    (s₁.mem table (level1Index (page.number * 4096))).isPresent = false ∧
      ∃ s', map page frame s = .ok (.ok ()) s' ∧
        s'.mem = s₁.mem.set table (level1Index (page.number * 4096))
          ((s₁.mem table (level1Index (page.number * 4096))).withFrame frame.number) ∧
        s'.cr3 = s₁.cr3 ∧ s'.allocator = s₁.allocator := by
  rw [map_run hpage (hframe.trans (by decide)) hcreate]
  exact h.mapLeaf_spec rfl (level1Index (page.number * 4096)) hframe

/-- Mapping a page of a level-1 table, after its tables were found or created, fills its entry. -/
theorem LeafTable.map_fills {s₁ : Machine α} {path : List Index} {call : Page × Frame}
    (h : LeafTable s₁.mem s₁.cr3 root path table)
    (hcreate : createAlong level4PageTable path s = .ok (some (windowPtr path)) s₁)
    (hfill : Fillable s₁.mem path table call) :
    ∃ s', map call.1 call.2 s = .ok (.ok ()) s' ∧ LeafTable s'.mem s'.cr3 root path table ∧
      s'.mem = s₁.mem.set table (level1Index (call.1.number * 4096))
        ((s₁.mem table (level1Index (call.1.number * 4096))).withFrame call.2.number) ∧
      s'.cr3 = s₁.cr3 ∧ s'.allocator = s₁.allocator := by
  obtain ⟨hpage, hframe, rfl, habsent⟩ := hfill
  rcases h.map_spec hcreate hpage hframe with ⟨hpresent, -⟩ | ⟨-, s', hmap, hmem, hcr3, hallocator⟩
  · rw [habsent] at hpresent
    cases hpresent
  · refine ⟨s', hmap, ?_, hmem, hcr3, hallocator⟩
    rw [hmem, hcr3]
    exact h.fill habsent _

/-- The entries of other pages can still be filled. -/
theorem Fillable.set {mem : Memory} {path : List Index} {other : Page × Frame} {i : Index}
    (h : Fillable mem path table other) (hne : level1Index (other.1.number * 4096) ≠ i)
    (e : PageEntry) : Fillable (mem.set table i e) path table other :=
  ⟨h.page, h.frame, h.path_eq, by rw [Memory.set_of_ne _ _ (Or.inr hne), h.absent]⟩

end Existing

end Axel
