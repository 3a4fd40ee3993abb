import Axel.Paging.LeafTable

/-!
# Creating tables in an arbitrary state

The creation of tables without any assumption on the shape of the tables that exist: a frame
may be a table at several places, also through entries 511. It is enough that the window shows
the tables of the root, and that the allocator hands out no frame that a page walk can visit.
-/

namespace Axel

open Descent Table ActivePageTable

variable {α : Type}

/-- The frames that a page walk can read, the recursive slots included. -/
abbrev visited (mem : Memory) (root : ℕ) : Set ℕ := nodes (link mem) (fun _ => True) 3 root

/-- The frame at the end of any short path can be read. -/
theorem mem_visited {mem : Memory} {root table : ℕ} {path : List Index} (hlen : path.length ≤ 3)
    (htable : descend (link mem) root path = some table) : table ∈ visited mem root :=
  mem_nodes ⟨hlen, fun _ _ => trivial⟩ htable

/-- Tables can be read. -/
theorem tables_subset_visited (mem : Memory) (root : ℕ) : tables mem root ⊆ visited mem root := by
  rintro table ⟨path, hpath, htable⟩
  exact mem_visited hpath.1 htable

/-- Linking a fresh table adds at most this table to the frames that a page walk can read. -/
theorem linkTable_visited {mem : Memory} {root table child : ℕ} {i : Index}
    (hchild : child < 2 ^ 36) (hfresh : child ∉ visited mem root)
    (hsmall : (mem table i).isHuge = false) :
    visited (linkTable mem table i child) root ⊆ insert child (visited mem root) := by
  apply nodes_subset_insert
  · intro node hnode j reached _ hstep
    have hne : node ≠ child := by
      rintro rfl
      exact hfresh hnode
    by_cases hhere : node = table ∧ j = i
    · obtain ⟨rfl, rfl⟩ := hhere
      rw [link, linkTable_entry hne, PageEntry.child_withFrame hchild hsmall] at hstep
      exact Or.inl (Option.some.inj hstep).symm
    · rw [link, linkTable_of_ne hne j (not_and_or.mp hhere)] at hstep
      exact Or.inr hstep
  · intro j reached _ hstep
    rw [link, linkTable_child] at hstep
    split at hstep
    case isTrue =>
      rw [PageEntry.child_selfEntry hchild] at hstep
      exact (Option.some.inj hstep).symm
    case isFalse =>
      rw [PageEntry.child_eq_none PageEntry.isPresent_cleared] at hstep
      cases hstep

/-- A path stays when the present entries of all frames that a page walk can read are kept. -/
theorem descend_kept {mem mem' : Memory} {root node : ℕ} {used : Set ℕ} {path : List Index}
    (hinside : visited mem root ⊆ used)
    (hkept : ∀ f ∈ used, ∀ j, (mem f j).isPresent = true → mem' f j = mem f j)
    (hlen : path.length ≤ 4) (hnode : descend (link mem) root path = some node) :
    descend (link mem') root path = some node := by
  rw [← hnode]
  apply descend_congr
  intro before j after parent hsplit hparent
  have hlength := congrArg List.length hsplit
  rw [List.length_append, List.length_cons] at hlength
  rw [hsplit, descend_append, hparent, Option.bind_some] at hnode
  obtain ⟨child, hchild, -⟩ := Option.bind_eq_some_iff.mp hnode
  rw [link, hkept parent (hinside (mem_visited (by omega) hparent)) j
    (PageEntry.child_eq_some.mp hchild).1, ← link]

/-- A table that is empty apart from the entry for itself. -/
def BareTable (mem : Memory) (table : ℕ) : Prop :=
  ∀ j, mem table j = if j = recursiveSlot then .selfEntry table else .cleared

/-- The other entries of a bare table are not present. -/
theorem BareTable.absent {mem : Memory} {table : ℕ} (h : BareTable mem table) {i : Index}
    (hi : i ≠ recursiveSlot) : (mem table i).isPresent = false := by
  rw [h, if_neg hi, PageEntry.isPresent_cleared]

/-- The window shows the tables of a root, and the allocator hands out no frame of a set that
contains every frame a page walk can read. -/
structure Supplied [FrameAllocator α] (source : FrameSource α) (used : Set ℕ) (root : ℕ)
    (s : Machine α) : Prop where
  /-- The window shows the tables. -/
  window : Window s.mem s.cr3 root
  /-- The table in CR3 is in use. -/
  active : s.cr3 ∈ used
  /-- The frames that a page walk can read are in use. -/
  inside : visited s.mem root ⊆ used
  /-- The allocator hands out no frame in use. -/
  serves : source.Serves s.allocator used

section Create

variable [FrameAllocator α] {source : FrameSource α} {used : Set ℕ} {root table : ℕ}
  {s s' : Machine α} {front : List Index}

/-- The window of the active table shows its tables. -/
theorem Window.supplied (h : Window s.mem s.cr3 s.cr3)
    (hserves : source.Serves s.allocator (visited s.mem s.cr3)) :
    Supplied source (visited s.mem s.cr3) s.cr3 s :=
  ⟨h, root_mem_nodes, subset_rfl, hserves⟩

/-- A run that changes neither the memory nor what is in use. -/
theorem Supplied.of_mem (h : Supplied source used root s) (hmem : s'.mem = s.mem)
    (hcr3 : s'.cr3 = s.cr3) (hserves : source.Serves s'.allocator used) :
    Supplied source used root s' :=
  ⟨by rw [hmem, hcr3]; exact h.window, by rw [hcr3]; exact h.active,
    by rw [hmem]; exact h.inside, hserves⟩

/-- What the entry of a table at the end of a path looks like after a fresh table was linked
into it, and how the machine got there. -/
structure LinkedAt (source : FrameSource α) (used : Set ℕ) (root table : ℕ) (i : Index)
    (child : ℕ) (s s' : Machine α) : Prop where
  /-- The entry was not present. -/
  absent : (s.mem table i).isPresent = false
  /-- The entry did not have the page-size bit. -/
  small : (s.mem table i).isHuge = false
  /-- The frame of the new table fits into an entry. -/
  fits : child < 2 ^ 36
  /-- The frame of the new table was not in use. -/
  unused : child ∉ used
  /-- The new table is empty and linked. -/
  mem : s'.mem = linkTable s.mem table i child
  /-- The active table is the same. -/
  cr3 : s'.cr3 = s.cr3
  /-- One frame was taken. -/
  taken : ∃ frame, FrameAllocator.allocOne s.allocator = .ok (some frame, s'.allocator)
  /-- The new table is in use. -/
  supplied : Supplied source (insert child used) root s'

/-- A table that was linked after a run that only reads. -/
theorem LinkedAt.of_mem {s₁ : Machine α} {i : Index} {child : ℕ}
    (h : LinkedAt source used root table i child s₁ s') (hmem : s₁.mem = s.mem)
    (hcr3 : s₁.cr3 = s.cr3) (hallocator : s₁.allocator = s.allocator) :
    LinkedAt source used root table i child s s' := by
  obtain ⟨habsent, hsmall, hfits, hunused, hlinked, hsame, htaken, hsupplied⟩ := h
  rw [hmem] at habsent hsmall hlinked
  rw [hallocator] at htaken
  exact ⟨habsent, hsmall, hfits, hunused, hlinked, hsame.trans hcr3, htaken, hsupplied⟩

/-- Linking a fresh table into a vacant entry at the end of a path. -/
theorem Supplied.create_linked (h : Supplied source used root s)
    (htable : descend (link s.mem) root front = some table) (hlen : front.length ≤ 2) {i : Index}
    (hvacant : link s.mem table i = none) (hhuge : (s.mem table i).isHuge = false) {a : α}
    {frame : Frame} (halloc : FrameAllocator.allocOne s.allocator = .ok (some frame, a))
    (hfresh : frame.number ∉ used) (hlt : frame.number < 2 ^ 36)
    (hserves : source.Serves a (insert frame.number used)) :
    ∃ s', nextLevelTableCreateMut (windowPtr front) i s =
        .ok (some (windowPtr (front ++ [i]))) s' ∧
      LinkedAt source used root table i frame.number s s' := by
  have hoff : OffPath s.mem s.cr3 root front frame.number := by
    constructor
    · exact fun hsame => hfresh (hsame ▸ h.active)
    · rintro before after node hsplit hnode rfl
      have hlength := congrArg List.length hsplit
      rw [List.length_append] at hlength
      exact hfresh (h.inside (mem_visited (by omega) hnode))
  obtain ⟨s', hrun, hreach⟩ :=
    Axel.create_linked h.window htable hlen hvacant hhuge halloc hlt hoff
  have habsent := PageEntry.isPresent_of_child_eq_none hvacant hhuge
  have hvisited : frame.number ∉ visited s.mem root := fun hin => hfresh (h.inside hin)
  have hslot : ∀ f ∈ used, link s.mem f recursiveSlot = some root →
      link s'.mem f recursiveSlot = some root := by
    intro f hf hself
    have hne : f ≠ frame.number := by
      rintro rfl
      exact hfresh hf
    rw [link, hreach.mem, linkTable_of_ne hne, ← link, hself]
    by_contra hsame
    obtain ⟨rfl, rfl⟩ : f = table ∧ recursiveSlot = i := by simpa [not_or] using hsame
    rw [hvacant] at hself
    cases hself
  refine ⟨s', hrun, habsent, hhuge, hlt, hfresh, hreach.mem, hreach.cr3,
    ⟨frame, hreach.allocator ▸ halloc⟩, ⟨?_, ?_, ?_, ?_⟩⟩
  · rw [hreach.cr3]
    exact ⟨hslot _ h.active h.window.enters, hslot _ (h.inside root_mem_nodes) h.window.stays⟩
  · rw [hreach.cr3]
    exact Or.inr h.active
  · rw [hreach.mem]
    exact (linkTable_visited hlt hvisited hhuge).trans (Set.insert_subset_insert h.inside)
  · rw [hreach.allocator]
    exact hserves

/-- Everything `next_level_table_create_mut` can do at the end of a path. -/
theorem Supplied.create_cases (h : Supplied source used root s)
    (htable : descend (link s.mem) root front = some table) (hlen : front.length ≤ 2) (i : Index) :
    (∃ child s', link s.mem table i = some child ∧
      nextLevelTableCreateMut (windowPtr front) i s =
        .ok (some (windowPtr (front ++ [i]))) s' ∧
      s'.mem = s.mem ∧ s'.cr3 = s.cr3 ∧ s'.allocator = s.allocator) ∨
    link s.mem table i = none ∧
      ((∃ s', nextLevelTableCreateMut (windowPtr front) i s = .ok none s' ∧ s'.mem = s.mem ∧
        s'.cr3 = s.cr3 ∧ FrameAllocator.allocOne s.allocator = .ok (none, s'.allocator) ∧
        Supplied source used root s') ∨
      ((s.mem table i).isHuge = true ∧
        (∃ frame a, FrameAllocator.allocOne s.allocator = .ok (some frame, a)) ∧
        ∃ s', nextLevelTableCreateMut (windowPtr front) i s = .error .debugAssert s') ∨
      ∃ s' child, nextLevelTableCreateMut (windowPtr front) i s =
          .ok (some (windowPtr (front ++ [i]))) s' ∧
        LinkedAt source used root table i child s s') := by
  cases hlink : link s.mem table i with
  | some child =>
    obtain ⟨s', hrun, hreach⟩ := create_existing h.window htable hlen hlink
    exact Or.inl ⟨child, s', rfl, hrun, hreach.mem, hreach.cr3, hreach.allocator⟩
  | none =>
    right
    refine ⟨rfl, ?_⟩
    rcases source.allocOne h.serves with ⟨a, halloc, hserves⟩ |
      ⟨frame, a, halloc, hfresh, hlt, hserves⟩
    · obtain ⟨s', hrun, hreach, -⟩ := create_exhausted h.window htable hlen hlink halloc
      rw [← hreach.allocator] at halloc hserves
      exact Or.inl ⟨s', hrun, hreach.mem, hreach.cr3, halloc,
        h.of_mem hreach.mem hreach.cr3 hserves⟩
    · cases hhuge : (s.mem table i).isHuge with
      | true =>
        exact Or.inr (Or.inl ⟨rfl, ⟨frame, a, halloc⟩,
          create_huge h.window htable hlen hhuge halloc hlt⟩)
      | false =>
        obtain ⟨s', hrun, hlinked⟩ :=
          h.create_linked htable hlen hlink hhuge halloc hfresh hlt hserves
        exact Or.inr (Or.inr ⟨s', frame.number, hrun, hlinked⟩)

end Create

/-- Fresh tables were linked along a list of indices, the first one below a given table and
each other one below the one before. The set holds the frames in use before. -/
inductive Grafted (root : ℕ) : Set ℕ → ℕ → List Index → Memory → Memory → Prop where
  /-- No table was linked. -/
  | nil (used : Set ℕ) (table : ℕ) (mem : Memory) : Grafted root used table [] mem mem
  /-- A fresh table was linked first. -/
  | cons {used : Set ℕ} {mem mem' : Memory} {table child : ℕ} {i : Index} {rest : List Index} :
    table ∈ tables mem root → (mem table i).isPresent = false →
    (mem table i).isHuge = false → child < 2 ^ 36 → child ∉ used →
    Grafted root (insert child used) child rest (linkTable mem table i child) mem' →
    Grafted root used table (i :: rest) mem mem'

/-- Linking a fresh table keeps all frames that a page walk can read in use. -/
theorem linkTable_inside {mem : Memory} {root table child : ℕ} {i : Index} {used : Set ℕ}
    (hinside : visited mem root ⊆ used) (hsmall : (mem table i).isHuge = false)
    (hchild : child < 2 ^ 36) (hunused : child ∉ used) :
    visited (linkTable mem table i child) root ⊆ insert child used :=
  (linkTable_visited hchild (fun hin => hunused (hinside hin)) hsmall).trans
    (Set.insert_subset_insert hinside)

namespace Grafted

variable {root table : ℕ} {used : Set ℕ} {path : List Index} {mem mem' : Memory}

/-- Only one entry of the frames in use changes. -/
theorem entry_eq (h : Grafted root used table path mem mem') {f : ℕ} {j : Index} (hf : f ∈ used)
    (hne : f ≠ table ∨ path.head? ≠ some j) : mem' f j = mem f j := by
  induction h with
  | nil used table mem => rfl
  | @cons used mem mem' table child i rest hparent habsent hsmall hlt hunused _ ih =>
    have hchild : f ≠ child := by
      rintro rfl
      exact hunused hf
    rw [ih (Or.inr hf) (Or.inl hchild), linkTable_of_ne hchild]
    exact hne.imp id fun hhead hsame => hhead (congrArg some hsame.symm)

/-- A present entry of a frame in use is kept. -/
theorem kept (h : Grafted root used table path mem mem') {f : ℕ} {j : Index} (hf : f ∈ used)
    (hpresent : (mem f j).isPresent = true) : mem' f j = mem f j := by
  apply h.entry_eq hf
  cases h with
  | nil => exact Or.inr (by simp)
  | @cons used mem mem' table child i rest _ habsent =>
    by_contra hsame
    obtain ⟨rfl, rfl⟩ : f = table ∧ i = j := by simpa [not_or] using hsame
    rw [hpresent] at habsent
    cases habsent

/-- A page that is mapped is translated as before, whatever indices it has. -/
theorem walk_mapped (h : Grafted root used table path mem mem') {ix : List Index}
    (hread : ∀ before after node, ix = before ++ after → after ≠ [] →
      descend (link mem) root before = some node → node ∈ used)
    {frame : ℕ} (hwalk : walk mem root ix = some frame) : walk mem' root ix = some frame := by
  rw [← hwalk]
  apply walk_congr
  intro before j after node hsplit hnode
  apply h.kept (hread before _ node hsplit (by simp) hnode)
  by_contra habsent
  rw [Bool.not_eq_true] at habsent
  rw [hsplit, walk_append hnode (by simp), walk_absent habsent] at hwalk
  cases hwalk

variable (hinside : visited mem root ⊆ used)
include hinside

/-- The list of indices leads to the last of the new tables. -/
theorem reached (h : Grafted root used table path mem mem') {front : List Index}
    (hpath : TablePath (front ++ path)) (htable : descend (link mem) root front = some table) :
    ∃ last, descend (link mem') root (front ++ path) = some last ∧
      (path ≠ [] → last ∉ used ∧ BareTable mem' last) := by
  induction h generalizing front with
  | nil used table mem =>
    exact ⟨table, by rw [List.append_nil, htable], fun hne => absurd rfl hne⟩
  | @cons used mem mem' table child i rest hparent habsent hsmall hlt hunused hgraft ih =>
    have hfresh : child ∉ tables mem root :=
      fun hin => hunused (hinside (tables_subset_visited mem root hin))
    have hattach := linkTable_attached htable hpath.left (PageEntry.child_eq_none habsent) hsmall
      hlt hfresh
    rw [List.append_cons] at hpath ⊢
    have hchild := hattach.reached hfresh htable hpath.left
    obtain ⟨last, hlast, hempty⟩ := ih (linkTable_inside hinside hsmall hlt hunused) hpath hchild
    refine ⟨last, hlast, fun _ => ?_⟩
    cases hgraft with
    | nil =>
      rw [List.append_nil, hchild] at hlast
      obtain rfl := Option.some.inj hlast
      exact ⟨hunused, fun j => linkTable_child j⟩
    | cons =>
      obtain ⟨hnew, hentries⟩ := hempty (by simp)
      exact ⟨fun hin => hnew (Or.inr hin), hentries⟩

/-- When no path of the table is so long that a new table comes to lie below level 1, no page
is translated in another way. -/
theorem walk_eq (h : Grafted root used table path mem mem')
    (hshort : ∀ front, TablePath front → descend (link mem) root front = some table →
      front.length + path.length ≤ 3)
    {ix : List Index} (hix : Ordinary ix) (hix4 : ix.length = 4) :
    walk mem' root ix = walk mem root ix := by
  induction h with
  | nil used table mem => rfl
  | @cons used mem mem' table child i rest hparent habsent hsmall hlt hunused hgraft ih =>
    obtain ⟨path, hpath, htable⟩ := hparent
    have hfresh : child ∉ tables mem root :=
      fun hin => hunused (hinside (tables_subset_visited mem root hin))
    have hvacant := PageEntry.child_eq_none habsent
    have hattach := linkTable_attached htable hpath hvacant hsmall hlt hfresh
    rw [ih (linkTable_inside hinside hsmall hlt hunused),
      linkTable_walk_of_ne htable hpath hvacant hsmall hlt hfresh hix hix4]
    · rintro front hfront hreach rfl
      have hlength := hshort front hfront hreach
      simp only [List.length_append, List.length_cons, List.length_nil] at hlength hix4
      omega
    · intro front hfront hreach
      rcases (hattach.descend_iff hfresh hfront).mp hreach with hold | ⟨-, front, rfl, hparent⟩
      · exact absurd (mem_nodes hfront hold) hfresh
      · have hlength := hshort front hfront.left hparent
        simp only [List.length_append, List.length_cons, List.length_nil] at hlength ⊢
        omega

/-- When a path to the table is so long that an entry for a new table lies at level 1, a page
that was not mapped is mapped. -/
theorem walk_new (h : Grafted root used table path mem mem') {front before : List Index}
    (hfront : TablePath front) (htable : descend (link mem) root front = some table)
    (hbefore : before <+: path) (hix : Ordinary (front ++ before))
    (hix4 : (front ++ before).length = 4) :
    walk mem root (front ++ before) = none ∧
      ∃ frame, walk mem' root (front ++ before) = some frame := by
  induction h generalizing front before with
  | nil used table mem =>
    rw [List.prefix_nil.mp hbefore, List.append_nil] at hix4
    have hlength := hfront.1
    omega
  | @cons used mem mem' table child i rest hparent habsent hsmall hlt hunused hgraft ih =>
    cases before with
    | nil =>
      rw [List.append_nil] at hix4
      have hlength := hfront.1
      omega
    | cons j before =>
      obtain ⟨rfl, hrest⟩ := List.cons_prefix_cons.mp hbefore
      have hfresh : child ∉ tables mem root :=
        fun hin => hunused (hinside (tables_subset_visited mem root hin))
      have hattach := linkTable_attached htable hfront (PageEntry.child_eq_none habsent) hsmall
        hlt hfresh
      have hkept : ∀ short node, TablePath short → descend (link mem) root short = some node →
          descend (link (linkTable mem table j child)) root short = some node :=
        fun short node hshort hnode => hattach.kept hfresh hshort hnode
      refine ⟨by rw [walk_append htable (by simp), walk_absent habsent], ?_⟩
      cases before with
      | nil =>
        have hne : table ≠ child := by
          rintro rfl
          exact hfresh (mem_nodes hfront htable)
        have hwalk : walk (linkTable mem table j child) root (front ++ [j]) = some child := by
          rw [walk_append (hkept front table hfront htable) (by simp), walk_singleton,
            linkTable_entry hne, PageEntry.isPresent_withFrame, PageEntry.frame_withFrame _ hlt]
          rfl
        refine ⟨child, hgraft.walk_mapped ?_ hwalk⟩
        intro short after node hsplit hafter hnode
        obtain ⟨after, rfl⟩ : ∃ after', front = short ++ after' := by
          rw [← List.dropLast_append_getLast hafter, ← List.append_assoc] at hsplit
          exact ⟨_, (List.append_inj' hsplit rfl).1⟩
        obtain ⟨node', hnode', -⟩ := Option.bind_eq_some_iff.mp (descend_append ▸ htable)
        obtain rfl := Option.some.inj ((hkept short node' hfront.left hnode').symm.trans hnode)
        exact Or.inr (hinside (mem_visited hfront.left.1 hnode'))
      | cons k before =>
        rw [List.append_cons] at hix hix4 ⊢
        have hpath : TablePath (front ++ [j]) := by
          refine ⟨?_, fun slot hslot => hix slot (List.mem_append_left _ hslot)⟩
          simp only [List.length_append, List.length_cons] at hix4 ⊢
          omega
        exact (ih (linkTable_inside hinside hsmall hlt hunused) hpath
          (hattach.reached hfresh htable hpath) hrest hix hix4).2

end Grafted

section Along

/-- Creating tables along a list of indices and then along another one. -/
theorem createAlong_append [FrameAllocator α] {pointer next : ℕ} {front rest : List Index}
    {s s₁ : Machine α} (h : createAlong pointer front s = .ok (some next) s₁) :
    createAlong pointer (front ++ rest) s = createAlong next rest s₁ := by
  induction front generalizing pointer s with
  | nil =>
    obtain ⟨hpointer, rfl⟩ := EStateM.Result.ok.inj h
    rw [Option.some.inj hpointer]
    rfl
  | cons i front ih =>
    obtain ⟨result, s₂, hrun, h⟩ := bind_eq_ok.mp h
    rw [List.cons_append, createAlong, bind_ok hrun]
    cases result with
    | none =>
      obtain ⟨hnone, -⟩ := EStateM.Result.ok.inj h
      cases hnone
    | some pointer' => exact ih h

variable [FrameAllocator α] {source : FrameSource α} {used : Set ℕ} {root table child : ℕ}
  {s s' : Machine α} {front : List Index} {i : Index}

/-- A present entry of a frame in use is kept. -/
theorem LinkedAt.kept (h : LinkedAt source used root table i child s s') {f : ℕ} {j : Index}
    (hf : f ∈ used) (hpresent : (s.mem f j).isPresent = true) : s'.mem f j = s.mem f j := by
  have hne : f ≠ child := by
    rintro rfl
    exact h.unused hf
  rw [h.mem, linkTable_of_ne hne]
  by_contra hsame
  obtain ⟨rfl, rfl⟩ : f = table ∧ j = i := by simpa [not_or] using hsame
  rw [h.absent] at hpresent
  cases hpresent

/-- The new table is found at the end of the longer path. -/
theorem LinkedAt.reached (h : LinkedAt source used root table i child s s')
    (hinside : visited s.mem root ⊆ used) (hlen : front.length ≤ 2)
    (htable : descend (link s.mem) root front = some table) :
    descend (link s'.mem) root (front ++ [i]) = some child := by
  have hne : table ≠ child := by
    rintro rfl
    exact h.unused (hinside (mem_visited (by omega) htable))
  rw [descend_concat (descend_kept hinside (fun f hf j => h.kept hf) (by omega) htable), link,
    h.mem, linkTable_entry hne, PageEntry.child_withFrame h.fits h.small]

/-- The new table is bare. -/
theorem LinkedAt.bare (h : LinkedAt source used root table i child s s') :
    BareTable s'.mem child := by
  intro j
  rw [h.mem, linkTable_child]

/-- Creating tables below an entry that is not present links fresh tables, as many as the
allocator has frames for. -/
theorem Supplied.createAlong_grafts {rest : List Index} (h : Supplied source used root s)
    (hpath : TablePath (front ++ rest)) (htable : descend (link s.mem) root front = some table)
    (hfirst : ∀ i, rest.head? = some i →
      (s.mem table i).isPresent = false ∧ (s.mem table i).isHuge = false) :
    ∃ s' k, k ≤ rest.length ∧ Grafted root used table (rest.take k) s.mem s'.mem ∧
      s'.cr3 = s.cr3 ∧ Window s'.mem s'.cr3 root ∧
      (k = rest.length ∧ Drawn k s.allocator s'.allocator ∧
          createAlong (windowPtr front) rest s = .ok (some (windowPtr (front ++ rest))) s' ∨
        k < rest.length ∧ createAlong (windowPtr front) rest s = .ok none s' ∧
          ∃ a, Drawn k s.allocator a ∧ FrameAllocator.allocOne a = .ok (none, s'.allocator)) := by
  induction rest generalizing s front table used with
  | nil =>
    refine ⟨s, 0, le_rfl, .nil used table s.mem, rfl, h.window, Or.inl ⟨rfl, .none _, ?_⟩⟩
    rw [List.append_nil]
    rfl
  | cons i rest ih =>
    obtain ⟨habsent, hsmall⟩ := hfirst i rfl
    have hlen : front.length ≤ 2 := by
      have hlength := hpath.1
      simp only [List.length_append, List.length_cons] at hlength
      omega
    rcases h.create_cases htable hlen i with ⟨child, s₁, hlink, -⟩ | ⟨-, hcases⟩
    · rw [link, PageEntry.child_eq_none habsent] at hlink
      cases hlink
    · rcases hcases with ⟨s₁, hrun, hmem, hcr3, halloc, h₁⟩ | ⟨hhuge, -⟩ |
        ⟨s₁, child, hrun, hlinked⟩
      · refine ⟨s₁, 0, Nat.zero_le _, ?_, hcr3, h₁.window,
          Or.inr ⟨Nat.succ_pos _, ?_, s.allocator, .none _, halloc⟩⟩
        · rw [hmem]
          exact .nil used table s.mem
        · rw [createAlong, bind_ok hrun]
          rfl
      · rw [hsmall] at hhuge
        cases hhuge
      · rw [List.append_cons] at hpath ⊢
        have hstep : createAlong (windowPtr front) (i :: rest) s =
            createAlong (windowPtr (front ++ [i])) rest s₁ := by
          rw [createAlong, bind_ok hrun]
          rfl
        have hempty : ∀ j, rest.head? = some j →
            (s₁.mem child j).isPresent = false ∧ (s₁.mem child j).isHuge = false := by
          intro j hj
          have hin : j ∈ front ++ [i] ++ rest := by
            rw [List.eq_cons_of_mem_head? hj]
            simp
          rw [hlinked.bare, if_neg (hpath.2 j hin)]
          exact ⟨PageEntry.isPresent_cleared, PageEntry.isHuge_cleared⟩
        obtain ⟨frame, halloc⟩ := hlinked.taken
        obtain ⟨s', k, hk, hgraft, hcr3, hwindow, hresult⟩ := ih hlinked.supplied hpath
          (hlinked.reached h.inside hlen htable) hempty
        refine ⟨s', k + 1, Nat.succ_le_succ hk, ?_, hcr3.trans hlinked.cr3, hwindow, ?_⟩
        · rw [List.take_succ_cons]
          rw [hlinked.mem] at hgraft
          exact .cons (mem_nodes hpath.left.left htable) habsent hsmall hlinked.fits
            hlinked.unused hgraft
        · rw [hstep]
          rcases hresult with ⟨hlast, hdrawn, hok⟩ | ⟨hlt, hnone, a, hdrawn, hempty⟩
          · exact Or.inl ⟨congrArg (· + 1) hlast, .some halloc hdrawn, hok⟩
          · exact Or.inr ⟨Nat.succ_lt_succ hlt, hnone, a, .some halloc hdrawn, hempty⟩

/-- Creating a table at the end of any path keeps what the allocator promises. -/
theorem Supplied.create_returned (h : Supplied source used root s)
    (htable : descend (link s.mem) root front = some table) (hlen : front.length ≤ 2)
    {r : Option ℕ} (hrun : nextLevelTableCreateMut (windowPtr front) i s = .ok r s') :
    (∃ used', Supplied source used' root s') ∧ s'.cr3 = s.cr3 ∧
      (r = none ∨ r = some (windowPtr (front ++ [i])) ∧
        ∃ child, descend (link s'.mem) root (front ++ [i]) = some child) := by
  rcases h.create_cases htable hlen i with ⟨child, s₁, hlink, hrun', hmem, hcr3, hallocator⟩ |
    ⟨-, ⟨s₁, hrun', -, hcr3, -, h₁⟩ | ⟨-, -, s₁, hrun'⟩ | ⟨s₁, child, hrun', hlinked⟩⟩
  all_goals rw [hrun] at hrun'
  · obtain ⟨hr, rfl⟩ := EStateM.Result.ok.inj hrun'
    refine ⟨⟨used, h.of_mem hmem hcr3 (hallocator ▸ h.serves)⟩, hcr3, Or.inr ⟨hr, child, ?_⟩⟩
    rw [hmem, descend_concat htable, hlink]
  · obtain ⟨hr, rfl⟩ := EStateM.Result.ok.inj hrun'
    exact ⟨⟨used, h₁⟩, hcr3, Or.inl hr⟩
  · cases hrun'
  · obtain ⟨hr, rfl⟩ := EStateM.Result.ok.inj hrun'
    exact ⟨⟨_, hlinked.supplied⟩, hlinked.cr3,
      Or.inr ⟨hr, child, hlinked.reached h.inside hlen htable⟩⟩

/-- Creating tables along any path keeps what the allocator promises. -/
theorem Supplied.createAlong_returned {rest : List Index} (h : Supplied source used root s)
    (htable : descend (link s.mem) root front = some table) (hlen : (front ++ rest).length ≤ 3)
    {r : Option ℕ} (hrun : createAlong (windowPtr front) rest s = .ok r s') :
    (∃ used', Supplied source used' root s') ∧ s'.cr3 = s.cr3 := by
  induction rest generalizing s front table used with
  | nil =>
    obtain ⟨-, rfl⟩ := EStateM.Result.ok.inj hrun
    exact ⟨⟨used, h⟩, rfl⟩
  | cons i rest ih =>
    rw [List.append_cons] at hlen
    obtain ⟨next, s₁, hnext, hrun⟩ := bind_eq_ok.mp hrun
    obtain ⟨⟨used₁, h₁⟩, hcr3, hresult⟩ := h.create_returned htable (by simp at hlen; omega) hnext
    rcases hresult with rfl | ⟨rfl, child, hchild⟩
    · obtain ⟨-, rfl⟩ := EStateM.Result.ok.inj hrun
      exact ⟨⟨used₁, h₁⟩, hcr3⟩
    · obtain ⟨hsupplied, hcr3'⟩ := ih h₁ hchild hlen hrun
      exact ⟨hsupplied, hcr3'.trans hcr3⟩

end Along

end Axel
