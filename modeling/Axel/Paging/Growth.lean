import Axel.Paging.CreateSemantics
import Mathlib.Data.Set.Disjoint
import Mathlib.Order.CompletePartialOrder

/-!
# Growing page tables

The tables below a root are the frames that at most three indices lead to, none of
them the recursive slot. A run that creates tables keeps all tables where they are,
adds fresh ones, and changes the translation of no page. The relation `Grown` says so,
and this file derives it for the creation of tables along a path. The assumption on
the frame allocator is that it hands out frames that are not in use.
-/

namespace Axel

open Descent Table

variable {α : Type}

/-- At most three indices, none of them the recursive slot. -/
abbrev TablePath (path : List Index) : Prop := Within (· ≠ recursiveSlot) 3 path

/-- The tables below a root. -/
abbrev tables (mem : Memory) (root : ℕ) : Set ℕ := nodes (link mem) (· ≠ recursiveSlot) 3 root

/-- No second path leads to the table. -/
abbrev Sole (mem : Memory) (root : ℕ) (path : List Index) (table : ℕ) : Prop :=
  Only (link mem) (· ≠ recursiveSlot) 3 root path table

/-- What is assumed of a frame allocator: in a state that serves a set of used frames,
it hands out no frame of the set, only frames that fit into an entry, and then serves
the set with the new frame. -/
structure FrameSource (α : Type) [FrameAllocator α] where
  /-- The states that hand out no used frame. -/
  Serves : α → Set ℕ → Prop
  /-- What such a state does when it is asked for a frame. -/
  allocOne : ∀ {a used}, Serves a used →
    (∃ a', FrameAllocator.allocOne a = .ok (none, a') ∧ Serves a' used) ∨
    ∃ frame a', FrameAllocator.allocOne a = .ok (some frame, a') ∧ frame.number ∉ used ∧
      frame.number < 2 ^ 36 ∧ Serves a' (insert frame.number used)

/-- A stack of free frames, the simplest frame allocator. -/
structure FramePool where
  /-- The free frames. -/
  frames : List ℕ

instance : FrameAllocator FramePool where
  allocOne self :=
    match self.frames with
    | [] => .ok (none, self)
    | frame :: rest => .ok (some ⟨frame, 0, .used⟩, ⟨rest⟩)
  free self frame := .ok ⟨frame.number :: self.frames⟩

/-- A stack without repetitions meets the assumption for every set apart from it. -/
def FramePool.source : FrameSource FramePool where
  Serves a used := a.frames.Nodup ∧ ∀ frame ∈ a.frames, frame ∉ used ∧ frame < 2 ^ 36
  allocOne := by
    rintro ⟨frames⟩ used ⟨hnodup, hunused⟩
    cases frames with
    | nil => exact Or.inl ⟨⟨[]⟩, rfl, hnodup, hunused⟩
    | cons frame rest =>
      obtain ⟨hfirst, hnodup⟩ := List.nodup_cons.mp hnodup
      obtain ⟨hframe, hlt⟩ := hunused frame List.mem_cons_self
      refine Or.inr ⟨⟨frame, 0, .used⟩, ⟨rest⟩, rfl, hframe, hlt, hnodup, ?_⟩
      intro other hother
      obtain ⟨hunused, hlt⟩ := hunused other (List.mem_cons_of_mem frame hother)
      refine ⟨?_, hlt⟩
      rintro (rfl | hin)
      · exact hfirst hother
      · exact hunused hin

/-- A stack serves every smaller set. -/
theorem FramePool.serves_mono {a : FramePool} {used used' : Set ℕ} (hsub : used' ⊆ used)
    (h : FramePool.source.Serves a used) : FramePool.source.Serves a used' :=
  ⟨h.1, fun frame hframe => ⟨fun hin => (h.2 frame hframe).1 (hsub hin), (h.2 frame hframe).2⟩⟩

/-- A number of frames was drawn from an allocator. -/
inductive Drawn [FrameAllocator α] : ℕ → α → α → Prop where
  /-- No frame was drawn. -/
  | none (a : α) : Drawn 0 a a
  /-- One more frame was drawn first. -/
  | some {n : ℕ} {a a' a'' : α} {frame : Frame} :
    FrameAllocator.allocOne a = .ok (some frame, a') → Drawn n a' a'' → Drawn (n + 1) a a''

/-- Every frame drawn from a stack shortens it. -/
theorem FramePool.length_of_drawn {n : ℕ} {a a' : FramePool} (h : Drawn n a a') :
    a.frames.length = n + a'.frames.length := by
  induction h with
  | none a => simp
  | @some n a a' a'' frame halloc _ ih =>
    obtain ⟨frames⟩ := a
    cases frames with
    | nil => cases halloc
    | cons f rest =>
      obtain ⟨-, rfl⟩ := Prod.mk.inj (Except.ok.inj halloc)
      have hrest : rest.length = n + a''.frames.length := ih
      simp only [List.length_cons]
      omega

/-- A stack that ran out after a number of frames had that many. -/
theorem FramePool.length_of_exhausted {n : ℕ} {a a' a'' : FramePool} (h : Drawn n a a')
    (hnone : FrameAllocator.allocOne a' = .ok (none, a'')) : a.frames.length = n := by
  have hlength := FramePool.length_of_drawn h
  obtain ⟨frames⟩ := a'
  cases frames with
  | nil => exact hlength
  | cons f rest => cases hnone

/-- The allocator still has `n` frames. -/
def Lasts [FrameAllocator α] (n : ℕ) (a : α) : Prop :=
  ∀ m a' a'', m < n → Drawn m a a' → FrameAllocator.allocOne a' ≠ .ok (none, a'')

/-- A stack with enough frames lasts. -/
theorem FramePool.lasts {n : ℕ} {a : FramePool} (h : n ≤ a.frames.length) : Lasts n a := by
  intro m a' a'' hm hdrawn hnone
  have hlength := FramePool.length_of_exhausted hdrawn hnone
  omega

section Link

variable {mem : Memory} {root table child : ℕ} {path : List Index} {i : Index}

/-- Linking a table changes one entry outside the table. -/
theorem linkTable_of_ne {f : ℕ} (hf : f ≠ child) (j : Index) (h : f ≠ table ∨ j ≠ i) :
    linkTable mem table i child f j = mem f j := by
  rw [linkTable, emptyTable, if_neg hf, Memory.set_of_ne mem _ h]

/-- The entry that refers to the linked table. -/
theorem linkTable_entry (h : table ≠ child) :
    linkTable mem table i child table i = (mem table i).withFrame child := by
  rw [linkTable, emptyTable, if_neg h, Memory.set_self]

/-- The entries of the linked table. -/
theorem linkTable_child (j : Index) :
    linkTable mem table i child child j =
      if j = recursiveSlot then .selfEntry child else .cleared := by
  rw [linkTable, emptyTable, if_pos rfl]

variable (htable : descend (link mem) root path = some table) (hpath : TablePath path)
  (hsole : Sole mem root path table) (hvacant : link mem table i = none)
  (hhuge : (mem table i).isHuge = false) (hchild : child < 2 ^ 36)
  (hfresh : child ∉ tables mem root)

include htable hpath hvacant hhuge hchild hfresh

/-- Linking a fresh table attaches it to the graph of tables. -/
theorem linkTable_attached :
    Attached (link mem) (link (linkTable mem table i child)) (· ≠ recursiveSlot) table i child := by
  have hne : table ≠ child := by
    rintro rfl
    exact hfresh (mem_nodes hpath htable)
  refine ⟨hvacant, ?_, ?_, ?_⟩
  · rw [link, linkTable_entry hne, PageEntry.child_withFrame hchild hhuge]
  · intro j hj
    rw [link, linkTable_child, if_neg hj]
    exact PageEntry.child_eq_none PageEntry.isPresent_cleared
  · intro f j hf h
    rw [link, linkTable_of_ne hf j h, ← link]

/-- Linking a fresh table only changes the translation of a page whose entry of a level-1
table gets the new table. -/
theorem linkTable_walk_of_ne {ix : List Index} (hix : Ordinary ix) (hix4 : ix.length = 4)
    (hne : ∀ front, TablePath front → descend (link mem) root front = some table →
      ix ≠ front ++ [i]) :
    walk (linkTable mem table i child) root ix = walk mem root ix := by
  have hattach := linkTable_attached htable hpath hvacant hhuge hchild hfresh
  have hbefore : ∀ before after, ix = before ++ after → after ≠ [] → TablePath before := by
    intro before after hsplit hafter
    have hlength := congrArg List.length hsplit
    rw [List.length_append] at hlength
    have hpos := List.length_pos_iff.mpr hafter
    refine ⟨by omega, fun k hk => hix k ?_⟩
    rw [hsplit]
    exact List.mem_append_left _ hk
  by_cases hthrough : ∃ front rest, ix = front ++ i :: rest ∧
      descend (link mem) root front = some table
  · obtain ⟨front, rest, rfl, hfront⟩ := hthrough
    have habsent := PageEntry.isPresent_of_child_eq_none hvacant hhuge
    have hpath' := hbefore front _ rfl (by simp)
    have hfront' := hattach.kept hfresh hpath' hfront
    cases rest with
    | nil => exact absurd rfl (hne front hpath' hfront)
    | cons j rest =>
      have hj : j ≠ recursiveSlot := hix j (by simp)
      rw [walk_append hfront (by simp), walk_absent habsent, walk_append hfront' (by simp),
        walk_cons hattach.linked (by simp)]
      apply walk_absent
      rw [linkTable_child, if_neg hj, PageEntry.isPresent_cleared]
  · apply walk_congr
    intro before j after node hsplit hnode
    apply linkTable_of_ne
    · rintro rfl
      exact hfresh (mem_nodes (hbefore before _ hsplit (by simp)) hnode)
    · by_contra hsame
      obtain ⟨rfl, rfl⟩ : node = table ∧ j = i := by simpa [not_or] using hsame
      exact hthrough ⟨before, after, hsplit, hnode⟩

include hsole

/-- Linking a fresh table changes the translation of no page, when its parent is reached along
one path that does not end at level 1. -/
theorem linkTable_walk (hlen : path.length ≤ 2) {ix : List Index} (hix : Ordinary ix)
    (hix4 : ix.length = 4) :
    walk (linkTable mem table i child) root ix = walk mem root ix := by
  apply linkTable_walk_of_ne htable hpath hvacant hhuge hchild hfresh hix hix4
  rintro front hfront hreach rfl
  rw [hsole front hfront hreach] at hix4
  simp only [List.length_append, List.length_singleton] at hix4
  omega

end Link

/-- The tables below a root have grown: what a run may do that only creates tables.
The set holds the frames that are used for something else than these tables. -/
structure Grown (used : Set ℕ) (root : ℕ) (s s' : Machine α) : Prop where
  /-- The table in CR3 is the same. -/
  cr3 : s'.cr3 = s.cr3
  /-- Every table stays where it is. -/
  kept : ∀ path table, TablePath path → descend (link s.mem) root path = some table →
    descend (link s'.mem) root path = some table
  /-- A table at a new place was not in use, is there once, and has an entry for itself. -/
  added : ∀ path table, TablePath path → descend (link s'.mem) root path = some table →
    descend (link s.mem) root path = some table ∨
      table ∉ used ∪ tables s.mem root ∧ Sole s'.mem root path table ∧ table < 2 ^ 36 ∧
        s'.mem table recursiveSlot = .selfEntry table
  /-- Entries of tables are kept, or new and empty, or refer to a new table. -/
  entry : ∀ path table i, TablePath path → descend (link s'.mem) root path = some table →
    i ≠ recursiveSlot →
      descend (link s.mem) root path = some table ∧ s'.mem table i = s.mem table i ∨
      s'.mem table i = .cleared ∨
      path.length ≤ 2 ∧ (s'.mem table i).isHuge = false
  /-- The entry 511 of every table is kept. -/
  slot : ∀ table ∈ tables s.mem root, s'.mem table recursiveSlot = s.mem table recursiveSlot
  /-- Only tables are written. -/
  frame : ∀ f, f ∉ tables s'.mem root → s'.mem f = s.mem f
  /-- No page is translated in another way. -/
  walk : ∀ ix, Ordinary ix → ix.length = 4 → walk s'.mem root ix = walk s.mem root ix
  /-- Only tables are accessed, and no frame is given back. -/
  events : ∃ events, s'.trace = s.trace ++ events ∧ ∀ e ∈ events, e.Touches (tables s'.mem root)

namespace Grown

variable {used : Set ℕ} {root : ℕ} {s s' s'' : Machine α}

/-- The set of tables has grown. -/
theorem tables_subset (h : Grown used root s s') : tables s.mem root ⊆ tables s'.mem root := by
  rintro table ⟨path, hpath, htable⟩
  exact ⟨path, hpath, h.kept path table hpath htable⟩

/-- A table that was there before is where it was before. -/
theorem descend_of_mem (h : Grown used root s s') {path : List Index} {table : ℕ}
    (hpath : TablePath path) (htable : descend (link s'.mem) root path = some table)
    (hmem : table ∈ tables s.mem root) : descend (link s.mem) root path = some table := by
  rcases h.added path table hpath htable with hold | ⟨hnew, -⟩
  · exact hold
  · exact absurd (Or.inr hmem) hnew

/-- No second path leads to a table to which none led before. -/
theorem sole (h : Grown used root s s') {path : List Index} {table : ℕ} (hpath : TablePath path)
    (htable : descend (link s.mem) root path = some table) (hsole : Sole s.mem root path table) :
    Sole s'.mem root path table := by
  intro other hother hreach
  exact hsole other hother (h.descend_of_mem hother hreach (mem_nodes hpath htable))

/-- A run without a change of the memory. -/
theorem of_reaches {a : α} {frames : Set ℕ} (h : Reaches s frames s.mem a s')
    (hframes : frames ⊆ tables s.mem root) : Grown used root s s' := by
  have hmem := h.mem
  obtain ⟨events, htrace, htouch⟩ := h.events
  refine ⟨h.cr3, ?_, ?_, ?_, ?_, ?_, ?_, events, htrace, ?_⟩
  · exact fun _ _ _ htable => hmem ▸ htable
  · exact fun _ _ _ htable => Or.inl (hmem ▸ htable)
  · exact fun _ _ _ _ htable _ => Or.inl ⟨hmem ▸ htable, by rw [hmem]⟩
  · exact fun _ _ => by rw [hmem]
  · exact fun _ _ => by rw [hmem]
  · exact fun _ _ _ => by rw [hmem]
  · exact fun e he => (htouch e he).mono (hmem ▸ hframes)

/-- One run after another. -/
theorem trans (h : Grown used root s s') (h' : Grown used root s' s'') : Grown used root s s'' := by
  obtain ⟨events, htrace, htouch⟩ := h.events
  obtain ⟨events', htrace', htouch'⟩ := h'.events
  refine ⟨h'.cr3.trans h.cr3, ?_, ?_, ?_, ?_, ?_, ?_, events ++ events', ?_, ?_⟩
  · exact fun path table hpath htable => h'.kept path table hpath (h.kept path table hpath htable)
  · intro path table hpath htable
    rcases h'.added path table hpath htable with hmid | ⟨hnew, hsole, hlt, hself⟩
    · rcases h.added path table hpath hmid with hold | ⟨hnew, hsole, hlt, hself⟩
      · exact Or.inl hold
      · refine Or.inr ⟨hnew, h'.sole hpath hmid hsole, hlt, ?_⟩
        rw [h'.slot table (mem_nodes hpath hmid), hself]
    · refine Or.inr ⟨fun hmem => hnew ?_, hsole, hlt, hself⟩
      exact hmem.imp id (fun hold => h.tables_subset hold)
  · intro path table i hpath htable hi
    rcases h'.entry path table i hpath htable hi with ⟨hmid, heq⟩ | hcleared | hlinked
    · rw [heq]
      exact h.entry path table i hpath hmid hi
    · exact Or.inr (Or.inl hcleared)
    · exact Or.inr (Or.inr hlinked)
  · exact fun table hmem => (h'.slot table (h.tables_subset hmem)).trans (h.slot table hmem)
  · intro f hf
    exact (h'.frame f hf).trans (h.frame f fun hmem => hf (h'.tables_subset hmem))
  · exact fun ix hix hix4 => (h'.walk ix hix hix4).trans (h.walk ix hix hix4)
  · rw [htrace', htrace, List.append_assoc]
  · intro e he
    rcases List.mem_append.mp he with he | he
    · exact (htouch e he).mono h'.tables_subset
    · exact htouch' e he

/-- A run that linked a fresh table below a table with a single path. -/
theorem of_linkTable {a : α} {table child : ℕ} {path : List Index} {i : Index}
    (h : Reaches s {table, child} (linkTable s.mem table i child) a s')
    (htable : descend (link s.mem) root path = some table) (hpath : TablePath path)
    (hlen : path.length ≤ 2) (hi : i ≠ recursiveSlot) (hsole : Sole s.mem root path table)
    (hvacant : link s.mem table i = none) (hhuge : (s.mem table i).isHuge = false)
    (hchild : child < 2 ^ 36) (hfresh : child ∉ used ∪ tables s.mem root) :
    Grown used root s s' ∧ descend (link s'.mem) root (path ++ [i]) = some child := by
  have hfresh' : child ∉ tables s.mem root := fun hmem => hfresh (Or.inr hmem)
  have hattach := linkTable_attached htable hpath hvacant hhuge hchild hfresh'
  rw [← h.mem] at hattach
  have hconcat : TablePath (path ++ [i]) := hpath.concat (by omega) hi
  have hnew := hattach.reached hfresh' htable hconcat
  have htables := hattach.nodes_eq hfresh' htable hconcat
  have hmem_table : table ∈ tables s.mem root := mem_nodes hpath htable
  obtain ⟨events, htrace, htouch⟩ := h.events
  refine ⟨⟨h.cr3, fun _ _ hother hreached => hattach.kept hfresh' hother hreached,
    ?_, ?_, ?_, ?_, ?_, events, htrace, ?_⟩, hnew⟩
  · intro other reached hother hreached
    rcases (hattach.descend_iff hfresh' hother).mp hreached with hold | ⟨rfl, front, rfl, hfront⟩
    · exact Or.inl hold
    · obtain rfl := hsole front hother.left hfront
      refine Or.inr ⟨hfresh, hattach.only hfresh' hsole, hchild, ?_⟩
      rw [h.mem, linkTable_child, if_pos rfl]
  · intro other reached j hother hreached hj
    rcases (hattach.descend_iff hfresh' hother).mp hreached with hold | ⟨rfl, -⟩
    · have hne : reached ≠ child := by
        rintro rfl
        exact hfresh' (mem_nodes hother hold)
      by_cases hentry : reached = table ∧ j = i
      · obtain ⟨rfl, rfl⟩ := hentry
        refine Or.inr (Or.inr ⟨?_, ?_⟩)
        · rw [hsole other hother hold]
          exact hlen
        · rw [h.mem, linkTable_entry hne, PageEntry.isHuge_withFrame, hhuge]
      · refine Or.inl ⟨hold, ?_⟩
        rw [h.mem, linkTable_of_ne hne j (not_and_or.mp hentry)]
    · right
      left
      rw [h.mem, linkTable_child, if_neg hj]
  · intro reached hreached
    have hne : reached ≠ child := by
      rintro rfl
      exact hfresh' hreached
    rw [h.mem, linkTable_of_ne hne recursiveSlot (Or.inr hi.symm)]
  · intro f hf
    rw [tables, htables, Set.mem_insert_iff, not_or] at hf
    funext j
    rw [h.mem, linkTable_of_ne hf.1 j (Or.inl (ne_of_mem_of_not_mem hmem_table hf.2).symm)]
  · intro ix hix hix4
    rw [h.mem]
    exact linkTable_walk htable hpath hsole hvacant hhuge hchild hfresh' hlen hix hix4
  · intro e he
    apply (htouch e he).mono
    rw [tables, htables]
    rintro f (rfl | rfl)
    · exact Or.inr hmem_table
    · exact Or.inl rfl

end Grown

/-- New tables are on a path only. -/
def NewAlong (root : ℕ) (path : List Index) (s s' : Machine α) : Prop :=
  ∀ other table, TablePath other → descend (link s'.mem) root other = some table →
    descend (link s.mem) root other = some table ∨ other <+: path

namespace NewAlong

variable {root : ℕ} {path path' : List Index} {s s' s'' : Machine α}

/-- A run without a change of the memory. -/
theorem of_mem (h : s'.mem = s.mem) : NewAlong root path s s' :=
  fun _ _ _ htable => Or.inl (h ▸ htable)

/-- One run after another, when the second path extends the first one. -/
theorem trans (h : NewAlong root path s s') (h' : NewAlong root path' s' s'')
    (hpath : path <+: path') : NewAlong root path' s s'' := by
  intro other table hother htable
  rcases h' other table hother htable with hmid | hinitial
  · exact (h other table hother hmid).imp id fun hinitial => hinitial.trans hpath
  · exact Or.inr hinitial

/-- An entry of the root that the path does not start with refers to no new table. -/
theorem link_none (h : NewAlong root path s s') {i : Index} (hi : i ≠ recursiveSlot)
    (hhead : path.head? ≠ some i) (hnone : link s.mem root i = none) :
    link s'.mem root i = none := by
  cases hlink : link s'.mem root i with
  | none => rfl
  | some table =>
    have hpath : TablePath [i] := within_nil.concat (by decide) hi
    rcases h [i] table hpath (by rw [descend_singleton, hlink]) with hold | ⟨rest, rfl⟩
    · rw [descend_singleton, hnone] at hold
      cases hold
    · exact absurd rfl hhead

end NewAlong

/-- The recursive window shows the tables below a root, these tables are apart from the
frames with another use, and the allocator hands out neither. -/
structure Hosted [FrameAllocator α] (source : FrameSource α) (used : Set ℕ) (root : ℕ)
    (s : Machine α) : Prop where
  /-- The window shows the tables. -/
  window : Window s.mem s.cr3 root
  /-- The table in CR3 is in use. -/
  active : s.cr3 ∈ used ∪ tables s.mem root
  /-- No table has another use. -/
  apart : Disjoint used (tables s.mem root)
  /-- The allocator hands out no frame in use. -/
  serves : source.Serves s.allocator (used ∪ tables s.mem root)

section Hosted

variable [FrameAllocator α] {source : FrameSource α} {used : Set ℕ} {root : ℕ} {s s' : Machine α}

/-- Growing tables stay hosted when the allocator knows about the new ones. -/
theorem Hosted.of_grown (h : Hosted source used root s) (hgrown : Grown used root s s')
    (hserves : source.Serves s'.allocator (used ∪ tables s'.mem root)) :
    Hosted source used root s' := by
  have hapart : Disjoint used (tables s'.mem root) := by
    rw [Set.disjoint_left]
    rintro f hf ⟨path, hpath, htable⟩
    rcases hgrown.added path f hpath htable with hold | ⟨hnew, -⟩
    · exact Set.disjoint_left.mp h.apart hf (mem_nodes hpath hold)
    · exact hnew (Or.inl hf)
  refine ⟨⟨?_, ?_⟩, ?_, hapart, hserves⟩
  · have hslot : s'.mem s.cr3 recursiveSlot = s.mem s.cr3 recursiveSlot := by
      rcases h.active with hused | htable
      · rw [hgrown.frame _ (Set.disjoint_left.mp hapart hused)]
      · exact hgrown.slot _ htable
    rw [hgrown.cr3, link, hslot]
    exact h.window.enters
  · rw [link, hgrown.slot root root_mem_nodes]
    exact h.window.stays
  · rw [hgrown.cr3]
    exact h.active.imp id (fun htable => hgrown.tables_subset htable)

/-- Tables in CR3 stay hosted when no table changes and the allocator knows about the frames
that have another use now. -/
theorem Hosted.of_tables {used' : Set ℕ} (h : Hosted source used root s) (hroot : s.cr3 = root)
    (hsame : ∀ f ∈ tables s.mem root, s'.mem f = s.mem f) (hcr3 : s'.cr3 = s.cr3)
    (hapart : Disjoint used' (tables s.mem root))
    (hserves : source.Serves s'.allocator (used' ∪ tables s.mem root)) :
    Hosted source used' root s' := by
  have htables : tables s'.mem root = tables s.mem root :=
    nodes_congr fun f hf i _ => link_of_frame (hsame f hf) i
  have hslot : link s'.mem root recursiveSlot = some root := by
    rw [link_of_frame (hsame root root_mem_nodes)]
    exact h.window.stays
  refine ⟨⟨?_, hslot⟩, Or.inr ?_, ?_, ?_⟩
  · rw [hcr3, hroot]
    exact hslot
  · rw [hcr3, hroot]
    exact root_mem_nodes
  · rw [htables]
    exact hapart
  · rw [htables]
    exact hserves

/-- Asking for a frame: the allocator may refuse, or the frame is one with another use from
now on. -/
theorem Hosted.allocOne (h : Hosted source ∅ root s) (hroot : s.cr3 = root) :
    (∃ s' a, Axel.allocOne s = .ok none s' ∧
      FrameAllocator.allocOne s.allocator = .ok (none, a)) ∨
    ∃ frame s', Axel.allocOne s = .ok (some frame) s' ∧
      FrameAllocator.allocOne s.allocator = .ok (some frame, s'.allocator) ∧ s'.mem = s.mem ∧
      s'.cr3 = s.cr3 ∧ frame.number < 2 ^ 36 ∧ Hosted source {frame.number} root s' := by
  rcases source.allocOne h.serves with ⟨a, halloc, -⟩ | ⟨frame, a, halloc, hfresh, hlt, hserves⟩
  · obtain ⟨s', hrun, -⟩ := allocOne_spec ∅ halloc
    exact Or.inl ⟨s', a, hrun, halloc⟩
  · obtain ⟨s', hrun, hreach, -⟩ := allocOne_spec ∅ halloc
    rw [Set.empty_union] at hfresh hserves
    refine Or.inr ⟨frame, s', hrun, hreach.allocator ▸ halloc, hreach.mem, hreach.cr3, hlt, ?_⟩
    apply h.of_tables hroot (fun f _ => by rw [hreach.mem]) hreach.cr3
    · exact Set.disjoint_singleton_left.mpr hfresh
    · rw [hreach.allocator, Set.singleton_union]
      exact hserves

variable {path : List Index} {table : ℕ} {i : Index}

/-- A fresh frame is not read when a pointer into the window is resolved. -/
theorem Hosted.offPath (h : Hosted source used root s)
    (hinside : ∀ before after node, path = before ++ after →
      descend (link s.mem) root before = some node → node ∈ tables s.mem root) {frame : ℕ}
    (hframe : frame ∉ used ∪ tables s.mem root) : OffPath s.mem s.cr3 root path frame := by
  constructor
  · rintro rfl
    exact hframe h.active
  · rintro before after node hsplit hnode rfl
    exact hframe (Or.inr (hinside before after _ hsplit hnode))

/-- What `next_level_table_create_mut` does with a vacant entry of a table. The path of the
pointer may differ from the path of the table, as long as it visits tables only. -/
theorem Hosted.create_vacant (h : Hosted source used root s) {pointer : List Index}
    (hpointer : descend (link s.mem) root pointer = some table) (hplen : pointer.length ≤ 2)
    (hinside : ∀ before after node, pointer = before ++ after →
      descend (link s.mem) root before = some node → node ∈ tables s.mem root)
    (htable : descend (link s.mem) root path = some table) (hpath : TablePath path)
    (hlen : path.length ≤ 2) (hi : i ≠ recursiveSlot) (hsole : Sole s.mem root path table)
    (hvacant : link s.mem table i = none) :
    (∃ s' child, nextLevelTableCreateMut (windowPtr pointer) i s =
        .ok (some (windowPtr (pointer ++ [i]))) s' ∧ Hosted source used root s' ∧
      Grown used root s s' ∧ descend (link s'.mem) root (path ++ [i]) = some child ∧
      child ∉ used ∪ tables s.mem root ∧ s'.mem = linkTable s.mem table i child ∧
      NewAlong root (path ++ [i]) s s' ∧
      ∃ frame, FrameAllocator.allocOne s.allocator = .ok (some frame, s'.allocator)) ∨
    (∃ s', nextLevelTableCreateMut (windowPtr pointer) i s = .ok none s' ∧
      Hosted source used root s' ∧ Grown used root s s' ∧ s'.mem = s.mem ∧
      FrameAllocator.allocOne s.allocator = .ok (none, s'.allocator) ∧
      ∃ events, s'.trace = s.trace ++ events ∧ .alloc none ∈ events) ∨
    (s.mem table i).isHuge = true ∧
      ∃ s', nextLevelTableCreateMut (windowPtr pointer) i s = .error .debugAssert s' := by
  have hmem : table ∈ tables s.mem root := mem_nodes hpath htable
  rcases source.allocOne h.serves with ⟨a, halloc, hserves⟩ |
    ⟨frame, a, halloc, hfresh, hlt, hserves⟩
  · right
    left
    obtain ⟨s', hrun, hreach, hevents⟩ := create_exhausted h.window hpointer hplen hvacant halloc
    have hgrown : Grown used root s s' :=
      .of_reaches hreach (Set.singleton_subset_iff.mpr hmem)
    refine ⟨s', hrun, h.of_grown hgrown ?_, hgrown, hreach.mem, hreach.allocator ▸ halloc, hevents⟩
    rw [hreach.mem, hreach.allocator]
    exact hserves
  · cases hhuge : (s.mem table i).isHuge with
    | true => exact Or.inr (Or.inr ⟨rfl, create_huge h.window hpointer hplen hhuge halloc hlt⟩)
    | false =>
      left
      obtain ⟨s', hrun, hreach⟩ := create_linked h.window hpointer hplen hvacant hhuge halloc hlt
        (h.offPath hinside hfresh)
      obtain ⟨hgrown, hnew⟩ :=
        Grown.of_linkTable hreach htable hpath hlen hi hsole hvacant hhuge hlt
        hfresh
      have hfresh' : frame.number ∉ tables s.mem root := fun hin => hfresh (Or.inr hin)
      have hattach := linkTable_attached htable hpath hvacant hhuge hlt hfresh'
      rw [← hreach.mem] at hattach
      have hconcat : TablePath (path ++ [i]) := hpath.concat (by omega) hi
      refine ⟨s', frame.number, hrun, h.of_grown hgrown ?_, hgrown, hnew, hfresh, hreach.mem, ?_,
        frame, hreach.allocator ▸ halloc⟩
      · rw [tables, hattach.nodes_eq hfresh' htable hconcat, Set.union_insert, hreach.allocator]
        exact hserves
      · intro other node hother hnode
        rcases (hattach.descend_iff hfresh' hother).mp hnode with hold | ⟨-, front, rfl, hfront⟩
        · exact Or.inl hold
        · rw [hsole front hother.left hfront]
          exact Or.inr (List.prefix_refl _)

/-- What `next_level_table_create_mut` does with an entry that refers to a table. -/
theorem Hosted.create_existing (h : Hosted source used root s) {pointer : List Index}
    (hpointer : descend (link s.mem) root pointer = some table) (hplen : pointer.length ≤ 2)
    (hmem : table ∈ tables s.mem root) {child : ℕ} (hlink : link s.mem table i = some child) :
    ∃ s', nextLevelTableCreateMut (windowPtr pointer) i s =
        .ok (some (windowPtr (pointer ++ [i]))) s' ∧
      Hosted source used root s' ∧ Grown used root s s' ∧ s'.mem = s.mem ∧
      s'.allocator = s.allocator := by
  obtain ⟨s', hrun, hreach⟩ := Axel.create_existing h.window hpointer hplen hlink
  have hgrown : Grown used root s s' := .of_reaches hreach (Set.singleton_subset_iff.mpr hmem)
  refine ⟨s', hrun, h.of_grown hgrown ?_, hgrown, hreach.mem, hreach.allocator⟩
  rw [hreach.mem, hreach.allocator]
  exact h.serves

end Hosted

/-- Every table along a path has no second path, and no entry on the path has the
page-size bit. -/
structure Passable (mem : Memory) (root : ℕ) (path : List Index) : Prop where
  /-- The tables have no second path. -/
  sole : ∀ before after table, path = before ++ after →
    descend (link mem) root before = some table → Sole mem root before table
  /-- The entries do not have the page-size bit. -/
  small : ∀ before i after table, path = before ++ i :: after →
    descend (link mem) root before = some table → (mem table i).isHuge = false

/-- A path stays passable when tables are created. -/
theorem Grown.passable {used : Set ℕ} {root : ℕ} {s s' : Machine α} (h : Grown used root s s')
    {path : List Index} (hpath : TablePath path) (hpass : Passable s.mem root path) :
    Passable s'.mem root path := by
  constructor
  · rintro before after table rfl htable
    rcases h.added before table hpath.left htable with hold | ⟨-, hsole, -⟩
    · exact h.sole hpath.left hold (hpass.sole before after table rfl hold)
    · exact hsole
  · rintro before i after table rfl htable
    have hi : i ≠ recursiveSlot := hpath.2 i (by simp)
    rcases h.entry before table i hpath.left htable hi with ⟨hold, heq⟩ | hcleared | ⟨-, hlinked⟩
    · rw [heq]
      exact hpass.small before i after table rfl hold
    · rw [hcleared, PageEntry.isHuge_cleared]
    · exact hlinked

/-- Every table refers to itself in the recursive slot. -/
def Loops (mem : Memory) (root : ℕ) : Prop :=
  ∀ path table, TablePath path → descend (link mem) root path = some table →
    link mem table recursiveSlot = some table

/-- New tables refer to themselves as well. -/
theorem Grown.loops {used : Set ℕ} {root : ℕ} {s s' : Machine α} (h : Grown used root s s')
    (hloops : Loops s.mem root) : Loops s'.mem root := by
  intro path table hpath htable
  rcases h.added path table hpath htable with hold | ⟨-, -, hlt, hself⟩
  · rw [link, h.slot table (mem_nodes hpath hold)]
    exact hloops path table hpath hold
  · rw [link, hself, PageEntry.child_selfEntry hlt]

/-- A path without its recursive slots. -/
def squash (path : List Index) : List Index := path.filter (· ≠ recursiveSlot)

/-- A path without recursive slots is left as it is. -/
theorem squash_eq_self {path : List Index} (h : ∀ i ∈ path, i ≠ recursiveSlot) :
    squash path = path :=
  List.filter_eq_self.mpr (fun i hi => by simpa using h i hi)

/-- A recursive slot at the end is dropped. -/
theorem squash_concat_slot (path : List Index) :
    squash (path ++ [recursiveSlot]) = squash path := by
  simp [squash]

/-- Any other index at the end stays. -/
theorem squash_concat (path : List Index) {i : Index} (hi : i ≠ recursiveSlot) :
    squash (path ++ [i]) = squash path ++ [i] := by
  simp [squash, hi]

/-- The remaining indices are not recursive slots. -/
theorem squash_tablePath {path : List Index} (h : path.length ≤ 3) : TablePath (squash path) :=
  ⟨(List.length_filter_le _ _).trans h, fun i hi => by simpa using (List.mem_filter.mp hi).2⟩

/-- When tables refer to themselves, recursive slots on a path have no effect. -/
theorem descend_squash {mem : Memory} {root : ℕ} {path : List Index} (h : path.length ≤ 3)
    (hloops : recursiveSlot ∈ path → Loops mem root) :
    descend (link mem) root path = descend (link mem) root (squash path) := by
  by_cases hslot : recursiveSlot ∈ path
  · replace hloops := hloops hslot
    clear hslot
    induction path using List.reverseRecOn with
    | nil => rfl
    | append_singleton path i ih =>
      have hlen : path.length ≤ 3 := by
        simp at h
        omega
      have ih := ih hlen
      rw [descend_append, ih]
      by_cases hi : i = recursiveSlot
      · rw [hi, squash_concat_slot]
        cases htable : descend (link mem) root (squash path) with
        | none => rfl
        | some table =>
          rw [Option.bind_some, descend_singleton,
            hloops _ table (squash_tablePath hlen) htable]
      · rw [squash_concat path hi, descend_append]
  · rw [squash_eq_self]
    rintro i hi rfl
    exact hslot hi

end Axel
