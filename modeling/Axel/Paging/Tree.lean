import Axel.Paging.MapSemantics
import Mathlib.Logic.Function.Basic

/-!
# Trees of page tables

The shape of the tables that the source builds itself: no table has two places, no entry
has the page-size bit, the entries of level-1 tables have nothing above their frame
number, and every table below the root has an entry 511 for itself. Creating tables
and writing level-1 entries keep this shape.
-/

namespace Axel

open Descent Table ActivePageTable

variable {α : Type}

/-- A partial map from pages to frames. -/
abbrev PageMap := List Index → Option ℕ

/-- The translation of the pages without the recursive slot. -/
def translation (mem : Memory) (root : ℕ) : PageMap := fun ix =>
  if Ordinary ix ∧ ix.length = 4 then walk mem root ix else none

/-- The translation of a page without the recursive slot. -/
theorem translation_of_ordinary {mem : Memory} {root : ℕ} {ix : List Index} (h : Ordinary ix)
    (h4 : ix.length = 4) : translation mem root ix = walk mem root ix :=
  if_pos ⟨h, h4⟩

/-- A page with a translation has no recursive slot. -/
theorem ordinary_of_translation {mem : Memory} {root f : ℕ} {ix : List Index}
    (h : translation mem root ix = some f) : Ordinary ix := by
  unfold translation at h
  split at h
  case isTrue hix => exact hix.1
  case isFalse => cases h

/-- Two tables with the same walks have the same translation. -/
theorem translation_congr {mem mem' : Memory} {root : ℕ}
    (h : ∀ ix, Ordinary ix → ix.length = 4 → walk mem' root ix = walk mem root ix) :
    translation mem' root = translation mem root := by
  funext ix
  unfold translation
  split
  case isTrue hix => exact h ix hix.1 hix.2
  case isFalse => rfl

/-- The tables below a root form a tree without huge pages. -/
structure TableTree (mem : Memory) (root : ℕ) : Prop where
  /-- No second path leads to a table. -/
  sole : ∀ path table, TablePath path → descend (link mem) root path = some table →
    Sole mem root path table
  /-- No entry has the page-size bit. -/
  small : ∀ path table i, TablePath path → descend (link mem) root path = some table →
    i ≠ recursiveSlot → (mem table i).isHuge = false
  /-- An entry of a level-1 table has nothing above its frame number. -/
  plain : ∀ path table i, TablePath path → path.length = 3 →
    descend (link mem) root path = some table → i ≠ recursiveSlot → (mem table i).Plain
  /-- A table below the root refers to itself. -/
  loops : ∀ path table, TablePath path → path ≠ [] → descend (link mem) root path = some table →
    link mem table recursiveSlot = some table

/-- Without the page-size bit on the path, the walk of a page is the descent to its
level-1 table and one entry of that table. -/
theorem walk_eq_bind {mem : Memory} {root : ℕ} {path : List Index} (i : Index)
    (hsmall : ∀ before j after table, path = before ++ j :: after →
      descend (link mem) root before = some table → (mem table j).isHuge = false) :
    walk mem root (path ++ [i]) = (descend (link mem) root path).bind fun table =>
      if (mem table i).isPresent then some (mem table i).frame else none := by
  cases hpath : descend (link mem) root path with
  | some table => exact walk_append hpath (by simp)
  | none =>
    rw [Option.bind_none]
    induction path generalizing root with
    | nil => cases hpath
    | cons j path ih =>
      cases hlink : link mem root j with
      | none =>
        have hhuge := hsmall [] j path root rfl rfl
        exact walk_absent (PageEntry.isPresent_of_child_eq_none hlink hhuge)
      | some child =>
        rw [List.cons_append, walk_cons hlink (by simp)]
        apply ih
        · intro before k after table hsplit htable
          apply hsmall (j :: before) k after table
          · rw [hsplit, List.cons_append]
          · rw [descend, hlink, Option.bind_some, htable]
        · rw [descend, hlink, Option.bind_some] at hpath
          exact hpath

namespace TableTree

variable {mem : Memory} {root : ℕ} {path : List Index}

/-- Every path in a tree is passable. -/
theorem passable (h : TableTree mem root) (hpath : TablePath path) : Passable mem root path := by
  constructor
  · rintro before after table rfl htable
    exact h.sole before table hpath.left htable
  · rintro before i after table rfl htable
    exact h.small before table i hpath.left htable (hpath.2 i (by simp))

/-- The translation of a page in a tree. -/
theorem walk_eq (h : TableTree mem root) (hpath : TablePath path) (i : Index) :
    walk mem root (path ++ [i]) = (descend (link mem) root path).bind fun table =>
      if (mem table i).isPresent then some (mem table i).frame else none :=
  walk_eq_bind i (h.passable hpath).small

/-- Growing tables stay a tree. -/
theorem of_grown {used : Set ℕ} {s s' : Machine α} (h : TableTree s.mem root)
    (hgrown : Grown used root s s') : TableTree s'.mem root := by
  constructor
  · intro path table hpath htable
    rcases hgrown.added path table hpath htable with hold | ⟨-, hsole, -⟩
    · exact hgrown.sole hpath hold (h.sole path table hpath hold)
    · exact hsole
  · intro path table i hpath htable hi
    rcases hgrown.entry path table i hpath htable hi with ⟨hold, heq⟩ | hcleared | ⟨-, hlinked⟩
    · rw [heq]
      exact h.small path table i hpath hold hi
    · rw [hcleared, PageEntry.isHuge_cleared]
    · exact hlinked
  · intro path table i hpath hlen htable hi
    rcases hgrown.entry path table i hpath htable hi with ⟨hold, heq⟩ | hcleared | ⟨hshort, -⟩
    · rw [heq]
      exact h.plain path table i hpath hlen hold hi
    · rw [hcleared]
      exact PageEntry.plain_cleared
    · omega
  · intro path table hpath hne htable
    rcases hgrown.added path table hpath htable with hold | ⟨-, -, hlt, hself⟩
    · rw [link, hgrown.slot table (mem_nodes hpath hold)]
      exact h.loops path table hpath hne hold
    · rw [link, hself, PageEntry.child_selfEntry hlt]

/-- A tree stays a tree when an entry of a level-1 table is written. -/
theorem set_leaf (h : TableTree mem root) {table : ℕ} {i : Index} {e : PageEntry}
    (htable : descend (link mem) root path = some table) (hpath : TablePath path)
    (hlen : path.length = 3) (hi : i ≠ recursiveSlot) (hhuge : e.isHuge = false)
    (hplain : e.Plain) : TableTree (mem.set table i e) root := by
  have hsole := h.sole path table hpath htable
  have hdescend : ∀ {other}, TablePath other →
      descend (link (mem.set table i e)) root other = descend (link mem) root other :=
    fun hother => set_leaf_descend hlen hsole hother
  constructor
  · intro other node hother hnode
    rw [hdescend hother] at hnode
    exact (set_leaf_sole hlen hsole).mpr (h.sole other node hother hnode)
  · intro other node j hother hnode hj
    rw [hdescend hother] at hnode
    by_cases hwritten : node = table ∧ j = i
    · obtain ⟨rfl, rfl⟩ := hwritten
      rw [Memory.set_self, hhuge]
    · rw [Memory.set_of_ne mem e (not_and_or.mp hwritten)]
      exact h.small other node j hother hnode hj
  · intro other node j hother hother3 hnode hj
    rw [hdescend hother] at hnode
    by_cases hwritten : node = table ∧ j = i
    · obtain ⟨rfl, rfl⟩ := hwritten
      rw [Memory.set_self]
      exact hplain
    · rw [Memory.set_of_ne mem e (not_and_or.mp hwritten)]
      exact h.plain other node j hother hother3 hnode hj
  · intro other node hother hne hnode
    rw [hdescend hother] at hnode
    rw [link, Memory.set_of_ne mem e (Or.inr hi.symm), ← link]
    exact h.loops other node hother hne hnode

/-- The translation of a page by its level-1 table. -/
theorem translation_eq (h : TableTree mem root) {page : Page} (hpage : Ordinary page.indices) :
    translation mem root page.indices =
      (descend (link mem) root (tablePath (page.number * 4096))).bind fun table =>
        if (mem table (Axel.level1Index (page.number * 4096))).isPresent then
          some (mem table (Axel.level1Index (page.number * 4096))).frame else none := by
  rw [translation_of_ordinary hpage rfl, Page.indices_eq]
  exact h.walk_eq hpage.tablePath _

/-- Writing an entry of a level-1 table changes the translation of one page. -/
theorem translation_set (h : TableTree mem root) {page : Page} (hpage : Ordinary page.indices)
    {table : ℕ} (e : PageEntry)
    (htable : descend (link mem) root (tablePath (page.number * 4096)) = some table) :
    translation (mem.set table (Axel.level1Index (page.number * 4096)) e) root =
      Function.update (translation mem root) page.indices
        (if e.isPresent then some e.frame else none) := by
  have hsole := h.sole _ table hpage.tablePath htable
  funext ix
  by_cases hix : Ordinary ix ∧ ix.length = 4
  · rw [translation_of_ordinary hix.1 hix.2,
      set_leaf_walk htable hpage.tablePath rfl hsole hix.1 hix.2]
    by_cases hsame : ix = page.indices
    · rw [hsame, Function.update_self, if_pos (Page.indices_eq page)]
    · rw [Function.update_of_ne hsame, if_neg (by rw [← Page.indices_eq]; exact hsame),
        translation_of_ordinary hix.1 hix.2]
  · have hne : ix ≠ page.indices := by
      rintro rfl
      exact hix ⟨hpage, rfl⟩
    rw [Function.update_of_ne hne, translation, translation, if_neg hix, if_neg hix]

/-- The entry of a page with a translation. -/
theorem mapped_entry (h : TableTree mem root) {page : Page} {f : ℕ}
    (hmapped : translation mem root page.indices = some f) :
    ∃ table, descend (link mem) root (tablePath (page.number * 4096)) = some table ∧
      (mem table (Axel.level1Index (page.number * 4096))).getFrameAddr = some (f * 4096) := by
  have hpage := ordinary_of_translation hmapped
  have hlookup := h.translation_eq hpage
  rw [hmapped] at hlookup
  obtain ⟨table, htable, hentry⟩ := Option.bind_eq_some_iff.mp hlookup.symm
  obtain ⟨hpresent, hframe⟩ := Option.ite_none_right_eq_some.mp hentry
  have hplain := h.plain _ table _ hpage.tablePath rfl htable hpage.level1Index
  have haddr := hplain.getFrameAddr
  rw [hpresent, if_pos rfl, Option.some.inj hframe] at haddr
  exact ⟨table, htable, haddr⟩

end TableTree

/-- A run that accesses the tables below a root only. -/
structure Confined (root : ℕ) (s s' : Machine α) : Prop where
  /-- The table in CR3 is the same. -/
  cr3 : s'.cr3 = s.cr3
  /-- No table is lost. -/
  subset : tables s.mem root ⊆ tables s'.mem root
  /-- Only tables are written. -/
  frame : ∀ f, f ∉ tables s'.mem root → s'.mem f = s.mem f
  /-- Only tables are accessed, and no frame is given back. -/
  events : ∃ events, s'.trace = s.trace ++ events ∧ ∀ e ∈ events, e.Touches (tables s'.mem root)

namespace Confined

variable {root : ℕ} {s s' s'' : Machine α}

/-- The empty run. -/
theorem refl (root : ℕ) (s : Machine α) : Confined root s s :=
  ⟨rfl, subset_rfl, fun _ _ => rfl, [], by simp, by simp⟩

/-- One run after another. -/
theorem trans (h : Confined root s s') (h' : Confined root s' s'') : Confined root s s'' := by
  obtain ⟨events, htrace, htouch⟩ := h.events
  obtain ⟨events', htrace', htouch'⟩ := h'.events
  refine ⟨h'.cr3.trans h.cr3, h.subset.trans h'.subset, ?_, events ++ events', ?_, ?_⟩
  · exact fun f hf => (h'.frame f hf).trans (h.frame f fun hmem => hf (h'.subset hmem))
  · rw [htrace', htrace, List.append_assoc]
  · intro e he
    rcases List.mem_append.mp he with he | he
    · exact (htouch e he).mono h'.subset
    · exact htouch' e he

/-- Creating tables is confined to them. -/
theorem of_grown {used : Set ℕ} (h : Grown used root s s') : Confined root s s' :=
  ⟨h.cr3, h.tables_subset, h.frame, h.events⟩

/-- Writing an entry of a table, without a change of the set of tables. -/
theorem of_set {table : ℕ} {i : Index} {e : PageEntry} {a : α}
    (h : Reaches s {table} (s.mem.set table i e) a s')
    (htables : tables s'.mem root = tables s.mem root) (hmem : table ∈ tables s.mem root) :
    Confined root s s' := by
  obtain ⟨events, htrace, htouch⟩ := h.events
  refine ⟨h.cr3, htables.ge, ?_, events, htrace, ?_⟩
  · intro f hf
    rw [htables] at hf
    rw [h.mem]
    exact set_frame_of_ne _ _ _ fun hsame => hf (hsame ▸ hmem)
  · rw [htables]
    exact fun e he => (htouch e he).mono (Set.singleton_subset_iff.mpr hmem)

end Confined

/-- The recursive window shows a tree of tables, apart from the frames with another use, and
the allocator hands out neither. -/
structure HostedTree [FrameAllocator α] (source : FrameSource α) (used : Set ℕ) (root : ℕ)
    (s : Machine α) : Prop extends Hosted source used root s where
  /-- The tables form a tree. -/
  tree : TableTree s.mem root

/-- What a call of `map` does to the translation, by its result. -/
def Translates (root : ℕ) (page : Page) (frame : Frame) (s s' : Machine α) :
    Except TableError Unit → Prop
  | .ok () => Ordinary page.indices ∧ translation s.mem root page.indices = none ∧
      translation s'.mem root =
        Function.update (translation s.mem root) page.indices (some frame.number)
  | .error _ => translation s'.mem root = translation s.mem root

namespace HostedTree

variable [FrameAllocator α] {source : FrameSource α} {used : Set ℕ} {root : ℕ} {s s' : Machine α}

/-- Growing tables stay a hosted tree with the same translation. -/
theorem of_grown (h : HostedTree source used root s) (hosted : Hosted source used root s')
    (hgrown : Grown used root s s') :
    HostedTree source used root s' ∧ translation s'.mem root = translation s.mem root :=
  ⟨⟨hosted, h.tree.of_grown hgrown⟩, translation_congr hgrown.walk⟩

/-- Filling the entry of a page in its level-1 table. -/
theorem fill (h : HostedTree source used root s) {page : Page} (hpage : Ordinary page.indices)
    {n table : ℕ} (hn : n < 2 ^ 36)
    (htable : descend (link s.mem) root (tablePath (page.number * 4096)) = some table)
    (hreach : Reaches s {table} (s.mem.set table (level1Index (page.number * 4096))
      ((s.mem table (level1Index (page.number * 4096))).withFrame n)) s.allocator s') :
    HostedTree source used root s' ∧ Confined root s s' ∧ translation s'.mem root =
      Function.update (translation s.mem root) page.indices (some n) := by
  have hsole := h.tree.sole _ table hpage.tablePath htable
  have htables : tables s'.mem root = tables s.mem root := by
    rw [hreach.mem]
    exact set_leaf_tables rfl hsole
  have hslot : ∀ f, link s'.mem f recursiveSlot = link s.mem f recursiveSlot := by
    intro f
    rw [hreach.mem, link, Memory.set_of_ne _ _ (Or.inr hpage.level1Index.symm), link]
  have htree : TableTree s'.mem root := by
    rw [hreach.mem]
    apply h.tree.set_leaf htable hpage.tablePath rfl hpage.level1Index
    · rw [PageEntry.isHuge_withFrame]
      exact h.tree.small _ table _ hpage.tablePath htable hpage.level1Index
    · exact (h.tree.plain _ table _ hpage.tablePath rfl htable hpage.level1Index).withFrame hn
  refine ⟨⟨⟨⟨?_, ?_⟩, ?_, ?_, ?_⟩, htree⟩, .of_set hreach htables ?_, ?_⟩
  · rw [hslot, hreach.cr3]
    exact h.window.enters
  · rw [hslot]
    exact h.window.stays
  · rw [htables, hreach.cr3]
    exact h.active
  · rw [htables]
    exact h.apart
  · rw [htables, hreach.allocator]
    exact h.serves
  · exact mem_nodes hpage.tablePath htable
  · rw [hreach.mem, h.tree.translation_set hpage _ htable, PageEntry.isPresent_withFrame,
      PageEntry.frame_withFrame _ hn, if_pos rfl]

/-- A call of `map` that returns keeps a hosted tree. It only returns `Ok` when the last index
of the page is not the recursive slot, since that entry of a level-1 table is in use. -/
theorem map (h : HostedTree source used root s) {page : Page} {frame : Frame}
    (hpath : TablePath (tablePath (page.number * 4096))) {result : Except TableError Unit}
    (hrun : ActivePageTable.map page frame s = .ok result s') :
    HostedTree source used root s' ∧ Confined root s s' ∧
      Translates root page frame s s' result := by
  obtain ⟨hnumber, hreturned⟩ := map_returned hrun
  obtain ⟨small, hsmall, hrun, hsame⟩ : ∃ small : Frame, small.number < 2 ^ 36 ∧
      ActivePageTable.map page small s = .ok result s' ∧
      (result = .ok () → small = frame) := by
    rcases hreturned with ⟨rfl, hlt⟩ | ⟨⟨error, rfl⟩, hother⟩
    · exact ⟨frame, hlt, hrun, fun _ => rfl⟩
    · exact ⟨⟨0, 0, .used⟩, by decide, hother _ (by decide), fun hok => by cases hok⟩
  obtain ⟨s₁, h₁, hgrown, -, -, hcases⟩ := h.map_cases hnumber hsmall hpath
    (h.tree.passable hpath)
  obtain ⟨h₁, htranslation⟩ := h.of_grown h₁ hgrown
  rcases hcases with ⟨hrun', -⟩ |
    ⟨table, n, htable, -, -, ⟨-, hrun'⟩ | ⟨hvacant, s₂, hrun', hreach⟩⟩
  · rw [hrun] at hrun'
    obtain ⟨rfl, rfl⟩ := EStateM.Result.ok.inj hrun'
    exact ⟨h₁, .of_grown hgrown, htranslation⟩
  · rw [hrun] at hrun'
    obtain ⟨rfl, rfl⟩ := EStateM.Result.ok.inj hrun'
    exact ⟨h₁, .of_grown hgrown, htranslation⟩
  · rw [hrun] at hrun'
    obtain ⟨rfl, rfl⟩ := EStateM.Result.ok.inj hrun'
    obtain rfl := hsame rfl
    have hlevel1 : level1Index (page.number * 4096) ≠ recursiveSlot := by
      intro hslot
      have hloop := h₁.tree.loops _ table hpath (List.cons_ne_nil _ _) htable
      rw [hslot, (PageEntry.child_eq_some.mp hloop).1] at hvacant
      cases hvacant
    have hpage : Ordinary page.indices := by
      intro i hi
      rcases List.mem_append.mp hi with hi | hi
      · exact hpath.2 i hi
      · rw [List.mem_singleton.mp hi]
        exact hlevel1
    have hlookup := h₁.tree.translation_eq hpage
    rw [htable, Option.bind_some, hvacant, if_neg (by decide)] at hlookup
    obtain ⟨h₂, hconfined, hfilled⟩ := h₁.fill hpage hsmall htable hreach
    rw [htranslation] at hlookup hfilled
    exact ⟨h₂, (Confined.of_grown hgrown).trans hconfined, hpage, hlookup, hfilled⟩

end HostedTree

/-- A level-4 table whose only present entry is the recursive slot. -/
structure OnlyRecursive (mem : Memory) (root : ℕ) : Prop where
  /-- The recursive slot refers to the table itself. -/
  self : link mem root recursiveSlot = some root
  /-- No other entry is present. -/
  absent : ∀ i, i ≠ recursiveSlot → (mem root i).isPresent = false

namespace OnlyRecursive

variable {mem : Memory} {root : ℕ} (h : OnlyRecursive mem root)
include h

/-- The window of the table shows the table. -/
theorem window : Window mem root root := ⟨h.self, h.self⟩

/-- The table is the only one. -/
theorem path_eq_nil {path : List Index} {table : ℕ} (hpath : TablePath path)
    (htable : descend (link mem) root path = some table) : path = [] := by
  cases path with
  | nil => rfl
  | cons i rest =>
    have hvacant : link mem root i = none :=
      PageEntry.child_eq_none (h.absent i (hpath.2 i (by simp)))
    rw [descend, hvacant, Option.bind_none] at htable
    cases htable

/-- The root is the only table. -/
theorem tables_eq : tables mem root = {root} := by
  apply Set.Subset.antisymm
  · rintro table ⟨path, hpath, htable⟩
    rw [h.path_eq_nil hpath htable] at htable
    exact (Option.some.inj htable).symm
  · exact Set.singleton_subset_iff.mpr root_mem_nodes

/-- A single table without the page-size bit is a tree. -/
theorem tree (hsmall : ∀ i, i ≠ recursiveSlot → (mem root i).isHuge = false) :
    TableTree mem root := by
  constructor
  · intro path table hpath htable other hother hreach
    rw [h.path_eq_nil hpath htable, h.path_eq_nil hother hreach]
  · intro path table i hpath htable hi
    obtain rfl := h.path_eq_nil hpath htable
    obtain rfl := Option.some.inj htable
    exact hsmall i hi
  · intro path table i hpath hlen htable hi
    rw [h.path_eq_nil hpath htable] at hlen
    cases hlen
  · intro path table hpath hne htable
    exact absurd (h.path_eq_nil hpath htable) hne

/-- No page is mapped. -/
theorem walk_eq_none {ix : List Index} (hix : Ordinary ix) : walk mem root ix = none := by
  cases ix with
  | nil => rfl
  | cons i rest => exact walk_absent (h.absent i (hix i (by simp)))

end OnlyRecursive

end Axel
