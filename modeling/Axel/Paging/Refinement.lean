import Axel.Paging.Tree
import Mathlib.Logic.Function.Basic

/-!
# Page tables as a partial map

The abstract model of a page table is a partial map from pages to frames. The pages are
those without the recursive slot among their indices, named by their four indices. This
file states what `map` and `unmap` mean for such a map and shows that the tables, as the
processor walks them, behave like it in every state that calls of these two functions
reach.
-/

namespace Axel

open Descent Table ActivePageTable

variable {α : Type}

/-- The translation by the active table. -/
def Machine.pages (s : Machine α) : PageMap := translation s.mem s.cr3

/-- The frames that a partial map uses. -/
def PageMap.frames (pages : PageMap) : Set ℕ := {frame | ∃ ix, pages ix = some frame}

/-- A call of one of the two functions. -/
inductive TableCall where
  /-- `map(page, frame)`. -/
  | map (page : Page) (frame : Frame)
  /-- `unmap(page)`. -/
  | unmap (page : Page)

/-- Run a call. -/
def TableCall.run [FrameAllocator α] : TableCall → Kernel α (Except TableError Unit)
  | .map page frame => ActivePageTable.map page frame
  | .unmap page => ActivePageTable.unmap page

/-- The numbers of the frames that were given back. -/
def freedFrames (events : List Event) : List ℕ :=
  events.filterMap fun
    | .free frame => some frame.number
    | _ => none

/-- What a call may return for a partial map, which events it may have, and which partial
map it leaves. -/
inductive PageMap.Accepts (pages : PageMap) :
    TableCall → Except TableError Unit → List Event → PageMap → Prop where
  /-- The page is in the map already. -/
  | alreadyMapped {page frame events} : (pages page.indices).isSome →
    Accepts pages (.map page frame) (.error .alreadyMapped) events pages
  /-- The page is added to the map. -/
  | mapped {page frame events} : pages page.indices = none →
    Accepts pages (.map page frame) (.ok ()) events
      (Function.update pages page.indices (some frame.number))
  /-- The allocator had no frame for a table. -/
  | noPageTable {page frame events} : pages page.indices = none → .alloc none ∈ events →
    Accepts pages (.map page frame) (.error .noPageTable) events pages
  /-- The page is not in the map. -/
  | noEntry {page events} : pages page.indices = none → freedFrames events = [] →
    Accepts pages (.unmap page) (.error .noEntry) events pages
  /-- The page is removed from the map, and its frame is given back. -/
  | unmapped {page events frame} : pages page.indices = some frame → freedFrames events = [frame] →
    Accepts pages (.unmap page) (.ok ()) events (Function.update pages page.indices none)

section Legal

variable [FrameAllocator α]

/-- The calls under consideration: the page has no recursive slot, a frame to be mapped
fits into an entry and is not a table, the allocator hands out no frame in use, and it
takes the frame of a mapped page back. -/
def Legal (source : FrameSource α) (s : Machine α) : TableCall → Prop
  | .map page frame =>
    page.number < 2 ^ 52 ∧ Ordinary page.indices ∧ frame.number < 2 ^ 36 ∧
      frame.number ∉ tables s.mem s.cr3 ∧
      source.Serves s.allocator (insert frame.number s.pages.frames ∪ tables s.mem s.cr3)
  | .unmap page =>
    page.number < 2 ^ 52 ∧ Ordinary page.indices ∧
      ∀ frame, s.pages page.indices = some frame →
        ∃ a, FrameAllocator.free s.allocator (Frame.fromAddress (frame * 4096)) = .ok a

/-- The states that sequences of such calls reach. -/
inductive Reached (source : FrameSource α) (s₀ : Machine α) : Machine α → Prop where
  /-- The first state. -/
  | start : Reached source s₀ s₀
  /-- The state after one more call. -/
  | call {s s' : Machine α} {call : TableCall} {result : Except TableError Unit} :
    Reached source s₀ s → Legal source s call → call.run s = .ok result s' →
      Reached source s₀ s'

end Legal

/-- The invariant: the active tables form a tree that the window shows, and no table is
mapped. -/
structure ActiveTree (s : Machine α) : Prop where
  /-- The window shows the active table. -/
  window : Window s.mem s.cr3 s.cr3
  /-- The tables form a tree. -/
  tree : TableTree s.mem s.cr3
  /-- No table is the frame of a page. -/
  apart : Disjoint s.pages.frames (tables s.mem s.cr3)

/-- The first state satisfies the invariant, and no page is mapped. -/
theorem OnlyRecursive.activeTree {s : Machine α} (h : OnlyRecursive s.mem s.cr3)
    (hsmall : ∀ i, i ≠ recursiveSlot → (s.mem s.cr3 i).isHuge = false) :
    ActiveTree s ∧ s.pages = fun _ => none := by
  have hempty : s.pages = fun _ => none := by
    funext ix
    unfold Machine.pages translation
    split
    case isTrue hix => exact h.walk_eq_none hix.1
    case isFalse => rfl
  refine ⟨⟨h.window, h.tree hsmall, ?_⟩, hempty⟩
  rw [hempty, Set.disjoint_left]
  rintro frame ⟨ix, hframe⟩
  cases hframe

/-- Writing an entry of a level-1 table changes the partial map at one page. -/
theorem ActiveTree.pages_set {s s' : Machine α} (h : ActiveTree s) {page : Page}
    (hpage : Ordinary page.indices) {table : ℕ} {e : PageEntry}
    (htable : descend (link s.mem) s.cr3 (tablePath (page.number * 4096)) = some table)
    (hmem : s'.mem = s.mem.set table (Axel.level1Index (page.number * 4096)) e)
    (hcr3 : s'.cr3 = s.cr3) :
    s'.pages = Function.update s.pages page.indices
      (if e.isPresent then some e.frame else none) := by
  rw [Machine.pages, hmem, hcr3]
  exact h.tree.translation_set hpage e htable

/-- The invariant survives when an entry of a level-1 table is written. -/
theorem ActiveTree.set {s s' : Machine α} (h : ActiveTree s) {page : Page}
    (hpage : Ordinary page.indices) {table : ℕ} {e : PageEntry}
    (htable : descend (link s.mem) s.cr3 (tablePath (page.number * 4096)) = some table)
    (hmem : s'.mem = s.mem.set table (Axel.level1Index (page.number * 4096)) e)
    (hcr3 : s'.cr3 = s.cr3) (hhuge : e.isHuge = false) (hplain : e.Plain)
    (hframe : e.isPresent = true → e.frame ∉ tables s.mem s.cr3) : ActiveTree s' := by
  have hsole := h.tree.sole _ table hpage.tablePath htable
  have hslot : link s'.mem s.cr3 recursiveSlot = some s.cr3 := by
    rw [hmem, link, Memory.set_of_ne s.mem e (Or.inr hpage.level1Index.symm), ← link]
    exact h.window.enters
  refine ⟨?_, ?_, ?_⟩
  · rw [hcr3]
    exact ⟨hslot, hslot⟩
  · rw [hmem, hcr3]
    exact h.tree.set_leaf htable hpage.tablePath rfl hpage.level1Index hhuge hplain
  · have htables : tables s'.mem s'.cr3 = tables s.mem s.cr3 := by
      rw [hmem, hcr3]
      exact set_leaf_tables rfl hsole
    rw [htables, h.pages_set hpage htable hmem hcr3, Set.disjoint_left]
    rintro frame ⟨ix, hix⟩
    by_cases hsame : ix = page.indices
    · rw [hsame, Function.update_self] at hix
      cases hpresent : e.isPresent with
      | false => simp [hpresent] at hix
      | true =>
        rw [hpresent, if_pos rfl] at hix
        rw [← Option.some.inj hix]
        exact hframe hpresent
    · rw [Function.update_of_ne hsame] at hix
      exact Set.disjoint_left.mp h.apart ⟨ix, hix⟩

/-- The translation of a page by its level-1 table. -/
theorem ActiveTree.pages_eq {s : Machine α} (h : ActiveTree s) {page : Page}
    (hpage : Ordinary page.indices) :
    s.pages page.indices = (descend (link s.mem) s.cr3 (tablePath (page.number * 4096))).bind
      fun table => if (s.mem table (Axel.level1Index (page.number * 4096))).isPresent then
        some (s.mem table (Axel.level1Index (page.number * 4096))).frame else none :=
  h.tree.translation_eq hpage

/-- The invariant survives when tables are created. -/
theorem ActiveTree.of_grown {used : Set ℕ} {s s' : Machine α} (h : ActiveTree s)
    (hgrown : Grown used s.cr3 s s') (hwindow : Window s'.mem s'.cr3 s.cr3)
    (hused : s.pages.frames ⊆ used) (hapart : Disjoint used (tables s'.mem s.cr3)) :
    ActiveTree s' ∧ s'.pages = s.pages := by
  have hcr3 := hgrown.cr3
  have hpages : s'.pages = s.pages := by
    rw [Machine.pages, hcr3]
    exact translation_congr hgrown.walk
  refine ⟨⟨?_, ?_, ?_⟩, hpages⟩
  · rw [hcr3] at hwindow ⊢
    exact hwindow
  · rw [hcr3]
    exact h.tree.of_grown hgrown
  · rw [hpages, hcr3]
    exact hapart.mono_left hused

/-- A run that gives no frame back frees nothing. -/
theorem freedFrames_eq_nil {frames : Set ℕ} {events : List Event}
    (h : ∀ e ∈ events, e.Touches frames) : freedFrames events = [] := by
  rw [freedFrames, List.filterMap_eq_nil_iff]
  intro e he
  cases e with
  | free frame => exact absurd (h _ he) id
  | _ => rfl

section Step

variable [FrameAllocator α] {source : FrameSource α} {s : Machine α}

/-- One call of `map` keeps the invariant and does what the partial map asks for. -/
theorem ActiveTree.map (h : ActiveTree s) {page : Page} {frame : Frame}
    (hlegal : Legal source s (.map page frame)) :
    ∃ result s' events, ActivePageTable.map page frame s = .ok result s' ∧ ActiveTree s' ∧
      s'.trace = s.trace ++ events ∧ s.pages.Accepts (.map page frame) result events s'.pages ∧
      (result = .error .noPageTable → ∃ n a, n < 3 ∧ Drawn n s.allocator a ∧
        FrameAllocator.allocOne a = .ok (none, s'.allocator)) := by
  obtain ⟨hnumber, hpage, hframe, hnotTable, hserves⟩ := hlegal
  have hapart : Disjoint (insert frame.number s.pages.frames) (tables s.mem s.cr3) := by
    rw [Set.disjoint_insert_left]
    exact ⟨hnotTable, h.apart⟩
  have hhosted : Hosted source (insert frame.number s.pages.frames) s.cr3 s :=
    ⟨h.window, Or.inr root_mem_nodes, hapart, hserves⟩
  obtain ⟨s₁, h₁, hgrown, -, -, hcases⟩ := hhosted.map_cases hnumber hframe hpage.tablePath
    (h.tree.passable hpage.tablePath)
  obtain ⟨htree₁, hpages₁⟩ := h.of_grown hgrown h₁.window (Set.subset_insert _ _) h₁.apart
  have hcr3 := hgrown.cr3
  have hlookup := htree₁.pages_eq hpage
  rw [hcr3] at hlookup
  obtain ⟨events, htrace, -⟩ := hgrown.events
  rcases hcases with ⟨hrun, hmissing, hdrawn, events', htrace', hevent⟩ |
    ⟨table, n, htable, -, -, ⟨hpresent, hrun⟩ | ⟨hvacant, s', hrun, hreach⟩⟩
  · refine ⟨_, s₁, events', hrun, htree₁, htrace', ?_, fun _ => hdrawn⟩
    rw [hpages₁]
    rw [hmissing, Option.bind_none, hpages₁] at hlookup
    exact .noPageTable hlookup hevent
  · refine ⟨_, s₁, events, hrun, htree₁, htrace, ?_, fun hresult => by cases hresult⟩
    rw [hpages₁]
    rw [htable, Option.bind_some, hpresent, if_pos rfl, hpages₁] at hlookup
    exact .alreadyMapped (by rw [hlookup, Option.isSome_some])
  · have htable' := htable
    rw [← hcr3] at htable'
    have hsmall := htree₁.tree.small _ table _ hpage.tablePath htable' hpage.level1Index
    have hplain := htree₁.tree.plain _ table _ hpage.tablePath rfl htable' hpage.level1Index
    have hfresh : frame.number ∉ tables s₁.mem s₁.cr3 := by
      rw [hcr3]
      exact Set.disjoint_left.mp h₁.apart (Set.mem_insert _ _)
    have htree' : ActiveTree s' := by
      apply htree₁.set hpage htable' hreach.mem hreach.cr3
      · rw [PageEntry.isHuge_withFrame, hsmall]
      · exact hplain.withFrame hframe
      · intro _
        rw [PageEntry.frame_withFrame _ hframe]
        exact hfresh
    have hpages' := htree₁.pages_set hpage htable' hreach.mem hreach.cr3
    rw [PageEntry.isPresent_withFrame, if_pos rfl, PageEntry.frame_withFrame _ hframe, hpages₁]
      at hpages'
    obtain ⟨events', htrace', -⟩ := hreach.events
    refine ⟨_, s', events ++ events', hrun, htree', ?_, ?_, fun hresult => by cases hresult⟩
    · rw [htrace', htrace, List.append_assoc]
    · rw [hpages']
      rw [htable, Option.bind_some, hvacant, if_neg (by decide), hpages₁] at hlookup
      exact .mapped hlookup

/-- One call of `unmap` keeps the invariant and does what the partial map asks for. -/
theorem ActiveTree.unmap (h : ActiveTree s) {page : Page} (hlegal : Legal source s (.unmap page)) :
    ∃ result s' events, ActivePageTable.unmap page s = .ok result s' ∧ ActiveTree s' ∧
      s'.trace = s.trace ++ events ∧
      s.pages.Accepts (.unmap page) result events s'.pages := by
  obtain ⟨hnumber, hpage, hfree⟩ := hlegal
  have hlookup := h.pages_eq hpage
  cases hpages : s.pages page.indices with
  | none =>
    have habsent : ∀ table,
        descend (link s.mem) s.cr3 (tablePath (page.number * 4096)) = some table →
        (s.mem table (Axel.level1Index (page.number * 4096))).isPresent = false := by
      intro table htable
      rw [hpages, htable, Option.bind_some] at hlookup
      by_contra hpresent
      rw [Bool.not_eq_false] at hpresent
      simp [hpresent] at hlookup
    obtain ⟨s', hrun, hreach⟩ := h.window.unmap_absent hnumber hpage.tablePath habsent
    obtain ⟨events, htrace, htouch⟩ := hreach.events
    have hpages' : s'.pages = s.pages := by
      rw [Machine.pages, hreach.mem, hreach.cr3, ← Machine.pages]
    refine ⟨_, s', events, hrun, ⟨?_, ?_, ?_⟩, htrace, ?_⟩
    · rw [hreach.mem, hreach.cr3]
      exact h.window
    · rw [hreach.mem, hreach.cr3]
      exact h.tree
    · rw [hpages', hreach.mem, hreach.cr3]
      exact h.apart
    · rw [hpages']
      exact .noEntry hpages (freedFrames_eq_nil htouch)
  | some frame =>
    obtain ⟨table, htable, haddr⟩ := h.tree.mapped_entry hpages
    obtain ⟨a, hfree⟩ := hfree frame hpages
    obtain ⟨s', before, hrun, hmem, hcr3, -, htrace, htouch⟩ :=
      h.window.unmap_present hnumber hpage.tablePath htable haddr hfree
    have hpages' := h.pages_set hpage htable hmem hcr3
    rw [PageEntry.isPresent_cleared, if_neg (by decide)] at hpages'
    refine ⟨_, s', _, hrun, ?_, (by rw [htrace, List.append_assoc]), ?_⟩
    · exact h.set hpage htable hmem hcr3 PageEntry.isHuge_cleared PageEntry.plain_cleared
        (fun hcleared => absurd hcleared (by decide))
    · rw [hpages']
      apply PageMap.Accepts.unmapped hpages
      have hbefore : freedFrames before = [] := freedFrames_eq_nil htouch
      have hnumber : (Frame.fromAddress (frame * 4096)).number = frame :=
        Nat.mul_div_cancel frame (by decide)
      unfold freedFrames at hbefore ⊢
      simp [hbefore, hnumber]

/-- One call keeps the invariant and does what the partial map asks for. -/
theorem ActiveTree.call (h : ActiveTree s) {call : TableCall} (hlegal : Legal source s call) :
    ∃ result s' events, call.run s = .ok result s' ∧ ActiveTree s' ∧
      s'.trace = s.trace ++ events ∧ s.pages.Accepts call result events s'.pages := by
  cases call with
  | map page frame =>
    obtain ⟨result, s', events, hrun, htree, htrace, haccepts, -⟩ := h.map hlegal
    exact ⟨result, s', events, hrun, htree, htrace, haccepts⟩
  | unmap page => exact h.unmap hlegal

/-- Every reached state satisfies the invariant. -/
theorem Reached.activeTree {s₀ : Machine α} (h : Reached source s₀ s)
    (hstart : ActiveTree s₀) : ActiveTree s := by
  induction h with
  | start => exact hstart
  | call _ hlegal hrun ih =>
    obtain ⟨result, s', events, hrun', htree, -⟩ := ih.call hlegal
    rw [hrun] at hrun'
    obtain ⟨-, rfl⟩ := EStateM.Result.ok.inj hrun'
    exact htree

/-- The page tables refine a partial map. They start as the empty map, when no entry of
the level-4 table has a stray page-size bit, and in every state that calls of `map` and
`unmap` reach from there, every further call returns and does what the partial map
accepts. -/
theorem tables_refine_pageMap {s₀ : Machine α} (hstart : OnlyRecursive s₀.mem s₀.cr3)
    (hsmall : ∀ i, i ≠ recursiveSlot → (s₀.mem s₀.cr3 i).isHuge = false) :
    (s₀.pages = fun _ => none) ∧
    ∀ s, Reached source s₀ s → ∀ call, Legal source s call →
      ∃ result s' events, call.run s = .ok result s' ∧ s'.trace = s.trace ++ events ∧
        s.pages.Accepts call result events s'.pages := by
  obtain ⟨htree, hempty⟩ := hstart.activeTree hsmall
  refine ⟨hempty, ?_⟩
  intro s hreached call hlegal
  obtain ⟨result, s', events, hrun, -, htrace, haccepts⟩ := (hreached.activeTree htree).call hlegal
  exact ⟨result, s', events, hrun, htrace, haccepts⟩

end Step

/-- A level-4 table in the frame 1 with a recursive slot, whose entry 0 is the given word. -/
def level4Memory (word : BitVec 64) : Memory := fun frame i =>
  if frame = 1 ∧ i = recursiveSlot then ⟨0x1003⟩
  else if frame = 1 ∧ i = 0 then ⟨word⟩
  else .cleared

/-- A machine with such a table and four free frames. -/
def level4Machine (word : BitVec 64) : Machine FramePool :=
  ⟨level4Memory word, 1, ⟨[2, 3, 4, 5]⟩, []⟩

/-- The recursive slot is the only present entry when the entry 0 is not present. -/
theorem level4Machine_onlyRecursive {word : BitVec 64} (h : word.getLsbD 0 = false) :
    OnlyRecursive (level4Machine word).mem (level4Machine word).cr3 := by
  constructor
  · show link (level4Memory word) 1 recursiveSlot = some 1
    rw [link, level4Memory, if_pos ⟨rfl, rfl⟩]
    decide
  · intro i hi
    show (level4Memory word 1 i).isPresent = false
    rw [level4Memory, if_neg (by simp [hi])]
    split
    · exact h
    · rfl

/-- Mapping the first page to the frame 9 is a legal first call. -/
theorem level4Machine_legal {word : BitVec 64} (h : word.getLsbD 0 = false)
    (hpages : (level4Machine word).pages = fun _ => none) :
    Legal FramePool.source (level4Machine word) (.map ⟨0⟩ ⟨9, 0, .used⟩) := by
  have htables : tables (level4Machine word).mem (level4Machine word).cr3 = {1} :=
    (level4Machine_onlyRecursive h).tables_eq
  refine ⟨by decide, by decide +kernel, by decide, ?_, ?_, ?_⟩
  · rw [htables]
    exact (by decide : ¬9 = 1)
  · exact (by decide : [2, 3, 4, 5].Nodup)
  · intro f hf
    rw [htables, hpages]
    have hcases : f = 2 ∨ f = 3 ∨ f = 4 ∨ f = 5 := by
      simpa [level4Machine] using hf
    constructor
    · rintro ((hframe | ⟨ix, hix⟩) | hroot)
      · have : f = 9 := hframe
        omega
      · cases hix
      · have : f = 1 := hroot
        omega
    · omega

/-- With three free frames a page that is not mapped gets mapped. -/
theorem ActiveTree.map_pool {s : Machine FramePool} (h : ActiveTree s) {page : Page} {frame : Frame}
    (hlegal : Legal FramePool.source s (.map page frame)) (hpages : s.pages page.indices = none)
    (hrich : 3 ≤ s.allocator.frames.length) :
    ∃ s', ActivePageTable.map page frame s = .ok (.ok ()) s' := by
  obtain ⟨result, s', events, hrun, -, -, haccepts, hempty⟩ := h.map hlegal
  generalize s'.pages = pages' at haccepts
  cases haccepts with
  | alreadyMapped hsome =>
    rw [hpages] at hsome
    cases hsome
  | mapped => exact ⟨s', hrun⟩
  | noPageTable =>
    obtain ⟨n, a, hn, hdrawn, halloc⟩ := hempty rfl
    have hlength := FramePool.length_of_exhausted hdrawn halloc
    omega

/-- The first call on an empty table is accepted. -/
theorem tables_refine_pageMap_first :
    ∃ result s' events,
      (TableCall.map ⟨0⟩ ⟨9, 0, .used⟩).run (level4Machine 0) = .ok result s' ∧
      s'.trace = (level4Machine 0).trace ++ events ∧
      (level4Machine 0).pages.Accepts (.map ⟨0⟩ ⟨9, 0, .used⟩) result events s'.pages := by
  have hstart := level4Machine_onlyRecursive (show (0 : BitVec 64).getLsbD 0 = false by decide)
  obtain ⟨hempty, hcalls⟩ :=
    @tables_refine_pageMap _ _ FramePool.source _ hstart (by decide +kernel)
  exact hcalls _ .start _ (level4Machine_legal (by decide) hempty)

/-- A stray page-size bit in an entry that is not present makes `map` fail an
assertion. -/
theorem not_tables_refine_pageMap :
    ¬∀ s₀ : Machine FramePool, OnlyRecursive s₀.mem s₀.cr3 →
      (s₀.pages = fun _ => none) ∧
      ∀ s, Reached FramePool.source s₀ s → ∀ call, Legal FramePool.source s call →
        ∃ result s' events, call.run s = .ok result s' ∧ s'.trace = s.trace ++ events ∧
          s.pages.Accepts call result events s'.pages := by
  intro hrefine
  have hstart := level4Machine_onlyRecursive (show (0x80 : BitVec 64).getLsbD 0 = false by decide)
  obtain ⟨hempty, hcalls⟩ := hrefine _ hstart
  obtain ⟨result, s', events, hrun, -⟩ := hcalls _ .start _ (level4Machine_legal (by decide) hempty)
  obtain ⟨s₁, hcreate⟩ := create_huge (i := 0) hstart.window descend_nil (by decide) (by decide)
    (show FrameAllocator.allocOne (level4Machine 0x80).allocator =
      .ok (some ⟨2, 0, .used⟩, _) from rfl)
    (by decide)
  have hfault : (TableCall.map ⟨0⟩ ⟨9, 0, .used⟩).run (level4Machine 0x80) =
      .error .debugAssert s₁ := by
    show ActivePageTable.map ⟨0⟩ ⟨9, 0, .used⟩ (level4Machine 0x80) = _
    rw [ActivePageTable.map, bind_ok (lift_ok (Page.address_eq (by decide))),
      bind_ok (lift_ok (Frame.address_eq (by decide)))]
    exact bind_error hcreate
  rw [hfault] at hrun
  cases hrun

end Axel
