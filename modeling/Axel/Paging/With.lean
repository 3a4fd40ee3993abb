import Axel.Paging.FindEmpty
import Axel.Paging.Tree

/-!
# Working on an inactive table

`ActivePageTable::with` maps the active level-4 table at a temporary page, lets the recursive
slot of the active table refer to an inactive level-4 table, runs a closure, and restores the
slot through the temporary page. In between the recursive window shows the tables below the
inactive table, so the closure works on these. This file shows that the closure leaves the
active tables alone and that the slot is restored.
-/

namespace Axel

open Descent Table ActivePageTable

variable {α : Type}

/-- A closure that makes finitely many calls of `map` and returns. Each call may depend on the
results of the calls before. -/
inductive MapProgram where
  /-- Return a result. -/
  | done (result : Except TableError Unit)
  /-- Call `map(page, frame)` and go on with its result. -/
  | call (page : Page) (frame : Frame) (next : Except TableError Unit → MapProgram)

/-- Run the calls. -/
def MapProgram.run [FrameAllocator α] : MapProgram → Kernel α (Except TableError Unit)
  | .done result => return result
  | .call page frame next => do (next (← ActivePageTable.map page frame)).run

/-- No index of a page is the recursive slot. -/
def MapProgram.Ordinary : MapProgram → Prop
  | .done _ => True
  | .call page _ next => Axel.Ordinary page.indices ∧ ∀ result, (next result).Ordinary

/-- The part of `with` before the closure. It returns the pointer to the original table. -/
def withOpen [FrameAllocator α] (inactive : InActivePageTable) :
    Kernel α (Except TableError ℕ) := do
  let addr ← readCr3
  match ← findEmptyPage with
  | none => return .error .noEntry
  | some page =>
    match ← map page (Frame.fromAddress addr) with
    | .error error => return .error error
    | .ok () =>
      let originalTable ← lift page.address
      setEntryFrameAddr level4PageTable 511 (← lift inactive.level4PageTable.address)
      setEntryFlags level4PageTable 511 .writable
      return .ok originalTable

/-- The part of `with` after the closure. -/
def withClose (originalTable addr : ℕ) : Kernel α Unit := do
  setEntryFrameAddr originalTable 511 addr
  setEntryFlags originalTable 511 .writable

/-- `with` opens the inactive table, runs the closure and closes the table. -/
theorem withTable_eq [FrameAllocator α] (inactive : InActivePageTable)
    (f : Kernel α (Except TableError Unit)) :
    withTable inactive f = (do
      let addr ← readCr3
      match ← withOpen inactive with
      | .error error => return .error error
      | .ok originalTable =>
        let result ← f
        withClose originalTable addr
        return result) := by
  funext s
  simp only [withTable, withOpen, withClose, bind, EStateM.bind, readCr3]
  cases findEmptyPage s with
  | error fault s₁ => rfl
  | ok page s₁ =>
    cases page with
    | none => rfl
    | some page =>
      simp only [EStateM.bind]
      cases map page (Frame.fromAddress (s.cr3 * frameSize)) s₁ with
      | error fault s₂ => rfl
      | ok mapped s₂ =>
        cases mapped with
        | error error => rfl
        | ok u =>
          simp only [EStateM.bind]
          cases (lift page.address : Kernel α ℕ) s₂ with
          | error fault s₃ => rfl
          | ok originalTable s₃ =>
            simp only []
            cases (lift inactive.level4PageTable.address : Kernel α ℕ) s₃ with
            | error fault s₄ => rfl
            | ok addr s₄ =>
              simp only []
              cases (setEntryFrameAddr level4PageTable 511 addr : Kernel α Unit) s₄ with
              | error fault s₅ => rfl
              | ok u s₅ =>
                simp only []
                cases (setEntryFlags level4PageTable 511 .writable : Kernel α Unit) s₅ with
                | error fault s₆ => rfl
                | ok u s₆ =>
                  simp only [EStateM.bind, pure, EStateM.pure]
                  cases f s₆ with
                  | error fault s₇ => rfl
                  | ok result s₇ =>
                    simp only []
                    cases (setEntryFrameAddr originalTable 511 (s.cr3 * frameSize) :
                      Kernel α Unit) s₇ with
                    | error fault s₈ => rfl
                    | ok u s₈ => rfl

section Slots

variable {mem mem' : Memory} {root : ℕ} (h : ∀ f i, i ≠ recursiveSlot → mem' f i = mem f i)
include h

/-- The set of tables does not depend on the recursive slots. -/
theorem slots_tables : tables mem' root = tables mem root :=
  nodes_congr fun f _ i hi => by rw [link, h f i hi, link]

/-- The translation of ordinary pages does not depend on the recursive slots. -/
theorem slots_walk {ix : List Index} (hix : Ordinary ix) :
    walk mem' root ix = walk mem root ix := by
  apply walk_congr
  rintro before i after node rfl -
  exact h node i (hix i (by simp))

end Slots

/-- The set of tables only depends on the tables. -/
theorem tables_congr {mem mem' : Memory} {root : ℕ} (h : ∀ f ∈ tables mem root, mem' f = mem f) :
    tables mem' root = tables mem root :=
  nodes_congr fun f hf i _ => link_of_frame (h f hf) i

/-- Tables whose frames are unchanged translate ordinary pages as before. -/
theorem walk_of_tables {mem mem' : Memory} {root : ℕ} (h : ∀ f ∈ tables mem root, mem' f = mem f)
    {ix : List Index} (hix : Ordinary ix) (hix4 : ix.length = 4) :
    walk mem' root ix = walk mem root ix := by
  apply walk_congr
  rintro before i after node rfl hnode
  have hbefore : TablePath before := by
    constructor
    · simp at hix4
      omega
    · exact fun j hj => hix j (List.mem_append_left _ hj)
  rw [h node (mem_nodes hbefore hnode)]

section Program

variable [FrameAllocator α] {source : FrameSource α} {used : Set ℕ} {root : ℕ} {s s' : Machine α}

/-- A program of calls stays within the tables that the window shows. -/
theorem HostedTree.run (h : HostedTree source used root s) (program : MapProgram)
    (hordinary : program.Ordinary) {result : Except TableError Unit}
    (hrun : program.run s = .ok result s') :
    HostedTree source used root s' ∧ Confined root s s' := by
  induction program generalizing s with
  | done r =>
    obtain ⟨-, rfl⟩ := EStateM.Result.ok.inj hrun
    exact ⟨h, .refl root s⟩
  | call page frame next ih =>
    obtain ⟨r, s₁, hmap, hrun⟩ := bind_eq_ok.mp hrun
    obtain ⟨h₁, hconfined, -⟩ := h.map hordinary.1.tablePath hmap
    obtain ⟨h', hconfined'⟩ := ih r h₁ (hordinary.2 r) hrun
    exact ⟨h', hconfined.trans hconfined'⟩

end Program

/-- An active table and an inactive one, as `with` expects them. -/
structure Suspendable (s : Machine α) (inactive : ℕ) : Prop where
  /-- The recursive slot of the active table refers to the table itself. -/
  self : link s.mem s.cr3 recursiveSlot = some s.cr3
  /-- The recursive slot is writable. -/
  writable : (s.mem s.cr3 recursiveSlot).flags.contains .writable = true
  /-- The active table is not a table of a lower level as well. -/
  sole : Sole s.mem s.cr3 [] s.cr3
  /-- The inactive table is empty apart from its recursive slot. -/
  cleared : ∀ i, i ≠ recursiveSlot → s.mem inactive i = .cleared
  /-- The recursive slot of the inactive table refers to the table itself. -/
  loop : link s.mem inactive recursiveSlot = some inactive
  /-- The inactive table is not one of the active tables. -/
  apart : inactive ∉ tables s.mem s.cr3

/-- The state in which the closure of `with` starts. -/
structure Opened [FrameAllocator α] (source : FrameSource α) (s : Machine α) (inactive : ℕ)
    (i4 : Index) (s₁ : Machine α) : Prop where
  /-- The table in CR3 is the same. -/
  cr3 : s₁.cr3 = s.cr3
  /-- The recursive slot of the active table refers to the inactive one. -/
  slot : s₁.mem s.cr3 recursiveSlot = (s.mem s.cr3 recursiveSlot).withFrame inactive
  /-- The window shows the tables below the inactive table. -/
  hosted : HostedTree source (tables s₁.mem s.cr3) inactive s₁
  /-- The inactive table is still empty. -/
  only : OnlyRecursive s₁.mem inactive
  /-- The two tables fit into an entry. -/
  fits : s.cr3 < 2 ^ 36 ∧ inactive < 2 ^ 36
  /-- The temporary page is below an ordinary entry. -/
  ordinary : i4 ≠ recursiveSlot
  /-- The temporary page is translated to the active table. -/
  temporary : walk s₁.mem s.cr3 [i4, 1, 1, 1] = some s.cr3
  /-- Every other page is translated as before. -/
  others : ∀ ix, Ordinary ix → ix.length = 4 → ix ≠ [i4, 1, 1, 1] →
    walk s₁.mem s.cr3 ix = walk s.mem s.cr3 ix

section Open

variable [FrameAllocator α] {source : FrameSource α} {s : Machine α}

/-- The active tables are hosted, with the inactive table as a frame in use. -/
theorem Suspendable.hosted {inactive : ℕ} (h : Suspendable s inactive)
    (hserves : source.Serves s.allocator (insert inactive (tables s.mem s.cr3))) :
    Hosted source {inactive} s.cr3 s := by
  refine ⟨⟨h.self, h.self⟩, Or.inr root_mem_nodes, Set.disjoint_singleton_left.mpr h.apart, ?_⟩
  rw [Set.singleton_union]
  exact hserves

/-- The recursive slot of the active table was redirected to another table. -/
structure Redirected (s s' : Machine α) (inactive : ℕ) : Prop where
  /-- The table in CR3 is the same. -/
  cr3 : s'.cr3 = s.cr3
  /-- The recursive slot of the active table. -/
  slot : s'.mem s.cr3 recursiveSlot = (s.mem s.cr3 recursiveSlot).withFrame inactive
  /-- The other table still refers to itself. -/
  loop : link s'.mem inactive recursiveSlot = some inactive
  /-- All other entries are the same. -/
  slots : ∀ f i, i ≠ recursiveSlot → s'.mem f i = s.mem f i
  /-- No frame was taken. -/
  allocator : s'.allocator = s.allocator

omit [FrameAllocator α] in
/-- The two writes that redirect the recursive slot. The second one goes through the new window
and writes the slot of the other table. -/
theorem redirect_spec {inactive : ℕ} (hself : link s.mem s.cr3 recursiveSlot = some s.cr3)
    (hloop : link s.mem inactive recursiveSlot = some inactive) (hne : inactive ≠ s.cr3)
    (hlt : inactive < 2 ^ 36) :
    ∃ s₁ s', setEntryFrameAddr level4PageTable recursiveSlot (inactive * 4096) s = .ok () s₁ ∧
      setEntryFlags level4PageTable recursiveSlot .writable s₁ = .ok () s' ∧
      Redirected s s' inactive := by
  have hwindow : Window s.mem s.cr3 s.cr3 := ⟨hself, hself⟩
  obtain ⟨s₁, hrun₁, hreach₁⟩ := setEntryFrameAddr_spec hwindow.resolve_root recursiveSlot hlt
  have hwindow₁ : Window s₁.mem s₁.cr3 inactive := by
    rw [hreach₁.cr3, hreach₁.mem]
    constructor
    · rw [link, Memory.set_self]
      exact PageEntry.child_withFrame hlt (PageEntry.child_eq_some.mp hself).2.1
    · rw [link, Memory.set_of_ne _ _ (Or.inl hne)]
      exact hloop
  obtain ⟨s', hrun, hreach⟩ := setEntryFlags_spec hwindow₁.resolve_root recursiveSlot .writable
  refine ⟨s₁, s', hrun₁, hrun, hreach.cr3.trans hreach₁.cr3, ?_, ?_, ?_,
    hreach.allocator.trans hreach₁.allocator⟩
  · rw [hreach.mem, Memory.set_of_ne _ _ (Or.inl hne.symm), hreach₁.mem, Memory.set_self]
  · rw [hreach.mem, link, Memory.set_self]
    exact PageEntry.child_setWritable hwindow₁.stays
  · intro f i hi
    rw [hreach.mem, Memory.set_of_ne _ _ (Or.inr hi), hreach₁.mem,
      Memory.set_of_ne _ _ (Or.inr hi)]

/-- Opening the inactive table succeeds when the search does and the frames fit. -/
theorem Suspendable.open {inactive : InActivePageTable}
    (h : Suspendable s inactive.level4PageTable.number) {s₁ : Machine α} {i4 : Index} {last : ℕ}
    (hfind : findEmptyPage s = .ok (some (foundPage i4)) s₁)
    (h₁ : Hosted source {inactive.level4PageTable.number} s.cr3 s₁)
    (hgrown : Grown {inactive.level4PageTable.number} s.cr3 s s₁)
    (hempty : EmptyPages s s.cr3 i4 last s₁) (hcr3 : s.cr3 < 2 ^ 36)
    (hinactive : inactive.level4PageTable.number < 2 ^ 36) :
    ∃ s', withOpen inactive s = .ok (.ok ((foundPage i4).number * 4096)) s' ∧
      Opened source s inactive.level4PageTable.number i4 s' ∧ s'.allocator = s₁.allocator := by
  have hframe : (Frame.fromAddress (s.cr3 * 4096)).number = s.cr3 :=
    Nat.mul_div_cancel s.cr3 (by decide)
  obtain ⟨s₂, hrun₂, hreach₂⟩ := h₁.map_found hempty.ordinary hempty.fresh hempty.pass
    (show (Frame.fromAddress (s.cr3 * 4096)).number < 2 ^ 36 by rw [hframe]; exact hcr3)
  rw [hframe] at hreach₂
  obtain ⟨htables₂, hslot₂, hkept, htemporary, hothers⟩ := hempty.mapped hgrown hcr3 hreach₂.mem
  have hapart : inactive.level4PageTable.number ∉ tables s₁.mem s.cr3 :=
    Set.disjoint_left.mp h₁.apart (Set.mem_singleton _)
  have hframe₂ := hkept _ hapart
  have hcr3₂ : s₂.cr3 = s.cr3 := hreach₂.cr3.trans hgrown.cr3
  have hne : inactive.level4PageTable.number ≠ s.cr3 := fun hsame =>
    h.apart (hsame ▸ root_mem_nodes)
  have hself₂ : link s₂.mem s₂.cr3 recursiveSlot = some s₂.cr3 := by
    rw [hcr3₂, link, hslot₂]
    exact h.self
  have hloop₂ : link s₂.mem inactive.level4PageTable.number recursiveSlot =
      some inactive.level4PageTable.number := by
    rw [link, hframe₂]
    exact h.loop
  obtain ⟨s₃, s₄, hrun₃, hrun₄, hredirected⟩ :=
    redirect_spec hself₂ hloop₂ (by rw [hcr3₂]; exact hne) hinactive
  have hslots := hredirected.slots
  have hcr3₄ : s₄.cr3 = s.cr3 := hredirected.cr3.trans hcr3₂
  have hslot₄ := hredirected.slot
  rw [hcr3₂, hslot₂] at hslot₄
  have hcleared : ∀ i, i ≠ recursiveSlot → s₄.mem inactive.level4PageTable.number i = .cleared := by
    intro i hi
    rw [hslots _ _ hi, hframe₂, h.cleared i hi]
  have honly : OnlyRecursive s₄.mem inactive.level4PageTable.number :=
    ⟨hredirected.loop, fun i hi => by rw [hcleared i hi, PageEntry.isPresent_cleared]⟩
  have htables₄ : tables s₄.mem s.cr3 = tables s₁.mem s.cr3 :=
    (slots_tables hslots).trans htables₂
  have hallocator : s₄.allocator = s₁.allocator :=
    hredirected.allocator.trans hreach₂.allocator
  refine ⟨s₄, ?_, ⟨hcr3₄, hslot₄, ⟨⟨?_, ?_, ?_, ?_⟩, ?_⟩, honly,
    ⟨hcr3, hinactive⟩, hempty.ordinary, ?_, ?_⟩, hallocator⟩
  · have hnumber := (foundPage_indices i4).1
    calc withOpen inactive s = _ := bind_ok rfl
      _ = _ := bind_ok hfind
      _ = _ := bind_ok hrun₂
      _ = _ := bind_ok (lift_ok (Page.address_eq (by omega)))
      _ = _ := bind_ok (lift_ok (Frame.address_eq hinactive))
      _ = _ := bind_ok hrun₃
      _ = .ok (.ok ((foundPage i4).number * 4096)) s₄ := bind_ok hrun₄
  · refine ⟨?_, hredirected.loop⟩
    rw [hcr3₄, link, hslot₄]
    exact PageEntry.child_withFrame hinactive (PageEntry.child_eq_some.mp h.self).2.1
  · rw [hcr3₄]
    exact Or.inl root_mem_nodes
  · rw [honly.tables_eq, Set.disjoint_singleton_right, htables₄]
    exact hapart
  · rw [honly.tables_eq, htables₄, Set.union_comm, hallocator]
    exact h₁.serves
  · exact honly.tree fun i hi => by rw [hcleared i hi, PageEntry.isHuge_cleared]
  · rw [slots_walk hslots (foundPage_ordinary hempty.ordinary)]
    exact htemporary
  · intro ix hix hix4 hne
    rw [slots_walk hslots hix]
    exact hothers ix hix hix4 hne

/-- Everything that opening the inactive table can return. -/
theorem Suspendable.open_returned {inactive : InActivePageTable}
    (h : Suspendable s inactive.level4PageTable.number)
    (hserves : source.Serves s.allocator
      (insert inactive.level4PageTable.number (tables s.mem s.cr3)))
    {result : Except TableError ℕ} {s' : Machine α} (hrun : withOpen inactive s = .ok result s') :
    (∃ i4 s₁, findEmptyPage s = .ok (some (foundPage i4)) s₁ ∧
      result = .ok ((foundPage i4).number * 4096) ∧
      Opened source s inactive.level4PageTable.number i4 s') ∨
    result = .error .noEntry ∧ findEmptyPage s = .ok none s' ∧ s'.cr3 = s.cr3 ∧
      s'.mem s.cr3 recursiveSlot = s.mem s.cr3 recursiveSlot ∧
      ∀ ix, Ordinary ix → ix.length = 4 → walk s'.mem s.cr3 ix = walk s.mem s.cr3 ix := by
  rcases (h.hosted hserves).findEmptyPages_cases h.sole (le_refl 1) with
    ⟨s₁, i4, last, hfind, -, h₁, hgrown, hempty⟩ | ⟨s₁, hfind, -, hgrown, -⟩ |
    ⟨i4, s₁, -, -, hfind⟩
  · left
    have hopen : withOpen inactive s = _ := (bind_ok rfl).trans (bind_ok hfind)
    have hmapped := hrun
    rw [hopen] at hmapped
    obtain ⟨mapped, s₂, hmap, hmapped⟩ := bind_eq_ok.mp hmapped
    have hframe : (Frame.fromAddress (s.cr3 * frameSize)).number = s.cr3 :=
      Nat.mul_div_cancel s.cr3 (by decide)
    obtain ⟨-, ⟨rfl, hcr3⟩ | ⟨⟨error, rfl⟩, hother⟩⟩ := map_returned hmap
    · rw [hframe] at hcr3
      obtain ⟨originalTable, s₃, -, hmapped⟩ := bind_eq_ok.mp hmapped
      obtain ⟨addr, s₄, haddr, hmapped⟩ := bind_eq_ok.mp hmapped
      obtain ⟨hlt, rfl⟩ := checkedMul_eq_ok.mp (lift_eq_ok.mp haddr).1
      obtain ⟨u, s₅, hset, -⟩ := bind_eq_ok.mp hmapped
      have hinactive := (setEntryFrameAddr_returned hlt hset).1
      obtain ⟨s₆, hrun', hopened, -⟩ := h.open hfind h₁ hgrown hempty hcr3 hinactive
      rw [hrun] at hrun'
      obtain ⟨rfl, rfl⟩ := EStateM.Result.ok.inj hrun'
      exact ⟨i4, s₁, hfind, rfl, hopened⟩
    · have hnull : (Frame.mk 0 0 .used).number < 2 ^ 36 := by decide
      obtain ⟨s₃, hfilled, -⟩ := h₁.map_found hempty.ordinary hempty.fresh hempty.pass hnull
      rw [hother _ hnull] at hfilled
      cases hfilled
  · right
    have hopen : withOpen inactive s = .ok (.error .noEntry) s₁ :=
      (bind_ok rfl).trans (bind_ok hfind)
    rw [hopen] at hrun
    obtain ⟨rfl, rfl⟩ := EStateM.Result.ok.inj hrun
    exact ⟨rfl, hfind, hgrown.cr3, hgrown.slot _ root_mem_nodes, hgrown.walk⟩
  · have hopen : withOpen inactive s = .error .debugAssert s₁ :=
      (bind_ok rfl).trans (bind_error hfind)
    rw [hopen] at hrun
    cases hrun

end Open

section Close

variable [FrameAllocator α] {source : FrameSource α} {s s₁ s₂ : Machine α} {inactive : ℕ}
  {i4 : Index}

/-- The closure leaves the active tables as they are. -/
theorem Opened.active_eq (h₂ : HostedTree source (tables s₁.mem s.cr3) inactive s₂)
    (hconfined : Confined inactive s₁ s₂) {f : ℕ} (hf : f ∈ tables s₁.mem s.cr3) :
    s₂.mem f = s₁.mem f :=
  hconfined.frame f (Set.disjoint_left.mp h₂.apart hf)

/-- The temporary page still shows the active table when the closure has returned, so closing
restores the recursive slot, when the page has a canonical address. -/
theorem Opened.close (h : Opened source s inactive i4 s₁)
    (hpresent : (s.mem s.cr3 recursiveSlot).isPresent = true)
    (hwritable : (s.mem s.cr3 recursiveSlot).flags.contains .writable = true)
    (hself : (s.mem s.cr3 recursiveSlot).frame = s.cr3)
    (h₂ : HostedTree source (tables s₁.mem s.cr3) inactive s₂)
    (hconfined : Confined inactive s₁ s₂)
    (hcanonical : Canonical ((foundPage i4).number * 4096)) :
    ∃ s', withClose ((foundPage i4).number * 4096) (s.cr3 * 4096) s₂ = .ok () s' ∧
      s'.cr3 = s.cr3 ∧
      s'.mem = s₂.mem.set s.cr3 recursiveSlot (s.mem s.cr3 recursiveSlot).tidy := by
  have hcr3₂ : s₂.cr3 = s.cr3 := hconfined.cr3.trans h.cr3
  have hordinary := foundPage_ordinary h.ordinary
  have hindices := indices_foundPage i4
  have hwalk₂ : walk s₂.mem s.cr3 [i4, 1, 1, 1] = some s.cr3 := by
    rw [walk_of_tables (fun f hf => Opened.active_eq h₂ hconfined hf) hordinary rfl]
    exact h.temporary
  have hresolve₂ : s₂.resolve ((foundPage i4).number * 4096) = .ok s.cr3 := by
    apply resolve_ok hcanonical
    rw [hindices, hcr3₂, hwalk₂]
  obtain ⟨s₃, hrun₃, hreach₃⟩ := setEntryFrameAddr_spec hresolve₂ recursiveSlot h.fits.1
  have hwalk₃ : walk s₃.mem s.cr3 [i4, 1, 1, 1] = some s.cr3 := by
    rw [hreach₃.mem, slots_walk (fun f i hi => Memory.set_of_ne _ _ (Or.inr hi)) hordinary, hwalk₂]
  have hresolve₃ : s₃.resolve ((foundPage i4).number * 4096) = .ok s.cr3 := by
    apply resolve_ok hcanonical
    rw [hindices, hreach₃.cr3, hcr3₂, hwalk₃]
  obtain ⟨s₄, hrun₄, hreach₄⟩ := setEntryFlags_spec hresolve₃ recursiveSlot .writable
  refine ⟨s₄, (bind_ok hrun₃).trans hrun₄, ?_, ?_⟩
  · rw [hreach₄.cr3, hreach₃.cr3, hcr3₂]
  · have hslot : s₂.mem s.cr3 recursiveSlot =
        (s.mem s.cr3 recursiveSlot).withFrame inactive := by
      rw [Opened.active_eq h₂ hconfined root_mem_nodes, h.slot]
    have htidy := PageEntry.withFrame_withFrame h.fits.2 hpresent hwritable
    rw [hself] at htidy
    rw [hreach₄.mem, hreach₃.mem, Memory.set_self, Memory.set_set, hslot, htidy]

omit [FrameAllocator α] in
/-- Writing an entry keeps the allocator. -/
theorem writeEntry_allocator {pointer : ℕ} {i : Index} {e : PageEntry} {s s' : Machine α} {u : Unit}
    (h : writeEntry pointer i e s = .ok u s') : s'.allocator = s.allocator := by
  unfold writeEntry at h
  split at h
  case h_1 =>
    obtain ⟨-, rfl⟩ := EStateM.Result.ok.inj h
    rfl
  case h_2 => cases h

omit [FrameAllocator α] in
/-- Setting the address of an entry keeps the allocator. -/
theorem setEntryFrameAddr_allocator {pointer addr : ℕ} {i : Index} {s s' : Machine α} {u : Unit}
    (h : setEntryFrameAddr pointer i addr s = .ok u s') : s'.allocator = s.allocator := by
  obtain ⟨_, s₁, hread, hset⟩ := bind_eq_ok.mp h
  obtain ⟨_, -, hwrite⟩ := lift_bind_eq_ok.mp hset
  rw [writeEntry_allocator hwrite, readEntry_allocator hread]

omit [FrameAllocator α] in
/-- Closing keeps the allocator. -/
theorem withClose_allocator {originalTable addr : ℕ} {s s' : Machine α} {u : Unit}
    (h : withClose originalTable addr s = .ok u s') : s'.allocator = s.allocator := by
  obtain ⟨_, s₁, hset, hflags⟩ := bind_eq_ok.mp h
  obtain ⟨_, s₂, hread, hwrite⟩ := bind_eq_ok.mp hflags
  rw [writeEntry_allocator hwrite, readEntry_allocator hread, setEntryFrameAddr_allocator hset]

omit [FrameAllocator α] in
/-- Closing only returns when the temporary page has a canonical address. -/
theorem withClose_returned {originalTable n : ℕ} {s s' : Machine α} {u : Unit}
    (hn : n * 4096 < usizeCount) (h : withClose originalTable (n * 4096) s = .ok u s') :
    Canonical originalTable := by
  obtain ⟨_, s₁, hset, -⟩ := bind_eq_ok.mp h
  exact (setEntryFrameAddr_returned hn hset).2

end Close

section Result

variable [FrameAllocator α] {source : FrameSource α} {s s' : Machine α}
  {inactive : InActivePageTable}

/-- Everything `with` can return, with the allocator that it leaves, for a closure that stays
within the tables that the window shows. -/
theorem Suspendable.with_closed (h : Suspendable s inactive.level4PageTable.number)
    (hserves : source.Serves s.allocator
      (insert inactive.level4PageTable.number (tables s.mem s.cr3)))
    {f : Kernel α (Except TableError Unit)}
    {result : Except TableError Unit}
    (hkeeps : ∀ used s₁ s₂, HostedTree source used inactive.level4PageTable.number s₁ →
      f s₁ = .ok result s₂ → HostedTree source used inactive.level4PageTable.number s₂ ∧
        Confined inactive.level4PageTable.number s₁ s₂)
    (hrun : withTable inactive f s = .ok result s') :
    (∃ i4 s₀ s₁ s₂, findEmptyPage s = .ok (some (foundPage i4)) s₀ ∧
      Opened source s inactive.level4PageTable.number i4 s₁ ∧ f s₁ = .ok result s₂ ∧
      s'.cr3 = s.cr3 ∧
      s'.mem = s₂.mem.set s.cr3 recursiveSlot (s.mem s.cr3 recursiveSlot).tidy ∧
      s'.allocator = s₂.allocator) ∨
    result = .error .noEntry ∧ findEmptyPage s = .ok none s' ∧ s'.cr3 = s.cr3 ∧
      s'.mem s.cr3 recursiveSlot = s.mem s.cr3 recursiveSlot ∧
      ∀ ix, Ordinary ix → ix.length = 4 → walk s'.mem s.cr3 ix = walk s.mem s.cr3 ix := by
  rw [withTable_eq, bind_ok (show readCr3 s = .ok (s.cr3 * 4096) s from rfl)] at hrun
  obtain ⟨opened, s₁, hopen, hrun⟩ := bind_eq_ok.mp hrun
  rcases h.open_returned hserves hopen with ⟨i4, s₀, hfind, rfl, hopened⟩ | ⟨rfl, hearly⟩
  · left
    obtain ⟨result₂, s₂, hf, hrun⟩ := bind_eq_ok.mp hrun
    obtain ⟨u, s₃, hclose, hrun⟩ := bind_eq_ok.mp hrun
    obtain ⟨rfl, rfl⟩ := EStateM.Result.ok.inj hrun
    obtain ⟨h₂, hconfined⟩ := hkeeps _ s₁ s₂ hopened.hosted hf
    have hfits : s.cr3 * 4096 < usizeCount := by
      have := hopened.fits.1
      unfold usizeCount
      omega
    obtain ⟨hpresent, -, hself⟩ := PageEntry.child_eq_some.mp h.self
    obtain ⟨s₄, hclose', hcr3, hmem⟩ := hopened.close hpresent h.writable hself h₂ hconfined
      (withClose_returned hfits hclose)
    rw [hclose] at hclose'
    obtain ⟨-, rfl⟩ := EStateM.Result.ok.inj hclose'
    exact ⟨i4, s₀, s₁, s₂, hfind, hopened, hf, hcr3, hmem, withClose_allocator hclose⟩
  · right
    obtain ⟨rfl, rfl⟩ := EStateM.Result.ok.inj hrun
    exact ⟨rfl, hearly⟩

/-- Everything `with` can return, for a closure that stays within the tables that the window
shows. -/
theorem Suspendable.with_returned (h : Suspendable s inactive.level4PageTable.number)
    (hserves : source.Serves s.allocator
      (insert inactive.level4PageTable.number (tables s.mem s.cr3)))
    {f : Kernel α (Except TableError Unit)}
    {result : Except TableError Unit}
    (hkeeps : ∀ used s₁ s₂, HostedTree source used inactive.level4PageTable.number s₁ →
      f s₁ = .ok result s₂ → HostedTree source used inactive.level4PageTable.number s₂ ∧
        Confined inactive.level4PageTable.number s₁ s₂)
    (hrun : withTable inactive f s = .ok result s') :
    (∃ i4 s₀ s₁ s₂, findEmptyPage s = .ok (some (foundPage i4)) s₀ ∧
      Opened source s inactive.level4PageTable.number i4 s₁ ∧ f s₁ = .ok result s₂ ∧
      s'.cr3 = s.cr3 ∧
      s'.mem = s₂.mem.set s.cr3 recursiveSlot (s.mem s.cr3 recursiveSlot).tidy) ∨
    result = .error .noEntry ∧ findEmptyPage s = .ok none s' ∧ s'.cr3 = s.cr3 ∧
      s'.mem s.cr3 recursiveSlot = s.mem s.cr3 recursiveSlot ∧
      ∀ ix, Ordinary ix → ix.length = 4 → walk s'.mem s.cr3 ix = walk s.mem s.cr3 ix := by
  rcases h.with_closed hserves hkeeps hrun with
    ⟨i4, s₀, s₁, s₂, hfind, hopened, hf, hcr3, hmem, -⟩ | hearly
  · exact Or.inl ⟨i4, s₀, s₁, s₂, hfind, hopened, hf, hcr3, hmem⟩
  · exact Or.inr hearly

end Result

section Isolation

variable [FrameAllocator α] {source : FrameSource α} {s : Machine α}
  {inactive : InActivePageTable} {program : MapProgram}

end Isolation

/-- With three free frames and an entry in the lower half of the level-4 table, `with` runs
its closure and returns. -/
theorem Suspendable.with_runs [FrameAllocator α] {source : FrameSource α} {s : Machine α}
    {inactive : InActivePageTable}
    (h : Suspendable s inactive.level4PageTable.number)
    (hserves : source.Serves s.allocator
      (insert inactive.level4PageTable.number (tables s.mem s.cr3)))
    (hlasts : Lasts 3 s.allocator) {i4 : Index}
    (hfound : firstVacant s.mem s.cr3 = some i4)
    (hsmall : (s.mem s.cr3 i4).isHuge = false) (hlow : i4.val < 256) (hcr3 : s.cr3 < 2 ^ 36)
    (hinactive : inactive.level4PageTable.number < 2 ^ 36)
    {f : Kernel α (Except TableError Unit)} {result : Except TableError Unit}
    (hf : ∀ s₁, Opened source s inactive.level4PageTable.number i4 s₁ →
      Drawn 3 s.allocator s₁.allocator → ∃ s₂, f s₁ = .ok result s₂ ∧
        HostedTree source (tables s₁.mem s.cr3) inactive.level4PageTable.number s₂ ∧
        Confined inactive.level4PageTable.number s₁ s₂) :
    ∃ s₁ s₂ s', withTable inactive f s = .ok result s' ∧ f s₁ = .ok result s₂ ∧
      Opened source s inactive.level4PageTable.number i4 s₁ ∧
      Drawn 3 s.allocator s₁.allocator ∧ s'.allocator = s₂.allocator ∧
      s'.mem = s₂.mem.set s.cr3 recursiveSlot (s.mem s.cr3 recursiveSlot).tidy := by
  have hhosted := h.hosted hserves
  obtain ⟨s₁, last, hfind, h₁, hgrown, hempty⟩ := hhosted.findEmptyPages_runs h.sole
    (le_refl 1) (by decide) hfound hsmall hlasts
  obtain ⟨s₂, hopen, hopened, hallocator⟩ := h.open hfind h₁ hgrown hempty hcr3 hinactive
  have hdrawn := hempty.drawn
  rw [← hallocator] at hdrawn
  obtain ⟨s₃, hrun, h₃, hconfined⟩ := hf s₂ hopened hdrawn
  obtain ⟨hpresent, -, hself⟩ := PageEntry.child_eq_some.mp h.self
  have hcanonical : Canonical ((foundPage i4).number * 4096) := by
    left
    show digits [i4, 1, 1, 1] * 4096 < _
    simp only [digits, List.foldl_cons, List.foldl_nil, Fin.val_one]
    omega
  obtain ⟨s₄, hclose, -, hmem⟩ := hopened.close hpresent h.writable hself h₃ hconfined hcanonical
  refine ⟨s₂, s₃, s₄, ?_, hrun, hopened, hdrawn, withClose_allocator hclose, hmem⟩
  rw [withTable_eq]
  calc _ = _ := bind_ok rfl
    _ = _ := bind_ok hopen
    _ = _ := bind_ok hrun
    _ = _ := bind_ok hclose
    _ = .ok result s₄ := rfl

end Axel
