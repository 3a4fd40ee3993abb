import Axel.Paging.BuddyFrames
import Axel.Paging.Atomicity
import Axel.Paging.ContinuousMap
import Axel.Paging.Interference

/-!
# Mapped frames and free frames

The page tables and the buddy allocator together. Callers allocate blocks of frames, map a block
with `auto_continuous_map` or a single frame with `map`, and unmap the pages again. `unmap`
knows a page and its frame, and `free` gives back as many frames as the object of that frame
stores. Both agree when the object stores the order 0.
-/

namespace Axel

open Descent Dyadic Table ActivePageTable

/-- The machine with the buddy allocator, the blocks that were allocated and are not mapped yet,
and the pages that were mapped. -/
structure FrameSystem where
  /-- The machine. -/
  machine : Machine (BuddyAllocator Frame)
  /-- The blocks that callers hold. -/
  held : List Block
  /-- The pages that callers mapped. -/
  mapped : List Page

/-- One call. -/
inductive FrameCall where
  /-- `BuddyAllocator::allocate`, or `alloc_one` with the order 0. -/
  | allocate (requestOrder : ℕ)
  /-- `auto_continuous_map` of a block. -/
  | autoContinuousMap (block : Block)
  /-- `map` of a page to a single frame. -/
  | map (page : Page) (block : Block)
  /-- `unmap` of a page. -/
  | unmap (page : Page)

namespace FrameSystem

/-- The frame that stands for a block. -/
def frame (σ : FrameSystem) (block : Block) : Frame := σ.machine.allocator.objs block.start

/-- Perform one call and record the blocks and the pages. A block that was mapped is not held
any more. -/
def call (σ : FrameSystem) : FrameCall → Except Fault FrameSystem
  | .allocate requestOrder => do
    let (obj, allocator) ← σ.machine.allocator.allocate requestOrder
    match obj with
    | some obj => return ⟨{ σ.machine with allocator }, ⟨obj, requestOrder⟩ :: σ.held, σ.mapped⟩
    | none => return ⟨{ σ.machine with allocator }, σ.held, σ.mapped⟩
  | .autoContinuousMap block =>
    match ActivePageTable.autoContinuousMap (σ.frame block) σ.machine with
    | .ok (some (addr, _)) machine =>
      .ok ⟨machine, σ.held.erase block, (List.range (2 ^ block.order)).map
        (fun i => Page.fromAddress (addr + i * 4096)) ++ σ.mapped⟩
    | .ok none machine => .ok ⟨machine, σ.held, σ.mapped⟩
    | .error fault _ => .error fault
  | .map page block =>
    match ActivePageTable.map page (σ.frame block) σ.machine with
    | .ok (.ok ()) machine => .ok ⟨machine, σ.held.erase block, page :: σ.mapped⟩
    | .ok (.error _) machine => .ok ⟨machine, σ.held, σ.mapped⟩
    | .error fault _ => .error fault
  | .unmap page =>
    match ActivePageTable.unmap page σ.machine with
    | .ok (.ok ()) machine => .ok ⟨machine, σ.held, σ.mapped.erase page⟩
    | .ok (.error _) machine => .ok ⟨machine, σ.held, σ.mapped⟩
    | .error fault _ => .error fault

end FrameSystem

/-- The frames of blocks. -/
def blockFrames (base : ℕ) (held : List Block) : Set ℕ :=
  {f | ∃ b ∈ held, ∃ j, b.Contains j ∧ f = base + j}

/-- A block of the order 0 has one object. -/
theorem eq_of_contains_zero {x j : ℕ} (h : (Block.mk x 0).Contains j) : j = x := by
  rw [Block.contains_mk, pow_zero] at h
  omega

/-- The frames of the blocks that are left are in no block that was removed. -/
theorem blockFrames_erase (base : ℕ) {held : List Block} {b : Block} (hb : b ∈ held)
    (hdisjoint : ∀ j, cover held j ≤ 1) :
    blockFrames base (held.erase b) ⊆ blockFrames base held ∧
      ∀ j, b.Contains j → base + j ∉ blockFrames base (held.erase b) := by
  constructor
  · rintro f ⟨c, hc, j, hj, rfl⟩
    exact ⟨c, List.mem_of_mem_erase hc, j, hj, rfl⟩
  · rintro j hj ⟨c, hc, j', hj', hsame⟩
    obtain rfl : j = j' := by omega
    have hle := hdisjoint j
    have hpos := cover_pos_of_mem hc hj'
    rw [cover_perm (List.perm_cons_erase hb), cover_cons, Block.indicator_of_contains hj] at hle
    omega

/-- A tree of tables stays apart from fewer frames and fewer blocks. -/
theorem HostedTree.shrink {base count root : ℕ} {held held' : List Block} {used used' : Set ℕ}
    {s : Machine (BuddyAllocator Frame)} (h : HostedTree (buddySource base count held) used root s)
    (hroot : s.cr3 = root) (hused : used' ⊆ used)
    (hheld : ∀ b ∈ held', b ∈ held ∧ base + b.start ∈ used') :
    HostedTree (buddySource base count held') used' root s := by
  refine ⟨⟨h.window, Or.inr (hroot ▸ root_mem_nodes), h.apart.mono_left hused, ?_⟩, h.tree⟩
  apply buddySource_serves_mono h.serves (Set.union_subset_union_left _ hused)
  intro b hb
  obtain ⟨hold, hin⟩ := hheld b hb
  exact ⟨hold, Or.inl hin⟩

/-- Clearing the entry of a page in its level-1 table. -/
theorem HostedTree.clear {base count root table : ℕ} {held : List Block} {used used' : Set ℕ}
    {s s' : Machine (BuddyAllocator Frame)}
    (h : HostedTree (buddySource base count held) used root s)
    (hroot : s.cr3 = root) {page : Page} (hpage : Ordinary page.indices)
    (htable : descend (link s.mem) root (tablePath (page.number * 4096)) = some table)
    (hmem : s'.mem = s.mem.set table (level1Index (page.number * 4096)) .cleared)
    (hcr3 : s'.cr3 = s.cr3) (hused : used' ⊆ used)
    (hserves : (buddySource base count held).Serves s'.allocator (used' ∪ tables s.mem root)) :
    HostedTree (buddySource base count held) used' root s' ∧
      translation s'.mem root = Function.update (translation s.mem root) page.indices none := by
  have htables : tables s'.mem root = tables s.mem root := by
    rw [hmem]
    exact set_leaf_tables rfl (h.tree.sole _ table hpage.tablePath htable)
  have hslot : link s'.mem root recursiveSlot = some root := by
    rw [hmem, link, Memory.set_of_ne _ _ (Or.inr hpage.level1Index.symm), ← link]
    exact h.window.stays
  have htranslation := h.tree.translation_set hpage .cleared htable
  rw [PageEntry.isPresent_cleared, if_neg (by decide), ← hmem] at htranslation
  refine ⟨⟨⟨?_, ?_, ?_, ?_⟩, ?_⟩, htranslation⟩
  · rw [hcr3, hroot]
    exact ⟨hslot, hslot⟩
  · rw [hcr3, hroot]
    exact Or.inr root_mem_nodes
  · rw [htables]
    exact h.apart.mono_left hused
  · rw [htables]
    exact hserves
  · rw [hmem]
    exact h.tree.set_leaf htable hpage.tablePath rfl hpage.level1Index PageEntry.isHuge_cleared
      PageEntry.plain_cleared

namespace FrameSystem

/-- The invariant: the tables form a tree apart from all frames in use, a frame that callers
hold is not mapped, and a frame of the allocator is mapped at one page only. -/
structure Invariant (σ : FrameSystem) (base count : ℕ) : Prop where
  /-- The tables, the frames of pages and the blocks that callers hold are not free. -/
  tree : HostedTree (buddySource base count σ.held)
    (σ.machine.pages.frames ∪ blockFrames base σ.held) σ.machine.cr3 σ.machine
  /-- The blocks that callers hold lie inside the array. -/
  inRange : ∀ b ∈ σ.held, b.start + 2 ^ b.order ≤ count
  /-- They do not meet. -/
  disjoint : ∀ j, cover σ.held j ≤ 1
  /-- They are not mapped. -/
  unmapped : Disjoint σ.machine.pages.frames (blockFrames base σ.held)
  /-- A frame of the allocator has one page. -/
  once : ∀ ix ix' j, j < count → σ.machine.pages ix = some (base + j) →
    σ.machine.pages ix' = some (base + j) → ix = ix'
  /-- The pages that callers mapped have a frame of the allocator. -/
  listed : ∀ page ∈ σ.mapped, page.number < 2 ^ 52 ∧
    ∃ j < count, σ.machine.pages page.indices = some (base + j)
  /-- They are different pages. -/
  distinct : (σ.mapped.map Page.indices).Nodup

namespace Invariant

variable {σ : FrameSystem} {base count : ℕ} {s₁ s' : Machine (BuddyAllocator Frame)}

/-- A call that changes no page and keeps the tables apart from the frames in use. -/
theorem of_same (h : σ.Invariant base count)
    (htree : HostedTree (buddySource base count σ.held)
      (σ.machine.pages.frames ∪ blockFrames base σ.held) σ.machine.cr3 s')
    (hcr3 : s'.cr3 = σ.machine.cr3)
    (hsame : translation s'.mem σ.machine.cr3 = σ.machine.pages) :
    Invariant ⟨s', σ.held, σ.mapped⟩ base count := by
  have hpages : s'.pages = σ.machine.pages := by
    rw [Machine.pages, hcr3, hsame]
  refine ⟨?_, h.inRange, h.disjoint, ?_, ?_, ?_, h.distinct⟩
  · rw [hpages, hcr3]
    exact htree
  · rw [hpages]
    exact h.unmapped
  · rw [hpages]
    exact h.once
  · rw [hpages]
    exact h.listed

/-- The pages of a state are those of the system, and the given pages with the frames of a block
that callers hold. -/
structure AddsBlock (σ : FrameSystem) (base count : ℕ) (b : Block) (pages : ℕ → Page)
    (mapped : PageMap) : Prop where
  /-- The invariant of the system. -/
  invariant : σ.Invariant base count
  /-- Callers hold the block. -/
  held : b ∈ σ.held
  /-- The pages of the state. -/
  iff : ∀ ix f, mapped ix = some f ↔ σ.machine.pages ix = some f ∨
    ∃ i < 2 ^ b.order, (pages i).indices = ix ∧ base + (b.start + i) = f

namespace AddsBlock

variable {b : Block} {pages : ℕ → Page} {mapped : PageMap}
variable (h : AddsBlock σ base count b pages mapped)
include h

/-- The new pages. -/
theorem new {i : ℕ} (hi : i < 2 ^ b.order) :
    mapped (pages i).indices = some (base + (b.start + i)) :=
  (h.iff _ _).mpr (Or.inr ⟨i, hi, rfl, rfl⟩)

/-- The frames of the block belong to callers. -/
theorem mem_held {i : ℕ} (hi : i < 2 ^ b.order) :
    base + (b.start + i) ∈ blockFrames base σ.held :=
  ⟨b, h.held, _, ⟨Nat.le_add_right _ _, Nat.add_lt_add_left hi _⟩, rfl⟩

/-- They had no page. -/
theorem vacant {i : ℕ} (hi : i < 2 ^ b.order) (ix : List Index) :
    σ.machine.pages ix ≠ some (base + (b.start + i)) :=
  fun hix => Set.disjoint_left.mp h.invariant.unmapped ⟨ix, hix⟩ (h.mem_held hi)

/-- All frames in use were in use before. -/
theorem used_subset : mapped.frames ∪ blockFrames base (σ.held.erase b) ⊆
    σ.machine.pages.frames ∪ blockFrames base σ.held := by
  rintro f (⟨ix, hix⟩ | hf)
  · rcases (h.iff ix f).mp hix with hmapped | ⟨i, hi, -, rfl⟩
    · exact Or.inl ⟨ix, hmapped⟩
    · exact Or.inr (h.mem_held hi)
  · exact Or.inr ((blockFrames_erase base h.held h.invariant.disjoint).1 hf)

/-- The frames of the blocks that are left are not mapped. -/
theorem unmapped : Disjoint mapped.frames (blockFrames base (σ.held.erase b)) := by
  obtain ⟨hsub, hgone⟩ := blockFrames_erase base h.held h.invariant.disjoint
  rw [Set.disjoint_left]
  rintro f ⟨ix, hix⟩ hf
  rcases (h.iff ix f).mp hix with hmapped | ⟨i, hi, -, rfl⟩
  · exact Set.disjoint_left.mp h.invariant.unmapped ⟨ix, hmapped⟩ (hsub hf)
  · exact hgone _ ⟨Nat.le_add_right _ _, Nat.add_lt_add_left hi _⟩ hf

/-- A frame of the allocator still has one page. -/
theorem once {ix ix' : List Index} {j : ℕ} (hj : j < count) (hix : mapped ix = some (base + j))
    (hix' : mapped ix' = some (base + j)) : ix = ix' := by
  rcases (h.iff ix _).mp hix with hmapped | ⟨i, hi, rfl, hsum⟩
  · rcases (h.iff ix' _).mp hix' with hmapped' | ⟨i', hi', -, hsum'⟩
    · exact h.invariant.once ix ix' j hj hmapped hmapped'
    · rw [← hsum'] at hmapped
      exact absurd hmapped (h.vacant hi' ix)
  · rcases (h.iff ix' _).mp hix' with hmapped' | ⟨i', hi', rfl, hsum'⟩
    · rw [← hsum] at hmapped'
      exact absurd hmapped' (h.vacant hi ix')
    · obtain rfl : i = i' := by omega
      rfl

/-- The pages that callers mapped still have a frame of the allocator, and so do the new ones. -/
theorem listed (hpages : ∀ i < 2 ^ b.order, (pages i).number < 2 ^ 52) :
    ∀ page ∈ (List.range (2 ^ b.order)).map pages ++ σ.mapped, page.number < 2 ^ 52 ∧
      ∃ j < count, mapped page.indices = some (base + j) := by
  have hrange := h.invariant.inRange b h.held
  intro page hpage
  rcases List.mem_append.mp hpage with hin | hin
  · obtain ⟨i, hi, rfl⟩ := List.mem_map.mp hin
    rw [List.mem_range] at hi
    exact ⟨hpages i hi, b.start + i, by omega, h.new hi⟩
  · obtain ⟨hnumber, j, hj, hmapped⟩ := h.invariant.listed page hin
    exact ⟨hnumber, j, hj, (h.iff _ _).mpr (Or.inl hmapped)⟩

/-- The pages are different. -/
theorem distinct (hdistinct : ∀ i < 2 ^ b.order, ∀ j < 2 ^ b.order,
      (pages i).indices = (pages j).indices → i = j) :
    (((List.range (2 ^ b.order)).map pages ++ σ.mapped).map Page.indices).Nodup := by
  rw [List.map_append, List.map_map]
  refine List.Nodup.append (List.Nodup.map_on ?_ List.nodup_range) h.invariant.distinct ?_
  · intro i hi j hj hindices
    exact hdistinct i (List.mem_range.mp hi) j (List.mem_range.mp hj) hindices
  · intro ix hix hix'
    obtain ⟨i, hi, rfl⟩ := List.mem_map.mp hix
    obtain ⟨page, hpage, hindices⟩ := List.mem_map.mp hix'
    rw [List.mem_range] at hi
    obtain ⟨-, j, -, hmapped⟩ := h.invariant.listed page hpage
    have hboth := (h.iff _ _).mpr (Or.inl hmapped)
    rw [hindices, Function.comp_apply, h.new hi] at hboth
    rw [← Option.some.inj hboth] at hmapped
    exact h.vacant hi _ hmapped

end AddsBlock

/-- Mapping different pages to the frames of a block that callers hold. -/
theorem mapBlock (h : σ.Invariant base count) {b : Block} (hb : b ∈ σ.held) (pages : ℕ → Page)
    (frames : ℕ → Frame)
    (htree : HostedTree (buddySource base count σ.held)
      (σ.machine.pages.frames ∪ blockFrames base σ.held) σ.machine.cr3 s₁)
    (hcr3 : s₁.cr3 = σ.machine.cr3)
    (hsame : translation s₁.mem σ.machine.cr3 = σ.machine.pages)
    (hrun : mapAll ((List.range (2 ^ b.order)).map fun i => (pages i, frames i)) s₁ =
      .ok (.ok ()) s')
    (hframes : ∀ i < 2 ^ b.order, (frames i).number = base + (b.start + i))
    (hpages : ∀ i < 2 ^ b.order, (pages i).number < 2 ^ 52 ∧
      TablePath (tablePath ((pages i).number * 4096)))
    (hdistinct : ∀ i < 2 ^ b.order, ∀ j < 2 ^ b.order,
      (pages i).indices = (pages j).indices → i = j) :
    Invariant ⟨s', σ.held.erase b, (List.range (2 ^ b.order)).map pages ++ σ.mapped⟩
      base count := by
  obtain ⟨htree', hconfined, htranslation⟩ := htree.mapAll (by
    intro call hcall
    obtain ⟨i, hi, rfl⟩ := List.mem_map.mp hcall
    exact (hpages i (List.mem_range.mp hi)).2) hrun
  have hcr3' : s'.cr3 = σ.machine.cr3 := hconfined.cr3.trans hcr3
  have hadds : AddsBlock σ base count b pages s'.pages := by
    refine ⟨h, hb, fun ix f => ?_⟩
    rw [Machine.pages, hcr3', htranslation, hsame]
    apply or_congr Iff.rfl
    constructor
    · rintro ⟨call, hcall, hix, hf⟩
      obtain ⟨i, hi, rfl⟩ := List.mem_map.mp hcall
      rw [List.mem_range] at hi
      exact ⟨i, hi, hix, (hframes i hi).symm.trans hf⟩
    · rintro ⟨i, hi, hix, hf⟩
      exact ⟨_, List.mem_map.mpr ⟨i, List.mem_range.mpr hi, rfl⟩, hix, (hframes i hi).trans hf⟩
  refine ⟨?_, fun c hc => h.inRange c (List.mem_of_mem_erase hc), ?_, hadds.unmapped,
    fun ix ix' j hj hix hix' => hadds.once hj hix hix', hadds.listed fun i hi => (hpages i hi).1,
    hadds.distinct hdistinct⟩
  · rw [show (FrameSystem.mk s' (σ.held.erase b) _).machine.cr3 = σ.machine.cr3 from hcr3']
    apply htree'.shrink hcr3' hadds.used_subset
    intro c hc
    exact ⟨List.mem_of_mem_erase hc, Or.inr ⟨c, hc, c.start, c.contains_start, rfl⟩⟩
  · intro j
    have hle := h.disjoint j
    rw [cover_perm (List.perm_cons_erase hb), cover_cons] at hle
    exact (Nat.le_add_left _ _).trans hle

/-- Callers hold the block that `allocate` returned. -/
theorem allocated (h : σ.Invariant base count) {k x : ℕ} {a : BuddyAllocator Frame}
    (halloc : σ.machine.allocator.Allocated k x a) :
    Invariant ⟨{ σ.machine with allocator := a }, ⟨x, k⟩ :: σ.held, σ.mapped⟩ base count := by
  obtain ⟨hmanages, hspares, htags⟩ := h.tree.serves
  have hfresh : ∀ j, (Block.mk x k).Contains j →
      base + j ∉ σ.machine.pages.frames ∪ blockFrames base σ.held ∪
        tables σ.machine.mem σ.machine.cr3 :=
    fun j hj => hspares.fresh halloc hj
  have hframes : ∀ f, f ∈ blockFrames base (⟨x, k⟩ :: σ.held) ↔
      (∃ j, (Block.mk x k).Contains j ∧ f = base + j) ∨ f ∈ blockFrames base σ.held := by
    intro f
    simp only [blockFrames, Set.mem_ofPred_eq, List.mem_cons, or_and_right, exists_or,
      exists_eq_left]
  refine ⟨⟨⟨h.tree.window, Or.inr root_mem_nodes, ?_, hmanages.allocated halloc, ?_, ?_⟩,
    h.tree.tree⟩, ?_, ?_, ?_, h.once, h.listed, h.distinct⟩
  · rw [Set.disjoint_left]
    rintro f (hf | hf) htable
    · exact Set.disjoint_left.mp h.tree.apart (Or.inl hf) htable
    · rcases (hframes f).mp hf with ⟨j, hj, rfl⟩ | hf
      · exact hfresh j hj (Or.inr htable)
      · exact Set.disjoint_left.mp h.tree.apart (Or.inr hf) htable
  · apply hspares.allocated hmanages.wellFormed halloc
    rintro j ((hj | hj) | hj)
    · exact Or.inl (Or.inl (Or.inl hj))
    · rcases (hframes _).mp hj with ⟨j', hj', hsame⟩ | hj
      · obtain rfl : j = j' := by omega
        exact Or.inr hj'
      · exact Or.inl (Or.inl (Or.inr hj))
    · exact Or.inl (Or.inr hj)
  · intro b hb
    rcases List.mem_cons.mp hb with rfl | hb
    · refine ⟨Or.inl (Or.inr ?_), halloc.order_eq⟩
      exact (hframes _).mpr (Or.inl ⟨x, Block.contains_start ⟨x, k⟩, rfl⟩)
    · refine htags.allocated hspares halloc ?_ b hb
      apply Set.union_subset_union_left
      apply Set.union_subset_union_right
      exact fun f hf => (hframes f).mpr (Or.inr hf)
  · intro b hb
    rcases List.mem_cons.mp hb with rfl | hb
    · rw [← hmanages.count_eq]
      exact halloc.inRange
    · exact h.inRange b hb
  · intro j
    rw [cover_cons]
    by_cases hj : (Block.mk x k).Contains j
    · have hzero : cover σ.held j = 0 := by
        by_contra hpos
        obtain ⟨b, hb, hcontains⟩ := cover_pos_iff.mp (Nat.pos_of_ne_zero hpos)
        exact hfresh j hj (Or.inl (Or.inr ⟨b, hb, j, hcontains, rfl⟩))
      rw [Block.indicator_of_contains hj, hzero]
    · rw [Block.indicator_of_not_contains hj, Nat.zero_add]
      exact h.disjoint j
  · rw [Set.disjoint_left]
    intro f hf hheld
    rcases (hframes f).mp hheld with ⟨j, hj, rfl⟩ | hheld
    · exact hfresh j hj (Or.inl (Or.inl hf))
    · exact Set.disjoint_left.mp h.unmapped hf hheld

/-- Giving back the frame of a page that callers mapped, when its object stores the order 0. -/
theorem free_single (h : σ.Invariant base count) {ix : List Index} {j : ℕ} (hj : j < count)
    (hmapped : σ.machine.pages ix = some (base + j))
    (hsingle : Object.order (σ.machine.allocator.objs j) = 0) {a : BuddyAllocator Frame}
    (hfree : FrameAllocator.free σ.machine.allocator (Frame.fromAddress ((base + j) * 4096)) =
      .ok a) : σ.machine.allocator.Freed 0 j a := by
  obtain ⟨hmanages, hspares, -⟩ := h.tree.serves
  have hindex : BuddyAllocator.free σ.machine.allocator j = .ok a := by
    have hnumber : (Frame.fromAddress ((base + j) * 4096)).number = base + j :=
      Nat.mul_div_cancel _ (by decide)
    have hsub : checkedSub (base + j) base = .ok j := by
      rw [checkedSub_ok (Nat.le_add_right base j), Nat.add_sub_cancel_left]
    simp only [FrameAllocator.free, hnumber, hmanages.base_eq, hsub, bind, Except.bind] at hfree
    exact hfree
  have hcover : ∀ i, (Block.mk j 0).Contains i → cover σ.machine.allocator.freeBlocks i = 0 := by
    rintro i hi
    obtain rfl := eq_of_contains_zero hi
    exact hspares.cover_eq_zero (Or.inl (Or.inl ⟨ix, hmapped⟩))
  obtain ⟨hsafe, hclimb⟩ := BuddyAllocator.free_spec hmanages.wellFormed (k := 0) (by decide)
    hsingle (one_dvd j) (by rw [hmanages.count_eq, pow_zero]; omega) hcover
  by_cases hmerge : σ.machine.allocator.MergeSafe j
  · obtain ⟨a', hrun, hfreed⟩ := hsafe hmerge
    obtain rfl := Except.ok.inj (hrun.symm.trans hindex)
    exact hfreed
  · exact absurd hindex (hclimb hmerge a)

/-- Clearing the entry of a page that callers mapped, after its frame was given back. -/
theorem clear (h : σ.Invariant base count) {page : Page} (hpage : page ∈ σ.mapped) {j table : ℕ}
    (hj : j < count) (hmapped : σ.machine.pages page.indices = some (base + j))
    (htable : descend (link σ.machine.mem) σ.machine.cr3 (tablePath (page.number * 4096)) =
      some table)
    (hfreed : σ.machine.allocator.Freed 0 j s'.allocator)
    (hmem : s'.mem = σ.machine.mem.set table (level1Index (page.number * 4096)) .cleared)
    (hcr3 : s'.cr3 = σ.machine.cr3) :
    Invariant ⟨s', σ.held, σ.mapped.erase page⟩ base count := by
  obtain ⟨hmanages, hspares, htags⟩ := h.tree.serves
  let pages : PageMap := Function.update σ.machine.pages page.indices none
  have hkept : ∀ ix f, pages ix = some f → ix ≠ page.indices ∧ σ.machine.pages ix = some f := by
    intro ix f hix
    by_cases hsame : ix = page.indices
    · rw [hsame, show pages page.indices = none from Function.update_self ..] at hix
      cases hix
    · rw [show pages ix = σ.machine.pages ix from Function.update_of_ne hsame ..] at hix
      exact ⟨hsame, hix⟩
  have hframes : pages.frames ⊆ σ.machine.pages.frames :=
    fun f ⟨ix, hix⟩ => ⟨ix, (hkept ix f hix).2⟩
  have hused : pages.frames ∪ blockFrames base σ.held ⊆
      σ.machine.pages.frames ∪ blockFrames base σ.held := Set.union_subset_union_left _ hframes
  have hgone : ∀ i, (Block.mk j 0).Contains i → base + i ∉
      pages.frames ∪ blockFrames base σ.held ∪ tables σ.machine.mem σ.machine.cr3 := by
    rintro i hi
    obtain rfl := eq_of_contains_zero hi
    rintro ((⟨ix, hix⟩ | hheld) | htables)
    · obtain ⟨hne, hix⟩ := hkept ix _ hix
      exact hne (h.once _ _ i hj hix hmapped)
    · exact Set.disjoint_left.mp h.unmapped ⟨_, hmapped⟩ hheld
    · exact Set.disjoint_left.mp h.tree.apart (Or.inl ⟨_, hmapped⟩) htables
  have hserves : (buddySource base count σ.held).Serves s'.allocator
      (pages.frames ∪ blockFrames base σ.held ∪ tables σ.machine.mem σ.machine.cr3) := by
    refine ⟨hmanages.freed hfreed,
      hspares.freed hfreed (Set.union_subset_union_left _ hused) hgone,
      htags.freed hspares hfreed hgone fun b hb => ?_⟩
    exact Or.inl (Or.inr ⟨b, hb, b.start, b.contains_start, rfl⟩)
  obtain ⟨htree, htranslation⟩ := h.tree.clear rfl (ordinary_of_translation hmapped) htable hmem
    hcr3 hused hserves
  have hpages : s'.pages = pages := by
    rw [Machine.pages, hcr3]
    exact htranslation
  refine ⟨?_, h.inRange, h.disjoint, ?_, ?_, ?_, ?_⟩
  · rw [hpages, hcr3]
    exact htree
  · rw [hpages]
    exact h.unmapped.mono_left hframes
  · rw [hpages]
    exact fun ix ix' i hi hix hix' => h.once ix ix' i hi (hkept ix _ hix).2 (hkept ix' _ hix').2
  · intro other hother
    obtain ⟨hne, hin⟩ := h.distinct.of_map.mem_erase_iff.mp hother
    obtain ⟨hnumber, i, hi, hmapped'⟩ := h.listed other hin
    refine ⟨hnumber, i, hi, ?_⟩
    have hindices : other.indices ≠ page.indices :=
      fun hsame => hne (List.inj_on_of_nodup_map h.distinct hin hpage hsame)
    rw [hpages, show pages other.indices = _ from Function.update_of_ne hindices .., hmapped']
  · exact h.distinct.sublist (List.erase_sublist.map _)

/-- A call of `unmap` that returned, for a page that callers mapped to a frame whose object stores
the order 0, gives back this frame and no other. -/
theorem unmap_single (h : σ.Invariant base count) {page : Page} (hpage : page ∈ σ.mapped)
    (hsingle : ∀ {j}, σ.machine.pages page.indices = some (base + j) →
      Object.order (σ.machine.allocator.objs j) = 0) {result : Except TableError Unit}
    (hrun : ActivePageTable.unmap page σ.machine = .ok result s') :
    result = .ok () ∧ Invariant ⟨s', σ.held, σ.mapped.erase page⟩ base count ∧
      ∃ j events, σ.machine.pages page.indices = some (base + j) ∧
        σ.machine.allocator.Freed 0 j s'.allocator ∧
        s'.trace = σ.machine.trace ++ events ∧ freedFrames events = [base + j] ∧
        s'.allocator.countFreeObjs = σ.machine.allocator.countFreeObjs + 1 := by
  obtain ⟨hnumber, j, hj, hmapped⟩ := h.listed page hpage
  obtain ⟨hmanages, -, -⟩ := h.tree.serves
  have hordinary : Ordinary page.indices := ordinary_of_translation hmapped
  obtain ⟨table, htable, haddr⟩ := h.tree.tree.mapped_entry hmapped
  obtain ⟨a, hfree⟩ := h.tree.window.unmap_returned hnumber hordinary.tablePath htable haddr hrun
  have hfreed := h.free_single hj hmapped (hsingle hmapped) hfree
  obtain ⟨s'', before, hrun', hmem, hcr3, rfl, htrace, htouch⟩ :=
    h.tree.window.unmap_present hnumber hordinary.tablePath htable haddr hfree
  obtain ⟨rfl, rfl⟩ := EStateM.Result.ok.inj (hrun'.symm.trans hrun)
  rw [List.append_assoc] at htrace
  refine ⟨rfl, h.clear hpage hj hmapped htable hfreed hmem hcr3, j, _, hmapped, hfreed, htrace,
    ?_, ?_⟩
  · have hbefore : freedFrames before = [] := freedFrames_eq_nil htouch
    have hfreedNumber : (Frame.fromAddress ((base + j) * 4096)).number = base + j :=
      Nat.mul_div_cancel _ (by decide)
    unfold freedFrames at hbefore ⊢
    simp [hbefore, hfreedNumber]
  · rw [hfreed.countFreeObjs hmanages.wellFormed, pow_zero]
    rw [hmanages.count_eq, pow_zero]
    omega

end Invariant

/-- What callers may do: map a block that they hold, map a single frame at one page, and unmap a
page that they mapped. -/
def Legal (σ : FrameSystem) : FrameCall → Prop
  | .allocate _ => True
  | .autoContinuousMap block => block ∈ σ.held
  | .map _ block => block ∈ σ.held ∧ block.order = 0
  | .unmap page => page ∈ σ.mapped

/-- A page that is mapped lies below ordinary tables, and the object of the frame of a page that
is unmapped stores the order 0. -/
def Single (σ : FrameSystem) : FrameCall → Prop
  | .allocate _ => True
  | .autoContinuousMap _ => True
  | .map page _ => TablePath (tablePath (page.number * 4096))
  | .unmap page => ∀ f, σ.machine.pages page.indices = some f →
    Object.order (σ.machine.allocator.objs (f - σ.machine.allocator.baseAddr / frameSize)) = 0

/-- The states that calls of some kind reach. -/
inductive Run (allowed : FrameSystem → FrameCall → Prop) (σ₀ : FrameSystem) :
    FrameSystem → Prop where
  /-- The first state. -/
  | start : Run allowed σ₀ σ₀
  /-- The state after one more call that returned. -/
  | call {σ σ' : FrameSystem} {c : FrameCall} : Run allowed σ₀ σ → allowed σ c →
    σ.call c = .ok σ' → Run allowed σ₀ σ'

/-- A run of some kind of calls is one of a wider kind. -/
theorem Run.mono {allowed allowed' : FrameSystem → FrameCall → Prop} {σ₀ σ : FrameSystem}
    (hsub : ∀ σ c, allowed σ c → allowed' σ c) (hrun : Run allowed σ₀ σ) : Run allowed' σ₀ σ := by
  induction hrun with
  | start => exact .start
  | call _ hallowed hcall ih => exact .call ih (hsub _ _ hallowed) hcall

/-- The first state of a run: the tables form a tree, no frame of the allocator has a page, and
no free frame is a table. -/
structure Start (σ : FrameSystem) (base count : ℕ) : Prop where
  /-- The tables. -/
  tree : ActiveTree σ.machine
  /-- The allocator. -/
  manages : σ.machine.allocator.Manages base count
  /-- No free frame is a table. -/
  spares : σ.machine.allocator.Spares base (tables σ.machine.mem σ.machine.cr3)
  /-- No frame of the allocator has a page. -/
  unmapped : ∀ ix j, j < count → σ.machine.pages ix ≠ some (base + j)
  /-- Callers hold no block. -/
  held : σ.held = []
  /-- Callers mapped no page. -/
  mapped : σ.mapped = []

/-- The first state satisfies the invariant. -/
theorem Start.invariant {σ : FrameSystem} {base count : ℕ} (h : σ.Start base count) :
    σ.Invariant base count := by
  obtain ⟨machine, held, mapped⟩ := σ
  obtain ⟨htree, hmanages, hspares, hunmapped, rfl, rfl⟩ := h
  have hempty : blockFrames base [] = ∅ := by
    ext f
    simp [blockFrames]
  have hrange : ∀ j, 0 < cover machine.allocator.freeBlocks j → j < count := by
    intro j hj
    obtain ⟨b, hb, hcontains⟩ := cover_pos_iff.mp hj
    have hle := hmanages.wellFormed.inRange b hb
    have hlt := hcontains.2
    rw [hmanages.count_eq] at hle
    omega
  refine ⟨⟨⟨htree.window, Or.inr root_mem_nodes, ?_, hmanages, ?_, ?_⟩, htree.tree⟩, ?_, ?_, ?_, ?_,
    ?_, List.nodup_nil⟩
  · rw [hempty, Set.union_empty]
    exact htree.apart
  · rw [hempty, Set.union_empty]
    rintro j hj (⟨ix, hix⟩ | htable)
    · exact hunmapped ix j (hrange j hj) hix
    · exact hspares j hj htable
  · exact fun b hb => absurd hb List.not_mem_nil
  · exact fun b hb => absurd hb List.not_mem_nil
  · exact fun j => Nat.zero_le _
  · rw [hempty]
    exact Set.disjoint_empty _
  · exact fun ix ix' j hj hix _ => absurd hix (hunmapped ix j hj)
  · exact fun page hpage => absurd hpage List.not_mem_nil

namespace Invariant

variable {σ σ' : FrameSystem} {base count : ℕ}

/-- The frame that stands for a block that callers hold. -/
theorem frame_eq (h : σ.Invariant base count) {b : Block} (hb : b ∈ σ.held) :
    (σ.frame b).number = base + b.start ∧ (σ.frame b).order = b.order := by
  obtain ⟨hmanages, -, htags⟩ := h.tree.serves
  have hrange := h.inRange b hb
  have hpos := Nat.two_pow_pos b.order
  exact ⟨hmanages.number_eq b.start (by omega), (htags b hb).2⟩

/-- The tables form a tree that the window shows. -/
theorem activeTree (h : σ.Invariant base count) : ActiveTree σ.machine :=
  ⟨h.tree.window, h.tree.tree, h.tree.apart.mono_left Set.subset_union_left⟩

/-- The object of the frame of a page that is unmapped. -/
theorem order_eq (h : σ.Invariant base count) {page : Page} (hsingle : σ.Single (.unmap page))
    {j : ℕ}
    (hmapped : σ.machine.pages page.indices = some (base + j)) :
    Object.order (σ.machine.allocator.objs j) = 0 := by
  have horder := hsingle _ hmapped
  rw [h.tree.serves.1.base_eq, Nat.add_sub_cancel_left] at horder
  exact horder

/-- `allocate` keeps the invariant. -/
theorem call_allocate (h : σ.Invariant base count) {k : ℕ} (hcall : σ.call (.allocate k) = .ok σ') :
    σ'.Invariant base count := by
  rcases BuddyAllocator.allocate_spec h.tree.serves.1.wellFormed k with
    ⟨hrun, -⟩ | ⟨x, a, hrun, halloc⟩
  · simp only [call, hrun, bind, Except.bind, pure, Except.pure] at hcall
    obtain rfl := Except.ok.inj hcall
    exact h
  · simp only [call, hrun, bind, Except.bind, pure, Except.pure] at hcall
    obtain rfl := Except.ok.inj hcall
    exact h.allocated halloc

/-- `auto_continuous_map` keeps the invariant. -/
theorem call_autoContinuousMap (h : σ.Invariant base count) {b : Block} (hb : b ∈ σ.held)
    (hcall : σ.call (.autoContinuousMap b) = .ok σ') : σ'.Invariant base count := by
  obtain ⟨hnumber, horder⟩ := h.frame_eq hb
  unfold call at hcall
  cases hrun : autoContinuousMap (σ.frame b) σ.machine with
  | error fault s' =>
    simp only [hrun] at hcall
    cases hcall
  | ok r s' =>
    obtain ⟨s₁, htree, hcr3, hsame, hcases⟩ := h.tree.autoContinuousMap_returned hrun
    rcases hcases with ⟨rfl, rfl⟩ | ⟨i4, limit, rfl, hi4, hle, hmaps⟩
    · simp only [hrun] at hcall
      obtain rfl := Except.ok.inj hcall
      exact h.of_same htree hcr3 hsame
    · simp only [hrun] at hcall
      obtain rfl := Except.ok.inj hcall
      rw [horder] at hle hmaps
      have hpage : ∀ i (hi : i < 2 ^ b.order), _ := fun i hi =>
        foundPage_add i4 (show i < 511 by omega) rfl
      refine h.mapBlock hb _ _ htree hcr3 hsame hmaps ?_ ?_ ?_
      · intro i hi
        rw [hnumber, fromAddress_add, Nat.add_assoc]
      · intro i hi
        have hlt := (foundPage_indices i4).1
        refine ⟨?_, foundPage_tablePath hi4 (by omega)⟩
        rw [(hpage i hi).1]
        omega
      · intro i hi j hj hsame
        rw [Page.indices_eq, Page.indices_eq, (hpage i hi).2.1, (hpage j hj).2.1,
          (hpage i hi).2.2, (hpage j hj).2.2] at hsame
        simpa using hsame

/-- `map` of a single frame keeps the invariant. -/
theorem call_map (h : σ.Invariant base count) {page : Page} {b : Block} (hb : b ∈ σ.held)
    (hzero : b.order = 0) (hpath : TablePath (tablePath (page.number * 4096)))
    (hcall : σ.call (.map page b) = .ok σ') : σ'.Invariant base count := by
  obtain ⟨hnumber, -⟩ := h.frame_eq hb
  unfold call at hcall
  cases hrun : ActivePageTable.map page (σ.frame b) σ.machine with
  | error fault s' =>
    simp only [hrun] at hcall
    cases hcall
  | ok result s' =>
    obtain ⟨htree, hconfined, htranslates⟩ := h.tree.map hpath hrun
    cases result with
    | error error =>
      simp only [hrun] at hcall
      obtain rfl := Except.ok.inj hcall
      exact h.of_same htree hconfined.cr3 htranslates
    | ok u =>
      simp only [hrun] at hcall
      obtain rfl := Except.ok.inj hcall
      have hone : List.range (2 ^ b.order) = [0] := by
        rw [hzero]
        rfl
      have hzero' : ∀ i < 2 ^ b.order, i = 0 := by
        intro i hi
        rw [← List.mem_range, hone] at hi
        exact List.mem_singleton.mp hi
      have hmapped := h.mapBlock hb (fun _ => page) (fun _ => σ.frame b) h.tree rfl rfl
        (by rw [hone]; exact (bind_ok hrun).trans rfl)
        (fun i hi => by rw [hzero' i hi, Nat.add_zero, hnumber])
        (fun i _ => ⟨(map_returned hrun).1, hpath⟩)
        (fun i hi j hj _ => (hzero' i hi).trans (hzero' j hj).symm)
      rw [hone] at hmapped
      exact hmapped

/-- `unmap` of a page whose frame stores the order 0 keeps the invariant. -/
theorem call_unmap (h : σ.Invariant base count) {page : Page} (hpage : page ∈ σ.mapped)
    (hsingle : σ.Single (.unmap page)) (hcall : σ.call (.unmap page) = .ok σ') :
    σ'.Invariant base count := by
  unfold call at hcall
  cases hrun : ActivePageTable.unmap page σ.machine with
  | error fault s' =>
    simp only [hrun] at hcall
    cases hcall
  | ok result s' =>
    obtain ⟨rfl, h', -⟩ := h.unmap_single hpage (h.order_eq hsingle) hrun
    simp only [hrun] at hcall
    obtain rfl := Except.ok.inj hcall
    exact h'

/-- Every call keeps the invariant. -/
theorem call (h : σ.Invariant base count) {c : FrameCall} (hlegal : σ.Legal c)
    (hsingle : σ.Single c) (hcall : σ.call c = .ok σ') : σ'.Invariant base count := by
  cases c with
  | allocate k => exact h.call_allocate hcall
  | autoContinuousMap b => exact h.call_autoContinuousMap hlegal hcall
  | map page b => exact h.call_map hlegal.1 hlegal.2 hsingle hcall
  | unmap page => exact h.call_unmap hlegal hsingle hcall

end Invariant

/-- Every state of a run satisfies the invariant. -/
theorem Run.invariant {σ₀ σ : FrameSystem} {base count : ℕ}
    (hrun : Run (fun σ c => σ.Legal c ∧ σ.Single c) σ₀ σ) (hstart : σ₀.Start base count) :
    σ.Invariant base count := by
  induction hrun with
  | start => exact hstart.invariant
  | call _ hallowed hcall ih => exact ih.call hallowed.1 hallowed.2 hcall

end FrameSystem

namespace FrameSystem

end FrameSystem

end Axel
