import Axel.Buddy.Runs
import Axel.Paging.Growth

/-!
# The buddy allocator as a source of frames

The page tables take single frames from the buddy allocator and give single frames back, while
others hold blocks of several frames. This file shows that the allocator meets the assumption
on a frame source: it never hands out a frame in use, and it leaves the orders alone that the
frames of blocks in use store.
-/

namespace Axel

open Dyadic BuddyAllocator

/-- The allocator manages `count` frames from the frame `base` on, as the initialisation of the
memory numbers them. -/
structure BuddyAllocator.Manages (a : BuddyAllocator Frame) (base count : ℕ) : Prop where
  /-- The free lists are well formed. -/
  wellFormed : a.WellFormed
  /-- The first frame. -/
  base_eq : a.baseAddr / frameSize = base
  /-- The number of frames. -/
  count_eq : a.objCount = count
  /-- The numbers of the frames. -/
  number_eq : ∀ x < count, (a.objs x).number = base + x
  /-- The numbers fit into an entry. -/
  fits : base + count ≤ 2 ^ 36

/-- The number of a frame is not one of its tags. -/
theorem BuddyAllocator.TagsOnly.number_eq {a a' : BuddyAllocator Frame} (h : TagsOnly a a')
    (x : ℕ) :
    (a'.objs x).number = (a.objs x).number :=
  h Frame.number (fun _ => rfl) (fun _ => rfl) (fun _ _ => rfl) x

/-- `new` manages the frames that it is given, when they are numbered. -/
theorem BuddyAllocator.new_manages {baseAddr count : ℕ} {objs : ℕ → Frame}
    (hnumber : ∀ x < count, (objs x).number = baseAddr / frameSize + x)
    (hfits : baseAddr / frameSize + count ≤ 2 ^ 36) {a : BuddyAllocator Frame}
    (hnew : BuddyAllocator.new baseAddr objs count = .ok a) :
    a.Manages (baseAddr / frameSize) count := by
  obtain ⟨a', hrun, hfilled, hbase, hkept⟩ := new_spec baseAddr objs count
  obtain rfl := Except.ok.inj (hrun.symm.trans hnew)
  refine ⟨hfilled.wellFormed, by rw [hbase], hfilled.objCount_eq, fun x hx => ?_, hfits⟩
  rw [hkept Frame.number (fun _ => rfl) (fun _ => rfl) (fun _ _ => rfl), hnumber x hx]

/-- No free frame is in use. -/
def BuddyAllocator.Spares (a : BuddyAllocator Frame) (base : ℕ) (used : Set ℕ) : Prop :=
  ∀ x, 0 < cover a.freeBlocks x → base + x ∉ used

/-- The blocks are in use, and each of them stores its order. -/
def BuddyAllocator.Tags (a : BuddyAllocator Frame) (base : ℕ) (held : List Block)
    (used : Set ℕ) : Prop :=
  ∀ b ∈ held, base + b.start ∈ used ∧ Object.order (a.objs b.start) = b.order

section Manages

variable {a a' : BuddyAllocator Frame} {base count k x : ℕ} {used : Set ℕ} {held : List Block}

/-- A frame in use is in no free block. -/
theorem BuddyAllocator.Spares.cover_eq_zero (h : a.Spares base used) (hx : base + x ∈ used) :
    cover a.freeBlocks x = 0 := by
  by_contra hcover
  exact h x (Nat.pos_of_ne_zero hcover) hx

/-- An allocation manages the same frames. -/
theorem BuddyAllocator.Manages.allocated (h : a.Manages base count) (halloc : Allocated a k x a') :
    a'.Manages base count :=
  ⟨halloc.wellFormed, by rw [halloc.baseAddr_eq, h.base_eq], halloc.objCount_eq.trans h.count_eq,
    fun y hy => (halloc.tagsOnly.number_eq y).trans (h.number_eq y hy), h.fits⟩

/-- The frames of an allocated block were not in use. -/
theorem BuddyAllocator.Spares.fresh (h : a.Spares base used) (halloc : Allocated a k x a') {j : ℕ}
    (hj : (Block.mk x k).Contains j) : base + j ∉ used := by
  apply h
  rw [halloc.cover_eq, Block.indicator_of_contains hj]
  exact Nat.succ_pos _

/-- After an allocation the frames of the block may be in use as well. -/
theorem BuddyAllocator.Spares.allocated (h : a.Spares base used) (hwf : a.WellFormed)
    (halloc : Allocated a k x a') {used' : Set ℕ}
    (hused : ∀ j, base + j ∈ used' → base + j ∈ used ∨ (Block.mk x k).Contains j) :
    a'.Spares base used' := by
  intro j hj hin
  have hcover := halloc.cover_eq j
  rcases hused j hin with hold | hnew
  · exact h j (by omega) hold
  · have hle := hwf.disjoint j
    rw [hcover, Block.indicator_of_contains hnew] at hle
    omega

/-- An allocation leaves the orders alone that blocks in use store. -/
theorem BuddyAllocator.Tags.allocated (h : a.Tags base held used) (hspares : a.Spares base used)
    (halloc : Allocated a k x a') {used' : Set ℕ} (hused : used ⊆ used') :
    a'.Tags base held used' := by
  intro b hb
  obtain ⟨hin, horder⟩ := h b hb
  exact ⟨hused hin, by rw [halloc.objs_eq _ (hspares.cover_eq_zero hin), horder]⟩

/-- Giving back a frame manages the same frames. -/
theorem BuddyAllocator.Manages.freed (h : a.Manages base count) (hfreed : Freed a k x a') :
    a'.Manages base count :=
  ⟨hfreed.wellFormed, by rw [hfreed.baseAddr_eq, h.base_eq], hfreed.objCount_eq.trans h.count_eq,
    fun y hy => (hfreed.tagsOnly.number_eq y).trans (h.number_eq y hy), h.fits⟩

/-- After a block was given back its frames must not be in use. -/
theorem BuddyAllocator.Spares.freed (h : a.Spares base used) (hfreed : Freed a k x a')
    {used' : Set ℕ} (hused : used' ⊆ used)
    (hblock : ∀ j, (Block.mk x k).Contains j → base + j ∉ used') : a'.Spares base used' := by
  intro j hj hin
  have hcover := hfreed.cover_eq j
  by_cases hcontains : (Block.mk x k).Contains j
  · exact hblock j hcontains hin
  · rw [Block.indicator_of_not_contains hcontains] at hcover
    exact h j (by omega) (hused hin)

/-- Giving back a block leaves the orders alone that other blocks store. -/
theorem BuddyAllocator.Tags.freed (h : a.Tags base held used) (hspares : a.Spares base used)
    (hfreed : Freed a k x a') {used' : Set ℕ}
    (hblock : ∀ j, (Block.mk x k).Contains j → base + j ∉ used')
    (hheld : ∀ b ∈ held, base + b.start ∈ used') : a'.Tags base held used' := by
  intro b hb
  obtain ⟨hin, horder⟩ := h b hb
  have hout : ¬(Block.mk x k).Contains b.start := fun hcontains =>
    hblock b.start hcontains (hheld b hb)
  exact ⟨hheld b hb, by rw [hfreed.objs_eq _ (hspares.cover_eq_zero hin) hout, horder]⟩

/-- The free objects after a block was given back. -/
theorem BuddyAllocator.Freed.countFreeObjs (h : Freed a k x a') (hwf : a.WellFormed)
    (hrange : x + 2 ^ k ≤ a.objCount) : a'.countFreeObjs = a.countFreeObjs + 2 ^ k := by
  have hrange' : ∀ b ∈ a'.freeBlocks, b.start + 2 ^ b.order ≤ a.objCount := by
    rw [← h.objCount_eq]
    exact h.wellFormed.inRange
  rw [h.wellFormed.countFreeObjs, hwf.countFreeObjs, totalSize_eq_sum_cover hrange',
    totalSize_eq_sum_cover hwf.inRange, ← sum_indicator (b := ⟨x, k⟩) hrange,
    ← Finset.sum_add_distrib]
  exact Finset.sum_congr rfl fun j _ => h.cover_eq j

end Manages

/-- The buddy allocator as a source of frames, next to blocks that are in use. -/
def buddySource (base count : ℕ) (held : List Block) : FrameSource (BuddyAllocator Frame) where
  Serves a used := a.Manages base count ∧ a.Spares base used ∧ a.Tags base held used
  allocOne := by
    rintro a used ⟨hmanages, hspares, htags⟩
    rcases allocate_spec hmanages.wellFormed 0 with ⟨hrun, -⟩ | ⟨x, a', hrun, halloc⟩
    · left
      refine ⟨a, ?_, hmanages, hspares, htags⟩
      simp only [FrameAllocator.allocOne, hrun, bind, Except.bind, pure, Except.pure,
        Option.map_none]
    · right
      have hmanages' := hmanages.allocated halloc
      have hrange := halloc.inRange
      have hcount := hmanages.count_eq
      have hfits := hmanages.fits
      have hnumber : (a'.objs x).number = base + x := hmanages'.number_eq x (by omega)
      have hstart : (Block.mk x 0).Contains x := Block.contains_start ⟨x, 0⟩
      refine ⟨a'.objs x, a', ?_, ?_, by omega, hmanages', ?_, ?_⟩
      · simp only [FrameAllocator.allocOne, hrun, bind, Except.bind, pure, Except.pure,
          Option.map_some]
      · rw [hnumber]
        exact hspares.fresh halloc hstart
      · apply hspares.allocated hmanages.wellFormed halloc
        rintro j (hj | hj)
        · right
          rw [hnumber] at hj
          obtain rfl : j = x := by omega
          exact hstart
        · exact Or.inl hj
      · exact htags.allocated hspares halloc (Set.subset_insert _ _)

/-- Frames and blocks may leave the use. -/
theorem buddySource_serves_mono {a : BuddyAllocator Frame} {base count : ℕ}
    {held held' : List Block}
    {used used' : Set ℕ} (h : (buddySource base count held).Serves a used) (hused : used' ⊆ used)
    (hheld : ∀ b ∈ held', b ∈ held ∧ base + b.start ∈ used') :
    (buddySource base count held').Serves a used' := by
  obtain ⟨hmanages, hspares, htags⟩ := h
  refine ⟨hmanages, fun x hx hin => hspares x hx (hused hin), fun b hb => ?_⟩
  obtain ⟨hold, hin⟩ := hheld b hb
  exact ⟨hin, (htags b hold).2⟩

end Axel
