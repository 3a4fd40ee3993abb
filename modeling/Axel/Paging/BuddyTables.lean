import Axel.Buddy.Fragmentation
import Axel.Paging.BuddyFrames
import Axel.Paging.InitProgress

/-!
# The buddy allocator during the initialisation

The initialisation of the memory takes single frames from a new buddy allocator: some become
tables, and the runtime test gives the first one back. This file shows that the allocator meets
what the initialisation expects of it, and how many frames and blocks it has left afterwards.
-/

namespace Axel

open Dyadic BuddyAllocator

namespace BuddyAllocator

variable {a a' : BuddyAllocator Frame} {base count x : ℕ} {used : Set ℕ}

/-- The frames in use store the order 0. -/
def Singles (a : BuddyAllocator Frame) (base count : ℕ) (used : Set ℕ) : Prop :=
  ∀ x < count, base + x ∈ used → Object.order (a.objs x) = 0

/-- A frame that is handed out is a block of the order 0. -/
theorem Manages.allocOne (h : a.Manages base count) {frame : Frame}
    (hrun : FrameAllocator.allocOne a = .ok (some frame, a')) :
    ∃ x, Allocated a 0 x a' ∧ frame.number = base + x := by
  rcases allocate_spec h.wellFormed 0 with ⟨hnone, -⟩ | ⟨x, a₁, hsome, halloc⟩
  · simp only [FrameAllocator.allocOne, hnone, bind, Except.bind, pure, Except.pure,
      Option.map_none] at hrun
    cases hrun
  · simp only [FrameAllocator.allocOne, hsome, bind, Except.bind, pure, Except.pure,
      Option.map_some] at hrun
    obtain ⟨hframe, rfl⟩ := Prod.mk.inj (Except.ok.inj hrun)
    obtain rfl := Option.some.inj hframe
    have hrange := halloc.inRange
    have hcount := h.count_eq
    exact ⟨x, halloc, (h.allocated halloc).number_eq x (by omega)⟩

/-- A frame is only refused when no object is free. -/
theorem Manages.refused (h : a.Manages base count)
    (hrun : FrameAllocator.allocOne a = .ok (none, a')) : a.countFreeObjs = 0 := by
  rcases allocate_spec h.wellFormed 0 with ⟨-, hempty⟩ | ⟨x, a₁, hsome, -⟩
  · have hlt := countFreeObjs_lt h.wellFormed (by decide) hempty
    have hsurplus : a.surplus = 0 := by
      apply Finset.sum_eq_zero
      intro i hi
      rw [hempty i (Nat.zero_le i) (by have := Finset.mem_range.mp hi; omega)]
      rfl
    rw [hsurplus] at hlt
    omega
  · simp only [FrameAllocator.allocOne, hsome, bind, Except.bind, pure, Except.pure,
      Option.map_some] at hrun
    cases hrun

/-- Giving back a managed frame frees the object with its index. -/
theorem Manages.free_eq (h : a.Manages base count) (x : ℕ) :
    FrameAllocator.free a (Frame.fromAddress ((base + x) * 4096)) = BuddyAllocator.free a x := by
  have hnumber : (Frame.fromAddress ((base + x) * 4096)).number = base + x :=
    Nat.mul_div_cancel _ (by decide)
  have hsub : checkedSub (base + x) base = .ok x := by
    rw [checkedSub_ok (Nat.le_add_right base x), Nat.add_sub_cancel_left]
  simp only [FrameAllocator.free, hnumber, h.base_eq, hsub, bind, Except.bind]

/-- Only objects of the array can be freed. -/
theorem lt_of_free (hrun : BuddyAllocator.free a x = .ok a') : x < a.objCount := by
  obtain ⟨managed, hmanaged, hrun⟩ := Except.bind_eq_ok.mp hrun
  obtain ⟨_, hassert, -⟩ := Except.bind_eq_ok.mp hrun
  obtain rfl := debugAssert_eq_ok.mp hassert
  obtain ⟨last, hlast, hle⟩ := Except.bind_eq_ok.mp hmanaged
  obtain ⟨hpos, rfl⟩ := checkedSub_eq_ok.mp hlast
  have hx := of_decide_eq_true (Except.ok.inj hle)
  omega

/-- Freeing an object that is in no free block and stores the order 0. -/
theorem Manages.freed_single (h : a.Manages base count) (horder : Object.order (a.objs x) = 0)
    (hcover : cover a.freeBlocks x = 0) (hrun : BuddyAllocator.free a x = .ok a') :
    Freed a 0 x a' ∧ a'.surplus ≤ a.surplus + 1 := by
  have hlt := lt_of_free hrun
  have hrange : x + 2 ^ 0 ≤ a.objCount := hlt
  have hcovers : ∀ j, (Block.mk x 0).Contains j → cover a.freeBlocks j = 0 := by
    intro j hj
    rw [Block.contains_mk, pow_zero] at hj
    obtain rfl : j = x := by omega
    exact hcover
  refine ⟨?_, surplus_of_free h.wellFormed (by decide) horder (one_dvd x) hrange hcovers hrun⟩
  obtain ⟨hsafe, hfault⟩ := free_spec h.wellFormed (by decide) horder (one_dvd x) hrange hcovers
  by_cases hmerge : a.MergeSafe x
  · obtain ⟨a₁, hrun', hfreed⟩ := hsafe hmerge
    rw [hrun] at hrun'
    exact Except.ok.inj hrun' ▸ hfreed
  · exact absurd hrun (hfault hmerge a')

/-- What drawing frames leaves. -/
structure Left (a : BuddyAllocator Frame) (base count n : ℕ) (a' : BuddyAllocator Frame) :
    Prop where
  /-- The same frames are managed. -/
  manages : a'.Manages base count
  /-- Every frame was free before. -/
  countFreeObjs : a.countFreeObjs = n + a'.countFreeObjs
  /-- No order has more blocks than one that it had before. -/
  surplus : a'.surplus ≤ a.surplus
  /-- An object that was not free stays so. -/
  inUse : ∀ y, cover a.freeBlocks y = 0 → cover a'.freeBlocks y = 0 ∧ a'.objs y = a.objs y

/-- Drawing frames takes them from the free blocks. -/
theorem Manages.drawn (h : a.Manages base count) {n : ℕ} (hdrawn : Drawn n a a') :
    a.Left base count n a' := by
  induction hdrawn with
  | none a => exact ⟨h, (Nat.zero_add _).symm, le_rfl, fun y hy => ⟨hy, rfl⟩⟩
  | @some n a a₁ a' frame hrun _ ih =>
    obtain ⟨x, halloc, -⟩ := h.allocOne hrun
    obtain ⟨hmanages, hcount, hsurplus, hinUse⟩ := ih (h.allocated halloc)
    have hfirst := halloc.countFreeObjs h.wellFormed
    refine ⟨hmanages, by omega, hsurplus.trans halloc.surplus_le, fun y hy => ?_⟩
    have hcover := halloc.cover_eq y
    obtain ⟨hfree, hobjs⟩ := hinUse y (by omega)
    exact ⟨hfree, hobjs.trans (halloc.objs_eq y hy)⟩

/-- An allocator with enough free objects lasts. -/
theorem Manages.lasts (h : a.Manages base count) {n : ℕ} (hle : n ≤ a.countFreeObjs) :
    Lasts n a := by
  intro m a₁ a₂ hm hdrawn hnone
  have hleft := h.drawn hdrawn
  have hzero := hleft.manages.refused hnone
  have hcount := hleft.countFreeObjs
  omega

/-- An object belongs to one free block only. -/
theorem WellFormed.eq_of_contains {T : Type} [Object T] {s : BuddyAllocator T} (h : s.WellFormed)
    {b c : Block} (hb : b ∈ s.freeBlocks) (hc : c ∈ s.freeBlocks) {j : ℕ} (hbj : b.Contains j)
    (hcj : c.Contains j) : b = c := by
  by_contra hne
  have hrest : c ∈ s.freeBlocks.erase b := (List.mem_erase_of_ne (Ne.symm hne)).mpr hc
  have hle := h.disjoint j
  have hpos := cover_pos_of_mem hrest hcj
  rw [cover_perm (List.perm_cons_erase hb), cover_cons, Block.indicator_of_contains hbj] at hle
  omega

/-- A new allocator: all objects are free, and every order has at most one block. -/
structure Fresh (a : BuddyAllocator Frame) (base count : ℕ) : Prop where
  /-- The frames are managed. -/
  manages : a.Manages base count
  /-- All of them are free. -/
  cover_eq : ∀ j < count, cover a.freeBlocks j = 1
  /-- No order but the largest has two blocks. -/
  surplus_eq : a.surplus = 0

/-- The buddy of an object whose block is the only one of the order 0 is not managed. -/
theorem Fresh.buddy_ge (h : a.Fresh base count) (hlist : a.freeLists 0 = [x]) :
    count ≤ Dyadic.buddy x 0 := by
  by_contra hlt
  obtain ⟨b, hb, hcontains⟩ := cover_pos_iff.mp
    (show 0 < cover a.freeBlocks (Dyadic.buddy x 0) by rw [h.cover_eq _ (by omega)]; decide)
  have hx : (⟨x, 0⟩ : Block) ∈ a.freeBlocks :=
    mem_freeBlocks.mpr ⟨by decide, by rw [hlist]; exact List.mem_singleton_self x⟩
  obtain ⟨start, order⟩ := b
  cases order with
  | zero =>
    have hmem := (mem_freeBlocks.mp hb).2
    rw [hlist, List.mem_singleton] at hmem
    rw [Block.contains_mk, pow_zero] at hcontains
    exact buddy_ne x 0 (by omega)
  | succ order =>
    -- A larger block is a union of pairs of buddies, so it contains the object as well.
    have hpair : (Block.mk start (order + 1)).Contains x := by
      have haligned : 2 ∣ start :=
        Nat.dvd_trans (dvd_pow_self 2 (Nat.succ_ne_zero order)) (h.manages.wellFormed.aligned _ hb)
      have heven : 2 ∣ 2 ^ (order + 1) := dvd_pow_self 2 (Nat.succ_ne_zero order)
      rw [Block.contains_mk] at hcontains ⊢
      have hone : 2 ^ 0 ∣ x := one_dvd x
      rcases buddy_cases hone with ⟨hfloor, hbuddy⟩ | ⟨hfloor, hbuddy⟩ <;>
        rw [floor] at hfloor <;> omega
    have hsame := h.manages.wellFormed.eq_of_contains hb hx hpair (Block.contains_start ⟨x, 0⟩)
    cases hsame

/-- After one more frame was drawn the buddy of the first one is in use or is not managed. -/
theorem Fresh.buddy_stops (h : a.Fresh base count) {a₁ a₂ : BuddyAllocator Frame}
    (halloc : Allocated a 0 x a₁) {n : ℕ} (hn : 1 ≤ n) (hdrawn : Drawn n a₁ a₂) :
    count ≤ Dyadic.buddy x 0 ∨ Object.isUsed (a₂.objs (Dyadic.buddy x 0)) = true := by
  have h₁ := h.manages.allocated halloc
  obtain ⟨m, rest, -, hm, hempty, hlist, hlists⟩ := halloc.lists
  cases m with
  | zero =>
    left
    have hlength : (a.freeLists 0).length - 1 = 0 := by
      have hzero := Finset.sum_eq_zero_iff.mp h.surplus_eq 0 (Finset.mem_range.mpr (by decide))
      exact hzero
    rw [hlist, List.length_cons, Nat.add_sub_cancel] at hlength
    rw [List.eq_nil_of_length_eq_zero hlength] at hlist
    exact h.buddy_ge hlist
  | succ m =>
    right
    have hmem : (⟨x, m + 1⟩ : Block) ∈ a.freeBlocks :=
      mem_freeBlocks.mpr ⟨hm, by rw [hlist]; exact List.mem_cons_self⟩
    have heven : 2 ^ (0 + 1) ∣ 2 ^ (m + 1) := Nat.pow_dvd_pow 2 (by omega)
    have hbuddy : Dyadic.buddy x 0 = x + 2 ^ 0 :=
      buddy_eq_add (Nat.dvd_trans heven (h.manages.wellFormed.aligned _ hmem))
    have hzero : a₁.freeLists 0 = [x + 2 ^ 0] := by
      rw [hlists, if_pos ⟨le_rfl, Nat.succ_pos m⟩, hempty 0 le_rfl (Nat.succ_pos m),
        List.nil_append]
    cases hdrawn with
    | none => omega
    | @some n _ a₃ _ frame hrun hdrawn =>
      obtain ⟨y, halloc', -⟩ := h₁.allocOne hrun
      obtain ⟨m', rest', -, -, hempty', hlist', -⟩ := halloc'.lists
      obtain rfl : m' = 0 := by
        by_contra hpos
        have hnil := hempty' 0 le_rfl (Nat.pos_of_ne_zero hpos)
        rw [hzero] at hnil
        cases hnil
      rw [hzero] at hlist'
      obtain ⟨rfl, -⟩ := List.cons.inj hlist'
      have hcover : cover a₃.freeBlocks (x + 2 ^ 0) = 0 := by
        have hle := h₁.wellFormed.disjoint (x + 2 ^ 0)
        rw [halloc'.cover_eq, Block.indicator_of_contains (Block.contains_start ⟨_, 0⟩)] at hle
        omega
      rw [hbuddy, (((h₁.allocated halloc').drawn hdrawn).inUse _ hcover).2]
      exact halloc'.isUsed

/-- What is left of a new allocator after it took back its first frame. -/
theorem Fresh.borrowed (h : a.Fresh base count) {n : ℕ} (hn : 1 ≤ n) {frame : Frame}
    {a₁ a₂ : BuddyAllocator Frame} (hrun : FrameAllocator.allocOne a = .ok (some frame, a₁))
    (hdrawn : Drawn n a₁ a₂) :
    ∃ a', FrameAllocator.free a₂ (Frame.fromAddress (frame.number * 4096)) = .ok a' ∧
      a'.Manages base count ∧ a'.surplus ≤ 1 ∧ a.countFreeObjs = n + a'.countFreeObjs := by
  obtain ⟨x, halloc, hnumber⟩ := h.manages.allocOne hrun
  have h₁ := h.manages.allocated halloc
  obtain ⟨h₂, hcount₂, hsurplus₂, hinUse⟩ := h₁.drawn hdrawn
  have hcover₁ : cover a₁.freeBlocks x = 0 := by
    have hle := h.manages.wellFormed.disjoint x
    rw [halloc.cover_eq, Block.indicator_of_contains (Block.contains_start ⟨x, 0⟩)] at hle
    omega
  obtain ⟨hcover₂, hobjs₂⟩ := hinUse x hcover₁
  have horder : Object.order (a₂.objs x) = 0 := hobjs₂ ▸ halloc.order_eq
  have hrange : x + 2 ^ 0 ≤ a₂.objCount := by
    rw [h₂.count_eq, ← h.manages.count_eq]
    exact halloc.inRange
  have hstops : a₂.objCount ≤ buddyHead x 0 ∨ Object.isUsed (a₂.objs (buddyHead x 0)) = true := by
    rw [buddyHead, floor_eq_self (one_dvd x), h₂.count_eq]
    exact h.buddy_stops halloc hn hdrawn
  have hsafe : a₂.MergeSafe x := by
    rw [MergeSafe, horder]
    exact ⟨0, le_rfl, by decide, fun i _ hi => absurd hi (Nat.not_lt_zero i), hstops⟩
  have hcovers : ∀ j, (Block.mk x 0).Contains j → cover a₂.freeBlocks j = 0 := by
    intro j hj
    rw [Block.contains_mk, pow_zero] at hj
    obtain rfl : j = x := by omega
    exact hcover₂
  obtain ⟨a', hfree, -⟩ := (free_spec h₂.wellFormed (by decide) horder (one_dvd x) hrange
    hcovers).1 hsafe
  obtain ⟨hfreed, hsurplus⟩ := h₂.freed_single horder hcover₂ hfree
  have hcount := hfreed.countFreeObjs h₂.wellFormed hrange
  have hfirst := halloc.countFreeObjs h.manages.wellFormed
  have hnone := h.surplus_eq
  have hle := halloc.surplus_le
  refine ⟨a', ?_, h₂.freed hfreed, by omega, by omega⟩
  rw [hnumber, h₂.free_eq, hfree]

/-- A new allocator takes its first frame back. -/
theorem Fresh.takesBack (h : a.Fresh base count) {k : ℕ} (hle : k + 3 ≤ a.countFreeObjs) :
    TakesBack k a := by
  intro frame a₁ n a₂ hrun hpos hn hdrawn
  obtain ⟨a', hfree, hmanages, -, hcount⟩ := h.borrowed hpos hrun hdrawn
  exact ⟨a', hfree, hmanages.lasts (by omega)⟩

/-- What is left of a new allocator after it took back its first frame and handed out more. -/
theorem Fresh.spent (h : a.Fresh base count) {n m : ℕ} (hn : 1 ≤ n) {a₁ : BuddyAllocator Frame}
    (hborrowed : Borrowed n a a₁) (hdrawn : Drawn m a₁ a') :
    a'.Manages base count ∧ a'.surplus ≤ 1 ∧ a.countFreeObjs = n + m + a'.countFreeObjs := by
  obtain ⟨frame, a₂, a₃, hrun, hdrawn₂, hfree⟩ := hborrowed
  obtain ⟨a₄, hfree', hmanages, hsurplus, hcount⟩ := h.borrowed hn hrun hdrawn₂
  rw [hfree] at hfree'
  obtain rfl := Except.ok.inj hfree'
  obtain ⟨hmanages', hcount', hsurplus', -⟩ := hmanages.drawn hdrawn
  exact ⟨hmanages', hsurplus'.trans hsurplus, by omega⟩

/-- `new` returns a new allocator of the frames that it is given, when they are numbered. -/
theorem new_fresh {baseAddr : ℕ} {objs : ℕ → Frame}
    (hnumber : ∀ x < count, (objs x).number = baseAddr / frameSize + x)
    (hfits : baseAddr / frameSize + count ≤ 2 ^ 36) :
    ∃ a, new baseAddr objs count = .ok a ∧ a.Fresh (baseAddr / frameSize) count ∧
      a.countFreeObjs = count := by
  obtain ⟨a, hnew, hfilled, -, -⟩ := new_spec baseAddr objs count
  refine ⟨a, hnew, ⟨new_manages hnumber hfits hnew, fun j hj => ?_, surplus_of_new hnew⟩, ?_⟩
  · rw [hfilled.cover_eq, if_pos hj]
  · obtain ⟨a', hnew', htiles⟩ := new_tiles baseAddr objs count
    rw [hnew] at hnew'
    exact Except.ok.inj hnew' ▸ htiles.total

end BuddyAllocator

/-- The buddy allocator as a source that takes single frames back. The frames in use are managed,
apart from some others that were in use before. -/
def buddyReturning (base count : ℕ) (others : Set ℕ) : ReturningSource (BuddyAllocator Frame) where
  Serves a used := a.Manages base count ∧ a.Spares base used ∧ a.Singles base count used ∧
    ∀ n ∈ used, n ∉ others → base ≤ n ∧ n < base + count
  allocOne := by
    rintro a used ⟨hmanages, hspares, hsingles, hinside⟩
    rcases (buddySource base count []).allocOne
        (show (buddySource base count []).Serves a used from ⟨hmanages, hspares, by simp [Tags]⟩)
      with ⟨a', hrun, hmanages', hspares', -⟩ | ⟨frame, a', hrun, hnew, hlt, hmanages', hspares', -⟩
    · left
      refine ⟨a', hrun, hmanages', hspares', ?_, hinside⟩
      rcases allocate_spec hmanages.wellFormed 0 with ⟨hnone, -⟩ | ⟨x, a₁, hsome, -⟩
      · simp only [FrameAllocator.allocOne, hnone, bind, Except.bind, pure, Except.pure,
          Option.map_none] at hrun
        obtain ⟨-, rfl⟩ := Prod.mk.inj (Except.ok.inj hrun)
        exact hsingles
      · simp only [FrameAllocator.allocOne, hsome, bind, Except.bind, pure, Except.pure,
          Option.map_some] at hrun
        cases hrun
    · right
      obtain ⟨x, halloc, hnumber⟩ := hmanages.allocOne hrun
      refine ⟨frame, a', hrun, hnew, hlt, hmanages', hspares', ?_, ?_⟩
      · rintro y hy (hsame | hin)
        · obtain rfl : y = x := by omega
          exact halloc.order_eq
        · rw [halloc.objs_eq y (hspares.cover_eq_zero hin)]
          exact hsingles y hy hin
      · rintro n (rfl | hin) hout
        · have hrange := halloc.inRange
          have hcount := hmanages.count_eq
          omega
        · exact hinside n hin hout
  freed := by
    rintro a used n a' ⟨hmanages, hspares, hsingles, hinside⟩ hn hlt hfree
    have hnumber : (Frame.fromAddress (n * 4096)).number = n := Nat.mul_div_cancel n (by decide)
    obtain ⟨x, rfl⟩ : ∃ x, n = base + x := by
      obtain ⟨index, hsub, -⟩ := Except.bind_eq_ok.mp hfree
      rw [hnumber, hmanages.base_eq] at hsub
      obtain ⟨hle, rfl⟩ := checkedSub_eq_ok.mp hsub
      exact ⟨n - base, by omega⟩
    rw [hmanages.free_eq] at hfree
    have hx := lt_of_free hfree
    rw [hmanages.count_eq] at hx
    obtain ⟨hfreed, -⟩ := hmanages.freed_single (hsingles x hx hn) (hspares.cover_eq_zero hn) hfree
    have hgone : ∀ j, (Block.mk x 0).Contains j → base + j ∉ used \ {base + x} := by
      intro j hj hin
      rw [Block.contains_mk, pow_zero] at hj
      obtain rfl : j = x := by omega
      exact hin.2 rfl
    refine ⟨hmanages.freed hfreed, hspares.freed hfreed Set.sdiff_subset hgone, ?_,
      fun m hm => hinside m hm.1⟩
    rintro y hy ⟨hin, hne⟩
    have hout : ¬(Block.mk x 0).Contains y := by
      rw [Block.contains_mk, pow_zero]
      intro hcontains
      exact hne (by rw [Set.mem_singleton_iff]; omega)
    rw [hfreed.objs_eq y (hspares.cover_eq_zero hin) hout]
    exact hsingles y hy hin

end Axel
