import Axel.Buddy.AllocateSemantics

/-!
# Freeing and coalescing

`free` climbs from the order of the freed block as long as the first object of the
buddy is not marked as used. Only the used tag is read, never the order of the buddy.
The climb is sound exactly when every buddy it absorbs is a member of the free list of
the same order; this file states that condition on the state before the call and
determines the result of `free` on both sides of it.
-/

namespace Axel.BuddyAllocator

open Dyadic

variable {T : Type} [Object T]

/-- The first object of the buddy that the climb from object `x` meets at order `l`. -/
def buddyHead (x l : ℕ) : ℕ := Dyadic.buddy (floor x l) l

/-- The climb from object `x`, at order `l`, absorbs only members of the free lists
and ends below `MAX_ORDER`, at a buddy that is not managed or is marked as used. -/
def SafeFrom (s : BuddyAllocator T) (x l : ℕ) : Prop :=
  ∃ top, l ≤ top ∧ top < maxOrder ∧
    (∀ i, l ≤ i → i < top → buddyHead x i ∈ s.freeLists i) ∧
    (s.objCount ≤ buddyHead x top ∨ Object.isUsed (s.objs (buddyHead x top)) = true)

/-- The condition under which `free x` merges soundly: the climb starts at the order
stored in the object. -/
def MergeSafe (s : BuddyAllocator T) (x : ℕ) : Prop := s.SafeFrom x (Object.order (s.objs x))

/-- The climb from object `x`, at order `l`, finds a member of the free list at every order
that is left. -/
def ClimbsOut (s : BuddyAllocator T) (x l : ℕ) : Prop :=
  ∀ i, l ≤ i → i < maxOrder → buddyHead x i ∈ s.freeLists i

/-- `free` up to the end of its merging loop. -/
def mergeBlock (self : BuddyAllocator T) (obj : ℕ) : Except Fault (ℕ × BuddyAllocator T) := do
  let managed ← self.isManagedObj obj
  debugAssert managed
  let self := self.modifyObj obj Object.markFree
  let order := Object.order (self.objs obj)
  mergeFrom (List.range' order (maxOrder - order)) obj self

/-- `free` pushes the block that the loop returns to the list of the stored order. -/
theorem free_eq (s : BuddyAllocator T) (obj : ℕ) :
    s.free obj = s.mergeBlock obj >>= fun r => r.2.pushBack (Object.order (r.2.objs r.1)) r.1 := by
  simp only [free, mergeBlock, bind_assoc]

/-- The invariant of the merging loop: the block of order `l` at `x` is tagged, aligned,
in range and disjoint from the free blocks. -/
structure Merging (s : BuddyAllocator T) (x l : ℕ) : Prop where
  /-- The free lists are well formed. -/
  wellFormed : s.WellFormed
  /-- The block starts at a multiple of its length. -/
  aligned : 2 ^ l ∣ x
  /-- The block lies inside the array. -/
  inRange : x + 2 ^ l ≤ s.objCount
  /-- Its first object stores the order. -/
  order_eq : Object.order (s.objs x) = l
  /-- Its first object is marked as free. -/
  isFree : Object.isUsed (s.objs x) = false
  /-- No free block meets it. -/
  cover_eq : ∀ j, (Block.mk x l).Contains j → cover s.freeBlocks j = 0

/-- The state after the block at `x` has absorbed its buddy of order `l`. -/
def merged (s : BuddyAllocator T) (x l : ℕ) : BuddyAllocator T :=
  if Dyadic.buddy x l < x then
    ((s.taken l (Dyadic.buddy x l)).modifyObj (Dyadic.buddy x l) Object.markFree).modifyObj
      (Dyadic.buddy x l) (fun o => Object.setOrder o (l + 1))
  else (s.taken l (Dyadic.buddy x l)).modifyObj x (fun o => Object.setOrder o (l + 1))

/-- Both branches of the merge store the new order in the lower of the two blocks. -/
theorem merged_eq {s : BuddyAllocator T} {x l : ℕ} (haligned : 2 ^ l ∣ x) :
    ∃ f : T → T, (∀ t, Object.order (f t) = l + 1) ∧
      (∀ t, Object.isUsed t = false → Object.isUsed (f t) = false) ∧
      (∀ g : T → ℕ, (∀ t, g (Object.markFree t) = g t) → (∀ t k, g (Object.setOrder t k) = g t) →
        ∀ t, g (f t) = g t) ∧
      merged s x l = (s.taken l (Dyadic.buddy x l)).modifyObj (floor x (l + 1)) f := by
  rcases buddy_cases haligned with ⟨hf, hb⟩ | ⟨hf, hb⟩
  · refine ⟨fun o => Object.setOrder o (l + 1), fun t => by simp, fun t ht => by simpa using ht,
      fun g _ ho t => ho t _, ?_⟩
    rw [merged, if_neg (by omega), hf]
  · refine ⟨fun o => Object.setOrder (Object.markFree o) (l + 1), fun t => by simp,
      fun t _ => by simp, fun g hm ho t => by rw [ho, hm], ?_⟩
    rw [merged, if_pos (by omega), hf]
    simp [BuddyAllocator.modifyObj]

/-- The loop takes one merging step when the buddy is on the free list of its order. -/
theorem mergeFrom_cons {s : BuddyAllocator T} {x l : ℕ} (h : s.Merging x l) (hl : l < maxOrder)
    (hmem : Dyadic.buddy x l ∈ s.freeLists l) (orders : List ℕ) :
    mergeFrom (l :: orders) x s = mergeFrom orders (floor x (l + 1)) (s.merged x l) := by
  have hblock := mem_freeBlocks.mpr ⟨hl, hmem⟩
  have hrange := h.wellFormed.inRange _ hblock
  have hfree := h.wellFormed.isFree _ hblock
  have hpos := Nat.two_pow_pos l
  have hx := h.inRange
  simp only at hrange hfree
  have hcall : s.buddy x l = .ok (some (Dyadic.buddy x l)) := by
    rw [buddy_eq (by omega), if_pos ⟨hl, by omega⟩]
  have hremove : s.removeFrom l (Dyadic.buddy x l) = .ok { s with
      freeLists := Function.update s.freeLists l ((s.freeLists l).erase (Dyadic.buddy x l)) } :=
    if_pos hmem
  simp only [mergeFrom, hcall, hfree, hremove, h.wellFormed.decrementCount hl hmem, bind,
    Except.bind, Bool.false_eq_true, if_false]
  rcases buddy_cases h.aligned with ⟨hf, hb⟩ | ⟨hf, hb⟩
  · have hlt : ¬Dyadic.buddy x l < x := by omega
    simp only [hlt, if_false, merged, taken, hf]
  · have hlt : Dyadic.buddy x l < x := by omega
    simp only [hlt, if_true, merged, taken, hf]

/-- One merging step keeps the invariant at the next order. The free objects and the
block in hand stay the same taken together, and nothing outside the merged block and
the list of this order changes. -/
theorem Merging.step {s : BuddyAllocator T} {x l : ℕ} (h : s.Merging x l) (hl : l < maxOrder)
    (hmem : Dyadic.buddy x l ∈ s.freeLists l) :
    (s.merged x l).Merging (floor x (l + 1)) (l + 1) ∧
      (∀ j, cover (s.merged x l).freeBlocks j + (Block.mk (floor x (l + 1)) (l + 1)).indicator j =
        cover s.freeBlocks j + (Block.mk x l).indicator j) ∧
      (∀ i, i ≠ l → (s.merged x l).freeLists i = s.freeLists i) ∧
      (∀ y, ¬(Block.mk (floor x (l + 1)) (l + 1)).Contains y →
        (s.merged x l).objs y = s.objs y) ∧
      (s.merged x l).objCount = s.objCount ∧ (s.merged x l).baseAddr = s.baseAddr ∧
      TagsOnly s (s.merged x l) := by
  obtain ⟨f, horder, hfree, htags, hmerged⟩ := merged_eq (s := s) h.aligned
  have hblock := mem_freeBlocks.mpr ⟨hl, hmem⟩
  have hrange := h.wellFormed.inRange _ hblock
  have hperm := freeBlocks_taken hl hmem
  have hcover : ∀ j, cover (s.taken l (Dyadic.buddy x l)).freeBlocks j +
      (Block.mk (floor x (l + 1)) (l + 1)).indicator j =
        cover s.freeBlocks j + (Block.mk x l).indicator j := by
    intro j
    rw [cover_perm hperm, cover_cons, indicator_buddy h.aligned]
    omega
  have hzero : ∀ j, (Block.mk (floor x (l + 1)) (l + 1)).Contains j →
      cover (s.taken l (Dyadic.buddy x l)).freeBlocks j = 0 := by
    intro j hj
    have hsum := hcover j
    have hle := h.wellFormed.disjoint j
    rw [Block.indicator_of_contains hj] at hsum
    by_cases hx : (Block.mk x l).Contains j
    · rw [h.cover_eq j hx, Block.indicator_of_contains hx] at hsum
      omega
    · rw [Block.indicator_of_not_contains hx] at hsum
      omega
  have hstart := hzero _ (Block.contains_start ⟨floor x (l + 1), l + 1⟩)
  have hxrange := h.inRange
  simp only at hrange hstart
  have hold : Object.isUsed (s.objs (floor x (l + 1))) = false := by
    rcases buddy_cases h.aligned with ⟨hf, -⟩ | ⟨hf, -⟩
    · rw [hf]
      exact h.isFree
    · rw [hf]
      exact h.wellFormed.isFree _ hblock
  rw [hmerged]
  refine ⟨⟨(h.wellFormed.taken hl hmem).modifyObj f hstart, dvd_floor x (l + 1), ?_, ?_, ?_, ?_⟩,
    hcover, fun i hi => Function.update_of_ne hi .., fun y hy => ?_, rfl, rfl, ?_⟩
  · rcases buddy_cases h.aligned with ⟨hf, hb⟩ | ⟨hf, hb⟩
    · simp only [objCount_modifyObj, objCount_taken]
      omega
    · simp only [objCount_modifyObj, objCount_taken]
      omega
  · rw [objs_modifyObj_self, horder]
  · rw [objs_modifyObj_self, objs_taken, hfree _ hold]
  · exact hzero
  · refine objs_modifyObj_of_ne _ f ?_
    rintro rfl
    exact hy (Block.contains_start ⟨floor x (l + 1), l + 1⟩)
  · exact TagsOnly.modifyObj (s.taken l (Dyadic.buddy x l)) _ f (fun g _ hm ho => htags g hm ho)

/-- A buddy on the free list of its order does not end the climb, and the merging step
does not change the rest of it. -/
theorem Merging.safeFrom_iff {s : BuddyAllocator T} {x l : ℕ} (h : s.Merging (floor x l) l)
    (hl : l < maxOrder) (hmem : buddyHead x l ∈ s.freeLists l) :
    s.SafeFrom x l ↔ (s.merged (floor x l) l).SafeFrom x (l + 1) := by
  obtain ⟨-, -, hlists, hobjs, hcount, -, -⟩ := h.step hl hmem
  have hblock := mem_freeBlocks.mpr ⟨hl, hmem⟩
  have hrange := h.wellFormed.inRange _ hblock
  have hfree := h.wellFormed.isFree _ hblock
  have hpos := Nat.two_pow_pos l
  simp only at hrange hfree
  have hhead : ∀ top, l + 1 ≤ top →
      (s.merged (floor x l) l).objs (buddyHead x top) = s.objs (buddyHead x top) := by
    intro top htop
    apply hobjs
    rw [floor_floor_succ]
    exact fun hc => not_contains_buddy_floor x top (contains_floor_of_le htop hc)
  constructor
  · rintro ⟨top, hle, htop, hclimb, hstop⟩
    have hne : l ≠ top := by
      rintro rfl
      rcases hstop with hout | hused
      · omega
      · rw [hfree] at hused
        cases hused
    refine ⟨top, by omega, htop, fun i hi hit => ?_, ?_⟩
    · rw [hlists i (by omega)]
      exact hclimb i (by omega) hit
    · rw [hcount, hhead top (by omega)]
      exact hstop
  · rintro ⟨top, hle, htop, hclimb, hstop⟩
    rw [hcount, hhead top hle] at hstop
    refine ⟨top, by omega, htop, fun i hi hit => ?_, hstop⟩
    by_cases hil : i = l
    · rw [hil]
      exact hmem
    · rw [← hlists i hil]
      exact hclimb i (by omega) hit

/-- The call of `buddy` at order `l` of the climb from `x`. -/
theorem Merging.buddy_eq {s : BuddyAllocator T} {x l : ℕ} (h : s.Merging (floor x l) l)
    (hl : l < maxOrder) :
    s.buddy (floor x l) l =
      .ok (if buddyHead x l < s.objCount then some (buddyHead x l) else none) := by
  have hpos := Nat.two_pow_pos l
  have hrange := h.inRange
  rw [BuddyAllocator.buddy_eq (by omega)]
  by_cases hin : buddyHead x l < s.objCount
  · rw [if_pos ⟨hl, hin⟩, if_pos hin]
    rfl
  · rw [if_neg (fun hc => hin hc.2), if_neg hin]

/-- A climb that absorbs members of the free lists below `top` and stops there returns the
block of order `top` around the freed one. It takes one block from each list on the way. -/
theorem Merging.mergeFrom_safe {s : BuddyAllocator T} {x l top n : ℕ}
    (h : s.Merging (floor x l) l) (hn : l + n = maxOrder) (hle : l ≤ top) (htop : top < maxOrder)
    (hclimb : ∀ i, l ≤ i → i < top → buddyHead x i ∈ s.freeLists i)
    (hstop : s.objCount ≤ buddyHead x top ∨ Object.isUsed (s.objs (buddyHead x top)) = true) :
    ∃ s', mergeFrom (List.range' l n) (floor x l) s = .ok (floor x top, s') ∧
      s'.Merging (floor x top) top ∧
      (∀ j, cover s'.freeBlocks j + (Block.mk (floor x top) top).indicator j =
        cover s.freeBlocks j + (Block.mk (floor x l) l).indicator j) ∧
      (∀ y, ¬(Block.mk (floor x top) top).Contains y → s'.objs y = s.objs y) ∧
      (∀ i, s'.freeLists i =
        if l ≤ i ∧ i < top then (s.freeLists i).erase (buddyHead x i) else s.freeLists i) ∧
      s'.objCount = s.objCount ∧ s'.baseAddr = s.baseAddr ∧ TagsOnly s s' := by
  induction n generalizing s l with
  | zero => omega
  | succ n ih =>
    have hl : l < maxOrder := by omega
    rw [List.range'_succ]
    by_cases hlt : l < top
    · have hmem := hclimb l le_rfl hlt
      obtain ⟨hnext, hcover, hlists, hobjs, hcount, hbase, htags⟩ := h.step hl hmem
      have hlist : (s.merged (floor x l) l).freeLists l =
          (s.freeLists l).erase (buddyHead x l) := by
        unfold merged
        split <;> simp [taken, buddyHead]
      have hrest : ∀ i, l + 1 ≤ i → i < top →
          buddyHead x i ∈ (s.merged (floor x l) l).freeLists i := by
        intro i hi hit
        rw [hlists i (by omega)]
        exact hclimb i (by omega) hit
      rw [mergeFrom_cons h hl hmem]
      rw [floor_floor_succ] at hnext hcover hobjs ⊢
      have hhead : (s.merged (floor x l) l).objs (buddyHead x top) = s.objs (buddyHead x top) :=
        hobjs _ (fun hc => not_contains_buddy_floor x top (contains_floor_of_le hlt hc))
      obtain ⟨s', hrun, hend, hcover', hobjs', hlists', hcount', hbase', htags'⟩ :=
        ih hnext (by omega) hlt hrest (by rw [hcount, hhead]; exact hstop)
      refine ⟨s', hrun, hend, fun j => (hcover' j).trans (hcover j), fun y hy => ?_, fun i => ?_,
        hcount'.trans hcount, hbase'.trans hbase, htags.trans htags'⟩
      · rw [hobjs' y hy, hobjs y (fun hc => hy (contains_floor_of_le hlt hc))]
      · rw [hlists' i]
        by_cases hil : i = l
        · subst hil
          rw [if_neg (by omega), if_pos ⟨le_rfl, hlt⟩, hlist]
        · rw [hlists i hil]
          by_cases hin : l + 1 ≤ i ∧ i < top
          · rw [if_pos hin, if_pos (by omega)]
          · rw [if_neg hin, if_neg (by omega)]
    · obtain rfl : l = top := by omega
      refine ⟨s, ?_, h, fun j => rfl, fun y _ => rfl, fun i => ?_, rfl, rfl, TagsOnly.refl s⟩
      · simp only [mergeFrom, h.buddy_eq hl, bind, Except.bind]
        by_cases hin : buddyHead x l < s.objCount
        · have hused := hstop.resolve_left (by omega)
          simp only [if_pos hin, hused, if_true, pure, Except.pure]
        · simp only [if_neg hin, pure, Except.pure]
      · rw [if_neg (by omega)]

/-- A climb that leaves the orders below `MAX_ORDER` returns a block of the order
`MAX_ORDER`. -/
theorem Merging.mergeFrom_climbsOut {s : BuddyAllocator T} {x l n : ℕ}
    (h : s.Merging (floor x l) l) (hn : l + n = maxOrder) (hout : s.ClimbsOut x l) :
    ∃ obj s', mergeFrom (List.range' l n) (floor x l) s = .ok (obj, s') ∧
      Object.order (s'.objs obj) = maxOrder := by
  induction n generalizing s l with
  | zero =>
    refine ⟨floor x l, s, rfl, ?_⟩
    rw [h.order_eq]
    omega
  | succ n ih =>
    have hl : l < maxOrder := by omega
    have hmem := hout l le_rfl hl
    obtain ⟨hnext, -, hlists, -⟩ := h.step hl hmem
    have hrest : (s.merged (floor x l) l).ClimbsOut x (l + 1) := by
      intro i hi him
      rw [hlists i (by omega)]
      exact hout i (by omega) him
    rw [List.range'_succ, mergeFrom_cons h hl hmem]
    rw [floor_floor_succ] at hnext ⊢
    exact ih hnext (by omega) hrest

/-- A climb that returns without leaving the orders below `MAX_ORDER` is safe. -/
theorem Merging.safeFrom_of_returned {s : BuddyAllocator T} {x l n : ℕ}
    (h : s.Merging (floor x l) l) (hn : l + n = maxOrder) {r : ℕ × BuddyAllocator T}
    (hrun : mergeFrom (List.range' l n) (floor x l) s = .ok r) (hout : ¬s.ClimbsOut x l) :
    s.SafeFrom x l := by
  induction n generalizing s l with
  | zero => exact absurd (fun i hi him => absurd hn (by omega)) hout
  | succ n ih =>
    have hl : l < maxOrder := by omega
    rw [List.range'_succ] at hrun
    by_cases hmem : buddyHead x l ∈ s.freeLists l
    · obtain ⟨hnext, -, hlists, -⟩ := h.step hl hmem
      rw [mergeFrom_cons h hl hmem] at hrun
      rw [floor_floor_succ] at hnext hrun
      refine (h.safeFrom_iff hl hmem).mpr (ih hnext (by omega) hrun (fun hrest => hout ?_))
      intro i hi him
      by_cases hil : i = l
      · rw [hil]
        exact hmem
      · rw [← hlists i hil]
        exact hrest i (by omega) him
    · refine ⟨l, le_rfl, hl, fun i _ _ => by omega, ?_⟩
      by_contra hstop
      obtain ⟨hin, hunused⟩ := not_or.mp hstop
      rw [Bool.not_eq_true] at hunused
      simp only [mergeFrom, h.buddy_eq hl, if_pos (not_le.mp hin), hunused, removeFrom,
        if_neg hmem, bind, Except.bind, Bool.false_eq_true, if_false, reduceCtorEq] at hrun

/-- A climb that is not safe faults, or it returns a block of order `MAX_ORDER`. -/
theorem Merging.mergeFrom_not_safe {s : BuddyAllocator T} {x l n : ℕ} (h : s.Merging (floor x l) l)
    (hn : l + n = maxOrder) (hsafe : ¬s.SafeFrom x l) {obj : ℕ} {s' : BuddyAllocator T}
    (hrun : mergeFrom (List.range' l n) (floor x l) s = .ok (obj, s')) :
    Object.order (s'.objs obj) = maxOrder := by
  by_cases hout : s.ClimbsOut x l
  · obtain ⟨obj', s'', hclimb, horder⟩ := h.mergeFrom_climbsOut hn hout
    rw [hrun] at hclimb
    cases hclimb
    exact horder
  · exact absurd (h.safeFrom_of_returned hn hrun hout) hsafe

/-- What a successful `free` of the block of order `k` at `x` did to well-formed free
lists. -/
structure Freed (s : BuddyAllocator T) (k x : ℕ) (s' : BuddyAllocator T) : Prop where
  /-- The free lists stay well formed. -/
  wellFormed : s'.WellFormed
  /-- The free objects are those before, and the freed block. -/
  cover_eq : ∀ j, cover s'.freeBlocks j = cover s.freeBlocks j + (Block.mk x k).indicator j
  /-- Objects outside the free blocks and the freed block keep their tags. -/
  objs_eq : ∀ y, cover s.freeBlocks y = 0 → ¬(Block.mk x k).Contains y → s'.objs y = s.objs y
  /-- The number of objects is fixed. -/
  objCount_eq : s'.objCount = s.objCount
  /-- The base address is fixed. -/
  baseAddr_eq : s'.baseAddr = s.baseAddr
  /-- Only tags of objects change. -/
  tagsOnly : TagsOnly s s'

omit [Object T] in
/-- A tag of an object is no tag of a buddy that its climb meets. -/
theorem objs_modifyObj_buddyHead (s : BuddyAllocator T) (x top : ℕ) (f : T → T) :
    (s.modifyObj x f).objs (buddyHead x top) = s.objs (buddyHead x top) := by
  apply objs_modifyObj_of_ne
  intro heq
  apply not_contains_buddy_floor x top
  rw [show Dyadic.buddy (floor x top) top = x from heq]
  exact contains_floor x top

/-- The tag written at the start of `free` does not change the climb. -/
theorem mergeSafe_iff_modifyObj (s : BuddyAllocator T) (x l : ℕ) (f : T → T) :
    (s.modifyObj x f).SafeFrom x l ↔ s.SafeFrom x l := by
  unfold SafeFrom
  simp only [objs_modifyObj_buddyHead, freeLists_modifyObj, objCount_modifyObj]

/-- The loop of `free` starts with its invariant on a block of the array that meets no free
block. -/
theorem Merging.start {s : BuddyAllocator T} (h : s.WellFormed) {k x : ℕ}
    (horder : Object.order (s.objs x) = k) (haligned : 2 ^ k ∣ x) (hrange : x + 2 ^ k ≤ s.objCount)
    (hcover : ∀ j, (Block.mk x k).Contains j → cover s.freeBlocks j = 0) :
    (s.modifyObj x Object.markFree).Merging (floor x k) k := by
  rw [floor_eq_self haligned]
  exact ⟨h.modifyObj _ (hcover x (Block.contains_start ⟨x, k⟩)), haligned, hrange,
    by simpa using horder, by simp, hcover⟩

/-- On a block of the array, `free` enters its loop at the order of the block. -/
theorem mergeBlock_eq {s : BuddyAllocator T} {k x : ℕ} (horder : Object.order (s.objs x) = k)
    (haligned : 2 ^ k ∣ x) (hrange : x + 2 ^ k ≤ s.objCount) :
    s.mergeBlock x = mergeFrom (List.range' k (maxOrder - k)) (floor x k)
      (s.modifyObj x Object.markFree) := by
  have hmanaged : s.isManagedObj x = .ok true := by
    rw [isManagedObj_eq (by omega)]
    simp only [Except.ok.injEq, decide_eq_true_eq]
    omega
  simp only [mergeBlock, hmanaged, debugAssert, if_true, bind, Except.bind, objs_modifyObj_self,
    Object.order_markFree, horder, floor_eq_self haligned]

/-- Freeing a block of the array that meets no free block, when the climb stops at order
`top`: one block leaves each list on the way, and the merged block is pushed back. -/
theorem free_climb {s : BuddyAllocator T} (h : s.WellFormed) {k x top : ℕ}
    (horder : Object.order (s.objs x) = k) (haligned : 2 ^ k ∣ x) (hrange : x + 2 ^ k ≤ s.objCount)
    (hcover : ∀ j, (Block.mk x k).Contains j → cover s.freeBlocks j = 0)
    (hle : k ≤ top) (htop : top < maxOrder)
    (hclimb : ∀ i, k ≤ i → i < top → buddyHead x i ∈ s.freeLists i)
    (hstop : s.objCount ≤ buddyHead x top ∨ Object.isUsed (s.objs (buddyHead x top)) = true) :
    ∃ s', s.free x = .ok s' ∧ Freed s k x s' ∧ ∀ i, s'.freeLists i =
      if k ≤ i ∧ i < top then (s.freeLists i).erase (buddyHead x i)
      else if i = top then s.freeLists i ++ [floor x top] else s.freeLists i := by
  have hfloor : floor x k = x := floor_eq_self haligned
  obtain ⟨s', hrun, hend, hcover', hobjs', hlists', hcount', hbase', htags'⟩ :=
    (Merging.start h horder haligned hrange hcover).mergeFrom_safe (n := maxOrder - k) (by omega)
      hle htop hclimb (by rw [objs_modifyObj_buddyHead]; exact hstop)
  obtain ⟨hpush, hwf⟩ := hend.wellFormed.pushBack htop hend.aligned hend.inRange hend.order_eq
    hend.isFree hend.cover_eq
  have hfinal : ∀ j, cover (s'.pushed top (floor x top)).freeBlocks j =
      cover s.freeBlocks j + (Block.mk x k).indicator j := by
    intro j
    have hj := hcover' j
    rw [freeBlocks_modifyObj, hfloor] at hj
    rw [cover_perm (freeBlocks_pushed s' htop), cover_cons]
    omega
  refine ⟨s'.pushed top (floor x top), ?_, ⟨hwf, hfinal, fun y hy hout => ?_, hcount', hbase', ?_⟩,
    fun i => ?_⟩
  · rw [free_eq, mergeBlock_eq horder haligned hrange]
    simp only [hrun, bind, Except.bind, hend.order_eq, hpush]
  · have hnot : ¬(Block.mk (floor x top) top).Contains y := by
      intro hc
      have hj := hcover' y
      rw [freeBlocks_modifyObj, hfloor, hy, Block.indicator_of_contains hc,
        Block.indicator_of_not_contains hout] at hj
      omega
    rw [objs_pushed, hobjs' y hnot]
    apply objs_modifyObj_of_ne
    rintro rfl
    exact hout (Block.contains_start ⟨y, k⟩)
  · exact (TagsOnly.modifyObj s x Object.markFree (fun g _ hm _ t => hm t)).trans htags'
  · by_cases hi : i = top
    · subst hi
      rw [if_neg (by omega), if_pos rfl, pushed]
      simp only [Function.update_self, hlists', if_neg (show ¬(k ≤ i ∧ i < i) by omega),
        freeLists_modifyObj]
    · have hother : (s'.pushed top (floor x top)).freeLists i = s'.freeLists i :=
        Function.update_of_ne hi ..
      rw [hother, hlists' i, if_neg hi, freeLists_modifyObj]

/-- Everything `free` can do with a block of the array that meets no free block: it
succeeds exactly when the climb is safe, and then it adds exactly this block to the
free objects. -/
theorem free_spec {s : BuddyAllocator T} (h : s.WellFormed) {k x : ℕ} (hk : k < maxOrder)
    (horder : Object.order (s.objs x) = k) (haligned : 2 ^ k ∣ x) (hrange : x + 2 ^ k ≤ s.objCount)
    (hcover : ∀ j, (Block.mk x k).Contains j → cover s.freeBlocks j = 0) :
    (s.MergeSafe x → ∃ s', s.free x = .ok s' ∧ Freed s k x s') ∧
    (¬s.MergeSafe x → ∀ s', s.free x ≠ .ok s') := by
  have hsafeIff : s.MergeSafe x ↔ (s.modifyObj x Object.markFree).SafeFrom x k := by
    rw [mergeSafe_iff_modifyObj, MergeSafe, horder]
  constructor
  · intro hsafe
    rw [MergeSafe, horder] at hsafe
    obtain ⟨top, hle, htop, hclimb, hstop⟩ := hsafe
    obtain ⟨s', hrun, hfreed, -⟩ :=
      free_climb h horder haligned hrange hcover hle htop hclimb hstop
    exact ⟨s', hrun, hfreed⟩
  · intro hsafe s' hok
    rw [hsafeIff] at hsafe
    rw [free_eq, mergeBlock_eq horder haligned hrange] at hok
    obtain ⟨⟨obj, s''⟩, hrun, hpush⟩ := Except.bind_eq_ok.mp hok
    have hmax := (Merging.start h horder haligned hrange hcover).mergeFrom_not_safe
      (n := maxOrder - k) (by omega) hsafe hrun
    simp only [hmax, pushBack, le_refl, if_true, reduceCtorEq] at hpush

end Axel.BuddyAllocator
