import Axel.Buddy.FreeSemantics
import Axel.Memory.Frame

/-!
# Runs of the buddy allocator

A run starts at `BuddyAllocator::new` and allocates and frees blocks in any order. The
blocks in use are recorded next to the state. As long as every free climbs soundly,
the free blocks and the blocks in use tile the array; a free that does not climb
soundly faults.
-/

namespace Axel

open Dyadic

variable {T : Type} [Object T]

namespace BuddyAllocator

/-- The state inside `new`: the objects below `index` are distributed. -/
structure Filled (s : BuddyAllocator T) (count index : ℕ) : Prop where
  /-- The free lists are well formed. -/
  wellFormed : s.WellFormed
  /-- The number of objects. -/
  objCount_eq : s.objCount = count
  /-- No object is distributed that does not exist. -/
  index_le : index ≤ count
  /-- Exactly the objects below the index are free. -/
  cover_eq : ∀ j, cover s.freeBlocks j = if j < index then 1 else 0

/-- Starting another block at a free index distributes exactly that block. -/
theorem Filled.push {s : BuddyAllocator T} {count index order : ℕ} (h : s.Filled count index)
    (horder : order < maxOrder) (haligned : 2 ^ order ∣ index)
    (hrest : 2 ^ order ≤ count - index) :
    ∃ s', (s.modifyObj index (fun obj => Object.markFree (Object.setOrder obj order))).pushBack
        order index = .ok s' ∧
      s'.Filled count (index + 2 ^ order) ∧ TagsOnly s s' ∧ s'.baseAddr = s.baseAddr := by
  have hzero : ∀ j, index ≤ j → cover s.freeBlocks j = 0 := fun j hj => by
    rw [h.cover_eq, if_neg (by omega)]
  have hrange : index + 2 ^ order ≤ s.objCount := by
    rw [h.objCount_eq]
    omega
  obtain ⟨hpush, hwf, hcover, -, htags⟩ :=
    h.wellFormed.release horder haligned hrange (fun j hj => hzero j hj.1)
  refine ⟨_, hpush, ⟨hwf, h.objCount_eq, by omega, fun j => ?_⟩, htags, rfl⟩
  rw [hcover, h.cover_eq]
  by_cases hj : (Block.mk index order).Contains j
  · rw [Block.indicator_of_contains hj]
    rw [Block.contains_mk] at hj
    rw [if_neg (by omega), if_pos hj.2]
  · rw [Block.indicator_of_not_contains hj, Nat.zero_add]
    rw [Block.contains_mk] at hj
    by_cases hlt : j < index
    · rw [if_pos hlt, if_pos (by omega)]
    · rw [if_neg hlt, if_neg (by omega)]

/-- The inner loop of `new` stops with fewer objects left than a block of its order. -/
theorem Filled.fillOrder {s : BuddyAllocator T} {count index order fuel : ℕ}
    (h : s.Filled count index) (horder : order < maxOrder) (haligned : 2 ^ order ∣ index)
    (hfuel : count - index < fuel) :
    ∃ index' s', fillOrder count order fuel index s = .ok (index', s') ∧
      s'.Filled count index' ∧ 2 ^ order ∣ index' ∧ count - index' < 2 ^ order ∧
      TagsOnly s s' ∧ s'.baseAddr = s.baseAddr := by
  induction fuel generalizing s index with
  | zero => omega
  | succ fuel ih =>
    simp only [BuddyAllocator.fillOrder, checkedSub_ok h.index_le, bind, Except.bind]
    by_cases hrest : 2 ^ order ≤ count - index
    · obtain ⟨s', hpush, hfilled, htags, hbase⟩ := h.push horder haligned hrest
      rw [if_pos hrest, hpush]
      obtain ⟨index', s'', hrun, hfilled', haligned', hlt, htags', hbase'⟩ :=
        ih hfilled (Nat.dvd_add haligned (Nat.dvd_refl _)) (by omega)
      exact ⟨index', s'', hrun, hfilled', haligned', hlt, htags.trans htags', hbase'.trans hbase⟩
    · rw [if_neg hrest]
      exact ⟨index, s, rfl, h, haligned, by omega, TagsOnly.refl s, rfl⟩

/-- The outer loop of `new` over the orders below `n` distributes all objects. -/
theorem Filled.fillOrders {s : BuddyAllocator T} {count index n : ℕ} (h : s.Filled count index)
    (hn : n ≤ maxOrder) (haligned : ∀ order < n, 2 ^ order ∣ index)
    (hrest : n < maxOrder → count - index < 2 ^ n) :
    ∃ s', fillOrders count (List.range n).reverse index s = .ok (count, s') ∧
      s'.Filled count count ∧ TagsOnly s s' ∧ s'.baseAddr = s.baseAddr := by
  induction n generalizing s index with
  | zero =>
    have hlt := hrest (by decide)
    have hle := h.index_le
    obtain rfl : index = count := by omega
    exact ⟨s, rfl, h, TagsOnly.refl s, rfl⟩
  | succ n ih =>
    rw [List.range_succ, List.reverse_append, List.reverse_singleton, List.singleton_append]
    obtain ⟨index', s', hrun, hfilled, hdvd, hlt, htags, hbase⟩ :=
      h.fillOrder (by omega) (haligned n (by omega)) (show count - index < count + 1 by omega)
    obtain ⟨s'', hrun', hfilled', htags', hbase'⟩ := ih hfilled (by omega)
      (fun order ho => Nat.dvd_trans (Nat.pow_dvd_pow 2 (by omega)) hdvd) (fun _ => hlt)
    refine ⟨s'', ?_, hfilled', htags.trans htags', hbase'.trans hbase⟩
    simp only [BuddyAllocator.fillOrders, hrun, bind, Except.bind]
    exact hrun'

/-- `new` returns well-formed free lists in which every object is free, whatever the
objects held before. -/
theorem new_spec (baseAddr : ℕ) (objs : ℕ → T) (count : ℕ) :
    ∃ s, new baseAddr objs count = .ok s ∧ s.Filled count count ∧ s.baseAddr = baseAddr ∧
      ∀ g : T → ℕ, (∀ t, g (Object.markUsed t) = g t) → (∀ t, g (Object.markFree t) = g t) →
        (∀ t k, g (Object.setOrder t k) = g t) → ∀ y, g (s.objs y) = g (objs y) := by
  let empty : BuddyAllocator T := ⟨baseAddr, count, objs, fun _ => [], fun _ => 0⟩
  have hblocks : empty.freeBlocks = [] := by
    simp [empty, freeBlocks, blocksOf]
  have hempty : empty.Filled count 0 := by
    refine ⟨⟨?_, ?_, ?_, ?_, fun i _ => rfl, ?_⟩, rfl, Nat.zero_le _, ?_⟩ <;> simp [hblocks]
  obtain ⟨s, hrun, hfilled, htags, hbase⟩ := hempty.fillOrders (n := maxOrder) le_rfl
    (fun order _ => Nat.dvd_zero _) (fun hlt => absurd hlt (lt_irrefl _))
  refine ⟨s, ?_, hfilled, hbase, htags⟩
  simp only [new, bind, Except.bind]
  rw [show fillOrders count (List.range maxOrder).reverse 0 _ = _ from hrun]
  rfl

end BuddyAllocator

/-- The allocator together with the blocks that have been returned by `allocate` and
not yet been freed. -/
structure BuddySystem (T : Type) where
  /-- The state of the allocator. -/
  allocator : BuddyAllocator T
  /-- The blocks in use. -/
  live : List Block

/-- One call in a run. -/
inductive BuddyCall where
  /-- `allocate` with a request order. -/
  | allocate (requestOrder : ℕ)
  /-- `free` of a block. -/
  | free (block : Block)

namespace BuddySystem

/-- `BuddyAllocator::new`, with no block in use. -/
def start (baseAddr : ℕ) (objs : ℕ → T) (count : ℕ) : Except Fault (BuddySystem T) := do
  let allocator ← BuddyAllocator.new baseAddr objs count
  return ⟨allocator, []⟩

/-- Perform one call and record the blocks in use. -/
def call (σ : BuddySystem T) : BuddyCall → Except Fault (BuddySystem T)
  | .allocate requestOrder => do
    let (obj, allocator) ← σ.allocator.allocate requestOrder
    match obj with
    | some obj => return ⟨allocator, ⟨obj, requestOrder⟩ :: σ.live⟩
    | none => return ⟨allocator, σ.live⟩
  | .free block => do
    let allocator ← σ.allocator.free block.start
    return ⟨allocator, σ.live.erase block⟩

/-- Perform a sequence of calls. -/
def run (σ : BuddySystem T) : List BuddyCall → Except Fault (BuddySystem T)
  | [] => .ok σ
  | c :: calls => do
    let next ← σ.call c
    next.run calls

/-- Only blocks in use may be freed. -/
def Legal (σ : BuddySystem T) : BuddyCall → Prop
  | .allocate _ => True
  | .free block => block ∈ σ.live

instance (σ : BuddySystem T) (c : BuddyCall) : Decidable (σ.Legal c) :=
  match c with
  | .allocate _ => isTrue trivial
  | .free block => inferInstanceAs (Decidable (block ∈ σ.live))

/-- Every call of the sequence is legal in the state it is made in. -/
def LegalRun (σ : BuddySystem T) : List BuddyCall → Prop
  | [] => True
  | c :: calls => σ.Legal c ∧
    match σ.call c with
    | .ok next => next.LegalRun calls
    | .error _ => True

/-- Legality of a sequence is decided by performing it. -/
instance decidableLegalRun : ∀ (calls : List BuddyCall) (σ : BuddySystem T),
    Decidable (σ.LegalRun calls)
  | [], _ => isTrue trivial
  | c :: calls, σ =>
    have : Decidable (match σ.call c with
        | .ok next => next.LegalRun calls
        | .error _ => True) :=
      match σ.call c with
      | .ok next => decidableLegalRun calls next
      | .error _ => isTrue trivial
    inferInstanceAs (Decidable (_ ∧ _))

/-- A free merges soundly; an allocation always does. -/
def Safe (σ : BuddySystem T) : BuddyCall → Prop
  | .allocate _ => True
  | .free block => σ.allocator.MergeSafe block.start

/-- Every call of the sequence is safe in the state it is made in. -/
def SafeRun (σ : BuddySystem T) : List BuddyCall → Prop
  | [] => True
  | c :: calls => σ.Safe c ∧
    match σ.call c with
    | .ok next => next.SafeRun calls
    | .error _ => True

/-- The free blocks and the blocks in use partition the array of `count` objects. -/
structure Partition (σ : BuddySystem T) (count : ℕ) : Prop where
  /-- Free blocks and blocks in use do not meet. -/
  disjoint : (σ.allocator.freeBlocks ++ σ.live).Pairwise Block.Disjoint
  /-- Together they cover exactly the array. -/
  covers : ∀ j, (∃ b ∈ σ.allocator.freeBlocks ++ σ.live, b.Contains j) ↔ j < count
  /-- A block on a free list has the order of the list, is marked as free and aligned. -/
  tagged : ∀ i < maxOrder, ∀ x ∈ σ.allocator.freeLists i,
    Object.order (σ.allocator.objs x) = i ∧ Object.isUsed (σ.allocator.objs x) = false ∧ 2 ^ i ∣ x
  /-- The stored counts are the lengths of the lists. -/
  counts : ∀ i < maxOrder, σ.allocator.freeCounts i = (σ.allocator.freeLists i).length
  /-- No object is in two blocks in use. -/
  once : σ.live.Pairwise Block.Disjoint
  /-- The free objects and the objects in use add up. -/
  total : σ.allocator.countFreeObjs + totalSize σ.live = count

/-- The invariant of a run: well-formed free lists, tagged blocks in use, and every
object of the array in exactly one block. -/
structure Invariant (σ : BuddySystem T) (count : ℕ) : Prop where
  /-- The free lists are well formed. -/
  wellFormed : σ.allocator.WellFormed
  /-- The number of objects. -/
  objCount_eq : σ.allocator.objCount = count
  /-- A block in use starts at a multiple of its length. -/
  aligned : ∀ b ∈ σ.live, b.Aligned
  /-- A block in use lies inside the array. -/
  inRange : ∀ b ∈ σ.live, b.start + 2 ^ b.order ≤ count
  /-- The first object of a block in use stores its order. -/
  order_eq : ∀ b ∈ σ.live, Object.order (σ.allocator.objs b.start) = b.order
  /-- Every object is in exactly one block. -/
  cover_eq : ∀ j, cover σ.allocator.freeBlocks j + cover σ.live j = if j < count then 1 else 0

/-- The invariant of a run gives the partition. -/
theorem Invariant.partition {σ : BuddySystem T} {count : ℕ} (h : σ.Invariant count) :
    σ.Partition count := by
  have hle : ∀ j, cover (σ.allocator.freeBlocks ++ σ.live) j ≤ 1 := fun j => by
    rw [cover_append, h.cover_eq]
    split <;> omega
  have hpairwise := pairwise_disjoint_of_cover_le_one hle
  have hrange : ∀ b ∈ σ.allocator.freeBlocks ++ σ.live, b.start + 2 ^ b.order ≤ count := by
    intro b hb
    rcases List.mem_append.mp hb with hb | hb
    · rw [← h.objCount_eq]
      exact h.wellFormed.inRange b hb
    · exact h.inRange b hb
  refine ⟨hpairwise, fun j => ?_, fun i hi x hx => ?_, h.wellFormed.counts,
    (List.pairwise_append.mp hpairwise).2.1, ?_⟩
  · rw [← cover_pos_iff, cover_append, h.cover_eq]
    by_cases hj : j < count <;> simp [hj]
  · have hmem := BuddyAllocator.mem_freeBlocks.mpr ⟨hi, hx⟩
    exact ⟨h.wellFormed.order_eq _ hmem, h.wellFormed.isFree _ hmem, h.wellFormed.aligned _ hmem⟩
  · have hsum : totalSize (σ.allocator.freeBlocks ++ σ.live) = count := by
      rw [totalSize_eq_sum_cover hrange]
      simp only [cover_append, h.cover_eq]
      rw [Finset.sum_congr rfl (fun j hj => if_pos (Finset.mem_range.mp hj))]
      simp
    rw [h.wellFormed.countFreeObjs, ← hsum]
    simp [totalSize]

/-- The start of a block in use is in no free block. -/
theorem Invariant.cover_free_eq_zero {σ : BuddySystem T} {count : ℕ} (h : σ.Invariant count)
    {b : Block} (hb : b ∈ σ.live) {j : ℕ} (hj : b.Contains j) :
    cover σ.allocator.freeBlocks j = 0 := by
  have hpos := cover_pos_of_mem hb hj
  have hsum := h.cover_eq j
  split at hsum <;> omega

/-- `new` establishes the invariant. -/
theorem start_spec (baseAddr : ℕ) (objs : ℕ → T) (count : ℕ) :
    ∃ σ, start baseAddr objs count = .ok σ ∧ σ.Invariant count := by
  obtain ⟨s, hnew, hfilled, -, -⟩ := BuddyAllocator.new_spec baseAddr objs count
  refine ⟨⟨s, []⟩, ?_, hfilled.wellFormed, hfilled.objCount_eq, ?_, ?_, ?_, fun j => ?_⟩
  · simp only [start, hnew, bind, Except.bind, pure, Except.pure]
  · simp
  · simp
  · simp
  · rw [cover_nil, Nat.add_zero]
    exact hfilled.cover_eq j

/-- An allocation succeeds and keeps the invariant. -/
theorem Invariant.allocate {σ : BuddySystem T} {count : ℕ} (h : σ.Invariant count) (k : ℕ) :
    ∃ σ', σ.call (.allocate k) = .ok σ' ∧ σ'.Invariant count := by
  rcases BuddyAllocator.allocate_spec h.wellFormed k with ⟨hrun, -⟩ | ⟨x, s', hrun, hspec⟩
  · refine ⟨σ, ?_, h⟩
    simp only [call, hrun, bind, Except.bind, pure, Except.pure]
  · refine ⟨⟨s', ⟨x, k⟩ :: σ.live⟩, ?_, hspec.wellFormed, hspec.objCount_eq.trans h.objCount_eq,
      fun b hb => ?_, fun b hb => ?_, fun b hb => ?_, fun j => ?_⟩
    · simp only [call, hrun, bind, Except.bind, pure, Except.pure]
    · rcases List.mem_cons.mp hb with rfl | hb
      · exact hspec.aligned
      · exact h.aligned b hb
    · rcases List.mem_cons.mp hb with rfl | hb
      · rw [← h.objCount_eq]
        exact hspec.inRange
      · exact h.inRange b hb
    · rcases List.mem_cons.mp hb with rfl | hb
      · exact hspec.order_eq
      · rw [hspec.objs_eq _ (h.cover_free_eq_zero hb b.contains_start)]
        exact h.order_eq b hb
    · have hj := h.cover_eq j
      rw [hspec.cover_eq] at hj
      change cover s'.freeBlocks j + cover (⟨x, k⟩ :: σ.live) j = _
      rw [cover_cons, ← hj]
      omega

/-- An array of at most `2 ^ 14` objects only holds blocks of orders below `MAX_ORDER`. -/
theorem Invariant.order_lt {σ : BuddySystem T} {count : ℕ} (h : σ.Invariant count)
    (hcount : count ≤ 2 ^ 14) {b : Block} (hb : b ∈ σ.live) : b.order < maxOrder := by
  have hpow : 2 ^ b.order ≤ 2 ^ 14 := by
    have := h.inRange b hb
    omega
  exact Nat.lt_succ_of_le ((Nat.pow_le_pow_iff_right (by decide)).mp hpow)

/-- Freeing a block in use succeeds exactly when it is safe, and then it keeps the
invariant. -/
theorem Invariant.free {σ : BuddySystem T} {count : ℕ} (h : σ.Invariant count)
    {b : Block} (hb : b ∈ σ.live) (hk : b.order < maxOrder) :
    (σ.Safe (.free b) → ∃ σ', σ.call (.free b) = .ok σ' ∧ σ'.Invariant count) ∧
    (¬σ.Safe (.free b) → ∀ σ', σ.call (.free b) ≠ .ok σ') := by
  obtain ⟨hsafe, hclimb⟩ := BuddyAllocator.free_spec h.wellFormed hk (h.order_eq b hb)
    (h.aligned b hb) (by rw [h.objCount_eq]; exact h.inRange b hb)
    (fun j hj => h.cover_free_eq_zero hb hj)
  have hperm := List.perm_cons_erase hb
  constructor
  · intro hs
    obtain ⟨s', hrun, hspec⟩ := hsafe hs
    have hcover : ∀ j, cover σ.live j = b.indicator j + cover (σ.live.erase b) j := fun j => by
      rw [cover_perm hperm, cover_cons]
    refine ⟨⟨s', σ.live.erase b⟩, ?_, hspec.wellFormed, hspec.objCount_eq.trans h.objCount_eq,
      fun c hc => h.aligned c (List.mem_of_mem_erase hc),
      fun c hc => h.inRange c (List.mem_of_mem_erase hc), fun c hc => ?_, fun j => ?_⟩
    · simp only [call, hrun, bind, Except.bind, pure, Except.pure]
    · have hmem := List.mem_of_mem_erase hc
      have hnot : ¬b.Contains c.start := by
        intro hin
        have hsum := h.cover_eq c.start
        have hpos : 0 < cover (σ.live.erase b) c.start := cover_pos_of_mem hc c.contains_start
        rw [hcover, Block.indicator_of_contains hin] at hsum
        split at hsum <;> omega
      rw [hspec.objs_eq _ (h.cover_free_eq_zero hmem c.contains_start) hnot]
      exact h.order_eq c hmem
    · have hj := h.cover_eq j
      have hfree : cover s'.freeBlocks j = cover σ.allocator.freeBlocks j + b.indicator j :=
        hspec.cover_eq j
      rw [hcover] at hj
      change cover s'.freeBlocks j + cover (σ.live.erase b) j = _
      omega
  · intro hs σ' hcall
    obtain ⟨s', hrun, -⟩ := Except.bind_eq_ok.mp hcall
    exact hclimb hs s' hrun

/-- One legal call returns exactly when it is safe, and then it keeps the invariant. -/
theorem Invariant.call {σ : BuddySystem T} {count : ℕ} (h : σ.Invariant count)
    (horders : ∀ b ∈ σ.live, b.order < maxOrder) {c : BuddyCall} (hlegal : σ.Legal c) :
    (σ.Safe c → ∃ σ', σ.call c = .ok σ' ∧ σ'.Invariant count) ∧
    (¬σ.Safe c → ∀ σ', σ.call c ≠ .ok σ') := by
  cases c with
  | allocate k => exact ⟨fun _ => h.allocate k, fun hclimb => absurd trivial hclimb⟩
  | free b => exact h.free hlegal (horders b hlegal)

/-- From a state with the invariant, a legal run returns exactly when it is safe, and
the state it returns has the invariant. -/
theorem Invariant.run {σ : BuddySystem T} {count : ℕ} (h : σ.Invariant count)
    (hcount : count ≤ 2 ^ 14) {calls : List BuddyCall} (hlegal : σ.LegalRun calls) :
    ((∃ σ', σ.run calls = .ok σ') ↔ σ.SafeRun calls) ∧
      ∀ σ', σ.run calls = .ok σ' → σ'.Invariant count := by
  induction calls generalizing σ with
  | nil =>
    refine ⟨⟨fun _ => trivial, fun _ => ⟨σ, rfl⟩⟩, fun σ' hrun => ?_⟩
    cases hrun
    exact h
  | cons c calls ih =>
    obtain ⟨hsafe, hclimb⟩ := h.call (fun b => h.order_lt hcount) hlegal.1
    by_cases hs : σ.Safe c
    · obtain ⟨next, hcall, hnext⟩ := hsafe hs
      have hrun : σ.run (c :: calls) = next.run calls := by
        simp only [BuddySystem.run, hcall, bind, Except.bind]
      have hsafeRun : σ.SafeRun (c :: calls) ↔ next.SafeRun calls := by
        simp only [SafeRun, hs, hcall, true_and]
      have hlegalNext : next.LegalRun calls := by
        have hrest := hlegal.2
        rwa [hcall] at hrest
      rw [hrun, hsafeRun]
      exact ih hnext hlegalNext
    · have hfail : ∀ σ', σ.run (c :: calls) ≠ .ok σ' := by
        intro σ' hrun
        obtain ⟨next, hcall, -⟩ := Except.bind_eq_ok.mp hrun
        exact hclimb hs next hcall
      exact ⟨⟨fun ⟨σ', hrun⟩ => absurd hrun (hfail σ'), fun hr => absurd hr.1 hs⟩,
        fun σ' hrun => absurd hrun (hfail σ')⟩

/-- The partition over whole runs: for at most `2 ^ 14` objects with any contents, a
legal run from `new` goes through without a fault exactly when each of its frees
climbs soundly, and every state it reaches is a partition of the array. -/
theorem run_partition (baseAddr : ℕ) (objs : ℕ → T) {count : ℕ} (hcount : count ≤ 2 ^ 14) :
    ∃ σ₀, start baseAddr objs count = .ok σ₀ ∧ ∀ calls, σ₀.LegalRun calls →
      ((∃ σ, σ₀.run calls = .ok σ) ↔ σ₀.SafeRun calls) ∧
      ∀ σ, σ₀.run calls = .ok σ → σ.Partition count := by
  obtain ⟨σ₀, hstart, hinv⟩ := start_spec baseAddr objs count
  refine ⟨σ₀, hstart, fun calls hlegal => ?_⟩
  obtain ⟨hiff, hrun⟩ := hinv.run hcount hlegal
  exact ⟨hiff, fun σ hσ => (hrun σ hσ).partition⟩

/-- Objects in memory that was never initialised, here seen as used blocks of order
seven. -/
def sampleObjs : ℕ → Frame := fun i => ⟨i, 7, .used⟩

/-- The runs on the thirty-two objects of the unit tests. -/
theorem run_partition_thirty_two :
    ∃ σ₀, start 0 sampleObjs 32 = .ok σ₀ ∧ ∀ calls, σ₀.LegalRun calls →
      ((∃ σ, σ₀.run calls = .ok σ) ↔ σ₀.SafeRun calls) ∧
      ∀ σ, σ₀.run calls = .ok σ → σ.Partition 32 :=
  run_partition 0 sampleObjs (by decide)

/-- Allocate a pair and two single objects of four, free the first single object, then
the pair: the buddy of the pair starts with a free object, so `free` takes that object
for a free pair. -/
def overlappingFree : List BuddyCall :=
  [.allocate 1, .allocate 0, .allocate 0, .free ⟨2, 0⟩, .free ⟨0, 1⟩]

/-- The last free of this run reaches into a list that does not hold the buddy. -/
theorem not_run_partition :
    ¬∀ (objs : ℕ → Frame) (count : ℕ), 1 ≤ count → count ≤ 2 ^ 14 →
      ∃ σ₀, start 0 objs count = .ok σ₀ ∧ ∀ calls, σ₀.LegalRun calls →
        ∃ σ, σ₀.run calls = .ok σ ∧ σ.Partition count := by
  intro h
  obtain ⟨σ₀, hstart, hruns⟩ := h sampleObjs 4 (by decide) (by decide)
  have hcheck : (match start 0 sampleObjs 4 with
      | .ok σ => decide (σ.LegalRun overlappingFree) && (σ.run overlappingFree).toBool.not
      | .error _ => false) = true := by decide +kernel
  simp only [hstart, Bool.and_eq_true, decide_eq_true_eq] at hcheck
  obtain ⟨σ, hrun, -⟩ := hruns overlappingFree hcheck.1
  simp [hrun, Except.toBool] at hcheck

end BuddySystem

end Axel
