import Axel.Buddy.Contracts

/-!
# Nested allocations

When every free releases the block that was allocated last, the climb of `free` retraces
the splits of the matching `allocate`: the halves that the split pushed are free again,
and the buddy of the block that was split is in use. The free lists come back up to their
order, since `allocate` takes blocks from the front and `free` returns them to the back.
-/

namespace Dyadic

/-- Families whose lists agree up to their order have the same blocks. -/
theorem blocksOf_perm {n : ℕ} {f g : ℕ → List ℕ} (h : ∀ i < n, (f i).Perm (g i)) :
    (blocksOf n f).Perm (blocksOf n g) := by
  induction n with
  | zero => exact List.Perm.refl _
  | succ n ih =>
    rw [blocksOf_succ, blocksOf_succ]
    exact (ih fun i hi => h i (by omega)).append ((h n (by omega)).map _)

end Dyadic

namespace Axel

open Dyadic

variable {T : Type} [Object T]

namespace BuddyAllocator

/-- The free lists hold the same blocks, and the stored counts agree. -/
def SameFree (s s' : BuddyAllocator T) : Prop :=
  ∀ i < maxOrder, (s.freeLists i).Perm (s'.freeLists i) ∧ s.freeCounts i = s'.freeCounts i

/-- The buddy of a free block is not managed, or it starts with a used object. -/
def Guarded (s : BuddyAllocator T) : Prop :=
  ∀ b ∈ s.freeBlocks, s.objCount ≤ Dyadic.buddy b.start b.order ∨
    Object.isUsed (s.objs (Dyadic.buddy b.start b.order)) = true

/-- The second state agrees with the first one, except for the order of the free lists and
the objects inside of the free blocks. -/
structure Resumes (s s' : BuddyAllocator T) : Prop where
  /-- The free lists of the second state are well formed. -/
  wellFormed : s'.WellFormed
  /-- The free lists hold the same blocks. -/
  lists : ∀ i < maxOrder, (s.freeLists i).Perm (s'.freeLists i)
  /-- Objects outside the free blocks agree. -/
  objs_eq : ∀ y, cover s.freeBlocks y = 0 → s'.objs y = s.objs y
  /-- The number of objects agrees. -/
  objCount_eq : s'.objCount = s.objCount

theorem Resumes.refl {s : BuddyAllocator T} (h : s.WellFormed) : Resumes s s :=
  ⟨h, fun _ _ => List.Perm.refl _, fun _ _ => rfl, rfl⟩

/-- States that resume each other have the same free objects. -/
theorem Resumes.cover_eq {s s' : BuddyAllocator T} (h : Resumes s s') (j : ℕ) :
    cover s'.freeBlocks j = cover s.freeBlocks j :=
  (cover_perm (blocksOf_perm h.lists) j).symm

theorem Resumes.trans {s₁ s₂ s₃ : BuddyAllocator T} (h₁ : Resumes s₁ s₂) (h₂ : Resumes s₂ s₃) :
    Resumes s₁ s₃ := by
  refine ⟨h₂.wellFormed, fun i hi => (h₁.lists i hi).trans (h₂.lists i hi), fun y hy => ?_,
    h₂.objCount_eq.trans h₁.objCount_eq⟩
  rw [h₂.objs_eq y (by rw [h₁.cover_eq, hy]), h₁.objs_eq y hy]

/-- The stored counts follow the lists. -/
theorem Resumes.sameFree {s s' : BuddyAllocator T} (h : Resumes s s') (hs : s.WellFormed) :
    s'.SameFree s := by
  intro i hi
  have hperm := h.lists i hi
  refine ⟨hperm.symm, ?_⟩
  rw [h.wellFormed.counts i hi, hs.counts i hi, hperm.length_eq]

/-- The used object that guards a free block lies in no free block: a smaller free block
around it would start with it, and a larger one would meet the guarded block. -/
theorem WellFormed.cover_guard {s : BuddyAllocator T} (h : s.WellFormed) {b : Block}
    (hb : b ∈ s.freeBlocks)
    (hused : Object.isUsed (s.objs (Dyadic.buddy b.start b.order)) = true) :
    cover s.freeBlocks (Dyadic.buddy b.start b.order) = 0 := by
  by_contra hne
  obtain ⟨c, hc, hcontains⟩ := cover_pos_iff.mp (Nat.pos_of_ne_zero hne)
  have hbuddy : 2 ^ b.order ∣ Dyadic.buddy b.start b.order := dvd_buddy (h.aligned b hb)
  have hfloor : floor (Dyadic.buddy b.start b.order) c.order = c.start :=
    floor_eq_of_contains (h.aligned c hc) hcontains
  by_cases hle : c.order ≤ b.order
  · have hstart : c.start = Dyadic.buddy b.start b.order := by
      rw [← hfloor, floor_eq_self (Nat.dvd_trans (Nat.pow_dvd_pow 2 hle) hbuddy)]
    have hfree := h.isFree c hc
    rw [hstart, hused] at hfree
    cases hfree
  · have hin : (Block.mk (floor (Dyadic.buddy b.start b.order) (b.order + 1))
        (b.order + 1)).Contains b.start := by
      rw [floor_buddy (h.aligned b hb)]
      exact contains_floor b.start (b.order + 1)
    have hstart : c.Contains b.start := by
      have hlarger := contains_floor_of_le (show b.order + 1 ≤ c.order by omega) hin
      rwa [hfloor] at hlarger
    have hother : c ∈ s.freeBlocks.erase b := by
      refine (List.mem_erase_of_ne ?_).mpr hc
      rintro rfl
      exact hle le_rfl
    have hzero := cover_eq_zero_of_perm_cons (List.perm_cons_erase hb) h.disjoint b.contains_start
    have hpos := cover_pos_of_mem hother hstart
    omega

/-- Guards survive in a state that resumes a guarded one. -/
theorem Resumes.guarded {s s' : BuddyAllocator T} (h : Resumes s s') (hs : s.WellFormed)
    (hguarded : s.Guarded) : s'.Guarded := by
  intro b hb
  have hmem : b ∈ s.freeBlocks := (blocksOf_perm h.lists).mem_iff.mpr hb
  rw [h.objCount_eq]
  rcases hguarded b hmem with hout | hused
  · exact Or.inl hout
  · rw [h.objs_eq _ (hs.cover_guard hmem hused)]
    exact Or.inr hused

/-- `allocate` keeps the guards: the returned object guards each half that is pushed. -/
theorem Guarded.allocate {s s' : BuddyAllocator T} {k x : ℕ} (hguarded : s.Guarded)
    (hs : s.WellFormed) (h : Allocated s k x s') : s'.Guarded := by
  obtain ⟨m, rest, hkm, hm, hempty, hlist, hlists⟩ := h.lists
  have hfront : ⟨x, m⟩ ∈ s.freeBlocks :=
    mem_freeBlocks.mpr ⟨hm, by rw [hlist]; exact List.mem_cons_self⟩
  have hkeep : ∀ b ∈ s.freeBlocks, s'.objCount ≤ Dyadic.buddy b.start b.order ∨
      Object.isUsed (s'.objs (Dyadic.buddy b.start b.order)) = true := by
    intro b hb
    rw [h.objCount_eq]
    rcases hguarded b hb with hout | hused
    · exact Or.inl hout
    · rw [h.objs_eq _ (hs.cover_guard hb hused)]
      exact Or.inr hused
  intro b hb
  obtain ⟨hb, hmem⟩ := mem_blocksOf.mp hb
  rw [hlists] at hmem
  by_cases hsplit : k ≤ b.order ∧ b.order < m
  · rw [if_pos hsplit, hempty _ hsplit.1 hsplit.2, List.nil_append, List.mem_singleton] at hmem
    have haligned : 2 ^ m ∣ x := hs.aligned _ hfront
    have hdvd : 2 ^ (b.order + 1) ∣ x := Nat.dvd_trans (Nat.pow_dvd_pow 2 hsplit.2) haligned
    have hbuddy : Dyadic.buddy b.start b.order = x := by
      rw [hmem, ← buddy_eq_add hdvd, buddy_buddy]
    rw [hbuddy]
    exact Or.inr h.isUsed
  · rw [if_neg hsplit] at hmem
    apply hkeep b
    by_cases htop : b.order = m
    · rw [if_pos htop] at hmem
      refine mem_blocksOf.mpr ⟨hb, ?_⟩
      rw [htop, hlist]
      exact List.mem_cons_of_mem x hmem
    · rw [if_neg htop] at hmem
      exact mem_blocksOf.mpr ⟨hb, hmem⟩

/-- In a state that resumes the one after an allocation, the first objects of the halves that
were split off are each alone in their list. -/
theorem Resumes.halves {s after cur : BuddyAllocator T} {k x m i : ℕ} {rest : List ℕ}
    (hcur : Resumes after cur) (haligned : 2 ^ m ∣ x) (hm : m < maxOrder)
    (hempty : ∀ i, k ≤ i → i < m → s.freeLists i = [])
    (hlists : ∀ i, after.freeLists i = if k ≤ i ∧ i < m then s.freeLists i ++ [x + 2 ^ i]
      else if i = m then rest else s.freeLists i) (hki : k ≤ i) (him : i < m) :
    cur.freeLists i = [buddyHead x i] := by
  have hperm := hcur.lists i (by omega)
  rw [hlists, if_pos ⟨hki, him⟩, hempty i hki him, List.nil_append] at hperm
  have hdvd : 2 ^ (i + 1) ∣ x := Nat.dvd_trans (Nat.pow_dvd_pow 2 (by omega)) haligned
  have hdvdi : 2 ^ i ∣ x := Nat.dvd_trans (Nat.pow_dvd_pow 2 (by omega)) haligned
  rw [buddyHead, floor_eq_self hdvdi, buddy_eq_add hdvd]
  exact (List.singleton_perm.mp hperm).symm

/-- In a state that resumes the one after an allocation, the guard above the free block that
served the request still stands. -/
theorem Resumes.guard {s after cur : BuddyAllocator T} {k x m : ℕ} (hs : s.WellFormed)
    (hguarded : s.Guarded) (h : Allocated s k x after) (hcur : Resumes after cur)
    (hfront : ⟨x, m⟩ ∈ s.freeBlocks) :
    cur.objCount ≤ buddyHead x m ∨ Object.isUsed (cur.objs (buddyHead x m)) = true := by
  rw [buddyHead, floor_eq_self (hs.aligned _ hfront), hcur.objCount_eq, h.objCount_eq]
  rcases hguarded _ hfront with hout | hused
  · exact Or.inl hout
  · have hguard := hs.cover_guard hfront hused
    simp only at hguard hused
    have hafter : cover after.freeBlocks (Dyadic.buddy x m) = 0 := by
      rw [h.cover_eq] at hguard
      omega
    rw [hcur.objs_eq _ hafter, h.objs_eq _ hguard]
    exact Or.inr hused

/-- Freeing the block that `allocate` returned, in a state that resumes the one after the
allocation, leads back to a state that resumes the one before it. -/
theorem Resumes.free {s after cur : BuddyAllocator T} {k x : ℕ} (hs : s.WellFormed)
    (hguarded : s.Guarded) (h : Allocated s k x after) (hcur : Resumes after cur) :
    ∃ cur', cur.free x = .ok cur' ∧ Resumes s cur' := by
  obtain ⟨m, rest, hkm, hm, hempty, hlist, hlists⟩ := h.lists
  have hfront : ⟨x, m⟩ ∈ s.freeBlocks :=
    mem_freeBlocks.mpr ⟨hm, by rw [hlist]; exact List.mem_cons_self⟩
  have halignedm : 2 ^ m ∣ x := hs.aligned _ hfront
  have hzero : ∀ j, (Block.mk x k).Contains j → cover cur.freeBlocks j = 0 := by
    intro j hj
    have hle := hs.disjoint j
    rw [h.cover_eq, Block.indicator_of_contains hj] at hle
    rw [hcur.cover_eq]
    omega
  have hafter : ∀ y, cover s.freeBlocks y = 0 → cover after.freeBlocks y = 0 := by
    intro y hy
    rw [h.cover_eq] at hy
    omega
  have hstartAfter : cover after.freeBlocks x = 0 := by
    rw [← hcur.cover_eq]
    exact hzero x (Block.contains_start ⟨x, k⟩)
  have horder : Object.order (cur.objs x) = k := by
    rw [hcur.objs_eq x hstartAfter, h.order_eq]
  have hsingle : ∀ i, k ≤ i → i < m → cur.freeLists i = [buddyHead x i] := fun i =>
    hcur.halves halignedm hm hempty hlists
  have hstop := hcur.guard hs hguarded h hfront
  obtain ⟨cur', hrun, hfreed, hlists'⟩ := free_climb hcur.wellFormed horder h.aligned
    (by rw [hcur.objCount_eq, h.objCount_eq]; exact h.inRange) hzero hkm hm
    (fun i hki him => by rw [hsingle i hki him]; exact List.mem_singleton_self _) hstop
  refine ⟨cur', hrun, hfreed.wellFormed, fun i hi => ?_, fun y hy => ?_, ?_⟩
  · rw [hlists' i]
    by_cases hsplit : k ≤ i ∧ i < m
    · rw [if_pos hsplit, hsingle i hsplit.1 hsplit.2, hempty i hsplit.1 hsplit.2,
        List.erase_cons_head]
    · have hperm := hcur.lists i hi
      rw [hlists i, if_neg hsplit] at hperm
      rw [if_neg hsplit]
      by_cases htop : i = m
      · subst htop
        rw [if_pos rfl] at hperm ⊢
        rw [hlist, floor_eq_self halignedm]
        exact (hperm.cons x).trans (List.perm_append_singleton x _).symm
      · rw [if_neg htop] at hperm ⊢
        exact hperm
  · have hcover := hafter y hy
    have hnot : ¬(Block.mk x k).Contains y := by
      intro hin
      rw [h.cover_eq, Block.indicator_of_contains hin] at hy
      omega
    rw [hfreed.objs_eq y (by rw [hcur.cover_eq, hcover]) hnot, hcur.objs_eq y hcover,
      h.objs_eq y hy]
  · rw [hfreed.objCount_eq, hcur.objCount_eq, h.objCount_eq]

/-- A new allocator over `2 ^ n` objects has a single free block. -/
theorem new_single (baseAddr : ℕ) (objs : ℕ → T) {n : ℕ} (hn : n < maxOrder) :
    ∃ s, new baseAddr objs (2 ^ n) = .ok s ∧ s.WellFormed ∧ s.Guarded ∧
      ∀ i < maxOrder, s.freeLists i = if i = n then [0] else [] := by
  obtain ⟨s, hnew, hfilled, -, -⟩ := new_spec baseAddr objs (2 ^ n)
  have hwf := hfilled.wellFormed
  have hlength : ∀ i < maxOrder, (s.freeLists i).length = if i = n then 1 else 0 := by
    intro i hi
    obtain ⟨⟨index, s'⟩, hfill, hs⟩ := Except.bind_eq_ok.mp hnew
    obtain rfl := Except.ok.inj hs
    have hlength := (fillOrders_length hfill (Nat.zero_le _)).2 i hi
    rw [Nat.sub_zero, List.length_nil, Nat.zero_add] at hlength
    rw [hlength]
    rcases lt_trichotomy i n with hlt | rfl | hlt
    · have hsub : n - i ≠ 0 := by omega
      rw [if_neg (show i + 1 ≠ maxOrder by omega), if_neg hlt.ne, Nat.pow_div hlt.le (by decide)]
      exact Nat.mod_eq_zero_of_dvd (dvd_pow_self 2 hsub)
    · rw [Nat.div_self (Nat.two_pow_pos i), if_pos rfl]
      split <;> rfl
    · rw [Nat.div_eq_of_lt (Nat.pow_lt_pow_right (by decide) hlt), if_neg hlt.ne']
      split <;> rfl
  have hlists : ∀ i < maxOrder, s.freeLists i = if i = n then [0] else [] := by
    intro i hi
    have hi' := hlength i hi
    by_cases hin : i = n
    · subst hin
      rw [if_pos rfl] at hi' ⊢
      obtain ⟨x, hx⟩ := List.length_eq_one_iff.mp hi'
      have hrange :=
        hwf.inRange _ (mem_freeBlocks.mpr ⟨hi, by rw [hx]; exact List.mem_singleton_self x⟩)
      rw [hfilled.objCount_eq] at hrange
      simp only at hrange
      obtain rfl : x = 0 := by omega
      exact hx
    · rw [if_neg hin] at hi' ⊢
      exact List.length_eq_zero_iff.mp hi'
  refine ⟨s, hnew, hwf, fun b hb => ?_, hlists⟩
  obtain ⟨hb, hmem⟩ := mem_blocksOf.mp hb
  rw [hlists _ hb] at hmem
  by_cases hbn : b.order = n
  · rw [if_pos hbn, List.mem_singleton] at hmem
    left
    rw [hfilled.objCount_eq, hmem, hbn, Dyadic.buddy, Nat.zero_xor]
  · rw [if_neg hbn] at hmem
    exact absurd hmem List.not_mem_nil

end BuddyAllocator

/-- The allocator together with the blocks in use, the last one first, and for each of them
the state in which `allocate` was called for it. -/
structure NestedSystem (T : Type) where
  /-- The state of the allocator. -/
  allocator : BuddyAllocator T
  /-- The blocks in use, with the states before their allocations. -/
  stack : List (Block × BuddyAllocator T)

/-- One call in a nested run. -/
inductive NestedCall where
  /-- `allocate` with a request order. -/
  | allocate (requestOrder : ℕ)
  /-- `free` of the block in use that was allocated last, if there is one. -/
  | free

namespace NestedSystem

/-- Perform one call and record the blocks in use. -/
def call (σ : NestedSystem T) : NestedCall → Except Fault (NestedSystem T)
  | .allocate requestOrder => do
    let (obj, allocator) ← σ.allocator.allocate requestOrder
    match obj with
    | some obj => return ⟨allocator, (⟨obj, requestOrder⟩, σ.allocator) :: σ.stack⟩
    | none => return ⟨allocator, σ.stack⟩
  | .free =>
    match σ.stack with
    | [] => .ok σ
    | (block, _) :: stack => do
      let allocator ← σ.allocator.free block.start
      return ⟨allocator, stack⟩

/-- Perform a sequence of calls. -/
def run (σ : NestedSystem T) : List NestedCall → Except Fault (NestedSystem T)
  | [] => .ok σ
  | c :: calls => do
    let next ← σ.call c
    next.run calls

/-- The state resumes the one after the allocation of the block on top of the stack, and the
state before that allocation resumes in the same way the rest of the stack. Without blocks
in use, the state resumes the first one. -/
inductive Stacked (first : BuddyAllocator T) :
    BuddyAllocator T → List (Block × BuddyAllocator T) → Prop where
  | nil {cur : BuddyAllocator T} (h : BuddyAllocator.Resumes first cur) : Stacked first cur []
  | cons {saved after cur : BuddyAllocator T} {b : Block}
      {stack : List (Block × BuddyAllocator T)} (hsaved : Stacked first saved stack)
      (hafter : BuddyAllocator.Allocated saved b.order b.start after)
      (h : BuddyAllocator.Resumes after cur) : Stacked first cur ((b, saved) :: stack)

/-- A stack stays in place when the state on top of it is resumed. -/
theorem Stacked.resume {first cur cur' : BuddyAllocator T} {stack : List (Block × BuddyAllocator T)}
    (h : Stacked first cur stack) (hcur : BuddyAllocator.Resumes cur cur') :
    Stacked first cur' stack := by
  cases h with
  | nil h => exact .nil (h.trans hcur)
  | cons hsaved hafter h => exact .cons hsaved hafter (h.trans hcur)

/-- Every state on a stack above a guarded one is well formed and guarded. -/
theorem Stacked.guarded {first cur : BuddyAllocator T} {stack : List (Block × BuddyAllocator T)}
    (h : Stacked first cur stack) (hfirst : first.WellFormed) (hguarded : first.Guarded) :
    cur.WellFormed ∧ cur.Guarded := by
  induction h with
  | nil h => exact ⟨h.wellFormed, h.guarded hfirst hguarded⟩
  | cons _ hafter h ih =>
    obtain ⟨hwf, hsaved⟩ := ih
    exact ⟨h.wellFormed, h.guarded hafter.wellFormed (hsaved.allocate hwf hafter)⟩

/-- Freeing the block on top of the stack leads back to the state before its allocation. -/
theorem Stacked.free {first cur saved : BuddyAllocator T} {b : Block}
    {stack : List (Block × BuddyAllocator T)} (h : Stacked first cur ((b, saved) :: stack))
    (hfirst : first.WellFormed) (hguarded : first.Guarded) :
    ∃ cur', cur.free b.start = .ok cur' ∧ BuddyAllocator.Resumes saved cur' ∧
      cur'.SameFree saved ∧ Stacked first cur' stack := by
  cases h with
  | cons hsaved hafter h =>
    obtain ⟨hwf, hg⟩ := hsaved.guarded hfirst hguarded
    obtain ⟨cur', hrun, hresumes⟩ := BuddyAllocator.Resumes.free hwf hg hafter h
    exact ⟨cur', hrun, hresumes, hresumes.sameFree hwf, hsaved.resume hresumes⟩

/-- One nested call returns and keeps the stack in place. -/
theorem Stacked.call {first : BuddyAllocator T} {σ : NestedSystem T}
    (h : Stacked first σ.allocator σ.stack) (hfirst : first.WellFormed)
    (hguarded : first.Guarded) (c : NestedCall) :
    ∃ σ', σ.call c = .ok σ' ∧ Stacked first σ'.allocator σ'.stack := by
  obtain ⟨hwf, -⟩ := h.guarded hfirst hguarded
  cases c with
  | allocate k =>
    rcases BuddyAllocator.allocate_spec hwf k with ⟨hrun, -⟩ | ⟨x, s', hrun, hspec⟩
    · refine ⟨σ, ?_, h⟩
      simp only [NestedSystem.call, hrun, bind, Except.bind, pure, Except.pure]
    · refine ⟨⟨s', (⟨x, k⟩, σ.allocator) :: σ.stack⟩, ?_, ?_⟩
      · simp only [NestedSystem.call, hrun, bind, Except.bind, pure, Except.pure]
      · exact .cons (b := ⟨x, k⟩) h hspec (.refl hspec.wellFormed)
  | free =>
    obtain ⟨cur, stack⟩ := σ
    cases stack with
    | nil => exact ⟨⟨cur, []⟩, rfl, h⟩
    | cons top stack =>
      obtain ⟨b, saved⟩ := top
      obtain ⟨cur', hrun, -, -, hstack⟩ := h.free hfirst hguarded
      refine ⟨⟨cur', stack⟩, ?_, hstack⟩
      simp only [NestedSystem.call, hrun, bind, Except.bind, pure, Except.pure]

/-- A nested run returns and keeps the stack in place. -/
theorem Stacked.run {first : BuddyAllocator T} {σ : NestedSystem T}
    (h : Stacked first σ.allocator σ.stack) (hfirst : first.WellFormed)
    (hguarded : first.Guarded) (calls : List NestedCall) :
    ∃ σ', σ.run calls = .ok σ' ∧ Stacked first σ'.allocator σ'.stack := by
  induction calls generalizing σ with
  | nil => exact ⟨σ, rfl, h⟩
  | cons c calls ih =>
    obtain ⟨next, hcall, hnext⟩ := h.call hfirst hguarded c
    obtain ⟨σ', hrun, hend⟩ := ih hnext
    refine ⟨σ', ?_, hend⟩
    simp only [NestedSystem.run, hcall, bind, Except.bind]
    exact hrun

/-- Nested allocations are undone exactly: over `2 ^ n` objects with any contents, every
nested run goes through, freeing the block that was allocated last succeeds and leads back
to the free blocks and counts before its allocation, and when no block is in use the array
is one free block. -/
theorem run_undo (baseAddr : ℕ) (objs : ℕ → T) {n : ℕ} (hn : n ≤ 14) :
    ∃ s₀, BuddyAllocator.new baseAddr objs (2 ^ n) = .ok s₀ ∧ ∀ calls,
      ∃ σ, (NestedSystem.mk s₀ []).run calls = .ok σ ∧
        (∀ b saved stack, σ.stack = (b, saved) :: stack →
          ∃ s, σ.allocator.free b.start = .ok s ∧ s.SameFree saved) ∧
        (σ.stack = [] → σ.allocator.freeBlocks = [⟨0, n⟩]) := by
  obtain ⟨s₀, hnew, hwf, hguarded, hlists⟩ :=
    BuddyAllocator.new_single baseAddr objs (Nat.lt_succ_of_le hn : n < maxOrder)
  refine ⟨s₀, hnew, fun calls => ?_⟩
  have hbase : Stacked s₀ (NestedSystem.mk s₀ []).allocator (NestedSystem.mk s₀ []).stack :=
    .nil (.refl hwf)
  obtain ⟨σ, hrun, hstack⟩ := hbase.run hwf hguarded calls
  refine ⟨σ, hrun, fun b saved stack hσ => ?_, fun hσ => ?_⟩
  · rw [hσ] at hstack
    obtain ⟨s, hfree, -, hsame, -⟩ := hstack.free hwf hguarded
    exact ⟨s, hfree, hsame⟩
  · rw [hσ] at hstack
    cases hstack with
    | nil h =>
      have hone : (blocksOf maxOrder fun i => if i = n then [0] else []).Perm
          (⟨0, n⟩ :: blocksOf maxOrder fun _ => []) :=
        blocksOf_perm_cons (Nat.lt_succ_of_le hn) (by simp) (fun k hk => if_neg hk)
      have hnone : (blocksOf maxOrder fun _ => []) = [] := by simp [blocksOf]
      rw [hnone, ← blocksOf_congr hlists] at hone
      exact List.perm_singleton.mp ((blocksOf_perm h.lists).symm.trans hone)

/-- Nested runs on the thirty-two objects of the unit tests. -/
theorem run_undo_thirty_two :
    ∃ s₀, BuddyAllocator.new 0 BuddySystem.sampleObjs (2 ^ 5) = .ok s₀ ∧ ∀ calls,
      ∃ σ, (NestedSystem.mk s₀ []).run calls = .ok σ ∧
        (∀ b saved stack, σ.stack = (b, saved) :: stack →
          ∃ s, σ.allocator.free b.start = .ok s ∧ s.SameFree saved) ∧
        (σ.stack = [] → σ.allocator.freeBlocks = [⟨0, 5⟩]) :=
  run_undo 0 BuddySystem.sampleObjs (by decide)

end NestedSystem

end Axel
