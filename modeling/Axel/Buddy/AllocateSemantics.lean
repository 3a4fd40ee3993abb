import Axel.Buddy.FreeLists

/-!
# Allocation

`allocate` takes the front block of the smallest order that can serve the request and
pushes back the upper halves that the request does not need. On well-formed free
lists it does nothing else: this file determines the result of the two loops.
-/

namespace Axel.BuddyAllocator

open Dyadic

variable {T : Type} [Object T]

/-- The objects of two states differ in their tags only: every part of an object that
the tag operations keep is the same. -/
def TagsOnly (s s' : BuddyAllocator T) : Prop :=
  ∀ g : T → ℕ, (∀ t, g (Object.markUsed t) = g t) → (∀ t, g (Object.markFree t) = g t) →
    (∀ t k, g (Object.setOrder t k) = g t) → ∀ y, g (s'.objs y) = g (s.objs y)

theorem TagsOnly.refl (s : BuddyAllocator T) : TagsOnly s s := fun _ _ _ _ _ => rfl

theorem TagsOnly.trans {s₁ s₂ s₃ : BuddyAllocator T} (h₁ : TagsOnly s₁ s₂) (h₂ : TagsOnly s₂ s₃) :
    TagsOnly s₁ s₃ := fun g hu hf ho y => (h₂ g hu hf ho y).trans (h₁ g hu hf ho y)

/-- Changing one object by an operation that every such part ignores. -/
theorem TagsOnly.modifyObj (s : BuddyAllocator T) (x : ℕ) (f : T → T)
    (hf : ∀ g : T → ℕ, (∀ t, g (Object.markUsed t) = g t) → (∀ t, g (Object.markFree t) = g t) →
      (∀ t k, g (Object.setOrder t k) = g t) → ∀ t, g (f t) = g t) :
    TagsOnly s (s.modifyObj x f) := by
  intro g hu hm ho y
  by_cases hy : y = x
  · subst y
    rw [objs_modifyObj_self, hf g hu hm ho]
  · rw [objs_modifyObj_of_ne s f hy]

omit [Object T] in
/-- On a nonempty array, an object is managed exactly when its index is in range. -/
theorem isManagedObj_eq {s : BuddyAllocator T} (h : 0 < s.objCount) (x : ℕ) :
    s.isManagedObj x = .ok (decide (x < s.objCount)) := by
  have hiff : x ≤ s.objCount - 1 ↔ x < s.objCount := by omega
  simp only [isManagedObj, checkedSub_ok (show 1 ≤ s.objCount from h), bind, Except.bind, pure,
    Except.pure, hiff]

omit [Object T] in
/-- The buddy of a managed object is the object with one bit of the index flipped, if
that is managed. -/
theorem buddy_eq {s : BuddyAllocator T} {x : ℕ} (hx : x < s.objCount) (i : ℕ) :
    s.buddy x i = .ok (if i < maxOrder ∧ Dyadic.buddy x i < s.objCount then
      some (Dyadic.buddy x i) else none) := by
  have hpos : 0 < s.objCount := by omega
  have hshift : x ^^^ (1 <<< i) = Dyadic.buddy x i := by rw [Nat.one_shiftLeft]; rfl
  simp only [buddy, isManagedObj_eq hpos, hx, decide_true, debugAssert, if_true, bind, Except.bind,
    pure, Except.pure, hshift]
  by_cases hi : maxOrder ≤ i
  · have : ¬i < maxOrder := by omega
    simp [hi, this]
  · have : i < maxOrder := by omega
    have hnot : ¬s.objCount < x := by omega
    by_cases hb : Dyadic.buddy x i < s.objCount <;> simp [hi, this, hnot, hb]

/-- The state after a block was marked as free and appended to the list of its order. -/
def released (s : BuddyAllocator T) (i x : ℕ) : BuddyAllocator T :=
  (s.modifyObj x fun o => Object.markFree (Object.setOrder o i)).pushed i x

/-- The free lists after a block was released. -/
theorem freeLists_released (s : BuddyAllocator T) (i x k : ℕ) :
    (s.released i x).freeLists k = if k = i then s.freeLists k ++ [x] else s.freeLists k := by
  simp only [released, pushed, freeLists_modifyObj]
  split
  case isTrue hk => rw [hk, Function.update_self]
  case isFalse hk => rw [Function.update_of_ne hk]

/-- Releasing an aligned block of the array that meets no free block makes exactly its objects
free, and changes tags of its first object only. -/
theorem WellFormed.release {s : BuddyAllocator T} (h : s.WellFormed) {i x : ℕ} (hi : i < maxOrder)
    (haligned : 2 ^ i ∣ x) (hrange : x + 2 ^ i ≤ s.objCount)
    (hcover : ∀ j, (Block.mk x i).Contains j → cover s.freeBlocks j = 0) :
    (s.modifyObj x fun o => Object.markFree (Object.setOrder o i)).pushBack i x =
        .ok (s.released i x) ∧
      (s.released i x).WellFormed ∧
      (∀ j, cover (s.released i x).freeBlocks j =
        (Block.mk x i).indicator j + cover s.freeBlocks j) ∧
      (∀ y, y ≠ x → (s.released i x).objs y = s.objs y) ∧ TagsOnly s (s.released i x) := by
  let tag : T → T := fun o => Object.markFree (Object.setOrder o i)
  have hwf : (s.modifyObj x tag).WellFormed :=
    h.modifyObj tag (hcover x (Block.contains_start ⟨x, i⟩))
  obtain ⟨hpush, hpushed⟩ :=
    hwf.pushBack hi haligned hrange (by simp [tag]) (by simp [tag]) hcover
  refine ⟨hpush, hpushed, fun j => ?_, fun y hy => objs_modifyObj_of_ne s tag hy, ?_⟩
  · rw [released, cover_perm (freeBlocks_pushed _ hi), cover_cons, freeBlocks_modifyObj]
  · refine TagsOnly.modifyObj s x tag ?_
    intro g _ hm ho t
    rw [hm, ho]

/-- The loop that pushes the upper halves of orders `i` up to `m`, started on a block
of order `m` of which nothing above the first `2 ^ i` objects is free. -/
theorem pushExtra_spec {s : BuddyAllocator T} (h : s.WellFormed) {x m n i : ℕ} (hm : m < maxOrder)
    (hin : i + n = m) (haligned : 2 ^ m ∣ x) (hrange : x + 2 ^ m ≤ s.objCount)
    (hcover : ∀ j, x + 2 ^ i ≤ j → j < x + 2 ^ m → cover s.freeBlocks j = 0) :
    ∃ s', pushExtra x (List.range' i n) s = .ok s' ∧ s'.WellFormed ∧
      (∀ j, cover s'.freeBlocks j + (Block.mk x i).indicator j =
        cover s.freeBlocks j + (Block.mk x m).indicator j) ∧
      (∀ y, (∀ k, i ≤ k → k < m → y ≠ x + 2 ^ k) → s'.objs y = s.objs y) ∧
      (∀ k, s'.freeLists k =
        if i ≤ k ∧ k < m then s.freeLists k ++ [x + 2 ^ k] else s.freeLists k) ∧
      s'.objCount = s.objCount ∧ s'.baseAddr = s.baseAddr ∧ TagsOnly s s' := by
  induction n generalizing s i with
  | zero =>
    obtain rfl : i = m := by omega
    exact ⟨s, rfl, h, fun j => rfl, fun y _ => rfl, fun k => by rw [if_neg (by omega)], rfl, rfl,
      TagsOnly.refl s⟩
  | succ n ih =>
    have hle : 2 ^ (i + 1) ≤ 2 ^ m := Nat.pow_le_pow_right (by decide) (by omega)
    have hdvd : 2 ^ (i + 1) ∣ x := Nat.dvd_trans (Nat.pow_dvd_pow 2 (by omega)) haligned
    have hbuddy : Dyadic.buddy x i = x + 2 ^ i := buddy_eq_add hdvd
    have hcall : s.buddy x i = .ok (some (x + 2 ^ i)) := by
      rw [buddy_eq (by omega), hbuddy, if_pos ⟨by omega, by omega⟩]
    obtain ⟨hpush, hwf, hstep, hobjsStep, htagsStep⟩ := h.release (show i < maxOrder by omega)
      (dvd_buddy_add hdvd) (show x + 2 ^ i + 2 ^ i ≤ s.objCount by omega) (fun j hj => by
        rw [Block.contains_mk] at hj
        exact hcover j hj.1 (by omega))
    obtain ⟨s', hrun, hwf', hcov, hobjs, hlists, hcount, hbase, htags⟩ :=
      ih hwf (i := i + 1) (by omega) hrange (fun j hlo hhi => by
        rw [hstep, hcover j (by omega) hhi, Block.indicator_of_not_contains]
        rw [Block.contains_mk]
        omega)
    refine ⟨s', ?_, hwf', fun j => ?_, fun y hy => ?_, fun k => ?_, hcount, hbase,
      htagsStep.trans htags⟩
    · simp only [List.range'_succ, pushExtra, hcall, bind, Except.bind, hpush]
      exact hrun
    · have hj := hcov j
      rw [hstep, indicator_halves] at hj
      omega
    · rw [hobjs y (fun k hik => hy k (by omega)), hobjsStep y (hy i le_rfl (by omega))]
    · rw [hlists k, freeLists_released]
      by_cases hk : k = i
      · subst k
        rw [if_neg (by omega), if_pos rfl, if_pos (by omega)]
      · rw [if_neg hk]
        by_cases hkm : i + 1 ≤ k ∧ k < m
        · rw [if_pos hkm, if_pos (by omega)]
        · rw [if_neg hkm, if_neg (by omega)]

/-- What a successful `allocate k` that returns `x` did to well-formed free lists. -/
structure Allocated (s : BuddyAllocator T) (k x : ℕ) (s' : BuddyAllocator T) : Prop where
  /-- The free lists stay well formed. -/
  wellFormed : s'.WellFormed
  /-- The returned block starts at a multiple of its length. -/
  aligned : 2 ^ k ∣ x
  /-- The returned block lies inside the array. -/
  inRange : x + 2 ^ k ≤ s.objCount
  /-- The free objects are those before, less the returned block. -/
  cover_eq : ∀ j, cover s.freeBlocks j = cover s'.freeBlocks j + (Block.mk x k).indicator j
  /-- The first object stores the requested order. -/
  order_eq : Object.order (s'.objs x) = k
  /-- The first object is marked as used. -/
  isUsed : Object.isUsed (s'.objs x) = true
  /-- Objects outside the free blocks keep their tags. -/
  objs_eq : ∀ y, cover s.freeBlocks y = 0 → s'.objs y = s.objs y
  /-- The number of objects is fixed. -/
  objCount_eq : s'.objCount = s.objCount
  /-- The base address is fixed. -/
  baseAddr_eq : s'.baseAddr = s.baseAddr
  /-- Only tags of objects change. -/
  tagsOnly : TagsOnly s s'
  /-- The block is the front of the first nonempty list from order `k` on, and each
  order below it receives the half that was split off. -/
  lists : ∃ m rest, k ≤ m ∧ m < maxOrder ∧ (∀ i, k ≤ i → i < m → s.freeLists i = []) ∧
    s.freeLists m = x :: rest ∧ ∀ i, s'.freeLists i =
      if k ≤ i ∧ i < m then s.freeLists i ++ [x + 2 ^ i]
      else if i = m then rest else s.freeLists i

/-- The state after the front block of the list of order `m` was taken off and marked as used
for a request of order `k`, before any part of it is given back. -/
def served (s : BuddyAllocator T) (m k x : ℕ) : BuddyAllocator T :=
  (s.taken m x).modifyObj x fun o => Object.markUsed (Object.setOrder o k)

/-- The free lists after a block was taken off the front of its list. -/
theorem freeLists_served {s : BuddyAllocator T} {m x : ℕ} {rest : List ℕ}
    (hlist : s.freeLists m = x :: rest) (k i : ℕ) :
    (s.served m k x).freeLists i = if i = m then rest else s.freeLists i := by
  simp only [served, taken, freeLists_modifyObj, hlist, List.erase_cons_head]
  split
  case isTrue hi => rw [hi, Function.update_self]
  case isFalse hi => rw [Function.update_of_ne hi]

/-- Taking a free block off the front of its list makes exactly its objects used, and changes
tags of its first object only. -/
theorem WellFormed.serve {s : BuddyAllocator T} (h : s.WellFormed) {m x : ℕ} (hm : m < maxOrder)
    (hx : x ∈ s.freeLists m) (k : ℕ) :
    (s.served m k x).WellFormed ∧
      (∀ j, cover s.freeBlocks j =
        (Block.mk x m).indicator j + cover (s.served m k x).freeBlocks j) ∧
      (∀ j, (Block.mk x m).Contains j → cover (s.served m k x).freeBlocks j = 0) ∧
      (s.served m k x).objs x = Object.markUsed (Object.setOrder (s.objs x) k) ∧
      (∀ y, y ≠ x → (s.served m k x).objs y = s.objs y) ∧ TagsOnly s (s.served m k x) := by
  let tag : T → T := fun o => Object.markUsed (Object.setOrder o k)
  have htaken : ∀ j, (Block.mk x m).Contains j → cover (s.taken m x).freeBlocks j = 0 :=
    fun j hj => h.cover_taken hm hx hj
  have hwf : (s.served m k x).WellFormed :=
    (h.taken hm hx).modifyObj tag (htaken x (Block.contains_start ⟨x, m⟩))
  have hblocks : (s.served m k x).freeBlocks = (s.taken m x).freeBlocks :=
    freeBlocks_modifyObj _ x tag
  refine ⟨hwf, fun j => ?_, fun j hj => ?_, objs_modifyObj_self _ x tag,
    fun y hy => objs_modifyObj_of_ne _ tag hy, ?_⟩
  · rw [hblocks, cover_perm (freeBlocks_taken hm hx), cover_cons]
  · rw [hblocks]
    exact htaken j hj
  · refine TagsOnly.modifyObj (s.taken m x) x tag ?_
    intro g hu _ ho t
    rw [hu, ho]

/-- The step of `allocate` that finds a block: it goes on with the block marked as used. -/
theorem allocateFrom_served {s : BuddyAllocator T} (h : s.WellFormed) {k m x : ℕ}
    {rest orders : List ℕ} (hm : m < maxOrder) (hlist : s.freeLists m = x :: rest) :
    allocateFrom k (m :: orders) s = do
      let s' ← pushExtra x (List.range' k (m - k)) (s.served m k x)
      return (some x, s') := by
  have hx : x ∈ s.freeLists m := hlist ▸ List.mem_cons_self
  simp only [allocateFrom, hlist, h.decrementCount hm hx, bind, Except.bind, served, taken,
    List.erase_cons_head]

/-- Serving a request of order `k` from the front of the list of order `m`. -/
theorem allocateFrom_cons {s : BuddyAllocator T} (h : s.WellFormed) {k m x : ℕ}
    {rest orders : List ℕ}
    (hkm : k ≤ m) (hm : m < maxOrder) (hempty : ∀ i, k ≤ i → i < m → s.freeLists i = [])
    (hlist : s.freeLists m = x :: rest) :
    ∃ s', allocateFrom k (m :: orders) s = .ok (some x, s') ∧ Allocated s k x s' ∧
      ∀ y, y ≠ x → (∀ i, k ≤ i → i < m → y ≠ x + 2 ^ i) → s'.objs y = s.objs y := by
  have hx : x ∈ s.freeLists m := hlist ▸ List.mem_cons_self
  have hmem := mem_freeBlocks.mpr ⟨hm, hx⟩
  have haligned : 2 ^ m ∣ x := h.aligned _ hmem
  have hrange : x + 2 ^ m ≤ s.objCount := h.inRange _ hmem
  have hle : 2 ^ k ≤ 2 ^ m := Nat.pow_le_pow_right (by decide) hkm
  have hpowk := Nat.two_pow_pos k
  obtain ⟨hwf, hserved, hused, htag, hother, htagsServed⟩ := h.serve hm hx k
  obtain ⟨s', hrun, hwf', hcov, hobjs, hlists, hcount, hbase, htags⟩ :=
    pushExtra_spec hwf (i := k) (n := m - k) hm (by omega) haligned hrange
      (fun j hlo hhi => hused j ⟨by simp only; omega, hhi⟩)
  have hcoverEq : ∀ j, cover s.freeBlocks j =
      cover s'.freeBlocks j + (Block.mk x k).indicator j := by
    intro j
    have hj := hcov j
    have hjServed := hserved j
    omega
  have hobjx : s'.objs x = Object.markUsed (Object.setOrder (s.objs x) k) := by
    rw [hobjs x (fun i _ _ => by have := Nat.two_pow_pos i; omega), htag]
  have huntouched : ∀ y, y ≠ x → (∀ i, k ≤ i → i < m → y ≠ x + 2 ^ i) → s'.objs y = s.objs y :=
    fun y hyx hy => (hobjs y hy).trans (hother y hyx)
  refine ⟨s', ?_, ⟨hwf', Nat.dvd_trans (Nat.pow_dvd_pow 2 hkm) haligned, by omega, hcoverEq, ?_, ?_,
    ?_, hcount, hbase, htagsServed.trans htags, m, rest, hkm, hm, hempty, hlist, ?_⟩, huntouched⟩
  · rw [allocateFrom_served h hm hlist, hrun]
    rfl
  · rw [hobjx]
    simp
  · rw [hobjx]
    simp
  · intro y hy
    have hout : ¬(Block.mk x m).Contains y := fun hc => by
      have := cover_pos_of_mem hmem hc
      omega
    rw [Block.contains_mk] at hout
    refine huntouched y (by omega) (fun i _ him => ?_)
    have hlt : 2 ^ i < 2 ^ m := Nat.pow_lt_pow_right (by decide) him
    have hpowi := Nat.two_pow_pos i
    omega
  · intro i
    rw [hlists i, freeLists_served hlist]
    by_cases him : i = m
    · subst i
      have hnot : ¬(k ≤ m ∧ m < m) := by omega
      rw [if_neg hnot, if_neg hnot]
    · simp only [him, if_false]

/-- The search over the orders from `o` on, when the lists of the orders from the
request up to `o` are empty. -/
theorem allocateFrom_spec {s : BuddyAllocator T} (h : s.WellFormed) {k o n : ℕ} (hko : k ≤ o)
    (hon : o + n = maxOrder) (hempty : ∀ i, k ≤ i → i < o → s.freeLists i = []) :
    (allocateFrom k (List.range' o n) s = .ok (none, s) ∧
      ∀ i, k ≤ i → i < maxOrder → s.freeLists i = []) ∨
    ∃ m x rest s', k ≤ m ∧ m < maxOrder ∧ (∀ i, k ≤ i → i < m → s.freeLists i = []) ∧
      s.freeLists m = x :: rest ∧ allocateFrom k (List.range' o n) s = .ok (some x, s') ∧
      Allocated s k x s' ∧
      ∀ y, y ≠ x → (∀ i, k ≤ i → i < m → y ≠ x + 2 ^ i) → s'.objs y = s.objs y := by
  induction n generalizing o with
  | zero =>
    obtain rfl : o = maxOrder := by omega
    exact Or.inl ⟨rfl, hempty⟩
  | succ n ih =>
    rw [List.range'_succ]
    cases hlist : s.freeLists o with
    | nil =>
      simp only [allocateFrom, hlist]
      apply ih (by omega) (by omega)
      intro i hki hio
      by_cases hi : i = o
      · rw [hi, hlist]
      · exact hempty i hki (by omega)
    | cons x rest =>
      right
      obtain ⟨s', hrun, hspec⟩ : ∃ s', allocateFrom k (o :: List.range' (o + 1) n) s =
          .ok (some x, s') ∧ Allocated s k x s' ∧
            ∀ y, y ≠ x → (∀ i, k ≤ i → i < o → y ≠ x + 2 ^ i) → s'.objs y = s.objs y :=
        allocateFrom_cons h hko (by omega) hempty hlist
      exact ⟨o, x, rest, s', hko, by omega, hempty, hlist, hrun, hspec⟩

/-- Everything `allocate` can do on well-formed free lists, with the list that serves the
request. -/
theorem allocate_cases {s : BuddyAllocator T} (h : s.WellFormed) (k : ℕ) :
    (s.allocate k = .ok (none, s) ∧ ∀ i, k ≤ i → i < maxOrder → s.freeLists i = []) ∨
    ∃ m x rest s', k ≤ m ∧ m < maxOrder ∧ (∀ i, k ≤ i → i < m → s.freeLists i = []) ∧
      s.freeLists m = x :: rest ∧ s.allocate k = .ok (some x, s') ∧ Allocated s k x s' ∧
      ∀ y, y ≠ x → (∀ i, k ≤ i → i < m → y ≠ x + 2 ^ i) → s'.objs y = s.objs y := by
  unfold allocate
  by_cases hk : maxOrder ≤ k
  · left
    rw [if_pos hk]
    exact ⟨rfl, fun i hki hi => by omega⟩
  · rw [if_neg hk]
    exact allocateFrom_spec h le_rfl (by omega) (fun i _ _ => by omega)

/-- Everything `allocate` can do on well-formed free lists. It never faults: it
returns `None` and changes nothing when no list from the requested order on has a
block, and otherwise it returns the first such block. -/
theorem allocate_spec {s : BuddyAllocator T} (h : s.WellFormed) (k : ℕ) :
    (s.allocate k = .ok (none, s) ∧ ∀ i, k ≤ i → i < maxOrder → s.freeLists i = []) ∨
    ∃ x s', s.allocate k = .ok (some x, s') ∧ Allocated s k x s' := by
  rcases allocate_cases h k with hnone | ⟨m, x, rest, s', -, -, -, -, hrun, hspec, -⟩
  · exact Or.inl hnone
  · exact Or.inr ⟨x, s', hrun, hspec⟩

end Axel.BuddyAllocator
