import Axel.Memory.Alignment

/-!
# The kernel heap

`HeapAllocator` hands out the addresses of one range by moving a pointer upwards,
and `GlobalAllocator` puts it behind the `GlobalAlloc` interface. This file embeds
both and follows the pointer through arbitrary sequences of calls.
-/

namespace Axel

/-- A request of the `GlobalAlloc` interface. A `Layout` can only be built with an
alignment that is a power of two. -/
structure Layout where
  /-- The number of bytes requested. -/
  size : ℕ
  /-- The requested alignment. -/
  align : ℕ
  /-- The size is a `usize`. -/
  size_lt : size < usizeCount
  /-- The alignment is a `usize`. -/
  align_lt : align < usizeCount
  /-- The alignment is a power of two. -/
  align_pow : ∃ k, align = 2 ^ k

/-- The range of addresses that the heap has not handed out yet. -/
structure HeapAllocator where
  /-- The next address to hand out. -/
  addrBegin : ℕ
  /-- The end of the heap. -/
  addrEnd : ℕ
  deriving DecidableEq, Repr

/-- `HeapAllocator::alloc`. The aligned address is computed and dropped: the source
calls `align_up` as a statement of its own. -/
def HeapAllocator.alloc (self : HeapAllocator) (layout : Layout) :
    Except Fault (Option ℕ × HeapAllocator) := do
  let _ ← alignUp self.addrBegin layout.align
  let stop ← checkedAdd self.addrBegin layout.size
  if self.addrEnd ≤ stop then
    return (none, self)
  let addr := self.addrBegin
  let addrBegin ← checkedAdd self.addrBegin layout.size
  return (some addr, { self with addrBegin })

/-- `HeapAllocator::dealloc` does nothing. -/
def HeapAllocator.dealloc (self : HeapAllocator) (_ptr : ℕ) (_layout : Layout) : HeapAllocator :=
  self

/-- The allocator behind the lock: absent until `init` has been called. -/
structure GlobalAllocator where
  /-- The heap, once there is one. -/
  inner : Option HeapAllocator

/-- `GlobalAllocator::new`: no heap yet. -/
def GlobalAllocator.new : GlobalAllocator := ⟨none⟩

/-- `GlobalAllocator::init`. -/
def GlobalAllocator.init (_self : GlobalAllocator) (allocator : HeapAllocator) : GlobalAllocator :=
  ⟨some allocator⟩

/-- `GlobalAlloc::alloc`: panics without a heap and when the heap is full. -/
def GlobalAllocator.alloc (self : GlobalAllocator) (layout : Layout) :
    Except Fault (ℕ × GlobalAllocator) :=
  match self.inner with
  | none => .error .panic
  | some allocator => do
    let (ptr, allocator) ← allocator.alloc layout
    match ptr with
    | some ptr => return (ptr, ⟨some allocator⟩)
    | none => throw .panic

/-- `GlobalAlloc::dealloc`: panics without a heap. -/
def GlobalAllocator.dealloc (self : GlobalAllocator) (ptr : ℕ) (layout : Layout) :
    Except Fault GlobalAllocator :=
  match self.inner with
  | none => .error .panic
  | some allocator => .ok ⟨some (allocator.dealloc ptr layout)⟩

/-- One call of the heap interface. -/
inductive HeapCall where
  /-- A call of `alloc`. -/
  | alloc (layout : Layout)
  /-- A call of `dealloc`. -/
  | dealloc (ptr : ℕ) (layout : Layout)

/-- Perform one call. The value is the pointer returned, with the layout it was
requested with. -/
def HeapAllocator.call (self : HeapAllocator) :
    HeapCall → Except Fault (Option (Layout × ℕ) × HeapAllocator)
  | .alloc layout => do
    let (ptr, next) ← self.alloc layout
    return (ptr.map (layout, ·), next)
  | .dealloc ptr layout => .ok (none, self.dealloc ptr layout)

/-- The heap after a sequence of calls, unless one of them panics. -/
def HeapAllocator.after (self : HeapAllocator) : List HeapCall → Except Fault HeapAllocator
  | [] => .ok self
  | c :: calls => do
    let (_, next) ← self.call c
    next.after calls

/-- The pointers that a sequence of calls returns. A panic ends the sequence. -/
def HeapAllocator.pointers (self : HeapAllocator) : List HeapCall → List (Layout × ℕ)
  | [] => []
  | c :: calls =>
    match self.call c with
    | .error _ => []
    | .ok (ptr, next) => ptr.toList ++ next.pointers calls

/-- The requests that `alloc` serves: no sum overflows, and the block ends strictly
below the end of the heap. -/
def HeapAllocator.Serves (self : HeapAllocator) (layout : Layout) : Prop :=
  self.addrBegin + (layout.align - 1) < usizeCount ∧
    self.addrBegin + layout.size < usizeCount ∧ self.addrBegin + layout.size < self.addrEnd

/-- The alignment computed and dropped by `alloc` succeeds exactly when the addition
of the mask does not overflow. -/
theorem alignUp_layout_isOk (addr : ℕ) (layout : Layout) :
    (∃ a, alignUp addr layout.align = .ok a) ↔ addr + (layout.align - 1) < usizeCount := by
  obtain ⟨k, hk⟩ := layout.align_pow
  have hone : 1 ≤ layout.align := hk ▸ Nat.one_le_two_pow
  constructor
  · rintro ⟨a, ha⟩
    obtain ⟨mask, hmask, hrest⟩ := Except.bind_eq_ok.mp ha
    obtain ⟨sum, hsum, -⟩ := Except.bind_eq_ok.mp hrest
    obtain ⟨-, rfl⟩ := checkedSub_eq_ok.mp hmask
    exact (checkedAdd_eq_ok.mp hsum).1
  · intro h
    refine ⟨(addr + (layout.align - 1)) &&& (usizeCount - 1 - (layout.align - 1)), ?_⟩
    simp only [alignUp, checkedSub_ok hone, checkedAdd_ok h, bind, Except.bind, pure, Except.pure]

/-- Everything a returning `alloc` can do: it serves the request at the pointer it
has, or it returns `None` and changes nothing. -/
theorem HeapAllocator.alloc_cases {heap next : HeapAllocator} {layout : Layout} {ptr : Option ℕ}
    (h : heap.alloc layout = .ok (ptr, next)) :
    (heap.Serves layout ∧ ptr = some heap.addrBegin ∧
      next = { heap with addrBegin := heap.addrBegin + layout.size }) ∨
    (¬heap.Serves layout ∧ ptr = none ∧ next = heap) := by
  obtain ⟨a, ha, hrest⟩ := Except.bind_eq_ok.mp h
  obtain ⟨stop, hstop, hrest⟩ := Except.bind_eq_ok.mp hrest
  have halign := (alignUp_layout_isOk heap.addrBegin layout).mp ⟨a, ha⟩
  obtain ⟨hlt, rfl⟩ := checkedAdd_eq_ok.mp hstop
  by_cases hfull : heap.addrEnd ≤ heap.addrBegin + layout.size
  · right
    rw [if_pos hfull] at hrest
    cases hrest
    exact ⟨fun hserves => by have := hserves.2.2; omega, rfl, rfl⟩
  · left
    rw [if_neg hfull] at hrest
    simp only [checkedAdd_ok hlt, bind, Except.bind] at hrest
    cases hrest
    exact ⟨⟨halign, hlt, by omega⟩, rfl, rfl⟩

/-- A request that can be served is served at the current pointer, aligned or not. -/
theorem HeapAllocator.alloc_of_serves {heap : HeapAllocator} {layout : Layout}
    (h : heap.Serves layout) :
    heap.alloc layout =
      .ok (some heap.addrBegin, { heap with addrBegin := heap.addrBegin + layout.size }) := by
  obtain ⟨halign, hlt, hend⟩ := h
  obtain ⟨a, ha⟩ := (alignUp_layout_isOk heap.addrBegin layout).mpr halign
  have hfull : ¬heap.addrEnd ≤ heap.addrBegin + layout.size := by omega
  simp only [alloc, ha, checkedAdd_ok hlt, bind, Except.bind, pure, Except.pure, if_neg hfull]

/-- A call returns a pointer exactly when it is a request that can be served. -/
theorem HeapAllocator.call_eq_served {heap next : HeapAllocator} {c : HeapCall} {layout : Layout}
    {addr : ℕ} :
    heap.call c = .ok (some (layout, addr), next) ↔
      c = .alloc layout ∧ heap.Serves layout ∧ addr = heap.addrBegin ∧
        next = { heap with addrBegin := heap.addrBegin + layout.size } := by
  constructor
  · intro hcall
    cases c with
    | dealloc p l => cases hcall
    | alloc l =>
      obtain ⟨⟨p, next'⟩, halloc, hvalue⟩ := Except.bind_eq_ok.mp hcall
      rcases alloc_cases halloc with ⟨hserves, rfl, rfl⟩ | ⟨-, rfl, rfl⟩
      · cases hvalue
        exact ⟨rfl, hserves, rfl, rfl⟩
      · cases hvalue
  · rintro ⟨rfl, hserves, rfl, rfl⟩
    simp only [call, alloc_of_serves hserves, bind, Except.bind, pure, Except.pure,
      Option.map_some]

/-- The calls after one that returned. -/
theorem HeapAllocator.after_cons {heap next : HeapAllocator} {c : HeapCall}
    {served : Option (Layout × ℕ)} (hcall : heap.call c = .ok (served, next))
    (calls : List HeapCall) : heap.after (c :: calls) = next.after calls := by
  simp only [after, hcall, bind, Except.bind]

/-- The pointers of a sequence of calls are the pointers at which the served requests
found the heap. -/
theorem HeapAllocator.mem_pointers {heap : HeapAllocator} {calls : List HeapCall}
    {layout : Layout} {addr : ℕ} :
    (layout, addr) ∈ heap.pointers calls ↔
      ∃ before later current, calls = before ++ .alloc layout :: later ∧
        heap.after before = .ok current ∧ current.Serves layout ∧ addr = current.addrBegin := by
  induction calls generalizing heap with
  | nil => simp [pointers]
  | cons c calls ih =>
    cases hcall : heap.call c with
    | error e =>
      simp only [pointers, hcall, List.not_mem_nil, false_iff]
      rintro ⟨before, later, current, hsplit, hafter, hserves, -⟩
      cases before with
      | nil =>
        obtain ⟨rfl, -⟩ := List.cons.inj hsplit
        cases hafter
        have hserved := call_eq_served.mpr ⟨rfl, hserves, rfl, rfl⟩
        rw [hcall] at hserved
        cases hserved
      | cons b before =>
        obtain ⟨rfl, -⟩ := List.cons.inj hsplit
        simp only [after, hcall, bind, Except.bind, reduceCtorEq] at hafter
    | ok result =>
      obtain ⟨served, next⟩ := result
      simp only [pointers, hcall, List.mem_append, Option.mem_toList, ih]
      constructor
      · rintro (hserved | ⟨before, later, current, rfl, hafter, hserves, haddr⟩)
        · obtain rfl := Option.mem_def.mp hserved
          obtain ⟨rfl, hserves, rfl, -⟩ := call_eq_served.mp hcall
          exact ⟨[], calls, heap, rfl, rfl, hserves, rfl⟩
        · exact ⟨c :: before, later, current, rfl, (after_cons hcall before).trans hafter,
            hserves, haddr⟩
      · rintro ⟨before, later, current, hsplit, hafter, hserves, rfl⟩
        cases before with
        | nil =>
          obtain ⟨rfl, -⟩ := List.cons.inj hsplit
          cases hafter
          left
          have hserved := call_eq_served.mpr ⟨rfl, hserves, rfl, rfl⟩
          rw [hcall] at hserved
          cases hserved
          rfl
        | cons b before =>
          obtain ⟨rfl, rfl⟩ := List.cons.inj hsplit
          right
          rw [after_cons hcall] at hafter
          exact ⟨before, later, current, rfl, hafter, hserves, rfl⟩

/-- The number of bytes that a sequence of calls has taken from the heap. -/
def HeapAllocator.servedBytes (self : HeapAllocator) (calls : List HeapCall) : ℕ :=
  ((self.pointers calls).map (fun served => served.1.size)).sum

/-- The end of the heap stays, and the pointer has moved by exactly the bytes served. -/
theorem HeapAllocator.after_eq {heap current : HeapAllocator} {calls : List HeapCall}
    (h : heap.after calls = .ok current) :
    current = { heap with addrBegin := heap.addrBegin + heap.servedBytes calls } := by
  induction calls generalizing heap with
  | nil =>
    cases h
    rfl
  | cons c calls ih =>
    obtain ⟨⟨ptr, next⟩, hcall, hrest⟩ := Except.bind_eq_ok.mp h
    have hnext := ih hrest
    simp only [servedBytes, pointers, hcall, List.map_append, List.sum_append] at hnext ⊢
    rw [hnext]
    cases c with
    | dealloc p l =>
      cases hcall
      simp [dealloc]
    | alloc l =>
      obtain ⟨⟨p, next'⟩, halloc, hvalue⟩ := Except.bind_eq_ok.mp hcall
      cases hvalue
      rcases alloc_cases halloc with ⟨-, rfl, rfl⟩ | ⟨-, rfl, rfl⟩
      · simp [Nat.add_assoc]
      · simp

/-- The heap returns aligned pointers exactly on those sequences of calls in which
every request that is served arrives when the initial address plus the bytes served
so far is already a multiple of its alignment. -/
theorem HeapAllocator.pointers_aligned_iff (heap : HeapAllocator) (calls : List HeapCall) :
    (∀ layout addr, (layout, addr) ∈ heap.pointers calls → layout.align ∣ addr) ↔
      ∀ before layout later current, calls = before ++ .alloc layout :: later →
        heap.after before = .ok current → current.Serves layout →
          layout.align ∣ heap.addrBegin + heap.servedBytes before := by
  simp only [mem_pointers]
  constructor
  · intro h before layout later current hsplit hafter hserves
    have haddr : current.addrBegin = heap.addrBegin + heap.servedBytes before := by
      rw [after_eq hafter]
    rw [← haddr]
    exact h layout _ ⟨before, later, current, hsplit, hafter, hserves, rfl⟩
  · rintro h layout addr ⟨before, later, current, hsplit, hafter, hserves, rfl⟩
    rw [after_eq hafter]
    exact h before layout later current hsplit hafter hserves

/-- One byte followed by eight bytes aligned to eight: the second request is served
at an odd address. -/
theorem HeapAllocator.pointers_not_aligned :
    ¬∀ (heap : HeapAllocator) (calls : List HeapCall) (layout : Layout) (addr : ℕ),
      (layout, addr) ∈ heap.pointers calls → layout.align ∣ addr := by
  intro h
  let byte : Layout := ⟨1, 1, by decide, by decide, 0, rfl⟩
  let word : Layout := ⟨8, 8, by decide, by decide, 3, rfl⟩
  have hmem : (word, 0x1001) ∈ (HeapAllocator.mk 0x1000 0x2000).pointers
      [.alloc byte, .alloc word] :=
    mem_pointers.mpr ⟨[.alloc byte], [], ⟨0x1001, 0x2000⟩, rfl, rfl, by
      simp [Serves, word, usizeCount], rfl⟩
  have hdvd := h _ _ _ _ hmem
  exact absurd hdvd (by decide)

/-- Every request is small enough for the address space above the current pointer. -/
def HeapAllocator.Fits (self : HeapAllocator) (calls : List HeapCall) : Prop :=
  ∀ before layout later current, calls = before ++ .alloc layout :: later →
    self.after before = .ok current → layout.size < usizeCount - current.addrBegin

/-- What a heap is expected to do in a sequence of calls. -/
structure HeapAllocator.Sound (heap : HeapAllocator) (calls : List HeapCall) : Prop where
  /-- The sum of the pointer and the size of a request does not overflow. -/
  noOverflow : ∀ before layout later current, calls = before ++ .alloc layout :: later →
    heap.after before = .ok current → ∃ stop, checkedAdd current.addrBegin layout.size = .ok stop
  /-- The blocks lie in the heap. -/
  inHeap : ∀ layout addr, (layout, addr) ∈ heap.pointers calls →
    heap.addrBegin ≤ addr ∧ addr + layout.size ≤ heap.addrEnd
  /-- Blocks of different calls have no address in common. -/
  disjoint : (heap.pointers calls).Pairwise fun b c =>
    ∀ a, ¬((b.2 ≤ a ∧ a < b.2 + b.1.size) ∧ c.2 ≤ a ∧ a < c.2 + c.1.size)
  /-- The pointer does not pass the end of the heap. -/
  ordered : ∀ before later current, calls = before ++ later → heap.after before = .ok current →
    current.addrBegin ≤ current.addrEnd
  /-- A refused request changes nothing. -/
  refused : ∀ before layout later current next, calls = before ++ .alloc layout :: later →
    heap.after before = .ok current → current.alloc layout = .ok (none, next) → next = current

/-- One call keeps the end of the heap, and moves the pointer at most up to it. -/
theorem HeapAllocator.call_ordered {heap next : HeapAllocator} {c : HeapCall}
    {ptr : Option (Layout × ℕ)} (hcall : heap.call c = .ok (ptr, next))
    (hle : heap.addrBegin ≤ heap.addrEnd) :
    next.addrEnd = heap.addrEnd ∧ heap.addrBegin ≤ next.addrBegin ∧
      next.addrBegin ≤ next.addrEnd ∧ ∀ layout addr, ptr = some (layout, addr) →
        addr = heap.addrBegin ∧ next.addrBegin = addr + layout.size := by
  cases c with
  | dealloc p l =>
    cases hcall
    exact ⟨rfl, le_rfl, hle, fun layout addr hptr => by cases hptr⟩
  | alloc l =>
    obtain ⟨⟨p, next'⟩, halloc, hvalue⟩ := Except.bind_eq_ok.mp hcall
    cases hvalue
    rcases alloc_cases halloc with ⟨⟨-, -, hlt⟩, rfl, rfl⟩ | ⟨-, rfl, rfl⟩
    · refine ⟨rfl, Nat.le_add_right _ _, hlt.le, fun layout addr hptr => ?_⟩
      cases hptr
      exact ⟨rfl, rfl⟩
    · exact ⟨rfl, le_rfl, hle, fun layout addr hptr => by cases hptr⟩

/-- The pointer stays between the start and the end of the heap. -/
theorem HeapAllocator.after_ordered {heap current : HeapAllocator} {calls : List HeapCall}
    (h : heap.after calls = .ok current) (hle : heap.addrBegin ≤ heap.addrEnd) :
    current.addrEnd = heap.addrEnd ∧ heap.addrBegin ≤ current.addrBegin ∧
      current.addrBegin ≤ current.addrEnd := by
  induction calls generalizing heap with
  | nil =>
    cases h
    exact ⟨rfl, le_rfl, hle⟩
  | cons c calls ih =>
    obtain ⟨⟨ptr, next⟩, hcall, hrest⟩ := Except.bind_eq_ok.mp h
    obtain ⟨hend, hbegin, hnext, -⟩ := call_ordered hcall hle
    obtain ⟨hend', hbegin', hcurrent⟩ := ih hrest hnext
    exact ⟨hend'.trans hend, hbegin.trans hbegin', hcurrent⟩

/-- The blocks of a sequence of calls lie in the heap. -/
theorem HeapAllocator.pointers_inHeap {heap : HeapAllocator} {calls : List HeapCall}
    (hle : heap.addrBegin ≤ heap.addrEnd) {layout : Layout} {addr : ℕ}
    (h : (layout, addr) ∈ heap.pointers calls) :
    heap.addrBegin ≤ addr ∧ addr + layout.size ≤ heap.addrEnd := by
  obtain ⟨before, later, current, -, hafter, ⟨-, -, hlt⟩, rfl⟩ := mem_pointers.mp h
  obtain ⟨hend, hbegin, -⟩ := after_ordered hafter hle
  omega

/-- The blocks of a sequence of calls are disjoint, since later ones lie behind earlier
ones. -/
theorem HeapAllocator.pointers_disjoint {heap : HeapAllocator} (calls : List HeapCall)
    (hle : heap.addrBegin ≤ heap.addrEnd) :
    (heap.pointers calls).Pairwise fun b c =>
      ∀ a, ¬((b.2 ≤ a ∧ a < b.2 + b.1.size) ∧ c.2 ≤ a ∧ a < c.2 + c.1.size) := by
  induction calls generalizing heap with
  | nil => exact List.Pairwise.nil
  | cons c calls ih =>
    cases hcall : heap.call c with
    | error fault =>
      simp only [pointers, hcall]
      exact List.Pairwise.nil
    | ok result =>
      obtain ⟨ptr, next⟩ := result
      obtain ⟨-, -, hnext, hptr⟩ := call_ordered hcall hle
      simp only [pointers, hcall]
      cases ptr with
      | none => exact ih hnext
      | some block =>
        obtain ⟨-, hmoved⟩ := hptr block.1 block.2 rfl
        refine List.pairwise_cons.mpr ⟨?_, ih hnext⟩
        rintro ⟨layout, addr⟩ hmem a ⟨⟨-, hlt⟩, hge, -⟩
        have hbehind := (pointers_inHeap hnext hmem).1
        simp only at hge
        omega

/-- A heap works as expected in exactly those sequences of calls in which each request is
small enough for the address space above the pointer. -/
theorem HeapAllocator.sound_iff_fits (heap : HeapAllocator) (hle : heap.addrBegin ≤ heap.addrEnd)
    (calls : List HeapCall) : heap.Sound calls ↔ heap.Fits calls := by
  constructor
  · intro h before layout later current hsplit hafter
    obtain ⟨stop, hstop⟩ := h.noOverflow before layout later current hsplit hafter
    have hlt := (checkedAdd_eq_ok.mp hstop).1
    omega
  · intro h
    refine ⟨?_, fun layout addr => pointers_inHeap hle, pointers_disjoint calls hle, ?_, ?_⟩
    · intro before layout later current hsplit hafter
      have hfits := h before layout later current hsplit hafter
      obtain ⟨hsame, -, hbegin⟩ := after_ordered hafter hle
      exact ⟨_, checkedAdd_ok (by omega)⟩
    · intro before later current hsplit hafter
      exact (after_ordered hafter hle).2.2
    · intro before layout later current next hsplit hafter hrefused
      rcases alloc_cases hrefused with ⟨-, hptr, -⟩ | ⟨-, -, hsame⟩
      · cases hptr
      · exact hsame

/-- A heap of one page serves a request of sixteen bytes. -/
theorem HeapAllocator.sound_iff_fits_page :
    (HeapAllocator.mk 0x1000 0x2000).Sound
        [.alloc ⟨16, 1, by decide, by decide, 0, rfl⟩] ↔
      (HeapAllocator.mk 0x1000 0x2000).Fits [.alloc ⟨16, 1, by decide, by decide, 0, rfl⟩] :=
  sound_iff_fits _ (by decide) _

/-- A request of almost half of the address space, made to a heap in the upper half. -/
theorem HeapAllocator.not_sound :
    ¬∀ (heap : HeapAllocator) (calls : List HeapCall), heap.addrBegin ≤ heap.addrEnd →
      heap.addrEnd < usizeCount → heap.Sound calls := by
  intro h
  let large : Layout := ⟨0x7fffffffffffffff, 1, by decide, by decide, 0, rfl⟩
  let heap : HeapAllocator := ⟨0xffff800000000000, 0xffff800000020000⟩
  obtain ⟨stop, hstop⟩ := (h heap [.alloc large] (by decide) (by decide)).noOverflow [] large []
    heap rfl rfl
  exact absurd (checkedAdd_eq_ok.mp hstop).1 (by decide)

end Axel
