import Axel.Memory.Alignment

/-!
# The early allocator

Before the buddy allocator exists, `EarlyAllocator` cuts memory from the front of one
region. `allocate_frames` uses it to place the array of `Frame` structures and to
count the frames that remain behind the array. The size and the alignment of the
structure are parameters: they come from the layout that the compiler chooses.
-/

namespace Axel

/-- `frame::SIZE`, the number of bytes of a frame. -/
def frameSize : ℕ := 4096

/-- What the compiler decides about a structure: `mem::size_of` and `mem::align_of`. -/
structure StructLayout where
  /-- The size in bytes. -/
  size : ℕ
  /-- The alignment, given by its exponent. -/
  alignExponent : ℕ
  /-- No structure of the kernel is aligned to more than a frame. -/
  alignExponent_le : alignExponent ≤ 12

/-- A region that is consumed from its front. -/
structure EarlyAllocator where
  /-- The first address that is still free. -/
  addrBegin : ℕ
  /-- The end of the region. -/
  addrEnd : ℕ
  deriving DecidableEq, Repr

/-- `EarlyAllocator::new`. -/
def EarlyAllocator.new (addrBegin addrEnd : ℕ) : Except Fault EarlyAllocator := do
  debugAssert (addrBegin < addrEnd)
  return ⟨addrBegin, addrEnd⟩

/-- `EarlyAllocator::capacity`. -/
def EarlyAllocator.capacity (self : EarlyAllocator) : Except Fault ℕ :=
  checkedSub self.addrEnd self.addrBegin

/-- `EarlyAllocator::align_addr_begin`. -/
def EarlyAllocator.alignAddrBegin (self : EarlyAllocator) (alignment : ℕ) :
    Except Fault EarlyAllocator := do
  let addrBegin ← alignUp self.addrBegin alignment
  return { self with addrBegin }

/-- `EarlyAllocator::allocate::<T>`: the address of `count` structures of one layout. -/
def EarlyAllocator.allocate (self : EarlyAllocator) (layout : StructLayout) (count : ℕ) :
    Except Fault (ℕ × EarlyAllocator) := do
  let self ← self.alignAddrBegin (2 ^ layout.alignExponent)
  let addr := self.addrBegin
  let size ← checkedMul layout.size count
  let addrBegin ← checkedAdd self.addrBegin size
  return (addr, { self with addrBegin })

/-- `allocate_frames`: the address of the array of `Frame` structures, and the number
of frames behind it. -/
def allocateFrames (allocator : EarlyAllocator) (layout : StructLayout) :
    Except Fault ((ℕ × ℕ) × EarlyAllocator) := do
  let allocator ← allocator.alignAddrBegin frameSize
  let capacity ← allocator.capacity
  let countFrames := capacity / frameSize
  let requiredSize ← checkedMul countFrames layout.size
  let capacity ← checkedSub capacity requiredSize
  let countFrames := capacity / frameSize
  let (frames, allocator) ← allocator.allocate layout countFrames
  let allocator ← allocator.alignAddrBegin frameSize
  let remaining ← allocator.capacity
  debugAssert (countFrames ≤ remaining / frameSize)
  return ((frames, countFrames), allocator)

/-- Aligning the front moves it to the next multiple and keeps the end. -/
theorem EarlyAllocator.alignAddrBegin_spec {allocator next : EarlyAllocator} {k : ℕ} (hk : k ≤ 64)
    (h : allocator.alignAddrBegin (2 ^ k) = .ok next) :
    allocator.addrBegin ≤ next.addrBegin ∧ 2 ^ k ∣ next.addrBegin ∧
      next.addrEnd = allocator.addrEnd := by
  obtain ⟨first, hfirst, h⟩ := Except.bind_eq_ok.mp h
  cases h
  have hspec := alignUp_spec hk hfirst
  exact ⟨hspec.1, hspec.2.2, rfl⟩

/-- An allocation lies at or behind the old front, and the new front is its end. -/
theorem EarlyAllocator.allocate_spec {allocator next : EarlyAllocator} {layout : StructLayout}
    {count addr : ℕ} (h : allocator.allocate layout count = .ok (addr, next)) :
    allocator.addrBegin ≤ addr ∧ next.addrBegin = addr + layout.size * count ∧
      next.addrEnd = allocator.addrEnd := by
  obtain ⟨aligned, haligned, h⟩ := Except.bind_eq_ok.mp h
  obtain ⟨size, hsize, h⟩ := Except.bind_eq_ok.mp h
  obtain ⟨stop, hstop, h⟩ := Except.bind_eq_ok.mp h
  cases h
  obtain ⟨hle, -, hend⟩ :=
    alignAddrBegin_spec (Nat.le_trans layout.alignExponent_le (by decide)) haligned
  obtain ⟨-, rfl⟩ := checkedMul_eq_ok.mp hsize
  exact ⟨hle, (checkedAdd_eq_ok.mp hstop).2.symm, hend⟩

/-- Where the parts of a successful `allocate_frames` lie: the array of structures
starts behind the old front, the frames start behind the array, and they end inside
the region. -/
theorem allocateFrames_spec {allocator next : EarlyAllocator} {layout : StructLayout}
    {frames count : ℕ} (h : allocateFrames allocator layout = .ok ((frames, count), next)) :
    allocator.addrBegin ≤ frames ∧ frames + layout.size * count ≤ next.addrBegin ∧
      next.addrBegin + count * frameSize ≤ allocator.addrEnd ∧ frameSize ∣ next.addrBegin := by
  obtain ⟨aligned, haligned, h⟩ := Except.bind_eq_ok.mp h
  obtain ⟨capacity, -, h⟩ := Except.bind_eq_ok.mp h
  obtain ⟨required, -, h⟩ := Except.bind_eq_ok.mp h
  obtain ⟨rest, -, h⟩ := Except.bind_eq_ok.mp h
  obtain ⟨⟨array, allocated⟩, hallocated, h⟩ := Except.bind_eq_ok.mp h
  obtain ⟨final, hfinal, h⟩ := Except.bind_eq_ok.mp h
  obtain ⟨room, hroom, h⟩ := Except.bind_eq_ok.mp h
  obtain ⟨_, hassert, h⟩ := Except.bind_eq_ok.mp h
  cases h
  obtain ⟨hle₁, -, hend₁⟩ := EarlyAllocator.alignAddrBegin_spec (k := 12) (by decide) haligned
  obtain ⟨hle₂, hstop, hend₂⟩ := EarlyAllocator.allocate_spec hallocated
  obtain ⟨hle₃, hdvd, hend₃⟩ := EarlyAllocator.alignAddrBegin_spec (k := 12) (by decide) hfinal
  obtain ⟨hroomLe, rfl⟩ := checkedSub_eq_ok.mp hroom
  have hcount := of_decide_eq_true (debugAssert_eq_ok.mp hassert)
  rw [Nat.le_div_iff_mul_le (by decide)] at hcount
  exact ⟨by omega, by omega, by omega, hdvd⟩

end Axel
