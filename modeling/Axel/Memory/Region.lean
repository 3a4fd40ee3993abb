import Axel.Memory.EarlyAllocator

/-!
# The memory regions of the firmware

`memory::init` chooses one of the regions that the firmware reports, places the
array of `Frame` structures behind the kernel image, and hands the frames behind
the array to the buddy allocator. This file embeds `init` up to the call of
`BuddyAllocator::new` and asks which of these bytes the firmware reported as usable.
-/

namespace Axel

/-- The addresses that the linker script gives to the kernel. The end of the image
moves up when `init` appends the array of frames to it. -/
structure KernelAddresses where
  /-- `KERNEL_ADDR_PHYSICAL_BEGIN`. -/
  physicalBegin : ℕ
  /-- `CURRENT_KERNEL_ADDR_PHYSICAL_END`. -/
  physicalEnd : ℕ
  /-- `KERNEL_ADDR_VIRTUAL_BEGIN`. -/
  virtualBegin : ℕ
  /-- `KERNEL_ADDR_VIRTUAL_OFFSET`. -/
  virtualOffset : ℕ

/-- `ToVirtualAddr::to_virtual_addr`. -/
def KernelAddresses.toVirtualAddr (kernel : KernelAddresses) (addr : ℕ) : Except Fault ℕ :=
  checkedAdd addr kernel.virtualOffset

/-- `ToPhysicalAddr::to_physical_addr`. -/
def KernelAddresses.toPhysicalAddr (kernel : KernelAddresses) (addr : ℕ) : Except Fault ℕ :=
  checkedSub addr kernel.virtualOffset

/-- `region::State`. -/
inductive RegionState where
  | free
  | used
  | reserved
  deriving DecidableEq, Repr

/-- `region::Region`, a physical memory region. -/
structure Region where
  /-- The address of the first byte. -/
  baseAddr : ℕ
  /-- The number of bytes. -/
  size : ℕ
  /-- What the region is used for. -/
  state : RegionState
  deriving DecidableEq, Repr

/-- `multiboot2::MemoryArea`, an available area as the boot loader reports it. -/
structure MemoryArea where
  /-- The address of the first byte. -/
  startAddress : ℕ
  /-- The number of bytes. -/
  size : ℕ

/-- `Into<Region>` for a reported area. -/
def MemoryArea.toRegion (area : MemoryArea) : Region := ⟨area.startAddress, area.size, .free⟩

/-- `Adapter::iter`: the regions of the reported areas, in their order. -/
def adapterIter (areas : List MemoryArea) : List Region := areas.map MemoryArea.toRegion

/-- The arguments of `BuddyAllocator::new`. -/
structure ManagedFrames where
  /-- The physical address of the first frame. -/
  baseAddr : ℕ
  /-- The virtual address of the array of `Frame` structures. -/
  frames : ℕ
  /-- The number of frames. -/
  count : ℕ
  deriving DecidableEq, Repr

/-- The region that `memory::init` chooses: the first one whose base is at or above
the start of the kernel image. -/
def freeMemoryRegion (kernel : KernelAddresses) (areas : List MemoryArea) : Option Region :=
  (adapterIter areas).find? (fun region => kernel.physicalBegin ≤ region.baseAddr)

/-- `memory::init` up to the call of `BuddyAllocator::new`. -/
def initFrames (kernel : KernelAddresses) (layout : StructLayout) (areas : List MemoryArea) :
    Except Fault (Except MemoryError ManagedFrames) :=
  match freeMemoryRegion kernel areas with
  | none => .ok (.error .noUsableMemory)
  | some region => do
    let addrBegin ← kernel.toVirtualAddr kernel.physicalEnd
    let regionEnd ← checkedAdd region.baseAddr region.size
    let addrEnd ← kernel.toVirtualAddr regionEnd
    let allocator ← EarlyAllocator.new addrBegin addrEnd
    let ((frames, count), allocator) ← allocateFrames allocator layout
    let baseAddr ← kernel.toPhysicalAddr allocator.addrBegin
    return .ok ⟨baseAddr, frames, count⟩

/-- All bytes from `lo` up to `hi` belong to the region. -/
def Region.Covers (region : Region) (lo hi : ℕ) : Prop :=
  ∀ x, lo ≤ x → x < hi → region.baseAddr ≤ x ∧ x < region.baseAddr + region.size

/-- Every managed frame lies inside a region of the list, and so does the array of
`Frame` structures in front of the frames. -/
def ManagedFrames.Usable (managed : ManagedFrames) (kernel : KernelAddresses)
    (layout : StructLayout) (regions : List Region) : Prop :=
  (∀ i < managed.count, ∃ region ∈ regions, region.Covers (managed.baseAddr + i * frameSize)
    (managed.baseAddr + (i + 1) * frameSize)) ∧
  ∃ region ∈ regions, region.Covers (managed.frames - kernel.virtualOffset)
    (managed.frames - kernel.virtualOffset + layout.size * managed.count)

/-- Everything a returning `init` did: the array and the frames lie between the end of
the kernel image and the end of the chosen region. -/
theorem initFrames_spec {kernel : KernelAddresses} {layout : StructLayout}
    {areas : List MemoryArea} {managed : ManagedFrames}
    (h : initFrames kernel layout areas = .ok (.ok managed)) :
    ∃ region, freeMemoryRegion kernel areas = some region ∧
      kernel.physicalEnd ≤ managed.frames - kernel.virtualOffset ∧
      managed.frames - kernel.virtualOffset + layout.size * managed.count ≤ managed.baseAddr ∧
      managed.baseAddr + managed.count * frameSize ≤ region.baseAddr + region.size := by
  unfold initFrames at h
  cases hregion : freeMemoryRegion kernel areas with
  | none =>
    simp only [hregion, Except.ok.injEq, reduceCtorEq] at h
  | some region =>
    rw [hregion] at h
    obtain ⟨addrBegin, hbegin, h⟩ := Except.bind_eq_ok.mp h
    obtain ⟨regionEnd, hregionEnd, h⟩ := Except.bind_eq_ok.mp h
    obtain ⟨addrEnd, hend, h⟩ := Except.bind_eq_ok.mp h
    obtain ⟨allocator, hnew, h⟩ := Except.bind_eq_ok.mp h
    obtain ⟨⟨⟨frames, count⟩, next⟩, hframes, h⟩ := Except.bind_eq_ok.mp h
    obtain ⟨baseAddr, hbase, h⟩ := Except.bind_eq_ok.mp h
    cases h
    obtain ⟨-, -, hnew⟩ := Except.bind_eq_ok.mp hnew
    cases hnew
    obtain ⟨-, rfl⟩ := checkedAdd_eq_ok.mp hbegin
    obtain ⟨-, rfl⟩ := checkedAdd_eq_ok.mp hregionEnd
    obtain ⟨-, rfl⟩ := checkedAdd_eq_ok.mp hend
    obtain ⟨hle, rfl⟩ := checkedSub_eq_ok.mp hbase
    obtain ⟨hfront, harray, hlast, -⟩ := allocateFrames_spec hframes
    simp only at hfront hlast ⊢
    exact ⟨region, rfl, by omega, by omega, by omega⟩

/-- An interval inside a region is covered by it. -/
theorem Region.covers_of_le {region : Region} {lo hi : ℕ} (hlo : region.baseAddr ≤ lo)
    (hhi : hi ≤ region.baseAddr + region.size) : region.Covers lo hi :=
  fun _ hx hy => ⟨by omega, by omega⟩

/-- Frame `i` ends at or before the end of all `count` frames. -/
theorem frame_end_le {i count : ℕ} (h : i < count) : (i + 1) * frameSize ≤ count * frameSize :=
  Nat.mul_le_mul_right _ h

/-- If some byte of the managed frames belongs to no region, the property fails: the
frame around that byte lies in no region. -/
theorem ManagedFrames.not_usable_of_hole {managed : ManagedFrames} {kernel : KernelAddresses}
    {layout : StructLayout} {regions : List Region} {x : ℕ} (hlo : managed.baseAddr ≤ x)
    (hhi : x < managed.baseAddr + managed.count * frameSize)
    (hhole : ∀ region ∈ regions, ¬region.Covers x (x + 1)) :
    ¬managed.Usable kernel layout regions := by
  intro husable
  let i := (x - managed.baseAddr) / frameSize
  have hmod := Nat.div_add_mod' (x - managed.baseAddr) frameSize
  have hlt := Nat.mod_lt (x - managed.baseAddr) (show 0 < frameSize by decide)
  have hi : i < managed.count := by
    apply Nat.div_lt_of_lt_mul
    rw [Nat.mul_comm]
    omega
  obtain ⟨r, hr, hcovers⟩ := husable.1 i hi
  refine hhole r hr (fun y hy hy' => hcovers y ?_ ?_)
  · dsimp only [i]
    omega
  · dsimp only [i]
    rw [Nat.add_mul]
    omega

/-- Only usable memory is managed whenever the chosen region does not end behind the
region that holds the kernel. Where it does, and the first byte behind the region of
the kernel is a managed byte that no region contains, the property fails. -/
theorem initFrames_usable {kernel : KernelAddresses} {layout : StructLayout}
    {areas : List MemoryArea} {managed : ManagedFrames} {region home : Region}
    (hhome : home ∈ adapterIter areas) (hbegin : home.baseAddr ≤ kernel.physicalBegin)
    (himage : kernel.physicalBegin ≤ kernel.physicalEnd)
    (hregion : freeMemoryRegion kernel areas = some region)
    (h : initFrames kernel layout areas = .ok (.ok managed)) :
    (region.baseAddr + region.size ≤ home.baseAddr + home.size →
      managed.Usable kernel layout (adapterIter areas)) ∧
    (managed.baseAddr ≤ home.baseAddr + home.size →
      home.baseAddr + home.size < managed.baseAddr + managed.count * frameSize →
      (∀ r ∈ adapterIter areas, ¬r.Covers (home.baseAddr + home.size)
        (home.baseAddr + home.size + 1)) →
      ¬managed.Usable kernel layout (adapterIter areas)) := by
  obtain ⟨chosen, hchosen, harray, hframes, hend⟩ := initFrames_spec h
  obtain rfl : chosen = region := Option.some.inj (hchosen.symm.trans hregion)
  constructor
  · intro hinside
    refine ⟨fun i hi => ⟨home, hhome, Region.covers_of_le (by omega) ?_⟩,
      home, hhome, Region.covers_of_le (by omega) (by omega)⟩
    have := frame_end_le hi
    omega
  · exact ManagedFrames.not_usable_of_hole

/-- The kernel of the linker script with an image of one megabyte. -/
def sampleKernel : KernelAddresses :=
  ⟨0x100000, 0x200000, 0xFFFF800000100000, 0xFFFF800000000000⟩

/-- A `Frame` of forty bytes, aligned to eight. -/
def sampleLayout : StructLayout := ⟨40, 3, by decide⟩

/-- The usual map of a personal computer: the region above one megabyte starts where
the kernel starts. -/
theorem initFrames_usable_pc :
    (ManagedFrames.mk 2404352 18446603336223293440 7605).Usable sampleKernel sampleLayout
      (adapterIter [⟨0, 0x9F000⟩, ⟨0x100000, 0x1F00000⟩]) :=
  (initFrames_usable
    (show (⟨0x100000, 0x1F00000, .free⟩ : Region) ∈ adapterIter _ by decide) (by decide) (by decide)
    (show freeMemoryRegion _ _ = some ⟨0x100000, 0x1F00000, .free⟩ by decide)
    (by decide +kernel)).1 (by decide)

/-- A region that starts below the kernel is passed over: with the kernel inside the
first of two regions, the frames between the two regions are managed as well. -/
theorem initFrames_not_usable :
    ¬∀ (kernel : KernelAddresses) (layout : StructLayout) (areas : List MemoryArea)
      (managed : ManagedFrames),
      areas.Pairwise (fun a b => a.startAddress + a.size ≤ b.startAddress ∨
        b.startAddress + b.size ≤ a.startAddress) →
      (∃ home ∈ adapterIter areas, home.baseAddr ≤ kernel.physicalBegin ∧
        kernel.physicalBegin ≤ kernel.physicalEnd ∧
        kernel.physicalEnd ≤ home.baseAddr + home.size) →
      initFrames kernel layout areas = .ok (.ok managed) →
      managed.Usable kernel layout (adapterIter areas) := by
  intro h
  have husable := h sampleKernel sampleLayout [⟨0, 0x400000⟩, ⟨0x800000, 0x400000⟩]
    ⟨2199552, 18446603336223293440, 2535⟩ (by decide)
    ⟨⟨0, 0x400000, .free⟩, by decide, by decide, by decide, by decide⟩ (by decide +kernel)
  refine ManagedFrames.not_usable_of_hole (x := 0x400000) (by decide) (by decide) ?_ husable
  intro region hmem hcovers
  have hx := hcovers 0x400000 (by decide) (by decide)
  simp only [adapterIter, MemoryArea.toRegion, List.map_cons, List.map_nil, List.mem_cons,
    List.not_mem_nil, or_false] at hmem
  rcases hmem with rfl | rfl
  · exact absurd hx.2 (by decide)
  · exact absurd hx.1 (by decide)

end Axel
