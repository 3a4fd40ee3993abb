import Axel.Memory.GlobalAllocator
import Axel.Memory.Region
import Axel.Paging.BootCode
import Axel.Paging.Init

/-!
# The initialisation of the memory

`memory::init` puts the parts together: it takes the free memory behind the kernel, hands its
frames to the buddy allocator, builds the page tables of the kernel, maps a block of frames for
the heap, and tries the heap with one `Box`.
-/

namespace Axel

open ActivePageTable

/-- The addresses that `paging::init` reads. -/
def KernelAddresses.addrs (self : KernelAddresses) : KernelAddrs :=
  ⟨self.virtualBegin, self.physicalBegin, self.physicalEnd, self.virtualOffset⟩

/-- `BuddyAllocator::allocate`, as code that runs on the machine. -/
def allocateBlock (requestOrder : ℕ) : Kernel (BuddyAllocator Frame) (Option Frame) := fun s =>
  match s.allocator.allocate requestOrder with
  | .ok (obj, allocator) => .ok (obj.map allocator.objs) { s with allocator }
  | .error fault => .error fault s

/-- `HeapAllocator::new`: a block of the order 5 is mapped at new pages. -/
def HeapAllocator.new : Kernel (BuddyAllocator Frame) (Option HeapAllocator) := do
  andThen (← allocateBlock 5) fun frame => do
  andThen (← autoContinuousMap frame) fun (addrBegin, addrEnd) => do
  return some ⟨addrBegin, addrEnd⟩

/-- The layout of `Box<i32>`. -/
def boxLayout : Layout := ⟨4, 4, by decide, by decide, 2, rfl⟩

/-- The end of `memory::init`: a `Box` is allocated, written twice, and dropped. -/
def boxTest (heap : GlobalAllocator) : Kernel (BuddyAllocator Frame) GlobalAllocator := do
  let (ptr, heap) ← lift (heap.alloc boxLayout)
  storeDword ptr 100
  storeDword ptr 200
  lift (heap.dealloc ptr boxLayout)

/-- The part of `memory::init` after the buddy allocator exists. -/
def initHeap (kernel : KernelAddrs) (requests : List IdenticalReMapRequest) :
    Kernel (BuddyAllocator Frame) (Except MemoryError GlobalAllocator) := do
  match ← init kernel requests with
  | .error error => return .error error
  | .ok () =>
    match ← HeapAllocator.new with
    | none => return .error .noUsableMemory
    | some allocator => return .ok (← boxTest (GlobalAllocator.new.init allocator))

/-- The loop that numbers the frames. The sums stay below the end of the free memory, which
`memory::init` has computed without an overflow. -/
def numberFrames (base count : ℕ) (objs : ℕ → Frame) (i : ℕ) : Frame :=
  if i < count then (objs i).setNumber (base + i) else objs i

/-- What `memory::init` leaves: the machine with the buddy allocator, and the heap. -/
structure KernelState where
  /-- The machine. -/
  machine : Machine (BuddyAllocator Frame)
  /-- The allocator of the Rust heap. -/
  heap : GlobalAllocator

/-- `memory::init`. The objects are what the memory of the array of `Frame` structures holds.
The end of the free region is computed to be printed. -/
def memoryInit (kernel : KernelAddresses) (layout : StructLayout) (objs : ℕ → Frame)
    (areas : List MemoryArea) (requests : List IdenticalReMapRequest) (s : Machine Unit) :
    Except Fault (Except MemoryError KernelState) := do
  match ← initFrames kernel layout areas with
  | .error error => return .error error
  | .ok managed =>
    let size ← checkedMul managed.count frameSize
    let _ ← checkedAdd managed.baseAddr size
    let base := managed.baseAddr / frameSize
    let bman ← BuddyAllocator.new managed.baseAddr (numberFrames base managed.count objs)
      managed.count
    let kernel := { kernel with physicalEnd := managed.baseAddr }
    match initHeap kernel.addrs requests ⟨s.mem, s.cr3, bman, s.trace⟩ with
    | .ok (.ok heap) machine => return .ok ⟨machine, heap⟩
    | .ok (.error error) _ => return .error error
    | .error fault _ => throw fault

/-! ## What a returning initialisation did -/

/-- The frames of the buddy allocator start at a multiple of the frame size, and their last
byte has an address in the kernel. -/
theorem initFrames_placed {kernel : KernelAddresses} {layout : StructLayout}
    {areas : List MemoryArea} {managed : ManagedFrames}
    (hoffset : frameSize ∣ kernel.virtualOffset)
    (h : initFrames kernel layout areas = .ok (.ok managed)) :
    frameSize ∣ managed.baseAddr ∧ kernel.physicalEnd ≤ managed.baseAddr ∧
      managed.baseAddr + managed.count * frameSize + kernel.virtualOffset < usizeCount := by
  unfold initFrames at h
  cases hregion : freeMemoryRegion kernel areas with
  | none => simp only [hregion, Except.ok.injEq, reduceCtorEq] at h
  | some region =>
    rw [hregion] at h
    obtain ⟨addrBegin, hbegin, h⟩ := Except.bind_eq_ok.mp h
    obtain ⟨regionEnd, -, h⟩ := Except.bind_eq_ok.mp h
    obtain ⟨addrEnd, hend, h⟩ := Except.bind_eq_ok.mp h
    obtain ⟨allocator, hnew, h⟩ := Except.bind_eq_ok.mp h
    obtain ⟨⟨⟨frames, count⟩, next⟩, hframes, h⟩ := Except.bind_eq_ok.mp h
    obtain ⟨baseAddr, hbase, h⟩ := Except.bind_eq_ok.mp h
    cases h
    obtain ⟨-, -, hnew⟩ := Except.bind_eq_ok.mp hnew
    cases hnew
    obtain ⟨-, rfl⟩ := checkedAdd_eq_ok.mp hbegin
    obtain ⟨hlt, rfl⟩ := checkedAdd_eq_ok.mp hend
    obtain ⟨hle, rfl⟩ := checkedSub_eq_ok.mp hbase
    obtain ⟨hfront, harray, hlast, hdvd⟩ := allocateFrames_spec hframes
    simp only at hfront hlast ⊢
    exact ⟨Nat.dvd_sub hdvd hoffset, by omega, by omega⟩

/-- A frame of the array has the number of its place in physical memory. -/
theorem numberFrames_number (base : ℕ) {count i : ℕ} (objs : ℕ → Frame) (hi : i < count) :
    (numberFrames base count objs i).number = base + i := by
  rw [numberFrames, if_pos hi]
  rfl

/-- A store that returned changed the frame of its address only. -/
theorem storeDword_returned {α : Type} {s s' : Machine α} {addr : ℕ} {value : BitVec 32} {u : Unit}
    (h : storeDword addr value s = .ok u s') :
    ∃ frame, s.resolve addr = .ok frame ∧ (∀ f, f ≠ frame → s'.mem f = s.mem f) ∧
      s'.cr3 = s.cr3 ∧ s'.allocator = s.allocator := by
  unfold storeDword at h
  split at h
  case h_1 frame hresolve =>
    obtain ⟨-, rfl⟩ := EStateM.Result.ok.inj h
    refine ⟨frame, hresolve, fun f hf => ?_, rfl, rfl⟩
    have hframe : (frame * frameSize + addr % frameSize) / 4 / 1024 = frame := by
      unfold frameSize
      omega
    funext i
    refine Memory.set_of_ne _ _ (Or.inl ?_)
    rwa [hframe]
  case h_2 => cases h

/-- A heap that is tried with a `Box` writes to its first bytes and loses four of them. -/
theorem boxTest_ok {s s' : Machine (BuddyAllocator Frame)} {allocator : HeapAllocator}
    {heap : GlobalAllocator}
    (h : boxTest (GlobalAllocator.new.init allocator) s = .ok heap s') :
    heap = ⟨some { allocator with addrBegin := allocator.addrBegin + 4 }⟩ ∧
      ∃ s₁, storeDword allocator.addrBegin 100 s = .ok () s₁ ∧
        storeDword allocator.addrBegin 200 s₁ = .ok () s' := by
  obtain ⟨⟨ptr, heap₁⟩, halloc, h⟩ := lift_bind_eq_ok.mp h
  obtain ⟨u₁, s₁, hfirst, h⟩ := bind_eq_ok.mp h
  obtain ⟨u₂, s₂, hsecond, h⟩ := bind_eq_ok.mp h
  obtain ⟨hdealloc, rfl⟩ := lift_eq_ok.mp h
  obtain ⟨⟨ptr', next⟩, hptr, halloc⟩ := Except.bind_eq_ok.mp halloc
  cases ptr' with
  | none => cases halloc
  | some ptr' =>
    obtain ⟨rfl, rfl⟩ := Prod.mk.inj (Except.ok.inj halloc)
    obtain ⟨_, -, hptr⟩ := Except.bind_eq_ok.mp hptr
    obtain ⟨stop, hstop, hptr⟩ := Except.bind_eq_ok.mp hptr
    split at hptr
    case isTrue => cases hptr
    case isFalse =>
      obtain ⟨addrBegin, hbegin, hptr⟩ := Except.bind_eq_ok.mp hptr
      obtain ⟨-, rfl⟩ := checkedAdd_eq_ok.mp hbegin
      obtain ⟨hsame, rfl⟩ := Prod.mk.inj (Except.ok.inj hptr)
      obtain rfl := Option.some.inj hsame
      exact ⟨(Except.ok.inj hdealloc).symm, s₁, hfirst, hsecond⟩

/-- A returning `memory::init` handed the frames behind the kernel to the buddy allocator, built
the page tables and mapped the heap. -/
theorem memoryInit_ok {kernel : KernelAddresses} {layout : StructLayout} {objs : ℕ → Frame}
    {areas : List MemoryArea} {requests : List IdenticalReMapRequest} {s : Machine Unit}
    {k : KernelState} (h : memoryInit kernel layout objs areas requests s = .ok (.ok k)) :
    ∃ managed bman s₁ allocator s₂, initFrames kernel layout areas = .ok (.ok managed) ∧
      BuddyAllocator.new managed.baseAddr
        (numberFrames (managed.baseAddr / frameSize) managed.count objs) managed.count = .ok bman ∧
      init { kernel with physicalEnd := managed.baseAddr }.addrs requests
        ⟨s.mem, s.cr3, bman, s.trace⟩ = .ok (.ok ()) s₁ ∧
      HeapAllocator.new s₁ = .ok (some allocator) s₂ ∧
      boxTest (GlobalAllocator.new.init allocator) s₂ = .ok k.heap k.machine := by
  obtain ⟨result, hframes, h⟩ := Except.bind_eq_ok.mp h
  cases result with
  | error error => cases h
  | ok managed =>
    obtain ⟨size, -, h⟩ := Except.bind_eq_ok.mp h
    obtain ⟨limit, -, h⟩ := Except.bind_eq_ok.mp h
    obtain ⟨bman, hnew, h⟩ := Except.bind_eq_ok.mp h
    simp only at h
    split at h
    case h_1 heap machine hrun =>
      obtain rfl := Except.ok.inj (Except.ok.inj h)
      obtain ⟨result, s₁, hinit, hrun⟩ := bind_eq_ok.mp hrun
      cases result with
      | error error => cases hrun
      | ok u =>
        obtain ⟨found, s₂, hheap, hrun⟩ := bind_eq_ok.mp hrun
        cases found with
        | none => cases hrun
        | some allocator =>
          obtain ⟨heap', s₃, htest, hrun⟩ := bind_eq_ok.mp hrun
          obtain ⟨hsame, rfl⟩ := EStateM.Result.ok.inj hrun
          obtain rfl := Except.ok.inj hsame
          exact ⟨managed, bman, s₁, allocator, s₂, hframes, hnew, hinit, hheap, htest⟩
    case h_2 => cases h
    case h_3 => cases h

end Axel
