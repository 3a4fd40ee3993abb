import Axel.Paging.Table

/-!
# Initialisation of the page tables

`paging::init` tests the boot tables, builds a new table that maps the requested frames and
the kernel, and switches to it. The addresses of the kernel come from the linker script and
from the memory initialisation, so they are parameters.
-/

namespace Axel

open Table ActivePageTable

variable {α : Type}

/-- The addresses of the kernel that `paging::init` reads. -/
structure KernelAddrs where
  /-- `kernel_addr_begin_virtual()`. -/
  virtualBegin : ℕ
  /-- `kernel_addr_begin_physical()`. -/
  physicalBegin : ℕ
  /-- `kernel_addr_end_physical()`. -/
  physicalEnd : ℕ
  /-- The address of `KERNEL_ADDR_VIRTUAL_OFFSET`. -/
  virtualOffset : ℕ

/-- `ToVirtualAddr::to_virtual_addr`. -/
def KernelAddrs.toVirtualAddr (self : KernelAddrs) (addr : ℕ) : Except Fault ℕ :=
  checkedAdd addr self.virtualOffset

/-- `IdenticalReMapRequest`. -/
structure IdenticalReMapRequest where
  /-- The physical address of the first frame. -/
  addr : ℕ
  /-- The number of frames. -/
  count : ℕ

variable [FrameAllocator α]

/-- The inner loop of the closure in `paging::init`, over the remaining frames of a request. -/
def remapFrom (kernel : KernelAddrs) (addr : ℕ) : ℕ → ℕ → Kernel α (Except TableError Unit)
  | 0, _ => return .ok ()
  | remaining + 1, i => do
    let addr' ← lift (checkedAdd addr (← lift (checkedMul i frameSize)))
    let page := Page.fromAddress (← lift (kernel.toVirtualAddr addr'))
    let frame := Frame.fromAddress addr'
    match ← map page frame with
    | .ok () => remapFrom kernel addr remaining (i + 1)
    | .error error => return .error error

/-- The outer loop of the closure in `paging::init`, over the remaining requests. -/
def remapRequests (kernel : KernelAddrs) :
    List IdenticalReMapRequest → Kernel α (Except TableError Unit)
  | [] => return .ok ()
  | request :: rest => do
    match ← remapFrom kernel request.addr request.count 0 with
    | .ok () => remapRequests kernel rest
    | .error error => return .error error

/-- The closure in `paging::init`. -/
def remap (kernel : KernelAddrs) (kernelEnd : ℕ) (requests : List IdenticalReMapRequest) :
    Kernel α (Except TableError Unit) := do
  match ← remapRequests kernel requests with
  | .ok () =>
    mapFitting (kernel.virtualBegin, kernelEnd) (kernel.physicalBegin, kernel.physicalEnd)
  | .error error => return .error error

/-- `paging::runtime_test`. The slice of the page has 1024 elements of type `i32`, two in each
word, and all of them become 1. -/
def runtimeTest : Kernel α (Except MemoryError Unit) := do
  match ← allocOne with
  | none => return .error .noUsableMemory
  | some frame =>
    let page := Page.fromAddress 0x200000
    match ← map page frame with
    | .error error => return .error (.pageTable error)
    | .ok () =>
      fillEntries (← lift page.address) ⟨0x0000000100000001⟩ (List.finRange 512)
      match ← unmap page with
      | .error error => return .error (.pageTable error)
      | .ok () => return .ok ()

/-- The part of `paging::init` after the runtime test. The difference that is printed is
computed as well. -/
def buildKernelTable (kernel : KernelAddrs) (requests : List IdenticalReMapRequest) :
    Kernel α (Except MemoryError Unit) := do
  let kernelEnd ← lift (kernel.toVirtualAddr kernel.physicalEnd)
  let _ ← lift (checkedSub kernelEnd kernel.virtualBegin)
  lift (debugAssert (kernel.virtualBegin < kernelEnd))
  lift (debugAssert (kernel.virtualBegin &&& 0xfff == 0))
  lift (debugAssert (kernelEnd &&& 0xfff == 0))
  match ← InActivePageTable.new with
  | none => return .error .noUsableMemory
  | some inactive =>
    match ← withTable inactive (remap kernel kernelEnd requests) with
    | .error error => return .error (.pageTable error)
    | .ok () =>
      let _ ← switch inactive
      return .ok ()

/-- `paging::init`. -/
def init (kernel : KernelAddrs) (requests : List IdenticalReMapRequest) :
    Kernel α (Except MemoryError Unit) := do
  match ← runtimeTest with
  | .error error => return .error error
  | .ok () => buildKernelTable kernel requests

end Axel
