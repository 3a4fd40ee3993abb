import Axel.Memory.Init
import Axel.Paging.BuddyTables
import Axel.Paging.InitTree
import Axel.Paging.MappedFrames

/-!
# The start of the kernel

The boot code calls `main`, and `main` calls `Initializer::init`. This file composes the boot
code, the memory map, the buddy allocator, the page tables and the heap, and says what the
processor reaches when the initialisation of the memory returns `Ok`: the frames of the kernel
at the addresses of the kernel, the heap, and no other ordinary address. In that state the
invariant holds that later calls of the page-table code rely on.
-/

namespace Axel

open Descent Dyadic Table ActivePageTable

/-! ## The code -/

/-- `arch::Error`. -/
inductive ArchError where
  /-- No memory map is in multiboot_info. -/
  | noMemoryMap
  /-- The memory initialization failed. -/
  | memoryInitializationFailed (inner : MemoryError)
  deriving DecidableEq, Repr

/-- `VRAM_ADDR`. -/
def vramAddr : ℕ := 0xB8000

/-- `interrupt::TABLE_ADDRESS`. -/
def tableAddress : ℕ := 0x6E000

/-- The addresses of the linker script, for an image that ends at a physical address. -/
def linkedKernel (imageEnd : ℕ) : KernelAddresses where
  physicalBegin := 0x00100000
  physicalEnd := imageEnd
  virtualBegin := 0x00100000 + kernelAddrVirtualOffset
  virtualOffset := kernelAddrVirtualOffset

/-- `argv[i]`. -/
def argument (argv : List ℕ) (i : ℕ) : Except Fault ℕ :=
  match argv[i]? with
  | some arg => .ok arg
  | none => .error .indexOutOfBounds

/-- The requests of `Initializer::init`: the kernel stack with the frame below it, the video
memory, and the table of the interrupt descriptors. -/
def initializerRequests (stack count : ℕ) : List IdenticalReMapRequest :=
  [⟨stack, count⟩, ⟨vramAddr, 1⟩, ⟨tableAddress, 1⟩]

/-- `Initializer::init` up to the call of `interrupt::init`. The memory map that the boot loader
left at an address is a parameter. -/
def initializerInit (imageEnd : ℕ) (layout : StructLayout) (objs : ℕ → Frame)
    (memoryMapTag : ℕ → Option (List MemoryArea)) (argv : List ℕ) (s : Machine Unit) :
    Except Fault (Except ArchError KernelState) := do
  let requests := initializerRequests (← argument argv 1) (← argument argv 2)
  match memoryMapTag (← argument argv 0) with
  | none => return .error .noMemoryMap
  | some areas =>
    match ← memoryInit (linkedKernel imageEnd) layout objs areas requests s with
    | .error error => return .error (.memoryInitializationFailed error)
    | .ok kernel => return .ok kernel

/-! ## Addresses and pages -/

/-- Addresses have the same indices when the low 36 bits of their page numbers agree. -/
theorem indices_eq_iff {a b : ℕ} :
    indices a = indices b ↔ a / 4096 % 2 ^ 36 = b / 4096 % 2 ^ 36 := by
  simp only [indices, tablePath, level4Index, level3Index, level2Index, level1Index,
    List.cons_append, List.nil_append, List.cons.injEq, and_true, Fin.ext_iff, indexAt_val]
  omega

/-- Canonical addresses with the same indices lie in the same page. -/
theorem Canonical.indices_eq_iff {a b : ℕ} (ha : Canonical a) (hb : Canonical b)
    (hlt : a < usizeCount) (hlt' : b < usizeCount) :
    indices a = indices b ↔ a / 4096 = b / 4096 := by
  rw [Axel.indices_eq_iff]
  unfold Canonical at ha hb
  unfold usizeCount at hlt hlt'
  omega

/-- An ordinary address resolves to the frame of its page. -/
theorem resolve_eq_ok {α : Type} {s : Machine α} {addr frame : ℕ}
    (hordinary : Ordinary (indices addr)) :
    s.resolve addr = .ok frame ↔ Canonical addr ∧ s.pages (indices addr) = some frame := by
  rw [Machine.resolve, Machine.pages, translation_of_ordinary hordinary rfl]
  by_cases hcanonical : Canonical addr
  · rw [if_pos hcanonical]
    cases walk s.mem s.cr3 (indices addr) with
    | none => simp
    | some f => simp [hcanonical]
  · rw [if_neg hcanonical]
    simp [hcanonical]

/-! ## What the kernel reaches -/

/-- The frames of the kernel: the table of the interrupt descriptors, the task state segment and
the stack behind it, the video memory, and the image with the array of frames behind it. -/
def KernelFrame (base frame : ℕ) : Prop :=
  0x6E ≤ frame ∧ frame < 0x74 ∨ frame = 0xB8 ∨ 0x100 ≤ frame ∧ frame < base

/-- The address is the one at which the kernel reaches the frame. -/
def KernelMaps (base addr frame : ℕ) : Prop :=
  KernelFrame base frame ∧ kernelAddrVirtualOffset ≤ addr ∧
    (addr - kernelAddrVirtualOffset) / 4096 = frame

/-- The page at which the kernel reaches a frame. -/
def framePage (frame : ℕ) : Page := Page.fromAddress (frame * 4096 + kernelAddrVirtualOffset)

/-- The frames of the kernel in the order in which the initialisation maps them. -/
def kernelFrames (base : ℕ) : List ℕ :=
  List.range' 0x6F 5 ++ (List.range' 0xB8 1 ++ List.range' 0x6E 1) ++
    List.range' 0x100 (base - 0x100)

/-- These are the frames of the kernel. -/
theorem mem_kernelFrames {base f : ℕ} : f ∈ kernelFrames base ↔ KernelFrame base f := by
  simp only [kernelFrames, List.mem_append, List.mem_range'_1]
  unfold KernelFrame
  omega

/-- No frame is mapped twice. -/
theorem kernelFrames_nodup (base : ℕ) : (kernelFrames base).Nodup := by
  have hfront : (List.range' 0x6F 5 ++ (List.range' 0xB8 1 ++ List.range' 0x6E 1)).Nodup := by
    decide
  have hlow : ∀ f ∈ List.range' 0x6F 5 ++ (List.range' 0xB8 1 ++ List.range' 0x6E 1),
      f < 0x100 := by decide
  refine hfront.append List.nodup_range' fun f hf hf' => ?_
  have hlt := hlow f hf
  have hle := (List.mem_range'_1.mp hf').1
  omega

/-- The call of `map` for a frame of the kernel. -/
def frameMapping (f : ℕ) : Page × Frame := (framePage f, Frame.fromAddress (f * 4096))

/-- The pages and frames of a request that starts at a frame. -/
theorem requestMappings_eq (kernel : KernelAddresses)
    (hoffset : kernel.virtualOffset = kernelAddrVirtualOffset) (n count : ℕ) :
    requestMappings kernel.addrs ⟨n * 4096, count⟩ = (List.range' n count).map frameMapping := by
  rw [requestMappings, List.range'_eq_map_range, List.map_map]
  apply List.map_congr_left
  intro i _
  show (Page.fromAddress (n * 4096 + i * 4096 + kernel.virtualOffset),
    Frame.fromAddress (n * 4096 + i * 4096)) = frameMapping (n + i)
  rw [hoffset, ← Nat.add_mul]
  rfl

/-- The pages and frames of a kernel that ends at a frame. -/
theorem kernelMappings_eq (base : ℕ) :
    kernelMappings (linkedKernel (base * 4096)).addrs =
      (List.range' 0x100 (base - 0x100)).map frameMapping := by
  have hcount : (base * 4096 + kernelAddrVirtualOffset - (0x100000 + kernelAddrVirtualOffset)) /
      4096 = base - 0x100 := by omega
  rw [List.range'_eq_map_range, List.map_map, ← hcount]
  apply List.map_congr_left
  intro i _
  have hpage : 0x100000 + kernelAddrVirtualOffset + i * 4096 =
      (0x100 + i) * 4096 + kernelAddrVirtualOffset := by omega
  have hframe : 0x100000 + i * 4096 = (0x100 + i) * 4096 := by omega
  show (Page.fromAddress (0x100000 + kernelAddrVirtualOffset + i * 4096),
    Frame.fromAddress (0x100000 + i * 4096)) = frameMapping (0x100 + i)
  rw [hpage, hframe]
  rfl

/-- The initialisation maps the frames of the kernel. -/
theorem initMappings_eq (base : ℕ) :
    initMappings (linkedKernel (base * 4096)).addrs
        (initializerRequests taskStateSegmentAddr (kernelStackFrameCount + 1)) =
      (kernelFrames base).map frameMapping := by
  have hrequests : initializerRequests taskStateSegmentAddr (kernelStackFrameCount + 1) =
      [⟨0x6F * 4096, 5⟩, ⟨0xB8 * 4096, 1⟩, ⟨0x6E * 4096, 1⟩] := rfl
  rw [initMappings, hrequests, List.flatMap_cons, List.flatMap_cons, List.flatMap_cons,
    List.flatMap_nil, List.append_nil, kernelMappings_eq, requestMappings_eq _ rfl,
    requestMappings_eq _ rfl, requestMappings_eq _ rfl, kernelFrames, List.map_append,
    List.map_append, List.map_append]

/-- The calls of `map`, by their frames. -/
theorem mem_initMappings {base : ℕ} {call : Page × Frame} :
    call ∈ initMappings (linkedKernel (base * 4096)).addrs
        (initializerRequests taskStateSegmentAddr (kernelStackFrameCount + 1)) ↔
      ∃ f, KernelFrame base f ∧ frameMapping f = call := by
  rw [initMappings_eq, List.mem_map]
  simp only [mem_kernelFrames]

/-- The number of the page of a frame of the kernel. -/
theorem framePage_number (f : ℕ) : (framePage f).number = f + 0xFFFF800000000 := by
  show (f * 4096 + 0xFFFF800000000000) / 4096 = _
  omega

/-- The page of a frame of the kernel lies below ordinary tables. -/
theorem framePage_tablePath {f : ℕ} (hf : f < 0x300) :
    TablePath (tablePath ((framePage f).number * 4096)) := by
  refine ⟨le_rfl, fun i hi => ne_recursiveSlot ?_⟩
  rw [framePage_number] at hi
  rcases List.mem_cons.mp hi with rfl | hi
  · rw [level4Index, indexAt_val]
    omega
  rcases List.mem_cons.mp hi with rfl | hi
  · rw [level3Index, indexAt_val]
    omega
  obtain rfl := List.mem_singleton.mp hi
  rw [level2Index, indexAt_val]
  omega

/-- The canonical addresses in the page of a frame of the kernel. -/
theorem framePage_indices {f addr : ℕ} (hf : f < 0x300) (hcanonical : Canonical addr)
    (hlt : addr < usizeCount) :
    (framePage f).indices = indices addr ↔
      kernelAddrVirtualOffset ≤ addr ∧ (addr - kernelAddrVirtualOffset) / 4096 = f := by
  have hpage : (framePage f).number * pageSize = f * 4096 + kernelAddrVirtualOffset := by
    rw [framePage_number]
    unfold pageSize kernelAddrVirtualOffset
    omega
  rw [Page.indices, hpage, Canonical.indices_eq_iff _ hcanonical _ hlt]
  · unfold kernelAddrVirtualOffset
    omega
  · unfold Canonical kernelAddrVirtualOffset
    omega
  · unfold usizeCount kernelAddrVirtualOffset
    omega

/-! ## From the boot tables to the heap -/

/-- The frames that the initialisation hands to the buddy allocator. -/
structure FramesBehind (imageEnd base count : ℕ) : Prop where
  /-- They lie behind the image of the kernel. -/
  image : imageEnd ≤ base * 4096
  /-- The image lies where it was linked. -/
  linked : 0x100 ≤ base
  /-- They have addresses in the kernel. -/
  limit : base + count ≤ 2 ^ 35

/-- The base address of the buddy allocator is that of its first frame. -/
theorem initFrames_behind {imageEnd : ℕ} (himage : 0x100000 ≤ imageEnd) {layout : StructLayout}
    {areas : List MemoryArea} {managed : ManagedFrames}
    (h : initFrames (linkedKernel imageEnd) layout areas = .ok (.ok managed)) :
    managed.baseAddr = managed.baseAddr / frameSize * 4096 ∧
      FramesBehind imageEnd (managed.baseAddr / frameSize) managed.count := by
  obtain ⟨hdvd, hend, hlt⟩ := initFrames_placed (show frameSize ∣ 0xFFFF800000000000 by decide) h
  have hbase := Nat.div_mul_cancel hdvd
  have hend' : imageEnd ≤ managed.baseAddr := hend
  have hlt' : managed.baseAddr + managed.count * frameSize + 0xFFFF800000000000 < usizeCount := hlt
  unfold frameSize usizeCount at *
  exact ⟨hbase.symm, by omega, by omega, by omega⟩

/-- The machine after `paging::init`: the buddy allocator manages frames behind the kernel, and
the frames of the kernel are mapped. -/
structure PagesStarted (base count : ℕ) (s : Machine (BuddyAllocator Frame)) : Prop where
  /-- The state is a first state of the frame system. -/
  start : FrameSystem.Start ⟨s, [], []⟩ base count
  /-- The kernel and the array of frames end before the last page of the first level-1 table, whose
  entry the table itself takes up. -/
  small : base < 0x200
  /-- The pages. -/
  pages_iff : ∀ ix f, s.pages ix = some f ↔ KernelFrame base f ∧ (framePage f).indices = ix

/-- The frames of the boot tables are apart from those of the buddy allocator. -/
theorem buddyReturning_serves {a : BuddyAllocator Frame} {base count : ℕ} (hbase : 0x100 ≤ base)
    (h : a.Manages base count) : (buddyReturning base count {1, 3}).Serves a {1, 3} := by
  have hapart : ∀ x, base + x ∉ ({1, 3} : Set ℕ) := by
    rintro x (hone | hthree)
    · omega
    · rw [Set.mem_singleton_iff] at hthree
      omega
  exact ⟨h, fun x _ => hapart x, fun x _ hx => absurd hx (hapart x),
    fun n hn hout => absurd hn hout⟩

/-- `paging::init` on the boot tables, with a new buddy allocator. -/
theorem BootTables.pagesStarted {s : Machine (BuddyAllocator Frame)} (hboot : BootTables s)
    {imageEnd base count : ℕ} (hbehind : FramesBehind imageEnd base count)
    (hmanages : s.allocator.Manages base count) {s' : Machine (BuddyAllocator Frame)}
    (hrun : init (linkedKernel (base * 4096)).addrs
      (initializerRequests taskStateSegmentAddr (kernelStackFrameCount + 1)) s = .ok (.ok ()) s') :
    PagesStarted base count s' := by
  have hlinked := hbehind.linked
  obtain ⟨hsize, used, htree, htranslation⟩ := hboot.init_tree
    (buddyReturning_serves hlinked hmanages) (fun hsize call hcall => by
      obtain ⟨f, hf, rfl⟩ := mem_initMappings.mp hcall
      have hsmall : base * 4096 + kernelAddrVirtualOffset - (0x100000 + kernelAddrVirtualOffset) <
        2 * 1024 * 1024 := hsize
      apply framePage_tablePath
      rcases hf with hf | hf | hf <;> omega) hrun
  have hsmall : base * 4096 + kernelAddrVirtualOffset - (0x100000 + kernelAddrVirtualOffset) <
    2 * 1024 * 1024 := hsize
  have hpages : ∀ ix f, s'.pages ix = some f ↔
      KernelFrame base f ∧ (framePage f).indices = ix := by
    intro ix f
    rw [Machine.pages, htranslation]
    constructor
    · rintro ⟨call, hcall, hix, hnumber⟩
      obtain ⟨f', hf', rfl⟩ := mem_initMappings.mp hcall
      obtain rfl : f' = f := (Nat.mul_div_cancel f' (by decide)).symm.trans hnumber
      exact ⟨hf', hix⟩
    · rintro ⟨hf, hix⟩
      exact ⟨_, mem_initMappings.mpr ⟨f, hf, rfl⟩, hix, Nat.mul_div_cancel f (by decide)⟩
  have hbase : base < 0x200 := by
    by_contra hlarge
    have hlast := (hpages _ 0x1FF).mpr ⟨Or.inr (Or.inr ⟨by omega, by omega⟩), rfl⟩
    have hslot : recursiveSlot ∈ (framePage 0x1FF).indices := by decide +kernel
    exact ordinary_of_translation hlast _ hslot rfl
  obtain ⟨hmanages', hspares, -, hinside⟩ := htree.serves
  have hkernel : ∀ f, KernelFrame base f → f ≠ 1 ∧ f ≠ 3 ∧ f < base := by
    rintro f (hf | hf | hf) <;> omega
  refine ⟨⟨⟨htree.window, htree.tree, ?_⟩, hmanages', ?_, ?_, rfl, rfl⟩, hbase, hpages⟩
  · rw [Set.disjoint_left]
    rintro f ⟨ix, hix⟩ htable
    obtain ⟨hone, hthree, hlt⟩ := hkernel f ((hpages ix f).mp hix).1
    have hin := hinside f (Or.inr htable) (by simp [hone, hthree])
    omega
  · exact fun x hx hin => hspares x hx (Or.inr hin)
  · intro ix j hj hix
    have hlt := (hkernel _ ((hpages ix _).mp hix).1).2.2
    omega

/-- The pages of a heap that begins at an address. -/
def heapPages (heapBegin : ℕ) : List Page :=
  (List.range (2 ^ 5)).map fun i => Page.fromAddress (heapBegin + i * 4096)

/-- The machine after `HeapAllocator::new`: the pages of the heap are mapped to a block of frames
of the buddy allocator. -/
structure HeapStarted (base count heapFrame : ℕ) (heap : HeapAllocator)
    (s s' : Machine (BuddyAllocator Frame)) : Prop where
  /-- The invariant of the frame system. -/
  invariant : FrameSystem.Invariant ⟨s', [], heapPages heap.addrBegin⟩ base count
  /-- The heap has 32 pages. -/
  addrEnd : heap.addrEnd = heap.addrBegin + 2 ^ 5 * 4096
  /-- They are the ones that a search found. -/
  found : ∃ i4, i4 ≠ recursiveSlot ∧ heap.addrBegin = (foundPage i4).number * 4096
  /-- The block of frames. -/
  block : base ≤ heapFrame ∧ heapFrame + 2 ^ 5 ≤ base + count
  /-- The pages. -/
  pages_iff : ∀ ix f, s'.pages ix = some f ↔ s.pages ix = some f ∨
    ∃ i < 2 ^ 5, (Page.fromAddress (heap.addrBegin + i * 4096)).indices = ix ∧ heapFrame + i = f

/-- `HeapAllocator::new` allocates a block and maps it. -/
theorem HeapAllocator.new_calls {s s' : Machine (BuddyAllocator Frame)} {heap : HeapAllocator}
    (hrun : HeapAllocator.new s = .ok (some heap) s') :
    ∃ x allocator, s.allocator.allocate 5 = .ok (some x, allocator) ∧
      autoContinuousMap (allocator.objs x) { s with allocator } =
        .ok (some (heap.addrBegin, heap.addrEnd)) s' := by
  obtain ⟨block, s₁, hallocate, hrun⟩ := bind_eq_ok.mp hrun
  unfold allocateBlock at hallocate
  split at hallocate
  case h_1 obj allocator hsome =>
    obtain ⟨rfl, rfl⟩ := EStateM.Result.ok.inj hallocate
    cases obj with
    | none => cases hrun
    | some x =>
      obtain ⟨range, s₂, hmap, hrun⟩ := bind_eq_ok.mp hrun
      cases range with
      | none => cases hrun
      | some range =>
        obtain ⟨hsame, rfl⟩ := EStateM.Result.ok.inj hrun
        obtain rfl := Option.some.inj hsame
        exact ⟨x, allocator, hsome, hmap⟩
  case h_2 => cases hallocate

/-- `HeapAllocator::new` in a first state of the frame system. -/
theorem FrameSystem.Start.heapStarted {s s' : Machine (BuddyAllocator Frame)} {base count : ℕ}
    (h : FrameSystem.Start ⟨s, [], []⟩ base count) {heap : HeapAllocator}
    (hrun : HeapAllocator.new s = .ok (some heap) s') :
    ∃ heapFrame, HeapStarted base count heapFrame heap s s' := by
  obtain ⟨x, allocator, hallocate, hmap⟩ := HeapAllocator.new_calls hrun
  have hcall : FrameSystem.call ⟨s, [], []⟩ (.allocate 5) =
      .ok ⟨{ s with allocator }, [⟨x, 5⟩], []⟩ := by
    simp only [FrameSystem.call, hallocate, bind, Except.bind, pure, Except.pure]
  have h₁ := h.invariant.call_allocate hcall
  have hheld : (⟨x, 5⟩ : Block) ∈ [(⟨x, 5⟩ : Block)] := List.mem_singleton_self _
  obtain ⟨hnumber, horder⟩ := h₁.frame_eq hheld
  change (allocator.objs x).number = base + x at hnumber
  change (allocator.objs x).order = 5 at horder
  have hrange : x + 2 ^ 5 ≤ count := h₁.inRange _ hheld
  obtain ⟨s₁, htree₁, hcr3₁, hsame₁, ⟨hnone, -⟩ | ⟨i4, limit, hsome, hi4, -, hmaps⟩⟩ :=
    h₁.tree.autoContinuousMap_returned hmap
  · cases hnone
  obtain ⟨hbegin, -⟩ := Prod.mk.inj (Option.some.inj hsome)
  have hcall' : FrameSystem.call ⟨{ s with allocator }, [⟨x, 5⟩], []⟩ (.autoContinuousMap ⟨x, 5⟩) =
      .ok ⟨s', [], heapPages heap.addrBegin⟩ := by
    have hmap' : autoContinuousMap (FrameSystem.frame ⟨{ s with allocator }, [⟨x, 5⟩], []⟩ ⟨x, 5⟩)
        { s with allocator } = .ok (some (heap.addrBegin, heap.addrEnd)) s' := hmap
    simp only [FrameSystem.call, hmap', List.erase_cons_head, List.append_nil, heapPages]
  obtain ⟨hnone, -⟩ | ⟨page, s₂, -, -, hend⟩ := (Axel.autoContinuousMap_returned hmap).2
  · cases hnone
  obtain ⟨hpage, hend⟩ := Prod.mk.inj (Option.some.inj hend)
  rw [horder, ← hpage] at hend
  rw [hnumber, horder, ← hbegin] at hmaps
  obtain ⟨-, hconfined, htranslation⟩ := htree₁.mapAll (by
    intro call hcall
    obtain ⟨i, hi, rfl⟩ := List.mem_map.mp hcall
    rw [List.mem_range] at hi
    rw [hbegin]
    exact foundPage_tablePath hi4 (by omega)) hmaps
  refine ⟨base + x, h₁.call_autoContinuousMap hheld hcall', hend, ⟨i4, hi4, hbegin⟩,
    ⟨Nat.le_add_right base x, by omega⟩, fun ix f => ?_⟩
  have hcr3 : s'.cr3 = s.cr3 := hconfined.cr3.trans hcr3₁
  rw [Machine.pages, hcr3, htranslation, hsame₁]
  apply or_congr Iff.rfl
  constructor
  · rintro ⟨call, hcall, hix, hf⟩
    obtain ⟨i, hi, rfl⟩ := List.mem_map.mp hcall
    exact ⟨i, List.mem_range.mp hi, hix, (fromAddress_add _ _).symm.trans hf⟩
  · rintro ⟨i, hi, hix, hf⟩
    exact ⟨_, List.mem_map.mpr ⟨i, List.mem_range.mpr hi, rfl⟩, hix, (fromAddress_add _ _).trans hf⟩

/-- A store to an ordinary address keeps the invariant of the frame system and all pages: the
frame of a page is no table. -/
theorem FrameSystem.Invariant.storeDword {σ : FrameSystem} {base count : ℕ}
    (h : σ.Invariant base count) {addr : ℕ} (hordinary : Ordinary (indices addr))
    {value : BitVec 32} {u : Unit} {s' : Machine (BuddyAllocator Frame)}
    (hrun : Axel.storeDword addr value σ.machine = .ok u s') :
    Invariant ⟨s', σ.held, σ.mapped⟩ base count ∧ s'.pages = σ.machine.pages ∧
      s'.cr3 = σ.machine.cr3 := by
  obtain ⟨frame, hresolve, hsame, hcr3, hallocator⟩ := storeDword_returned hrun
  obtain ⟨-, hmapped⟩ := (resolve_eq_ok hordinary).mp hresolve
  have htables : ∀ f ∈ tables σ.machine.mem σ.machine.cr3, s'.mem f = σ.machine.mem f := by
    intro f hf
    apply hsame
    rintro rfl
    exact Set.disjoint_left.mp h.tree.apart (Or.inl ⟨_, hmapped⟩) hf
  obtain ⟨htree, htranslation⟩ := h.tree.switched hcr3 htables hallocator
  refine ⟨h.of_same htree hcr3 htranslation, ?_, hcr3⟩
  rw [Machine.pages, hcr3, htranslation]
  rfl

/-! ## The state after the start -/

/-- The address lies in the heap and translates to the frame. -/
def HeapMaps (heapBegin heapFrame addr frame : ℕ) : Prop :=
  heapBegin ≤ addr ∧ addr < heapBegin + 2 ^ 5 * 4096 ∧ frame = heapFrame + (addr - heapBegin) / 4096

/-- The state in which the initialisation of the memory leaves the kernel. -/
structure Started (k : KernelState) (imageEnd base count heapFrame heapBegin : ℕ) : Prop where
  /-- The frames of the buddy allocator. -/
  behind : FramesBehind imageEnd base count
  /-- The kernel with the array of frames ends before the last page of its level-1 table. -/
  small : base < 0x200
  /-- The frames of the heap are among them. -/
  block : base ≤ heapFrame ∧ heapFrame + 2 ^ 5 ≤ base + count
  /-- The heap is in the lower half of the addresses. -/
  lower : heapBegin + 2 ^ 5 * 4096 ≤ 2 ^ 47
  /-- It begins at a page. -/
  aligned : 4096 ∣ heapBegin
  /-- The invariant of the frame system. -/
  invariant : FrameSystem.Invariant ⟨k.machine, [], heapPages heapBegin⟩ base count
  /-- The heap has handed out one `Box`. -/
  heap : k.heap = ⟨some ⟨heapBegin + 4, heapBegin + 2 ^ 5 * 4096⟩⟩
  /-- The pages of the kernel and of the heap. -/
  pages_iff : ∀ ix f, k.machine.pages ix = some f ↔
    (KernelFrame base f ∧ (framePage f).indices = ix) ∨
    ∃ i < 2 ^ 5, (Page.fromAddress (heapBegin + i * 4096)).indices = ix ∧ heapFrame + i = f
  /-- The ordinary addresses that the processor reaches. -/
  resolve_iff : ∀ addr < usizeCount, Ordinary (indices addr) → ∀ frame,
    k.machine.resolve addr = .ok frame ↔
      KernelMaps base addr frame ∨ HeapMaps heapBegin heapFrame addr frame

/-- The addresses in the pages of the heap. -/
theorem heapPage_indices {heapBegin heapFrame addr frame : ℕ} (hbegin : 4096 ∣ heapBegin)
    (hlower : heapBegin + 2 ^ 5 * 4096 ≤ 2 ^ 47) (hcanonical : Canonical addr)
    (hlt : addr < usizeCount) :
    (∃ i < 2 ^ 5, (Page.fromAddress (heapBegin + i * 4096)).indices = indices addr ∧
      heapFrame + i = frame) ↔ HeapMaps heapBegin heapFrame addr frame := by
  have hpage : ∀ i < 2 ^ 5, (Page.fromAddress (heapBegin + i * 4096)).indices = indices addr ↔
      heapBegin / 4096 + i = addr / 4096 := by
    intro i hi
    have hnumber : (Page.fromAddress (heapBegin + i * 4096)).number * pageSize =
        heapBegin + i * 4096 := Nat.div_mul_cancel (Nat.dvd_add hbegin (Nat.dvd_mul_left _ _))
    rw [Page.indices, hnumber, Canonical.indices_eq_iff (Or.inl (by omega)) hcanonical _ hlt]
    · omega
    · unfold usizeCount
      omega
  unfold HeapMaps
  constructor
  · rintro ⟨i, hi, hix, rfl⟩
    rw [hpage i hi] at hix
    omega
  · rintro ⟨hle, hlt, rfl⟩
    exact ⟨(addr - heapBegin) / 4096, by omega, (hpage _ (by omega)).mpr (by omega), rfl⟩

/-- With the arguments of the boot code, `Initializer::init` initialises the memory with the memory
map of the boot loader. -/
theorem initializerInit_ok {imageEnd info : ℕ} {layout : StructLayout} {objs : ℕ → Frame}
    {memoryMapTag : ℕ → Option (List MemoryArea)} {s : Machine Unit} {k : KernelState}
    (hrun : initializerInit imageEnd layout objs memoryMapTag (mainArguments info) s =
      .ok (.ok k)) :
    ∃ areas, memoryMapTag (info + kernelAddrVirtualOffset) = some areas ∧
      memoryInit (linkedKernel imageEnd) layout objs areas
        (initializerRequests taskStateSegmentAddr (kernelStackFrameCount + 1)) s = .ok (.ok k) := by
  obtain ⟨stack, hstack, hrun⟩ := Except.bind_eq_ok.mp hrun
  obtain rfl : taskStateSegmentAddr = stack := Except.ok.inj hstack
  obtain ⟨count, hcount, hrun⟩ := Except.bind_eq_ok.mp hrun
  obtain rfl : kernelStackFrameCount + 1 = count := Except.ok.inj hcount
  obtain ⟨multiboot, hmultiboot, hrun⟩ := Except.bind_eq_ok.mp hrun
  obtain rfl : info + kernelAddrVirtualOffset = multiboot := Except.ok.inj hmultiboot
  cases htag : memoryMapTag (info + kernelAddrVirtualOffset) with
  | none =>
    simp only [htag] at hrun
    cases hrun
  | some areas =>
    simp only [htag] at hrun
    obtain ⟨result, hinit, hrun⟩ := Except.bind_eq_ok.mp hrun
    cases result with
    | error error => cases hrun
    | ok kernel =>
      obtain rfl := Except.ok.inj (Except.ok.inj hrun)
      exact ⟨areas, rfl, hinit⟩

/-- The frames of a heap whose first byte can be written are mapped in the lower half. -/
theorem HeapStarted.lower {base count heapFrame heapBegin heapEnd : ℕ}
    {s s' : Machine (BuddyAllocator Frame)}
    (h : HeapStarted base count heapFrame ⟨heapBegin, heapEnd⟩ s s')
    (hcanonical : Canonical heapBegin) :
    heapBegin + 2 ^ 5 * 4096 ≤ 2 ^ 47 ∧ 4096 ∣ heapBegin ∧ Ordinary (indices heapBegin) := by
  obtain ⟨i4, hi4, hbegin⟩ := h.found
  change heapBegin = (foundPage i4).number * 4096 at hbegin
  have hnumber : (foundPage i4).number = ((i4.val * 512 + 1) * 512 + 1) * 512 + 1 := by
    show digits [i4, 1, 1, 1] = _
    rw [digits_eq]
    show i4.val * 512 * 512 * 512 + 1 * 512 * 512 + 1 * 512 + 1 = _
    omega
  have hlt := i4.isLt
  refine ⟨?_, Dvd.intro_left _ hbegin.symm, ?_⟩
  · unfold Canonical at hcanonical
    omega
  · rw [hbegin]
    exact indices_foundPage i4 ▸ foundPage_ordinary hi4

/-- The pages of the kernel and of the heap, by the addresses that resolve. -/
theorem HeapStarted.resolve_iff {base count heapFrame heapBegin heapEnd : ℕ}
    {s s' s'' : Machine (BuddyAllocator Frame)} (hpages : PagesStarted base count s)
    (h : HeapStarted base count heapFrame ⟨heapBegin, heapEnd⟩ s s')
    (hlower : heapBegin + 2 ^ 5 * 4096 ≤ 2 ^ 47) (hdvd : 4096 ∣ heapBegin)
    (hsame : s''.pages = s'.pages) {addr : ℕ} (hlt : addr < usizeCount)
    (hordinary : Ordinary (indices addr)) (frame : ℕ) :
    s''.resolve addr = .ok frame ↔
      KernelMaps base addr frame ∨ HeapMaps heapBegin heapFrame addr frame := by
  have hsmall := hpages.small
  rw [resolve_eq_ok hordinary, hsame, h.pages_iff, hpages.pages_iff]
  constructor
  · rintro ⟨hcanonical, ⟨hkernel, hix⟩ | hheap⟩
    · left
      have hf : frame < 0x300 := by rcases hkernel with hf | hf | hf <;> omega
      exact ⟨hkernel, (framePage_indices hf hcanonical hlt).mp hix⟩
    · exact Or.inr ((heapPage_indices hdvd hlower hcanonical hlt).mp hheap)
  · rintro (⟨hkernel, hle, hframe⟩ | hheap)
    · have hf : frame < 0x300 := by rcases hkernel with hf | hf | hf <;> omega
      have hcanonical : Canonical addr := Or.inr hle
      exact ⟨hcanonical, Or.inl ⟨hkernel, (framePage_indices hf hcanonical hlt).mpr ⟨hle, hframe⟩⟩⟩
    · have hcanonical : Canonical addr := Or.inl (hheap.2.1.trans_le hlower)
      exact ⟨hcanonical, Or.inr ((heapPage_indices hdvd hlower hcanonical hlt).mpr hheap)⟩

/-- When `memory::init` returns `Ok` on the boot tables, the kernel has started. -/
theorem BootTables.started {s : Machine Unit} (hboot : BootTables s) {imageEnd : ℕ}
    (himage : 0x100000 ≤ imageEnd) {layout : StructLayout} {objs : ℕ → Frame}
    {areas : List MemoryArea} {k : KernelState}
    (hrun : memoryInit (linkedKernel imageEnd) layout objs areas
      (initializerRequests taskStateSegmentAddr (kernelStackFrameCount + 1)) s = .ok (.ok k)) :
    ∃ managed heapFrame heapBegin,
      initFrames (linkedKernel imageEnd) layout areas = .ok (.ok managed) ∧
      Started k imageEnd (managed.baseAddr / frameSize) managed.count heapFrame heapBegin := by
  obtain ⟨managed, bman, s₁, ⟨heapBegin, heapEnd⟩, s₂, hframes, hnew, hinit, hheap, htest⟩ :=
    memoryInit_ok hrun
  obtain ⟨haddr, hbehind⟩ := initFrames_behind himage hframes
  have hlimit := hbehind.limit
  have hmanages := BuddyAllocator.new_manages
    (fun i hi => numberFrames_number (managed.baseAddr / frameSize) objs hi) (by omega) hnew
  rw [haddr] at hinit
  have hboot' : BootTables (⟨s.mem, s.cr3, bman, s.trace⟩ : Machine (BuddyAllocator Frame)) :=
    ⟨hboot.cr3, hboot.level4, hboot.level3⟩
  have hpages := hboot'.pagesStarted hbehind hmanages hinit
  obtain ⟨heapFrame, hstarted⟩ := hpages.start.heapStarted hheap
  obtain ⟨hheap', s₃, hfirst, hsecond⟩ := boxTest_ok htest
  have hcanonical : Canonical heapBegin := by
    obtain ⟨frame, hresolve, -⟩ := storeDword_returned hfirst
    by_contra hnot
    rw [Machine.resolve, if_neg hnot] at hresolve
    cases hresolve
  obtain ⟨hlower, hdvd, hordinary⟩ := hstarted.lower hcanonical
  obtain ⟨hinvariant₃, hpages₃, -⟩ := hstarted.invariant.storeDword hordinary hfirst
  obtain ⟨hinvariant₄, hpages₄, -⟩ := hinvariant₃.storeDword hordinary hsecond
  obtain rfl : heapEnd = heapBegin + 2 ^ 5 * 4096 := hstarted.addrEnd
  have hpages' : k.machine.pages = s₂.pages := hpages₄.trans hpages₃
  refine ⟨managed, heapFrame, heapBegin, hframes, hbehind, hpages.small, hstarted.block, hlower,
    hdvd, hinvariant₄, hheap', fun ix f => ?_, fun addr hlt hord frame =>
      hstarted.resolve_iff hpages hlower hdvd hpages' hlt hord frame⟩
  rw [hpages', hstarted.pages_iff, hpages.pages_iff]

end Axel
