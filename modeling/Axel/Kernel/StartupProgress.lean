import Axel.Kernel.Startup

/-!
# When the kernel starts

The initialisation of the memory returns `Ok` when enough frames lie behind the kernel and the
kernel with the array of frames ends before the last page of its level-1 table. The page of that
last entry cannot be mapped, since the entry refers to the table itself.
-/

namespace Axel

open Descent Dyadic Table ActivePageTable

/-! ## What `paging::init` asks for -/

/-- The page of a frame before the last one of the first level-1 table is ordinary. -/
theorem framePage_ordinary {f : ℕ} (hf : f < 0x1FF) : Ordinary (framePage f).indices := by
  intro i hi
  rw [Page.indices_eq] at hi
  rcases List.mem_append.mp hi with hi | hi
  · exact (framePage_tablePath (by omega)).2 i hi
  · obtain rfl := List.mem_singleton.mp hi
    apply ne_recursiveSlot
    rw [framePage_number, level1Index, indexAt_val]
    omega

/-- Different frames of the kernel have different pages. -/
theorem framePage_injective {f g : ℕ} (hf : f < 0x300) (hg : g < 0x300)
    (h : (framePage f).indices = (framePage g).indices) : f = g := by
  rw [Page.indices, Page.indices, Axel.indices_eq_iff, framePage_number, framePage_number] at h
  unfold pageSize at h
  omega

/-- A frame of a small kernel. -/
theorem KernelFrame.lt {base f : ℕ} (h : KernelFrame base f) (hsmall : base < 0x200) :
    f < 0x1FF := by
  rcases h with h | h | h <;> omega

/-- The addresses of a kernel that ends at a frame are regular. -/
theorem linkedKernel_regular {base : ℕ} (hlinked : 0x100 < base) (hsmall : base < 0x200) :
    (linkedKernel (base * 4096)).addrs.Regular where
  fits := by
    show base * 4096 + kernelAddrVirtualOffset < usizeCount
    unfold kernelAddrVirtualOffset usizeCount
    omega
  offset := rfl
  nonempty := by
    show 0x100000 < base * 4096
    omega
  beginAligned := by
    show (0x100000 + kernelAddrVirtualOffset &&& 0xfff == 0) = true
    decide
  endAligned := by
    show (base * 4096 + kernelAddrVirtualOffset &&& 2 ^ 12 - 1 == 0) = true
    rw [Nat.and_two_pow_sub_one_eq_mod, beq_iff_eq]
    unfold kernelAddrVirtualOffset
    omega
  small := by
    show base * 4096 - 0x100000 < 2 * 1024 * 1024
    omega

/-- The kernel has at most 262 pages. -/
theorem kernelFrames_length {base : ℕ} (hsmall : base < 0x200) :
    (kernelFrames base).length ≤ 262 := by
  simp only [kernelFrames, List.length_append, List.length_range']
  omega

/-- `paging::init` returns `Ok` with a new buddy allocator that has 796 frames. -/
theorem BootTables.init_fresh {s : Machine (BuddyAllocator Frame)} (hboot : BootTables s)
    {base count : ℕ} (hlinked : 0x100 < base) (hsmall : base < 0x200)
    (hfresh : s.allocator.Fresh base count) (hcount : 796 ≤ s.allocator.countFreeObjs) :
    ∃ s', init (linkedKernel (base * 4096)).addrs
        (initializerRequests taskStateSegmentAddr (kernelStackFrameCount + 1)) s = .ok (.ok ()) s' ∧
      s'.allocator.surplus ≤ 1 ∧ s.allocator.countFreeObjs ≤ 796 + s'.allocator.countFreeObjs ∧
      firstVacant s'.mem s'.cr3 = some 1 := by
  have hlength : (initMappings (linkedKernel (base * 4096)).addrs
      (initializerRequests taskStateSegmentAddr (kernelStackFrameCount + 1))).length ≤ 262 := by
    rw [initMappings_eq, List.length_map]
    exact kernelFrames_length hsmall
  have hframe : ∀ call ∈ initMappings (linkedKernel (base * 4096)).addrs
      (initializerRequests taskStateSegmentAddr (kernelStackFrameCount + 1)),
      ∃ f < 0x1FF, frameMapping f = call := by
    intro call hcall
    obtain ⟨f, hf, rfl⟩ := mem_initMappings.mp hcall
    exact ⟨f, hf.lt hsmall, rfl⟩
  have hfits : ∀ request ∈ initializerRequests taskStateSegmentAddr (kernelStackFrameCount + 1),
      request.addr + request.count * 4096 + kernelAddrVirtualOffset ≤ usizeCount := by decide
  obtain ⟨s', a, n, m, hrun, hpos, hn, hborrowed, hm, hdrawn, hspare⟩ := hboot.init_runs
    (buddyReturning_serves hlinked.le hfresh.manages) (linkedKernel_regular hlinked hsmall) hfits
    (fun call hcall => by
      obtain ⟨f, hf, rfl⟩ := hframe call hcall
      have hnumber : (Frame.fromAddress (f * 4096)).number = f := Nat.mul_div_cancel f (by decide)
      show (framePage f).number < _ ∧ (Frame.fromAddress (f * 4096)).number < _
      rw [framePage_number, hnumber]
      omega)
    (fun call hcall => by
      obtain ⟨f, hf, rfl⟩ := hframe call hcall
      exact framePage_ordinary hf)
    (by
      rw [initMappings_eq, List.map_map]
      refine List.Nodup.map_on (fun f hf g hg h => ?_) (kernelFrames_nodup base)
      have hf' := (mem_kernelFrames.mp hf).lt hsmall
      have hg' := (mem_kernelFrames.mp hg).lt hsmall
      exact framePage_injective (by omega) (by omega) h)
    (hfresh.manages.lasts (by omega)) (hfresh.takesBack (by omega))
  obtain ⟨-, hsurplus, hspent⟩ := hfresh.spent hpos hborrowed hdrawn
  refine ⟨s', hrun, hsurplus, by omega, firstVacant_one (hspare 1 (by decide) fun call hcall => ?_)⟩
  obtain ⟨f, hf, rfl⟩ := hframe call hcall
  have hlevel4 : level4Index ((framePage f).number * 4096) ≠ 1 := by
    intro hone
    have hval := congrArg Fin.val hone
    rw [framePage_number, level4Index, indexAt_val] at hval
    change _ = 1 at hval
    omega
  exact fun hhead => hlevel4 (Option.some.inj hhead)

/-! ## The heap -/

/-- `HeapAllocator::new` takes the page 1 of each level when it has three frames for tables and a
block is free. -/
theorem FrameSystem.Start.heapNew_runs {s : Machine (BuddyAllocator Frame)} {base count : ℕ}
    (h : FrameSystem.Start ⟨s, [], []⟩ base count) (hfound : firstVacant s.mem s.cr3 = some 1)
    (hsurplus : s.allocator.surplus ≤ 1) (hfree : 48 ≤ s.allocator.countFreeObjs) :
    ∃ limit s', HeapAllocator.new s = .ok (some ⟨(foundPage 1).number * 4096, limit⟩) s' := by
  have hinvariant := h.invariant
  have hwf : s.allocator.WellFormed := h.manages.wellFormed
  obtain ⟨x, allocator, hallocate, halloc⟩ := BuddyAllocator.allocate_some hwf
    (show 5 < maxOrder by decide) (by omega)
  have hcount := halloc.countFreeObjs hwf
  have hrest : 3 ≤ allocator.countFreeObjs := by omega
  have h₁ := hinvariant.allocated halloc
  have hheld : (⟨x, 5⟩ : Block) ∈ [(⟨x, 5⟩ : Block)] := List.mem_singleton_self _
  obtain ⟨hnumber, horder⟩ := h₁.frame_eq hheld
  change (allocator.objs x).number = base + x at hnumber
  change (allocator.objs x).order = 5 at horder
  have hrange : x + 2 ^ 5 ≤ count := h₁.inRange _ hheld
  have hfits := h.manages.fits
  have hlasts : Lasts 3 allocator := (h.manages.allocated halloc).lasts hrest
  have hpages : 2 ^ (allocator.objs x).order ≤ 510 := by
    rw [horder]
    decide
  have hframe : (allocator.objs x).number + 2 ^ (allocator.objs x).order ≤ 2 ^ 36 := by
    rw [horder, hnumber]
    omega
  obtain ⟨limit, s', hmap, -⟩ := h₁.tree.autoContinuousMap_runs hfound hpages hframe hlasts
  refine ⟨limit, s', ?_⟩
  have hblock : allocateBlock 5 s = .ok (some (allocator.objs x)) { s with allocator } := by
    simp only [allocateBlock, hallocate, Option.map_some]
  exact (bind_ok hblock).trans ((bind_ok hmap).trans rfl)

/-- A store to an address that resolves returns. -/
theorem storeDword_ok {α : Type} {s : Machine α} {addr frame : ℕ} (h : s.resolve addr = .ok frame)
    (value : BitVec 32) : ∃ s', storeDword addr value s = .ok () s' := by
  rw [storeDword, h]
  exact ⟨_, rfl⟩

/-- A new heap passes its test. -/
theorem HeapStarted.boxTest_runs {base count heapFrame heapBegin heapEnd : ℕ}
    {s s' : Machine (BuddyAllocator Frame)}
    (h : HeapStarted base count heapFrame ⟨heapBegin, heapEnd⟩ s s')
    (hlower : heapBegin + 2 ^ 5 * 4096 ≤ 2 ^ 47) (hdvd : 4096 ∣ heapBegin)
    (hordinary : Ordinary (indices heapBegin)) :
    ∃ heap s'', boxTest (GlobalAllocator.new.init ⟨heapBegin, heapEnd⟩) s' = .ok heap s'' := by
  have hend : heapEnd = heapBegin + 2 ^ 5 * 4096 := h.addrEnd
  have hfirst : s'.pages (indices heapBegin) = some heapFrame := by
    refine (h.pages_iff _ _).mpr (Or.inr ⟨0, by decide, ?_, Nat.add_zero _⟩)
    show indices ((heapBegin + 0 * 4096) / 4096 * 4096) = indices heapBegin
    rw [Nat.zero_mul, Nat.add_zero, Nat.div_mul_cancel hdvd]
  have hresolve : s'.resolve heapBegin = .ok heapFrame :=
    (resolve_eq_ok hordinary).mpr ⟨Or.inl (by omega), hfirst⟩
  obtain ⟨s₁, hstore⟩ := storeDword_ok hresolve 100
  obtain ⟨-, hpages, -⟩ := h.invariant.storeDword hordinary hstore
  have hresolve₁ : s₁.resolve heapBegin = .ok heapFrame :=
    (resolve_eq_ok hordinary).mpr ⟨Or.inl (by omega), by rw [hpages]; exact hfirst⟩
  obtain ⟨s₂, hstore₁⟩ := storeDword_ok hresolve₁ 200
  have halign : ∃ a, alignUp heapBegin boxLayout.align = .ok a := by
    refine (alignUp_layout_isOk heapBegin boxLayout).mpr ?_
    show heapBegin + 3 < usizeCount
    unfold usizeCount
    omega
  obtain ⟨a, halign⟩ := halign
  have hsum : checkedAdd heapBegin boxLayout.size = .ok (heapBegin + 4) := by
    refine checkedAdd_ok ?_
    show heapBegin + 4 < usizeCount
    unfold usizeCount
    omega
  have hroom : ¬heapEnd ≤ heapBegin + 4 := by omega
  have halloc : (GlobalAllocator.new.init ⟨heapBegin, heapEnd⟩).alloc boxLayout =
      .ok (heapBegin, ⟨some ⟨heapBegin + 4, heapEnd⟩⟩) := by
    simp only [GlobalAllocator.alloc, GlobalAllocator.init, HeapAllocator.alloc, halign, hsum,
      if_neg hroom, bind, Except.bind, pure, Except.pure]
  refine ⟨⟨some ⟨heapBegin + 4, heapEnd⟩⟩, s₂, (bind_ok (lift_ok halloc)).trans ?_⟩
  exact (bind_ok hstore).trans ((bind_ok hstore₁).trans (lift_ok rfl))

/-! ## The start -/

/-- The part of `memory::init` after the buddy allocator exists returns `Ok` when its parts do. -/
theorem initHeap_runs {kernel : KernelAddrs} {requests : List IdenticalReMapRequest}
    {s s₁ s₂ s₃ : Machine (BuddyAllocator Frame)} {allocator : HeapAllocator}
    {heap : GlobalAllocator} (hinit : init kernel requests s = .ok (.ok ()) s₁)
    (hnew : HeapAllocator.new s₁ = .ok (some allocator) s₂)
    (htest : boxTest (GlobalAllocator.new.init allocator) s₂ = .ok heap s₃) :
    initHeap kernel requests s = .ok (.ok heap) s₃ :=
  (bind_ok hinit).trans ((bind_ok hnew).trans ((bind_ok htest).trans rfl))

/-- `memory::init` returns `Ok` when its parts do. -/
theorem memoryInit_eq {kernel : KernelAddresses} {layout : StructLayout} {objs : ℕ → Frame}
    {areas : List MemoryArea} {requests : List IdenticalReMapRequest} {s : Machine Unit}
    {managed : ManagedFrames} {bman : BuddyAllocator Frame} {heap : GlobalAllocator}
    {machine : Machine (BuddyAllocator Frame)}
    (hframes : initFrames kernel layout areas = .ok (.ok managed))
    (hlimit : managed.baseAddr + managed.count * frameSize < usizeCount)
    (hnew : BuddyAllocator.new managed.baseAddr
      (numberFrames (managed.baseAddr / frameSize) managed.count objs) managed.count = .ok bman)
    (hheap : initHeap { kernel with physicalEnd := managed.baseAddr }.addrs requests
      ⟨s.mem, s.cr3, bman, s.trace⟩ = .ok (.ok heap) machine) :
    memoryInit kernel layout objs areas requests s = .ok (.ok ⟨machine, heap⟩) := by
  have hsize : checkedMul managed.count frameSize = .ok (managed.count * frameSize) :=
    checkedMul_ok ((Nat.le_add_left _ _).trans_lt hlimit)
  have hsum : checkedAdd managed.baseAddr (managed.count * frameSize) = .ok _ :=
    checkedAdd_ok hlimit
  simp only [memoryInit, hframes, hsize, hsum, hnew, hheap, bind, Except.bind, pure, Except.pure]

/-- A kernel with 844 frames behind it starts when it ends before the last page of its level-1
table. -/
theorem BootTables.memoryInit_runs {s : Machine Unit} (hboot : BootTables s) {imageEnd : ℕ}
    (himage : 0x100000 < imageEnd) {layout : StructLayout} (objs : ℕ → Frame)
    {areas : List MemoryArea} {managed : ManagedFrames}
    (hframes : initFrames (linkedKernel imageEnd) layout areas = .ok (.ok managed))
    (hcount : 844 ≤ managed.count) (hsmall : managed.baseAddr ≤ 0x1FF000) :
    ∃ k, memoryInit (linkedKernel imageEnd) layout objs areas
      (initializerRequests taskStateSegmentAddr (kernelStackFrameCount + 1)) s = .ok (.ok k) := by
  obtain ⟨haddr, hbehind⟩ := initFrames_behind himage.le hframes
  have himage' := hbehind.image
  have hlimit := hbehind.limit
  obtain ⟨bman, hnew, hfresh, hfree⟩ := BuddyAllocator.new_fresh
    (fun i hi => numberFrames_number (managed.baseAddr / frameSize) objs hi)
    (show managed.baseAddr / frameSize + managed.count ≤ 2 ^ 36 by omega)
  have hboot' : BootTables (⟨s.mem, s.cr3, bman, s.trace⟩ : Machine (BuddyAllocator Frame)) :=
    ⟨hboot.cr3, hboot.level4, hboot.level3⟩
  have hsmall' : managed.baseAddr / frameSize < 0x200 := by omega
  obtain ⟨s₁, hinit, hsurplus, hspent, hfound⟩ := hboot'.init_fresh (by omega) hsmall' hfresh
    (show 796 ≤ bman.countFreeObjs by omega)
  have hpages := hboot'.pagesStarted hbehind hfresh.manages hinit
  obtain ⟨heapEnd, s₂, hheap⟩ := hpages.start.heapNew_runs hfound hsurplus (by
    change bman.countFreeObjs ≤ _ at hspent
    omega)
  obtain ⟨heapFrame, hstarted⟩ := hpages.start.heapStarted hheap
  obtain ⟨hlower, hdvd, hordinary⟩ := hstarted.lower (Or.inl (by decide +kernel))
  obtain ⟨heap, s₃, htest⟩ := hstarted.boxTest_runs hlower hdvd hordinary
  rw [← haddr] at hinit
  refine ⟨⟨s₃, heap⟩, memoryInit_eq hframes ?_ hnew (initHeap_runs hinit hheap htest)⟩
  unfold frameSize usizeCount at *
  omega

/-- With the arguments of the boot code, `Initializer::init` returns what `memory::init` does. -/
theorem initializerInit_eq {imageEnd info : ℕ} {layout : StructLayout} {objs : ℕ → Frame}
    {memoryMapTag : ℕ → Option (List MemoryArea)} {areas : List MemoryArea} {s : Machine Unit}
    {k : KernelState} (htag : memoryMapTag (info + kernelAddrVirtualOffset) = some areas)
    (hrun : memoryInit (linkedKernel imageEnd) layout objs areas
      (initializerRequests taskStateSegmentAddr (kernelStackFrameCount + 1)) s = .ok (.ok k)) :
    initializerInit imageEnd layout objs memoryMapTag (mainArguments info) s = .ok (.ok k) := by
  have hargument : argument (mainArguments info) 0 = .ok (info + kernelAddrVirtualOffset) := rfl
  have hstack : argument (mainArguments info) 1 = .ok taskStateSegmentAddr := rfl
  have hframes : argument (mainArguments info) 2 = .ok (kernelStackFrameCount + 1) := rfl
  refine Except.bind_eq_ok.mpr ⟨_, hstack, Except.bind_eq_ok.mpr ⟨_, hframes,
    Except.bind_eq_ok.mpr ⟨_, hargument, ?_⟩⟩⟩
  rw [htag]
  exact Except.bind_eq_ok.mpr ⟨_, hrun, rfl⟩

/-- With 844 frames behind the kernel, `Initializer::init` gets past the initialisation of the
memory exactly when the kernel with the array of frames ends at the last page of its level-1
table or before. -/
theorem initializerInit_runs_iff {s : Machine Unit} (hboot : BootTables s) {imageEnd info : ℕ}
    (himage : 0x100000 < imageEnd) {layout : StructLayout} {objs : ℕ → Frame}
    {memoryMapTag : ℕ → Option (List MemoryArea)} {areas : List MemoryArea}
    (htag : memoryMapTag (info + kernelAddrVirtualOffset) = some areas) {managed : ManagedFrames}
    (hframes : initFrames (linkedKernel imageEnd) layout areas = .ok (.ok managed))
    (hcount : 844 ≤ managed.count) :
    (∃ k, initializerInit imageEnd layout objs memoryMapTag (mainArguments info) s = .ok (.ok k)) ↔
      managed.baseAddr ≤ 0x1FF000 := by
  constructor
  · rintro ⟨k, hrun⟩
    obtain ⟨areas', htag', hinit⟩ := initializerInit_ok hrun
    obtain rfl := Option.some.inj (htag'.symm.trans htag)
    obtain ⟨managed', heapFrame, heapBegin, hframes', hstarted⟩ := hboot.started himage.le hinit
    obtain rfl := Except.ok.inj (Except.ok.inj (hframes'.symm.trans hframes))
    obtain ⟨haddr, -⟩ := initFrames_behind himage.le hframes
    have hsmall := hstarted.small
    omega
  · intro hsmall
    obtain ⟨k, hinit⟩ := hboot.memoryInit_runs himage objs hframes hcount hsmall
    exact ⟨k, initializerInit_eq htag hinit⟩

/-- The machine that the boot code leaves on cleared memory. -/
def bootedMachine : Machine Unit where
  mem f := if f = 1 then bootLevel4 else if f = 3 then bootLevel3 else fun _ => .cleared
  cr3 := 1
  allocator := ()
  trace := []

/-- The boot tables are there. -/
theorem bootedMachine_bootTables : BootTables bootedMachine := ⟨rfl, rfl, rfl⟩

/-- The memory map of a personal computer with 16 MB. -/
def sampleAreas : List MemoryArea := [⟨0, 0x9F000⟩, ⟨0x100000, 0xF00000⟩]

/-- An image of half a megabyte on this computer leaves 3675 frames. -/
theorem sampleAreas_frames : initFrames (linkedKernel 0x180000) sampleLayout sampleAreas =
    .ok (.ok ⟨0x1A4000, 0xFFFF800000180000, 3675⟩) := by
  decide +kernel

/-- The kernel starts on this computer. -/
theorem initializerInit_runs_sample :
    (∃ k, initializerInit 0x180000 sampleLayout (fun _ => ⟨0, 0, .used⟩) (fun _ => some sampleAreas)
      (mainArguments 0) bootedMachine = .ok (.ok k)) ↔ 0x1A4000 ≤ 0x1FF000 :=
  initializerInit_runs_iff bootedMachine_bootTables (by decide) rfl sampleAreas_frames (by decide)

/-- When `Initializer::init` gets past the initialisation of the memory, the kernel has started. -/
theorem initializerInit_started {s : Machine Unit} (hboot : BootTables s) {imageEnd info : ℕ}
    (himage : 0x100000 ≤ imageEnd) {layout : StructLayout} {objs : ℕ → Frame}
    {memoryMapTag : ℕ → Option (List MemoryArea)} {k : KernelState}
    (hrun : initializerInit imageEnd layout objs memoryMapTag (mainArguments info) s =
      .ok (.ok k)) :
    ∃ base count heapFrame heapBegin, Started k imageEnd base count heapFrame heapBegin := by
  obtain ⟨areas, -, hinit⟩ := initializerInit_ok hrun
  obtain ⟨managed, heapFrame, heapBegin, -, hstarted⟩ := hboot.started himage hinit
  exact ⟨_, _, heapFrame, heapBegin, hstarted⟩

/-- The state after the start of the kernel on the sample computer. -/
theorem initializerInit_started_sample :
    ∃ k base count heapFrame heapBegin,
      initializerInit 0x180000 sampleLayout (fun _ => ⟨0, 0, .used⟩) (fun _ => some sampleAreas)
        (mainArguments 0) bootedMachine = .ok (.ok k) ∧
      Started k 0x180000 base count heapFrame heapBegin := by
  obtain ⟨k, hinit⟩ := bootedMachine_bootTables.memoryInit_runs
    (show 0x100000 < 0x180000 by decide) (fun _ => ⟨0, 0, .used⟩) sampleAreas_frames (by decide)
    (by decide)
  have hrun : initializerInit 0x180000 sampleLayout (fun _ => ⟨0, 0, .used⟩)
      (fun _ => some sampleAreas) (mainArguments 0) bootedMachine = .ok (.ok k) :=
    initializerInit_eq rfl hinit
  obtain ⟨base, count, heapFrame, heapBegin, hstarted⟩ :=
    initializerInit_started bootedMachine_bootTables (by decide) hrun
  exact ⟨k, base, count, heapFrame, heapBegin, hrun, hstarted⟩

end Axel
