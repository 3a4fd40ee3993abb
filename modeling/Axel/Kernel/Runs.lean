import Axel.Kernel.StartupProgress
import Axel.Paging.PageContents

/-!
# Runs of the kernel

After the start, code allocates blocks of frames, maps and unmaps pages, stores to the addresses
it reaches, and allocates from the heap. This file shows that the kernel runs on a plain memory
all the time: every address that it reached after the start still translates to the same frame,
a load returns what the last store to the same address wrote, and the blocks of the heap do not
overlap. The page tables, the buddy allocator and the heap live in this memory as well, so none
of them ever writes to memory that is in use for something else.
-/

namespace Axel

open Descent Dyadic Table ActivePageTable

/-! ## Loads -/

/-- `mov eax, [addr]` through the page walk. -/
def Machine.load {α : Type} (s : Machine α) (addr : ℕ) : Except Fault (BitVec 32) := do
  let frame ← s.resolve addr
  return s.mem.dword ((frame * frameSize + addr % frameSize) / 4)

/-- The number of the 32 bits at an aligned address in a frame. -/
def dwordNumber (frame addr : ℕ) : ℕ := (frame * frameSize + addr % frameSize) / 4

/-- It names the frame and the place in the frame. -/
theorem four_mul_dwordNumber (frame : ℕ) {addr : ℕ} (haddr : 4 ∣ addr) :
    4 * dwordNumber frame addr = frame * 4096 + addr % 4096 := by
  unfold dwordNumber frameSize
  omega

/-- It lies in the frame. -/
theorem dwordNumber_div (frame addr : ℕ) : dwordNumber frame addr / 1024 = frame := by
  unfold dwordNumber frameSize
  omega

/-- A load from an address that resolves. -/
theorem load_eq {α : Type} {s : Machine α} {addr frame : ℕ} (h : s.resolve addr = .ok frame) :
    s.load addr = .ok (s.mem.dword (dwordNumber frame addr)) :=
  Except.bind_eq_ok.mpr ⟨frame, h, rfl⟩

/-- The 32 bits only depend on their frame. -/
theorem dword_of_frame {mem mem' : Memory} {frame : ℕ} (h : mem' frame = mem frame) (addr : ℕ) :
    mem'.dword (dwordNumber frame addr) = mem.dword (dwordNumber frame addr) := by
  rw [Memory.dword, Memory.dword, dwordNumber_div, h]

/-! ## The system -/

/-- The kernel while it runs: the machine with the blocks and pages of callers, the heap, and the
blocks that the heap handed out, with their layouts. -/
structure KernelSystem where
  /-- The machine and the users of frames. -/
  frames : FrameSystem
  /-- The allocator of the Rust heap. -/
  heap : GlobalAllocator
  /-- What the heap handed out. -/
  blocks : List (Layout × ℕ)

/-- One step of the kernel. -/
inductive KernelCall where
  /-- A call that allocates frames, maps pages or unmaps a page. -/
  | frames (c : FrameCall)
  /-- A store of 32 bits. -/
  | store (addr : ℕ) (value : BitVec 32)
  /-- A call of `alloc` of the heap. -/
  | alloc (layout : Layout)
  /-- A call of `dealloc` of the heap. -/
  | dealloc (ptr : ℕ) (layout : Layout)

namespace KernelSystem

/-- Perform one step. -/
def call (σ : KernelSystem) : KernelCall → Except Fault KernelSystem
  | .frames c => do
    let frames ← σ.frames.call c
    return { σ with frames }
  | .store addr value =>
    match storeDword addr value σ.frames.machine with
    | .ok () machine => .ok { σ with frames := { σ.frames with machine } }
    | .error fault _ => .error fault
  | .alloc layout => do
    let (ptr, heap) ← σ.heap.alloc layout
    return { σ with heap, blocks := (layout, ptr) :: σ.blocks }
  | .dealloc ptr layout => do
    let heap ← σ.heap.dealloc ptr layout
    return { σ with heap }

/-- The steps under consideration: callers keep to the rules of the frame system and leave the
pages of the heap mapped, and stores are aligned and do not go through the recursive window. -/
def Allowed (kept : List Page) (σ : KernelSystem) : KernelCall → Prop
  | .frames c => σ.frames.Legal c ∧ σ.frames.Single c ∧ ∀ page ∈ kept, c ≠ .unmap page
  | .store addr _ => 4 ∣ addr ∧ addr < usizeCount ∧ Ordinary (indices addr)
  | .alloc _ => True
  | .dealloc _ _ => True

/-- The states that sequences of such steps reach. -/
inductive Run (kept : List Page) (σ₀ : KernelSystem) : List KernelCall → KernelSystem → Prop where
  /-- The first state. -/
  | start : Run kept σ₀ [] σ₀
  /-- The state after one more step that returned. -/
  | call {calls : List KernelCall} {σ σ' : KernelSystem} {c : KernelCall} : Run kept σ₀ calls σ →
    σ.Allowed kept c → σ.call c = .ok σ' → Run kept σ₀ (calls ++ [c]) σ'

end KernelSystem

/-- What a step does to a plain memory: only stores write to it. -/
def KernelCall.write (memory : ℕ → BitVec 32) : KernelCall → ℕ → BitVec 32
  | .store addr value => Function.update memory addr value
  | _ => memory

/-! ## Pages -/

/-- Different pages have different frames. -/
def OneToOne {α : Type} (s : Machine α) : Prop :=
  ∀ ix ix' f, s.pages ix = some f → s.pages ix' = some f → ix = ix'

/-- A first state of a run: no two pages share a frame, and the pages of managed frames are kept. -/
structure RunStart (base count : ℕ) (kept : List Page) (σ : FrameSystem) : Prop where
  /-- The invariant of the frame system. -/
  invariant : σ.Invariant base count
  /-- Different pages have different frames. -/
  oneToOne : OneToOne σ.machine
  /-- The pages that are kept are pages that callers mapped. -/
  listed : ∀ page ∈ kept, page ∈ σ.mapped
  /-- No other page has a frame of the allocator. -/
  managed : ∀ ix f, σ.machine.pages ix = some f → FrameSystem.Managed base count f →
    ∃ page ∈ kept, page.indices = ix

/-- What stays true in a run: the frame system is in order, and the pages of the first state have
the same frames. -/
structure RunKeeps (base count : ℕ) (kept : List Page) (σ₀ σ : FrameSystem) : Prop where
  /-- The invariant of the frame system. -/
  invariant : σ.Invariant base count
  /-- The pages that are kept are pages that callers mapped. -/
  listed : ∀ page ∈ kept, page ∈ σ.mapped
  /-- The pages of the first state. -/
  pages : ∀ ix f, σ₀.machine.pages ix = some f → σ.machine.pages ix = some f
  /-- The pages of frames that the allocator does not manage are those of the first state. -/
  foreign : ∀ ix f, ¬FrameSystem.Managed base count f → σ.machine.pages ix = some f →
    σ₀.machine.pages ix = some f

section Keeps

variable {base count : ℕ} {kept : List Page} {σ₀ σ σ' : FrameSystem}

/-- The first state. -/
theorem RunStart.keeps (h : RunStart base count kept σ₀) : RunKeeps base count kept σ₀ σ₀ :=
  ⟨h.invariant, h.listed, fun _ _ hix => hix, fun _ _ _ hix => hix⟩

/-- In a run different pages have different frames. -/
theorem RunKeeps.oneToOne (h : RunKeeps base count kept σ₀ σ)
    (hstart : RunStart base count kept σ₀) :
    OneToOne σ.machine := by
  intro ix ix' f hix hix'
  by_cases hmanaged : FrameSystem.Managed base count f
  · obtain ⟨hle, hlt⟩ := hmanaged
    obtain ⟨j, rfl⟩ := Nat.exists_eq_add_of_le hle
    exact h.invariant.once ix ix' j (by omega) hix hix'
  · exact hstart.oneToOne ix ix' f (h.foreign ix f hmanaged hix) (h.foreign ix' f hmanaged hix')

/-- A call of the frame system that leaves the kept pages mapped. -/
theorem RunKeeps.call (h : RunKeeps base count kept σ₀ σ) (hstart : RunStart base count kept σ₀)
    {c : FrameCall} (hlegal : σ.Legal c) (hsingle : σ.Single c)
    (hkept : ∀ page ∈ kept, c ≠ .unmap page) (hcall : σ.call c = .ok σ') :
    RunKeeps base count kept σ₀ σ' := by
  have hkeeps := h.invariant.keeps hlegal hsingle hcall
  refine ⟨h.invariant.call hlegal hsingle hcall,
    fun page hpage => hkeeps.mapped page (h.listed page hpage) (hkept page hpage),
    fun ix f hix => ?_, fun ix f hf hix => h.foreign ix f hf ((hkeeps.foreign ix f hf).mp hix)⟩
  apply hkeeps.kept ix f (h.pages ix f hix)
  -- A page that callers mapped has a managed frame, and these pages of the first state are kept.
  rintro page rfl rfl
  have hpage : page ∈ σ.mapped := hlegal
  obtain ⟨-, j, hj, hmapped⟩ := h.invariant.listed page hpage
  obtain rfl := Option.some.inj ((h.pages _ f hix).symm.trans hmapped)
  obtain ⟨other, hother, hindices⟩ := hstart.managed _ _ hix ⟨by omega, by omega⟩
  obtain rfl := List.inj_on_of_nodup_map h.invariant.distinct (h.listed other hother) hpage hindices
  exact hkept other hother rfl

/-- A store to an ordinary address. -/
theorem RunKeeps.store (h : RunKeeps base count kept σ₀ σ) {addr : ℕ} {value : BitVec 32}
    (hordinary : Ordinary (indices addr)) {s' : Machine (BuddyAllocator Frame)}
    (hrun : storeDword addr value σ.machine = .ok () s') :
    RunKeeps base count kept σ₀ { σ with machine := s' } := by
  obtain ⟨hinvariant, hpages, -⟩ := h.invariant.storeDword hordinary hrun
  refine ⟨hinvariant, h.listed, fun ix f hix => ?_, fun ix f hf hix => ?_⟩
  · show s'.pages ix = some f
    rw [hpages, h.pages ix f hix]
  · change s'.pages ix = some f at hix
    rw [hpages] at hix
    exact h.foreign ix f hf hix

end Keeps

/-! ## Memory -/

section Memory

variable {base count : ℕ} {kept : List Page} {σ₀ σ σ' : FrameSystem} {memory : ℕ → BitVec 32}

/-- Aligned ordinary addresses that translate. -/
def Reachable {α : Type} (s : Machine α) (addr : ℕ) : Prop :=
  4 ∣ addr ∧ addr < usizeCount ∧ Ordinary (indices addr) ∧ ∃ frame, s.resolve addr = .ok frame

/-- The machine holds a plain memory at the addresses that the first state reaches. -/
def Holds (σ₀ σ : FrameSystem) (memory : ℕ → BitVec 32) : Prop :=
  ∀ addr, Reachable σ₀.machine addr → σ.machine.load addr = .ok (memory addr)

/-- An address of the first state keeps its frame. -/
theorem RunKeeps.resolve (h : RunKeeps base count kept σ₀ σ) {addr frame : ℕ}
    (hordinary : Ordinary (indices addr)) (hresolve : σ₀.machine.resolve addr = .ok frame) :
    σ.machine.resolve addr = .ok frame := by
  obtain ⟨hcanonical, hmapped⟩ := (resolve_eq_ok hordinary).mp hresolve
  exact (resolve_eq_ok hordinary).mpr ⟨hcanonical, h.pages _ _ hmapped⟩

/-- A call of the frame system does not change what loads return. -/
theorem Holds.call (hholds : Holds σ₀ σ memory) (h : RunKeeps base count kept σ₀ σ)
    (h' : RunKeeps base count kept σ₀ σ') {c : FrameCall}
    (hkeeps : FrameSystem.Keeps base count c σ σ') : Holds σ₀ σ' memory := by
  rintro addr ⟨haddr, hlt, hordinary, frame, hresolve⟩
  have hbefore := h.resolve hordinary hresolve
  have hload := hholds addr ⟨haddr, hlt, hordinary, frame, hresolve⟩
  have hmapped := ((resolve_eq_ok hordinary).mp hbefore).2
  rw [load_eq hbefore] at hload
  rw [load_eq (h'.resolve hordinary hresolve), ← hload,
    dword_of_frame (hkeeps.contents frame ⟨_, hmapped⟩)]

/-- A store changes what a load from its address returns, and no other load. -/
theorem Holds.store (hholds : Holds σ₀ σ memory) (hstart : RunStart base count kept σ₀)
    (h : RunKeeps base count kept σ₀ σ) {addr : ℕ} {value : BitVec 32} (haddr : 4 ∣ addr)
    (hlt : addr < usizeCount) (hordinary : Ordinary (indices addr))
    {s' : Machine (BuddyAllocator Frame)}
    (hrun : storeDword addr value σ.machine = .ok () s') :
    Holds σ₀ { σ with machine := s' } (Function.update memory addr value) := by
  have h' := h.store hordinary hrun
  obtain ⟨frame, hresolve, -⟩ := storeDword_returned hrun
  obtain ⟨hcanonical, hmapped⟩ := (resolve_eq_ok hordinary).mp hresolve
  have hmem : s'.mem = σ.machine.mem.storeDword (frame * frameSize + addr % frameSize) value := by
    simp only [storeDword, hresolve] at hrun
    obtain ⟨-, rfl⟩ := EStateM.Result.ok.inj hrun
    rfl
  have hdvd : 4 ∣ frame * frameSize + addr % frameSize := by
    unfold frameSize
    omega
  rintro a ⟨ha, hlta, hordinarya, f, hresolvea⟩
  have hbefore := h.resolve hordinarya hresolvea
  obtain ⟨hcanonicala, hmappeda⟩ := (resolve_eq_ok hordinarya).mp hbefore
  rw [load_eq (h'.resolve hordinarya hresolvea)]
  show Except.ok (s'.mem.dword _) = _
  rw [hmem, Memory.dword_storeDword _ hdvd, four_mul_dwordNumber f ha]
  by_cases hsame : a = addr
  · subst hsame
    obtain rfl := Except.ok.inj (hbefore.symm.trans hresolve)
    rw [Function.update_self]
    exact congrArg Except.ok (if_pos rfl)
  · have hne : f * 4096 + a % 4096 ≠ frame * frameSize + addr % frameSize := by
      unfold frameSize
      intro heq
      obtain rfl : f = frame := by omega
      have hindices := h.oneToOne hstart _ _ f hmappeda hmapped
      rw [Canonical.indices_eq_iff hcanonicala hcanonical hlta hlt] at hindices
      omega
    rw [if_neg hne, Function.update_of_ne hsame, ← load_eq hbefore]
    exact hholds a ⟨ha, hlta, hordinarya, f, hresolvea⟩

end Memory

/-! ## The heap -/

/-- The blocks that the heap handed out since the first state lie one behind the other between
its front then and its front now. -/
structure Stacked (lo hi : ℕ) (σ : KernelSystem) : Prop where
  /-- The heap has a front that has not passed its end. -/
  front : ∃ addrBegin, σ.heap = ⟨some ⟨addrBegin, hi⟩⟩ ∧ lo ≤ addrBegin ∧ addrBegin ≤ hi ∧
    ∀ b ∈ σ.blocks, lo ≤ b.2 ∧ b.2 + b.1.size ≤ addrBegin
  /-- An older block lies below a newer one. -/
  ordered : σ.blocks.Pairwise fun newer older => older.2 + older.1.size ≤ newer.2

/-- `alloc` puts a block on top. -/
theorem Stacked.alloc {lo hi : ℕ} {σ : KernelSystem} (h : Stacked lo hi σ) {layout : Layout}
    {ptr : ℕ} {heap : GlobalAllocator} (hrun : σ.heap.alloc layout = .ok (ptr, heap)) :
    Stacked lo hi { σ with heap, blocks := (layout, ptr) :: σ.blocks } := by
  obtain ⟨addrBegin, hheap, hlo, hhi, hblocks⟩ := h.front
  rw [hheap] at hrun
  obtain ⟨⟨found, next⟩, halloc, hrun⟩ := Except.bind_eq_ok.mp hrun
  rcases HeapAllocator.alloc_cases halloc with ⟨⟨-, -, hfits⟩, rfl, rfl⟩ | ⟨-, rfl, -⟩
  · obtain ⟨rfl, rfl⟩ := Prod.mk.inj (Except.ok.inj hrun)
    change addrBegin + layout.size < hi at hfits
    refine ⟨⟨addrBegin + layout.size, rfl, by omega, by omega, fun b hb => ?_⟩, ?_⟩
    · rcases List.mem_cons.mp hb with rfl | hb
      · exact ⟨hlo, le_rfl⟩
      · have hold := hblocks b hb
        omega
    · exact List.pairwise_cons.mpr ⟨fun b hb => (hblocks b hb).2, h.ordered⟩
  · cases hrun

/-- `dealloc` does nothing. -/
theorem Stacked.dealloc {lo hi : ℕ} {σ : KernelSystem} (h : Stacked lo hi σ) {layout : Layout}
    {ptr : ℕ} {heap : GlobalAllocator} (hrun : σ.heap.dealloc ptr layout = .ok heap) :
    Stacked lo hi { σ with heap } := by
  obtain ⟨addrBegin, hheap, hfront⟩ := h.front
  rw [hheap] at hrun
  obtain rfl := Except.ok.inj hrun
  exact ⟨⟨addrBegin, rfl, hfront⟩, h.ordered⟩

/-! ## Runs -/

namespace KernelSystem

variable {base count lo hi : ℕ} {kept : List Page} {σ₀ σ : KernelSystem} {calls : List KernelCall}

/-- The state of a run: the pages of the first state are there, memory is plain, and the blocks of
the heap lie one behind the other. -/
structure InOrder (base count lo hi : ℕ) (kept : List Page) (σ₀ : KernelSystem)
    (memory : ℕ → BitVec 32) (σ : KernelSystem) : Prop where
  /-- The pages. -/
  keeps : RunKeeps base count kept σ₀.frames σ.frames
  /-- The memory. -/
  holds : Holds σ₀.frames σ.frames memory
  /-- The heap. -/
  stacked : Stacked lo hi σ

/-- One step keeps the order, and writes to the plain memory what it stores. -/
theorem InOrder.call {memory : ℕ → BitVec 32} (h : InOrder base count lo hi kept σ₀ memory σ)
    (hstart : RunStart base count kept σ₀.frames) {c : KernelCall} (hallowed : σ.Allowed kept c)
    {σ' : KernelSystem} (hcall : σ.call c = .ok σ') :
    InOrder base count lo hi kept σ₀ (c.write memory) σ' := by
  cases c with
  | frames c =>
    obtain ⟨hlegal, hsingle, hkept⟩ := hallowed
    obtain ⟨frames, hframes, hcall⟩ := Except.bind_eq_ok.mp hcall
    obtain rfl := Except.ok.inj hcall
    have hkeeps := h.keeps.call hstart hlegal hsingle hkept hframes
    exact ⟨hkeeps, h.holds.call h.keeps hkeeps (h.keeps.invariant.keeps hlegal hsingle hframes),
      ⟨h.stacked.front, h.stacked.ordered⟩⟩
  | store addr value =>
    obtain ⟨haddr, hlt, hordinary⟩ := hallowed
    unfold KernelSystem.call at hcall
    cases hrun : storeDword addr value σ.frames.machine with
    | error fault machine =>
      simp only [hrun] at hcall
      cases hcall
    | ok u machine =>
      simp only [hrun] at hcall
      obtain rfl := Except.ok.inj hcall
      exact ⟨h.keeps.store hordinary hrun, h.holds.store hstart h.keeps haddr hlt hordinary hrun,
        ⟨h.stacked.front, h.stacked.ordered⟩⟩
  | alloc layout =>
    obtain ⟨⟨ptr, heap⟩, halloc, hcall⟩ := Except.bind_eq_ok.mp hcall
    obtain rfl := Except.ok.inj hcall
    exact ⟨h.keeps, h.holds, h.stacked.alloc halloc⟩
  | dealloc ptr layout =>
    obtain ⟨heap, hdealloc, hcall⟩ := Except.bind_eq_ok.mp hcall
    obtain rfl := Except.ok.inj hcall
    exact ⟨h.keeps, h.holds, h.stacked.dealloc hdealloc⟩

end KernelSystem

/-- The addresses of a started kernel are ordinary and translate. -/
theorem Started.resolve {k : KernelState} {imageEnd base count heapFrame heapBegin : ℕ}
    (h : Started k imageEnd base count heapFrame heapBegin) {addr frame : ℕ}
    (hlt : addr < usizeCount)
    (hmaps : KernelMaps base addr frame ∨ HeapMaps heapBegin heapFrame addr frame) :
    Ordinary (indices addr) ∧ k.machine.resolve addr = .ok frame := by
  have hsmall := h.small
  have hlower := h.lower
  have hordinary : Ordinary (indices addr) := by
    rcases hmaps with ⟨hf, hle, hframe⟩ | hheap
    · have hf' : frame < 0x300 := by rcases hf with hf | hf | hf <;> omega
      have hindices := (framePage_indices hf' (Or.inr hle) hlt).mpr ⟨hle, hframe⟩
      exact ordinary_of_translation ((h.pages_iff _ frame).mpr (Or.inl ⟨hf, hindices⟩))
    · have hcanonical : Canonical addr := Or.inl (hheap.2.1.trans_le hlower)
      have hpage := (heapPage_indices h.aligned hlower hcanonical hlt).mpr hheap
      exact ordinary_of_translation ((h.pages_iff _ frame).mpr (Or.inr hpage))
  exact ⟨hordinary, (h.resolve_iff addr hlt hordinary frame).mpr hmaps⟩

end Axel
