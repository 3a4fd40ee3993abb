import Axel.Paging.Boot
import Axel.Paging.Init
import Axel.Paging.With

/-!
# The table that the initialisation builds

When `paging::init` returns `Ok`, the processor runs on a new table. This file shows which
pages that table maps: those of the requests and of the kernel, and no other page without
the recursive slot. The loops of the closure are runs of `map` over a list of pages and frames,
and the new table stays empty until the closure runs.
-/

namespace Axel

open Descent Table ActivePageTable

variable {α : Type}

section Mappings

/-- The pages and frames of a request. -/
def requestMappings (kernel : KernelAddrs) (request : IdenticalReMapRequest) :
    List (Page × Frame) :=
  (List.range request.count).map fun i =>
    (Page.fromAddress (request.addr + i * 4096 + kernel.virtualOffset),
      Frame.fromAddress (request.addr + i * 4096))

/-- The pages and frames of the kernel. -/
def kernelMappings (kernel : KernelAddrs) : List (Page × Frame) :=
  (List.range ((kernel.physicalEnd + kernel.virtualOffset - kernel.virtualBegin) / 4096)).map
    fun i => (Page.fromAddress (kernel.virtualBegin + i * 4096),
      Frame.fromAddress (kernel.physicalBegin + i * 4096))

/-- The pages and frames that the initialisation maps. -/
def initMappings (kernel : KernelAddrs) (requests : List IdenticalReMapRequest) :
    List (Page × Frame) :=
  requests.flatMap (requestMappings kernel) ++ kernelMappings kernel

variable [FrameAllocator α]

/-- Map pages one after another until a call fails. -/
def mapAll : List (Page × Frame) → Kernel α (Except TableError Unit)
  | [] => return .ok ()
  | (page, frame) :: rest => do
    match ← map page frame with
    | .ok () => mapAll rest
    | .error error => return .error error

variable {s s₁ s' : Machine α}

/-- Mapping two lists one after the other. -/
theorem mapAll_append (front back : List (Page × Frame)) :
    mapAll (α := α) (front ++ back) = (do
      match ← mapAll front with
      | .ok () => mapAll back
      | .error error => return .error error) := by
  induction front with
  | nil => rfl
  | cons call front ih =>
    funext s
    rw [List.cons_append, mapAll, ih, mapAll]
    simp only [bind, EStateM.bind]
    cases map call.1 call.2 s with
    | error fault s₁ => rfl
    | ok result s₁ => cases result <;> rfl

/-- Mapping two lists succeeds when both parts do. -/
theorem mapAll_append_ok {front back : List (Page × Frame)}
    (h : mapAll front s = .ok (.ok ()) s₁) (h' : mapAll back s₁ = .ok (.ok ()) s') :
    mapAll (front ++ back) s = .ok (.ok ()) s' := by
  rw [mapAll_append]
  exact (bind_ok h).trans h'

/-- The inner loop over a request maps its pages. -/
theorem remapFrom_ok {kernel : KernelAddrs} {addr remaining i : ℕ}
    (h : remapFrom kernel addr remaining i s = .ok (.ok ()) s') :
    mapAll ((List.range' i remaining).map fun i =>
      (Page.fromAddress (addr + i * 4096 + kernel.virtualOffset),
        Frame.fromAddress (addr + i * 4096))) s = .ok (.ok ()) s' := by
  induction remaining generalizing i s with
  | zero => exact h
  | succ remaining ih =>
    obtain ⟨_, hoffset, h⟩ := lift_bind_eq_ok.mp h
    obtain ⟨-, rfl⟩ := checkedMul_eq_ok.mp hoffset
    obtain ⟨_, hsum, h⟩ := lift_bind_eq_ok.mp h
    obtain ⟨-, rfl⟩ := checkedAdd_eq_ok.mp hsum
    obtain ⟨_, hvirtual, h⟩ := lift_bind_eq_ok.mp h
    obtain ⟨-, rfl⟩ := checkedAdd_eq_ok.mp hvirtual
    obtain ⟨result, s₁, hmap, h⟩ := bind_eq_ok.mp h
    cases result with
    | error error => cases h
    | ok u => exact (bind_ok hmap).trans (ih h)

/-- The outer loop maps the pages of all requests. -/
theorem remapRequests_ok {kernel : KernelAddrs} {requests : List IdenticalReMapRequest}
    (h : remapRequests kernel requests s = .ok (.ok ()) s') :
    mapAll (requests.flatMap (requestMappings kernel)) s = .ok (.ok ()) s' := by
  induction requests generalizing s with
  | nil => exact h
  | cons request rest ih =>
    obtain ⟨result, s₁, hrequest, h⟩ := bind_eq_ok.mp h
    cases result with
    | error error => cases h
    | ok u =>
      have hfirst := remapFrom_ok hrequest
      rw [← List.range_eq_range'] at hfirst
      exact mapAll_append_ok hfirst (ih h)

/-- The loop of `map_fitting` maps its pages. -/
theorem mapFittingFrom_ok {vBegin pBegin remaining i : ℕ}
    (h : mapFittingFrom vBegin pBegin remaining (i * 4096) s = .ok (.ok ()) s') :
    mapAll ((List.range' i remaining).map fun i =>
      (Page.fromAddress (vBegin + i * 4096), Frame.fromAddress (pBegin + i * 4096))) s =
      .ok (.ok ()) s' := by
  induction remaining generalizing i s with
  | zero => exact h
  | succ remaining ih =>
    obtain ⟨_, hvirtual, h⟩ := lift_bind_eq_ok.mp h
    obtain ⟨-, rfl⟩ := checkedAdd_eq_ok.mp hvirtual
    obtain ⟨_, hphysical, h⟩ := lift_bind_eq_ok.mp h
    obtain ⟨-, rfl⟩ := checkedAdd_eq_ok.mp hphysical
    obtain ⟨result, s₁, hmap, h⟩ := bind_eq_ok.mp h
    cases result with
    | error error => cases h
    | ok u =>
      obtain ⟨_, hoffset, h⟩ := lift_bind_eq_ok.mp h
      obtain ⟨-, rfl⟩ := checkedAdd_eq_ok.mp hoffset
      rw [← Nat.succ_mul] at h
      exact (bind_ok hmap).trans (ih h)

/-- `map_fitting` maps the pages of a range of less than 2 MB. -/
theorem mapFitting_ok {vBegin vEnd pBegin pEnd : ℕ}
    (h : mapFitting (vBegin, vEnd) (pBegin, pEnd) s = .ok (.ok ()) s') :
    mapAll ((List.range ((vEnd - vBegin) / 4096)).map fun i =>
      (Page.fromAddress (vBegin + i * 4096), Frame.fromAddress (pBegin + i * 4096))) s =
      .ok (.ok ()) s' := by
  obtain ⟨_, hsize, h⟩ := lift_bind_eq_ok.mp h
  obtain ⟨-, rfl⟩ := checkedSub_eq_ok.mp hsize
  obtain ⟨_, -, h⟩ := lift_bind_eq_ok.mp h
  obtain ⟨_, -, h⟩ := lift_bind_eq_ok.mp h
  split at h
  case isTrue => cases h
  case isFalse hsmall =>
    have hcount : (vEnd - vBegin - (vEnd - vBegin) / (2 * 1024 * 1024) * 2 * 1024 * 1024) / 4096 =
        (vEnd - vBegin) / 4096 := by
      have hzero : (vEnd - vBegin) / (2 * 1024 * 1024) = 0 := by omega
      rw [hzero]
      simp
    rw [hcount, show (0 : ℕ) = 0 * 4096 from rfl] at h
    rw [List.range_eq_range']
    exact mapFittingFrom_ok h

/-- The closure of the initialisation maps its pages. -/
theorem remap_ok {kernel : KernelAddrs} {requests : List IdenticalReMapRequest}
    (h : remap kernel (kernel.physicalEnd + kernel.virtualOffset) requests s = .ok (.ok ()) s') :
    mapAll (initMappings kernel requests) s = .ok (.ok ()) s' := by
  obtain ⟨result, s₁, hrequests, h⟩ := bind_eq_ok.mp h
  cases result with
  | error error => cases h
  | ok u => exact mapAll_append_ok (remapRequests_ok hrequests) (mapFitting_ok h)

variable {source : FrameSource α} {used : Set ℕ} {root : ℕ}

/-- Mapping pages that are below ordinary tables adds exactly these pages to the
translation. -/
theorem HostedTree.mapAll (h : HostedTree source used root s) {calls : List (Page × Frame)}
    (hpages : ∀ call ∈ calls, TablePath (tablePath (call.1.number * 4096)))
    (hrun : mapAll calls s = .ok (.ok ()) s') :
    HostedTree source used root s' ∧ Confined root s s' ∧
      ∀ ix frame, translation s'.mem root ix = some frame ↔
        translation s.mem root ix = some frame ∨
          ∃ call ∈ calls, call.1.indices = ix ∧ call.2.number = frame := by
  induction calls generalizing s with
  | nil =>
    obtain ⟨-, rfl⟩ := EStateM.Result.ok.inj hrun
    exact ⟨h, .refl root s, by simp⟩
  | cons call calls ih =>
    obtain ⟨result, s₁, hmap, hrun⟩ := bind_eq_ok.mp hrun
    cases result with
    | error error => cases hrun
    | ok u =>
      obtain ⟨h₁, hconfined₁, -, hnone, hupdate⟩ := h.map (hpages call List.mem_cons_self) hmap
      obtain ⟨h', hconfined, hpages'⟩ :=
        ih h₁ (fun other hother => hpages other (List.mem_cons_of_mem call hother)) hrun
      refine ⟨h', hconfined₁.trans hconfined, ?_⟩
      intro ix frame
      rw [hpages', hupdate]
      by_cases hsame : call.1.indices = ix
      · subst hsame
        rw [Function.update_self, hnone]
        simp
      · rw [Function.update_of_ne (Ne.symm hsame)]
        simp [hsame]

end Mappings

/-- What is assumed of an allocator that takes frames back: afterwards it may hand out the
frame again, and no other frame in use. -/
structure ReturningSource (α : Type) [FrameAllocator α] extends FrameSource α where
  /-- The used frames after one of them was given back. -/
  freed : ∀ {a used n a'}, Serves a used → n ∈ used → n < 2 ^ 36 →
    FrameAllocator.free a (Frame.fromAddress (n * 4096)) = .ok a' → Serves a' (used \ {n})

/-- A stack of free frames takes frames back. -/
def FramePool.returning : ReturningSource FramePool where
  toFrameSource := FramePool.source
  freed := by
    rintro ⟨frames⟩ used n a' ⟨hnodup, hunused⟩ hn hlt hfree
    have hnumber : (Frame.fromAddress (n * 4096)).number = n := Nat.mul_div_cancel n (by decide)
    obtain rfl := Except.ok.inj hfree
    refine ⟨List.nodup_cons.mpr ⟨?_, hnodup⟩, ?_⟩
    · rw [hnumber]
      exact fun hmem => (hunused n hmem).1 hn
    · intro f hf
      rcases List.mem_cons.mp hf with rfl | hf
      · rw [hnumber]
        exact ⟨fun hmem => hmem.2 rfl, hlt⟩
      · exact ⟨fun hmem => (hunused f hf).1 hmem.1, (hunused f hf).2⟩

/-- No second path leads to a table when no table changes. -/
theorem sole_of_tables {mem mem' : Memory} {root table : ℕ} {path : List Index}
    (h : ∀ f ∈ tables mem root, mem' f = mem f) (hsole : Sole mem root path table) :
    Sole mem' root path table := by
  intro other hother hreach
  apply hsole other hother
  rw [← hreach]
  exact (descend_congr_nodes (fun f hf i _ => link_of_frame (h f hf) i) hother).symm

/-- A pointer to a page that is translated to a frame apart from the tables is fixed. -/
theorem fixed_of_walk {s : Machine α} {pointer frame root : ℕ} (hroot : s.cr3 = root)
    (hcanonical : Canonical pointer) (hordinary : Ordinary (indices pointer))
    (hwalk : walk s.mem root (indices pointer) = some frame)
    (hframe : frame ∉ tables s.mem root) : s.Fixed pointer frame := by
  intro s' hcr3 hmem
  apply resolve_ok hcanonical
  have hsame : ∀ f ∈ tables s.mem root, s'.mem f = s.mem f :=
    fun f hf => hmem f fun hsame => hframe (hsame ▸ hf)
  rw [hcr3, hroot, walk_of_tables hsame hordinary rfl, hwalk]

/-- The tables of the boot code, possibly with more tables below the level-4 table. -/
structure Prepared [FrameAllocator α] (source : FrameSource α) (s : Machine α) : Prop where
  /-- The active table. -/
  cr3 : s.cr3 = 1
  /-- The window shows the tables, and the allocator hands out none of them. -/
  hosted : Hosted source ∅ 1 s
  /-- The level-4 table has no second path. -/
  sole : Sole s.mem 1 [] 1
  /-- The recursive slot is that of the boot code. -/
  slot : s.mem 1 recursiveSlot = bootLevel4 recursiveSlot

section Prepare

variable [FrameAllocator α] {s s' : Machine α}

section Write

variable {source : ReturningSource α} {root table : ℕ} {page : Page} {frame : Frame}
  {s₀ s₁ s₂ : Machine α} {entry : PageEntry} {is : List Index}
variable (hnew : NewMapping source.toFrameSource {frame.number} root page frame s s₀ table s₁)
  (hroot : s.cr3 = root) (hordinary : Ordinary page.indices)
  (hcanonical : Canonical (page.number * 4096)) (hlt : frame.number < 2 ^ 36)

include hnew hroot hordinary hcanonical hlt

/-- Writing to a frame through the page where it was mapped changes the frame only. -/
theorem NewMapping.write_page (entry : PageEntry) (is : List Index) :
    ∃ s₂, fillEntries (page.number * 4096) entry is s₁ = .ok () s₂ ∧
      (∀ f, f ≠ frame.number → s₂.mem f = s₁.mem f) ∧ s₂.cr3 = s.cr3 ∧
      s₂.allocator = s₀.allocator ∧ Window s₂.mem s₂.cr3 root ∧
      descend (link s₂.mem) root (tablePath (page.number * 4096)) = some table ∧
      (s₂.mem table (level1Index (page.number * 4096))).getFrameAddr =
        some (frame.number * 4096) := by
  have hpath := hordinary.tablePath
  have hframe : frame.number ∉ tables s₀.mem root :=
    Set.disjoint_left.mp hnew.hosted.apart (Set.mem_singleton _)
  have htables₁ : tables s₁.mem root = tables s₀.mem root := by
    rw [hnew.filled.mem]
    exact set_leaf_tables rfl hnew.sole
  have hwalk₁ : walk s₁.mem root page.indices = some frame.number := by
    rw [hnew.filled.mem, set_leaf_walk hnew.reached hpath rfl hnew.sole hordinary rfl,
      if_pos (Page.indices_eq page), PageEntry.isPresent_withFrame, PageEntry.frame_withFrame _ hlt]
    rfl
  have hcr3₁ : s₁.cr3 = s.cr3 := hnew.filled.cr3.trans hnew.grown.cr3
  have hfixed : s₁.Fixed (page.number * 4096) frame.number :=
    fixed_of_walk (hcr3₁.trans hroot) hcanonical hordinary hwalk₁ (htables₁ ▸ hframe)
  obtain ⟨s₂, hfill, hreach₂⟩ := fillEntries_spec entry is hfixed
  have hmem₂ : ∀ f, f ≠ frame.number → s₂.mem f = s₁.mem f := by
    intro f hf
    funext j
    rw [hreach₂.mem, filledMemory, if_neg (by simp [hf])]
  have hsame₂ : ∀ f ∈ tables s₁.mem root, s₂.mem f = s₁.mem f :=
    fun f hf => hmem₂ f fun hsame => hframe (hsame ▸ htables₁ ▸ hf)
  have hcr3₂ : s₂.cr3 = s.cr3 := hreach₂.cr3.trans hcr3₁
  have hslot₂ : link s₂.mem root recursiveSlot = some root := by
    rw [link_of_frame (hsame₂ root root_mem_nodes), hnew.filled.mem, link,
      Memory.set_of_ne _ _ (Or.inr hordinary.level1Index.symm)]
    exact hnew.hosted.window.stays
  have htable_ne : table ≠ frame.number :=
    fun hsame => hframe (hsame ▸ mem_nodes hpath hnew.reached)
  refine ⟨s₂, hfill, hmem₂, hcr3₂, hreach₂.allocator.trans hnew.filled.allocator, ?_, ?_, ?_⟩
  · rw [hcr3₂, hroot]
    exact ⟨hslot₂, hslot₂⟩
  · rw [descend_congr_nodes (fun f hf i _ => link_of_frame (hsame₂ f hf) i) hpath,
      hnew.filled.mem, set_leaf_descend rfl hnew.sole hpath, hnew.reached]
  · rw [hmem₂ table htable_ne, hnew.filled.mem, Memory.set_self,
      PageEntry.getFrameAddr_withFrame hlt]

/-- Writing to a frame through the page where it was mapped and unmapping the page gives the
frame back and leaves the tables as they were. -/
theorem NewMapping.write_unmap (hpage : page.number < 2 ^ 52) {u : Unit}
    {result : Except TableError Unit}
    (hfill : fillEntries (page.number * 4096) entry is s₁ = .ok u s₂)
    (hunmap : unmap page s₂ = .ok result s') :
    Hosted source.toFrameSource ∅ root s' ∧
      (∀ f ∈ tables s₀.mem root, s'.mem f = s₀.mem f) ∧ s'.cr3 = s.cr3 ∧
      FrameAllocator.free s₀.allocator (Frame.fromAddress (frame.number * 4096)) =
        .ok s'.allocator := by
  have hpath := hordinary.tablePath
  have hframe : frame.number ∉ tables s₀.mem root :=
    Set.disjoint_left.mp hnew.hosted.apart (Set.mem_singleton _)
  obtain ⟨s₂', hfill', hmem₂, hcr3₂, hallocator₂, hwindow₂, htable₂, haddr⟩ :=
    hnew.write_page hroot hordinary hcanonical hlt entry is
  rw [hfill] at hfill'
  obtain ⟨-, rfl⟩ := EStateM.Result.ok.inj hfill'
  obtain ⟨a, hfree⟩ := hwindow₂.unmap_returned hpage hpath htable₂ haddr hunmap
  obtain ⟨s₃, before, hunmap', hmem₃, hcr3₃, hallocator₃, -⟩ :=
    hwindow₂.unmap_present hpage hpath htable₂ haddr hfree
  rw [hunmap] at hunmap'
  obtain ⟨-, rfl⟩ := EStateM.Result.ok.inj hunmap'
  rw [hallocator₂, ← hallocator₃] at hfree
  have hmem : ∀ f ∈ tables s₀.mem root, s'.mem f = s₀.mem f := by
    intro f hf
    have hne : f ≠ frame.number := fun hsame => hframe (hsame ▸ hf)
    funext j
    by_cases hentry : f = table ∧ j = level1Index (page.number * 4096)
    · obtain ⟨rfl, rfl⟩ := hentry
      rw [hmem₃, Memory.set_self, hnew.cleared]
    · rw [hmem₃, Memory.set_of_ne _ _ (not_and_or.mp hentry), hmem₂ f hne, hnew.filled.mem,
        Memory.set_of_ne _ _ (not_and_or.mp hentry)]
  have hcr3 : s'.cr3 = s.cr3 := hcr3₃.trans hcr3₂
  refine ⟨?_, hmem, hcr3, hfree⟩
  apply hnew.hosted.of_tables (hnew.grown.cr3.trans hroot) hmem (hcr3.trans hnew.grown.cr3.symm)
    (Set.empty_disjoint _)
  have hfreed := source.freed hnew.hosted.serves (Or.inl rfl) hlt hfree
  rw [Set.singleton_union, Set.insert_sdiff_self_of_notMem hframe] at hfreed
  rw [Set.empty_union]
  exact hfreed

end Write

/-- The page of the runtime test. -/
def testPage : Page := Page.fromAddress 0x200000

/-- The page of the runtime test has no recursive slot among its indices. -/
theorem testPage_ordinary : Ordinary testPage.indices := by
  decide +kernel

/-- The path to the level-1 table of the page of the runtime test. -/
theorem testPage_path : tablePath (testPage.number * 4096) = [0, 0, 1] := by
  decide +kernel

omit [FrameAllocator α] in
/-- A page below an entry of the level-4 table that the boot code left cleared has no tables
yet. -/
theorem BootTables.vacant_path (hboot : BootTables s) {i : Index} (path : List Index)
    (hi : i ≠ 256) (hslot : i ≠ recursiveSlot) :
    Passable s.mem 1 (i :: path) ∧ descend (link s.mem) 1 (i :: path) = none := by
  have hvacant := hboot.level4_cleared hi hslot
  constructor
  · exact passable_of_vacant hboot.sole (by rw [hvacant]; rfl) (by rw [hvacant]; rfl)
  · rw [descend, link, hvacant, PageEntry.child_eq_none PageEntry.isPresent_cleared,
      Option.bind_none]

/-- Mapping the page of the runtime test on the boot tables. -/
theorem BootTables.map_testPage {source : FrameSource α} {used : Set ℕ} (hboot : BootTables s)
    (h : Hosted source used 1 s) {frame : Frame} (hlt : frame.number < 2 ^ 36) :
    (∃ s₁ n a, map testPage frame s = .ok (.error .noPageTable) s₁ ∧ n < 3 ∧
      Drawn n s.allocator a ∧ FrameAllocator.allocOne a = .ok (none, s₁.allocator)) ∨
    ∃ s' s₁ table, map testPage frame s = .ok (.ok ()) s' ∧
      NewMapping source used 1 testPage frame s s₁ table s' := by
  obtain ⟨hpass, hmissing⟩ :=
    hboot.vacant_path [0, 1] (show (0 : Index) ≠ 256 by decide) (by decide)
  exact h.map_missing (by decide) hlt testPage_ordinary (by rw [testPage_path]; exact hpass)
    (by rw [testPage_path]; exact hmissing)

/-- The runtime test leaves three more tables and gives its frame back. -/
theorem BootTables.runtimeTest_ok {source : ReturningSource α} (hboot : BootTables s)
    (hserves : source.Serves s.allocator {1, 3}) (hrun : runtimeTest s = .ok (.ok ()) s') :
    Prepared source.toFrameSource s' := by
  have h : Hosted source.toFrameSource ∅ 1 s :=
    hboot.hosted (Set.empty_disjoint _) (by rw [Set.empty_union]; exact hserves)
  obtain ⟨frame, s₁, halloc, hrun⟩ := bind_eq_ok.mp hrun
  rcases h.allocOne hboot.cr3 with ⟨s₁', a, halloc', -⟩ |
    ⟨frame', s₁', halloc', -, hmem₁, hcr3₁, hlt, h₁⟩
  · rw [halloc] at halloc'
    obtain ⟨rfl, -⟩ := EStateM.Result.ok.inj halloc'
    cases hrun
  · rw [halloc] at halloc'
    obtain ⟨rfl, rfl⟩ := EStateM.Result.ok.inj halloc'
    obtain ⟨mapped, s₂, hmap, hrun⟩ := bind_eq_ok.mp hrun
    cases mapped with
    | error error => cases hrun
    | ok u =>
      obtain ⟨addr, haddr, hrun⟩ := lift_bind_eq_ok.mp hrun
      obtain ⟨-, rfl⟩ := checkedMul_eq_ok.mp haddr
      obtain ⟨_, s₃, hfill, hrun⟩ := bind_eq_ok.mp hrun
      obtain ⟨unmapped, s₄, hunmap, hrun⟩ := bind_eq_ok.mp hrun
      cases unmapped with
      | error error => cases hrun
      | ok u =>
        obtain ⟨-, rfl⟩ := EStateM.Result.ok.inj hrun
        have hboot₁ : BootTables s₁ :=
          ⟨hcr3₁.trans hboot.cr3, hmem₁ ▸ hboot.level4, hmem₁ ▸ hboot.level3⟩
        replace hmap : map testPage frame' s₁ = .ok (.ok _) s₂ := hmap
        rcases hboot₁.map_testPage h₁ hlt with ⟨s₂', n, a, hmap', -⟩ | ⟨s₂', s₅, table, hmap', hnew⟩
        · rw [hmap] at hmap'
          cases hmap'
        · rw [hmap] at hmap'
          obtain ⟨-, rfl⟩ := EStateM.Result.ok.inj hmap'
          obtain ⟨h₄, hsame, hcr3, -⟩ := hnew.write_unmap hboot₁.cr3 testPage_ordinary (by decide)
            hlt (by decide) hfill hunmap
          refine ⟨hcr3.trans hboot₁.cr3, h₄, ?_, ?_⟩
          · exact sole_of_tables hsame (hnew.grown.sole within_nil descend_nil hboot₁.sole)
          · rw [hsame 1 root_mem_nodes, hnew.grown.slot 1 root_mem_nodes, hboot₁.level4]

omit [FrameAllocator α] in
/-- `clear_all_entries` only returns when its pointer is canonical. -/
theorem clearAllEntries_returned {pointer : ℕ} {u : Unit}
    (h : clearAllEntries pointer s = .ok u s') : Canonical pointer := by
  have hne : List.finRange 512 ≠ [] := by simp
  obtain ⟨i, is, his⟩ := List.exists_cons_of_ne_nil hne
  rw [clearAllEntries, his] at h
  obtain ⟨_, s₁, hwrite, -⟩ := bind_eq_ok.mp h
  by_contra hcanonical
  rw [writeEntry, Machine.resolve, if_neg hcanonical] at hwrite
  cases hwrite

/-- Making a frame that is no table an empty table leaves the tables as they are. -/
theorem emptyTable_of_mem_tables {frame root : ℕ} {mem : Memory}
    (hframe : frame ∉ tables mem root) {f : ℕ} (hf : f ∈ tables mem root) :
    emptyTable mem frame f = mem f := by
  have hne : f ≠ frame := fun hsame => hframe (hsame ▸ hf)
  funext j
  rw [emptyTable, if_neg hne]

omit [FrameAllocator α] in
/-- A frame that is no table of the active tree and was made an empty table is ready for
`with`. -/
theorem suspendable_of_emptyTable {s s' : Machine α} {frame : ℕ} (hlt : frame < 2 ^ 36)
    (hcr3 : s'.cr3 = s.cr3) (hmem : s'.mem = emptyTable s.mem frame)
    (hframe : frame ∉ tables s.mem s.cr3)
    (hself : link s.mem s.cr3 recursiveSlot = some s.cr3)
    (hwritable : (s.mem s.cr3 recursiveSlot).flags.contains .writable = true)
    (hsole : Sole s.mem s.cr3 [] s.cr3) : Suspendable s' frame := by
  have hsame : ∀ f ∈ tables s.mem s.cr3, s'.mem f = s.mem f := fun f hf => by
    rw [hmem]
    exact emptyTable_of_mem_tables hframe hf
  have hslot : s'.mem s.cr3 recursiveSlot = s.mem s.cr3 recursiveSlot := by
    rw [hsame s.cr3 root_mem_nodes]
  have hentry : ∀ i, s'.mem frame i =
      if i = recursiveSlot then .selfEntry frame else .cleared := by
    intro i
    rw [hmem, emptyTable, if_pos rfl]
  refine ⟨?_, ?_, ?_, ?_, ?_, ?_⟩
  · rw [hcr3, link, hslot]
    exact hself
  · rw [hcr3, hslot]
    exact hwritable
  · rw [hcr3]
    exact sole_of_tables hsame hsole
  · intro i hi
    rw [hentry, if_neg hi]
  · rw [link, hentry, if_pos rfl]
    exact PageEntry.child_selfEntry hlt
  · rw [hcr3, tables_congr hsame]
    exact hframe

/-- The run of `InActivePageTable::new` when a frame and an empty page were found and the page
has a canonical address. The new table is ready for `with`. -/
theorem Prepared.new_run {source : FrameSource α} (h : Prepared source s) {frame : Frame}
    {s₁ s₂ : Machine α} (halloc : Axel.allocOne s = .ok (some frame) s₁) (hmem₁ : s₁.mem = s.mem)
    (hcr3₁ : s₁.cr3 = s.cr3) (hlt : frame.number < 2 ^ 36) {i4 : Index} {last : ℕ}
    (hfind : findEmptyPage s₁ = .ok (some (foundPage i4)) s₂)
    (h₂ : Hosted source {frame.number} 1 s₂) (hgrown : Grown {frame.number} 1 s₁ s₂)
    (hempty : EmptyPages s₁ 1 i4 last s₂)
    (hcanonical : Canonical ((foundPage i4).number * 4096)) :
    ∃ s', InActivePageTable.new s = .ok (some ⟨frame⟩) s' ∧ Suspendable s' frame.number ∧
      s'.cr3 = 1 ∧ source.Serves s'.allocator (insert frame.number (tables s'.mem s'.cr3)) ∧
      s'.allocator = s₂.allocator ∧ s'.mem 1 = s₂.mem 1 := by
  have hsole₁ : Sole s₁.mem 1 [] 1 := by
    rw [hmem₁]
    exact h.sole
  have hsole₂ : Sole s₂.mem 1 [] 1 := hgrown.sole within_nil descend_nil hsole₁
  obtain ⟨s₃, hmap, hreach₃⟩ := h₂.map_found hempty.ordinary hempty.fresh hempty.pass hlt
  have hcr3₃ : s₃.cr3 = 1 := ((hreach₃.cr3.trans hgrown.cr3).trans hcr3₁).trans h.cr3
  have hframe : frame.number ∉ tables s₂.mem 1 :=
    Set.disjoint_left.mp h₂.apart (Set.mem_singleton _)
  obtain ⟨htables₃, hslot₃, -, hwalk₃, -⟩ := hempty.mapped hgrown hlt hreach₃.mem
  have hindices := indices_foundPage i4
  have hordinary := foundPage_ordinary hempty.ordinary
  have hfixed : s₃.Fixed ((foundPage i4).number * 4096) frame.number :=
    fixed_of_walk hcr3₃ hcanonical (hindices ▸ hordinary) (hindices ▸ hwalk₃) (htables₃ ▸ hframe)
  obtain ⟨s', hreach, hrun⟩ := emptyTable_run hfixed hlt
    (return some ⟨frame⟩ : Kernel α (Option InActivePageTable))
  have hframe₃ : frame.number ∉ tables s₃.mem 1 := htables₃ ▸ hframe
  have hsame : ∀ f ∈ tables s₃.mem 1, s'.mem f = s₃.mem f := fun f hf => by
    rw [hreach.mem]
    exact emptyTable_of_mem_tables hframe₃ hf
  have hslot : s₃.mem 1 recursiveSlot = bootLevel4 recursiveSlot := by
    rw [hslot₃, hmem₁, h.slot]
  have hsole₃ : Sole s₃.mem 1 [] 1 := by
    rw [hreach₃.mem, set_leaf_sole rfl hempty.fresh.sole]
    exact hsole₂
  have hready : Suspendable s' frame.number := by
    apply suspendable_of_emptyTable hlt hreach.cr3 hreach.mem <;> rw [hcr3₃]
    · exact hframe₃
    · rw [link, hslot]
      decide
    · rw [hslot]
      decide
    · exact hsole₃
  have hcr3 : s'.cr3 = 1 := hreach.cr3.trans hcr3₃
  have htables : tables s'.mem 1 = tables s₂.mem 1 := (tables_congr hsame).trans htables₃
  refine ⟨s', ?_, hready, hcr3, ?_, ?_, ?_⟩
  · have hnumber := (foundPage_indices i4).1
    calc InActivePageTable.new s = _ := bind_ok halloc
      _ = _ := bind_ok hfind
      _ = _ := bind_ok hmap
      _ = _ := bind_ok (lift_ok (Page.address_eq (by omega)))
      _ = _ := by rw [Frame.address_eq hlt]; exact hrun
  · rw [hcr3, htables, hreach.allocator, hreach₃.allocator, ← Set.singleton_union]
    exact h₂.serves
  · rw [hreach.allocator, hreach₃.allocator]
  · have hne : 1 ≠ last := by
      rintro rfl
      have hpath : TablePath [i4, 1, 1] := ⟨by simp, fun i hi => hordinary i (by simp_all)⟩
      exact absurd (hsole₂ _ hpath hempty.fresh.reached) (by simp)
    rw [hsame 1 root_mem_nodes, hreach₃.mem, set_frame_of_ne _ _ _ hne]

/-- A new inactive table is ready for `with`. -/
theorem Prepared.new_ok {source : FrameSource α} {inactive : InActivePageTable}
    (h : Prepared source s) (hrun : InActivePageTable.new s = .ok (some inactive) s') :
    Suspendable s' inactive.level4PageTable.number ∧ s'.cr3 = 1 ∧
      source.Serves s'.allocator
        (insert inactive.level4PageTable.number (tables s'.mem s'.cr3)) := by
  obtain ⟨result, s₁, halloc, hrest⟩ := bind_eq_ok.mp hrun
  rcases h.hosted.allocOne h.cr3 with ⟨s₁', a, halloc', -⟩ |
    ⟨frame, s₁', halloc', -, hmem₁, hcr3₁, hlt, h₁⟩
  · rw [halloc] at halloc'
    obtain ⟨rfl, -⟩ := EStateM.Result.ok.inj halloc'
    cases hrest
  rw [halloc] at halloc'
  obtain ⟨rfl, rfl⟩ := EStateM.Result.ok.inj halloc'
  have hsole₁ : Sole s₁.mem 1 [] 1 := by
    rw [hmem₁]
    exact h.sole
  obtain ⟨found, s₂, hfind, hrest⟩ := bind_eq_ok.mp hrest
  obtain ⟨h₂, hgrown, rfl | ⟨i4, last, rfl, -, hempty⟩⟩ :=
    h₁.findEmptyPages_returned hsole₁ (le_refl 1) hfind
  · cases hrest
  obtain ⟨mapped, s₃, -, hrest⟩ := bind_eq_ok.mp hrest
  cases mapped with
  | error error => cases hrest
  | ok u =>
    obtain ⟨pointer, hpointer, hrest⟩ := lift_bind_eq_ok.mp hrest
    obtain ⟨-, rfl⟩ := checkedMul_eq_ok.mp hpointer
    obtain ⟨_, s₄, hclear, -⟩ := bind_eq_ok.mp hrest
    obtain ⟨s₅, hnew, hsuspendable, hcr3, hserves, -⟩ := h.new_run halloc hmem₁ hcr3₁ hlt hfind h₂
      hgrown hempty (clearAllEntries_returned hclear)
    rw [hrun] at hnew
    obtain ⟨hinactive, rfl⟩ := EStateM.Result.ok.inj hnew
    obtain rfl := Option.some.inj hinactive
    exact ⟨hsuspendable, hcr3, hserves⟩

omit [FrameAllocator α] in
/-- `switch` changes CR3 only. -/
theorem switch_ok {inactive old : InActivePageTable} (hrun : switch inactive s = .ok old s') :
    s'.cr3 = inactive.level4PageTable.number ∧ s'.mem = s.mem := by
  obtain ⟨_, s₁, hread, hrun⟩ := bind_eq_ok.mp hrun
  obtain ⟨rfl, rfl⟩ := EStateM.Result.ok.inj hread
  obtain ⟨_, haddr, hrun⟩ := lift_bind_eq_ok.mp hrun
  obtain ⟨-, rfl⟩ := checkedMul_eq_ok.mp haddr
  split at hrun
  case isTrue =>
    obtain ⟨_, s₂, hwrite, hrun⟩ := bind_eq_ok.mp hrun
    obtain ⟨-, rfl⟩ := EStateM.Result.ok.inj hwrite
    obtain ⟨-, rfl⟩ := EStateM.Result.ok.inj hrun
    exact ⟨Nat.mul_div_cancel _ (by decide), rfl⟩
  case isFalse => cases hrun

end Prepare

end Axel
