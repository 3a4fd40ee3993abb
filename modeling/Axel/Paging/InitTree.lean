import Axel.Paging.InitProgress
import Axel.Paging.Refinement

/-!
# The tree that the initialisation leaves

When `paging::init` returns `Ok`, the tables in CR3 form a tree that the recursive window shows,
and the allocator hands out neither these tables nor those of the boot code. So every later call
of the page-table code starts in a state that its results are about.
-/

namespace Axel

open Descent Table ActivePageTable

variable {α : Type}

/-- Whether tables form a tree only depends on these tables. -/
theorem TableTree.of_tables {mem mem' : Memory} {root : ℕ} (h : TableTree mem root)
    (hsame : ∀ f ∈ tables mem root, mem' f = mem f) : TableTree mem' root := by
  have hdescend : ∀ path, TablePath path →
      descend (link mem') root path = descend (link mem) root path := fun path hpath =>
    descend_congr_nodes (fun f hf i _ => link_of_frame (hsame f hf) i) hpath
  have hframe : ∀ path table, TablePath path → descend (link mem') root path = some table →
      mem' table = mem table ∧ descend (link mem) root path = some table := by
    intro path table hpath htable
    rw [hdescend path hpath] at htable
    exact ⟨hsame table (mem_nodes hpath htable), htable⟩
  refine ⟨fun path table hpath htable => ?_, fun path table i hpath htable => ?_,
    fun path table i hpath hlen htable => ?_, fun path table hpath hne htable => ?_⟩
  · exact sole_of_tables hsame (h.sole path table hpath (hframe path table hpath htable).2)
  · obtain ⟨hmem, htable⟩ := hframe path table hpath htable
    rw [hmem]
    exact h.small path table i hpath htable
  · obtain ⟨hmem, htable⟩ := hframe path table hpath htable
    rw [hmem]
    exact h.plain path table i hpath hlen htable
  · obtain ⟨hmem, htable⟩ := hframe path table hpath htable
    rw [link_of_frame hmem]
    exact h.loops path table hpath hne htable

/-- The translation only depends on the tables. -/
theorem translation_of_tables {mem mem' : Memory} {root : ℕ}
    (hsame : ∀ f ∈ tables mem root, mem' f = mem f) :
    translation mem' root = translation mem root := by
  funext ix
  unfold translation
  split
  case isTrue hix => exact walk_of_tables hsame hix.1 hix.2
  case isFalse => rfl

section Switch

variable [FrameAllocator α] {source : FrameSource α} {used : Set ℕ} {root : ℕ} {s s' : Machine α}

/-- A tree of tables that the window showed stays one when CR3 is set to its root and frames
outside of it are written. -/
theorem HostedTree.switched (h : HostedTree source used root s) (hcr3 : s'.cr3 = root)
    (hsame : ∀ f ∈ tables s.mem root, s'.mem f = s.mem f)
    (hallocator : s'.allocator = s.allocator) :
    HostedTree source used root s' ∧ translation s'.mem root = translation s.mem root := by
  have hself : link s'.mem root recursiveSlot = some root := by
    rw [link_of_frame (hsame root root_mem_nodes)]
    exact h.window.stays
  refine ⟨⟨⟨?_, ?_, ?_, ?_⟩, h.tree.of_tables hsame⟩, translation_of_tables hsame⟩
  · rw [hcr3]
    exact ⟨hself, hself⟩
  · rw [hcr3]
    exact Or.inr root_mem_nodes
  · rw [tables_congr hsame]
    exact h.apart
  · rw [tables_congr hsame, hallocator]
    exact h.serves

omit [FrameAllocator α] in
/-- `switch` keeps the allocator. -/
theorem switch_allocator {inactive old : InActivePageTable}
    (hrun : switch inactive s = .ok old s') : s'.allocator = s.allocator := by
  obtain ⟨_, s₁, hread, hrun⟩ := bind_eq_ok.mp hrun
  obtain ⟨rfl, rfl⟩ := EStateM.Result.ok.inj hread
  obtain ⟨_, -, hrun⟩ := lift_bind_eq_ok.mp hrun
  split at hrun
  case isTrue =>
    obtain ⟨_, s₂, hwrite, hrun⟩ := bind_eq_ok.mp hrun
    obtain ⟨-, rfl⟩ := EStateM.Result.ok.inj hwrite
    obtain ⟨-, rfl⟩ := EStateM.Result.ok.inj hrun
    rfl
  case isFalse => cases hrun

end Switch

section Init

variable [FrameAllocator α] {source : ReturningSource α} {s s' : Machine α}
  {kernel : KernelAddrs} {requests : List IdenticalReMapRequest}

/-- The closure of the initialisation only returns `Ok` when the kernel has less than 2 MB. -/
theorem remap_small {u : Unit}
    (h : remap kernel (kernel.physicalEnd + kernel.virtualOffset) requests s = .ok (.ok u) s') :
    kernel.physicalEnd + kernel.virtualOffset - kernel.virtualBegin < 2 * 1024 * 1024 := by
  obtain ⟨result, s₁, -, h⟩ := bind_eq_ok.mp h
  cases result with
  | error error => cases h
  | ok u =>
    obtain ⟨_, hsize, h⟩ := lift_bind_eq_ok.mp h
    obtain ⟨-, rfl⟩ := checkedSub_eq_ok.mp hsize
    obtain ⟨_, -, h⟩ := lift_bind_eq_ok.mp h
    obtain ⟨_, -, h⟩ := lift_bind_eq_ok.mp h
    split at h
    case isTrue => cases h
    case isFalse hsmall => omega

/-- When the initialisation returns `Ok` on the boot tables, the tables in CR3 form a tree apart
from some other frames in use, and they translate exactly the pages of the requests and of the
kernel. -/
theorem BootTables.init_tree (hboot : BootTables s) (hserves : source.Serves s.allocator {1, 3})
    (hpages : kernel.physicalEnd + kernel.virtualOffset - kernel.virtualBegin < 2 * 1024 * 1024 →
      ∀ call ∈ initMappings kernel requests, TablePath (tablePath (call.1.number * 4096)))
    (hrun : init kernel requests s = .ok (.ok ()) s') :
    kernel.physicalEnd + kernel.virtualOffset - kernel.virtualBegin < 2 * 1024 * 1024 ∧
    ∃ used, HostedTree source.toFrameSource used s'.cr3 s' ∧
      ∀ ix frame, translation s'.mem s'.cr3 ix = some frame ↔
        ∃ call ∈ initMappings kernel requests, call.1.indices = ix ∧ call.2.number = frame := by
  obtain ⟨s₁, inactive, s₂, s₃, old, htest, hnew, hwith, hswitch⟩ := init_ok hrun
  obtain ⟨hsuspendable, -, hserves₂⟩ := (hboot.runtimeTest_ok hserves htest).new_ok hnew
  have hkeeps : ∀ used s₄ s₅,
      HostedTree source.toFrameSource used inactive.level4PageTable.number s₄ →
      remap kernel (kernel.physicalEnd + kernel.virtualOffset) requests s₄ = .ok (.ok ()) s₅ →
      HostedTree source.toFrameSource used inactive.level4PageTable.number s₅ ∧
        Confined inactive.level4PageTable.number s₄ s₅ := by
    intro used s₄ s₅ h₄ hremap
    obtain ⟨h₅, hconfined, -⟩ := h₄.mapAll (hpages (remap_small hremap)) (remap_ok hremap)
    exact ⟨h₅, hconfined⟩
  rcases hsuspendable.with_closed hserves₂ hkeeps hwith with
    ⟨i4, s₀, s₄, s₅, -, hopened, hremap, -, hmem₃, hallocator₃⟩ | ⟨herror, -⟩
  · have hsmall := remap_small hremap
    obtain ⟨h₅, -, htranslation⟩ := hopened.hosted.mapAll (hpages hsmall) (remap_ok hremap)
    obtain ⟨hcr3, hmem⟩ := switch_ok hswitch
    have hsame : ∀ f ∈ tables s₅.mem inactive.level4PageTable.number, s'.mem f = s₅.mem f := by
      intro f hf
      have hne : f ≠ s₂.cr3 := by
        rintro rfl
        exact Set.disjoint_left.mp h₅.apart root_mem_nodes hf
      rw [hmem, hmem₃, set_frame_of_ne _ _ _ hne]
    obtain ⟨h', htranslation'⟩ :=
      h₅.switched hcr3 hsame ((switch_allocator hswitch).trans hallocator₃)
    refine ⟨hsmall, tables s₄.mem s₂.cr3, hcr3 ▸ h', fun ix frame => ?_⟩
    rw [hcr3, htranslation', htranslation]
    constructor
    · rintro (hold | hcall)
      · unfold translation at hold
        split at hold
        case isTrue hix =>
          rw [hopened.only.walk_eq_none hix.1] at hold
          cases hold
        case isFalse => cases hold
      · exact hcall
    · exact Or.inr
  · cases herror

end Init

end Axel
