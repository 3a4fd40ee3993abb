import Axel.Paging.Cycle
import Axel.Paging.InitSemantics

/-!
# When the initialisation succeeds

On a stack of enough free frames, for pages that are pairwise different and have no recursive
slot, `paging::init` returns `Ok`. Each phase takes a known number of frames and leaves the
entries of the level-4 table that the next phase needs. Together with the tables that the
phases leave this gives the translation of the new table.
-/

namespace Axel

open Descent Table ActivePageTable

variable {α : Type}

section Allocator

variable [FrameAllocator α]

/-- Frames that were drawn one after the other were drawn together. -/
theorem Drawn.trans {m n : ℕ} {a a' a'' : α} (h : Drawn m a a') (h' : Drawn n a' a'') :
    Drawn (m + n) a a'' := by
  induction h with
  | none a =>
    rw [Nat.zero_add]
    exact h'
  | some halloc _ ih =>
    rw [Nat.add_right_comm]
    exact .some halloc (ih h')

/-- An allocator that lasts longer lasts. -/
theorem Lasts.mono {m n : ℕ} {a : α} (h : Lasts n a) (hle : m ≤ n) : Lasts m a :=
  fun k _ _ hk => h k _ _ (hk.trans_le hle)

/-- What is left of an allocator that lasts. -/
theorem Lasts.of_drawn {m n : ℕ} {a a' : α} (h : Lasts (m + n) a) (hdrawn : Drawn m a a') :
    Lasts n a' :=
  fun k _ _ hk hdrawn' => h (m + k) _ _ (Nat.add_lt_add_left hk m) (hdrawn.trans hdrawn')

/-- The allocator handed out a frame and then a number of other frames, and took the first one
back. -/
def Borrowed (n : ℕ) (a a' : α) : Prop :=
  ∃ frame a₁ a₂, FrameAllocator.allocOne a = .ok (some frame, a₁) ∧ Drawn n a₁ a₂ ∧
    FrameAllocator.free a₂ (Frame.fromAddress (frame.number * 4096)) = .ok a'

/-- The allocator takes back the first frame that it hands out, once it has handed out one to
three others, and then still has `k` frames. -/
def TakesBack (k : ℕ) (a : α) : Prop :=
  ∀ frame a₁ n a₂, FrameAllocator.allocOne a = .ok (some frame, a₁) → 1 ≤ n → n ≤ 3 →
    Drawn n a₁ a₂ →
    ∃ a', FrameAllocator.free a₂ (Frame.fromAddress (frame.number * 4096)) = .ok a' ∧ Lasts k a'

/-- A stack takes its frames back. -/
theorem FramePool.takesBack {k : ℕ} {a : FramePool} (h : k + 3 ≤ a.frames.length) :
    TakesBack k a := by
  intro frame a₁ n a₂ halloc _ hn hdrawn
  refine ⟨_, rfl, FramePool.lasts ?_⟩
  have hlength := FramePool.length_of_drawn (.some halloc hdrawn)
  rw [List.length_cons]
  omega

end Allocator

/-- An entry of a table that a search can take. -/
structure SpareEntry (mem : Memory) (root : ℕ) (i : Index) : Prop where
  /-- The entry is not present. -/
  absent : (mem root i).isPresent = false
  /-- The entry does not have the page-size bit. -/
  small : (mem root i).isHuge = false

/-- Whether an entry is spare only depends on its table. -/
theorem SpareEntry.of_frame {mem mem' : Memory} {root : ℕ} {i : Index} (h : SpareEntry mem root i)
    (hsame : mem' root = mem root) : SpareEntry mem' root i :=
  ⟨hsame ▸ h.absent, hsame ▸ h.small⟩

/-- An entry stays spare when tables are created below another one. -/
theorem SpareEntry.of_grown {used : Set ℕ} {root : ℕ} {s s' : Machine α} {i : Index}
    {path : List Index} (h : SpareEntry s.mem root i) (hgrown : Grown used root s s')
    (hnew : NewAlong root path s s') (hi : i ≠ recursiveSlot) (hhead : path.head? ≠ some i) :
    SpareEntry s'.mem root i := by
  have hsmall : (s'.mem root i).isHuge = false := by
    rcases hgrown.entry [] root i within_nil descend_nil hi with ⟨-, hsame⟩ | hcleared | ⟨-, hsmall⟩
    · rw [hsame, h.small]
    · rw [hcleared, PageEntry.isHuge_cleared]
    · exact hsmall
  have hnone := hnew.link_none hi hhead (PageEntry.child_eq_none h.absent)
  exact ⟨PageEntry.isPresent_of_child_eq_none hnone hsmall, hsmall⟩

/-- A search takes the entry 1 first. -/
theorem firstVacant_one {mem : Memory} {root : ℕ} (h : SpareEntry mem root 1) :
    firstVacant mem root = some 1 := by
  refine find_eq_some_iff.mpr ⟨by decide, h.absent, fun j hj hlt => ?_⟩
  have hval : j.val < 1 := hlt
  omega

/-- A search takes the entry 2 when the entry 1 is present. -/
theorem firstVacant_two {mem : Memory} {root : ℕ} (hone : (mem root 1).isPresent = true)
    (h : SpareEntry mem root 2) : firstVacant mem root = some 2 := by
  refine find_eq_some_iff.mpr ⟨by decide, h.absent, fun j hj hlt => ?_⟩
  have hval : j.val < 2 := hlt
  obtain rfl : j = 1 := Fin.ext (by rw [Fin.val_one]; omega)
  exact hone

section Phases

variable [FrameAllocator α] {s s' : Machine α}

/-- `map` on a page below a vacant entry of the level-4 table takes at least one frame. -/
theorem Hosted.map_vacant_drawn {source : FrameSource α} {used : Set ℕ} {root : ℕ}
    (h : Hosted source used root s) {page : Page} {frame : Frame} (hpage : page.number < 2 ^ 52)
    (hframe : frame.number < 2 ^ 36) {i : Index} {rest : List Index}
    (hsplit : tablePath (page.number * 4096) = i :: rest)
    (hpath : TablePath (tablePath (page.number * 4096)))
    (hpass : Passable s.mem root (tablePath (page.number * 4096)))
    (hvacant : link s.mem root i = none) (hrun : map page frame s = .ok (.ok ()) s') :
    ∃ n, 1 ≤ n ∧ n ≤ 3 ∧ Drawn n s.allocator s'.allocator := by
  have hlen : rest.length = 2 := Nat.succ.inj (congrArg List.length hsplit).symm
  rw [hsplit] at hpath hpass
  have hi : i ≠ recursiveSlot := hpath.2 i List.mem_cons_self
  have hsole : Sole s.mem root [] root := hpass.sole [] (i :: rest) root rfl rfl
  have hsquash : squash (i :: rest) = i :: rest := squash_eq_self hpath.2
  have hnever : recursiveSlot ∉ [i] ++ rest := fun hslot => hpath.2 _ hslot rfl
  have hstep : ∀ (next : Option ℕ) s₁,
      nextLevelTableCreateMut (windowPtr []) i s = .ok next s₁ →
      createAlong level4PageTable (tablePath (page.number * 4096)) s =
        andThen next (fun pointer => createAlong pointer rest) s₁ := by
    intro next s₁ hnext
    rw [hsplit, createAlong]
    exact bind_ok hnext
  have hinside : ∀ before after node, ([] : List Index) = before ++ after →
      descend (link s.mem) root before = some node → node ∈ tables s.mem root := by
    intro before after node hnil hnode
    obtain ⟨rfl, -⟩ := List.append_eq_nil_iff.mp hnil.symm
    obtain rfl := Option.some.inj hnode
    exact root_mem_nodes
  have hshort : ([] : List Index).length ≤ 2 := Nat.zero_le 2
  rcases h.create_vacant rfl hshort hinside rfl within_nil hshort hi hsole hvacant with
    ⟨s₁, child, hnext, h₁, hgrown, hchild, -, -, -, first, halloc⟩ | ⟨s₁, hnext, -⟩ |
    ⟨hhuge, -⟩
  · obtain ⟨s₂, -, -, -, -, hcases⟩ := h₁.createAlong_spec [i] rest
      (by rw [squash_eq_self (fun j hj => hpath.2 j (by simp_all))]; exact hchild ▸ rfl)
      (by simp [hlen]) (fun hslot => absurd hslot hnever)
      (by
        show Passable s₁.mem root (squash (i :: rest))
        rw [hsquash]
        exact hgrown.passable hpath hpass)
    rcases hcases with ⟨last, n, hcreate, -, hn, hdrawn⟩ | ⟨hcreate, -⟩
    · rw [map_run hpage (hframe.trans (by decide)) ((hstep _ _ hnext).trans hcreate)] at hrun
      obtain ⟨entry, s₃, hread, hrun⟩ := bind_eq_ok.mp hrun
      split at hrun
      case isTrue =>
        obtain ⟨_, s₄, hset, hrun⟩ := bind_eq_ok.mp hrun
        obtain ⟨-, rfl⟩ := EStateM.Result.ok.inj hrun
        rw [setEntryFrameAddr_allocator hset, readEntry_allocator hread]
        exact ⟨n + 1, by omega, by omega, .some halloc hdrawn⟩
      case isFalse => cases hrun
    · rw [map_run hpage (hframe.trans (by decide)) ((hstep _ _ hnext).trans hcreate)] at hrun
      cases hrun
  · rw [map_run hpage (hframe.trans (by decide)) (hstep _ _ hnext)] at hrun
    cases hrun
  · rw [hpass.small [] i rest root rfl rfl] at hhuge
    cases hhuge

/-- When four frames are left and the first one can be given back, the runtime test succeeds. It
borrows one frame and uses the entry 0 of the level-4 table only. -/
theorem BootTables.runtimeTest_runs {source : ReturningSource α} (hboot : BootTables s)
    (hserves : source.Serves s.allocator {1, 3}) (hlasts : Lasts 4 s.allocator) {k : ℕ}
    (hback : TakesBack k s.allocator) :
    ∃ s' n, runtimeTest s = .ok (.ok ()) s' ∧ 1 ≤ n ∧ n ≤ 3 ∧
      Borrowed n s.allocator s'.allocator ∧ Lasts k s'.allocator ∧
      ∀ i, i ≠ 0 → i ≠ 256 → i ≠ recursiveSlot → SpareEntry s'.mem 1 i := by
  have h : Hosted source.toFrameSource ∅ 1 s :=
    hboot.hosted (Set.empty_disjoint _) (by rw [Set.empty_union]; exact hserves)
  rcases h.allocOne hboot.cr3 with ⟨s₁, a, -, hnone⟩ |
    ⟨frame, s₁, halloc, hsome, hmem₁, hcr3₁, hlt, h₁⟩
  · exact absurd hnone (hlasts 0 _ _ (by decide) (.none _))
  · have hlasts₁ : Lasts 3 s₁.allocator := hlasts.of_drawn (m := 1) (.some hsome (.none _))
    have hboot₁ : BootTables s₁ :=
      ⟨hcr3₁.trans hboot.cr3, hmem₁ ▸ hboot.level4, hmem₁ ▸ hboot.level3⟩
    rcases hboot₁.map_testPage h₁ hlt with ⟨s₂, n, a, -, hn, hdrawn, hnone⟩ |
      ⟨s₂, s₀, table, hmap, hnew⟩
    · exact absurd hnone (hlasts₁ n _ _ hn hdrawn)
    · obtain ⟨hpass, -⟩ := hboot₁.vacant_path [0, 1] (show (0 : Index) ≠ 256 by decide) (by decide)
      have hvacant : link s₁.mem 1 0 = none := by
        rw [link, hboot₁.level4_cleared (by decide) (by decide)]
        exact PageEntry.child_eq_none PageEntry.isPresent_cleared
      obtain ⟨n, hpos, hn, hdrawn⟩ := h₁.map_vacant_drawn (by decide) hlt testPage_path
        testPage_ordinary.tablePath (by rw [testPage_path]; exact hpass) hvacant hmap
      rw [hnew.filled.allocator] at hdrawn
      obtain ⟨a, hfree, hlasts'⟩ := hback frame _ n _ hsome hpos hn hdrawn
      obtain ⟨s₃, hfill, -, -, hallocator₃, hwindow₃, htable₃, haddr⟩ := hnew.write_page hboot₁.cr3
        testPage_ordinary (by decide) hlt ⟨0x0000000100000001⟩ (List.finRange 512)
      rw [← hallocator₃] at hfree
      obtain ⟨s₄, before, hunmap, -, -, hallocator₄, -⟩ :=
        hwindow₃.unmap_present (show testPage.number < 2 ^ 52 by decide)
        testPage_ordinary.tablePath htable₃ haddr hfree
      obtain ⟨-, hsame, -, -⟩ := hnew.write_unmap hboot₁.cr3 testPage_ordinary (by decide) hlt
        (by decide) hfill hunmap
      rw [hallocator₃] at hfree
      refine ⟨s₄, n, ?_, hpos, hn, ?_, ?_, ?_⟩
      · calc runtimeTest s = _ := bind_ok halloc
          _ = _ := bind_ok hmap
          _ = _ := bind_ok (lift_ok (Page.address_eq (show testPage.number < 2 ^ 52 by decide)))
          _ = _ := bind_ok hfill
          _ = _ := bind_ok hunmap
          _ = .ok (.ok ()) s₄ := rfl
      · rw [hallocator₄]
        exact ⟨frame, _, _, hsome, hdrawn, hfree⟩
      · rw [hallocator₄]
        exact hlasts'
      · intro i hzero hkernel hslot
        have hcleared := hboot₁.level4_cleared hkernel hslot
        have hspare : SpareEntry s₁.mem 1 i := ⟨by rw [hcleared]; rfl, by rw [hcleared]; rfl⟩
        have hhead : (tablePath (testPage.number * 4096)).head? ≠ some i := by
          rw [testPage_path]
          exact fun hhead => hzero (Option.some.inj hhead).symm
        exact (hspare.of_grown hnew.grown hnew.along hslot hhead).of_frame (hsame 1 root_mem_nodes)

variable {source : FrameSource α}

/-- When four frames are left, a new table is made below the entry 1 of the level-4 table, if a
search finds this entry first. It takes exactly four frames. -/
theorem Prepared.new_runs (h : Prepared source s) (hlasts : Lasts 4 s.allocator)
    (hone : SpareEntry s.mem 1 1) :
    ∃ inactive s', InActivePageTable.new s = .ok (some inactive) s' ∧
      inactive.level4PageTable.number < 2 ^ 36 ∧ Drawn 4 s.allocator s'.allocator ∧
      (s'.mem 1 1).isPresent = true ∧
      ∀ i, i ≠ 1 → i ≠ recursiveSlot → SpareEntry s.mem 1 i → SpareEntry s'.mem 1 i := by
  rcases h.hosted.allocOne h.cr3 with ⟨s₁, a, -, hnone⟩ |
    ⟨frame, s₁, halloc, hsome, hmem₁, hcr3₁, hlt, h₁⟩
  · exact absurd hnone (hlasts 0 _ _ (by decide) (.none _))
  have hlasts₁ : Lasts 3 s₁.allocator := hlasts.of_drawn (m := 1) (.some hsome (.none _))
  have hsole₁ : Sole s₁.mem 1 [] 1 := by
    rw [hmem₁]
    exact h.sole
  have hfound : firstVacant s₁.mem 1 = some 1 := by
    rw [hmem₁]
    exact firstVacant_one hone
  have hsmall : (s₁.mem 1 1).isHuge = false := by rw [hmem₁, hone.small]
  obtain ⟨s₂, last, hfind, h₂, hgrown, hempty⟩ := h₁.findEmptyPages_runs hsole₁ (le_refl 1)
    (by decide) hfound hsmall hlasts₁
  obtain ⟨s', hrun, -, -, -, hallocator, hroot⟩ :=
    h.new_run halloc hmem₁ hcr3₁ hlt hfind h₂ hgrown hempty (by decide)
  refine ⟨⟨frame⟩, s', hrun, hlt, hallocator ▸ .some hsome hempty.drawn, ?_, ?_⟩
  · obtain ⟨table, htable, -⟩ := Option.bind_eq_some_iff.mp hempty.fresh.reached
    rw [hroot]
    exact (PageEntry.child_eq_some.mp htable).1
  · intro i hi hslot hspare
    rw [← hmem₁] at hspare
    exact (hspare.of_grown hgrown hempty.added hslot
      (fun hhead => hi (Option.some.inj hhead).symm)).of_frame hroot

variable {used : Set ℕ} {root : ℕ}

/-- When three frames are left, mapping a page that is not mapped succeeds in a tree of tables.
It takes at most three frames and uses one entry of the level-4 table only. -/
theorem HostedTree.map_runs (h : HostedTree source used root s) {page : Page}
    {frame : Frame} (hpage : page.number < 2 ^ 52) (hframe : frame.number < 2 ^ 36)
    (hordinary : Ordinary page.indices) (hnone : translation s.mem root page.indices = none)
    (hlasts : Lasts 3 s.allocator) :
    ∃ s' n, ActivePageTable.map page frame s = .ok (.ok ()) s' ∧ n ≤ 3 ∧
      Drawn n s.allocator s'.allocator ∧
      ∀ i, i ≠ recursiveSlot → (tablePath (page.number * 4096)).head? ≠ some i →
        SpareEntry s.mem root i → SpareEntry s'.mem root i := by
  have hpath := hordinary.tablePath
  obtain ⟨s₁, h₁, hgrown, -, hnew, hcases⟩ :=
    h.map_cases hpage hframe hpath (h.tree.passable hpath)
  rcases hcases with ⟨-, -, ⟨n, a, hn, hdrawn, hrefused⟩, -⟩ |
    ⟨table, n, htable, hn, hdrawn, ⟨hpresent, -⟩ | ⟨-, s', hrun, hreach⟩⟩
  · exact absurd hrefused (hlasts n _ _ hn hdrawn)
  · obtain ⟨h₁, htranslation⟩ := h.of_grown h₁ hgrown
    have hmapped := h₁.tree.translation_eq hordinary
    rw [htable, Option.bind_some, if_pos hpresent, htranslation, hnone] at hmapped
    cases hmapped
  · refine ⟨s', n, hrun, hn, hreach.allocator ▸ hdrawn, fun i hi hhead hspare => ?_⟩
    have hne : root ≠ table := by
      rintro rfl
      have hnil := (h.of_grown h₁ hgrown).1.tree.sole [] root within_nil descend_nil _ hpath htable
      cases hnil
    refine (hspare.of_grown hgrown hnew hi hhead).of_frame ?_
    rw [hreach.mem, set_frame_of_ne _ _ _ hne]

/-- When three frames are left for each of them, mapping pairwise different pages that are not
mapped succeeds in a tree of tables. It uses the entries of these pages of the level-4 table
only. -/
theorem HostedTree.mapAll_runs (h : HostedTree source used root s)
    {calls : List (Page × Frame)}
    (hfits : ∀ call ∈ calls, call.1.number < 2 ^ 52 ∧ call.2.number < 2 ^ 36)
    (hordinary : ∀ call ∈ calls, Ordinary call.1.indices)
    (hdistinct : (calls.map fun call => call.1.indices).Nodup)
    (hnone : ∀ call ∈ calls, translation s.mem root call.1.indices = none)
    (hlasts : Lasts (3 * calls.length) s.allocator) :
    ∃ s' n, Axel.mapAll calls s = .ok (.ok ()) s' ∧ n ≤ 3 * calls.length ∧
      Drawn n s.allocator s'.allocator ∧
      ∀ i, i ≠ recursiveSlot →
        (∀ call ∈ calls, (tablePath (call.1.number * 4096)).head? ≠ some i) →
        SpareEntry s.mem root i → SpareEntry s'.mem root i := by
  induction calls generalizing s with
  | nil => exact ⟨s, 0, rfl, le_rfl, .none _, fun _ _ _ hspare => hspare⟩
  | cons call calls ih =>
    have hlength : (call :: calls).length = calls.length + 1 := List.length_cons
    obtain ⟨hpage, hframe⟩ := hfits call List.mem_cons_self
    obtain ⟨s₁, n, hmap, hn, hdrawn, hspare₁⟩ := h.map_runs hpage hframe
      (hordinary call List.mem_cons_self) (hnone call List.mem_cons_self)
      (hlasts.mono (by omega))
    obtain ⟨h₁, -, -, -, hupdate⟩ := h.map (hordinary call List.mem_cons_self).tablePath hmap
    obtain ⟨hfirst, hrest⟩ := List.nodup_cons.mp hdistinct
    have hnone₁ : ∀ other ∈ calls, translation s₁.mem root other.1.indices = none := by
      intro other hother
      have hne : other.1.indices ≠ call.1.indices :=
        fun hsame => hfirst (List.mem_map.mpr ⟨other, hother, hsame⟩)
      rw [hupdate, Function.update_of_ne hne, hnone other (List.mem_cons_of_mem call hother)]
    obtain ⟨s', m, hrun, hm, hdrawn', hspare'⟩ := ih h₁
      (fun other hother => hfits other (List.mem_cons_of_mem call hother))
      (fun other hother => hordinary other (List.mem_cons_of_mem call hother)) hrest hnone₁
      ((hlasts.mono (show n + 3 * calls.length ≤ _ by omega)).of_drawn hdrawn)
    refine ⟨s', n + m, (bind_ok hmap).trans hrun, by omega, hdrawn.trans hdrawn', ?_⟩
    intro i hi hheads hspare
    exact hspare' i hi (fun other hother => hheads other (List.mem_cons_of_mem call hother))
      (hspare₁ i hi (hheads call List.mem_cons_self) hspare)

end Phases

section Remap

variable [FrameAllocator α]

/-- The inner loop over a request maps its pages. -/
theorem remapFrom_eq {kernel : KernelAddrs} {addr remaining i : ℕ}
    (hfits : addr + (i + remaining) * 4096 + kernel.virtualOffset ≤ usizeCount) :
    remapFrom (α := α) kernel addr remaining i = mapAll ((List.range' i remaining).map fun i =>
      (Page.fromAddress (addr + i * 4096 + kernel.virtualOffset),
        Frame.fromAddress (addr + i * 4096))) := by
  induction remaining generalizing i with
  | zero => rfl
  | succ remaining ih =>
    funext s
    have hoffset : checkedMul i frameSize = .ok (i * 4096) := checkedMul_ok (by
      unfold frameSize
      omega)
    have hsum : checkedAdd addr (i * 4096) = .ok (addr + i * 4096) := checkedAdd_ok (by omega)
    have hvirtual : kernel.toVirtualAddr (addr + i * 4096) =
        .ok (addr + i * 4096 + kernel.virtualOffset) := checkedAdd_ok (by omega)
    have hshift : i + (remaining + 1) = i + 1 + remaining := by omega
    have hrest := ih (hshift ▸ hfits)
    rw [remapFrom, List.range'_succ, List.map_cons, mapAll, bind_ok (lift_ok hoffset),
      bind_ok (lift_ok hsum), bind_ok (lift_ok hvirtual)]
    exact hrest ▸ rfl

/-- The outer loop maps the pages of all requests. -/
theorem remapRequests_eq {kernel : KernelAddrs} {requests : List IdenticalReMapRequest}
    (hfits : ∀ request ∈ requests,
      request.addr + request.count * 4096 + kernel.virtualOffset ≤ usizeCount) :
    remapRequests (α := α) kernel requests =
      mapAll (requests.flatMap (requestMappings kernel)) := by
  induction requests with
  | nil => rfl
  | cons request rest ih =>
    have hfirst := hfits request List.mem_cons_self
    rw [remapRequests, remapFrom_eq (by rw [Nat.zero_add]; exact hfirst),
      ih fun other hother => hfits other (List.mem_cons_of_mem request hother),
      ← List.range_eq_range', List.flatMap_cons, mapAll_append]
    rfl

/-- The loop of `map_fitting` maps its pages. -/
theorem mapFittingFrom_eq {vBegin pBegin remaining i : ℕ}
    (hvirtual : vBegin + (i + remaining) * 4096 < usizeCount)
    (hphysical : pBegin + (i + remaining) * 4096 < usizeCount) :
    mapFittingFrom (α := α) vBegin pBegin remaining (i * 4096) =
      mapAll ((List.range' i remaining).map fun i =>
        (Page.fromAddress (vBegin + i * 4096), Frame.fromAddress (pBegin + i * 4096))) := by
  induction remaining generalizing i with
  | zero => rfl
  | succ remaining ih =>
    funext s
    have hshift : i + (remaining + 1) = i + 1 + remaining := by omega
    have hfits : vBegin + i * 4096 < usizeCount ∧ pBegin + i * 4096 < usizeCount ∧
        i * 4096 + 4096 < usizeCount := by
      unfold usizeCount at *
      omega
    have hpage : checkedAdd vBegin (i * 4096) = .ok (vBegin + i * 4096) := checkedAdd_ok hfits.1
    have hframe : checkedAdd pBegin (i * 4096) = .ok (pBegin + i * 4096) := checkedAdd_ok hfits.2.1
    have hnext : checkedAdd (i * 4096) 4096 = .ok ((i + 1) * 4096) := by
      rw [Nat.succ_mul]
      exact checkedAdd_ok hfits.2.2
    rw [mapFittingFrom, List.range'_succ, List.map_cons, mapAll, bind_ok (lift_ok hpage),
      bind_ok (lift_ok hframe), ← ih (hshift ▸ hvirtual) (hshift ▸ hphysical), hnext]
    rfl

/-- `map_fitting` maps the pages of a range of less than 2 MB. -/
theorem mapFitting_eq {vBegin pBegin size : ℕ} (hsmall : size < 2 * 1024 * 1024)
    (hvirtual : vBegin + size < usizeCount) (hphysical : pBegin + size < usizeCount) :
    mapFitting (α := α) (vBegin, vBegin + size) (pBegin, pBegin + size) =
      mapAll ((List.range (size / 4096)).map fun i =>
        (Page.fromAddress (vBegin + i * 4096), Frame.fromAddress (pBegin + i * 4096))) := by
  funext s
  have hsize : ∀ first, checkedSub (first + size) first = .ok size := by
    intro first
    rw [checkedSub_ok (Nat.le_add_right first size), Nat.add_sub_cancel_left]
  have hassert : debugAssert (size == size) = .ok () := if_pos (beq_self_eq_true _)
  have hzero : size / (2 * 1024 * 1024) = 0 := by omega
  have hends : vBegin + (0 + size / 4096) * 4096 < usizeCount ∧
      pBegin + (0 + size / 4096) * 4096 < usizeCount := by
    unfold usizeCount at *
    omega
  rw [mapFitting, bind_ok (lift_ok (hsize vBegin)), bind_ok (lift_ok (hsize pBegin)),
    bind_ok (lift_ok hassert), List.range_eq_range', ← mapFittingFrom_eq hends.1 hends.2]
  simp [hzero]

/-- What the initialisation expects of the addresses of the kernel: both ranges have the same
size, which is less than 2 MB, and whole pages. -/
structure KernelAddrs.Regular (kernel : KernelAddrs) : Prop where
  /-- The end of the kernel has a virtual address. -/
  fits : kernel.physicalEnd + kernel.virtualOffset < usizeCount
  /-- Virtual and physical addresses differ by the offset. -/
  offset : kernel.virtualBegin = kernel.physicalBegin + kernel.virtualOffset
  /-- The kernel has a first byte. -/
  nonempty : kernel.physicalBegin < kernel.physicalEnd
  /-- The kernel starts at a page. -/
  beginAligned : (kernel.virtualBegin &&& 0xfff == 0) = true
  /-- The kernel ends at a page. -/
  endAligned : (kernel.physicalEnd + kernel.virtualOffset &&& 0xfff == 0) = true
  /-- The kernel has less than 2 MB. -/
  small : kernel.physicalEnd - kernel.physicalBegin < 2 * 1024 * 1024

/-- The closure of the initialisation maps its pages. -/
theorem remap_eq {kernel : KernelAddrs} (hkernel : kernel.Regular)
    {requests : List IdenticalReMapRequest} (hfits : ∀ request ∈ requests,
      request.addr + request.count * 4096 + kernel.virtualOffset ≤ usizeCount) :
    remap (α := α) kernel (kernel.physicalEnd + kernel.virtualOffset) requests =
      mapAll (initMappings kernel requests) := by
  have hlt := hkernel.fits
  have hoffset := hkernel.offset
  have hnonempty := hkernel.nonempty
  have hsmall := hkernel.small
  have hsize : kernel.physicalEnd + kernel.virtualOffset - kernel.virtualBegin =
      kernel.physicalEnd - kernel.physicalBegin := by omega
  have hvirtual : kernel.physicalEnd + kernel.virtualOffset =
      kernel.virtualBegin + (kernel.physicalEnd - kernel.physicalBegin) := by omega
  have hphysical : kernel.physicalBegin + (kernel.physicalEnd - kernel.physicalBegin) =
      kernel.physicalEnd := by omega
  have hfitting := @mapFitting_eq α _ kernel.virtualBegin kernel.physicalBegin _ hsmall
    (by omega) (by omega)
  rw [← hvirtual, hphysical, ← hsize] at hfitting
  rw [remap, remapRequests_eq hfits, initMappings, mapAll_append, hfitting]
  rfl

end Remap

section Success

variable {s : Machine FramePool} {kernel : KernelAddrs} {requests : List IdenticalReMapRequest}

/-- `switch` succeeds when the frame of the table fits into an entry. -/
theorem switch_runs {α : Type} {s : Machine α} {inactive : InActivePageTable}
    (h : inactive.level4PageTable.number < 2 ^ 36) :
    ∃ old s', switch inactive s = .ok old s' ∧ s'.allocator = s.allocator := by
  have hlt : inactive.level4PageTable.number * 4096 < 2 ^ 52 := by omega
  refine ⟨⟨Frame.fromAddress (s.cr3 * frameSize)⟩,
    { s with cr3 := inactive.level4PageTable.number * 4096 / 4096 }, ?_, rfl⟩
  rw [switch, bind_ok (show readCr3 s = .ok (s.cr3 * frameSize) s from rfl),
    bind_ok (lift_ok (Frame.address_eq h)), if_pos hlt]
  rfl

/-- The initialisation succeeds when the runtime test, the new table, the mappings and the switch
do: the checks of the addresses of the kernel hold. -/
theorem init_eq {α : Type} [FrameAllocator α] {s s₁ s₂ s₃ s' : Machine α}
    {inactive old : InActivePageTable} (hkernel : kernel.Regular)
    (htest : runtimeTest s = .ok (.ok ()) s₁)
    (hnew : InActivePageTable.new s₁ = .ok (some inactive) s₂)
    (hwith : withTable inactive
      (remap kernel (kernel.physicalEnd + kernel.virtualOffset) requests) s₂ = .ok (.ok ()) s₃)
    (hswitch : switch inactive s₃ = .ok old s') : init kernel requests s = .ok (.ok ()) s' := by
  have hoffset := hkernel.offset
  have hnonempty := hkernel.nonempty
  have hend : kernel.toVirtualAddr kernel.physicalEnd =
      .ok (kernel.physicalEnd + kernel.virtualOffset) := checkedAdd_ok hkernel.fits
  have hsize : checkedSub (kernel.physicalEnd + kernel.virtualOffset) kernel.virtualBegin =
      .ok (kernel.physicalEnd + kernel.virtualOffset - kernel.virtualBegin) :=
    checkedSub_ok (by omega)
  have hassert : debugAssert (kernel.virtualBegin < kernel.physicalEnd + kernel.virtualOffset) =
      .ok () := if_pos (decide_eq_true (by omega))
  have hassertBegin : debugAssert (kernel.virtualBegin &&& 0xfff == 0) = .ok () :=
    if_pos hkernel.beginAligned
  have hassertEnd : debugAssert (kernel.physicalEnd + kernel.virtualOffset &&& 0xfff == 0) =
      .ok () := if_pos hkernel.endAligned
  calc init kernel requests s = _ := bind_ok htest
    _ = _ := bind_ok (lift_ok hend)
    _ = _ := bind_ok (lift_ok hsize)
    _ = _ := bind_ok (lift_ok hassert)
    _ = _ := bind_ok (lift_ok hassertBegin)
    _ = _ := bind_ok (lift_ok hassertEnd)
    _ = _ := bind_ok hnew
    _ = _ := bind_ok hwith
    _ = _ := bind_ok hswitch
    _ = .ok (.ok ()) s' := rfl

/-- The mappings of the requests and of the kernel succeed in an opened table, when three frames
are left for every page. -/
theorem Opened.remap_runs {α : Type} [FrameAllocator α] {source : FrameSource α}
    {s s' : Machine α} {inactive : ℕ} {i : Index}
    (h : Opened source s inactive i s') (hkernel : kernel.Regular)
    (hfits : ∀ request ∈ requests,
      request.addr + request.count * 4096 + kernel.virtualOffset ≤ usizeCount)
    (hnumbers : ∀ call ∈ initMappings kernel requests,
      call.1.number < 2 ^ 52 ∧ call.2.number < 2 ^ 36)
    (hordinary : ∀ call ∈ initMappings kernel requests, Ordinary call.1.indices)
    (hdistinct : ((initMappings kernel requests).map fun call => call.1.indices).Nodup)
    (hlasts : Lasts (3 * (initMappings kernel requests).length) s'.allocator) :
    ∃ s₁ n, remap kernel (kernel.physicalEnd + kernel.virtualOffset) requests s' =
        .ok (.ok ()) s₁ ∧
      n ≤ 3 * (initMappings kernel requests).length ∧ Drawn n s'.allocator s₁.allocator ∧
      HostedTree source (tables s'.mem s.cr3) inactive s₁ ∧ Confined inactive s' s₁ ∧
      ∀ i, i ≠ recursiveSlot → (∀ call ∈ initMappings kernel requests,
        (tablePath (call.1.number * 4096)).head? ≠ some i) → SpareEntry s₁.mem inactive i := by
  have hnone : ∀ call ∈ initMappings kernel requests,
      translation s'.mem inactive call.1.indices = none := by
    intro call hcall
    rw [translation_of_ordinary (hordinary call hcall) rfl,
      h.only.walk_eq_none (hordinary call hcall)]
  obtain ⟨s₁, n, hmaps, hn, hdrawn, hspare⟩ :=
    h.hosted.mapAll_runs hnumbers hordinary hdistinct hnone hlasts
  obtain ⟨h₁, hconfined, -⟩ := h.hosted.mapAll
    (fun call hcall => (hordinary call hcall).tablePath) hmaps
  refine ⟨s₁, n, by rw [remap_eq hkernel hfits, hmaps], hn, hdrawn, h₁, hconfined, ?_⟩
  intro i hi hheads
  exact hspare i hi hheads
    ⟨h.only.absent i hi, h.hosted.tree.small [] inactive i within_nil descend_nil hi⟩

/-- When the runtime test leaves seven frames and three more for every page, the initialisation
succeeds, if the pages are pairwise different, have no recursive slot and fit. The entries of
other pages of the new level-4 table are spare. -/
theorem BootTables.init_runs {α : Type} [FrameAllocator α] {source : ReturningSource α}
    {s : Machine α} (hboot : BootTables s) (hserves : source.Serves s.allocator {1, 3})
    (hkernel : kernel.Regular) (hfits : ∀ request ∈ requests,
      request.addr + request.count * 4096 + kernel.virtualOffset ≤ usizeCount)
    (hnumbers : ∀ call ∈ initMappings kernel requests,
      call.1.number < 2 ^ 52 ∧ call.2.number < 2 ^ 36)
    (hordinary : ∀ call ∈ initMappings kernel requests, Ordinary call.1.indices)
    (hdistinct : ((initMappings kernel requests).map fun call => call.1.indices).Nodup)
    (hlasts : Lasts 4 s.allocator)
    (hback : TakesBack (7 + 3 * (initMappings kernel requests).length) s.allocator) :
    ∃ s' a n m, init kernel requests s = .ok (.ok ()) s' ∧ 1 ≤ n ∧ n ≤ 3 ∧
      Borrowed n s.allocator a ∧ m ≤ 7 + 3 * (initMappings kernel requests).length ∧
      Drawn m a s'.allocator ∧
      ∀ i, i ≠ recursiveSlot → (∀ call ∈ initMappings kernel requests,
        (tablePath (call.1.number * 4096)).head? ≠ some i) → SpareEntry s'.mem s'.cr3 i := by
  obtain ⟨s₁, n, htest, hpos, hn, hborrowed, hlasts₁, hspare₁⟩ :=
    hboot.runtimeTest_runs hserves hlasts hback
  have hprepared := hboot.runtimeTest_ok hserves htest
  obtain ⟨inactive, s₂, hnew, hinactive, hdrawn₂, hone, hspare₂⟩ :=
    hprepared.new_runs (hlasts₁.mono (by omega)) (hspare₁ 1 (by decide) (by decide) (by decide))
  have hlasts₂ : Lasts (3 + 3 * (initMappings kernel requests).length) s₂.allocator :=
    (hlasts₁.mono (by omega)).of_drawn hdrawn₂
  obtain ⟨hsuspendable, hcr3₂, hserves₂⟩ := hprepared.new_ok hnew
  have htwo := hspare₂ 2 (by decide) (by decide) (hspare₁ 2 (by decide) (by decide) (by decide))
  rw [← hcr3₂] at htwo hone
  have hremap : ∀ s₄, Opened source.toFrameSource s₂ inactive.level4PageTable.number 2 s₄ →
      Drawn 3 s₂.allocator s₄.allocator → _ :=
    fun s₄ hopened hdrawn => hopened.remap_runs hkernel hfits hnumbers hordinary hdistinct
      (hlasts₂.of_drawn hdrawn)
  obtain ⟨s₄, s₅, s₃, hwith, hf, hopened, hdrawn₄, hallocator₃, hmem₃⟩ :=
    hsuspendable.with_runs hserves₂ (hlasts₂.mono (by omega)) (firstVacant_two hone htwo)
      htwo.small (by decide) (by rw [hcr3₂]; decide) hinactive fun s₄ hopened hdrawn => by
        obtain ⟨s₅, -, hrun, -, -, h₅, hconfined, -⟩ := hremap s₄ hopened hdrawn
        exact ⟨s₅, hrun, h₅, hconfined⟩
  obtain ⟨s₆, m, hrun, hm, hdrawn₅, h₅, -, hspare⟩ := hremap s₄ hopened hdrawn₄
  rw [hf] at hrun
  obtain ⟨-, rfl⟩ := EStateM.Result.ok.inj hrun
  obtain ⟨old, s', hswitch, hallocator⟩ := switch_runs (s := s₃) hinactive
  refine ⟨s', s₁.allocator, n, 4 + (3 + m), init_eq hkernel htest hnew hwith hswitch, hpos, hn,
    hborrowed, by omega, ?_, fun i hi hheads => ?_⟩
  · rw [hallocator, hallocator₃]
    exact hdrawn₂.trans (hdrawn₄.trans hdrawn₅)
  · obtain ⟨hcr3, hmem⟩ := switch_ok hswitch
    have hne : inactive.level4PageTable.number ≠ s₂.cr3 := by
      intro hsame
      exact Set.disjoint_left.mp h₅.apart root_mem_nodes (hsame ▸ root_mem_nodes)
    rw [hcr3]
    refine (hspare i hi hheads).of_frame ?_
    rw [hmem, hmem₃, set_frame_of_ne _ _ _ hne]

/-- On a stack with ten free frames and three more for every page, the initialisation succeeds
when the pages are pairwise different, have no recursive slot and fit. -/
theorem init_runs (hboot : BootTables s) (hserves : FramePool.source.Serves s.allocator {1, 3})
    (hkernel : kernel.Regular) (hfits : ∀ request ∈ requests,
      request.addr + request.count * 4096 + kernel.virtualOffset ≤ usizeCount)
    (hnumbers : ∀ call ∈ initMappings kernel requests,
      call.1.number < 2 ^ 52 ∧ call.2.number < 2 ^ 36)
    (hordinary : ∀ call ∈ initMappings kernel requests, Ordinary call.1.indices)
    (hdistinct : ((initMappings kernel requests).map fun call => call.1.indices).Nodup)
    (hrich : 10 + 3 * (initMappings kernel requests).length ≤ s.allocator.frames.length) :
    ∃ s', init kernel requests s = .ok (.ok ()) s' := by
  have hsource : FramePool.returning.Serves s.allocator {1, 3} := hserves
  obtain ⟨s', -, -, -, hrun, -⟩ := hboot.init_runs hsource hkernel hfits hnumbers hordinary
    hdistinct (FramePool.lasts (by omega)) (FramePool.takesBack (by omega))
  exact ⟨s', hrun⟩

end Success

section Result

variable [FrameAllocator α] {source : ReturningSource α} {s s' : Machine α}
  {kernel : KernelAddrs} {requests : List IdenticalReMapRequest}

/-- The stages of an initialisation that returns `Ok`, each of which succeeded. -/
theorem init_ok (hrun : init kernel requests s = .ok (.ok ()) s') :
    ∃ s₁ inactive s₂ s₃ old, runtimeTest s = .ok (.ok ()) s₁ ∧
      InActivePageTable.new s₁ = .ok (some inactive) s₂ ∧
      withTable inactive
        (remap kernel (kernel.physicalEnd + kernel.virtualOffset) requests) s₂ = .ok (.ok ()) s₃ ∧
      switch inactive s₃ = .ok old s' := by
  obtain ⟨tested, s₁, htest, hrun⟩ := bind_eq_ok.mp hrun
  cases tested with
  | error error => cases hrun
  | ok u =>
    obtain ⟨kernelEnd, hend, hrun⟩ := lift_bind_eq_ok.mp hrun
    obtain ⟨-, rfl⟩ := checkedAdd_eq_ok.mp hend
    obtain ⟨_, -, hrun⟩ := lift_bind_eq_ok.mp hrun
    obtain ⟨_, -, hrun⟩ := lift_bind_eq_ok.mp hrun
    obtain ⟨_, -, hrun⟩ := lift_bind_eq_ok.mp hrun
    obtain ⟨_, -, hrun⟩ := lift_bind_eq_ok.mp hrun
    obtain ⟨new, s₂, hnew, hrun⟩ := bind_eq_ok.mp hrun
    cases new with
    | none => cases hrun
    | some inactive =>
      obtain ⟨result, s₃, hwith, hrun⟩ := bind_eq_ok.mp hrun
      cases result with
      | error error => cases hrun
      | ok u =>
        obtain ⟨old, s₄, hswitch, hrun⟩ := bind_eq_ok.mp hrun
        obtain ⟨-, rfl⟩ := EStateM.Result.ok.inj hrun
        exact ⟨s₁, inactive, s₂, s₃, old, htest, hnew, hwith, hswitch⟩

/-- When the initialisation returns `Ok` on the boot tables, the processor runs on a new table
that maps exactly the pages of the requests and of the kernel, among the pages without the
recursive slot, and whose recursive slot refers to the table itself. -/
theorem init_translation (hboot : BootTables s) (hserves : source.Serves s.allocator {1, 3})
    (hpages : ∀ call ∈ initMappings kernel requests,
      TablePath (tablePath (call.1.number * 4096)))
    (hrun : init kernel requests s = .ok (.ok ()) s') :
    s'.cr3 ≠ s.cr3 ∧ link s'.mem s'.cr3 recursiveSlot = some s'.cr3 ∧
    ∀ ix, Ordinary ix → ix.length = 4 → ∀ frame, walk s'.mem s'.cr3 ix = some frame ↔
      ∃ call ∈ initMappings kernel requests, call.1.indices = ix ∧ call.2.number = frame := by
  obtain ⟨s₁, inactive, s₂, s₃, old, htest, hnew, hwith, hswitch⟩ := init_ok hrun
  obtain ⟨hsuspendable, hcr3₂, hserves₂⟩ := (hboot.runtimeTest_ok hserves htest).new_ok hnew
  have hkeeps : ∀ used s₄ s₅,
      HostedTree source.toFrameSource used inactive.level4PageTable.number s₄ →
      remap kernel (kernel.physicalEnd + kernel.virtualOffset) requests s₄ = .ok (.ok ()) s₅ →
      HostedTree source.toFrameSource used inactive.level4PageTable.number s₅ ∧
        Confined inactive.level4PageTable.number s₄ s₅ := by
    intro used s₄ s₅ h₄ hremap
    obtain ⟨h₅, hconfined, -⟩ := h₄.mapAll hpages (remap_ok hremap)
    exact ⟨h₅, hconfined⟩
  rcases hsuspendable.with_returned hserves₂ hkeeps hwith with
    ⟨i4, s₀, s₄, s₅, -, hopened, hremap, hcr3₃, hmem₃⟩ | ⟨herror, -⟩
  · obtain ⟨h₅, -, htranslation⟩ := hopened.hosted.mapAll hpages (remap_ok hremap)
    have hsame : ∀ f ∈ tables s₅.mem inactive.level4PageTable.number,
        s₃.mem f = s₅.mem f := by
      intro f hf
      have hne : f ≠ s₂.cr3 := by
        rintro rfl
        exact Set.disjoint_left.mp h₅.apart root_mem_nodes hf
      rw [hmem₃, set_frame_of_ne _ _ _ hne]
    have hnew : inactive.level4PageTable.number ≠ 1 := by
      intro hone
      rw [← hcr3₂] at hone
      exact hsuspendable.apart (hone ▸ root_mem_nodes)
    obtain ⟨hcr3, hmem⟩ := switch_ok hswitch
    refine ⟨?_, ?_, ?_⟩
    · rw [hcr3, hboot.cr3]
      exact hnew
    · rw [hcr3, hmem, link_of_frame (hsame _ root_mem_nodes)]
      exact h₅.window.stays
    · intro ix hix hix4 frame
      rw [hcr3, hmem, walk_of_tables hsame hix hix4, ← translation_of_ordinary hix hix4,
        htranslation, translation_of_ordinary hix hix4, hopened.only.walk_eq_none hix]
      simp
  · cases herror

end Result

/-- The boot tables with sixteen free frames. -/
def initMachine : Machine FramePool := { bootMachine with allocator := ⟨List.range' 16 16⟩ }

/-- A kernel of one page at 1 MB. -/
def initKernel : KernelAddrs := ⟨0xffff800000100000, 0x100000, 0x101000, 0xffff800000000000⟩

/-- A run of the initialisation that maps the text buffer and the kernel. -/
theorem init_translation_first :
    ∃ s', init initKernel [⟨0xb8000, 1⟩] initMachine = .ok (.ok ()) s' ∧
      s'.cr3 ≠ initMachine.cr3 ∧ link s'.mem s'.cr3 recursiveSlot = some s'.cr3 ∧
      ∀ ix, Ordinary ix → ix.length = 4 → ∀ frame, walk s'.mem s'.cr3 ix = some frame ↔
        ∃ call ∈ initMappings initKernel [⟨0xb8000, 1⟩],
          call.1.indices = ix ∧ call.2.number = frame := by
  have hboot : BootTables initMachine := ⟨rfl, rfl, rfl⟩
  have hserves : FramePool.returning.Serves initMachine.allocator {1, 3} := by
    refine ⟨List.nodup_range', ?_⟩
    intro frame hframe
    obtain ⟨hle, hlt⟩ := List.mem_range'_1.mp hframe
    simp only [Set.mem_insert_iff, Set.mem_singleton_iff]
    omega
  have hordinary : ∀ call ∈ initMappings initKernel [⟨0xb8000, 1⟩], Ordinary call.1.indices := by
    decide +kernel
  obtain ⟨s', hrun⟩ := init_runs hboot hserves
    (⟨by decide, rfl, by decide, by decide, by decide, by decide⟩ : initKernel.Regular)
    (show ∀ request ∈ [(⟨0xb8000, 1⟩ : IdenticalReMapRequest)], _ by decide) (by decide +kernel)
    hordinary (by decide +kernel) (by decide +kernel)
  exact ⟨s', hrun, init_translation hboot hserves
    (fun call hcall => (hordinary call hcall).tablePath) hrun⟩

end Axel
