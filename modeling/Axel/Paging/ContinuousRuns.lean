import Axel.Paging.Atomicity
import Axel.Paging.Levels

/-!
# Ranges that `auto_continuous_map` returns

Runs of `map`, `unmap` and `auto_continuous_map`, with the ranges that were returned on the way.
Whatever pages and frames the calls are for, `auto_continuous_map` never reaches its `panic!`, and
the pages of a range that it returns are translated to the frames of the block. A page with the
recursive slot is an entry of a table, so calls for such pages can link tables at several levels
and clear the entries of others. When the pages of all calls have no recursive slot, each range
keeps its entry of the level-4 table, so that new ranges are disjoint from it, and only the pages
of a new range are translated in another way.
-/

namespace Axel

open Descent Table ActivePageTable

variable {α : Type}

/-- A call of `map`, `unmap` or `auto_continuous_map`. -/
inductive MappingCall where
  /-- `map(page, frame)`. -/
  | map (page : Page) (frame : Frame)
  /-- `unmap(page)`. -/
  | unmap (page : Page)
  /-- `auto_continuous_map(frame)`. -/
  | autoContinuousMap (frame : Frame)

/-- The page of the call has no recursive slot. -/
def MappingCall.Ordinary : MappingCall → Prop
  | .map page _ => Axel.Ordinary page.indices
  | .unmap page => Axel.Ordinary page.indices
  | .autoContinuousMap _ => True

/-- Run a call. The result is the range that it returned. -/
def MappingCall.run [FrameAllocator α] : MappingCall → Kernel α (Option (ℕ × ℕ))
  | .map page frame => do
    let _ ← ActivePageTable.map page frame
    return none
  | .unmap page => do
    let _ ← ActivePageTable.unmap page
    return none
  | .autoContinuousMap frame => ActivePageTable.autoContinuousMap frame

/-- The calls from a first state to another one and the ranges that they returned, when the
allocator hands out no frame that a page walk can read. -/
inductive MappingRun [FrameAllocator α] (source : FrameSource α) (s₀ : Machine α) :
    List MappingCall → List (ℕ × ℕ) → Machine α → Prop where
  /-- No call. -/
  | start : MappingRun source s₀ [] [] s₀
  /-- One more call that returned. -/
  | call {calls : List MappingCall} {ranges : List (ℕ × ℕ)} {s s' : Machine α}
    {call : MappingCall} {r : Option (ℕ × ℕ)} : MappingRun source s₀ calls ranges s →
    source.Serves s.allocator (visited s.mem s.cr3) → call.run s = .ok r s' →
    MappingRun source s₀ (call :: calls) (r.toList ++ ranges) s'

/-- What is promised of `auto_continuous_map` after any calls. -/
structure MapsBlock [FrameAllocator α] (frame : Frame) (s : Machine α) : Prop where
  /-- The `panic!` is not reached. -/
  no_panic : ∀ s', autoContinuousMap frame s ≠ .error .panic s'
  /-- A range is as long as the block. -/
  length_eq : ∀ a b s', autoContinuousMap frame s = .ok (some (a, b)) s' →
    b = a + 2 ^ frame.order * 4096
  /-- The pages of a range are translated to the frames of the block. -/
  translates : ∀ a b s', autoContinuousMap frame s = .ok (some (a, b)) s' →
    ∀ i < 2 ^ frame.order,
      walk s'.mem s'.cr3 (indices (a + i * 4096)) = some (frame.number + i)

/-- What is promised of `auto_continuous_map` after calls for pages without the recursive slot
that returned the given ranges. -/
structure AllOrNothing [FrameAllocator α] (frame : Frame) (ranges : List (ℕ × ℕ))
    (s : Machine α) : Prop where
  /-- The call returns, when the frames of the block fit into entries and the entries of the
  level-4 table that are not present are zero. -/
  returns : frame.order < 15 → frame.number + 2 ^ frame.order ≤ 2 ^ 36 →
    (∀ i, (s.mem s.cr3 i).isPresent = false → s.mem s.cr3 i = .cleared) →
    ∃ r s', autoContinuousMap frame s = .ok r s'
  /-- A range is disjoint from the ranges before. -/
  disjoint : ∀ a b s', autoContinuousMap frame s = .ok (some (a, b)) s' →
    ∀ range ∈ ranges, Disjoint (Set.Ico a b) (Set.Ico range.1 range.2)
  /-- The pages outside a range are translated as before. -/
  kept : ∀ a b s', autoContinuousMap frame s = .ok (some (a, b)) s' → ∀ page : Page,
    Ordinary page.indices → page.number * 4096 % 2 ^ 48 ∉ Set.Ico a b →
    walk s'.mem s'.cr3 page.indices = walk s.mem s.cr3 page.indices
  /-- Without a range, all pages are translated as before. -/
  unchanged : ∀ s', autoContinuousMap frame s = .ok none s' → ∀ page : Page,
    Ordinary page.indices → walk s'.mem s'.cr3 page.indices = walk s.mem s.cr3 page.indices

section Runs

variable [FrameAllocator α] {source : FrameSource α} {s₀ s s' : Machine α}
  {calls : List MappingCall} {ranges : List (ℕ × ℕ)} {frame : Frame}

/-- Searching the entries of a table does not panic. -/
theorem findFreeFrom_ne_panic {α : Type} {s : Machine α} {table count c : ℕ} {is : List Index}
    {index : Option Index} (s' : Machine α) :
    findFreeFrom table count is index c s ≠ .error .panic s' := by
  induction is generalizing s s' index c with
  | nil => simp [findFreeFrom, pure_run]
  | cons i is ih =>
    refine bind_ne_error (readEntry_ne_panic table i) (fun e s₁ _ => ?_) s'
    split
    · refine lift_bind_ne_error (checkedSub_ne_panic c 1) fun c' _ => ?_
      split
      · exact fun s' => by simp [pure_run]
      · exact fun s' => ih s'
    · exact fun s' => ih s'

/-- After any calls, `auto_continuous_map` does not reach its `panic!`: when the recursive slot of
the active table is gone, its first access faults. -/
theorem Anchored.autoContinuousMap_ne_panic (h : Anchored s)
    (hserves : source.Serves s.allocator (visited s.mem s.cr3)) (s' : Machine α) :
    ActivePageTable.autoContinuousMap frame s ≠ .error .panic s' := by
  by_cases hwindow : Window s.mem s.cr3 s.cr3
  · exact (hwindow.supplied hserves).autoContinuousMap_ne_panic s'
  · refine lift_bind_ne_error (check_ne_panic (by simp)) (fun count _ => ?_) s'
    refine lift_bind_ne_error (checkedMul_ne_panic _ _) fun size _ => ?_
    refine bind_ne_error (bind_ne_error findFreeFrom_ne_panic fun found s₁ hfind => ?_)
      fun found s₁ hfind => ?_
    · exact absurd (h.window_of_search hfind) hwindow
    · exact absurd (h.window_of_find hfind) hwindow

/-- The anchor survives every call. -/
theorem Anchored.mappingCall (h : Anchored s)
    (hserves : source.Serves s.allocator (visited s.mem s.cr3)) {call : MappingCall}
    {r : Option (ℕ × ℕ)} (hrun : call.run s = .ok r s') : Anchored s' := by
  cases call with
  | map page frame =>
    obtain ⟨result, s₁, hmap, hpure⟩ := bind_eq_ok.mp hrun
    obtain ⟨-, rfl⟩ := EStateM.Result.ok.inj hpure
    exact h.map hserves hmap
  | unmap page =>
    obtain ⟨result, s₁, hunmap, hpure⟩ := bind_eq_ok.mp hrun
    obtain ⟨-, rfl⟩ := EStateM.Result.ok.inj hpure
    exact h.unmap hunmap
  | autoContinuousMap frame => exact h.autoContinuousMap hserves hrun

/-- Every state that calls reach is anchored. -/
theorem MappingRun.anchored (hrun : MappingRun source s₀ calls ranges s)
    (hstart : Layered s₀) : Anchored s := by
  induction hrun with
  | start => exact .of_window hstart.window
  | call _ hserves hcall ih => exact ih.mappingCall hserves hcall

/-- What is promised after any calls. -/
theorem Anchored.mapsBlock (h : Anchored s)
    (hserves : source.Serves s.allocator (visited s.mem s.cr3)) : MapsBlock frame s := by
  have hreturned : ∀ a b s', ActivePageTable.autoContinuousMap frame s = .ok (some (a, b)) s' →
      s'.cr3 = s.cr3 ∧ b = a + 2 ^ frame.order * 4096 ∧ ∀ i < 2 ^ frame.order,
        walk s'.mem s.cr3 (indices (a + i * 4096)) = some (frame.number + i) := by
    intro a b s' hrun
    obtain ⟨-, ⟨hnone, -⟩ | ⟨page, s₁, hfind, -⟩⟩ := autoContinuousMap_returned hrun
    · cases hnone
    · exact ((h.window_of_find hfind).supplied hserves).autoContinuousMap_translates hrun
  refine ⟨h.autoContinuousMap_ne_panic hserves, fun a b s' hrun => (hreturned a b s' hrun).2.1,
    fun a b s' hrun => ?_⟩
  obtain ⟨hcr3, -, hpages⟩ := hreturned a b s' hrun
  rw [hcr3]
  exact hpages

/-- The range lies below an entry of the level-4 table that refers to a table. -/
def Occupied (s : Machine α) (range : ℕ × ℕ) : Prop :=
  ∃ i4, i4 ≠ recursiveSlot ∧ (∃ child, link s.mem s.cr3 i4 = some child) ∧
    i4.val * 2 ^ 39 ≤ range.1 ∧ range.2 ≤ (i4.val + 1) * 2 ^ 39

omit [FrameAllocator α] in
/-- A range stays below its entry. -/
theorem Occupied.settled {range : ℕ × ℕ} (h : Occupied s range) (hsettled : Settled s s') :
    Occupied s' range := by
  obtain ⟨i4, hi4, ⟨child, hlink⟩, hrange⟩ := h
  refine ⟨i4, hi4, ⟨child, ?_⟩, hrange⟩
  have hpath : TablePath [i4] := within_nil.concat (by decide) hi4
  have hplace := hsettled.places [i4] child hpath (by rw [descend_singleton, hlink])
  rw [hsettled.cr3, ← hplace, descend_singleton]

omit [FrameAllocator α] in
/-- A call that returns a range below an entry of the level-4 table. -/
theorem MappedBelow.occupied {i4 : Index} {a b : ℕ}
    (h : MappedBelow i4 frame (some (a, b)) s s') (hcr3 : s'.cr3 = s.cr3) :
    Occupied s' (a, b) := by
  obtain ⟨rfl, rfl⟩ := Prod.mk.inj (Option.some.inj h.range)
  refine ⟨i4, h.ordinary, ?_, foundPage_range i4 h.few⟩
  rw [hcr3]
  exact h.linked

omit [FrameAllocator α] in
/-- A range that was returned is disjoint from the ranges that lie below entries. -/
theorem MappedBelow.disjoint {i4 : Index} {a b : ℕ}
    (h : MappedBelow i4 frame (some (a, b)) s s') {range : ℕ × ℕ} (hrange : Occupied s range) :
    Disjoint (Set.Ico a b) (Set.Ico range.1 range.2) := by
  obtain ⟨rfl, rfl⟩ := Prod.mk.inj (Option.some.inj h.range)
  obtain ⟨j4, hj4, ⟨child, hlink⟩, hlow, hhigh⟩ := hrange
  have hne : i4 ≠ j4 := by
    rintro rfl
    have habsent := List.find?_some h.found
    rw [(PageEntry.child_eq_some.mp hlink).1] at habsent
    cases habsent
  obtain ⟨hlow', hhigh'⟩ := foundPage_range i4 h.few
  rw [Set.disjoint_left]
  rintro addr ⟨hle, hlt⟩ ⟨hle', hlt'⟩
  exact hne (Fin.ext (by omega))

/-- Every call for a page without the recursive slot keeps the tables settled, and a range that
it returns lies below an entry. -/
theorem Layered.mappingCall (h : Layered s)
    (hserves : source.Serves s.allocator (visited s.mem s.cr3)) {call : MappingCall}
    (hcall : call.Ordinary) {r : Option (ℕ × ℕ)} (hrun : call.run s = .ok r s') :
    Settled s s' ∧ ∀ range ∈ r, Occupied s' range := by
  cases call with
  | map page frame =>
    obtain ⟨result, s₁, hmap, hpure⟩ := bind_eq_ok.mp hrun
    obtain ⟨rfl, rfl⟩ := EStateM.Result.ok.inj hpure
    exact ⟨h.map hserves hcall hmap, fun range hrange => by cases hrange⟩
  | unmap page =>
    obtain ⟨result, s₁, hunmap, hpure⟩ := bind_eq_ok.mp hrun
    obtain ⟨rfl, rfl⟩ := EStateM.Result.ok.inj hpure
    exact ⟨h.unmap hcall hunmap, fun range hrange => by cases hrange⟩
  | autoContinuousMap frame =>
    obtain ⟨hsettled, hcases⟩ := h.autoContinuousMap hserves hrun
    refine ⟨hsettled, fun range hrange => ?_⟩
    rcases hcases with ⟨rfl, -⟩ | ⟨i4, hmapped⟩
    · cases hrange
    · obtain rfl := Option.mem_def.mp hrange
      exact hmapped.occupied hsettled.cr3

/-- After calls for pages without the recursive slot the tables have levels, and the ranges that
were returned lie below entries of the level-4 table. -/
theorem MappingRun.layered (hrun : MappingRun source s₀ calls ranges s) (hstart : Layered s₀)
    (hcalls : ∀ call ∈ calls, call.Ordinary) :
    Layered s ∧ ∀ range ∈ ranges, Occupied s range := by
  induction hrun with
  | start => exact ⟨hstart, fun range hrange => absurd hrange List.not_mem_nil⟩
  | call _ hserves hcall ih =>
    obtain ⟨hlayered, hoccupied⟩ := ih fun call hin => hcalls call (List.mem_cons_of_mem _ hin)
    obtain ⟨hsettled, hnew⟩ :=
      hlayered.mappingCall hserves (hcalls _ List.mem_cons_self) hcall
    refine ⟨hsettled.layered, fun range hrange => ?_⟩
    rcases List.mem_append.mp hrange with hrange | hrange
    · exact hnew range (Option.mem_toList.mp hrange)
    · exact (hoccupied range hrange).settled hsettled

/-- What is promised when the tables have levels. -/
theorem Layered.allOrNothing (h : Layered s)
    (hserves : source.Serves s.allocator (visited s.mem s.cr3))
    (hoccupied : ∀ range ∈ ranges, Occupied s range) : AllOrNothing frame ranges s := by
  refine ⟨fun horder hframe hzero => ?_, fun a b s' hrun range hrange => ?_,
    fun a b s' hrun page hpage hout => ?_, fun s' hrun page hpage => ?_⟩
  · exact h.autoContinuousMap_runs hserves (by omega) hframe hzero
  · obtain ⟨-, ⟨hnone, -⟩ | ⟨i4, hmapped⟩⟩ := h.autoContinuousMap hserves hrun
    · cases hnone
    · exact hmapped.disjoint (hoccupied range hrange)
  · obtain ⟨hsettled, ⟨hnone, -⟩ | ⟨i4, hmapped⟩⟩ := h.autoContinuousMap hserves hrun
    · cases hnone
    · obtain ⟨rfl, rfl⟩ := Prod.mk.inj (Option.some.inj hmapped.range)
      rw [hsettled.cr3]
      exact hmapped.kept page.indices hpage rfl (indices_ne_of_outside hmapped.few hout)
  · obtain ⟨hsettled, ⟨-, hwalk⟩ | ⟨i4, hmapped⟩⟩ := h.autoContinuousMap hserves hrun
    · rw [hsettled.cr3]
      exact hwalk page.indices hpage rfl
    · cases hmapped.range

/-- After any calls of `map`, `unmap` and `auto_continuous_map`, the latter never reaches its
`panic!`, and it maps the pages of the range that it returns to the frames of the block. When the
pages of all calls have no recursive slot, it maps all of the block at a new place or changes no
translation. -/
theorem autoContinuousMap_allOrNothing (frame : Frame) (hstart : Layered s₀)
    (hrun : MappingRun source s₀ calls ranges s)
    (hserves : source.Serves s.allocator (visited s.mem s.cr3)) :
    MapsBlock frame s ∧ ((∀ call ∈ calls, call.Ordinary) → AllOrNothing frame ranges s) := by
  refine ⟨(hrun.anchored hstart).mapsBlock hserves, fun hcalls => ?_⟩
  obtain ⟨hlayered, hoccupied⟩ := hrun.layered hstart hcalls
  exact hlayered.allOrNothing hserves hoccupied

end Runs

/-- A block of two frames is mapped on the boot tables. -/
theorem autoContinuousMap_allOrNothing_boot :
    ∃ s', autoContinuousMap ⟨32, 1, .used⟩ bootMachine =
        .ok (some ((foundPage 1).number * 4096, (foundPage 1).number * 4096 + 8192)) s' ∧
      walk s'.mem s'.cr3 (indices ((foundPage 1).number * 4096 + 1 * 4096)) = some 33 ∧
      walk s'.mem s'.cr3 (Page.mk 0).indices = walk bootMachine.mem 1 (Page.mk 0).indices := by
  obtain ⟨hwindow, hserves⟩ := bootMachine_supplied
  have hsmall : (bootMachine.mem bootMachine.cr3 1).isHuge = false := by decide
  have hframe : (Frame.mk 32 1 .used).number + 2 ^ (Frame.mk 32 1 .used).order ≤ 2 ^ 36 := by
    decide
  have hlasts : Lasts 3 bootMachine.allocator := FramePool.lasts (by decide)
  obtain ⟨s', last, hrun, -⟩ := (hwindow.supplied hserves).autoContinuousMap_runs
    bootMachine_tables.firstVacant_eq hsmall (by decide) hframe hlasts
  obtain ⟨hmaps, hordinary⟩ := autoContinuousMap_allOrNothing ⟨32, 1, .used⟩
    bootMachine_tables.layered .start hserves
  have hnone := hordinary fun call hcall => absurd hcall List.not_mem_nil
  refine ⟨s', hrun, hmaps.translates _ _ s' hrun 1 (by decide), ?_⟩
  refine hnone.kept _ _ s' hrun ⟨0⟩ (by decide +kernel) fun hin => ?_
  exact absurd (Set.mem_Ico.mp hin).1 (by decide)

/-- The page that the window shows as the level-4 table, with the entry `i` of the table. -/
def slotPage (i : Index) : Page :=
  Page.fromNumber (digits [recursiveSlot, recursiveSlot, recursiveSlot, i])

/-- The boot tables after the level-4 table was mapped at its entry 1. -/
structure MappedSelf (s : Machine FramePool) : Prop where
  /-- The entry 1 of the level-4 table refers to the table. -/
  mem : s.mem = bootMachine.mem.set 1 1 (PageEntry.cleared.withFrame 1)
  /-- The active table. -/
  cr3 : s.cr3 = 1
  /-- No frame was taken. -/
  allocator : s.allocator = bootMachine.allocator

/-- Mapping the level-4 table at a page with recursive slots makes it a table of level 3. -/
theorem bootMachine_map_self :
    ∃ s, map (slotPage 1) ⟨1, 0, .used⟩ bootMachine = .ok (.ok ()) s ∧ MappedSelf s := by
  have hwindow : Window bootMachine.mem bootMachine.cr3 1 := bootMachine_tables.window
  have hpath : tablePath ((slotPage 1).number * 4096) =
      [recursiveSlot, recursiveSlot, recursiveSlot] := by decide +kernel
  have hlevel1 : level1Index ((slotPage 1).number * 4096) = 1 := by decide +kernel
  have hroot : descend (link bootMachine.mem) 1 (tablePath ((slotPage 1).number * 4096)) =
      some 1 := by
    rw [hpath]
    simp only [descend, hwindow.stays, Option.bind_some]
  obtain ⟨s₁, hcreate, hmem, hcr3, hallocator⟩ :=
    hwindow.createAlong_existing [] (tablePath ((slotPage 1).number * 4096)) le_rfl hroot
  have hleaf : LeafTable s₁.mem s₁.cr3 1 (tablePath ((slotPage 1).number * 4096)) 1 := by
    rw [hmem, hcr3]
    exact ⟨hwindow, hroot⟩
  have hvacant : (bootMachine.mem 1 1).isPresent = false := by decide
  have hframe : (Frame.mk 1 0 .used).number < 2 ^ 36 := by decide
  rcases hleaf.map_spec hcreate (by decide) hframe with
    ⟨hpresent, -⟩ | ⟨-, s, hrun, hset, hcr3', hallocator'⟩
  · rw [hlevel1, hmem, hvacant] at hpresent
    cases hpresent
  · rw [hlevel1, hmem] at hset
    exact ⟨s, hrun, hset, hcr3'.trans hcr3, hallocator'.trans hallocator⟩

namespace MappedSelf

variable {s : Machine FramePool}

/-- The level-4 table refers to itself at its entry 1. -/
theorem link_self (h : MappedSelf s) : link s.mem 1 1 = some 1 := by
  rw [h.mem, link, Memory.set_self, PageEntry.child_withFrame (by decide) PageEntry.isHuge_cleared]

/-- The other entries are those of the boot tables. -/
theorem of_ne (h : MappedSelf s) {f : ℕ} {i : Index} (hne : f ≠ 1 ∨ i ≠ 1) :
    s.mem f i = bootMachine.mem f i := by
  rw [h.mem, Memory.set_of_ne _ _ hne]

/-- A page walk reads no other frames than the boot tables. -/
theorem visited_subset (h : MappedSelf s) : visited s.mem s.cr3 ⊆ {1, 3} := by
  rw [h.cr3]
  apply nodes_subset_of_closed (by simp)
  intro f hf i child _ hlink
  by_cases hself : f = 1 ∧ i = 1
  · obtain ⟨rfl, rfl⟩ := hself
    rw [h.link_self] at hlink
    exact Or.inl (Option.some.inj hlink).symm
  · rw [link, h.of_ne (not_and_or.mp hself)] at hlink
    exact bootMachine_tables.link_closed hf hlink

/-- The allocator hands out no frame that a page walk can read. -/
theorem serves (h : MappedSelf s) :
    FramePool.source.Serves s.allocator (visited s.mem s.cr3) := by
  rw [h.allocator]
  exact FramePool.serves_mono h.visited_subset bootMachine_serves

/-- The window still shows the tables. -/
theorem window (h : MappedSelf s) : Window s.mem s.cr3 s.cr3 := by
  have hslot : link s.mem 1 recursiveSlot = some 1 := by
    rw [link, h.of_ne (Or.inr (by decide))]
    exact bootMachine_tables.window.stays
  rw [h.cr3]
  exact ⟨hslot, hslot⟩

/-- A search takes the entry 2 of the level-4 table. -/
theorem firstVacant_eq (h : MappedSelf s) : firstVacant s.mem 1 = some 2 := by
  rw [firstVacant]
  refine find_eq_some_iff.mpr ⟨by decide, ?_, fun j hj hlt => ?_⟩
  · rw [h.of_ne (Or.inr (by decide))]
    decide
  · have hlt : j.val < 2 := hlt
    obtain rfl : j = 1 := Fin.ext (by show j.val = 1; omega)
    exact (PageEntry.child_eq_some.mp h.link_self).1

/-- The entries that are not present are zero. -/
theorem zero (h : MappedSelf s) {f : ℕ} (hf : f ∈ visited s.mem s.cr3) {i : Index}
    (habsent : (s.mem f i).isPresent = false) : s.mem f i = .cleared := by
  have hne : f ≠ 1 ∨ i ≠ 1 := by
    by_contra hself
    obtain ⟨rfl, rfl⟩ : f = 1 ∧ i = 1 := by simpa [not_or] using hself
    rw [(PageEntry.child_eq_some.mp h.link_self).1] at habsent
    cases habsent
  rw [h.of_ne hne] at habsent ⊢
  rcases h.visited_subset hf with rfl | rfl
  · rw [bootMachine_tables.level4, bootLevel4] at habsent ⊢
    split at habsent
    · cases habsent
    · split at habsent
      · cases habsent
      · rw [if_neg ‹_›, if_neg ‹_›]
  · rw [bootMachine_tables.level3, bootLevel3] at habsent ⊢
    split at habsent
    · cases habsent
    · rw [if_neg ‹_›]

/-- Mapping a block creates tables below the entry 2, and the entry 1 stays. -/
theorem autoContinuousMap_runs (h : MappedSelf s) :
    ∃ s' last, autoContinuousMap ⟨32, 0, .used⟩ s =
        .ok (some ((foundPage 2).number * 4096, (foundPage 2).number * 4096 + 4096)) s' ∧
      s'.cr3 = 1 ∧ descend (link s'.mem) 1 [2, 1, 1] = some last ∧ link s'.mem 1 1 = some 1 := by
  have hvacant : firstVacant s.mem s.cr3 = some 2 := by
    rw [h.cr3]
    exact h.firstVacant_eq
  have hsmall : (s.mem s.cr3 2).isHuge = false := by
    rw [h.cr3, h.of_ne (Or.inr (by decide))]
    decide
  have hlasts : Lasts 3 s.allocator := by
    rw [h.allocator]
    exact FramePool.lasts (by decide)
  have hframe : (Frame.mk 32 0 .used).number + 2 ^ (Frame.mk 32 0 .used).order ≤ 2 ^ 36 := by
    decide
  have hsupplied := h.window.supplied h.serves
  obtain ⟨s', last, hrun, hleaf, hkept⟩ :=
    hsupplied.autoContinuousMap_runs hvacant hsmall (by decide) hframe hlasts
  obtain ⟨hcr3, -⟩ := hsupplied.autoContinuousMap_translates hrun
  have hreached := hleaf.reached
  rw [h.cr3] at hreached hcr3
  have hroot : (1 : ℕ) ∈ visited s.mem s.cr3 := by
    rw [h.cr3]
    exact root_mem_nodes
  refine ⟨s', last, hrun, hcr3, hreached, ?_⟩
  rw [link, hkept 1 hroot 1 (PageEntry.child_eq_some.mp h.link_self).1]
  exact h.link_self

end MappedSelf

/-- After the level-4 table was mapped at a page with recursive slots, mapping a block below its
entry 2 translates a page below its entry 1. -/
theorem not_autoContinuousMap_allOrNothing :
    ¬∀ (s₀ s : Machine FramePool) (calls : List MappingCall) (ranges : List (ℕ × ℕ))
      (frame : Frame), Layered s₀ → MappingRun FramePool.source s₀ calls ranges s →
      FramePool.source.Serves s.allocator (visited s.mem s.cr3) → frame.order < 15 →
      (∀ table ∈ visited s.mem s.cr3, ∀ i, (s.mem table i).isPresent = false →
        s.mem table i = .cleared) →
      MapsBlock frame s ∧ AllOrNothing frame ranges s := by
  intro hclaim
  obtain ⟨-, hserves₀⟩ := bootMachine_supplied
  obtain ⟨s, hmap, h⟩ := bootMachine_map_self
  have hcall : (MappingCall.map (slotPage 1) ⟨1, 0, .used⟩).run bootMachine = .ok none s :=
    bind_ok hmap
  obtain ⟨-, hall⟩ := hclaim bootMachine s _ _ ⟨32, 0, .used⟩ bootMachine_tables.layered
    (.call .start hserves₀ hcall) h.serves (by decide) fun table htable i => h.zero htable
  obtain ⟨s', last, hrun, hcr3, hreached, hlink⟩ := h.autoContinuousMap_runs
  -- The page has the indices 1, 2, 1 and 1, and the entry 1 leads back to the level-4 table.
  have hindices : (Page.fromNumber (digits [1, 2, 1, 1])).indices = [1, 2, 1, 1] := by
    have hdigits := indices_digits 0 1 2 1 1
    rw [Nat.zero_mul, Nat.zero_add] at hdigits
    exact hdigits
  have hordinary : Ordinary [1, 2, 1, 1] := by decide +kernel
  rw [← hindices] at hordinary
  have hsame := hall.kept _ _ s' hrun (Page.fromNumber (digits [1, 2, 1, 1])) hordinary
    fun hin => absurd (Set.mem_Ico.mp hin).1 (by decide)
  have habsent : (s.mem 1 2).isPresent = false := by
    simpa using List.find?_some h.firstVacant_eq
  rw [hindices, hcr3, h.cr3, walk_cons h.link_self (by simp), walk_absent habsent,
    walk_cons hlink (by simp), walk_of_descend hreached (by simp)] at hsame
  cases hsame

end Axel
