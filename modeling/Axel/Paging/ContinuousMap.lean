import Axel.Paging.EmptyPages
import Axel.Paging.Fitting

/-!
# Mapping a block of frames

`auto_continuous_map` searches for as many pages as a block has frames and maps them one after
another. This file shows that the pages can be mapped, and what they are translated to.
-/

namespace Axel

open Descent Table ActivePageTable

variable {α : Type} [FrameAllocator α] {source : FrameSource α} {used : Set ℕ} {root : ℕ}
  {s s' : Machine α}

/-- The pages and frames that `auto_continuous_map` maps. -/
def blockMappings (pageAddr frameAddr count : ℕ) : List (Page × Frame) :=
  (List.range count).map fun i =>
    (Page.fromAddress (pageAddr + i * 4096), Frame.fromAddress (frameAddr + i * 4096))

/-- The loop of `auto_continuous_map` maps its pages. -/
theorem continuousMapFrom_ok {frameAddr pageAddr : ℕ} {is : List ℕ} {u : Unit}
    (h : continuousMapFrom frameAddr pageAddr is s = .ok u s') :
    mapAll (is.map fun i =>
      (Page.fromAddress (pageAddr + i * 4096), Frame.fromAddress (frameAddr + i * 4096))) s =
      .ok (.ok ()) s' := by
  induction is generalizing s with
  | nil =>
    obtain ⟨-, rfl⟩ := EStateM.Result.ok.inj h
    rfl
  | cons i is ih =>
    obtain ⟨_, hoffset, h⟩ := lift_bind_eq_ok.mp h
    obtain ⟨-, rfl⟩ := checkedMul_eq_ok.mp hoffset
    obtain ⟨_, hframe, h⟩ := lift_bind_eq_ok.mp h
    obtain ⟨-, rfl⟩ := checkedAdd_eq_ok.mp hframe
    obtain ⟨_, hpage, h⟩ := lift_bind_eq_ok.mp h
    obtain ⟨-, rfl⟩ := checkedAdd_eq_ok.mp hpage
    obtain ⟨result, s₁, hmap, h⟩ := bind_eq_ok.mp h
    cases result with
    | error error => cases h
    | ok u => exact (bind_ok hmap).trans (ih h)

/-- A call of `auto_continuous_map` that returned: its search found no pages, or its loop mapped
the pages that the search found. -/
theorem autoContinuousMap_returned {frame : Frame} {r : Option (ℕ × ℕ)}
    (h : autoContinuousMap frame s = .ok r s') :
    frame.order < 52 ∧
      ((r = none ∧ findEmptyPages (2 ^ frame.order) s = .ok none s') ∨
        ∃ page s₁, findEmptyPages (2 ^ frame.order) s = .ok (some page) s₁ ∧
          mapAll (blockMappings (page.number * 4096) (frame.number * 4096) (2 ^ frame.order)) s₁ =
            .ok (.ok ()) s' ∧
          r = some (page.number * 4096, page.number * 4096 + 2 ^ frame.order * 4096)) := by
  obtain ⟨frameCount, hshift, h⟩ := lift_bind_eq_ok.mp h
  obtain ⟨size, hsize, h⟩ := lift_bind_eq_ok.mp h
  obtain ⟨found, s₁, hfind, h⟩ := bind_eq_ok.mp h
  have hcount : frameCount = 2 ^ frame.order := by
    split at hshift
    · rw [← Except.ok.inj hshift, Nat.one_shiftLeft]
    · cases hshift
  subst hcount
  obtain ⟨hlt, rfl⟩ := checkedMul_eq_ok.mp hsize
  have horder : frame.order < 52 := by
    by_contra hge
    have hpow : 2 ^ 52 ≤ 2 ^ frame.order := Nat.pow_le_pow_right (by decide) (not_lt.mp hge)
    unfold usizeCount frameSize at hlt
    omega
  refine ⟨horder, ?_⟩
  cases found with
  | none =>
    obtain ⟨rfl, rfl⟩ := EStateM.Result.ok.inj h
    exact Or.inl ⟨rfl, hfind⟩
  | some page =>
    obtain ⟨frameAddr, hframe, h⟩ := lift_bind_eq_ok.mp h
    obtain ⟨-, rfl⟩ := checkedMul_eq_ok.mp hframe
    obtain ⟨pageAddr, hpage, h⟩ := lift_bind_eq_ok.mp h
    obtain ⟨-, rfl⟩ := checkedMul_eq_ok.mp hpage
    obtain ⟨u, s₂, hmaps, h⟩ := bind_eq_ok.mp h
    obtain ⟨limit, hlimit, h⟩ := lift_bind_eq_ok.mp h
    obtain ⟨-, rfl⟩ := checkedAdd_eq_ok.mp hlimit
    obtain ⟨rfl, rfl⟩ := EStateM.Result.ok.inj h
    exact Or.inr ⟨page, s₁, hfind, continuousMapFrom_ok hmaps, rfl⟩

/-- A call of `auto_continuous_map` that returned in a tree of tables: it found no pages, or it
mapped the pages that it found to the frames of the block. -/
theorem HostedTree.autoContinuousMap_returned (h : HostedTree source used root s) {frame : Frame}
    {r : Option (ℕ × ℕ)} (hrun : autoContinuousMap frame s = .ok r s') :
    ∃ s₁, HostedTree source used root s₁ ∧ s₁.cr3 = s.cr3 ∧
      translation s₁.mem root = translation s.mem root ∧
      (r = none ∧ s' = s₁ ∨
        ∃ i4 limit, r = some ((foundPage i4).number * 4096, limit) ∧ i4 ≠ recursiveSlot ∧
          2 ^ frame.order ≤ 510 ∧
          Axel.mapAll (blockMappings ((foundPage i4).number * 4096) (frame.number * 4096)
            (2 ^ frame.order)) s₁ = .ok (.ok ()) s') := by
  have hsole := h.tree.sole [] root within_nil descend_nil
  obtain ⟨-, ⟨rfl, hfind⟩ | ⟨page, s₁, hfind, hmaps, rfl⟩⟩ := Axel.autoContinuousMap_returned hrun
  · obtain ⟨hhosted, hgrown, -⟩ := h.findEmptyPages_returned hsole Nat.one_le_two_pow hfind
    obtain ⟨h', hsame⟩ := h.of_grown hhosted hgrown
    exact ⟨s', h', hgrown.cr3, hsame, Or.inl ⟨rfl, rfl⟩⟩
  · obtain ⟨hhosted, hgrown, hnone | ⟨i4, last, hpage, hle, hempty⟩⟩ :=
      h.findEmptyPages_returned hsole Nat.one_le_two_pow hfind
    · cases hnone
    · obtain rfl := Option.some.inj hpage
      obtain ⟨h₁, hsame⟩ := h.of_grown hhosted hgrown
      exact ⟨s₁, h₁, hgrown.cr3, hsame, Or.inr ⟨i4, _, rfl, hempty.ordinary, hle, hmaps⟩⟩

/-- The loop of `auto_continuous_map` returns when its pages can be mapped. -/
theorem continuousMapFrom_runs {frameAddr pageAddr : ℕ} {is : List ℕ}
    (hfits : ∀ i ∈ is, i * 4096 < usizeCount ∧ frameAddr + i * 4096 < usizeCount ∧
      pageAddr + i * 4096 < usizeCount)
    (h : mapAll (is.map fun i =>
      (Page.fromAddress (pageAddr + i * 4096), Frame.fromAddress (frameAddr + i * 4096))) s =
      .ok (.ok ()) s') : continuousMapFrom frameAddr pageAddr is s = .ok () s' := by
  induction is generalizing s with
  | nil =>
    obtain ⟨-, rfl⟩ := EStateM.Result.ok.inj h
    rfl
  | cons i is ih =>
    obtain ⟨hoffset, hframe, hpage⟩ := hfits i List.mem_cons_self
    obtain ⟨result, s₁, hmap, h⟩ := bind_eq_ok.mp h
    cases result with
    | error error => cases h
    | ok u =>
      have hrest := ih (fun j hj => hfits j (List.mem_cons_of_mem i hj)) h
      have hoffset' : checkedMul i frameSize = .ok (i * 4096) := checkedMul_ok hoffset
      rw [continuousMapFrom, bind_ok (lift_ok hoffset'), bind_ok (lift_ok (checkedAdd_ok hframe)),
        bind_ok (lift_ok (checkedAdd_ok hpage)), bind_ok hmap]
      exact hrest

/-- The pages after the first one that a search returns, by their addresses. -/
theorem foundPage_add (i4 : Index) {i : ℕ} (hi : i < 511) {page : Page}
    (hpage : page = Page.fromAddress ((foundPage i4).number * 4096 + i * 4096)) :
    page.number = (foundPage i4).number + i ∧ tablePath (page.number * 4096) = [i4, 1, 1] ∧
      level1Index (page.number * 4096) = ⟨i + 1, Nat.succ_lt_succ hi⟩ := by
  have hnumber : page.number = (foundPage i4).number + i := by
    rw [hpage, ← Nat.add_mul]
    exact Nat.mul_div_cancel _ (by decide)
  rw [hnumber]
  exact ⟨rfl, indices_foundPage_add i4 hi⟩

/-- These pages lie below ordinary tables. -/
theorem foundPage_tablePath {i4 : Index} (hi4 : i4 ≠ recursiveSlot) {i : ℕ} (hi : i < 511) :
    TablePath (tablePath
      ((Page.fromAddress ((foundPage i4).number * 4096 + i * 4096)).number * 4096)) := by
  have hone : (1 : Index) ≠ recursiveSlot := by decide
  rw [(foundPage_add i4 hi rfl).2.1]
  exact ⟨by simp, by simp [hi4, hone]⟩

/-- The frames after the first one of a block, by their addresses. -/
theorem fromAddress_add (n i : ℕ) : (Frame.fromAddress (n * 4096 + i * 4096)).number = n + i := by
  rw [← Nat.add_mul]
  exact Nat.mul_div_cancel _ (by decide)

/-- The pages that a search returned can be filled in a level-1 table without mapped pages. -/
theorem blockMappings_fillable {mem : Memory} (i4 : Index) {last n count : ℕ}
    (habsent : ∀ i, i ≠ recursiveSlot → (mem last i).isPresent = false) (hle : count ≤ 510)
    (hframes : ∀ i < count, n + i < 2 ^ 36) :
    ∀ call ∈ blockMappings ((foundPage i4).number * 4096) (n * 4096) count,
      Fillable mem [i4, 1, 1] last call := by
  intro call hcall
  obtain ⟨i, hi, rfl⟩ := List.mem_map.mp hcall
  rw [List.mem_range] at hi
  have hnumber := (foundPage_indices i4).1
  have hframe := hframes i hi
  obtain ⟨hpage, hpath, hlevel1⟩ := foundPage_add i4 (show i < 511 by omega) rfl
  refine ⟨by rw [hpage]; omega, by rw [fromAddress_add]; omega, hpath, ?_⟩
  rw [hlevel1]
  exact habsent _ (ne_recursiveSlot (Nat.succ_lt_succ (by omega)))

/-- The pages that a search returned have different entries. -/
theorem blockMappings_nodup (i4 : Index) (n : ℕ) {count : ℕ} (hle : count ≤ 510) :
    ((blockMappings ((foundPage i4).number * 4096) (n * 4096) count).map
      fun call => level1Index (call.1.number * 4096)).Nodup := by
  rw [blockMappings, List.map_map]
  refine List.Nodup.map_on ?_ List.nodup_range
  intro i hi j hj hsame
  rw [List.mem_range] at hi hj
  obtain ⟨-, -, hlevel1⟩ := foundPage_add i4 (show i < 511 by omega) rfl
  obtain ⟨-, -, hlevel1'⟩ := foundPage_add i4 (show j < 511 by omega) rfl
  rw [Function.comp_apply, Function.comp_apply, hlevel1, hlevel1'] at hsame
  simpa using hsame

/-- Mapping the pages that a search returned fills their entries, in tables of any shape. -/
theorem LeafTable.mapAll_block {i4 : Index} {last n count : ℕ}
    (h : LeafTable s.mem s.cr3 root [i4, 1, 1] last)
    (habsent : ∀ i, i ≠ recursiveSlot → (s.mem last i).isPresent = false) (hpos : 1 ≤ count)
    (hle : count ≤ 510) (hframes : ∀ i < count, n + i < 2 ^ 36) :
    ∃ s', mapAll (blockMappings ((foundPage i4).number * 4096) (n * 4096) count) s =
        .ok (.ok ()) s' ∧
      LeafTable s'.mem s'.cr3 root [i4, 1, 1] last ∧ s'.cr3 = s.cr3 ∧
      s'.allocator = s.allocator ∧
      Filled s.mem last (blockMappings ((foundPage i4).number * 4096) (n * 4096) count)
        s'.mem := by
  obtain ⟨s₁, hcreate, hmem, hcr3, hallocator⟩ :=
    h.window.createAlong_existing [] [i4, 1, 1] (le_refl 3) h.reached
  rw [← hmem, ← hcr3] at h
  rw [← hmem] at habsent
  have hcalls := blockMappings_fillable i4 habsent hle hframes
  have hdistinct := blockMappings_nodup i4 n hle
  have hne : blockMappings ((foundPage i4).number * 4096) (n * 4096) count ≠ [] := by
    rw [blockMappings, Ne, List.map_eq_nil_iff, List.range_eq_nil]
    omega
  obtain ⟨call, calls, heq⟩ := List.exists_cons_of_ne_nil hne
  rw [heq] at hcalls hdistinct ⊢
  obtain ⟨s', hrun, hleaf, hcr3', hallocator', hfilled⟩ :=
    h.mapAll_fills (le_refl 3) hcreate hcalls hdistinct
  rw [hmem] at hfilled
  exact ⟨s', hrun, hleaf, hcr3'.trans hcr3, hallocator'.trans hallocator, hfilled⟩

/-- Pages that a search returned can be mapped to the frames of a block. -/
theorem EmptyPages.mapAll_runs {s₁ : Machine α} {i4 : Index} {last n count : ℕ}
    (h : EmptyPages s root i4 last s₁) (hhosted : Hosted source used root s₁) (hpos : 1 ≤ count)
    (hle : count ≤ 510) (hframe : n + count ≤ 2 ^ 36) :
    ∃ s', mapAll (blockMappings ((foundPage i4).number * 4096) (n * 4096) count) s₁ =
      .ok (.ok ()) s' ∧ s'.allocator = s₁.allocator := by
  have hleaf : LeafTable s₁.mem s₁.cr3 root [i4, 1, 1] last := ⟨hhosted.window, h.fresh.reached⟩
  have habsent : ∀ i, i ≠ recursiveSlot → (s₁.mem last i).isPresent = false := by
    intro i hi
    rw [h.fresh.empty i hi, PageEntry.isPresent_cleared]
  have hframes : ∀ i < count, n + i < 2 ^ 36 := fun i hi => by omega
  obtain ⟨s', hrun, -, -, hallocator, -⟩ := hleaf.mapAll_block habsent hpos hle hframes
  exact ⟨s', hrun, hallocator⟩

/-- `auto_continuous_map` returns `None` when its search does. -/
theorem autoContinuousMap_none {frame : Frame} (horder : frame.order < 52)
    (hfind : findEmptyPages (2 ^ frame.order) s = .ok none s') :
    autoContinuousMap frame s = .ok none s' := by
  have hpow : 2 ^ frame.order < 2 ^ 52 := Nat.pow_lt_pow_right (by decide) horder
  have hsize : 2 ^ frame.order * 4096 < usizeCount := by
    unfold usizeCount
    omega
  rw [autoContinuousMap, if_pos (by omega), Nat.one_shiftLeft]
  refine (bind_ok (lift_ok rfl)).trans ?_
  refine (bind_ok (lift_ok (checkedMul_ok hsize))).trans ?_
  exact (bind_ok hfind).trans rfl

/-- `auto_continuous_map` returns the range of the pages that its search found, when they can be
mapped. -/
theorem autoContinuousMap_some {s₁ : Machine α} {frame : Frame} {i4 : Index}
    (horder : 2 ^ frame.order ≤ 510) (hframe : frame.number + 2 ^ frame.order ≤ 2 ^ 36)
    (hfind : findEmptyPages (2 ^ frame.order) s = .ok (some (foundPage i4)) s₁)
    (hmaps : mapAll (blockMappings ((foundPage i4).number * 4096) (frame.number * 4096)
      (2 ^ frame.order)) s₁ = .ok (.ok ()) s') :
    autoContinuousMap frame s = .ok (some ((foundPage i4).number * 4096,
      (foundPage i4).number * 4096 + 2 ^ frame.order * 4096)) s' := by
  have hlt : frame.order < 64 := by
    by_contra hge
    have hpow : 2 ^ 64 ≤ 2 ^ frame.order := Nat.pow_le_pow_right (by decide) (not_lt.mp hge)
    omega
  have hnumber := (foundPage_indices i4).1
  have hfits : ∀ i ∈ List.range (2 ^ frame.order), i * 4096 < usizeCount ∧
      frame.number * 4096 + i * 4096 < usizeCount ∧
      (foundPage i4).number * 4096 + i * 4096 < usizeCount := by
    intro i hi
    rw [List.mem_range] at hi
    unfold usizeCount
    omega
  have hsize : 2 ^ frame.order * 4096 < usizeCount := by
    unfold usizeCount
    omega
  have hsum : (foundPage i4).number + 2 ^ frame.order < 2 ^ 37 := by omega
  have hlimit : (foundPage i4).number * 4096 + 2 ^ frame.order * 4096 < usizeCount := by
    rw [← Nat.add_mul]
    exact (Nat.mul_lt_mul_of_pos_right hsum (by decide)).trans (by decide)
  rw [autoContinuousMap, if_pos hlt, Nat.one_shiftLeft]
  refine (bind_ok (lift_ok rfl)).trans ?_
  refine (bind_ok (lift_ok (checkedMul_ok hsize))).trans ?_
  refine (bind_ok hfind).trans ?_
  refine (bind_ok (lift_ok (Frame.address_ok (by omega)))).trans ?_
  refine (bind_ok (lift_ok (Page.address_eq (by omega)))).trans ?_
  refine (bind_ok (continuousMapFrom_runs hfits hmaps)).trans ?_
  exact (bind_ok (lift_ok (checkedAdd_ok hlimit))).trans rfl

/-- `auto_continuous_map` maps a block of at most 510 frames when the level-4 table has a vacant
entry and the allocator has three frames for new tables. -/
theorem HostedTree.autoContinuousMap_runs (h : HostedTree source used root s) {frame : Frame}
    {i4 : Index} (hfound : firstVacant s.mem root = some i4) (horder : 2 ^ frame.order ≤ 510)
    (hframe : frame.number + 2 ^ frame.order ≤ 2 ^ 36) (hlasts : Lasts 3 s.allocator) :
    ∃ limit s', autoContinuousMap frame s = .ok (some ((foundPage i4).number * 4096, limit)) s' ∧
      Drawn 3 s.allocator s'.allocator := by
  have hsole := h.tree.sole [] root within_nil descend_nil
  have hsmall := h.tree.small [] root i4 within_nil descend_nil (h.window.vacant_ne hfound).2
  obtain ⟨s₁, last, hfind, hhosted, -, hempty⟩ :=
    h.findEmptyPages_runs hsole Nat.one_le_two_pow horder hfound hsmall hlasts
  obtain ⟨s', hmaps, hallocator⟩ :=
    hempty.mapAll_runs hhosted Nat.one_le_two_pow horder hframe
  exact ⟨_, s', autoContinuousMap_some horder hframe hfind hmaps, hallocator ▸ hempty.drawn⟩

/-- The pages that `auto_continuous_map` returned are translated to the frames of the block. -/
theorem HostedTree.autoContinuousMap_translates (h : HostedTree source used root s) {frame : Frame}
    {addr limit : ℕ} (hrun : autoContinuousMap frame s = .ok (some (addr, limit)) s') :
    s'.cr3 = s.cr3 ∧ ∀ i < 2 ^ frame.order,
      translation s'.mem root (Page.fromAddress (addr + i * 4096)).indices =
        some (frame.number + i) := by
  obtain ⟨s₁, htree, hcr3, -, ⟨hnone, -⟩ | ⟨i4, limit', hsome, hi4, hle, hmaps⟩⟩ :=
    h.autoContinuousMap_returned hrun
  · cases hnone
  · obtain ⟨rfl, -⟩ := Prod.mk.inj (Option.some.inj hsome)
    obtain ⟨-, hconfined, hpages⟩ := htree.mapAll (by
      intro call hcall
      obtain ⟨j, hj, rfl⟩ := List.mem_map.mp hcall
      rw [List.mem_range] at hj
      exact foundPage_tablePath hi4 (by omega)) hmaps
    refine ⟨hconfined.cr3.trans hcr3, fun i hi => (hpages _ _).mpr (Or.inr ?_)⟩
    exact ⟨_, List.mem_map.mpr ⟨i, List.mem_range.mpr hi, rfl⟩, rfl, fromAddress_add _ _⟩

end Axel
