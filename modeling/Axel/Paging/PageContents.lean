import Axel.Paging.MappedFrames

/-!
# The contents of mapped pages

The calls of the frame system write page tables and the tags of frames, and code writes to the
pages that it has mapped. This file says what a call leaves alone: the contents of every mapped
frame, every page but the one that is unmapped, and all pages of frames that the allocator does
not manage.
-/

namespace Axel

open Descent Dyadic Table ActivePageTable

/-- `auto_continuous_map` accesses tables only. -/
theorem HostedTree.autoContinuousMap_confined {α : Type} [FrameAllocator α]
    {source : FrameSource α} {used : Set ℕ} {root : ℕ} {s s' : Machine α}
    (h : HostedTree source used root s) {frame : Frame} {r : Option (ℕ × ℕ)}
    (hrun : autoContinuousMap frame s = .ok r s') : Confined root s s' := by
  have hsole := h.tree.sole [] root within_nil descend_nil
  obtain ⟨-, ⟨-, hfind⟩ | ⟨page, s₁, hfind, hmaps, -⟩⟩ := Axel.autoContinuousMap_returned hrun
  · obtain ⟨-, hgrown, -⟩ := h.findEmptyPages_returned hsole Nat.one_le_two_pow hfind
    exact .of_grown hgrown
  · obtain ⟨hhosted, hgrown, hnone | ⟨i4, last, hpage, hle, hempty⟩⟩ :=
      h.findEmptyPages_returned hsole Nat.one_le_two_pow hfind
    · cases hnone
    · obtain rfl := Option.some.inj hpage
      obtain ⟨h₁, -⟩ := h.of_grown hhosted hgrown
      obtain ⟨-, hconfined, -⟩ := h₁.mapAll (by
        intro call hcall
        obtain ⟨j, hj, rfl⟩ := List.mem_map.mp hcall
        rw [List.mem_range] at hj
        exact foundPage_tablePath hempty.ordinary (by omega)) hmaps
      exact (Confined.of_grown hgrown).trans hconfined

namespace FrameSystem

/-- The frame is one of the allocator's. -/
def Managed (base count f : ℕ) : Prop := base ≤ f ∧ f < base + count

/-- What a call leaves alone. -/
structure Keeps (base count : ℕ) (c : FrameCall) (σ σ' : FrameSystem) : Prop where
  /-- The contents of mapped frames are the same. -/
  contents : ∀ f ∈ σ.machine.pages.frames, σ'.machine.mem f = σ.machine.mem f
  /-- A page keeps its frame unless it is unmapped. -/
  kept : ∀ ix f, σ.machine.pages ix = some f → (∀ page, c = .unmap page → page.indices ≠ ix) →
    σ'.machine.pages ix = some f
  /-- The pages of frames that the allocator does not manage are the same. -/
  foreign : ∀ ix f, ¬Managed base count f →
    (σ'.machine.pages ix = some f ↔ σ.machine.pages ix = some f)
  /-- A page that callers mapped stays one unless it is unmapped. -/
  mapped : ∀ page ∈ σ.mapped, c ≠ .unmap page → page ∈ σ'.mapped

section Keeps

variable {σ σ' : FrameSystem} {base count : ℕ}

/-- A call that writes tables only, keeps all pages and maps managed frames only. -/
theorem Keeps.of_confined {c : FrameCall} {s' : Machine (BuddyAllocator Frame)} {held : List Block}
    {mapped : List Page} (hinvariant : Invariant ⟨s', held, mapped⟩ base count)
    (hconfined : Confined σ.machine.cr3 σ.machine s')
    (hold : ∀ ix f, σ.machine.pages ix = some f → s'.pages ix = some f)
    (hnew : ∀ ix f, s'.pages ix = some f → σ.machine.pages ix = some f ∨ Managed base count f)
    (hmapped : ∀ page ∈ σ.mapped, page ∈ mapped) : Keeps base count c σ ⟨s', held, mapped⟩ := by
  refine ⟨fun f hf => hconfined.frame f fun htable => ?_, fun ix f hix _ => hold ix f hix,
    fun ix f hf => ⟨fun hix => ?_, hold ix f⟩, fun page hpage _ => hmapped page hpage⟩
  · obtain ⟨ix, hix⟩ := hf
    rw [← hconfined.cr3] at htable
    exact Set.disjoint_left.mp hinvariant.tree.apart (Or.inl ⟨ix, hold ix f hix⟩) htable
  · rcases hnew ix f hix with hix | hmanaged
    · exact hix
    · exact absurd hmanaged hf

/-- `allocate` changes no page. -/
theorem Invariant.allocate_keeps (h : σ.Invariant base count) {k : ℕ}
    (hcall : σ.call (.allocate k) = .ok σ') : Keeps base count (.allocate k) σ σ' := by
  have hsame : ∀ (allocator : BuddyAllocator Frame) held, Keeps base count (.allocate k) σ
      ⟨{ σ.machine with allocator }, held, σ.mapped⟩ := fun allocator held =>
    ⟨fun _ _ => rfl, fun _ _ hix _ => hix, fun _ _ _ => Iff.rfl, fun _ hpage _ => hpage⟩
  rcases BuddyAllocator.allocate_spec h.tree.serves.1.wellFormed k with
    ⟨hrun, -⟩ | ⟨x, a, hrun, -⟩
  all_goals
    simp only [FrameSystem.call, hrun, bind, Except.bind, pure, Except.pure] at hcall
    obtain rfl := Except.ok.inj hcall
    exact hsame _ _

/-- `auto_continuous_map` maps the frames of a block that callers hold. -/
theorem Invariant.autoContinuousMap_keeps (h : σ.Invariant base count) {b : Block}
    (hb : b ∈ σ.held) (hcall : σ.call (.autoContinuousMap b) = .ok σ') :
    Keeps base count (.autoContinuousMap b) σ σ' := by
  have hinvariant := h.call_autoContinuousMap hb hcall
  obtain ⟨hnumber, horder⟩ := h.frame_eq hb
  have hrange := h.inRange b hb
  unfold FrameSystem.call at hcall
  cases hrun : autoContinuousMap (σ.frame b) σ.machine with
  | error fault s' =>
    simp only [hrun] at hcall
    cases hcall
  | ok r s' =>
    have hconfined := h.tree.autoContinuousMap_confined hrun
    obtain ⟨s₁, htree, hcr3, hsame, ⟨rfl, rfl⟩ | ⟨i4, limit, rfl, hi4, hle, hmaps⟩⟩ :=
      h.tree.autoContinuousMap_returned hrun
    · simp only [hrun] at hcall
      obtain rfl := Except.ok.inj hcall
      have hpages : s'.pages = σ.machine.pages := by
        rw [Machine.pages, hcr3, hsame]
        rfl
      exact .of_confined hinvariant hconfined (fun ix f hix => by rw [hpages, hix])
        (fun ix f hix => Or.inl (hpages ▸ hix)) fun _ hpage => hpage
    · simp only [hrun] at hcall
      obtain rfl := Except.ok.inj hcall
      obtain ⟨-, -, htranslation⟩ := htree.mapAll (by
        intro call hcall
        obtain ⟨i, hi, rfl⟩ := List.mem_map.mp hcall
        rw [List.mem_range] at hi
        exact foundPage_tablePath hi4 (by omega)) hmaps
      have hpages : s'.pages = translation s'.mem σ.machine.cr3 := by
        rw [Machine.pages, hconfined.cr3]
      rw [hsame, ← hpages] at htranslation
      refine .of_confined hinvariant hconfined
        (fun ix f hix => (htranslation ix f).mpr (Or.inl hix))
        (fun ix f hix => ?_) fun _ hpage => List.mem_append_right _ hpage
      rcases (htranslation ix f).mp hix with hold | ⟨call, hcall, -, rfl⟩
      · exact Or.inl hold
      · obtain ⟨i, hi, rfl⟩ := List.mem_map.mp hcall
        rw [List.mem_range, horder] at hi
        rw [hnumber, fromAddress_add]
        exact Or.inr ⟨by omega, by omega⟩

/-- `map` maps the frame of a block that callers hold. -/
theorem Invariant.map_keeps (h : σ.Invariant base count) {page : Page} {b : Block}
    (hb : b ∈ σ.held) (hzero : b.order = 0) (hpath : TablePath (tablePath (page.number * 4096)))
    (hcall : σ.call (.map page b) = .ok σ') : Keeps base count (.map page b) σ σ' := by
  have hinvariant := h.call_map hb hzero hpath hcall
  obtain ⟨hnumber, -⟩ := h.frame_eq hb
  have hrange := h.inRange b hb
  unfold FrameSystem.call at hcall
  cases hrun : ActivePageTable.map page (σ.frame b) σ.machine with
  | error fault s' =>
    simp only [hrun] at hcall
    cases hcall
  | ok result s' =>
    obtain ⟨-, hconfined, htranslates⟩ := h.tree.map hpath hrun
    cases result with
    | error error =>
      simp only [hrun] at hcall
      obtain rfl := Except.ok.inj hcall
      have hpages : s'.pages = σ.machine.pages := by
        rw [Machine.pages, hconfined.cr3]
        exact htranslates
      exact .of_confined hinvariant hconfined (fun ix f hix => by rw [hpages, hix])
        (fun ix f hix => Or.inl (hpages ▸ hix)) fun _ hpage => hpage
    | ok u =>
      simp only [hrun] at hcall
      obtain rfl := Except.ok.inj hcall
      obtain ⟨-, hvacant, hupdate⟩ := htranslates
      have hpages : s'.pages = Function.update σ.machine.pages page.indices
          (some (σ.frame b).number) := by
        rw [Machine.pages, hconfined.cr3]
        exact hupdate
      refine .of_confined hinvariant hconfined (fun ix f hix => ?_) (fun ix f hix => ?_)
        fun _ hpage => List.mem_cons_of_mem _ hpage
      · have hne : ix ≠ page.indices := by
          rintro rfl
          rw [show σ.machine.pages page.indices = none from hvacant] at hix
          cases hix
        rw [hpages, Function.update_of_ne hne, hix]
      · by_cases hsame : ix = page.indices
        · rw [hpages, hsame, Function.update_self, hnumber] at hix
          obtain rfl := Option.some.inj hix
          rw [hzero] at hrange
          exact Or.inr ⟨by omega, by omega⟩
        · rw [hpages, Function.update_of_ne hsame] at hix
          exact Or.inl hix

/-- `unmap` clears one entry of a table. -/
theorem Invariant.unmap_keeps (h : σ.Invariant base count) {page : Page} (hpage : page ∈ σ.mapped)
    (hcall : σ.call (.unmap page) = .ok σ') : Keeps base count (.unmap page) σ σ' := by
  obtain ⟨hnumber, j, hj, hmapped⟩ := h.listed page hpage
  have hordinary : Ordinary page.indices := ordinary_of_translation hmapped
  obtain ⟨table, htable, haddr⟩ := h.tree.tree.mapped_entry hmapped
  unfold FrameSystem.call at hcall
  cases hrun : ActivePageTable.unmap page σ.machine with
  | error fault s' =>
    simp only [hrun] at hcall
    cases hcall
  | ok result s' =>
    obtain ⟨a, hfree⟩ :=
      h.tree.window.unmap_returned hnumber hordinary.tablePath htable haddr hrun
    obtain ⟨s₁, before, hrun', hmem, hcr3, -⟩ :=
      h.tree.window.unmap_present hnumber hordinary.tablePath htable haddr hfree
    obtain ⟨rfl, rfl⟩ := EStateM.Result.ok.inj (hrun'.symm.trans hrun)
    simp only [hrun] at hcall
    obtain rfl := Except.ok.inj hcall
    have hpages : s₁.pages = Function.update σ.machine.pages page.indices none := by
      rw [Machine.pages, hcr3, hmem, h.tree.tree.translation_set hordinary .cleared htable,
        PageEntry.isPresent_cleared, if_neg (by decide)]
      rfl
    refine ⟨fun f hf => ?_, fun ix f hix hother => ?_, fun ix f hf => ?_,
      fun other hother hne => ?_⟩
    · have hne : f ≠ table := by
        rintro rfl
        exact Set.disjoint_left.mp h.tree.apart (Or.inl hf) (mem_nodes hordinary.tablePath htable)
      rw [hmem]
      exact set_frame_of_ne _ _ _ hne
    · rw [hpages, Function.update_of_ne (hother page rfl).symm, hix]
    · rw [hpages]
      by_cases hsame : ix = page.indices
      · have hne : σ.machine.pages ix ≠ some f := by
          rw [hsame, hmapped]
          intro heq
          obtain rfl := Option.some.inj heq
          exact hf ⟨by omega, by omega⟩
        rw [hsame, Function.update_self]
        exact ⟨fun hix => absurd hix (by simp), fun hix => absurd (hsame ▸ hix) hne⟩
      · rw [Function.update_of_ne hsame]
    · have hne' : other ≠ page := fun hsame => hne (by rw [hsame])
      exact (List.mem_erase_of_ne hne').mpr hother

/-- What every call leaves alone. -/
theorem Invariant.keeps (h : σ.Invariant base count) {c : FrameCall} (hlegal : σ.Legal c)
    (hsingle : σ.Single c) (hcall : σ.call c = .ok σ') : Keeps base count c σ σ' := by
  cases c with
  | allocate k => exact h.allocate_keeps hcall
  | autoContinuousMap b => exact h.autoContinuousMap_keeps hlegal hcall
  | map page b => exact h.map_keeps hlegal.1 hlegal.2 hsingle hcall
  | unmap page => exact h.unmap_keeps hlegal hcall

end Keeps

end FrameSystem

end Axel
