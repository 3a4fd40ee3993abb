import Axel.Paging.Boot

/-!
# Repeated mapping cycles

`find_empty_pages` only looks at entries that are not present, so it never comes back to a
table that exists, and `unmap` gives back no table. This file follows cycles that search for
a page, map a new frame to it and unmap it again: each of them leaves one more present entry
in the level-4 table.
-/

namespace Axel

open Descent Table ActivePageTable

variable {α : Type}

/-- What is assumed of an allocator that counts its free frames: a frame that is handed out
is counted, `None` means that there is none, and a frame can be given back. -/
structure CountedSource (α : Type) [FrameAllocator α] extends FrameSource α where
  /-- The number of free frames. -/
  available : α → ℕ
  /-- A frame that is handed out was counted. -/
  taken : ∀ {a used frame a'}, Serves a used →
    FrameAllocator.allocOne a = .ok (some frame, a') → available a = available a' + 1
  /-- The allocator only refuses when it has no free frame. -/
  exhausted : ∀ {a used a'}, Serves a used →
    FrameAllocator.allocOne a = .ok (none, a') → available a = 0
  /-- A frame that was handed out can be given back. -/
  returned : ∀ {a used frame a'}, Serves a used →
    FrameAllocator.allocOne a = .ok (some frame, a') →
    ∃ a'', FrameAllocator.free a' (Frame.fromAddress (frame.number * 4096)) = .ok a'' ∧
      Serves a'' used ∧ available a'' = available a' + 1

/-- A stack of free frames counts its length. -/
def FramePool.counted : CountedSource FramePool where
  toFrameSource := FramePool.source
  available a := a.frames.length
  taken := by
    rintro ⟨frames⟩ used frame a' - halloc
    cases frames with
    | nil => cases halloc
    | cons f rest =>
      obtain ⟨-, rfl⟩ := Prod.mk.inj (Except.ok.inj halloc)
      rfl
  exhausted := by
    rintro ⟨frames⟩ used a' - halloc
    cases frames with
    | nil => rfl
    | cons f rest => cases halloc
  returned := by
    rintro ⟨frames⟩ used frame a' hserves halloc
    cases frames with
    | nil => cases halloc
    | cons f rest =>
      obtain ⟨hframe, rfl⟩ := Prod.mk.inj (Except.ok.inj halloc)
      obtain rfl := Option.some.inj hframe
      have hnumber : (Frame.fromAddress (f * 4096)).number = f :=
        Nat.mul_div_cancel f (by decide)
      refine ⟨⟨f :: rest⟩, ?_, hserves, rfl⟩
      show Except.ok (FramePool.mk ((Frame.fromAddress (f * 4096)).number :: rest)) = _
      rw [hnumber]

/-- The free frames after a number of them was drawn. -/
theorem CountedSource.available_of_drawn [FrameAllocator α] (source : CountedSource α) {n : ℕ}
    {a a' : α} (h : Drawn n a a') {used : Set ℕ} (hserves : source.Serves a used) :
    source.available a = n + source.available a' ∧ ∃ used', source.Serves a' used' := by
  induction h generalizing used with
  | none a => exact ⟨(Nat.zero_add _).symm, used, hserves⟩
  | @some n a a' a'' frame halloc _ ih =>
    rcases source.allocOne hserves with ⟨a₁, hnone, -⟩ | ⟨frame', a₁, hsome, -, -, hserves'⟩
    · rw [halloc] at hnone
      cases hnone
    · rw [halloc] at hsome
      obtain ⟨-, rfl⟩ := Prod.mk.inj (Except.ok.inj hsome)
      obtain ⟨havailable, hlast⟩ := ih hserves'
      have htaken := source.taken hserves halloc
      exact ⟨by omega, hlast⟩

/-- An allocator that ran out after a number of frames was drawn had that many. -/
theorem CountedSource.available_of_refused [FrameAllocator α] (source : CountedSource α) {n : ℕ}
    {a a' a'' : α} (h : Drawn n a a') {used : Set ℕ} (hserves : source.Serves a used)
    (halloc : FrameAllocator.allocOne a' = .ok (none, a'')) : source.available a = n := by
  obtain ⟨havailable, used', hserves'⟩ := source.available_of_drawn h hserves
  rw [havailable, source.exhausted hserves' halloc, Nat.add_zero]

/-- One cycle: search for a page, allocate a frame, map it and unmap it. The result says
whether all four calls succeeded. -/
def mappingCycle [FrameAllocator α] : Kernel α Bool := do
  match ← findEmptyPage with
  | none => return false
  | some page =>
    match ← allocOne with
    | none => return false
    | some frame =>
      match ← map page frame with
      | .error _ => return false
      | .ok () =>
        match ← unmap page with
        | .error _ => return false
        | .ok () => return true

/-- A number of successful cycles leads from one state to another. -/
def Cycled [FrameAllocator α] : ℕ → Machine α → Machine α → Prop
  | 0, s, s' => s = s'
  | n + 1, s, s' => ∃ s₁, Cycled n s s₁ ∧ mappingCycle s₁ = .ok true s'

/-- The present entries of the level-4 table. -/
def Machine.presentEntries (s : Machine α) : Set Index := {i | (s.mem s.cr3 i).isPresent = true}

/-- A number of cycles succeeds, and the ends of all cycles agree with the end of the first
one in the number of free frames and the present entries of the level-4 table. -/
def Sustains [FrameAllocator α] (source : CountedSource α) (s : Machine α) (n : ℕ) : Prop :=
  (∃ s', Cycled n s s') ∧
    ∀ s₁, Cycled 1 s s₁ → ∀ k s', 1 ≤ k → k ≤ n → Cycled k s s' →
      source.available s'.allocator = source.available s₁.allocator ∧
        s'.presentEntries = s₁.presentEntries

section Cycle

variable [FrameAllocator α] {source : CountedSource α} {root : ℕ} {s : Machine α}

/-- Mapping a new frame to a page that a search returned, and unmapping the page, leaves the
tables as the search left them. -/
theorem Hosted.map_unmap (h : Hosted source.toFrameSource ∅ root s) (hroot : s.cr3 = root)
    {s₁ : Machine α} {i4 : Index} {last : ℕ} {frame : Frame}
    (hi4 : i4 ≠ recursiveSlot) (hfresh : FreshTable s.mem root [i4, 1, 1] last)
    (hpass : Passable s.mem root [i4, 1, 1])
    (halloc : FrameAllocator.allocOne s.allocator = .ok (some frame, s₁.allocator))
    (hmem₁ : s₁.mem = s.mem) (hcr3₁ : s₁.cr3 = s.cr3) (hlt : frame.number < 2 ^ 36)
    (h₁ : Hosted source.toFrameSource {frame.number} root s₁) :
    ∃ s₂ s', map (foundPage i4) frame s₁ = .ok (.ok ()) s₂ ∧
      unmap (foundPage i4) s₂ = .ok (.ok ()) s' ∧ s'.mem = s.mem ∧ s'.cr3 = s.cr3 ∧
      Hosted source.toFrameSource ∅ root s' := by
  have hone : (1 : Index) ≠ recursiveSlot := by decide
  obtain ⟨hnumber, hpage, hlevel1⟩ := foundPage_indices i4
  have hpath : TablePath [i4, 1, 1] := ⟨by simp, by simp [hi4, hone]⟩
  obtain ⟨s₂, hrun₂, hreach₂⟩ := h₁.map_found hi4 (by rw [hmem₁]; exact hfresh)
    (by rw [hmem₁]; exact hpass) hlt
  rw [hmem₁] at hreach₂
  have hslot : ∀ f, link s₂.mem f recursiveSlot = link s.mem f recursiveSlot := by
    intro f
    rw [hreach₂.mem, link, Memory.set_of_ne _ _ (Or.inr hone.symm), link]
  have hwindow₂ : Window s₂.mem s₂.cr3 root := by
    rw [hreach₂.cr3, hcr3₁]
    exact ⟨(hslot _).trans h.window.enters, (hslot _).trans h.window.stays⟩
  have htable₂ : descend (link s₂.mem) root (tablePath ((foundPage i4).number * 4096)) =
      some last := by
    rw [hpage, hreach₂.mem, set_leaf_descend rfl hfresh.sole hpath, hfresh.reached]
  have haddr : (s₂.mem last (level1Index ((foundPage i4).number * 4096))).getFrameAddr =
      some (frame.number * 4096) := by
    rw [hlevel1, hreach₂.mem, Memory.set_self, PageEntry.getFrameAddr_withFrame hlt]
  obtain ⟨a', hfree, hserves', -⟩ := source.returned h.serves halloc
  rw [← hreach₂.allocator] at hfree
  obtain ⟨s₃, before, hrun₃, hmem₃, hcr3₃, hallocator₃, -⟩ :=
    hwindow₂.unmap_present (by omega) (by rw [hpage]; exact hpath) htable₂ haddr hfree
  have hmem : s₃.mem = s.mem := by
    rw [hmem₃, hlevel1, hreach₂.mem, Memory.set_set, Memory.set_eq_self (hfresh.empty 1 hone)]
  have hcr3 : s₃.cr3 = s.cr3 := by rw [hcr3₃, hreach₂.cr3, hcr3₁]
  refine ⟨s₂, s₃, hrun₂, hrun₃, hmem, hcr3, ?_⟩
  apply h.of_tables hroot (fun f _ => by rw [hmem]) hcr3 (Set.empty_disjoint _)
  rw [hallocator₃]
  exact hserves'

/-- Everything a cycle can do. It adds an entry to the level-4 table, or it does not
succeed, which only happens when the level-4 table is full or has a stray page-size bit, or
the allocator has less than four frames. -/
theorem Hosted.mappingCycle_cases (h : Hosted source.toFrameSource ∅ root s) (hroot : s.cr3 = root)
    (hsole : Sole s.mem root [] root) :
    (∃ s' i, mappingCycle s = .ok true s' ∧ Hosted source.toFrameSource ∅ root s' ∧
      Sole s'.mem root [] root ∧ s'.cr3 = s.cr3 ∧ (s.mem root i).isPresent = false ∧
      (s'.mem root i).isPresent = true) ∨
    (∀ s', mappingCycle s ≠ .ok true s') ∧
      (firstVacant s.mem root = none ∨ source.available s.allocator < 4 ∨
        ∃ i, firstVacant s.mem root = some i ∧ (s.mem root i).isHuge = true) := by
  rcases h.findEmptyPages_cases hsole (le_refl 1) with
    ⟨s₁, i4, last, hfind, -, h₁, hgrown, hempty⟩ | ⟨s₁, hfind, -, -, hnone⟩ |
    ⟨i4, s₁, hfound, hhuge, hfind⟩
  · have hroot₁ : s₁.cr3 = root := hgrown.cr3.trans hroot
    rcases h₁.allocOne hroot₁ with ⟨s₂, a, hrun, halloc⟩ |
      ⟨frame, s₂, hrun₂, halloc, hmem₂, hcr3₂, hlt, h₂⟩
    · right
      constructor
      · intro s' htrue
        have hcycle : mappingCycle s = .ok false s₂ := (bind_ok hfind).trans (bind_ok hrun)
        rw [hcycle] at htrue
        cases htrue
      · right
        left
        have hdrawn := source.available_of_refused hempty.drawn h.serves halloc
        omega
    · left
      obtain ⟨s₃, s', hrun₃, hrun, hmem, hcr3, h'⟩ := h₁.map_unmap hroot₁ hempty.ordinary
        hempty.fresh hempty.pass halloc hmem₂ hcr3₂ hlt h₂
      refine ⟨s', i4, ?_, h', ?_, hcr3.trans hgrown.cr3, ?_, ?_⟩
      · calc mappingCycle s = _ := bind_ok hfind
          _ = _ := bind_ok hrun₂
          _ = _ := bind_ok hrun₃
          _ = .ok true s' := bind_ok hrun
      · rw [hmem]
        exact hgrown.sole within_nil descend_nil hsole
      · simpa using List.find?_some hempty.found
      · obtain ⟨child, hlink, -⟩ := Option.bind_eq_some_iff.mp hempty.fresh.reached
        rw [hmem]
        exact (PageEntry.child_eq_some.mp hlink).1
  · right
    constructor
    · intro s' htrue
      have hcycle : mappingCycle s = .ok false s₁ := bind_ok hfind
      rw [hcycle] at htrue
      cases htrue
    · rcases hnone with hfull | ⟨n, a, hn, hdrawn, halloc⟩ | hmany
      · exact Or.inl hfull
      · right
        left
        have havailable := source.available_of_refused hdrawn h.serves halloc
        omega
      · omega
  · right
    constructor
    · intro s' htrue
      have hcycle : mappingCycle s = .error .debugAssert s₁ := bind_error hfind
      rw [hcycle] at htrue
      cases htrue
    · exact Or.inr (Or.inr ⟨i4, hfound, hhuge⟩)

/-- What successful cycles keep. -/
theorem Cycled.hosted {n : ℕ} {s' : Machine α} (hcycled : Cycled n s s')
    (h : Hosted source.toFrameSource ∅ root s) (hroot : s.cr3 = root)
    (hsole : Sole s.mem root [] root) :
    Hosted source.toFrameSource ∅ root s' ∧ Sole s'.mem root [] root ∧ s'.cr3 = s.cr3 := by
  induction n generalizing s' with
  | zero =>
    obtain rfl : s = s' := hcycled
    exact ⟨h, hsole, rfl⟩
  | succ n ih =>
    obtain ⟨s₁, hcycled, hlast⟩ := hcycled
    obtain ⟨h₁, hsole₁, hcr3₁⟩ := ih hcycled
    rcases h₁.mappingCycle_cases (hcr3₁.trans hroot) hsole₁ with
      ⟨s₂, i, hrun, h₂, hsole₂, hcr3, -⟩ | ⟨hfails, -⟩
    · rw [hlast] at hrun
      obtain ⟨-, rfl⟩ := EStateM.Result.ok.inj hrun
      exact ⟨h₂, hsole₂, hcr3.trans hcr3₁⟩
    · exact absurd hlast (hfails s')

omit source in
/-- The cycles before the last ones succeeded as well. -/
theorem Cycled.take {n k : ℕ} (hk : k ≤ n) {s' : Machine α} (h : Cycled n s s') :
    ∃ s₁, Cycled k s s₁ := by
  induction n generalizing s' with
  | zero =>
    obtain rfl : k = 0 := by omega
    exact ⟨s', h⟩
  | succ n ih =>
    by_cases hlast : k = n + 1
    · exact ⟨s', hlast ▸ h⟩
    · obtain ⟨s₁, h₁, -⟩ := h
      exact ih (by omega) h₁

/-- Two cycles leave different present entries. -/
theorem Hosted.not_sustains (h : Hosted source.toFrameSource ∅ root s)
    (hsole : Sole s.mem root [] root) (hcr3 : s.cr3 = root) {n : ℕ} (hn : 2 ≤ n) :
    ¬Sustains source s n := by
  rintro ⟨⟨s', hcycled⟩, hsame⟩
  obtain ⟨s₂, s₁, hone, htwo⟩ := hcycled.take hn
  obtain ⟨h₁, hsole₁, hcr3₁⟩ := hone.hosted h hcr3 hsole
  obtain ⟨-, hentries⟩ := hsame s₁ hone 2 s₂ (by decide) hn ⟨s₁, hone, htwo⟩
  rcases h₁.mappingCycle_cases (hcr3₁.trans hcr3) hsole₁ with
    ⟨s₃, i, hrun, -, -, hcr3₂, habsent, hpresent⟩ |
    ⟨hfails, -⟩
  · rw [htwo] at hrun
    obtain ⟨-, rfl⟩ := EStateM.Result.ok.inj hrun
    rw [← hcr3, ← hcr3₁] at habsent hpresent
    have hmem : i ∈ s₁.presentEntries := by
      rw [← hentries, Machine.presentEntries, Set.mem_ofPred_eq, hcr3₂]
      exact hpresent
    rw [Machine.presentEntries, Set.mem_ofPred_eq, habsent] at hmem
    cases hmem
  · exact hfails s₂ htwo

/-- The boot tables are hosted when the allocator hands out neither of them. -/
theorem BootTables.counted (h : BootTables s) (hserves : source.Serves s.allocator {1, 3}) :
    Hosted source.toFrameSource ∅ 1 s :=
  h.hosted (Set.empty_disjoint _) (by rw [Set.empty_union]; exact hserves)

/-- On the boot tables, with at least eight free frames, cycles sustain the number of free
frames and the present entries exactly when there is at most one of them. -/
theorem cycles_sustain_iff (hboot : BootTables s) (hserves : source.Serves s.allocator {1, 3})
    (hrich : 8 ≤ source.available s.allocator) (n : ℕ) : Sustains source s n ↔ n ≤ 1 := by
  have h := hboot.counted hserves
  constructor
  · intro hsustains
    by_contra hlarge
    exact h.not_sustains hboot.sole hboot.cr3 (by omega) hsustains
  · intro hn
    constructor
    · rcases Nat.le_one_iff_eq_zero_or_eq_one.mp hn with rfl | rfl
      · exact ⟨s, rfl⟩
      · rcases h.mappingCycle_cases hboot.cr3 hboot.sole with ⟨s', i, hrun, -⟩ | ⟨-, hfails⟩
        · exact ⟨s', s, rfl, hrun⟩
        · rw [hboot.firstVacant_eq] at hfails
          rcases hfails with hfull | hpoor | ⟨i, hfound, hhuge⟩
          · cases hfull
          · omega
          · obtain rfl := Option.some.inj hfound
            rw [hboot.level4_cleared (by decide) (by decide)] at hhuge
            cases hhuge
    · rintro s₁ ⟨_, rfl, hone⟩ k s' hk hkn hcycled
      obtain rfl : k = 1 := by omega
      obtain ⟨_, rfl, hone'⟩ := hcycled
      rw [hone] at hone'
      obtain ⟨-, rfl⟩ := EStateM.Result.ok.inj hone'
      exact ⟨rfl, rfl⟩

end Cycle

/-- The boot tables with eight free frames. -/
def bootMachine : Machine FramePool :=
  ⟨fun frame =>
      if frame = 1 then bootLevel4 else if frame = 3 then bootLevel3 else fun _ => .cleared,
    1, ⟨[16, 17, 18, 19, 20, 21, 22, 23]⟩, []⟩

/-- The machine runs on the boot tables. -/
theorem bootMachine_tables : BootTables bootMachine := ⟨rfl, rfl, rfl⟩

/-- The free frames are not the boot tables. -/
theorem bootMachine_serves : FramePool.counted.Serves bootMachine.allocator {1, 3} := by
  show [16, 17, 18, 19, 20, 21, 22, 23].Nodup ∧
    ∀ frame ∈ [16, 17, 18, 19, 20, 21, 22, 23], frame ∉ ({1, 3} : Set ℕ) ∧ frame < 2 ^ 36
  simp

/-- One cycle with eight free frames, and not two. -/
theorem cycles_sustain_iff_eight :
    Sustains FramePool.counted bootMachine 1 ∧ ¬Sustains FramePool.counted bootMachine 2 := by
  have hiff := cycles_sustain_iff bootMachine_tables bootMachine_serves (by decide)
  exact ⟨(hiff 1).mpr (by decide), fun h => absurd ((hiff 2).mp h) (by decide)⟩

/-- Cycles with eight free frames do not sustain the allocator and the level-4 table. -/
theorem not_cycles_sustain :
    ¬∀ (s : Machine FramePool) (n : ℕ), BootTables s →
      FramePool.counted.Serves s.allocator {1, 3} →
      8 ≤ FramePool.counted.available s.allocator → Sustains FramePool.counted s n := by
  intro hclaim
  have h := bootMachine_tables.counted bootMachine_serves
  exact h.not_sustains bootMachine_tables.sole rfl le_rfl
    (hclaim bootMachine 2 bootMachine_tables bootMachine_serves (by decide))

end Axel
