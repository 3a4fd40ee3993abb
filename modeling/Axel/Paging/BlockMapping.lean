import Axel.Paging.ContinuousMap

/-!
# Mapping a block in any state

The pages that `find_empty_pages` returns lie in one new level-1 table, whatever the other tables
look like. So the loop of `auto_continuous_map` never meets a page that is mapped, and its `panic!`
is not reached, for frames of any size. When the call returns a range, the pages of the range are
translated to the frames of the block.
-/

namespace Axel

open Descent Table ActivePageTable

variable {α β γ : Type}

/-- Setting the frame of an entry can only fail an assertion. -/
theorem PageEntry.setFrameAddr_ne_panic (entry : PageEntry) (addr : ℕ) :
    entry.setFrameAddr addr ≠ .error .panic := by
  simp only [PageEntry.setFrameAddr, debugAssert]
  split <;> split <;> simp [bind, Except.bind, pure, Except.pure]

section Panics

variable {s : Machine α}

/-- A sequence of two computations raises no fault that neither of them raises. -/
theorem bind_ne_error {x : Kernel α β} {f : β → Kernel α γ} {fault : Fault}
    (hx : ∀ s', x s ≠ .error fault s')
    (hf : ∀ b s₁, x s = .ok b s₁ → ∀ s', f b s₁ ≠ .error fault s') (s' : Machine α) :
    (x >>= f) s ≠ .error fault s' := by
  simp only [bind, EStateM.bind]
  cases hrun : x s with
  | ok b s₁ => exact hf b s₁ hrun s'
  | error other s₁ =>
    rintro herror
    obtain ⟨rfl, rfl⟩ := EStateM.Result.error.inj herror
    exact hx _ hrun

/-- A computation that does not touch the machine raises its own faults only. -/
theorem lift_ne_error {x : Except Fault β} {fault : Fault} (h : x ≠ .error fault)
    (s' : Machine α) : (lift x : Kernel α β) s ≠ .error fault s' := by
  cases x with
  | ok b => simp [lift]
  | error other =>
    rintro herror
    obtain ⟨rfl, -⟩ := EStateM.Result.error.inj herror
    exact h rfl

/-- A sequence that starts with a computation that does not touch the machine. -/
theorem lift_bind_ne_error {x : Except Fault β} {f : β → Kernel α γ} {fault : Fault}
    (hx : x ≠ .error fault) (hf : ∀ b, x = .ok b → ∀ s', f b s ≠ .error fault s')
    (s' : Machine α) : (lift x >>= f) s ≠ .error fault s' := by
  refine bind_ne_error (lift_ne_error hx) (fun b s₁ hrun => ?_) s'
  obtain ⟨hb, rfl⟩ := lift_eq_ok.mp hrun
  exact hf b hb

/-- A check that fails with another fault does not panic. -/
theorem check_ne_panic {p : Prop} [Decidable p] {b : β} {fault : Fault}
    (hfault : fault ≠ .panic) :
    (if p then .ok b else .error fault : Except Fault β) ≠ .error .panic := by
  split
  · simp
  · simpa using hfault

/-- A checked addition does not panic. -/
theorem checkedAdd_ne_panic (a b : ℕ) : checkedAdd a b ≠ .error .panic :=
  check_ne_panic (by simp)

/-- A checked subtraction does not panic. -/
theorem checkedSub_ne_panic (a b : ℕ) : checkedSub a b ≠ .error .panic :=
  check_ne_panic (by simp)

/-- A checked multiplication does not panic. -/
theorem checkedMul_ne_panic (a b : ℕ) : checkedMul a b ≠ .error .panic :=
  check_ne_panic (by simp)

/-- Resolving a pointer raises a processor exception or nothing. -/
theorem resolve_ne_panic (s : Machine α) (addr : ℕ) : s.resolve addr ≠ .error .panic := by
  unfold Machine.resolve
  split
  · split <;> simp
  · simp

/-- An access through a pointer does not panic. -/
theorem access_ne_panic (addr : ℕ) (value : ℕ → β) (after : ℕ → Machine α) (s' : Machine α) :
    (match s.resolve addr with
      | .ok frame => .ok (value frame) (after frame)
      | .error fault => .error fault s : EStateM.Result Fault (Machine α) β) ≠
      .error .panic s' := by
  have hresolve := resolve_ne_panic s addr
  split
  · simp
  · rename_i fault hfault
    rintro herror
    obtain ⟨rfl, -⟩ := EStateM.Result.error.inj herror
    exact hresolve hfault

/-- Reading an entry does not panic. -/
theorem readEntry_ne_panic (table : ℕ) (i : Index) (s' : Machine α) :
    readEntry table i s ≠ .error .panic s' :=
  access_ne_panic table (fun frame => s.mem frame i) _ s'

/-- Writing an entry does not panic. -/
theorem writeEntry_ne_panic (table : ℕ) (i : Index) (e : PageEntry) (s' : Machine α) :
    writeEntry table i e s ≠ .error .panic s' :=
  access_ne_panic table (fun _ => ()) _ s'

/-- The part of `map` after its tables were created does not panic. -/
theorem mapLeaf_ne_panic (table : Option ℕ) (i : Index) (frameAddr : ℕ) (s' : Machine α) :
    mapLeaf table i frameAddr s ≠ .error .panic s' := by
  cases table with
  | none => simp [mapLeaf, pure_run]
  | some pointer =>
    refine bind_ne_error (readEntry_ne_panic pointer i) (fun entry s₁ _ => ?_) s'
    split
    · refine bind_ne_error (bind_ne_error (readEntry_ne_panic pointer i) fun entry s₂ _ => ?_)
        fun _ s₂ _ s' => by simp [pure_run]
      exact bind_ne_error (lift_ne_error (entry.setFrameAddr_ne_panic frameAddr))
        fun entry s₃ _ => writeEntry_ne_panic pointer i entry
    · exact fun s' => by simp [pure_run]

end Panics

section Leaf

variable [FrameAllocator α] {root table : ℕ} {path : List Index} {s s' : Machine α} {page : Page}
  {frame : Frame}

/-- Mapping a page whose tables exist does not panic. -/
theorem LeafTable.map_ne_panic (h : LeafTable s.mem s.cr3 root path table)
    (hpath : tablePath (page.number * 4096) = path) (s' : Machine α) :
    map page frame s ≠ .error .panic s' := by
  subst hpath
  obtain ⟨s₁, hcreate, -⟩ :=
    h.window.createAlong_existing [] (tablePath (page.number * 4096)) le_rfl h.reached
  rw [List.nil_append] at hcreate
  rw [map]
  refine lift_bind_ne_error (checkedMul_ne_panic _ _) (fun pageAddr haddr => ?_) s'
  obtain ⟨-, rfl⟩ := checkedMul_eq_ok.mp haddr
  refine lift_bind_ne_error (checkedMul_ne_panic _ _) fun frameAddr _ s' => ?_
  rw [andThen_chain]
  have hrest := mapLeaf_ne_panic (s := s₁) (some (windowPtr (tablePath (page.number * 4096))))
    (level1Index (page.number * 4096)) frameAddr s'
  rw [mapLeaf] at hrest
  exact fun hfault => hrest ((bind_ok hcreate).symm.trans hfault)

/-- Mapping a page whose entry in an existing level-1 table is not present: when the call returns
at all, it filled the entry. -/
theorem LeafTable.map_vacant (h : LeafTable s.mem s.cr3 root path table)
    (hpath : tablePath (page.number * 4096) = path)
    (habsent : (s.mem table (level1Index (page.number * 4096))).isPresent = false)
    {r : Except TableError Unit} (hrun : map page frame s = .ok r s') :
    r = .ok () ∧ LeafTable s'.mem s'.cr3 root path table ∧
      ∃ e, s'.mem = s.mem.set table (level1Index (page.number * 4096)) e := by
  obtain ⟨s₁, hcreate, hmem, hcr3, -⟩ := h.window.createAlong_existing [] path
    (by rw [← hpath]; exact le_rfl) h.reached
  rw [List.nil_append] at hcreate
  have h₁ : LeafTable s₁.mem s₁.cr3 root path table := by
    rw [hmem, hcr3]
    exact h
  obtain ⟨hpage, hcases⟩ := map_returned hrun
  have hfills : ∀ other : Frame, other.number < 2 ^ 36 → ∃ s₂, map page other s = .ok (.ok ()) s₂ ∧
      LeafTable s₂.mem s₂.cr3 root path table ∧
      ∃ e, s₂.mem = s.mem.set table (level1Index (page.number * 4096)) e := by
    intro other hother
    have hfill : Fillable s₁.mem path table (page, other) :=
      ⟨hpage, hother, hpath, by rw [hmem]; exact habsent⟩
    obtain ⟨s₂, hmap, h₂, hmem₂, -⟩ := h₁.map_fills hcreate hfill
    rw [hmem] at hmem₂
    exact ⟨s₂, hmap, h₂, _, hmem₂⟩
  rcases hcases with ⟨rfl, hframe⟩ | ⟨⟨error, rfl⟩, hother⟩
  · obtain ⟨s₂, hmap, h₂, hset⟩ := hfills frame hframe
    rw [hrun] at hmap
    obtain ⟨-, rfl⟩ := EStateM.Result.ok.inj hmap
    exact ⟨rfl, h₂, hset⟩
  · obtain ⟨s₂, hmap, -⟩ := hfills ⟨0, 0, .used⟩ (by decide)
    rw [hother ⟨0, 0, .used⟩ (by decide)] at hmap
    cases hmap

/-- The loop of `auto_continuous_map` does not panic in a level-1 table in which the entries of
its pages are not present. -/
theorem LeafTable.continuousMapFrom_ne_panic (h : LeafTable s.mem s.cr3 root path table)
    {frameAddr pageAddr : ℕ} {is : List ℕ} (haligned : 4096 ∣ pageAddr)
    (hpath : ∀ i ∈ is, tablePath (pageAddr + i * 4096) = path)
    (hdistinct : (is.map fun i => level1Index (pageAddr + i * 4096)).Nodup)
    (habsent : ∀ i ∈ is, (s.mem table (level1Index (pageAddr + i * 4096))).isPresent = false)
    (s' : Machine α) : continuousMapFrom frameAddr pageAddr is s ≠ .error .panic s' := by
  induction is generalizing s s' with
  | nil => simp [continuousMapFrom, pure_run]
  | cons i is ih =>
    obtain ⟨hother, hrest⟩ := List.nodup_cons.mp hdistinct
    refine lift_bind_ne_error (checkedMul_ne_panic _ _) (fun offset hoffset => ?_) s'
    obtain ⟨-, rfl⟩ := checkedMul_eq_ok.mp hoffset
    refine lift_bind_ne_error (checkedAdd_ne_panic _ _) fun faddr _ => ?_
    refine lift_bind_ne_error (checkedAdd_ne_panic _ _) fun paddr hpaddr => ?_
    obtain ⟨-, rfl⟩ := checkedAdd_eq_ok.mp hpaddr
    have hnumber : (Page.fromAddress (pageAddr + i * frameSize)).number * 4096 =
        pageAddr + i * 4096 :=
      Nat.div_mul_cancel (Nat.dvd_add haligned (Dvd.intro_left _ rfl))
    have hpage := hpath i List.mem_cons_self
    have hvacant := habsent i List.mem_cons_self
    rw [← hnumber] at hpage hvacant
    refine bind_ne_error (h.map_ne_panic hpage) (fun result s₂ hmap => ?_)
    obtain ⟨rfl, h₂, e, hmem⟩ := h.map_vacant hpage hvacant hmap
    intro s'
    refine ih h₂ (fun j hj => hpath j (List.mem_cons_of_mem i hj)) hrest (fun j hj => ?_) s'
    rw [hmem, Memory.set_of_ne, habsent j (List.mem_cons_of_mem i hj)]
    right
    intro hsame
    rw [hnumber] at hsame
    exact hother (List.mem_map.mpr ⟨j, hj, hsame⟩)

end Leaf

section Block

variable [FrameAllocator α] {source : FrameSource α} {used : Set ℕ} {root last n count : ℕ}
  {s s' : Machine α} {i4 : Index} {frame : Frame}

/-- The pages that a search returned have the indices `[i4, 1, 1]` and then different ones. -/
theorem foundPage_entries (i4 : Index) (hle : count ≤ 510) :
    (∀ i ∈ List.range count,
      tablePath ((foundPage i4).number * 4096 + i * 4096) = [i4, 1, 1] ∧
        level1Index ((foundPage i4).number * 4096 + i * 4096) ≠ recursiveSlot) ∧
    ((List.range count).map fun i =>
      level1Index ((foundPage i4).number * 4096 + i * 4096)).Nodup := by
  constructor
  · intro i hi
    rw [List.mem_range] at hi
    obtain ⟨hpath, hlevel1⟩ := indices_foundPage_add i4 (show i < 511 by omega)
    rw [Nat.add_mul] at hpath hlevel1
    rw [hlevel1]
    exact ⟨hpath, ne_recursiveSlot (Nat.succ_lt_succ (by omega))⟩
  · refine List.Nodup.map_on ?_ List.nodup_range
    intro i hi j hj hsame
    rw [List.mem_range] at hi hj
    have hi' := (indices_foundPage_add i4 (show i < 511 by omega)).2
    have hj' := (indices_foundPage_add i4 (show j < 511 by omega)).2
    rw [Nat.add_mul] at hi' hj'
    rw [hi', hj'] at hsame
    have hval : i + 1 = j + 1 := congrArg Fin.val hsame
    omega

/-- `auto_continuous_map` does not reach its `panic!`, for tables of any shape and any frame. -/
theorem Supplied.autoContinuousMap_ne_panic (h : Supplied source used root s) (s' : Machine α) :
    autoContinuousMap frame s ≠ .error .panic s' := by
  refine lift_bind_ne_error (check_ne_panic (by simp)) (fun count hcount => ?_) s'
  have hpos : 1 ≤ count := by
    split at hcount
    · rw [← Except.ok.inj hcount, Nat.one_shiftLeft]
      exact Nat.one_le_two_pow
    · cases hcount
  refine lift_bind_ne_error (checkedMul_ne_panic _ _) fun size _ => ?_
  rcases h.findEmptyPages_cases hpos with ⟨i4, s₁, hfind, hle, hpages⟩ | ⟨s₁, hfind, -⟩ |
    ⟨i4, s₁, -, -, hfind⟩
  · obtain ⟨last, hleaf, -, hbare⟩ := hpages.bareLeaf h.inside
    obtain ⟨hentries, hdistinct⟩ := foundPage_entries i4 hle
    intro s'
    rw [bind_ok hfind]
    refine lift_bind_ne_error (checkedMul_ne_panic _ _) (fun frameAddr _ => ?_) s'
    refine lift_bind_ne_error (checkedMul_ne_panic _ _) fun pageAddr hpage => ?_
    obtain ⟨-, rfl⟩ := checkedMul_eq_ok.mp hpage
    refine bind_ne_error (hleaf.continuousMapFrom_ne_panic (Dvd.intro_left _ rfl)
      (fun i hi => (hentries i hi).1) hdistinct fun i hi => hbare.absent (hentries i hi).2)
      fun _ s₂ _ => ?_
    exact lift_bind_ne_error (checkedAdd_ne_panic _ _) fun limit _ s' => by simp [pure_run]
  · intro s'
    rw [bind_ok hfind]
    simp [andThen, pure_run]
  · intro s'
    rw [bind_error hfind]
    simp

/-- When the loop of `auto_continuous_map` maps the pages that a search returned, it fills their
entries and no others. -/
theorem LeafTable.mapAll_block_returned (h : LeafTable s.mem s.cr3 root [i4, 1, 1] last)
    (habsent : ∀ i, i ≠ recursiveSlot → (s.mem last i).isPresent = false) (hpos : 1 ≤ count)
    (hle : count ≤ 510)
    (hrun : mapAll (blockMappings ((foundPage i4).number * 4096) (n * 4096) count) s =
      .ok (.ok ()) s') :
    LeafTable s'.mem s'.cr3 root [i4, 1, 1] last ∧ s'.cr3 = s.cr3 ∧
      Filled s.mem last (blockMappings ((foundPage i4).number * 4096) (n * 4096) count)
        s'.mem := by
  have hframes : ∀ i < count, n + i < 2 ^ 36 := by
    intro i hi
    have hfits := frames_fit_of_mapAll hrun _
      (List.mem_map.mpr ⟨i, List.mem_range.mpr hi, rfl⟩)
    rwa [fromAddress_add] at hfits
  obtain ⟨s₁, hrun', hleaf, hcr3, -, hfilled⟩ := h.mapAll_block habsent hpos hle hframes
  rw [hrun] at hrun'
  obtain ⟨-, rfl⟩ := EStateM.Result.ok.inj hrun'
  exact ⟨hleaf, hcr3, hfilled⟩

omit [FrameAllocator α] in
/-- The pages of a filled block are translated to its frames. -/
theorem LeafTable.walk_block {mem : Memory} (h : LeafTable s'.mem s'.cr3 root [i4, 1, 1] last)
    (hfilled : Filled mem last
      (blockMappings ((foundPage i4).number * 4096) (n * 4096) count) s'.mem)
    (hle : count ≤ 510) {i : ℕ} (hi : i < count) :
    walk s'.mem root (indices ((foundPage i4).number * 4096 + i * 4096)) = some (n + i) := by
  obtain ⟨hnumber, -, -⟩ := foundPage_add i4 (show i < 511 by omega) rfl
  obtain ⟨hpresent, hframe⟩ :=
    hfilled.entry _ (List.mem_map.mpr ⟨i, List.mem_range.mpr hi, rfl⟩)
  rw [hnumber, Nat.add_mul] at hpresent hframe
  have hpath := (indices_foundPage_add i4 (show i < 511 by omega)).1
  rw [Nat.add_mul] at hpath
  rw [indices, hpath, walk_append h.reached (by simp), walk_singleton, hpresent, hframe]
  exact congrArg some (fromAddress_add n i)

/-- When `auto_continuous_map` returns a range, for tables of any shape, the range is as long as
the block and its pages are translated to the frames of the block. -/
theorem Supplied.autoContinuousMap_translates (h : Supplied source used root s) {a b : ℕ}
    (hrun : autoContinuousMap frame s = .ok (some (a, b)) s') :
    s'.cr3 = s.cr3 ∧ b = a + 2 ^ frame.order * 4096 ∧
      ∀ i < 2 ^ frame.order,
        walk s'.mem root (indices (a + i * 4096)) = some (frame.number + i) := by
  obtain ⟨-, ⟨hnone, -⟩ | ⟨page, s₁, hfind, hmaps, hrange⟩⟩ := autoContinuousMap_returned hrun
  · cases hnone
  · obtain ⟨rfl, rfl⟩ := Prod.mk.inj (Option.some.inj hrange)
    obtain ⟨i4, rfl, hle, hpages⟩ := h.findEmptyPages_some Nat.one_le_two_pow hfind
    obtain ⟨last, hleaf, -, hbare⟩ := hpages.bareLeaf h.inside
    obtain ⟨hleaf', hcr3, hfilled⟩ :=
      hleaf.mapAll_block_returned (fun i => hbare.absent) Nat.one_le_two_pow hle hmaps
    exact ⟨hcr3.trans hpages.cr3, rfl, fun i hi => hleaf'.walk_block hfilled hle hi⟩

/-- `auto_continuous_map` maps a block of at most 510 frames, for tables of any shape, when the
first vacant entry of the level-4 table does not have the page-size bit and the allocator has
three frames for new tables. -/
theorem Supplied.autoContinuousMap_runs (h : Supplied source used root s)
    (hfound : firstVacant s.mem root = some i4) (hsmall : (s.mem root i4).isHuge = false)
    (horder : 2 ^ frame.order ≤ 510) (hframe : frame.number + 2 ^ frame.order ≤ 2 ^ 36)
    (hlasts : Lasts 3 s.allocator) :
    ∃ s' last, autoContinuousMap frame s = .ok (some ((foundPage i4).number * 4096,
        (foundPage i4).number * 4096 + 2 ^ frame.order * 4096)) s' ∧
      LeafTable s'.mem s'.cr3 root [i4, 1, 1] last ∧
      ∀ f ∈ used, ∀ j, (s.mem f j).isPresent = true → s'.mem f j = s.mem f j := by
  have hpos : 1 ≤ 2 ^ frame.order := Nat.one_le_two_pow
  obtain ⟨s₁, hfind, hpages⟩ := h.findEmptyPages_runs hpos horder hfound hsmall hlasts
  obtain ⟨last, hleaf, hunused, hbare⟩ := hpages.bareLeaf h.inside
  have hframes : ∀ i < 2 ^ frame.order, frame.number + i < 2 ^ 36 := fun i hi => by omega
  obtain ⟨s', hmaps, hleaf', -, -, hfilled⟩ :=
    hleaf.mapAll_block (fun i => hbare.absent) hpos horder hframes
  refine ⟨s', last, autoContinuousMap_some horder hframe hfind hmaps, hleaf', ?_⟩
  intro f hf j hpresent
  have hne : f ≠ last := by
    rintro rfl
    exact hunused hf
  rw [hfilled.kept f j (Or.inl hne), hpages.grafted.kept hf hpresent]

end Block

end Axel
