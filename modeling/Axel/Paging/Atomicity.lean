import Axel.Paging.Cycle
import Axel.Paging.Grafting

/-!
# Failed calls of `map`

A call of `map` can fail at any of three levels, after tables of the levels above were created.
A new table below an entry that is not present maps no page, so these tables do no harm. An
entry with the page-size bit is different: `set_frame_addr` keeps the bit and replaces the
frame, and the call then fails the assertion of `next_level_table_create_mut`. This file says
exactly when a call is atomic, for tables of any shape.
-/

namespace Axel

open Descent Table ActivePageTable

variable {α : Type}

/-- The call does not fail the assertion of `next_level_table_create_mut`, and when it returns
an error, every page without the recursive slot is translated as before. -/
def Atomic [FrameAllocator α] (s : Machine α) (page : Page) (frame : Frame) : Prop :=
  (∀ s', createAlong level4PageTable (tablePath (page.number * 4096)) s ≠ .error .debugAssert s') ∧
    ∀ error s', map page frame s = .ok (.error error) s' →
      ∀ ix, Ordinary ix → ix.length = 4 → walk s'.mem s'.cr3 ix = walk s.mem s.cr3 ix

/-- An allocator that refused a frame after some others handed out no more than these. -/
theorem le_of_drawn_refused [FrameAllocator α] {m n : ℕ} {a a' b b' : α} (h : Drawn m a a')
    (h' : Drawn n a b) (hnone : FrameAllocator.allocOne b = .ok (none, b')) : m ≤ n := by
  induction h generalizing n with
  | none a => exact Nat.zero_le n
  | @some m a a₁ a₂ frame halloc _ ih =>
    cases h' with
    | none =>
      rw [halloc] at hnone
      cases hnone
    | some halloc' hrest =>
      rw [halloc] at halloc'
      obtain ⟨-, rfl⟩ := Prod.mk.inj (Except.ok.inj halloc')
      exact Nat.succ_le_succ (ih hrest)

section Atomic

variable [FrameAllocator α] {source : FrameSource α} {s s₁ : Machine α} {page : Page}
  {frame : Frame}

/-- A call that returns from looking its tables up, when failed calls for another frame keep all
translations. -/
theorem Atomic.of_created {r : Option ℕ}
    (hcreate : createAlong level4PageTable (tablePath (page.number * 4096)) s = .ok r s₁)
    (hfailed : ∀ error s', map page ⟨0, 0, .used⟩ s = .ok (.error error) s' →
      ∀ ix, Ordinary ix → ix.length = 4 → walk s'.mem s'.cr3 ix = walk s.mem s.cr3 ix) :
    Atomic s page frame := by
  constructor
  · intro s' hfault
    rw [hcreate] at hfault
    cases hfault
  · intro error s' hrun
    rcases (map_returned hrun).2 with ⟨hok, -⟩ | ⟨-, hother⟩
    · cases hok
    · exact hfailed error s' (hother ⟨0, 0, .used⟩ (by decide))

/-- A call that does not get its tables. -/
theorem Atomic.of_none (hpage : page.number < 2 ^ 52)
    (hcreate : createAlong level4PageTable (tablePath (page.number * 4096)) s = .ok none s₁)
    (hwalk : ∀ ix, Ordinary ix → ix.length = 4 → walk s₁.mem s₁.cr3 ix = walk s.mem s.cr3 ix) :
    Atomic s page frame := by
  refine .of_created hcreate fun error s' hrun => ?_
  rw [map_run hpage (by decide) hcreate] at hrun
  obtain ⟨-, rfl⟩ := EStateM.Result.ok.inj hrun
  exact hwalk

/-- A call that gets its tables. -/
theorem Atomic.of_leafTable (hpage : page.number < 2 ^ 52) {root table : ℕ}
    (hcreate : createAlong level4PageTable (tablePath (page.number * 4096)) s =
      .ok (some (windowPtr (tablePath (page.number * 4096)))) s₁)
    (hleaf : LeafTable s₁.mem s₁.cr3 root (tablePath (page.number * 4096)) table)
    (hwalk : (s₁.mem table (level1Index (page.number * 4096))).isPresent = true →
      ∀ ix, Ordinary ix → ix.length = 4 → walk s₁.mem s₁.cr3 ix = walk s.mem s.cr3 ix) :
    Atomic s page frame := by
  refine .of_created hcreate fun error s' hrun => ?_
  rcases hleaf.map_spec hcreate hpage (show (Frame.mk 0 0 .used).number < 2 ^ 36 by decide) with
    ⟨hpresent, s₂, hmap, hmem, hcr3⟩ | ⟨-, s₂, hmap, -⟩
  · rw [hrun] at hmap
    obtain ⟨-, rfl⟩ := EStateM.Result.ok.inj hmap
    rw [hmem, hcr3]
    exact hwalk hpresent
  · rw [hrun] at hmap
    cases hmap

/-- Where the tables of a page end, the call of `map` continues with the rest of its path. -/
theorem Window.createAlong_rest (h : Window s.mem s.cr3 s.cr3) {front rest : List Index} {i : Index}
    {table : ℕ} (hlen : (front ++ i :: rest).length ≤ 3)
    (htable : descend (link s.mem) s.cr3 front = some table) :
    ∃ s₁, s₁.mem = s.mem ∧ s₁.cr3 = s.cr3 ∧ s₁.allocator = s.allocator ∧
      createAlong level4PageTable (front ++ i :: rest) s =
        createAlong (windowPtr front) (i :: rest) s₁ := by
  rw [List.length_append, List.length_cons] at hlen
  obtain ⟨s₁, hrun, hmem, hcr3, hallocator⟩ :=
    h.createAlong_existing [] front (by rw [List.nil_append]; omega) htable
  exact ⟨s₁, hmem, hcr3, hallocator, createAlong_append hrun⟩

/-- The same when the allocator hands out frames without another use. -/
theorem Supplied.createAlong_rest {used : Set ℕ} (h : Supplied source used s.cr3 s)
    {path front rest : List Index} {i : Index} {table : ℕ} (hpath : TablePath path)
    (hsplit : path = front ++ i :: rest) (htable : descend (link s.mem) s.cr3 front = some table) :
    front.length ≤ 2 ∧ ∃ s₁, s₁.mem = s.mem ∧ s₁.cr3 = s.cr3 ∧ s₁.allocator = s.allocator ∧
      Supplied source used s.cr3 s₁ ∧
      createAlong level4PageTable path s = createAlong (windowPtr front) (i :: rest) s₁ := by
  subst hsplit
  obtain ⟨s₁, hmem, hcr3, hallocator, hrest⟩ := h.window.createAlong_rest hpath.1 htable
  refine ⟨?_, s₁, hmem, hcr3, hallocator, h.of_mem hmem hcr3 (hallocator ▸ h.serves), hrest⟩
  have hlength := hpath.1
  simp only [List.length_append, List.length_cons] at hlength
  omega

/-- The tables of the page all exist, or the allocator refuses the first new one, or the entry
for it does not have the page-size bit and no path to its table is so long that the tables
created before a refusal change a translation. -/
def SafeToFail (s : Machine α) (page : Page) : Prop :=
  ∀ front i rest table, tablePath (page.number * 4096) = front ++ i :: rest →
    descend (link s.mem) s.cr3 front = some table → link s.mem table i = none →
    (∃ a, FrameAllocator.allocOne s.allocator = .ok (none, a)) ∨
    (s.mem table i).isHuge = false ∧
      ∀ k a a', k ≤ rest.length → Drawn k s.allocator a →
        FrameAllocator.allocOne a = .ok (none, a') →
        ∀ path, TablePath path → descend (link s.mem) s.cr3 path = some table → path.length + k ≤ 3

variable (hwindow : Window s.mem s.cr3 s.cr3)
  (hserves : source.Serves s.allocator (visited s.mem s.cr3)) (hpage : page.number < 2 ^ 52)
  (hordinary : Ordinary page.indices)
include hwindow hserves hpage hordinary

/-- The condition is enough. -/
theorem SafeToFail.atomic (h : SafeToFail s page) : Atomic s page frame := by
  have hpath := hordinary.tablePath
  cases htable : descend (link s.mem) s.cr3 (tablePath (page.number * 4096)) with
  | some table =>
    obtain ⟨s₁, hcreate, hmem, hcr3, -⟩ :=
      hwindow.createAlong_existing [] (tablePath (page.number * 4096)) le_rfl htable
    have hleaf : LeafTable s₁.mem s₁.cr3 s.cr3 (tablePath (page.number * 4096)) table := by
      rw [hmem, hcr3]
      exact ⟨hwindow, htable⟩
    refine .of_leafTable hpage hcreate hleaf fun _ ix _ _ => ?_
    rw [hmem, hcr3]
  | none =>
    obtain ⟨front, i, rest, table, hsplit, hfront, hvacant⟩ := exists_of_descend_eq_none htable
    obtain ⟨hlen, s₁, hmem, hcr3, hallocator, h₁, hrest⟩ :=
      (hwindow.supplied hserves).createAlong_rest hpath hsplit hfront
    have hfront₁ : descend (link s₁.mem) s.cr3 front = some table := by rw [hmem, hfront]
    rw [hsplit] at hpath
    rcases h front i rest table hsplit hfront hvacant with ⟨a, hnone⟩ | ⟨hsmall, hdepth⟩
    · rw [← hallocator] at hnone
      rw [← hmem] at hvacant
      obtain ⟨s₂, hrun, hreach, -⟩ := create_exhausted h₁.window hfront₁ hlen hvacant hnone
      have hcreate : createAlong level4PageTable (tablePath (page.number * 4096)) s =
          .ok none s₂ := by
        rw [hrest, createAlong, bind_ok hrun]
        rfl
      refine .of_none hpage hcreate fun ix _ _ => ?_
      rw [hreach.mem, hreach.cr3, hmem, hcr3]
    · have habsent := PageEntry.isPresent_of_child_eq_none hvacant hsmall
      obtain ⟨s₂, k, hk, hgraft, hcr3₂, hwindow₂, hresult⟩ :=
        h₁.createAlong_grafts hpath hfront₁ fun j hj => by
          obtain rfl := Option.some.inj hj
          rw [hmem]
          exact ⟨habsent, hsmall⟩
      rw [← hrest, ← hsplit, hallocator] at hresult
      rw [hmem] at hgraft
      rcases hresult with ⟨hlast, -, hcreate⟩ | ⟨hlt, hcreate, a, hdrawn, hnone⟩
      · rw [hlast, List.take_length] at hgraft
        obtain ⟨last, hreached, hentries⟩ := hgraft.reached subset_rfl hpath hfront
        have hleaf : LeafTable s₂.mem s₂.cr3 s.cr3 (tablePath (page.number * 4096)) last :=
          ⟨hwindow₂, by rw [hsplit, hreached]⟩
        refine .of_leafTable hpage hcreate hleaf fun hpresent => ?_
        rw [(hentries (by simp)).2, if_neg hordinary.level1Index] at hpresent
        cases hpresent
      · refine .of_none hpage hcreate fun ix hix hix4 => ?_
        rw [hcr3₂, hcr3]
        refine hgraft.walk_eq subset_rfl (fun path hin hreach => ?_) hix hix4
        rw [List.length_take, Nat.min_eq_left hk]
        exact hdepth k a _ (Nat.le_of_lt_succ hlt) hdrawn hnone path hin hreach

/-- A call of `map` for a page without the recursive slot is atomic exactly when the tables of
the page all exist, or the allocator refuses the first new one, or the entry for it does not
have the page-size bit and no path to its table is so long that the tables created before a
refusal change a translation. -/
theorem map_atomic_iff (hframe : frame.number < 2 ^ 52) :
    Atomic s page frame ↔ SafeToFail s page := by
  refine ⟨fun ⟨hassert, hatomic⟩ => ?_, fun h => h.atomic hwindow hserves hpage hordinary⟩
  intro front i rest table hsplit hfront hvacant
  have hpath := hordinary.tablePath
  obtain ⟨hlen, s₁, hmem, hcr3, hallocator, h₁, hrest⟩ :=
    (hwindow.supplied hserves).createAlong_rest hpath hsplit hfront
  have hfront₁ : descend (link s₁.mem) s.cr3 front = some table := by rw [hmem, hfront]
  rw [hsplit] at hpath
  rcases source.allocOne hserves with ⟨a, hnone, -⟩ | ⟨new, a, halloc, -, hlt, -⟩
  · exact Or.inl ⟨a, hnone⟩
  · right
    have hsmall : (s.mem table i).isHuge = false := by
      by_contra hhuge
      rw [Bool.not_eq_false, ← hmem] at hhuge
      rw [← hallocator] at halloc
      obtain ⟨s₂, hfault⟩ := create_huge h₁.window hfront₁ hlen hhuge halloc hlt
      exact hassert s₂ (by rw [hrest, createAlong, bind_error hfault])
    refine ⟨hsmall, fun k b b' hk hdrawn hnone path hin hreach => ?_⟩
    by_contra hlong
    have habsent := PageEntry.isPresent_of_child_eq_none hvacant hsmall
    obtain ⟨s₂, k', hk', hgraft, hcr3₂, -, hresult⟩ :=
      h₁.createAlong_grafts hpath hfront₁ fun j hj => by
        obtain rfl := Option.some.inj hj
        rw [hmem]
        exact ⟨habsent, hsmall⟩
    rw [← hrest, hallocator] at hresult
    rw [hmem] at hgraft
    rcases hresult with ⟨hlast, hdrawn', -⟩ | ⟨-, hcreate, a₂, hdrawn', hnone'⟩
    · have hle := le_of_drawn_refused hdrawn' hdrawn hnone
      rw [hlast, List.length_cons] at hle
      omega
    · obtain rfl : k' = k := le_antisymm (le_of_drawn_refused hdrawn' hdrawn hnone)
        (le_of_drawn_refused hdrawn hdrawn' hnone')
      have hmap : map page frame s = .ok (.error .noPageTable) s₂ := by
        rw [map_run hpage hframe hcreate]
        rfl
      have hbound := hin.1
      have hbefore : (i :: rest).take (4 - path.length) <+: (i :: rest).take k' :=
        List.take_prefix_take_left (by omega)
      have hix : Ordinary (path ++ (i :: rest).take (4 - path.length)) := by
        intro j hj
        rcases List.mem_append.mp hj with hj | hj
        · exact hin.2 j hj
        · exact hpath.2 j (List.mem_append_right front (List.mem_of_mem_take hj))
      have hix4 : (path ++ (i :: rest).take (4 - path.length)).length = 4 := by
        rw [List.length_append, List.length_take, List.length_cons]
        omega
      obtain ⟨hunmapped, f, hmapped⟩ := hgraft.walk_new subset_rfl hin hreach hbefore hix hix4
      have hsame := hatomic _ _ hmap _ hix hix4
      rw [hcr3₂, hcr3, hmapped, hunmapped] at hsame
      cases hsame

end Atomic

/-- The free frames are not read by a page walk. -/
theorem bootMachine_supplied : Window bootMachine.mem bootMachine.cr3 bootMachine.cr3 ∧
    FramePool.source.Serves bootMachine.allocator (visited bootMachine.mem bootMachine.cr3) :=
  ⟨bootMachine_tables.window,
    FramePool.serves_mono bootMachine_tables.visited_subset bootMachine_serves⟩

/-- The page at the start of the kernel half, which the boot tables map with a huge page. -/
def kernelPage : Page := Page.fromAddress 0xffff800000000000

/-- The tables of the kernel page end at the entry of the huge page. -/
theorem kernelPage_stops : ¬SafeToFail bootMachine kernelPage := by
  intro hsafe
  have hsplit : tablePath (kernelPage.number * 4096) = [256] ++ 0 :: [0] := by decide
  rcases hsafe [256] 0 [0] 3 hsplit (by decide) (by decide) with ⟨a, hnone⟩ | ⟨hsmall, -⟩
  · cases hnone
  · revert hsmall
    decide

/-- With free frames, mapping the first page is atomic and mapping the kernel page is not. -/
theorem map_atomic_iff_boot :
    Atomic bootMachine ⟨0⟩ ⟨9, 0, .used⟩ ∧ ¬Atomic bootMachine kernelPage ⟨9, 0, .used⟩ := by
  obtain ⟨hwindow, hserves⟩ := bootMachine_supplied
  constructor
  · apply (map_atomic_iff hwindow hserves (by decide) (by decide +kernel) (by decide)).mpr
    intro front i rest table hsplit hfront hvacant
    right
    have hsplit : [0, 0, 0] = front ++ i :: rest := hsplit
    cases front with
    | nil =>
      obtain ⟨rfl, rfl⟩ := List.cons.inj hsplit
      obtain rfl := Option.some.inj hfront
      refine ⟨by decide, fun k a a' hk hdrawn hnone => ?_⟩
      have hlength := FramePool.length_of_exhausted hdrawn hnone
      have hlength : 8 = k := hlength
      rw [← hlength] at hk
      exact absurd hk (by decide)
    | cons j front =>
      obtain ⟨rfl, -⟩ := List.cons.inj hsplit
      cases hfront
  · intro hatomic
    exact kernelPage_stops ((map_atomic_iff hwindow hserves (by decide) (by decide +kernel)
      (by decide)).mp hatomic)

/-- A call for a page below a huge page is not atomic. -/
theorem not_map_atomic :
    ¬∀ (s : Machine FramePool) (page : Page) (frame : Frame), Window s.mem s.cr3 s.cr3 →
      FramePool.source.Serves s.allocator (visited s.mem s.cr3) → page.number < 2 ^ 52 →
      Ordinary page.indices → frame.number < 2 ^ 52 → Atomic s page frame := by
  intro hclaim
  obtain ⟨hwindow, hserves⟩ := bootMachine_supplied
  obtain ⟨hassert, -⟩ := hclaim bootMachine kernelPage ⟨9, 0, .used⟩ hwindow hserves (by decide)
    (by decide +kernel) (by decide)
  have hpath : tablePath (kernelPage.number * 4096) = [256] ++ 0 :: [0] := by decide
  obtain ⟨s₁, hmem, hcr3, hallocator, hrest⟩ := hwindow.createAlong_rest
    (show ([256] ++ 0 :: [0] : List Index).length ≤ 3 by decide)
    (show descend (link bootMachine.mem) 1 [256] = some 3 by decide)
  have hwindow₁ : Window s₁.mem s₁.cr3 1 := by
    rw [hmem, hcr3]
    exact hwindow
  have hhuge : (s₁.mem 3 0).isHuge = true := by
    rw [hmem]
    decide
  have halloc : FrameAllocator.allocOne s₁.allocator =
      .ok (some ⟨16, 0, .used⟩, ⟨[17, 18, 19, 20, 21, 22, 23]⟩) := by
    rw [hallocator]
    rfl
  obtain ⟨s₂, hfault⟩ := create_huge hwindow₁ (by rw [hmem]; decide)
    (show ([256] : List Index).length ≤ 2 by decide) hhuge halloc (by decide)
  exact hassert s₂ (by rw [hpath, hrest, createAlong, bind_error hfault])

end Axel
