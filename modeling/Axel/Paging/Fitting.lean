import Axel.Paging.Cycle
import Axel.Paging.InitProgress
import Axel.Paging.LeafTable
import Axel.Paging.Refinement

/-!
# Mapping a range of pages

`map_fitting` maps the pages of a range one after another. In a table whose only entry is
the recursive slot, all pages up to the end of their first level-1 table use the tables that
the first call creates. The entry 511 of each table refers to the table itself, so the page
at the end of a level-1 table cannot be mapped, and neither can a range that crosses it.
-/

namespace Axel

open Descent Table ActivePageTable

variable {α : Type}

section Existing

variable [FrameAllocator α] {s : Machine α} {root table : ℕ}

/-- The memory after the entries of some pages in a level-1 table were filled. -/
structure Filled (mem : Memory) (table : ℕ) (calls : List (Page × Frame)) (mem' : Memory) :
    Prop where
  /-- The entries of the pages refer to their frames. -/
  entry : ∀ call ∈ calls, (mem' table (level1Index (call.1.number * 4096))).isPresent = true ∧
    (mem' table (level1Index (call.1.number * 4096))).frame = call.2.number
  /-- No other entry changes. -/
  kept : ∀ f i, f ≠ table ∨ i ∉ calls.map (fun call => level1Index (call.1.number * 4096)) →
    mem' f i = mem f i

/-- No page. -/
theorem Filled.nil (mem : Memory) (table : ℕ) : Filled mem table [] mem :=
  ⟨fun _ hin => absurd hin List.not_mem_nil, fun _ _ _ => rfl⟩

/-- Filling the entry of one page and then those of others. -/
theorem Filled.cons {mem mem' : Memory} {calls : List (Page × Frame)} {call : Page × Frame}
    (h : Filled (mem.set table (level1Index (call.1.number * 4096))
      ((mem table (level1Index (call.1.number * 4096))).withFrame call.2.number)) table calls mem')
    (hframe : call.2.number < 2 ^ 36)
    (hother : level1Index (call.1.number * 4096) ∉
      calls.map fun call => level1Index (call.1.number * 4096)) :
    Filled mem table (call :: calls) mem' := by
  constructor
  · intro other hin
    rcases List.mem_cons.mp hin with rfl | hin
    · rw [h.kept _ _ (Or.inr hother), Memory.set_self, PageEntry.isPresent_withFrame,
        PageEntry.frame_withFrame _ hframe]
      exact ⟨rfl, rfl⟩
    · exact h.entry other hin
  · intro f i hne
    rw [List.map_cons, List.mem_cons, not_or] at hne
    rw [h.kept f i (hne.imp id And.right), Memory.set_of_ne _ _ (hne.imp id And.left)]

/-- Mapping different pages of a level-1 table, after the tables of the first one were found or
created, fills their entries. -/
theorem LeafTable.mapAll_fills {s₁ : Machine α} {path : List Index} {call : Page × Frame}
    {calls : List (Page × Frame)} (h : LeafTable s₁.mem s₁.cr3 root path table)
    (hlen : path.length ≤ 3)
    (hcreate : createAlong level4PageTable path s = .ok (some (windowPtr path)) s₁)
    (hcalls : ∀ other ∈ call :: calls, Fillable s₁.mem path table other)
    (hdistinct : ((call :: calls).map fun call => level1Index (call.1.number * 4096)).Nodup) :
    ∃ s', mapAll (call :: calls) s = .ok (.ok ()) s' ∧ LeafTable s'.mem s'.cr3 root path table ∧
      s'.cr3 = s₁.cr3 ∧ s'.allocator = s₁.allocator ∧
      Filled s₁.mem table (call :: calls) s'.mem := by
  induction calls generalizing s s₁ call with
  | nil =>
    have hfirst := hcalls call List.mem_cons_self
    obtain ⟨s₂, hmap, h₂, hmem, hcr3, hallocator⟩ := h.map_fills hcreate hfirst
    refine ⟨s₂, (bind_ok hmap).trans rfl, h₂, hcr3, hallocator, ?_⟩
    apply Filled.cons _ hfirst.frame List.not_mem_nil
    rw [hmem]
    exact .nil _ _
  | cons next calls ih =>
    have hfirst := hcalls call List.mem_cons_self
    obtain ⟨s₂, hmap, h₂, hmem, hcr3, hallocator⟩ := h.map_fills hcreate hfirst
    obtain ⟨hother, hrest⟩ := List.nodup_cons.mp hdistinct
    obtain ⟨s₃, hcreate₃, hmem₃, hcr3₃, hallocator₃⟩ :=
      h₂.window.createAlong_existing [] path hlen h₂.reached
    rw [List.nil_append] at hcreate₃
    have h₃ : LeafTable s₃.mem s₃.cr3 root path table := by
      rw [hmem₃, hcr3₃]
      exact h₂
    have hcalls₃ : ∀ other ∈ next :: calls, Fillable s₃.mem path table other := by
      intro other hin
      rw [hmem₃, hmem]
      refine (hcalls other (List.mem_cons_of_mem call hin)).set (fun hsame => hother ?_) _
      exact List.mem_map.mpr ⟨other, hin, hsame⟩
    obtain ⟨s', hrun, h', hcr3', hallocator', hfilled⟩ := ih h₃ hcreate₃ hcalls₃ hrest
    refine ⟨s', (bind_ok hmap).trans hrun, h', ?_, ?_, ?_⟩
    · rw [hcr3', hcr3₃, hcr3]
    · rw [hallocator', hallocator₃, hallocator]
    · apply Filled.cons _ hfirst.frame hother
      rw [← hmem, ← hmem₃]
      exact hfilled

/-- Mapping different pages of a level-1 table stops at a page whose entry is present already. -/
theorem LeafTable.mapAll_present {s₁ : Machine α} {page : Page} {frame : Frame}
    {calls : List (Page × Frame)} (rest : List (Page × Frame))
    (h : LeafTable s₁.mem s₁.cr3 root (tablePath (page.number * 4096)) table)
    (hcreate : createAlong level4PageTable (tablePath (page.number * 4096)) s =
      .ok (some (windowPtr (tablePath (page.number * 4096)))) s₁)
    (hcalls : ∀ other ∈ calls, Fillable s₁.mem (tablePath (page.number * 4096)) table other)
    (hdistinct : (calls.map fun call => level1Index (call.1.number * 4096)).Nodup)
    (hpage : page.number < 2 ^ 52) (hframe : frame.number < 2 ^ 36)
    (hpresent : (s₁.mem table (level1Index (page.number * 4096))).isPresent = true) :
    ∃ s', mapAll (calls ++ (page, frame) :: rest) s = .ok (.error .alreadyMapped) s' := by
  have hstop : ∀ s₀ s₂ : Machine α,
      createAlong level4PageTable (tablePath (page.number * 4096)) s₀ =
        .ok (some (windowPtr (tablePath (page.number * 4096)))) s₂ →
      LeafTable s₂.mem s₂.cr3 root (tablePath (page.number * 4096)) table →
      (s₂.mem table (level1Index (page.number * 4096))).isPresent = true →
      ∃ s', mapAll ((page, frame) :: rest) s₀ = .ok (.error .alreadyMapped) s' := by
    intro s₀ s₂ hcreate₂ h₂ hpresent₂
    rcases h₂.map_spec hcreate₂ hpage hframe with ⟨-, s', hmap, -⟩ | ⟨habsent, -⟩
    · exact ⟨s', bind_ok hmap⟩
    · rw [hpresent₂] at habsent
      cases habsent
  cases calls with
  | nil => exact hstop s s₁ hcreate h hpresent
  | cons call calls =>
    obtain ⟨s₂, hrun, h₂, hcr3, hallocator, hfilled⟩ :=
      h.mapAll_fills le_rfl hcreate hcalls hdistinct
    obtain ⟨s₃, hcreate₃, hmem₃, hcr3₃, -⟩ :=
      h₂.window.createAlong_existing [] (tablePath (page.number * 4096)) le_rfl h₂.reached
    have h₃ : LeafTable s₃.mem s₃.cr3 root (tablePath (page.number * 4096)) table := by
      rw [hmem₃, hcr3₃]
      exact h₂
    have hpresent₃ : (s₃.mem table (level1Index (page.number * 4096))).isPresent = true := by
      rw [hmem₃]
      by_cases hin : level1Index (page.number * 4096) ∈
          (call :: calls).map fun call => level1Index (call.1.number * 4096)
      · obtain ⟨other, hother, hsame⟩ := List.mem_map.mp hin
        rw [← hsame]
        exact (hfilled.entry other hother).1
      · rw [hfilled.kept _ _ (Or.inr hin), hpresent]
    obtain ⟨s', hrest⟩ := hstop s₂ s₃ hcreate₃ h₃ hpresent₃
    refine ⟨s', ?_⟩
    rw [mapAll_append, bind_ok hrun]
    exact hrest

/-- `mapAll` only returns `Ok` when the frames fit into entries. -/
theorem frames_fit_of_mapAll {calls : List (Page × Frame)} {s' : Machine α}
    (h : mapAll calls s = .ok (.ok ()) s') : ∀ call ∈ calls, call.2.number < 2 ^ 36 := by
  induction calls generalizing s with
  | nil => exact fun call hcall => absurd hcall List.not_mem_nil
  | cons first calls ih =>
    obtain ⟨result, s₁, hmap, h⟩ := bind_eq_ok.mp h
    cases result with
    | error error => cases h
    | ok u =>
      intro call hcall
      rcases List.mem_cons.mp hcall with rfl | hcall
      · rcases (map_returned hmap).2 with ⟨-, hlt⟩ | ⟨⟨error, herror⟩, -⟩
        · exact hlt
        · cases herror
      · exact ih h call hcall

end Existing

section Fresh

variable [FrameAllocator α] {source : FrameSource α} {s : Machine α}

/-- A table with only the recursive slot is hosted when the allocator does not hand it out. -/
theorem OnlyRecursive.hosted (h : OnlyRecursive s.mem s.cr3)
    (hserves : source.Serves s.allocator {s.cr3}) : Hosted source ∅ s.cr3 s := by
  refine ⟨h.window, Or.inr root_mem_nodes, Set.empty_disjoint _, ?_⟩
  rw [h.tables_eq, Set.empty_union]
  exact hserves

/-- A level-1 table after its creation: no entry is present, apart from the recursive slot. -/
structure NewLeafTable (mem : Memory) (cr3 root : ℕ) (path : List Index) (table : ℕ) : Prop
    extends LeafTable mem cr3 root path table where
  /-- The recursive slot is present. -/
  slot : (mem table recursiveSlot).isPresent = true
  /-- No other entry is present. -/
  absent : ∀ i, i ≠ recursiveSlot → (mem table i).isPresent = false

omit [FrameAllocator α] in
/-- A table with only the recursive slot refers to itself. -/
theorem OnlyRecursive.loops {mem : Memory} {root : ℕ} (h : OnlyRecursive mem root) :
    Loops mem root := by
  intro path table hpath htable
  obtain rfl := h.path_eq_nil hpath htable
  obtain rfl := Option.some.inj htable
  exact h.self

/-- Below an entry of the empty level-4 table, all tables of a page are created. -/
theorem OnlyRecursive.createAlong_spec (h : OnlyRecursive s.mem s.cr3)
    (hserves : source.Serves s.allocator {s.cr3}) (hlasts : Lasts 3 s.allocator) {addr : ℕ}
    (hhead : level4Index addr ≠ recursiveSlot)
    (hsmall : (s.mem s.cr3 (level4Index addr)).isHuge = false) :
    ∃ s' last, createAlong level4PageTable (tablePath addr) s =
        .ok (some (windowPtr (tablePath addr))) s' ∧ s'.cr3 = s.cr3 ∧
      NewLeafTable s'.mem s'.cr3 s.cr3 (tablePath addr) last := by
  have hhosted := h.hosted hserves
  have hsquash : squash (tablePath addr) =
      level4Index addr :: squash [level3Index addr, level2Index addr] := by
    rw [squash, tablePath, List.filter_cons_of_pos (by simpa using hhead)]
    rfl
  have hpath : TablePath (squash (tablePath addr)) := squash_tablePath le_rfl
  have hmissing : ∀ rest, descend (link s.mem) s.cr3 (squash (tablePath addr) ++ rest) = none := by
    intro rest
    rw [hsquash, List.cons_append, descend, link, PageEntry.child_eq_none (h.absent _ hhead),
      Option.bind_none]
  have hsole : Sole s.mem s.cr3 [] s.cr3 := fun path hin => h.path_eq_nil hin
  have hpass : Passable s.mem s.cr3 (squash (tablePath addr)) := by
    rw [hsquash]
    exact passable_of_vacant hsole (h.absent _ hhead) hsmall
  obtain ⟨s₁, h₁, hgrown, -, hnew, hcases⟩ :=
    hhosted.createFromRoot (fun _ => h.loops) hpass
  rcases hcases with ⟨last, n, hrun, hlast, -, -⟩ | ⟨-, -, ⟨n, a, hn, hdrawn, hnone⟩, -⟩
  · have hloops := hgrown.loops h.loops
    refine ⟨s₁, last, hrun, hgrown.cr3, ⟨h₁.window, ?_⟩, ?_, ?_⟩
    · rw [descend_squash le_rfl (fun _ => hloops), hlast]
    · exact (PageEntry.child_eq_some.mp (hloops _ last hpath hlast)).1
    · intro i hi
      rcases hgrown.entry _ last i hpath hlast hi with ⟨hold, -⟩ | hcleared | ⟨hshort, hlinked⟩
      · rw [← List.append_nil (squash (tablePath addr)), hmissing] at hold
        cases hold
      · rw [hcleared, PageEntry.isPresent_cleared]
      · cases hlink : link s₁.mem last i with
        | none => exact PageEntry.isPresent_of_child_eq_none hlink hlinked
        | some child =>
          have hchild := (descend_concat hlast).trans hlink
          rcases hnew _ child (hpath.concat (by omega) hi) hchild with hold | hlonger
          · rw [hmissing] at hold
            cases hold
          · have hlength := hlonger.length_le
            simp at hlength
  · exact absurd hnone (hlasts n a _ hn hdrawn)

/-- The pages of a range that `map_fitting` maps, with their frames. -/
def rangeMappings (v p size : ℕ) : List (Page × Frame) :=
  (List.range (size / 4096)).map fun k =>
    (Page.fromAddress (v + k * 4096), Frame.fromAddress (p + k * 4096))

/-- `map_fitting` maps the whole range. -/
def MapsRange (s : Machine α) (v p size : ℕ) : Prop :=
  ∃ s', mapFitting (v, v + size) (p, p + size) s = .ok (.ok ()) s' ∧
    ∀ k < size / 4096, walk s'.mem s'.cr3 (indices (v + k * 4096)) = some (p / 4096 + k)

omit [FrameAllocator α] in
/-- The page at an offset in a range, and its frame. -/
theorem rangeMapping_numbers {v p : ℕ} (hv : 4096 ∣ v) (hp : 4096 ∣ p) (k : ℕ) :
    (Page.fromAddress (v + k * 4096)).number * 4096 = v + k * 4096 ∧
      (Frame.fromAddress (p + k * 4096)).number = p / 4096 + k := by
  have hpage : (Page.fromAddress (v + k * 4096)).number = (v + k * 4096) / 4096 := rfl
  have hframe : (Frame.fromAddress (p + k * 4096)).number = (p + k * 4096) / 4096 := rfl
  omega

omit [FrameAllocator α] in
/-- The pages before and after an offset in a range. -/
theorem rangeMappings_split (v p : ℕ) {size k : ℕ} (hk : k < size / 4096) :
    rangeMappings v p size = rangeMappings v p (k * 4096) ++
      (Page.fromAddress (v + k * 4096), Frame.fromAddress (p + k * 4096)) ::
        (List.range' (k + 1) (size / 4096 - k - 1)).map fun k =>
          (Page.fromAddress (v + k * 4096), Frame.fromAddress (p + k * 4096)) := by
  have hrange : List.range (size / 4096) =
      List.range k ++ k :: List.range' (k + 1) (size / 4096 - k - 1) := by
    have hsplit : size / 4096 = k + (size / 4096 - k - 1 + 1) := by omega
    rw [hsplit, List.range_eq_range', List.range_eq_range', ← List.range'_append_1,
      List.range'_succ]
    simp
  rw [rangeMappings, rangeMappings, hrange, Nat.mul_div_cancel k (by decide), List.map_append,
    List.map_cons]

omit [FrameAllocator α] in
/-- The pages of a range can be filled in a new level-1 table up to its recursive slot. -/
theorem NewLeafTable.fillable {mem : Memory} {cr3 root v p table : ℕ}
    (h : NewLeafTable mem cr3 root (tablePath v) table) (size : ℕ) (hv : 4096 ∣ v) (hp : 4096 ∣ p)
    (hvirtual : v + size < usizeCount) (hphysical : p + size ≤ 2 ^ 48)
    (hbefore : (level1Index v).val + size / 4096 ≤ 511) :
    (∀ call ∈ rangeMappings v p size, Fillable mem (tablePath v) table call) ∧
      ((rangeMappings v p size).map fun call => level1Index (call.1.number * 4096)).Nodup := by
  constructor
  · intro call hcall
    obtain ⟨k, hk, rfl⟩ := List.mem_map.mp hcall
    rw [List.mem_range] at hk
    obtain ⟨hpage, hframe⟩ := rangeMapping_numbers hv hp k
    obtain ⟨hpath, hlevel1⟩ := tablePath_add hv (show (level1Index v).val + k < 512 by omega)
    have hnumber : (Page.fromAddress (v + k * 4096)).number < 2 ^ 52 := by
      unfold usizeCount at hvirtual
      omega
    refine ⟨hnumber, lt_of_eq_of_lt hframe (by omega), by rw [hpage, hpath], ?_⟩
    · rw [hpage]
      apply h.absent
      intro hslot
      rw [hslot] at hlevel1
      have hval : recursiveSlot.val = 511 := rfl
      omega
  · rw [rangeMappings, List.map_map]
    apply List.Nodup.map_on _ List.nodup_range
    intro k hk k' hk' hsame
    rw [List.mem_range] at hk hk'
    simp only [Function.comp_apply, (rangeMapping_numbers hv hp _).1] at hsame
    have hval := congrArg Fin.val hsame
    rw [(tablePath_add hv (show (level1Index v).val + k < 512 by omega)).2,
      (tablePath_add hv (show (level1Index v).val + k' < 512 by omega)).2] at hval
    omega

/-- `map_fitting` only succeeds when the entry for the first page in the level-4 table does not
have the page-size bit. -/
theorem OnlyRecursive.small_of_mapAll (h : OnlyRecursive s.mem s.cr3)
    (hserves : source.Serves s.allocator {s.cr3}) (hlasts : Lasts 3 s.allocator) {page : Page}
    {frame : Frame} {rest : List (Page × Frame)} {s' : Machine α}
    (hrun : mapAll ((page, frame) :: rest) s = .ok (.ok ()) s') :
    (s.mem s.cr3 (level4Index (page.number * 4096))).isHuge = false := by
  by_contra hhuge
  rw [Bool.not_eq_false] at hhuge
  obtain ⟨result, s₁, hmap, hrest⟩ := bind_eq_ok.mp hrun
  cases result with
  | error error => cases hrest
  | ok u =>
    have hpage := (map_returned hmap).1
    have hframe := frames_fit_of_mapAll hrun _ List.mem_cons_self
    rcases source.allocOne hserves with ⟨a, hnone, -⟩ | ⟨new, a, halloc, -, hlt, -⟩
    · exact hlasts 0 _ _ (by decide) (.none _) hnone
    · obtain ⟨s₂, hcreate⟩ := create_huge h.window descend_nil (by decide) hhuge halloc hlt
      have hfault : map page frame s = .error .debugAssert s₂ := by
        rw [map, bind_ok (lift_ok (Page.address_eq hpage)),
          bind_ok (lift_ok (Frame.address_eq hframe))]
        exact bind_error hcreate
      rw [hfault] at hmap
      cases hmap

omit [FrameAllocator α] in
/-- A range that contains the last page of a level-1 table contains the last page of its first
level-1 table. -/
theorem exists_last_page {v k : ℕ} (hv : 4096 ∣ v)
    (hlast : level1Index (v + k * 4096) = recursiveSlot) :
    ∃ m ≤ k, (level1Index v).val + m = 511 := by
  have hslot : recursiveSlot.val = 511 := rfl
  refine ⟨511 - (level1Index v).val, ?_, by omega⟩
  by_contra hlt
  have hnear := (tablePath_add hv (show (level1Index v).val + k < 512 by omega)).2
  rw [hlast] at hnear
  omega

/-- Mapping a range stops at the last page of its first level-1 table. -/
theorem OnlyRecursive.mapAll_last_page (h : OnlyRecursive s.mem s.cr3)
    (hserves : source.Serves s.allocator {s.cr3}) (hlasts : Lasts 3 s.allocator) {v p size m : ℕ}
    (hv : 4096 ∣ v) (hp : 4096 ∣ p) (hvirtual : v + size < usizeCount) (hfits : p + size ≤ 2 ^ 48)
    (hhead : level4Index v ≠ recursiveSlot) (hhuge : (s.mem s.cr3 (level4Index v)).isHuge = false)
    (hm : m < size / 4096) (hlast : (level1Index v).val + m = 511) (s' : Machine α) :
    mapAll (rangeMappings v p size) s ≠ .ok (.ok ()) s' := by
  intro hrun
  have hslot : recursiveSlot.val = 511 := rfl
  obtain ⟨s₁, table, hcreate, -, hleaf⟩ := h.createAlong_spec hserves hlasts hhead hhuge
  obtain ⟨hpath, hlevel1⟩ := tablePath_add hv (show (level1Index v).val + m < 512 by omega)
  obtain ⟨hpage, hframe⟩ := rangeMapping_numbers hv hp m
  rw [← hpath, ← hpage] at hcreate
  have hleaf' := hleaf.toLeafTable
  rw [← hpath, ← hpage] at hleaf'
  obtain ⟨hcalls, hdistinct⟩ := hleaf.fillable (m * 4096) hv hp (by omega) (by omega)
    (by rw [Nat.mul_div_cancel m (by decide)]; omega)
  rw [← hpath, ← hpage] at hcalls
  have hpresent : (s₁.mem table
      (level1Index ((Page.fromAddress (v + m * 4096)).number * 4096))).isPresent = true := by
    rw [hpage, show level1Index (v + m * 4096) = recursiveSlot from Fin.ext (by omega)]
    exact hleaf.slot
  have hnumber : (Page.fromAddress (v + m * 4096)).number < 2 ^ 52 := by
    unfold usizeCount at hvirtual
    omega
  have hnumber' : (Frame.fromAddress (p + m * 4096)).number < 2 ^ 36 := by omega
  rw [rangeMappings_split v p hm] at hrun
  obtain ⟨s₂, hstop⟩ := hleaf'.mapAll_present _ hcreate hcalls hdistinct hnumber hnumber' hpresent
  rw [hstop] at hrun
  cases hrun

/-- A range that ends before the last page of a level-1 table is mapped. -/
theorem OnlyRecursive.mapAll_range (h : OnlyRecursive s.mem s.cr3)
    (hserves : source.Serves s.allocator {s.cr3}) (hlasts : Lasts 3 s.allocator) {v p size : ℕ}
    (hv : 4096 ∣ v) (hp : 4096 ∣ p) (hvirtual : v + size < usizeCount) (hfits : p + size ≤ 2 ^ 48)
    (hhead : level4Index v ≠ recursiveSlot) (hhuge : (s.mem s.cr3 (level4Index v)).isHuge = false)
    (hpos : 0 < size / 4096) (hbefore : (level1Index v).val + size / 4096 ≤ 511) :
    ∃ s', mapAll (rangeMappings v p size) s = .ok (.ok ()) s' ∧
      ∀ k < size / 4096, walk s'.mem s'.cr3 (indices (v + k * 4096)) = some (p / 4096 + k) := by
  obtain ⟨s₁, table, hcreate, hcr3₁, hleaf⟩ := h.createAlong_spec hserves hlasts hhead hhuge
  obtain ⟨hcalls, hdistinct⟩ := hleaf.fillable size hv hp hvirtual hfits hbefore
  obtain ⟨first, calls, hcons⟩ : ∃ first calls, rangeMappings v p size = first :: calls :=
    ⟨_, _, rangeMappings_split v p (k := 0) hpos⟩
  rw [hcons] at hcalls hdistinct
  obtain ⟨s', hrun, h', hcr3, -, hfilled⟩ := hleaf.mapAll_fills le_rfl hcreate hcalls hdistinct
  rw [← hcons] at hrun hfilled
  refine ⟨s', hrun, fun k hk => ?_⟩
  obtain ⟨hpath, -⟩ := tablePath_add hv (show (level1Index v).val + k < 512 by omega)
  obtain ⟨hpage, hframe⟩ := rangeMapping_numbers hv hp k
  obtain ⟨hpresent, hentry⟩ :=
    hfilled.entry _ (List.mem_map.mpr ⟨k, List.mem_range.mpr hk, rfl⟩)
  rw [hpage] at hpresent hentry
  rw [indices, hpath, hcr3, hcr3₁, walk_append h'.reached (by simp), walk_singleton, hpresent,
    if_pos rfl, hentry, hframe]

/-- On a table with only the recursive slot, `map_fitting` maps the whole range exactly when
the range is empty, or its frames fit into entries, the entry of the level-4 table has no
stray page-size bit, and no page of the range is the last one of a level-1 table. -/
theorem mapFitting_maps_iff (h : OnlyRecursive s.mem s.cr3)
    (hserves : source.Serves s.allocator {s.cr3}) (hlasts : Lasts 3 s.allocator) {v p size : ℕ}
    (hv : 4096 ∣ v) (hp : 4096 ∣ p) (hsize : 4096 ∣ size) (hsmall : size < 2 * 1024 * 1024)
    (hvirtual : v + size < usizeCount) (hphysical : p + size < usizeCount)
    (hpages : ∀ k < size / 4096, level4Index (v + k * 4096) ≠ recursiveSlot) :
    MapsRange s v p size ↔
      size = 0 ∨ p + size ≤ 2 ^ 48 ∧ (s.mem s.cr3 (level4Index v)).isHuge = false ∧
        ∀ k < size / 4096, level1Index (v + k * 4096) ≠ recursiveSlot := by
  have heq : mapFitting (v, v + size) (p, p + size) s = mapAll (rangeMappings v p size) s := by
    rw [mapFitting_eq hsmall hvirtual hphysical, rangeMappings]
  rw [MapsRange, heq]
  by_cases hempty : size = 0
  · subst hempty
    exact iff_of_true ⟨s, rfl, fun k hk => absurd hk (by simp)⟩ (Or.inl rfl)
  have hhead : level4Index v ≠ recursiveSlot := by simpa using hpages 0 (by omega)
  constructor
  · rintro ⟨s', hrun, -⟩
    have hfits : p + size ≤ 2 ^ 48 := by
      have hlast := frames_fit_of_mapAll hrun _ (List.mem_map.mpr
        ⟨size / 4096 - 1, List.mem_range.mpr (by omega), rfl⟩)
      rw [(rangeMapping_numbers hv hp _).2] at hlast
      omega
    have hhuge : (s.mem s.cr3 (level4Index v)).isHuge = false := by
      rw [rangeMappings_split v p (k := 0) (by omega)] at hrun
      have hfirst := h.small_of_mapAll hserves hlasts hrun
      rwa [(rangeMapping_numbers hv hp 0).1, Nat.zero_mul, Nat.add_zero] at hfirst
    refine Or.inr ⟨hfits, hhuge, fun k hk hlast => ?_⟩
    obtain ⟨m, hm, hfirst⟩ := exists_last_page hv hlast
    exact h.mapAll_last_page hserves hlasts hv hp hvirtual hfits hhead hhuge (hm.trans_lt hk) hfirst
      s' hrun
  · rintro (hzero | ⟨hfits, hhuge, hlevel1⟩)
    · exact absurd hzero hempty
    · have hbefore : (level1Index v).val + size / 4096 ≤ 511 := by
        by_contra hlong
        refine hlevel1 (511 - (level1Index v).val) (by omega) (Fin.ext ?_)
        rw [(tablePath_add hv (by omega)).2]
        have hslot : recursiveSlot.val = 511 := rfl
        omega
      exact h.mapAll_range hserves hlasts hv hp hvirtual hfits hhead hhuge (by omega) hbefore

end Fresh

/-- The free frames of the machine with an empty table are not the table. -/
theorem level4Machine_serves (word : BitVec 64) :
    FramePool.source.Serves (level4Machine word).allocator {(level4Machine word).cr3} := by
  show [2, 3, 4, 5].Nodup ∧ ∀ frame ∈ [2, 3, 4, 5], frame ∉ ({1} : Set ℕ) ∧ frame < 2 ^ 36
  simp

/-- Two pages at the start of a level-1 table, and two pages at its end. -/
theorem mapFitting_maps_iff_two :
    MapsRange (level4Machine 0) 0 0x9000 0x2000 ∧
      ¬MapsRange (level4Machine 0) 0x1FE000 0x9000 0x2000 := by
  have hstart := level4Machine_onlyRecursive (show (0 : BitVec 64).getLsbD 0 = false by decide)
  have hlasts : Lasts 3 (level4Machine 0).allocator := FramePool.lasts (by decide)
  constructor
  · exact (mapFitting_maps_iff hstart (level4Machine_serves 0) hlasts (by decide) (by decide)
      (by decide) (by decide) (by decide) (by decide) (by decide)).mpr (by decide +kernel)
  · intro hmaps
    have hcond := (mapFitting_maps_iff hstart (level4Machine_serves 0) hlasts (by decide)
      (by decide) (by decide) (by decide) (by decide) (by decide) (by decide)).mp hmaps
    revert hcond
    decide +kernel

/-- The last page of a level-1 table is not mapped. -/
theorem not_mapFitting_maps :
    ¬∀ (s : Machine FramePool) (v p size : ℕ), OnlyRecursive s.mem s.cr3 →
      FramePool.source.Serves s.allocator {s.cr3} → Lasts 3 s.allocator →
      4096 ∣ v → 4096 ∣ p → 4096 ∣ size → size < 2 * 1024 * 1024 →
      v + size < usizeCount → p + size < usizeCount →
      (∀ k < size / 4096, level4Index (v + k * 4096) ≠ recursiveSlot) → MapsRange s v p size := by
  intro hclaim
  have hstart := level4Machine_onlyRecursive (show (0 : BitVec 64).getLsbD 0 = false by decide)
  have hserves := level4Machine_serves 0
  have hlasts : Lasts 3 (level4Machine 0).allocator := FramePool.lasts (by decide)
  obtain ⟨s', hrun, -⟩ := hclaim (level4Machine 0) 0x1FF000 0x9000 0x1000 hstart hserves hlasts
    (by decide) (by decide) (by decide) (by decide) (by decide) (by decide) (by decide)
  obtain ⟨s₁, table, hcreate, -, hleaf⟩ := hstart.createAlong_spec hserves hlasts
    (show level4Index 0x1FF000 ≠ recursiveSlot by decide) (by decide)
  have hleaf' : LeafTable s₁.mem s₁.cr3 (level4Machine 0).cr3
      (tablePath ((Page.mk 511).number * 4096)) table := hleaf.toLeafTable
  have hnone : ∀ call ∈ ([] : List (Page × Frame)),
      Fillable s₁.mem (tablePath ((Page.mk 511).number * 4096)) table call :=
    fun call hin => absurd hin List.not_mem_nil
  obtain ⟨s₂, hstop⟩ := hleaf'.mapAll_present [] hcreate hnone List.nodup_nil (by decide)
    (show (Frame.fromAddress 0x9000).number < 2 ^ 36 by decide) hleaf.slot
  rw [mapFitting_eq (by decide) (by decide) (by decide)] at hrun
  have hpages : (List.range (0x1000 / 4096)).map (fun k =>
      (Page.fromAddress (0x1FF000 + k * 4096), Frame.fromAddress (0x9000 + k * 4096))) =
      [] ++ [(Page.mk 511, Frame.fromAddress 0x9000)] := by decide
  rw [hpages, hstop] at hrun
  cases hrun

end Axel
