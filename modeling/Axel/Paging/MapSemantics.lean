import Axel.Paging.Growth

/-!
# Mapping and unmapping pages

Everything `ActivePageTable::map` and `ActivePageTable::unmap` can do with a page whose
tables are below the root that the recursive window shows. A call of `map` first grows
the tables and then writes at most one entry of a level-1 table; a call of `unmap` only
clears such an entry.
-/

namespace Axel

open Descent Table ActivePageTable

variable {α : Type}

/-- A page without the recursive slot has a path to its level-1 table. -/
theorem Ordinary.tablePath {page : Page} (h : Ordinary page.indices) :
    TablePath (tablePath (page.number * 4096)) :=
  ⟨le_rfl, fun i hi => h i (List.mem_append_left _ hi)⟩

/-- The level-1 index of a page without the recursive slot. -/
theorem Ordinary.level1Index {page : Page} (h : Ordinary page.indices) :
    level1Index (page.number * 4096) ≠ recursiveSlot :=
  h _ (List.mem_append_right _ List.mem_cons_self)

/-- The indices of a page are the path to its level-1 table and one more index. -/
theorem Page.indices_eq (page : Page) :
    page.indices = tablePath (page.number * 4096) ++ [level1Index (page.number * 4096)] := rfl

section Along

/-- `next_level_table_create_mut` along a list of indices. -/
def createAlong [FrameAllocator α] (table : ℕ) : List Index → Kernel α (Option ℕ)
  | [] => return some table
  | i :: rest => do andThen (← nextLevelTableCreateMut table i) fun next => createAlong next rest

/-- `next_level_table_mut` along a list of indices. -/
def lookupAlong (table : ℕ) : List Index → Kernel α (Option ℕ)
  | [] => return some table
  | i :: rest => do andThen (← nextLevelTableMut table i) fun next => lookupAlong next rest

/-- A chain of three calls, each of which stops at `None`. -/
theorem andThen_chain {β γ : Type} (x : Kernel α (Option β)) (f g : β → Kernel α (Option β))
    (rest : Option β → Kernel α γ) :
    (do
      let b ← x
      let b ← andThen b f
      let b ← andThen b g
      rest b) =
    (do
      let b ← (do
        andThen (← x) fun b => do
        andThen (← f b) fun b => do
        andThen (← g b) fun b => return some b)
      rest b) := by
  funext s
  simp only [bind, EStateM.bind]
  cases x s with
  | error fault s₁ => rfl
  | ok b s₁ =>
    cases b with
    | none => rfl
    | some b =>
      simp only [andThen, EStateM.bind]
      cases f b s₁ with
      | error fault s₂ => rfl
      | ok b s₂ =>
        cases b with
        | none => rfl
        | some b =>
          simp only [EStateM.bind]
          cases g b s₂ with
          | error fault s₃ => rfl
          | ok b s₃ => cases b <;> rfl

/-- The part of `map` after its tables were found or created. -/
def mapLeaf (table : Option ℕ) (i : Index) (frameAddr : ℕ) :
    Kernel α (Except TableError Unit) :=
  match table with
  | some table => do
    let entry ← readEntry table i
    if entry.flags.contains .present == false then
      setEntryFrameAddr table i frameAddr
      return .ok ()
    else return .error .alreadyMapped
  | none => return .error .noPageTable

variable [FrameAllocator α]

/-- The part of `unmap` after its tables were looked up. -/
def unmapLeaf (table : Option ℕ) (i : Index) : Kernel α (Except TableError Unit) :=
  match table with
  | some table => do
    let entry ← readEntry table i
    match entry.getFrameAddr with
    | some frameAddr =>
      freeFrame (Frame.fromAddress frameAddr)
      writeEntry table i .cleared
      return .ok ()
    | none => return .error .noEntry
  | none => return .error .noEntry

/-- The address of a page whose number fits. -/
theorem Page.address_eq {page : Page} (h : page.number < 2 ^ 52) :
    page.address = .ok (page.number * 4096) :=
  checkedMul_ok (by unfold pageSize usizeCount; omega)

/-- `map` finds or creates its tables and then works on one entry. -/
theorem map_run {s s' : Machine α} {page : Page} {frame : Frame} (hpage : page.number < 2 ^ 52)
    (hframe : frame.number < 2 ^ 52) {table : Option ℕ}
    (h : createAlong level4PageTable (tablePath (page.number * 4096)) s = .ok table s') :
    map page frame s =
      mapLeaf table (level1Index (page.number * 4096)) (frame.number * 4096) s' := by
  rw [map, bind_ok (lift_ok (Page.address_eq hpage)), bind_ok (lift_ok (Frame.address_ok hframe)),
    andThen_chain]
  exact bind_ok h

/-- `unmap` looks up its tables and then works on one entry. -/
theorem unmap_run {s s' : Machine α} {page : Page} (hpage : page.number < 2 ^ 52) {table : Option ℕ}
    (h : lookupAlong level4PageTable (tablePath (page.number * 4096)) s = .ok table s') :
    unmap page s = unmapLeaf table (level1Index (page.number * 4096)) s' := by
  rw [unmap, bind_ok (lift_ok (Page.address_eq hpage)), andThen_chain]
  exact bind_ok h

end Along

section Inversion

variable [FrameAllocator α] {s s' : Machine α} {page : Page} {frame : Frame}

/-- `map` only returns when the address of the page fits. It only returns `Ok` when the
frame fits into an entry, and an error does not depend on the frame. -/
theorem map_returned {result : Except TableError Unit} (h : map page frame s = .ok result s') :
    page.number < 2 ^ 52 ∧
      (result = .ok () ∧ frame.number < 2 ^ 36 ∨
        (∃ error, result = .error error) ∧
          ∀ other : Frame, other.number < 2 ^ 36 → map page other s = .ok result s') := by
  obtain ⟨pageAddr, s₁, hpage, h⟩ := bind_eq_ok.mp h
  obtain ⟨hnumber, -⟩ := checkedMul_eq_ok.mp (lift_eq_ok.mp hpage).1
  obtain ⟨frameAddr, s₂, hlift, h⟩ := bind_eq_ok.mp h
  obtain ⟨haddr, rfl⟩ := lift_eq_ok.mp hlift
  obtain ⟨hlt, rfl⟩ := checkedMul_eq_ok.mp haddr
  obtain ⟨table₄, s₃, hcreate₄, h⟩ := bind_eq_ok.mp h
  obtain ⟨table₃, s₄, hcreate₃, h⟩ := bind_eq_ok.mp h
  obtain ⟨table, s₅, hcreate₂, h⟩ := bind_eq_ok.mp h
  have hpage' : page.number < 2 ^ 52 := by
    unfold pageSize usizeCount at hnumber
    omega
  refine ⟨hpage', ?_⟩
  have hother : ∀ other : Frame, other.number < 2 ^ 36 →
      map page other s = mapLeaf table (level1Index pageAddr) (other.number * 4096) s₅ := by
    intro other hother
    rw [map, bind_ok hpage, bind_ok (lift_ok (Frame.address_eq hother)), bind_ok hcreate₄,
      bind_ok hcreate₃, bind_ok hcreate₂]
    rfl
  cases table with
  | none =>
    obtain ⟨rfl, rfl⟩ := EStateM.Result.ok.inj h
    exact Or.inr ⟨⟨_, rfl⟩, fun other hlt => hother other hlt⟩
  | some table =>
    obtain ⟨entry, s₆, hread, h⟩ := bind_eq_ok.mp h
    split at h
    case isTrue =>
      obtain ⟨_, s₇, hset, h⟩ := bind_eq_ok.mp h
      obtain ⟨rfl, -⟩ := EStateM.Result.ok.inj h
      exact Or.inl ⟨rfl, (setEntryFrameAddr_returned hlt hset).1⟩
    case isFalse hpresent =>
      obtain ⟨rfl, rfl⟩ := EStateM.Result.ok.inj h
      refine Or.inr ⟨⟨_, rfl⟩, fun other hlt => ?_⟩
      rw [hother other hlt, mapLeaf, bind_ok hread, if_neg hpresent]
      rfl

end Inversion

section Leaf

variable {mem : Memory} {root table : ℕ} {path : List Index} {i : Index} {e : PageEntry}
variable (htable : descend (link mem) root path = some table) (hpath : TablePath path)
  (hlen : path.length = 3) (hsole : Sole mem root path table)

include hlen hsole

/-- Writing an entry of a level-1 table moves no table. -/
theorem set_leaf_descend {other : List Index} (hother : TablePath other) :
    descend (link (mem.set table i e)) root other = descend (link mem) root other := by
  apply descend_congr
  rintro before j after node rfl hnode
  have hne : node ≠ table := by
    rintro rfl
    have hsame := hsole before hother.left hnode
    have hlen' := hother.1
    rw [hsame] at hlen'
    simp at hlen'
    omega
  rw [link, Memory.set_of_ne mem e (Or.inl hne), ← link]

/-- Writing an entry of a level-1 table keeps the set of tables. -/
theorem set_leaf_tables : tables (mem.set table i e) root = tables mem root := by
  ext f
  constructor
  · rintro ⟨other, hother, hf⟩
    exact ⟨other, hother, by rw [← set_leaf_descend hlen hsole hother, hf]⟩
  · rintro ⟨other, hother, hf⟩
    exact ⟨other, hother, by rw [set_leaf_descend hlen hsole hother, hf]⟩

/-- Writing an entry of a level-1 table keeps which tables have a single path. -/
theorem set_leaf_sole {other : List Index} {node : ℕ} :
    Sole (mem.set table i e) root other node ↔ Sole mem root other node := by
  constructor
  · intro h path' hpath' hnode
    exact h path' hpath' (by rw [set_leaf_descend hlen hsole hpath', hnode])
  · intro h path' hpath' hnode
    exact h path' hpath' (by rw [← set_leaf_descend hlen hsole hpath', hnode])

include htable hpath

/-- Writing an entry of a level-1 table changes the translation of one page. -/
theorem set_leaf_walk {ix : List Index} (hix : Ordinary ix) (hix4 : ix.length = 4) :
    walk (mem.set table i e) root ix =
      if ix = path ++ [i] then if e.isPresent then some e.frame else none
      else walk mem root ix := by
  by_cases hsame : ix = path ++ [i]
  · rw [if_pos hsame, hsame]
    have htable' : descend (link (mem.set table i e)) root path = some table := by
      rw [set_leaf_descend hlen hsole hpath, htable]
    rw [walk_append htable' (by simp), walk_singleton, Memory.set_self]
  · rw [if_neg hsame]
    apply walk_congr
    intro before j after node hsplit hnode
    apply Memory.set_of_ne
    by_contra hwritten
    obtain ⟨rfl, rfl⟩ : node = table ∧ j = i := by simpa [not_or] using hwritten
    have hbefore : TablePath before := by
      constructor
      · have := congrArg List.length hsplit
        simp at this
        omega
      · exact fun k hk => hix k (by rw [hsplit]; exact List.mem_append_left _ hk)
    obtain rfl := hsole before hbefore hnode
    have hafter : after = [] := by
      have := congrArg List.length hsplit
      simp at this
      exact List.eq_nil_of_length_eq_zero (by omega)
    exact hsame (by rw [hsplit, hafter])

end Leaf

section Specs

variable [FrameAllocator α] {source : FrameSource α} {used : Set ℕ} {root : ℕ} {s : Machine α}

/-- Everything a call can do that creates the tables of a path, of which at most `depth` are new.
It returns the pointer to the last table, or `None` after the allocator ran out. -/
def CreateOutcome (source : FrameSource α) (used : Set ℕ) (root : ℕ) (path : List Index)
    (depth pointer : ℕ) (call : Kernel α (Option ℕ)) (s : Machine α) : Prop :=
  ∃ s', Hosted source used root s' ∧ Grown used root s s' ∧
    ((descend (link s.mem) root path).isSome → s'.mem = s.mem ∧ s'.allocator = s.allocator) ∧
    NewAlong root path s s' ∧
    ((∃ last n, call s = .ok (some pointer) s' ∧ descend (link s'.mem) root path = some last ∧
        n ≤ depth ∧ Drawn n s.allocator s'.allocator) ∨
      call s = .ok none s' ∧ descend (link s'.mem) root path = none ∧
        (∃ n a, n < depth ∧ Drawn n s.allocator a ∧
          FrameAllocator.allocOne a = .ok (none, s'.allocator)) ∧
        ∃ events, s'.trace = s.trace ++ events ∧ .alloc none ∈ events)

/-- A call of `next_level_table_create_mut` that returned the table below an entry. -/
structure CreateStep (source : FrameSource α) (used : Set ℕ) (root : ℕ) (pointer : List Index)
    (i : Index) (s s' : Machine α) : Prop where
  /-- The pointer is the one of the longer path. -/
  run : nextLevelTableCreateMut (windowPtr pointer) i s =
    .ok (some (windowPtr (pointer ++ [i]))) s'
  /-- The window still shows the tables. -/
  hosted : Hosted source used root s'
  /-- The tables grew. -/
  grown : Grown used root s s'
  /-- The longer path leads to a table. -/
  reached : (descend (link s'.mem) root (squash (pointer ++ [i]))).isSome
  /-- Nothing changed when it did so before. -/
  same : (descend (link s.mem) root (squash (pointer ++ [i]))).isSome →
    s'.mem = s.mem ∧ s'.allocator = s.allocator
  /-- New tables are on the path. -/
  new : NewAlong root (squash (pointer ++ [i])) s s'
  /-- At most one frame was taken. -/
  drawn : s'.allocator = s.allocator ∨
    ∃ frame, FrameAllocator.allocOne s.allocator = .ok (some frame, s'.allocator)

omit [FrameAllocator α] in
/-- A path whose first part leads nowhere leads nowhere. -/
theorem descend_squash_append_none {mem : Memory} {front rest : List Index}
    (h : descend (link mem) root (squash front) = none) :
    descend (link mem) root (squash (front ++ rest)) = none := by
  rw [squash, List.filter_append, ← squash, ← squash, descend_append_none h]

/-- Creating the rest of a path after its next table. -/
theorem CreateStep.outcome {s₁ : Machine α} {pointer rest : List Index} {i : Index}
    (h : CreateStep source used root pointer i s s₁)
    (hrest : CreateOutcome source used root (squash (pointer ++ [i] ++ rest)) rest.length
      (windowPtr (pointer ++ [i] ++ rest)) (createAlong (windowPtr (pointer ++ [i])) rest) s₁) :
    CreateOutcome source used root (squash (pointer ++ [i] ++ rest)) (i :: rest).length
      (windowPtr (pointer ++ [i] ++ rest)) (createAlong (windowPtr pointer) (i :: rest)) s := by
  have hstep : createAlong (windowPtr pointer) (i :: rest) s =
      createAlong (windowPtr (pointer ++ [i])) rest s₁ := by
    rw [createAlong, bind_ok h.run]
    rfl
  obtain ⟨s', h', hgrown', hsame', hnew', hcases⟩ := hrest
  refine ⟨s', h', h.grown.trans hgrown', ?_, h.new.trans hnew' ?_, ?_⟩
  · intro hsome
    have hfirst : (descend (link s.mem) root (squash (pointer ++ [i]))).isSome := by
      by_contra hnone
      rw [descend_squash_append_none (Option.not_isSome_iff_eq_none.mp hnone)] at hsome
      cases hsome
    obtain ⟨hmem, hallocator⟩ := h.same hfirst
    rw [← hmem, ← hallocator]
    rw [← hmem] at hsome
    exact hsame' hsome
  · exact (List.prefix_append _ _).filter _
  · rw [hstep]
    rcases hcases with ⟨last, n, hok, hlast, hn, hdrawn⟩ |
      ⟨hnone, hmissing, ⟨n, a, hn, hdrawn, hempty⟩, events', htrace', hevent⟩
    · left
      rcases h.drawn with hsame | ⟨frame, halloc⟩
      · exact ⟨last, n, hok, hlast, Nat.le_succ_of_le hn, hsame ▸ hdrawn⟩
      · exact ⟨last, n + 1, hok, hlast, Nat.succ_le_succ hn, .some halloc hdrawn⟩
    · obtain ⟨events, htrace, -⟩ := h.grown.events
      refine Or.inr ⟨hnone, hmissing, ?_, events ++ events', ?_, List.mem_append_right _ hevent⟩
      · rcases h.drawn with hsame | ⟨frame, halloc⟩
        · exact ⟨n, a, Nat.lt_succ_of_lt hn, hsame ▸ hdrawn, hempty⟩
        · exact ⟨n + 1, a, Nat.succ_lt_succ hn, .some halloc hdrawn, hempty⟩
      · rw [htrace', htrace, List.append_assoc]

/-- An entry that refers to a table is a step, whether it is the recursive slot or not. -/
theorem Hosted.create_step_existing (h : Hosted source used root s) {pointer : List Index}
    {i : Index} {table child : ℕ} (hpointer : descend (link s.mem) root pointer = some table)
    (hplen : pointer.length ≤ 2) (hmem : table ∈ tables s.mem root)
    (hlink : link s.mem table i = some child)
    (hchild : descend (link s.mem) root (squash (pointer ++ [i])) = some child) :
    ∃ s₁, CreateStep source used root pointer i s s₁ := by
  obtain ⟨s₁, hrun, h₁, hgrown, hsame, hallocator⟩ := h.create_existing hpointer hplen hmem hlink
  refine ⟨s₁, hrun, h₁, hgrown, ?_, fun _ => ⟨hsame, hallocator⟩, .of_mem hsame, Or.inl hallocator⟩
  rw [hsame, hchild]
  rfl

omit [FrameAllocator α] in
/-- The tables on the way of a short pointer are tables of the tree, also where the pointer
takes recursive slots. -/
theorem mem_tables_of_front {mem : Memory} {pointer front back : List Index} {node : ℕ}
    (hlen : pointer.length ≤ 3) (hloops : recursiveSlot ∈ pointer → Loops mem root)
    (hpointer : pointer = front ++ back) (hnode : descend (link mem) root front = some node) :
    node ∈ tables mem root := by
  have hfront : front.length ≤ 3 := by
    have hsum := congrArg List.length hpointer
    rw [List.length_append] at hsum
    omega
  rw [descend_squash hfront fun hslot => hloops (by simp [hpointer, hslot])] at hnode
  exact mem_nodes (squash_tablePath hfront) hnode

/-- The next table of a passable path exists or is created, unless the allocator runs out. -/
theorem Hosted.create_step (h : Hosted source used root s) {pointer rest : List Index} {i : Index}
    {table : ℕ} (htable : descend (link s.mem) root (squash pointer) = some table)
    (hlen : (pointer ++ [i] ++ rest).length ≤ 3)
    (hloops : recursiveSlot ∈ pointer ++ [i] ++ rest → Loops s.mem root)
    (hpass : Passable s.mem root (squash (pointer ++ [i] ++ rest))) :
    (∃ s₁, CreateStep source used root pointer i s s₁) ∨
    ∃ s₁, nextLevelTableCreateMut (windowPtr pointer) i s = .ok none s₁ ∧
      Hosted source used root s₁ ∧ Grown used root s s₁ ∧ s₁.mem = s.mem ∧
      descend (link s.mem) root (squash (pointer ++ [i])) = none ∧
      FrameAllocator.allocOne s.allocator = .ok (none, s₁.allocator) ∧
      ∃ events, s₁.trace = s.trace ++ events ∧ .alloc none ∈ events := by
  have hplen : pointer.length ≤ 2 := by
    simp only [List.length_append, List.length_singleton] at hlen
    omega
  have hpath : TablePath (squash pointer) := squash_tablePath (by omega)
  have hfront : recursiveSlot ∈ pointer → Loops s.mem root := fun hslot => hloops (by simp [hslot])
  have hpointer := (descend_squash (by omega) hfront).trans htable
  have hexisting (child : ℕ) (hlink : link s.mem table i = some child) :=
    h.create_step_existing hpointer hplen (mem_nodes hpath htable) hlink
  by_cases hi : i = recursiveSlot
  · subst hi
    have hlink := hloops (by simp) _ table hpath htable
    exact Or.inl (hexisting table hlink (by rw [squash_concat_slot, htable]))
  · have hpath' : squash (pointer ++ [i]) = squash pointer ++ [i] := squash_concat pointer hi
    cases hlink : link s.mem table i with
    | some child =>
      exact Or.inl (hexisting child hlink (by rw [hpath', descend_concat htable, hlink]))
    | none =>
      have hmissing : descend (link s.mem) root (squash (pointer ++ [i])) = none := by
        rw [hpath', descend_concat htable, hlink]
      have hwhole : squash (pointer ++ [i] ++ rest) = squash pointer ++ i :: squash rest := by
        rw [squash, List.filter_append, ← squash, ← squash, hpath', List.append_assoc,
          List.singleton_append]
      have hshort : (squash pointer).length ≤ 2 := (List.length_filter_le _ _).trans hplen
      have hsole := hpass.sole (squash pointer) _ table hwhole htable
      have hinside : ∀ front back node, pointer = front ++ back →
          descend (link s.mem) root front = some node → node ∈ tables s.mem root :=
        fun _ _ _ => mem_tables_of_front (by omega) hfront
      rcases h.create_vacant hpointer hplen hinside htable hpath hshort hi hsole hlink with
        ⟨s₁, child, hrun, h₁, hgrown, hchild, -, -, hnew, hdraw⟩ |
        ⟨s₁, hrun, h₁, hgrown, hmem, hempty, hevents⟩ | ⟨hhuge, -⟩
      · left
        refine ⟨s₁, hrun, h₁, hgrown, ?_, ?_, ?_, Or.inr hdraw⟩
        · rw [hpath', hchild]
          rfl
        · rw [hmissing]
          exact fun hsome => absurd hsome (by simp)
        · rw [hpath']
          exact hnew
      · exact Or.inr ⟨s₁, hrun, h₁, hgrown, hmem, hmissing, hempty, hevents⟩
      · rw [hpass.small (squash pointer) i _ table hwhole htable] at hhuge
        cases hhuge

/-- Creating tables along a passable path succeeds unless the allocator runs out.
Recursive slots on the path have no effect when tables refer to themselves. -/
theorem Hosted.createAlong_spec (h : Hosted source used root s) (pointer rest : List Index)
    (htable : (descend (link s.mem) root (squash pointer)).isSome)
    (hlen : (pointer ++ rest).length ≤ 3)
    (hloops : recursiveSlot ∈ pointer ++ rest → Loops s.mem root)
    (hpass : Passable s.mem root (squash (pointer ++ rest))) :
    CreateOutcome source used root (squash (pointer ++ rest)) rest.length
      (windowPtr (pointer ++ rest)) (createAlong (windowPtr pointer) rest) s := by
  induction rest generalizing s pointer with
  | nil =>
    obtain ⟨table, htable⟩ := Option.isSome_iff_exists.mp htable
    have hreach : Reaches s ∅ s.mem s.allocator s := ⟨rfl, rfl, rfl, [], by simp, by simp⟩
    rw [List.append_nil]
    exact ⟨s, h, .of_reaches hreach (Set.empty_subset _), fun _ => ⟨rfl, rfl⟩, .of_mem rfl,
      Or.inl ⟨table, 0, rfl, htable, le_rfl, .none _⟩⟩
  | cons i rest ih =>
    have hsplit : pointer ++ i :: rest = pointer ++ [i] ++ rest := List.append_cons pointer i rest
    rw [hsplit] at hlen hloops hpass ⊢
    obtain ⟨table, htable⟩ := Option.isSome_iff_exists.mp htable
    rcases h.create_step htable hlen hloops hpass with
      ⟨s₁, hstep⟩ | ⟨s₁, hrun, h₁, hgrown, hmem, hmissing, hempty, hevents⟩
    · exact hstep.outcome (ih hstep.hosted (pointer ++ [i]) hstep.reached hlen
        (fun hslot => hstep.grown.loops (hloops hslot))
        (hstep.grown.passable (squash_tablePath hlen) hpass))
    · have hmissing : descend (link s.mem) root (squash (pointer ++ [i] ++ rest)) = none :=
        descend_squash_append_none hmissing
      refine ⟨s₁, h₁, hgrown, ?_, .of_mem hmem,
        Or.inr ⟨?_, ?_, ⟨0, s.allocator, Nat.succ_pos _, .none _, hempty⟩, hevents⟩⟩
      · rw [hmissing]
        exact fun hsome => absurd hsome (by simp)
      · rw [createAlong, bind_ok hrun]
        rfl
      · rw [hmem, hmissing]

/-- Creating the tables of a page from the level-4 table on. -/
theorem Hosted.createFromRoot (h : Hosted source used root s) {addr : ℕ}
    (hloops : recursiveSlot ∈ tablePath addr → Loops s.mem root)
    (hpass : Passable s.mem root (squash (tablePath addr))) :
    CreateOutcome source used root (squash (tablePath addr)) 3 (windowPtr (tablePath addr))
      (createAlong level4PageTable (tablePath addr)) s :=
  h.createAlong_spec [] (tablePath addr) rfl le_rfl hloops hpass

/-- A machine stays hosted when one entry of a level-1 table is written and the window
stays open. -/
theorem Hosted.set_leaf (h : Hosted source used root s) {s' : Machine α} {path : List Index}
    {table : ℕ} {i : Index} {e : PageEntry} (hlen : path.length = 3)
    (hsole : Sole s.mem root path table) (hmem : s'.mem = s.mem.set table i e)
    (hcr3 : s'.cr3 = s.cr3) (hwindow : Window s'.mem s'.cr3 root)
    (hserves : source.Serves s'.allocator (used ∪ tables s.mem root)) :
    Hosted source used root s' := by
  have htables : tables s'.mem root = tables s.mem root := by
    rw [hmem]
    exact set_leaf_tables hlen hsole
  refine ⟨hwindow, ?_, ?_, ?_⟩
  · rw [htables, hcr3]
    exact h.active
  · rw [htables]
    exact h.apart
  · rw [htables]
    exact hserves

/-- Everything `map` can do with a page. It grows the tables, unless all tables of the page
exist, and then returns `NoPageTable` after the allocator ran out, or `AlreadyMapped` at
an entry that is present, or it fills the entry. The table at the end of the path is
the one that is read and written. -/
def MapOutcome (source : FrameSource α) (used : Set ℕ) (root : ℕ) (page : Page) (frame : Frame)
    (path : List Index) (s : Machine α) : Prop :=
  ∃ s₁, Hosted source used root s₁ ∧ Grown used root s s₁ ∧
    ((descend (link s.mem) root path).isSome →
      s₁.mem = s.mem ∧ s₁.allocator = s.allocator) ∧
    NewAlong root path s s₁ ∧
    ((map page frame s = .ok (.error .noPageTable) s₁ ∧ descend (link s₁.mem) root path = none ∧
        (∃ n a, n < 3 ∧ Drawn n s.allocator a ∧
          FrameAllocator.allocOne a = .ok (none, s₁.allocator)) ∧
        ∃ events, s₁.trace = s.trace ++ events ∧ .alloc none ∈ events) ∨
      ∃ table n, descend (link s₁.mem) root path = some table ∧
        n ≤ 3 ∧ Drawn n s.allocator s₁.allocator ∧
        ((s₁.mem table (level1Index (page.number * 4096))).isPresent = true ∧
            map page frame s = .ok (.error .alreadyMapped) s₁ ∨
          (s₁.mem table (level1Index (page.number * 4096))).isPresent = false ∧
            ∃ s', map page frame s = .ok (.ok ()) s' ∧
              Reaches s₁ {table} (s₁.mem.set table (level1Index (page.number * 4096))
                ((s₁.mem table (level1Index (page.number * 4096))).withFrame frame.number))
                s₁.allocator s'))

/-- What `map` does with a page whose tables are passable, when recursive slots on the path
have no effect. -/
theorem Hosted.map_squash (h : Hosted source used root s) {page : Page} {frame : Frame}
    (hpage : page.number < 2 ^ 52) (hframe : frame.number < 2 ^ 36)
    (hloops : recursiveSlot ∈ tablePath (page.number * 4096) → Loops s.mem root)
    (hpass : Passable s.mem root (squash (tablePath (page.number * 4096)))) :
    MapOutcome source used root page frame (squash (tablePath (page.number * 4096))) s := by
  have hpath : TablePath (squash (tablePath (page.number * 4096))) := squash_tablePath le_rfl
  obtain ⟨s₁, h₁, hgrown, hsame, hnew, hcases⟩ := h.createFromRoot hloops hpass
  rcases hcases with ⟨table, n, hrun, htable, hn, hdrawn⟩ | ⟨hrun, hmissing⟩
  · have hmap := map_run hpage (hframe.trans (by decide)) hrun
    have htable' : descend (link s₁.mem) root (tablePath (page.number * 4096)) = some table :=
      (descend_squash le_rfl (fun hslot => hgrown.loops (hloops hslot))).trans htable
    have hresolve := h₁.window.resolve le_rfl htable'
    obtain ⟨s₂, hread, hreach⟩ := readEntry_spec hresolve (level1Index (page.number * 4096))
    have hgrown₂ : Grown used root s₁ s₂ :=
      .of_reaches hreach (Set.singleton_subset_iff.mpr (mem_nodes hpath htable))
    have h₂ : Hosted source used root s₂ := by
      apply h₁.of_grown hgrown₂
      rw [hreach.mem, hreach.allocator]
      exact h₁.serves
    refine ⟨s₂, h₂, hgrown.trans hgrown₂, ?_, ?_,
      Or.inr ⟨table, n, by rw [hreach.mem]; exact htable, hn, hreach.allocator ▸ hdrawn, ?_⟩⟩
    · rw [hreach.mem, hreach.allocator]
      exact hsame
    · exact hnew.trans (.of_mem hreach.mem) (List.prefix_refl _)
    rw [hreach.mem]
    cases hpresent : (s₁.mem table (level1Index (page.number * 4096))).isPresent with
    | true =>
      refine Or.inl ⟨rfl, ?_⟩
      rw [hmap, mapLeaf, bind_ok hread]
      simp [hpresent]
    | false =>
      refine Or.inr ⟨rfl, ?_⟩
      obtain ⟨s₃, hset, hreach₃⟩ := setEntryFrameAddr_spec
        ((resolve_congr hreach.mem hreach.cr3 _).trans hresolve)
        (level1Index (page.number * 4096)) hframe
      rw [hreach.mem] at hreach₃
      refine ⟨s₃, ?_, hreach₃⟩
      rw [hmap, mapLeaf, bind_ok hread]
      simp [hpresent, bind_ok hset]
  · exact ⟨s₁, h₁, hgrown, hsame, hnew,
      Or.inl ⟨map_run hpage (hframe.trans (by decide)) hrun, hmissing⟩⟩

/-- What `map` does with a page whose tables are passable. -/
theorem Hosted.map_cases (h : Hosted source used root s) {page : Page} {frame : Frame}
    (hpage : page.number < 2 ^ 52) (hframe : frame.number < 2 ^ 36)
    (hpath : TablePath (tablePath (page.number * 4096)))
    (hpass : Passable s.mem root (tablePath (page.number * 4096))) :
    MapOutcome source used root page frame (tablePath (page.number * 4096)) s := by
  have hsquash : squash (tablePath (page.number * 4096)) = tablePath (page.number * 4096) :=
    squash_eq_self hpath.2
  rw [← hsquash] at hpass ⊢
  exact h.map_squash hpage hframe (fun hslot => absurd rfl (hpath.2 _ hslot)) hpass

/-- The call filled a cleared entry of a level-1 table that did not exist before. -/
structure NewMapping (source : FrameSource α) (used : Set ℕ) (root : ℕ) (page : Page)
    (frame : Frame) (s s₁ : Machine α) (table : ℕ) (s' : Machine α) : Prop where
  /-- The tables are hosted after they were created. -/
  hosted : Hosted source used root s₁
  /-- The tables were created first. -/
  grown : Grown used root s s₁
  /-- The new level-1 table. -/
  reached : descend (link s₁.mem) root (tablePath (page.number * 4096)) = some table
  /-- The new table has no second path. -/
  sole : Sole s₁.mem root (tablePath (page.number * 4096)) table
  /-- The entry of the page. -/
  cleared : s₁.mem table (level1Index (page.number * 4096)) = .cleared
  /-- The entry was filled. -/
  filled : Reaches s₁ {table} (s₁.mem.set table (level1Index (page.number * 4096))
    (PageEntry.cleared.withFrame frame.number)) s₁.allocator s'
  /-- The new tables are on the path of the page. -/
  along : NewAlong root (tablePath (page.number * 4096)) s s₁
  /-- At most three frames became tables. -/
  drawn : ∃ n ≤ 3, Drawn n s.allocator s₁.allocator

/-- What `map` does with a page whose level-1 table does not exist: the allocator ran out, or
the entry of the page in the new table is filled. -/
theorem Hosted.map_missing (h : Hosted source used root s) {page : Page} {frame : Frame}
    (hpage : page.number < 2 ^ 52) (hframe : frame.number < 2 ^ 36)
    (hordinary : Ordinary page.indices)
    (hpass : Passable s.mem root (tablePath (page.number * 4096)))
    (hmissing : descend (link s.mem) root (tablePath (page.number * 4096)) = none) :
    (∃ s₁ n a, map page frame s = .ok (.error .noPageTable) s₁ ∧ n < 3 ∧
      Drawn n s.allocator a ∧ FrameAllocator.allocOne a = .ok (none, s₁.allocator)) ∨
    ∃ s' s₁ table, map page frame s = .ok (.ok ()) s' ∧
      NewMapping source used root page frame s s₁ table s' := by
  have hpath := hordinary.tablePath
  obtain ⟨s₁, h₁, hgrown, -, hnew, hcases⟩ := h.map_cases hpage hframe hpath hpass
  rcases hcases with ⟨hrun, -, ⟨n, a, hn, hdrawn, halloc⟩, -⟩ |
    ⟨table, n, htable, hn, hdrawn, hentry⟩
  · exact Or.inl ⟨s₁, n, a, hrun, hn, hdrawn, halloc⟩
  · right
    have hcleared : s₁.mem table (level1Index (page.number * 4096)) = .cleared := by
      rcases hgrown.entry _ table _ hpath htable hordinary.level1Index with
        ⟨hold, -⟩ | hcleared | ⟨hshort, -⟩
      · rw [hmissing] at hold
        cases hold
      · exact hcleared
      · exact absurd hshort (by simp [tablePath])
    rw [hcleared] at hentry
    rcases hentry with ⟨hpresent, -⟩ | ⟨-, s', hrun, hreach⟩
    · cases hpresent
    · refine ⟨s', s₁, table, hrun, h₁, hgrown, htable, ?_, hcleared, hreach, hnew, n, hn, hdrawn⟩
      rcases hgrown.added _ table hpath htable with hold | ⟨-, hsole, -⟩
      · rw [hmissing] at hold
        cases hold
      · exact hsole

end Specs

section Unmap

variable [FrameAllocator α] {root : ℕ} {s : Machine α}

/-- What giving a frame back does. -/
theorem freeFrame_spec {frame : Frame} {a : α}
    (h : FrameAllocator.free s.allocator frame = .ok a) :
    ∃ s', freeFrame frame s = .ok () s' ∧ s'.mem = s.mem ∧ s'.cr3 = s.cr3 ∧ s'.allocator = a ∧
      s'.trace = s.trace ++ [.free frame] := by
  refine ⟨{ s with allocator := a, trace := s.trace ++ [.free frame] }, ?_, rfl, rfl, rfl, rfl⟩
  rw [freeFrame, h]

omit [FrameAllocator α] in
/-- Looking up tables along a path finds the table that the path leads to. -/
theorem Window.lookupAlong_spec (hwindow : Window s.mem s.cr3 root) {path rest : List Index}
    {table : ℕ} (htable : descend (link s.mem) root path = some table)
    (hpath : TablePath (path ++ rest)) :
    ∃ s', Reaches s (tables s.mem root) s.mem s.allocator s' ∧
      lookupAlong (windowPtr path) rest s =
        .ok ((descend (link s.mem) root (path ++ rest)).map fun _ => windowPtr (path ++ rest))
          s' := by
  induction rest generalizing s path table with
  | nil =>
    refine ⟨s, ⟨rfl, rfl, rfl, [], by simp, by simp⟩, ?_⟩
    rw [List.append_nil, htable]
    rfl
  | cons i rest ih =>
    have hlen : path.length ≤ 3 := hpath.left.1
    have hsplit : path ++ i :: rest = path ++ [i] ++ rest := by simp
    obtain ⟨s₁, hnext, hreach⟩ := nextLevelTableMut_spec (hwindow.resolve hlen htable) i
    have hreach := hreach.mono (Set.singleton_subset_iff.mpr (mem_nodes hpath.left htable))
    rw [← windowPtr_concat] at hnext
    rw [hsplit] at hpath ⊢
    cases hlink : link s.mem table i with
    | none =>
      refine ⟨s₁, hreach, ?_⟩
      rw [lookupAlong, bind_ok hnext, hlink, descend_append_none]
      · rfl
      · rw [descend_concat htable, hlink]
    | some child =>
      have hchild : descend (link s₁.mem) root (path ++ [i]) = some child := by
        rw [hreach.mem, descend_concat htable, hlink]
      have hwindow₁ : Window s₁.mem s₁.cr3 root := by
        rw [hreach.mem, hreach.cr3]
        exact hwindow
      obtain ⟨s₂, hreach₂, hrun⟩ := ih hwindow₁ hchild hpath
      rw [hreach.mem, hreach.allocator] at hreach₂
      refine ⟨s₂, hreach.trans hreach₂, ?_⟩
      rw [lookupAlong, bind_ok hnext, hlink, ← hreach.mem]
      exact hrun

omit [FrameAllocator α] in
/-- Looking up tables along a path from the level-4 table. -/
theorem Window.lookupFromRoot (hwindow : Window s.mem s.cr3 root) {path : List Index}
    (hpath : TablePath path) :
    ∃ s', Reaches s (tables s.mem root) s.mem s.allocator s' ∧
      lookupAlong level4PageTable path s =
        .ok ((descend (link s.mem) root path).map fun _ => windowPtr path) s' :=
  hwindow.lookupAlong_spec descend_nil hpath

/-- `unmap` of a page without a present entry. -/
theorem Window.unmap_absent (hwindow : Window s.mem s.cr3 root) {page : Page}
    (hpage : page.number < 2 ^ 52) (hpath : TablePath (tablePath (page.number * 4096)))
    (habsent : ∀ table, descend (link s.mem) root (tablePath (page.number * 4096)) = some table →
      (s.mem table (level1Index (page.number * 4096))).isPresent = false) :
    ∃ s', unmap page s = .ok (.error .noEntry) s' ∧
      Reaches s (tables s.mem root) s.mem s.allocator s' := by
  obtain ⟨s₁, hreach, hrun⟩ := hwindow.lookupFromRoot hpath
  cases htable : descend (link s.mem) root (tablePath (page.number * 4096)) with
  | none =>
    rw [htable] at hrun
    exact ⟨s₁, unmap_run hpage hrun, hreach⟩
  | some table =>
    rw [htable] at hrun
    have hresolve := (resolve_congr hreach.mem hreach.cr3 _).trans (hwindow.resolve hpath.1 htable)
    obtain ⟨s₂, hread, hreach₂⟩ := readEntry_spec hresolve (level1Index (page.number * 4096))
    have hreach₂ := hreach₂.mono (Set.singleton_subset_iff.mpr (mem_nodes hpath htable))
    rw [hreach.mem] at hread
    rw [hreach.mem, hreach.allocator] at hreach₂
    refine ⟨s₂, ?_, hreach.trans hreach₂⟩
    rw [unmap_run hpage hrun, Option.map_some, unmapLeaf, bind_ok hread]
    simp [PageEntry.getFrameAddr, habsent table htable]

/-- `unmap` of a page with a present entry only returns when the allocator takes the frame
back. -/
theorem Window.unmap_returned (hwindow : Window s.mem s.cr3 root) {page : Page}
    (hpage : page.number < 2 ^ 52) (hpath : TablePath (tablePath (page.number * 4096)))
    {table frameAddr : ℕ}
    (htable : descend (link s.mem) root (tablePath (page.number * 4096)) = some table)
    (haddr : (s.mem table (level1Index (page.number * 4096))).getFrameAddr = some frameAddr)
    {result : Except TableError Unit} {s' : Machine α} (hrun : unmap page s = .ok result s') :
    ∃ a, FrameAllocator.free s.allocator (Frame.fromAddress frameAddr) = .ok a := by
  obtain ⟨s₁, hreach, hlookup⟩ := hwindow.lookupFromRoot hpath
  rw [htable, Option.map_some] at hlookup
  have hresolve := (resolve_congr hreach.mem hreach.cr3 _).trans (hwindow.resolve hpath.1 htable)
  obtain ⟨s₂, hread, hreach₂⟩ := readEntry_spec hresolve (level1Index (page.number * 4096))
  rw [hreach.mem] at hread
  rw [unmap_run hpage hlookup, unmapLeaf, bind_ok hread] at hrun
  simp only [haddr] at hrun
  obtain ⟨u, s₃, hfreed, -⟩ := bind_eq_ok.mp hrun
  rw [freeFrame, hreach₂.allocator, hreach.allocator] at hfreed
  cases hfree : FrameAllocator.free s.allocator (Frame.fromAddress frameAddr) with
  | ok a => exact ⟨a, rfl⟩
  | error fault =>
    rw [hfree] at hfreed
    cases hfreed

/-- `unmap` of a page with a present entry frees the frame and clears the entry. -/
theorem Window.unmap_present (hwindow : Window s.mem s.cr3 root) {page : Page}
    (hpage : page.number < 2 ^ 52) (hpath : TablePath (tablePath (page.number * 4096)))
    {table frameAddr : ℕ} {a : α}
    (htable : descend (link s.mem) root (tablePath (page.number * 4096)) = some table)
    (haddr : (s.mem table (level1Index (page.number * 4096))).getFrameAddr = some frameAddr)
    (hfree : FrameAllocator.free s.allocator (Frame.fromAddress frameAddr) = .ok a) :
    ∃ s' before, unmap page s = .ok (.ok ()) s' ∧
      s'.mem = s.mem.set table (level1Index (page.number * 4096)) .cleared ∧
      s'.cr3 = s.cr3 ∧ s'.allocator = a ∧
      s'.trace = s.trace ++ before ++ [.free (Frame.fromAddress frameAddr),
        .write (windowPtr (tablePath (page.number * 4096))) table
          (level1Index (page.number * 4096))] ∧
      ∀ e ∈ before, e.Touches (tables s.mem root) := by
  obtain ⟨s₁, hreach, hrun⟩ := hwindow.lookupFromRoot hpath
  rw [htable, Option.map_some] at hrun
  have hresolve := hwindow.resolve hpath.1 htable
  obtain ⟨s₂, hread, hreach₂⟩ := readEntry_spec
    ((resolve_congr hreach.mem hreach.cr3 _).trans hresolve) (level1Index (page.number * 4096))
  have hreach₂ := hreach₂.mono (Set.singleton_subset_iff.mpr (mem_nodes hpath htable))
  rw [hreach.mem] at hread
  rw [hreach.mem, hreach.allocator] at hreach₂
  have hreach₂ := hreach.trans hreach₂
  obtain ⟨s₃, hfreed, hmem₃, hcr3₃, hallocator₃, htrace₃⟩ :=
    freeFrame_spec (hreach₂.allocator ▸ hfree)
  have hresolve₃ :=
    (resolve_congr (hmem₃.trans hreach₂.mem) (hcr3₃.trans hreach₂.cr3) _).trans hresolve
  have hwrite := writeEntry_ok hresolve₃ (level1Index (page.number * 4096)) .cleared
  obtain ⟨before, htrace, htouch⟩ := hreach₂.events
  have hunmap := unmap_run hpage hrun
  rw [unmapLeaf, bind_ok hread] at hunmap
  simp only [haddr] at hunmap
  rw [bind_ok hfreed, bind_ok hwrite, pure_run] at hunmap
  refine ⟨_, before, hunmap, ?_, hcr3₃.trans hreach₂.cr3, hallocator₃, ?_, htouch⟩
  · exact congrArg (fun mem => Memory.set mem table _ .cleared) (hmem₃.trans hreach₂.mem)
  · rw [htrace₃, htrace]
    simp

end Unmap

section Returned

variable {s s' : Machine α} {pointer : ℕ} {i : Index}

/-- `next_level_table_mut` only reads. -/
theorem nextLevelTableMut_returned {r : Option ℕ} (h : nextLevelTableMut pointer i s = .ok r s') :
    (∃ frame, s.resolve pointer = .ok frame) ∧ s'.mem = s.mem ∧ s'.cr3 = s.cr3 := by
  obtain ⟨e, s₁, hread, h⟩ := bind_eq_ok.mp h
  obtain ⟨frame, hresolve, -, hmem, hcr3⟩ := readEntry_returned hread
  split at h
  all_goals
    obtain ⟨-, rfl⟩ := EStateM.Result.ok.inj h
    exact ⟨⟨frame, hresolve⟩, hmem, hcr3⟩

/-- `next_level_table_mut` along a list of indices only reads. -/
theorem lookupAlong_returned {path : List Index} {r : Option ℕ}
    (h : lookupAlong pointer path s = .ok r s') : s'.mem = s.mem ∧ s'.cr3 = s.cr3 := by
  induction path generalizing pointer s with
  | nil =>
    obtain ⟨-, rfl⟩ := EStateM.Result.ok.inj h
    exact ⟨rfl, rfl⟩
  | cons i path ih =>
    obtain ⟨next, s₁, hnext, h⟩ := bind_eq_ok.mp h
    obtain ⟨-, hmem, hcr3⟩ := nextLevelTableMut_returned hnext
    cases next with
    | none =>
      obtain ⟨-, rfl⟩ := EStateM.Result.ok.inj h
      exact ⟨hmem, hcr3⟩
    | some next =>
      obtain ⟨hmem', hcr3'⟩ := ih h
      exact ⟨hmem'.trans hmem, hcr3'.trans hcr3⟩

/-- The part of `map` after its tables were created writes at most one entry, which was not
present. -/
theorem mapLeaf_returned {table : Option ℕ} {frameAddr : ℕ} {r : Except TableError Unit}
    (h : mapLeaf table i frameAddr s = .ok r s') : s'.cr3 = s.cr3 ∧ (s'.mem = s.mem ∨
      ∃ frame e, (s.mem frame i).isPresent = false ∧ s'.mem = s.mem.set frame i e) := by
  cases table with
  | none =>
    obtain ⟨-, rfl⟩ := EStateM.Result.ok.inj h
    exact ⟨rfl, Or.inl rfl⟩
  | some pointer =>
    obtain ⟨entry, s₁, hread, h⟩ := bind_eq_ok.mp h
    obtain ⟨frame, hresolve, rfl, hmem, hcr3⟩ := readEntry_returned hread
    split at h
    case isTrue habsent =>
      obtain ⟨_, s₂, hset, h⟩ := bind_eq_ok.mp h
      obtain ⟨-, rfl⟩ := EStateM.Result.ok.inj h
      obtain ⟨entry, s₃, hread', hset⟩ := bind_eq_ok.mp hset
      obtain ⟨frame', -, -, hmem', hcr3'⟩ := readEntry_returned hread'
      obtain ⟨entry', -, hwrite⟩ := lift_bind_eq_ok.mp hset
      obtain ⟨frame'', hresolve', hmem'', hcr3''⟩ := writeEntry_returned hwrite
      have hsame :=
        (resolve_congr (hmem'.trans hmem) (hcr3'.trans hcr3) pointer).symm.trans hresolve'
      obtain rfl := Except.ok.inj (hresolve.symm.trans hsame)
      refine ⟨hcr3''.trans (hcr3'.trans hcr3), Or.inr ⟨frame, entry', by simpa using habsent, ?_⟩⟩
      rw [hmem'', hmem', hmem]
    case isFalse =>
      obtain ⟨-, rfl⟩ := EStateM.Result.ok.inj h
      exact ⟨hcr3, Or.inl hmem⟩

variable [FrameAllocator α]

/-- Giving a frame back keeps the memory. -/
theorem freeFrame_returned {frame : Frame} {u : Unit} (h : freeFrame frame s = .ok u s') :
    s'.mem = s.mem ∧ s'.cr3 = s.cr3 := by
  unfold freeFrame at h
  split at h
  case h_1 =>
    obtain ⟨-, rfl⟩ := EStateM.Result.ok.inj h
    exact ⟨rfl, rfl⟩
  case h_2 => cases h

/-- A call of `map` that returned. -/
theorem map_created {page : Page} {frame : Frame} {r : Except TableError Unit}
    (h : map page frame s = .ok r s') : ∃ table s₁,
      createAlong level4PageTable (tablePath (page.number * 4096)) s = .ok table s₁ ∧
      mapLeaf table (level1Index (page.number * 4096)) (frame.number * 4096) s₁ = .ok r s' := by
  rw [map] at h
  obtain ⟨_, haddr, h⟩ := lift_bind_eq_ok.mp h
  obtain ⟨-, rfl⟩ := checkedMul_eq_ok.mp haddr
  obtain ⟨_, hframe, h⟩ := lift_bind_eq_ok.mp h
  obtain ⟨-, rfl⟩ := checkedMul_eq_ok.mp hframe
  rw [andThen_chain] at h
  obtain ⟨table, s₁, hcreate, hleaf⟩ := bind_eq_ok.mp h
  exact ⟨table, s₁, hcreate, hleaf⟩

/-- A call of `unmap` that returned cleared at most one entry. -/
theorem unmap_cleared {page : Page} {r : Except TableError Unit} (h : unmap page s = .ok r s') :
    s'.cr3 = s.cr3 ∧ (s'.mem = s.mem ∨ ∃ frame i, s'.mem = s.mem.set frame i .cleared) := by
  rw [unmap] at h
  obtain ⟨addr, -, h⟩ := lift_bind_eq_ok.mp h
  rw [andThen_chain] at h
  obtain ⟨table, s₁, hlookup, h⟩ := bind_eq_ok.mp h
  have hlookup : lookupAlong level4PageTable (tablePath addr) s = .ok table s₁ := hlookup
  obtain ⟨hmem, hcr3⟩ := lookupAlong_returned hlookup
  cases table with
  | none =>
    obtain ⟨-, rfl⟩ := EStateM.Result.ok.inj h
    exact ⟨hcr3, Or.inl hmem⟩
  | some pointer =>
    obtain ⟨entry, s₂, hread, h⟩ := bind_eq_ok.mp h
    obtain ⟨-, -, -, hmem₂, hcr3₂⟩ := readEntry_returned hread
    cases haddr : entry.getFrameAddr with
    | some frameAddr =>
      simp only [haddr] at h
      obtain ⟨_, s₃, hfree, h⟩ := bind_eq_ok.mp h
      obtain ⟨hmem₃, hcr3₃⟩ := freeFrame_returned hfree
      obtain ⟨_, s₄, hwrite, h⟩ := bind_eq_ok.mp h
      obtain ⟨-, rfl⟩ := EStateM.Result.ok.inj h
      obtain ⟨frame, -, hmem₄, hcr3₄⟩ := writeEntry_returned hwrite
      refine ⟨hcr3₄.trans (hcr3₃.trans (hcr3₂.trans hcr3)), Or.inr ⟨frame, level1Index addr, ?_⟩⟩
      rw [hmem₄, hmem₃, hmem₂, hmem]
    | none =>
      simp only [haddr] at h
      obtain ⟨-, rfl⟩ := EStateM.Result.ok.inj h
      exact ⟨hcr3₂.trans hcr3, Or.inl (hmem₂.trans hmem)⟩

end Returned

end Axel
