import Axel.Paging.Window

/-!
# Creating tables

The exact effect of `next_level_table_create_mut` on the machine, when it is called with
a pointer into the recursive window. A new table is linked into an entry, reached
through that entry, cleared, and given an entry 511 that refers to itself. The pointer
stays valid in the meantime because the frame of the new table is not among those
that the walk of the pointer reads.
-/

namespace Axel

open Descent Table

variable {α : Type}

/-- The event accesses an entry in one of the frames, or asks for a frame. -/
def Event.Touches (frames : Set ℕ) : Event → Prop
  | .read _ frame _ => frame ∈ frames
  | .write _ frame _ => frame ∈ frames
  | .alloc _ => True
  | .free _ => False

/-- A set of frames can be enlarged. -/
theorem Event.Touches.mono {frames frames' : Set ℕ} (h : frames ⊆ frames') {e : Event}
    (he : e.Touches frames) : e.Touches frames' := by
  cases e with
  | read table frame i => exact h he
  | write table frame i => exact h he
  | alloc result => trivial
  | free frame => exact he

/-- What a run did: it accessed entries in the frames only, it kept CR3, and it left the
given memory and allocator. -/
structure Reaches (s : Machine α) (frames : Set ℕ) (mem : Memory) (allocator : α)
    (s' : Machine α) : Prop where
  /-- The memory after the run. -/
  mem : s'.mem = mem
  /-- The table in CR3 is the same. -/
  cr3 : s'.cr3 = s.cr3
  /-- The allocator after the run. -/
  allocator : s'.allocator = allocator
  /-- The events of the run. -/
  events : ∃ events, s'.trace = s.trace ++ events ∧ ∀ e ∈ events, e.Touches frames

/-- One run after another. -/
theorem Reaches.trans {s s' s'' : Machine α} {frames : Set ℕ} {mem mem' : Memory} {a a' : α}
    (h : Reaches s frames mem a s') (h' : Reaches s' frames mem' a' s'') :
    Reaches s frames mem' a' s'' := by
  obtain ⟨events, htrace, htouch⟩ := h.events
  obtain ⟨events', htrace', htouch'⟩ := h'.events
  refine ⟨h'.mem, h'.cr3.trans h.cr3, h'.allocator, events ++ events', ?_, ?_⟩
  · rw [htrace', htrace, List.append_assoc]
  · intro e he
    rcases List.mem_append.mp he with he | he
    · exact htouch e he
    · exact htouch' e he

/-- The set of frames can be enlarged. -/
theorem Reaches.mono {s s' : Machine α} {frames frames' : Set ℕ} {mem : Memory} {a : α}
    (h : Reaches s frames mem a s') (hsub : frames ⊆ frames') : Reaches s frames' mem a s' := by
  obtain ⟨events, htrace, htouch⟩ := h.events
  exact ⟨h.mem, h.cr3, h.allocator, events, htrace, fun e he => (htouch e he).mono hsub⟩

/-- A run of one event. -/
theorem Reaches.single (s : Machine α) {frames : Set ℕ} (mem : Memory) (a : α) {e : Event}
    (he : e.Touches frames) : Reaches s frames mem a ⟨mem, s.cr3, a, s.trace ++ [e]⟩ :=
  ⟨rfl, rfl, rfl, [e], rfl, fun _ he' => List.mem_singleton.mp he' ▸ he⟩

/-- Resolving a pointer only depends on the memory and CR3. -/
theorem resolve_congr {s s' : Machine α} (hmem : s'.mem = s.mem) (hcr3 : s'.cr3 = s.cr3)
    (addr : ℕ) : s'.resolve addr = s.resolve addr := by
  rw [Machine.resolve, Machine.resolve, hmem, hcr3]

section Accesses

variable {s : Machine α} {pointer frame : ℕ} (h : s.resolve pointer = .ok frame) (i : Index)
include h

/-- What reading an entry does. -/
theorem readEntry_spec :
    ∃ s', readEntry pointer i s = .ok (s.mem frame i) s' ∧
      Reaches s {frame} s.mem s.allocator s' :=
  ⟨_, readEntry_ok h i, .single s _ _ (Set.mem_singleton frame)⟩

/-- What writing an entry does. -/
theorem writeEntry_spec (e : PageEntry) :
    ∃ s', writeEntry pointer i e s = .ok () s' ∧
      Reaches s {frame} (s.mem.set frame i e) s.allocator s' :=
  ⟨_, writeEntry_ok h i e, .single s _ _ (Set.mem_singleton frame)⟩

/-- What `set_frame_addr` does through a pointer. -/
theorem setEntryFrameAddr_spec {n : ℕ} (hn : n < 2 ^ 36) :
    ∃ s', setEntryFrameAddr pointer i (n * 4096) s = .ok () s' ∧
      Reaches s {frame} (s.mem.set frame i ((s.mem frame i).withFrame n)) s.allocator s' := by
  obtain ⟨s₁, hread, hreach₁⟩ := readEntry_spec h i
  have h₁ := (resolve_congr hreach₁.mem hreach₁.cr3 pointer).trans h
  obtain ⟨s₂, hwrite, hreach₂⟩ := writeEntry_spec h₁ i ((s.mem frame i).withFrame n)
  rw [hreach₁.mem, hreach₁.allocator] at hreach₂
  refine ⟨s₂, ?_, hreach₁.trans hreach₂⟩
  rw [setEntryFrameAddr, bind_ok hread, bind_ok (lift_ok (PageEntry.setFrameAddr_eq _ hn)), hwrite]

/-- What `set_flags` does through a pointer. -/
theorem setEntryFlags_spec (flags : PageEntryFlags) :
    ∃ s', setEntryFlags pointer i flags s = .ok () s' ∧
      Reaches s {frame} (s.mem.set frame i ((s.mem frame i).setFlags flags)) s.allocator s' := by
  obtain ⟨s₁, hread, hreach₁⟩ := readEntry_spec h i
  have h₁ := (resolve_congr hreach₁.mem hreach₁.cr3 pointer).trans h
  obtain ⟨s₂, hwrite, hreach₂⟩ := writeEntry_spec h₁ i ((s.mem frame i).setFlags flags)
  rw [hreach₁.mem, hreach₁.allocator] at hreach₂
  refine ⟨s₂, ?_, hreach₁.trans hreach₂⟩
  rw [setEntryFlags, bind_ok hread, hwrite]

/-- What `next_level_table_mut` does. -/
theorem nextLevelTableMut_spec :
    ∃ s', nextLevelTableMut pointer i s =
        .ok ((link s.mem frame i).map fun _ => nextAddress pointer i) s' ∧
      Reaches s {frame} s.mem s.allocator s' :=
  ⟨_, nextLevelTableAddress_run h i, .single s _ _ (Set.mem_singleton frame)⟩

end Accesses

/-- `set_frame_addr` only returns when the frame fits into an entry and the pointer is
canonical. -/
theorem setEntryFrameAddr_returned {s s' : Machine α} {pointer n : ℕ} {i : Index} {u : Unit}
    (hn : n * 4096 < usizeCount) (h : setEntryFrameAddr pointer i (n * 4096) s = .ok u s') :
    n < 2 ^ 36 ∧ Canonical pointer := by
  obtain ⟨entry, s₁, hread, h⟩ := bind_eq_ok.mp h
  obtain ⟨entry', s₂, hset, -⟩ := bind_eq_ok.mp h
  refine ⟨PageEntry.setFrameAddr_lt hn (lift_eq_ok.mp hset).1, ?_⟩
  by_contra hcanonical
  rw [readEntry, Machine.resolve, if_neg hcanonical] at hread
  cases hread

/-- What asking the allocator does. -/
theorem allocOne_spec [FrameAllocator α] {s : Machine α} (frames : Set ℕ) {result : Option Frame}
    {a : α} (h : FrameAllocator.allocOne s.allocator = .ok (result, a)) :
    ∃ s', allocOne s = .ok result s' ∧ Reaches s frames s.mem a s' ∧
      s'.trace = s.trace ++ [.alloc result] := by
  refine ⟨_, ?_, .single s s.mem a (e := .alloc result) trivial, rfl⟩
  rw [allocOne, h]

/-- The address of a frame whose number fits. -/
theorem Frame.address_ok {frame : Frame} (h : frame.number < 2 ^ 52) :
    frame.address = .ok (frame.number * 4096) :=
  checkedMul_ok (by unfold frameSize usizeCount; omega)

/-- The address of a frame that fits into an entry. -/
theorem Frame.address_eq {frame : Frame} (h : frame.number < 2 ^ 36) :
    frame.address = .ok (frame.number * 4096) :=
  Frame.address_ok (h.trans (by decide))

/-- A pointer resolves to a frame, and does so whatever is written into that frame. -/
def Machine.Fixed (s : Machine α) (pointer frame : ℕ) : Prop :=
  ∀ s' : Machine α, s'.cr3 = s.cr3 → (∀ f, f ≠ frame → s'.mem f = s.mem f) →
    s'.resolve pointer = .ok frame

/-- Memory after a word was written to the entries of a list of indices of one frame. -/
def filledMemory (mem : Memory) (frame : ℕ) (entry : PageEntry) (is : List Index) : Memory :=
  fun f j => if f = frame ∧ j ∈ is then entry else mem f j

/-- Memory after a frame was made an empty table with an entry 511 for itself. -/
def emptyTable (mem : Memory) (frame : ℕ) : Memory :=
  fun f j => if f = frame then if j = recursiveSlot then .selfEntry frame else .cleared else mem f j

/-- Memory after an empty table was linked into an entry. -/
def linkTable (mem : Memory) (table : ℕ) (i : Index) (child : ℕ) : Memory :=
  emptyTable (mem.set table i ((mem table i).withFrame child)) child

/-- The pointer stays fixed along a run that only writes into its frame. -/
theorem Machine.Fixed.of_frame {s s' : Machine α} {pointer frame : ℕ} (h : s.Fixed pointer frame)
    (hcr3 : s'.cr3 = s.cr3) (hmem : ∀ f, f ≠ frame → s'.mem f = s.mem f) :
    s'.Fixed pointer frame := by
  intro s'' hcr3' hmem'
  exact h s'' (hcr3'.trans hcr3) (fun f hf => (hmem' f hf).trans (hmem f hf))

/-- A fixed pointer resolves. -/
theorem Machine.Fixed.resolve {s : Machine α} {pointer frame : ℕ} (h : s.Fixed pointer frame) :
    s.resolve pointer = .ok frame :=
  h s rfl (fun _ _ => rfl)

/-- Writing into another entry keeps the rest of a frame. -/
theorem set_frame_of_ne (mem : Memory) {frame f : ℕ} (i : Index) (e : PageEntry) (h : f ≠ frame) :
    mem.set frame i e f = mem f :=
  funext fun _ => Memory.set_of_ne mem e (Or.inl h)

/-- A loop that writes one word to the entries of the list. -/
theorem fillEntries_spec {pointer frame : ℕ} (entry : PageEntry) (is : List Index) {s : Machine α}
    (h : s.Fixed pointer frame) :
    ∃ s', fillEntries pointer entry is s = .ok () s' ∧
      Reaches s {frame} (filledMemory s.mem frame entry is) s.allocator s' := by
  induction is generalizing s with
  | nil =>
    refine ⟨s, rfl, ?_, rfl, rfl, [], by simp, by simp⟩
    funext f j
    simp [filledMemory]
  | cons i is ih =>
    obtain ⟨s₁, hwrite, hreach₁⟩ := writeEntry_spec h.resolve i entry
    have hfixed : s₁.Fixed pointer frame := by
      apply h.of_frame hreach₁.cr3
      intro f hf
      rw [hreach₁.mem, set_frame_of_ne _ _ _ hf]
    obtain ⟨s₂, hfill, hreach₂⟩ := ih hfixed
    have hmem : filledMemory s₁.mem frame entry is = filledMemory s.mem frame entry (i :: is) := by
      funext f j
      rw [hreach₁.mem]
      by_cases hf : f = frame
      · by_cases hj : j = i
        · simp [filledMemory, Memory.set, hf, hj]
        · simp [filledMemory, Memory.set, hf, hj]
      · simp [filledMemory, Memory.set, hf]
    rw [hmem, hreach₁.allocator] at hreach₂
    refine ⟨s₂, ?_, hreach₁.trans hreach₂⟩
    rw [fillEntries, bind_ok hwrite, hfill]

/-- Clearing a frame and setting its entry 511 makes it an empty table. -/
theorem emptyTable_eq (mem : Memory) (frame : ℕ) :
    (let mem₁ := filledMemory mem frame .cleared (List.finRange 512)
     let mem₂ := mem₁.set frame 511 ((mem₁ frame 511).withFrame frame)
     mem₂.set frame 511 ((mem₂ frame 511).setFlags .writable)) = emptyTable mem frame := by
  funext f j
  by_cases hf : f = frame
  · subst hf
    by_cases hj : j = 511
    · subst hj
      simp [emptyTable, recursiveSlot, filledMemory, PageEntry.selfEntry]
    · simp [emptyTable, recursiveSlot, Memory.set, filledMemory, hj]
  · simp [emptyTable, Memory.set, filledMemory, hf]

/-- The statements that make a frame an empty table, followed by the rest of the
function they stand in. -/
theorem emptyTable_run {β : Type} {s : Machine α} {pointer frame : ℕ} (h : s.Fixed pointer frame)
    (hframe : frame < 2 ^ 36) (rest : Kernel α β) :
    ∃ s', Reaches s {frame} (emptyTable s.mem frame) s.allocator s' ∧
      (do
        clearAllEntries pointer
        setEntryFrameAddr pointer 511 (frame * 4096)
        setEntryFlags pointer 511 .writable
        rest) s = rest s' := by
  obtain ⟨s₁, hclear, hreach₁⟩ := fillEntries_spec .cleared (List.finRange 512) h
  have h₁ : s₁.Fixed pointer frame := by
    apply h.of_frame hreach₁.cr3
    intro f hf
    funext j
    simp [hreach₁.mem, filledMemory, hf]
  obtain ⟨s₂, haddr, hreach₂⟩ := setEntryFrameAddr_spec h₁.resolve 511 hframe
  have h₂ : s₂.Fixed pointer frame := by
    apply h₁.of_frame hreach₂.cr3
    intro f hf
    rw [hreach₂.mem, set_frame_of_ne _ _ _ hf]
  obtain ⟨s₃, hflags, hreach₃⟩ := setEntryFlags_spec h₂.resolve 511 .writable
  rw [hreach₂.allocator, hreach₁.allocator, hreach₂.mem, hreach₁.mem] at hreach₃
  refine ⟨s₃, ?_, ?_⟩
  · rw [← emptyTable_eq]
    exact (hreach₁.trans hreach₂).trans hreach₃
  · rw [clearAllEntries, bind_ok hclear, bind_ok haddr, bind_ok hflags]

/-- The frame is not read when the processor resolves a pointer along the path. -/
def OffPath (mem : Memory) (cr3 root : ℕ) (path : List Index) (frame : ℕ) : Prop :=
  frame ≠ cr3 ∧ ∀ before after node, path = before ++ after →
    descend (link mem) root before = some node → frame ≠ node

/-- Filling an entry that referred to no table keeps all references to tables. -/
theorem link_set_vacant {mem : Memory} {table : ℕ} {i : Index} (hvacant : link mem table i = none)
    (e : PageEntry) {f child : ℕ} {j : Index} (h : link mem f j = some child) :
    link (mem.set table i e) f j = some child := by
  rw [link, Memory.set_of_ne, ← link, h]
  by_contra hsame
  obtain ⟨rfl, rfl⟩ : f = table ∧ j = i := by simpa [not_or] using hsame
  rw [hvacant] at h
  cases h

/-- References in other frames do not depend on the contents of a frame. -/
theorem link_of_frame {mem mem' : Memory} {f : ℕ} (h : mem' f = mem f) (j : Index) :
    link mem' f j = link mem f j := by
  rw [link, link, h]

/-- A window stays open when entries are only added. -/
theorem Window.mono {mem mem' : Memory} {cr3 root : ℕ} (h : Window mem cr3 root)
    (hmono : ∀ f j child, link mem f j = some child → link mem' f j = some child) :
    Window mem' cr3 root :=
  ⟨hmono _ _ _ h.enters, hmono _ _ _ h.stays⟩

section Create

variable {s : Machine α} {root table : ℕ} {path : List Index} {i : Index}
variable (hwindow : Window s.mem s.cr3 root)
  (htable : descend (link s.mem) root path = some table) (hlen : path.length ≤ 2)
include hwindow htable hlen

/-- The pointer to a table that is linked into a vacant entry is fixed. -/
theorem Window.fixed_of_link {s' : Machine α} {child : ℕ} (hvacant : link s.mem table i = none)
    (hchild : child < 2 ^ 36) (hhuge : (s.mem table i).isHuge = false)
    (hoff : OffPath s.mem s.cr3 root path child) (hcr3 : s'.cr3 = s.cr3)
    (hmem : s'.mem = s.mem.set table i ((s.mem table i).withFrame child)) :
    s'.Fixed (windowPtr (path ++ [i])) child := by
  have hmono : ∀ f j c, link s.mem f j = some c → link s'.mem f j = some c := by
    intro f j c h
    rw [hmem]
    exact link_set_vacant hvacant _ h
  have hlinked : link s'.mem table i = some child := by
    rw [hmem, link, Memory.set_self, PageEntry.child_withFrame hchild hhuge]
  intro s'' hcr3' hmem'
  have hlinked' : link s''.mem table i = some child := by
    have hne := hoff.2 path [] table (List.append_nil path).symm htable
    rw [link_of_frame (hmem' table hne.symm), hlinked]
  have hroot : child ≠ root := hoff.2 [] path root rfl rfl
  have hwindow' : Window s''.mem s''.cr3 root := by
    rw [hcr3', hcr3]
    constructor
    · rw [link_of_frame (hmem' _ hoff.1.symm)]
      exact hmono _ _ _ hwindow.enters
    · rw [link_of_frame (hmem' _ hroot.symm)]
      exact hmono _ _ _ hwindow.stays
  have hpath : descend (link s''.mem) root path = some table := by
    rw [← descend_mono hmono htable]
    apply descend_congr
    intro before j after node hsplit hnode
    apply link_of_frame
    apply hmem'
    have hsome : ∃ node', descend (link s.mem) root before = some node' := by
      rw [hsplit, descend_append] at htable
      obtain ⟨node', hnode', -⟩ := Option.bind_eq_some_iff.mp htable
      exact ⟨node', hnode'⟩
    obtain ⟨node', hnode'⟩ := hsome
    obtain rfl : node' = node := Option.some.inj ((descend_mono hmono hnode').symm.trans hnode)
    exact (hoff.2 before _ node' hsplit hnode').symm
  apply hwindow'.resolve
  · simp only [List.length_append, List.length_singleton]
    omega
  · rw [descend_concat hpath, hlinked']

variable [FrameAllocator α]

/-- `next_level_table_create_mut` on an entry that refers to a table. -/
theorem create_existing {child : ℕ} (hlink : link s.mem table i = some child) :
    ∃ s', nextLevelTableCreateMut (windowPtr path) i s = .ok (some (windowPtr (path ++ [i]))) s' ∧
      Reaches s {table} s.mem s.allocator s' := by
  have hresolve := hwindow.resolve (by omega) htable
  obtain ⟨s₁, hnext₁, hreach₁⟩ := nextLevelTableMut_spec hresolve i
  obtain ⟨s₂, hnext₂, hreach₂⟩ :=
    nextLevelTableMut_spec ((resolve_congr hreach₁.mem hreach₁.cr3 _).trans hresolve) i
  rw [hlink, Option.map_some] at hnext₁
  rw [hreach₁.mem, hlink, Option.map_some] at hnext₂
  rw [hreach₁.mem, hreach₁.allocator] at hreach₂
  refine ⟨s₂, ?_, hreach₁.trans hreach₂⟩
  rw [nextLevelTableCreateMut, bind_ok hnext₁, windowPtr_concat]
  exact hnext₂

/-- The part of `next_level_table_create_mut` before the allocator is asked. -/
theorem create_vacant (hvacant : link s.mem table i = none) :
    ∃ s', Reaches s {table} s.mem s.allocator s' ∧
      nextLevelTableCreateMut (windowPtr path) i s = (do
        match ← allocOne with
        | some frame =>
          let addr ← lift frame.address
          setEntryFrameAddr (windowPtr path) i addr
          match ← nextLevelTableMut (windowPtr path) i with
          | some next =>
            clearAllEntries next
            setEntryFrameAddr next 511 addr
            setEntryFlags next 511 .writable
            return some next
          | none =>
            lift (debugAssert false)
            return none
        | none => return none) s' := by
  have hresolve := hwindow.resolve (by omega) htable
  obtain ⟨s₁, hnext₁, hreach₁⟩ := nextLevelTableMut_spec hresolve i
  rw [hvacant, Option.map_none] at hnext₁
  refine ⟨s₁, hreach₁, ?_⟩
  rw [nextLevelTableCreateMut, bind_ok hnext₁]
  rfl

/-- `next_level_table_create_mut` on a vacant entry when the allocator has no frame. -/
theorem create_exhausted (hvacant : link s.mem table i = none) {a : α}
    (halloc : FrameAllocator.allocOne s.allocator = .ok (none, a)) :
    ∃ s', nextLevelTableCreateMut (windowPtr path) i s = .ok none s' ∧
      Reaches s {table} s.mem a s' ∧
      ∃ events, s'.trace = s.trace ++ events ∧ .alloc none ∈ events := by
  obtain ⟨s₁, hreach₁, hrun⟩ := create_vacant hwindow htable hlen hvacant
  obtain ⟨s₂, halloc₂, hreach₂, htrace₂⟩ := allocOne_spec {table} (hreach₁.allocator ▸ halloc)
  rw [hreach₁.mem] at hreach₂
  obtain ⟨events, htrace₁, -⟩ := hreach₁.events
  refine ⟨s₂, ?_, hreach₁.trans hreach₂, events ++ [.alloc none], ?_, by simp⟩
  · rw [hrun, bind_ok halloc₂]
    rfl
  · rw [htrace₂, htrace₁, List.append_assoc]

/-- `next_level_table_create_mut` on a vacant entry up to the second lookup, which depends on
what the entry refers to with the new frame in it. -/
theorem create_filled (hvacant : link s.mem table i = none) {a : α} {frame : Frame}
    (halloc : FrameAllocator.allocOne s.allocator = .ok (some frame, a))
    (hframe : frame.number < 2 ^ 36) :
    ∃ s', Reaches s {table} (s.mem.set table i ((s.mem table i).withFrame frame.number)) a s' ∧
      nextLevelTableCreateMut (windowPtr path) i s = (do
        match (link s'.mem table i).map fun _ => windowPtr (path ++ [i]) with
        | some next =>
          clearAllEntries next
          setEntryFrameAddr next 511 (frame.number * 4096)
          setEntryFlags next 511 .writable
          return some next
        | none =>
          lift (debugAssert false)
          return none) s' := by
  have hresolve := hwindow.resolve (by omega) htable
  obtain ⟨s₁, hreach₁, hrun⟩ := create_vacant hwindow htable hlen hvacant
  obtain ⟨s₂, halloc₂, hreach₂, -⟩ := allocOne_spec {table} (hreach₁.allocator ▸ halloc)
  rw [hreach₁.mem] at hreach₂
  have hreach₂ := hreach₁.trans hreach₂
  obtain ⟨s₃, haddr, hreach₃⟩ := setEntryFrameAddr_spec
    ((resolve_congr hreach₂.mem hreach₂.cr3 _).trans hresolve) i hframe
  rw [hreach₂.mem, hreach₂.allocator] at hreach₃
  have hreach₃ := hreach₂.trans hreach₃
  have hmono : ∀ f j c, link s.mem f j = some c → link s₃.mem f j = some c := by
    intro f j c h
    rw [hreach₃.mem]
    exact link_set_vacant hvacant _ h
  have hwindow₃ : Window s₃.mem s₃.cr3 root := hreach₃.cr3 ▸ hwindow.mono hmono
  obtain ⟨s₄, hnext, hreach₄⟩ :=
    nextLevelTableMut_spec (hwindow₃.resolve (by omega) (descend_mono hmono htable)) i
  rw [← windowPtr_concat] at hnext
  have hmem₄ : s₄.mem = s₃.mem := hreach₄.mem
  rw [hreach₃.mem, hreach₃.allocator] at hreach₄
  refine ⟨s₄, hreach₃.trans hreach₄, ?_⟩
  rw [hrun, bind_ok halloc₂, hmem₄]
  simp only [bind_ok (lift_ok (Frame.address_eq hframe)), bind_ok haddr, bind_ok hnext]

/-- `next_level_table_create_mut` on a vacant entry links an empty table into it. -/
theorem create_linked (hvacant : link s.mem table i = none)
    (hhuge : (s.mem table i).isHuge = false) {a : α} {frame : Frame}
    (halloc : FrameAllocator.allocOne s.allocator = .ok (some frame, a))
    (hframe : frame.number < 2 ^ 36) (hoff : OffPath s.mem s.cr3 root path frame.number) :
    ∃ s', nextLevelTableCreateMut (windowPtr path) i s = .ok (some (windowPtr (path ++ [i]))) s' ∧
      Reaches s {table, frame.number} (linkTable s.mem table i frame.number) a s' := by
  obtain ⟨s₁, hreach₁, hrun⟩ := create_filled hwindow htable hlen hvacant halloc hframe
  have hlinked : link s₁.mem table i = some frame.number := by
    rw [hreach₁.mem, link, Memory.set_self, PageEntry.child_withFrame hframe hhuge]
  have hfixed := hwindow.fixed_of_link htable hlen hvacant hframe hhuge hoff hreach₁.cr3 hreach₁.mem
  obtain ⟨s₂, hreach₂, hempty⟩ := emptyTable_run hfixed hframe
    (return some (windowPtr (path ++ [i])))
  rw [hreach₁.mem, hreach₁.allocator] at hreach₂
  refine ⟨s₂, ?_, (hreach₁.mono (by simp)).trans (hreach₂.mono (by simp))⟩
  rw [hrun, hlinked]
  exact hempty

/-- `next_level_table_create_mut` fails its assertion when the page-size bit of the entry
is set. -/
theorem create_huge (hhuge : (s.mem table i).isHuge = true) {a : α} {frame : Frame}
    (halloc : FrameAllocator.allocOne s.allocator = .ok (some frame, a))
    (hframe : frame.number < 2 ^ 36) :
    ∃ s', nextLevelTableCreateMut (windowPtr path) i s = .error .debugAssert s' := by
  have hvacant : link s.mem table i = none := by simp [link, PageEntry.child, hhuge]
  obtain ⟨s₁, hreach₁, hrun⟩ := create_filled hwindow htable hlen hvacant halloc hframe
  have hstill : link s₁.mem table i = none := by
    rw [hreach₁.mem, link, Memory.set_self]
    simp [PageEntry.child, hhuge]
  refine ⟨s₁, ?_⟩
  rw [hrun, hstill]
  rfl

end Create

end Axel
