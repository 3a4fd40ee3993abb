import Axel.Memory.Frame
import Axel.Paging.Entry
import Axel.Paging.Page
import Axel.Lib.Descent

/-!
# The memory management unit

Physical memory is modelled as frames of 512 entries, and a pointer to a table is
translated by the four-level walk from the frame in CR3 each time an entry is read or
written. Supervisor accesses ignore the writable flag, and no translation is cached.
Every pointer to a table in the source is a multiple of the page size, so an access
names the table and the index of an entry.

The events record what a run did: the entries that were accessed, with the frame that
the walk resolved to, and the calls of the frame allocator. No modelled function reads
them.
-/

namespace Axel

/-- Physical memory: the entries of each frame. -/
abbrev Memory := ℕ → Index → PageEntry

/-- The frame of a 4 KB page inside a huge page: the huge page starts at a multiple of
its size, and the remaining indices count the pages in it. -/
def hugeFrame (frame : ℕ) (rest : List Index) : ℕ :=
  frame / 512 ^ rest.length * 512 ^ rest.length + digits rest

/-- The page walk from a table along the remaining indices of a page. The page-size bit
is reserved at level 4, selects a huge page at the levels 3 and 2, and has another
meaning at level 1. -/
def walk (mem : Memory) : ℕ → List Index → Option ℕ
  | _, [] => none
  | table, [i] => if (mem table i).isPresent then some (mem table i).frame else none
  | table, i :: rest =>
    if !(mem table i).isPresent then none
    else if (mem table i).isHuge then
      if rest.length < 3 then some (hugeFrame (mem table i).frame rest) else none
    else walk mem (mem table i).frame rest

/-- The bits 47 to 63 of an address are equal. -/
def Canonical (addr : ℕ) : Prop := addr < 2 ^ 47 ∨ 2 ^ 64 - 2 ^ 47 ≤ addr

instance (addr : ℕ) : Decidable (Canonical addr) :=
  inferInstanceAs (Decidable (addr < 2 ^ 47 ∨ 2 ^ 64 - 2 ^ 47 ≤ addr))

/-- The successor of a table at an index, in the graph of tables. -/
def link (mem : Memory) (table : ℕ) (i : Index) : Option ℕ := (mem table i).child

/-- What a run does to the world outside the processor. -/
inductive Event where
  /-- The entry `i` of the table at the address `table` was read in `frame`. -/
  | read (table frame : ℕ) (i : Index)
  /-- The entry `i` of the table at the address `table` was written in `frame`. -/
  | write (table frame : ℕ) (i : Index)
  /-- The allocator was asked for a frame and returned the result. -/
  | alloc (result : Option Frame)
  /-- A frame was passed to the allocator. -/
  | free (frame : Frame)
  deriving DecidableEq

/-- The state of the machine that the page-table code runs on. -/
structure Machine (α : Type) where
  /-- Physical memory. -/
  mem : Memory
  /-- The number of the frame in CR3. -/
  cr3 : ℕ
  /-- The frame allocator. -/
  allocator : α
  /-- The events so far. -/
  trace : List Event

/-- Code that runs on the machine. A fault keeps the state in which it was raised. -/
abbrev Kernel (α β : Type) := EStateM Fault (Machine α) β

variable {α β γ : Type}

/-- Run a computation that does not touch the machine. -/
def lift (x : Except Fault β) : Kernel α β := fun s =>
  match x with
  | .ok b => .ok b s
  | .error fault => .error fault s

/-- The frame that the page of an address resolves to. -/
def Machine.resolve (s : Machine α) (addr : ℕ) : Except Fault ℕ :=
  if Canonical addr then
    match walk s.mem s.cr3 (indices addr) with
    | some frame => .ok frame
    | none => .error (.pageFault addr)
  else .error (.generalProtection addr)

/-- Physical memory after one entry was replaced. -/
def Memory.set (mem : Memory) (frame : ℕ) (i : Index) (e : PageEntry) : Memory :=
  fun f j => if f = frame ∧ j = i then e else mem f j

/-- Read the entry `i` of the table at an address. -/
def readEntry (table : ℕ) (i : Index) : Kernel α PageEntry := fun s =>
  match s.resolve table with
  | .ok frame => .ok (s.mem frame i) { s with trace := s.trace ++ [.read table frame i] }
  | .error fault => .error fault s

/-- Write the entry `i` of the table at an address. -/
def writeEntry (table : ℕ) (i : Index) (e : PageEntry) : Kernel α Unit := fun s =>
  match s.resolve table with
  | .ok frame =>
    .ok () { s with mem := s.mem.set frame i e, trace := s.trace ++ [.write table frame i] }
  | .error fault => .error fault s

/-- `allocator.alloc_one()`. -/
def allocOne [FrameAllocator α] : Kernel α (Option Frame) := fun s =>
  match FrameAllocator.allocOne s.allocator with
  | .ok (result, allocator) =>
    .ok result { s with allocator, trace := s.trace ++ [.alloc result] }
  | .error fault => .error fault s

/-- `allocator.free(frame)`. -/
def freeFrame [FrameAllocator α] (frame : Frame) : Kernel α Unit := fun s =>
  match FrameAllocator.free s.allocator frame with
  | .ok allocator => .ok () { s with allocator, trace := s.trace ++ [.free frame] }
  | .error fault => .error fault s

/-- `registers::control::Cr3::read`, as the address of the frame. -/
def readCr3 : Kernel α ℕ := fun s => .ok (s.cr3 * frameSize) s

/-- `registers::control::Cr3::write` with the frame that contains an address. -/
def writeCr3 (addr : ℕ) : Kernel α Unit := fun s =>
  .ok () { s with cr3 := addr / frameSize }

section Walk

open Descent

variable {mem mem' : Memory} {root table child : ℕ} {i : Index} {path rest : List Index}

/-- An entry that is not present ends the walk. -/
theorem walk_absent (h : (mem table i).isPresent = false) : walk mem table (i :: rest) = none := by
  cases rest with
  | nil => simp [walk, h]
  | cons => simp [walk, h]

/-- The last step of a walk reads the frame of the entry. -/
theorem walk_singleton :
    walk mem table [i] =
      if (mem table i).isPresent then some (mem table i).frame else none := rfl

/-- A walk follows an entry that refers to a table. -/
theorem walk_cons (hlink : link mem table i = some child) (hrest : rest ≠ []) :
    walk mem table (i :: rest) = walk mem child rest := by
  obtain ⟨hpresent, hhuge, hframe⟩ := PageEntry.child_eq_some.mp hlink
  cases rest with
  | nil => exact absurd rfl hrest
  | cons => simp [walk, hpresent, hhuge, hframe]

/-- A walk follows the tables along a path. -/
theorem walk_append (h : descend (link mem) root path = some table) (hrest : rest ≠ []) :
    walk mem root (path ++ rest) = walk mem table rest := by
  induction path generalizing root with
  | nil => rw [List.nil_append, Option.some.inj h]
  | cons i path ih =>
    obtain ⟨child, hlink, hchild⟩ := Option.bind_eq_some_iff.mp h
    rw [List.cons_append, walk_cons hlink (by simp [hrest]), ih hchild]

/-- A page whose four indices lead along tables translates to the last one. -/
theorem walk_of_descend (h : descend (link mem) root path = some table) (hpath : path ≠ []) :
    walk mem root path = some table := by
  obtain ⟨front, i, rfl⟩ : ∃ front i, path = front ++ [i] :=
    ⟨path.dropLast, path.getLast hpath, (List.dropLast_append_getLast hpath).symm⟩
  rw [descend_append] at h
  obtain ⟨last, hlast, hlink⟩ := Option.bind_eq_some_iff.mp h
  rw [descend_singleton] at hlink
  obtain ⟨hpresent, -, hframe⟩ := PageEntry.child_eq_some.mp hlink
  rw [walk_append hlast (by simp), walk_singleton, hpresent, hframe]
  rfl

/-- The walk only depends on the entries that it reads. -/
theorem walk_congr
    (h : ∀ before i after table, path = before ++ i :: after →
      descend (link mem) root before = some table → mem' table i = mem table i) :
    walk mem' root path = walk mem root path := by
  induction path generalizing root with
  | nil => rfl
  | cons i rest ih =>
    have hfirst : mem' root i = mem root i := h [] i rest root rfl rfl
    cases hrest : rest with
    | nil => rw [walk_singleton, walk_singleton, hfirst]
    | cons j rest' =>
      rw [← hrest]
      have hstep : ∀ child, link mem root i = some child →
          walk mem' child rest = walk mem child rest := by
        intro child hlink
        apply ih
        intro before k after table hpath htable
        apply h (i :: before) k after table
        · rw [hpath, List.cons_append]
        · rw [descend, hlink, Option.bind_some, htable]
      cases hlink : link mem root i with
      | some child =>
        have hlink' : link mem' root i = some child := by
          rw [← hlink, link, link, hfirst]
        rw [walk_cons hlink (by simp [hrest]), walk_cons hlink' (by simp [hrest]),
          hstep child hlink]
      | none =>
        subst hrest
        cases hpresent : (mem root i).isPresent with
        | false => rw [walk_absent hpresent, walk_absent (hfirst ▸ hpresent)]
        | true =>
          have hhuge : (mem root i).isHuge = true := by
            simpa [link, PageEntry.child, hpresent] using hlink
          simp [walk, hfirst, hpresent, hhuge]

end Walk

section Run

variable {s s' : Machine α}

/-- Running one computation after another that returned. -/
theorem bind_ok {x : Kernel α β} {f : β → Kernel α γ} {b : β} (h : x s = .ok b s') :
    (x >>= f) s = f b s' := by
  simp only [bind, EStateM.bind, h]

/-- Running one computation after another that faulted. -/
theorem bind_error {x : Kernel α β} {f : β → Kernel α γ} {fault : Fault}
    (h : x s = .error fault s') : (x >>= f) s = .error fault s' := by
  simp only [bind, EStateM.bind, h]

/-- A sequence of two computations returns exactly when both do. -/
theorem bind_eq_ok {x : Kernel α β} {f : β → Kernel α γ} {c : γ} :
    (x >>= f) s = .ok c s' ↔ ∃ b s₁, x s = .ok b s₁ ∧ f b s₁ = .ok c s' := by
  simp only [bind, EStateM.bind]
  cases x s with
  | ok b s₁ => simp
  | error fault s₁ => simp

/-- A computation that does not touch the machine returns exactly when it has a value. -/
theorem lift_eq_ok {x : Except Fault β} {b : β} :
    (lift x : Kernel α β) s = .ok b s' ↔ x = .ok b ∧ s = s' := by
  cases x with
  | ok b' => simp [lift]
  | error fault => simp [lift]

/-- A sequence that starts with such a computation returns exactly when it has a value and the
rest returns. -/
theorem lift_bind_eq_ok {x : Except Fault β} {f : β → Kernel α γ} {c : γ} :
    (lift x >>= f) s = .ok c s' ↔ ∃ b, x = .ok b ∧ f b s = .ok c s' := by
  rw [bind_eq_ok]
  constructor
  · rintro ⟨b, s₁, hlift, hf⟩
    obtain ⟨hx, rfl⟩ := lift_eq_ok.mp hlift
    exact ⟨b, hx, hf⟩
  · rintro ⟨b, hx, hf⟩
    exact ⟨b, s, lift_eq_ok.mpr ⟨hx, rfl⟩, hf⟩

/-- Returning a value keeps the state. -/
@[simp] theorem pure_run (b : β) : (pure b : Kernel α β) s = .ok b s := rfl

/-- A computation that does not touch the machine and returns keeps the state. -/
theorem lift_ok {x : Except Fault β} {b : β} (h : x = .ok b) :
    (lift x : Kernel α β) s = .ok b s := by
  subst h
  rfl

/-- A mapped canonical address resolves to the frame of the walk. -/
theorem resolve_ok {addr frame : ℕ} (hcanonical : Canonical addr)
    (hwalk : walk s.mem s.cr3 (indices addr) = some frame) : s.resolve addr = .ok frame := by
  rw [Machine.resolve, if_pos hcanonical, hwalk]

/-- Reading through a pointer that resolves. -/
theorem readEntry_ok {table frame : ℕ} (h : s.resolve table = .ok frame) (i : Index) :
    readEntry table i s =
      .ok (s.mem frame i) { s with trace := s.trace ++ [.read table frame i] } := by
  rw [readEntry, h]

/-- Writing through a pointer that resolves. -/
theorem writeEntry_ok {table frame : ℕ} (h : s.resolve table = .ok frame) (i : Index)
    (e : PageEntry) :
    writeEntry table i e s =
      .ok () { s with mem := s.mem.set frame i e, trace := s.trace ++ [.write table frame i] } := by
  rw [writeEntry, h]

/-- Reading an entry only returns when the pointer resolves. -/
theorem readEntry_returned {pointer : ℕ} {i : Index} {e : PageEntry}
    (h : readEntry pointer i s = .ok e s') :
    ∃ frame, s.resolve pointer = .ok frame ∧ e = s.mem frame i ∧ s'.mem = s.mem ∧
      s'.cr3 = s.cr3 := by
  unfold readEntry at h
  split at h
  case h_1 frame hresolve =>
    obtain ⟨rfl, rfl⟩ := EStateM.Result.ok.inj h
    exact ⟨frame, hresolve, rfl, rfl, rfl⟩
  case h_2 => cases h

/-- Reading an entry keeps the allocator. -/
theorem readEntry_allocator {pointer : ℕ} {i : Index} {e : PageEntry}
    (h : readEntry pointer i s = .ok e s') : s'.allocator = s.allocator := by
  unfold readEntry at h
  split at h
  case h_1 =>
    obtain ⟨-, rfl⟩ := EStateM.Result.ok.inj h
    rfl
  case h_2 => cases h

/-- Writing an entry only returns when the pointer resolves. -/
theorem writeEntry_returned {pointer : ℕ} {i : Index} {e : PageEntry} {u : Unit}
    (h : writeEntry pointer i e s = .ok u s') :
    ∃ frame, s.resolve pointer = .ok frame ∧ s'.mem = s.mem.set frame i e ∧ s'.cr3 = s.cr3 := by
  unfold writeEntry at h
  split at h
  case h_1 frame hresolve =>
    obtain ⟨-, rfl⟩ := EStateM.Result.ok.inj h
    exact ⟨frame, hresolve, rfl, rfl⟩
  case h_2 => cases h

/-- The entry that was written. -/
@[simp] theorem Memory.set_self (mem : Memory) (frame : ℕ) (i : Index) (e : PageEntry) :
    mem.set frame i e frame i = e :=
  if_pos ⟨rfl, rfl⟩

/-- An entry of another frame or another index. -/
theorem Memory.set_of_ne (mem : Memory) {frame f : ℕ} {i j : Index} (e : PageEntry)
    (h : f ≠ frame ∨ j ≠ i) : mem.set frame i e f j = mem f j :=
  if_neg (by rcases h with h | h <;> simp [h])

/-- The second of two writes to an entry counts. -/
theorem Memory.set_set (mem : Memory) (frame : ℕ) (i : Index) (e e' : PageEntry) :
    (mem.set frame i e).set frame i e' = mem.set frame i e' := by
  funext f j
  by_cases hsame : f = frame ∧ j = i
  · obtain ⟨rfl, rfl⟩ := hsame
    rw [Memory.set_self, Memory.set_self]
  · rw [Memory.set_of_ne _ _ (not_and_or.mp hsame), Memory.set_of_ne _ _ (not_and_or.mp hsame),
      Memory.set_of_ne _ _ (not_and_or.mp hsame)]

/-- Writing what an entry holds changes nothing. -/
theorem Memory.set_eq_self {mem : Memory} {frame : ℕ} {i : Index} {e : PageEntry}
    (h : mem frame i = e) : mem.set frame i e = mem := by
  funext f j
  by_cases hsame : f = frame ∧ j = i
  · obtain ⟨rfl, rfl⟩ := hsame
    rw [Memory.set_self, h]
  · rw [Memory.set_of_ne _ _ (not_and_or.mp hsame)]

end Run

end Axel
