import Axel.Paging.Mmu

/-!
# Page tables

The functions of `paging::table`. A reference to a table is the address it is
reached at: the level-4 table is reached at the last page of the address space, and
the address of a table of the next level is computed from the address of its parent.
The levels of the source only fix which functions a table has, so one definition
serves all of them.
-/

namespace Axel

variable {α β γ : Type}

/-- `LEVEL4_PAGE_TABLE`. -/
def level4PageTable : ℕ := 0xfffffffffffff000

/-- The pointer that `next_level_table_address` computes. The shift drops the bits that
leave the word. -/
def nextAddress (table : ℕ) (index : Index) : ℕ :=
  ((table <<< 9) % usizeCount) ||| (index.val <<< 12)

/-- `Option::and_then` with a closure that runs on the machine. -/
def andThen (x : Option β) (f : β → Kernel α (Option γ)) : Kernel α (Option γ) :=
  match x with
  | some b => f b
  | none => return none

namespace Table

/-- `table[index].set_frame_addr(addr)`. -/
def setEntryFrameAddr (table : ℕ) (index : Index) (addr : ℕ) : Kernel α Unit := do
  let entry ← readEntry table index
  let entry ← lift (entry.setFrameAddr addr)
  writeEntry table index entry

/-- `table[index].set_flags(flags)`. -/
def setEntryFlags (table : ℕ) (index : Index) (flags : PageEntryFlags) : Kernel α Unit := do
  let entry ← readEntry table index
  writeEntry table index (entry.setFlags flags)

/-- A loop that writes one word to the remaining entries. -/
def fillEntries (table : ℕ) (entry : PageEntry) : List Index → Kernel α Unit
  | [] => return ()
  | i :: rest => do
    writeEntry table i entry
    fillEntries table entry rest

/-- `Table::clear_all_entries`. -/
def clearAllEntries (table : ℕ) : Kernel α Unit := fillEntries table .cleared (List.finRange 512)

/-- The loop of `Table::find_free_entry_index_with` over the remaining entries. -/
def findFreeFrom (table count : ℕ) : List Index → Option Index → ℕ → Kernel α (Option Index)
  | [], _, _ => return none
  | i :: rest, index, c => do
    let entry ← readEntry table i
    if entry.flags.contains .present == false then
      let index := if index.isNone then some i else index
      let c ← lift (checkedSub c 1)
      if c == 0 then return index else findFreeFrom table count rest index c
    else findFreeFrom table count rest index count

/-- `Table::find_free_entry_index_with`. The loop starts at the entry 1. -/
def findFreeEntryIndexWith (table count : ℕ) : Kernel α (Option Index) :=
  findFreeFrom table count (List.finRange 512).tail none count

/-- `Table::find_free_entry_index`. -/
def findFreeEntryIndex (table : ℕ) : Kernel α (Option Index) := findFreeEntryIndexWith table 1

/-- `Table::next_level_table_address`. -/
def nextLevelTableAddress (table : ℕ) (index : Index) : Kernel α (Option ℕ) := do
  let entry ← readEntry table index
  let flags := entry.flags
  if flags.contains .present && !flags.contains .hugePage then
    return some (nextAddress table index)
  else return none

/-- `Table::next_level_table_mut`: the same pointer as a reference. -/
def nextLevelTableMut (table : ℕ) (index : Index) : Kernel α (Option ℕ) :=
  nextLevelTableAddress table index

/-- `Table::next_level_table_create_mut`. -/
def nextLevelTableCreateMut [FrameAllocator α] (table : ℕ) (index : Index) :
    Kernel α (Option ℕ) := do
  if (← nextLevelTableMut table index).isSome then nextLevelTableMut table index
  else
    match ← allocOne with
    | some frame =>
      let addr ← lift frame.address
      setEntryFrameAddr table index addr
      match ← nextLevelTableMut table index with
      | some next =>
        clearAllEntries next
        setEntryFrameAddr next 511 addr
        setEntryFlags next 511 .writable
        return some next
      | none =>
        lift (debugAssert false)
        return none
    | none => return none

end Table

namespace ActivePageTable

open Table

variable [FrameAllocator α]

/-- `ActivePageTable::map`. -/
def map (page : Page) (frame : Frame) : Kernel α (Except TableError Unit) := do
  let pageAddr ← lift page.address
  let frameAddr ← lift frame.address
  let table ← nextLevelTableCreateMut level4PageTable (level4Index pageAddr)
  let table ← andThen table fun t => nextLevelTableCreateMut t (level3Index pageAddr)
  let table ← andThen table fun t => nextLevelTableCreateMut t (level2Index pageAddr)
  match table with
  | some table =>
    let entry ← readEntry table (level1Index pageAddr)
    if entry.flags.contains .present == false then
      setEntryFrameAddr table (level1Index pageAddr) frameAddr
      return .ok ()
    else return .error .alreadyMapped
  | none => return .error .noPageTable

/-- The loop of `ActivePageTable::map_fitting` over the remaining pages. -/
def mapFittingFrom (vBegin pBegin : ℕ) : ℕ → ℕ → Kernel α (Except TableError Unit)
  | 0, _ => return .ok ()
  | remaining + 1, offset => do
    let page := Page.fromAddress (← lift (checkedAdd vBegin offset))
    let frame := Frame.fromAddress (← lift (checkedAdd pBegin offset))
    match ← map page frame with
    | .ok () =>
      let offset ← lift (checkedAdd offset 4096)
      mapFittingFrom vBegin pBegin remaining offset
    | .error error => return .error error

/-- `ActivePageTable::map_fitting`. -/
def mapFitting (vRange pRange : ℕ × ℕ) : Kernel α (Except TableError Unit) := do
  let (vBegin, vEnd) := vRange
  let (pBegin, pEnd) := pRange
  let size ← lift (checkedSub vEnd vBegin)
  let pSize ← lift (checkedSub pEnd pBegin)
  lift (debugAssert (size == pSize))
  let count2mb := size / (2 * 1024 * 1024)
  let count4kb := (size - count2mb * 2 * 1024 * 1024) / 4096
  if 0 < count2mb then lift (.error .panic)
  else mapFittingFrom vBegin pBegin count4kb 0

/-- `ActivePageTable::unmap`. -/
def unmap (page : Page) : Kernel α (Except TableError Unit) := do
  let addr ← lift page.address
  let table ← nextLevelTableMut level4PageTable (level4Index addr)
  let table ← andThen table fun t => nextLevelTableMut t (level3Index addr)
  let table ← andThen table fun t => nextLevelTableMut t (level2Index addr)
  match table with
  | some table =>
    let entry ← readEntry table (level1Index addr)
    match entry.getFrameAddr with
    | some frameAddr =>
      freeFrame (Frame.fromAddress frameAddr)
      writeEntry table (level1Index addr) .cleared
      return .ok ()
    | none => return .error .noEntry
  | none => return .error .noEntry

/-- `ActivePageTable::find_empty_pages`. -/
def findEmptyPages (count : ℕ) : Kernel α (Option Page) := do
  andThen (← findFreeEntryIndex level4PageTable) fun i4 => do
  andThen (← nextLevelTableCreateMut level4PageTable i4) fun table => do
  andThen (← findFreeEntryIndex table) fun i3 => do
  andThen (← nextLevelTableCreateMut table i3) fun table => do
  andThen (← findFreeEntryIndex table) fun i2 => do
  andThen (← nextLevelTableCreateMut table i2) fun table => do
  andThen (← findFreeEntryIndexWith table count) fun i1 => do
  return some (Page.fromNumber
    (i4.val * 512 * 512 * 512 + i3.val * 512 * 512 + i2.val * 512 + i1.val))

/-- `ActivePageTable::find_empty_page`. -/
def findEmptyPage : Kernel α (Option Page) := findEmptyPages 1

/-- The loop of `ActivePageTable::auto_continuous_map` over the remaining frames. -/
def continuousMapFrom (frameAddr pageAddr : ℕ) : List ℕ → Kernel α Unit
  | [] => return ()
  | i :: rest => do
    let offset ← lift (checkedMul i frameSize)
    let frame := Frame.fromAddress (← lift (checkedAdd frameAddr offset))
    let page := Page.fromAddress (← lift (checkedAdd pageAddr offset))
    match ← map page frame with
    | .ok () => continuousMapFrom frameAddr pageAddr rest
    | .error _ => lift (.error .panic)

/-- `ActivePageTable::auto_continuous_map`. A shift by the word size or more is an
overflow. -/
def autoContinuousMap (frame : Frame) : Kernel α (Option (ℕ × ℕ)) := do
  let frameCount ← lift (if frame.order < 64 then .ok (1 <<< frame.order) else .error .overflow)
  let size ← lift (checkedMul frameCount frameSize)
  andThen (← findEmptyPages frameCount) fun page => do
  let frameAddr ← lift frame.address
  let pageAddr ← lift page.address
  continuousMapFrom frameAddr pageAddr (List.range frameCount)
  return some (pageAddr, ← lift (checkedAdd pageAddr size))

end ActivePageTable

open Table ActivePageTable

variable [FrameAllocator α]

/-- `InActivePageTable`. -/
structure InActivePageTable where
  /-- The frame of the level-4 table. -/
  level4PageTable : Frame

/-- `InActivePageTable::new`. -/
def InActivePageTable.new : Kernel α (Option InActivePageTable) := do
  andThen (← allocOne) fun frame => do
  match ← findEmptyPage with
  | none => lift (.error .panic)
  | some p =>
    match ← map p frame with
    | .error _ => lift (.error .panic)
    | .ok () =>
      let table ← lift p.address
      clearAllEntries table
      setEntryFrameAddr table 511 (← lift frame.address)
      setEntryFlags table 511 .writable
      return some ⟨frame⟩

/-- `ActivePageTable::with`. -/
def ActivePageTable.withTable (inactive : InActivePageTable)
    (f : Kernel α (Except TableError Unit)) : Kernel α (Except TableError Unit) := do
  let addr ← readCr3
  let originalTableFrame := Frame.fromAddress addr
  match ← findEmptyPage with
  | none => return .error .noEntry
  | some page =>
    match ← map page originalTableFrame with
    | .error error => return .error error
    | .ok () =>
      let originalTable ← lift page.address
      setEntryFrameAddr level4PageTable 511 (← lift inactive.level4PageTable.address)
      setEntryFlags level4PageTable 511 .writable
      let result ← f
      setEntryFrameAddr originalTable 511 addr
      setEntryFlags originalTable 511 .writable
      return result

/-- `ActivePageTable::switch`. `PhysAddr::new` panics on an address of more than 52
bits. -/
def ActivePageTable.switch (newTable : InActivePageTable) : Kernel α InActivePageTable := do
  let oldTable := InActivePageTable.mk (Frame.fromAddress (← readCr3))
  let addr ← lift newTable.level4PageTable.address
  if addr < 2 ^ 52 then
    writeCr3 addr
    return oldTable
  else lift (.error .panic)

end Axel
