import Axel.Paging.CreateSemantics

/-!
# Searching for free entries

`find_free_entry_index_with` walks over the entries of a table and counts how many
entries in a row are not present. A present entry starts the count again, but it leaves the
index alone, which is only set once. So the search finds out whether there is a run that is
long enough, and returns the first entry that is not present at all, which need not start
such a run.
-/

namespace Axel

open Table

/-- The `count` entries from the entry `i` on lie in the range of the search and are not
present. -/
def FreeRun (entries : Index → PageEntry) (count : ℕ) (i : Index) : Prop :=
  1 ≤ i.val ∧ i.val + count ≤ 512 ∧
    ∀ j : Index, i ≤ j → j.val < i.val + count → (entries j).isPresent = false

/-- The entry `i` is the first entry in the range of the search that is not present. -/
def FirstFree (entries : Index → PageEntry) (i : Index) : Prop :=
  1 ≤ i.val ∧ (entries i).isPresent = false ∧
    ∀ j : Index, 1 ≤ j.val → j < i → (entries j).isPresent = true

/-- The state of the search in front of the entry `k`, in a row of free entries that began
at the entry `start`. -/
structure Scanned (entries : Index → PageEntry) (count k start : ℕ) (index : Option Index)
    (c : ℕ) : Prop where
  /-- The row begins in the range of the search. -/
  bounds : 1 ≤ start ∧ start ≤ k
  /-- The counter holds the number of free entries that are still missing. -/
  counter : 1 ≤ c ∧ c + k = count + start
  /-- The entries of the row are not present. -/
  row : ∀ j : Index, start ≤ j.val → j.val < k → (entries j).isPresent = false
  /-- The row does not extend to the left. -/
  maximal : ∀ i : Index, 1 ≤ i.val → i.val < start →
    ∃ j : Index, i ≤ j ∧ j.val < start ∧ (entries j).isPresent = true
  /-- The index is the first free entry so far. -/
  index_eq : (index = none ∧ ∀ j : Index, 1 ≤ j.val → j.val < k → (entries j).isPresent = true) ∨
    ∃ i : Index, index = some i ∧ FirstFree entries i
  /-- No run ends so far. -/
  noRun : ∀ i, FreeRun entries count i → k < i.val + count

section Scanned

variable {entries : Index → PageEntry} {count start c : ℕ} {k : Index} {index : Option Index}

/-- A present entry starts the count again. -/
theorem Scanned.present (h : Scanned entries count k start index c)
    (hpresent : (entries k).isPresent = true) :
    Scanned entries count (k.val + 1) (k.val + 1) index count := by
  obtain ⟨hstart, hle⟩ := h.bounds
  obtain ⟨hc, hcounter⟩ := h.counter
  refine ⟨⟨by omega, le_rfl⟩, ⟨by omega, rfl⟩, fun j hj hjk => by omega, fun i _ hik => ?_, ?_,
    fun i hrun => ?_⟩
  · exact ⟨k, Fin.le_def.mpr (by omega), by omega, hpresent⟩
  · rcases h.index_eq with ⟨hnone, hall⟩ | hsome
    · refine Or.inl ⟨hnone, fun j hj hjk => ?_⟩
      by_cases hlt : j.val < k.val
      · exact hall j hj hlt
      · obtain rfl : j = k := Fin.ext (by omega)
        exact hpresent
    · exact Or.inr hsome
  · have hlt := h.noRun i hrun
    by_contra hend
    have habsent := hrun.2.2 k (Fin.le_def.mpr (by omega)) (by omega)
    rw [hpresent] at habsent
    cases habsent

/-- The index after an entry that is not present. -/
theorem Scanned.index_absent (h : Scanned entries count k start index c)
    (habsent : (entries k).isPresent = false) :
    ∃ i, (if index.isNone then some k else index) = some i ∧ FirstFree entries i := by
  obtain ⟨hstart, hle⟩ := h.bounds
  rcases h.index_eq with ⟨rfl, hall⟩ | ⟨i, rfl, hfirst⟩
  · exact ⟨k, rfl, by omega, habsent, fun j hj hjk => hall j hj hjk⟩
  · exact ⟨i, rfl, hfirst⟩

/-- The entries of the row so far and one more. -/
theorem Scanned.row_absent (h : Scanned entries count k start index c)
    (habsent : (entries k).isPresent = false) (j : Index) (hj : start ≤ j.val)
    (hjk : j.val < k.val + 1) : (entries j).isPresent = false := by
  by_cases hlt : j.val < k.val
  · exact h.row j hj hlt
  · obtain rfl : j = k := Fin.ext (by omega)
    exact habsent

/-- An entry that is not present extends the row. -/
theorem Scanned.absent (h : Scanned entries count k start index c)
    (habsent : (entries k).isPresent = false) (hc : c ≠ 1) :
    Scanned entries count (k.val + 1) start (if index.isNone then some k else index) (c - 1) := by
  obtain ⟨hstart, hle⟩ := h.bounds
  obtain ⟨hpos, hcounter⟩ := h.counter
  refine ⟨⟨hstart, by omega⟩, ⟨by omega, by omega⟩, h.row_absent habsent, h.maximal,
    Or.inr (h.index_absent habsent), fun i hrun => ?_⟩
  have hlt := h.noRun i hrun
  by_contra hend
  obtain ⟨j, hij, hj, hpresent⟩ := h.maximal i hrun.1 (by omega)
  rw [hrun.2.2 j hij (by omega)] at hpresent
  cases hpresent

/-- The last entry that was missing completes a run. -/
theorem Scanned.complete (h : Scanned entries count k start index 1)
    (habsent : (entries k).isPresent = false) : ∃ i, FreeRun entries count i := by
  obtain ⟨hstart, hle⟩ := h.bounds
  obtain ⟨-, hcounter⟩ := h.counter
  refine ⟨⟨start, by omega⟩, hstart, ?_, fun j hj hjc => ?_⟩
  · simp only
    omega
  · simp only at hjc
    exact h.row_absent habsent j (Fin.le_def.mp hj) (by omega)

end Scanned

/-- What the search returns: the first free entry if there is a run, and `None` otherwise. -/
def SearchResult (entries : Index → PageEntry) (count : ℕ) (result : Option Index) : Prop :=
  (result = none ∧ ∀ i, ¬FreeRun entries count i) ∨
    ∃ i, result = some i ∧ FirstFree entries i ∧ ∃ j, FreeRun entries count j

variable {α : Type} {s : Machine α} {pointer table count : ℕ}

/-- The search over the entries from `k` on. -/
theorem Scanned.findFreeFrom {k start c n : ℕ} {index : Option Index}
    (h : s.resolve pointer = .ok table) (hk : k + n = 512)
    (hscan : Scanned (s.mem table) count k start index c) :
    ∃ result s', findFreeFrom pointer count ((List.finRange 512).drop k) index c s =
        .ok result s' ∧
      SearchResult (s.mem table) count result ∧ Reaches s {table} s.mem s.allocator s' := by
  induction n generalizing s k start index c with
  | zero =>
    obtain rfl : k = 512 := by omega
    have hnil : (List.finRange 512).drop 512 = [] :=
      List.drop_eq_nil_of_le (by rw [List.length_finRange])
    rw [hnil]
    refine ⟨none, s, rfl, Or.inl ⟨rfl, fun i hrun => ?_⟩, rfl, rfl, rfl, [], by simp, by simp⟩
    have hlt := hscan.noRun i hrun
    have hle := hrun.2.1
    omega
  | succ n ih =>
    have hlt : k < (List.finRange 512).length := by
      rw [List.length_finRange]
      omega
    let i : Index := ⟨k, by omega⟩
    have hsplit : (List.finRange 512).drop k = i :: (List.finRange 512).drop (k + 1) := by
      rw [List.drop_eq_getElem_cons hlt, List.getElem_finRange]
      rfl
    obtain ⟨s₁, hread, hreach⟩ := readEntry_spec h i
    have h₁ := (resolve_congr hreach.mem hreach.cr3 pointer).trans h
    have hscan₁ : Scanned (s.mem table) count i.val start index c := hscan
    have hrest : ∀ {start' c' index'}, Scanned (s.mem table) count (k + 1) start' index' c' →
        ∃ result s', Table.findFreeFrom pointer count ((List.finRange 512).drop (k + 1)) index' c'
            s₁ = .ok result s' ∧
          SearchResult (s.mem table) count result ∧ Reaches s {table} s.mem s.allocator s' := by
      intro start' c' index' hnext
      rw [← hreach.mem] at hnext
      obtain ⟨result, s', hrun, hresult, hreach'⟩ := ih h₁ (show k + 1 + n = 512 by omega) hnext
      rw [hreach.mem] at hresult
      rw [hreach.mem, hreach.allocator] at hreach'
      exact ⟨result, s', hrun, hresult, hreach.trans hreach'⟩
    rw [hsplit, Table.findFreeFrom, bind_ok hread]
    cases hpresent : (s.mem table i).isPresent with
    | false =>
      simp only [PageEntry.contains_present, hpresent, beq_self_eq_true, if_true,
        bind_ok (lift_ok (checkedSub_ok hscan.counter.1))]
      by_cases hone : c = 1
      · subst hone
        obtain ⟨first, hindex, hfirst⟩ := hscan₁.index_absent hpresent
        refine ⟨some first, s₁, ?_, Or.inr ⟨first, rfl, hfirst, hscan₁.complete hpresent⟩, hreach⟩
        rw [hindex]
        rfl
      · have hne : (c - 1 == 0) = false := by
          have := hscan.counter.1
          simp
          omega
        simp only [hne, Bool.false_eq_true, if_false]
        exact hrest (hscan₁.absent hpresent hone)
    | true =>
      simp only [PageEntry.contains_present, hpresent, Bool.true_eq_false, beq_iff_eq, if_false]
      exact hrest (hscan₁.present hpresent)

/-- A search only reads. -/
theorem findFreeFrom_returned {is : List Index} {index r : Option Index} {c : ℕ} {s' : Machine α}
    (h : Table.findFreeFrom pointer count is index c s = .ok r s') :
    s'.mem = s.mem ∧ s'.cr3 = s.cr3 ∧ s'.allocator = s.allocator := by
  induction is generalizing s index c with
  | nil =>
    obtain ⟨-, rfl⟩ := EStateM.Result.ok.inj h
    exact ⟨rfl, rfl, rfl⟩
  | cons i is ih =>
    obtain ⟨e, s₁, hread, h⟩ := bind_eq_ok.mp h
    obtain ⟨-, -, -, hmem, hcr3⟩ := readEntry_returned hread
    have hallocator := readEntry_allocator hread
    have hrest : ∀ index c, Table.findFreeFrom pointer count is index c s₁ = .ok r s' →
        s'.mem = s.mem ∧ s'.cr3 = s.cr3 ∧ s'.allocator = s.allocator := by
      intro index c hrun
      obtain ⟨hmem', hcr3', hallocator'⟩ := ih hrun
      exact ⟨hmem'.trans hmem, hcr3'.trans hcr3, hallocator'.trans hallocator⟩
    split at h
    · obtain ⟨c', -, h⟩ := lift_bind_eq_ok.mp h
      split at h
      · obtain ⟨-, rfl⟩ := EStateM.Result.ok.inj h
        exact ⟨hmem, hcr3, hallocator⟩
      · exact hrest _ _ h
    · exact hrest _ _ h

/-- Everything `find_free_entry_index_with` does through a pointer that resolves. -/
theorem findFreeEntryIndexWith_spec (h : s.resolve pointer = .ok table) (hcount : 1 ≤ count) :
    ∃ result s', findFreeEntryIndexWith pointer count s = .ok result s' ∧
      SearchResult (s.mem table) count result ∧ Reaches s {table} s.mem s.allocator s' := by
  have hscan : Scanned (s.mem table) count 1 1 none count := by
    refine ⟨⟨le_rfl, le_rfl⟩, ⟨hcount, rfl⟩, fun j hj hjk => by omega, fun i hi hik => by omega,
      Or.inl ⟨rfl, fun j hj hjk => by omega⟩, fun i hrun => ?_⟩
    have hle := hrun.1
    omega
  rw [findFreeEntryIndexWith, ← List.drop_one]
  exact hscan.findFreeFrom (n := 511) h (by decide)

/-- A table has one first free entry. -/
theorem FirstFree.unique {entries : Index → PageEntry} {i j : Index} (hi : FirstFree entries i)
    (hj : FirstFree entries j) : i = j := by
  rcases lt_trichotomy i j with hlt | heq | hlt
  · have hpresent := hj.2.2 i hi.1 hlt
    rw [hi.2.1] at hpresent
    cases hpresent
  · exact heq
  · have hpresent := hi.2.2 j hj.1 hlt
    rw [hj.2.1] at hpresent
    cases hpresent

/-- A run does not start in front of the first free entry. -/
theorem FreeRun.firstFree_le {entries : Index → PageEntry} {i j : Index}
    (hrun : FreeRun entries count i) (hcount : 1 ≤ count) (hfirst : FirstFree entries j) :
    j ≤ i := by
  by_contra hlt
  have hpresent := hfirst.2.2 i hrun.1 (not_le.mp hlt)
  rw [hrun.2.2 i le_rfl (by omega)] at hpresent
  cases hpresent

/-- The first free entry, as a search in the list of entries. -/
theorem find_eq_some_iff {entries : Index → PageEntry} {i : Index} :
    ((List.finRange 512).tail.find? fun j => !(entries j).isPresent) = some i ↔
      FirstFree entries i := by
  have hget : ∀ n (hn : n < (List.finRange 512).tail.length),
      (List.finRange 512).tail[n] = ⟨n + 1, by simp at hn; omega⟩ := by
    intro n hn
    rw [List.getElem_tail, List.getElem_finRange]
    rfl
  rw [List.find?_eq_some_iff_getElem]
  constructor
  · rintro ⟨habsent, n, hn, hi, hbefore⟩
    rw [hget n hn] at hi
    have hval : i.val = n + 1 := by rw [← hi]
    refine ⟨by omega, by simpa using habsent, fun j hj hji => ?_⟩
    have hlt : j.val < i.val := hji
    have hpresent := hbefore (j.val - 1) (by omega)
    rw [hget] at hpresent
    have hj' : (⟨j.val - 1 + 1, by omega⟩ : Index) = j := Fin.ext (by simp only; omega)
    rw [hj'] at hpresent
    simpa using hpresent
  · rintro ⟨hpos, habsent, hbefore⟩
    have hn : i.val - 1 < (List.finRange 512).tail.length := by
      have hlt := i.isLt
      rw [List.length_tail, List.length_finRange]
      omega
    refine ⟨by simpa using habsent, i.val - 1, hn, ?_, fun j hj => ?_⟩
    · rw [hget]
      exact Fin.ext (by simp only; omega)
    · rw [hget]
      have hpresent := hbefore ⟨j + 1, by omega⟩ (by simp only; omega)
        (Fin.lt_def.mpr (by simp only; omega))
      simpa using hpresent

/-- The search for one entry returns the first one that is not present. -/
theorem findFreeEntryIndex_spec (h : s.resolve pointer = .ok table) :
    ∃ s', findFreeEntryIndex pointer s =
        .ok ((List.finRange 512).tail.find? fun i => !(s.mem table i).isPresent) s' ∧
      Reaches s {table} s.mem s.allocator s' := by
  obtain ⟨result, s', hrun, hresult, hreach⟩ := findFreeEntryIndexWith_spec h (le_refl 1)
  refine ⟨s', ?_, hreach⟩
  rw [findFreeEntryIndex, hrun]
  rcases hresult with ⟨rfl, hnone⟩ | ⟨i, rfl, hfirst, -⟩
  · cases hfind : (List.finRange 512).tail.find? fun i => !(s.mem table i).isPresent with
    | none => rfl
    | some i =>
      obtain ⟨hpos, habsent, -⟩ := find_eq_some_iff.mp hfind
      refine absurd ⟨hpos, by omega, fun j hj hji => ?_⟩ (hnone i)
      have hij := Fin.le_def.mp hj
      obtain rfl : j = i := Fin.ext (by omega)
      exact habsent
  · rw [find_eq_some_iff.mpr hfirst]

/-- A search in a table without entries in front of the recursive slot returns its entry 1,
unless more entries are asked for than there are. -/
theorem findFree_empty (h : s.resolve pointer = .ok table) (hcount : 1 ≤ count)
    (hempty : ∀ i, i ≠ recursiveSlot → (s.mem table i).isPresent = false)
    (hslot : (s.mem table recursiveSlot).isPresent = true) :
    ∃ s', findFreeEntryIndexWith pointer count s =
        .ok (if count ≤ 510 then some 1 else none) s' ∧
      Reaches s {table} s.mem s.allocator s' := by
  obtain ⟨result, s', hrun, hresult, hreach⟩ := findFreeEntryIndexWith_spec h hcount
  have hone : FirstFree (s.mem table) 1 := by
    refine ⟨by decide, hempty 1 (by decide), fun j hj hlt => ?_⟩
    have hlt' := Fin.lt_def.mp hlt
    rw [Fin.val_one] at hlt'
    omega
  refine ⟨s', ?_, hreach⟩
  rw [hrun]
  by_cases hle : count ≤ 510
  · have hfree : FreeRun (s.mem table) count 1 := by
      refine ⟨by decide, by rw [Fin.val_one]; omega, fun j _ hj => hempty j ?_⟩
      rintro rfl
      have hval : (recursiveSlot : Index).val = 511 := rfl
      rw [Fin.val_one] at hj
      omega
    rw [if_pos hle]
    rcases hresult with ⟨-, hnone⟩ | ⟨i, rfl, hfirst, -⟩
    · exact absurd hfree (hnone 1)
    · rw [hfirst.unique hone]
  · rw [if_neg hle]
    rcases hresult with ⟨rfl, -⟩ | ⟨-, -, -, i, hpos, hend, hall⟩
    · rfl
    · have hval : (recursiveSlot : Index).val = 511 := rfl
      have habsent := hall recursiveSlot (Fin.le_def.mpr (by omega)) (by omega)
      rw [hslot] at habsent
      cases habsent

/-- The entry `i` starts the first run. -/
def FirstRun (entries : Index → PageEntry) (count : ℕ) (i : Index) : Prop :=
  FreeRun entries count i ∧ ∀ j < i, ¬FreeRun entries count j

/-- The search finds a run whenever there is one, and it returns the start of the first run
exactly when the first free entry starts one or there is none. -/
theorem findFree_firstRun_iff (h : s.resolve pointer = .ok table) (hcount : 1 ≤ count) :
    ∃ result s', findFreeEntryIndexWith pointer count s = .ok result s' ∧ s'.mem = s.mem ∧
      (result.isSome ↔ ∃ i, FreeRun (s.mem table) count i) ∧
      ((∀ i, result = some i ↔ FirstRun (s.mem table) count i) ↔
        ((∃ i, FreeRun (s.mem table) count i) →
          ∃ i, FirstFree (s.mem table) i ∧ FreeRun (s.mem table) count i)) := by
  obtain ⟨result, s', hrun, hresult, hreach⟩ := findFreeEntryIndexWith_spec h hcount
  refine ⟨result, s', hrun, hreach.mem, ?_⟩
  rcases hresult with ⟨rfl, hnone⟩ | ⟨first, rfl, hfirst, hexists⟩
  · refine ⟨by simpa using hnone, ?_⟩
    constructor
    · rintro - ⟨i, hi⟩
      exact absurd hi (hnone i)
    · intro _ i
      exact ⟨nofun, fun hi => absurd hi.1 (hnone i)⟩
  · refine ⟨⟨fun _ => hexists, fun _ => rfl⟩, ?_⟩
    constructor
    · intro hall _
      exact ⟨first, hfirst, ((hall first).mp rfl).1⟩
    · intro hstarts i
      obtain ⟨j, hj, hfree⟩ := hstarts hexists
      obtain rfl := hj.unique hfirst
      have hleast : ∀ k, FreeRun (s.mem table) count k → j ≤ k := fun k hk =>
        hk.firstFree_le hcount hfirst
      constructor
      · intro hi
        obtain rfl := Option.some.inj hi
        exact ⟨hfree, fun k hk hrun => absurd (hleast k hrun) (not_le.mpr hk)⟩
      · rintro ⟨hi, hbefore⟩
        rcases lt_or_eq_of_le (hleast i hi) with hlt | rfl
        · exact absurd hfree (hbefore j hlt)
        · rfl

/-- A level-4 table in which the entry 1 is free, the entry 2 is present and the entries from
3 on are free again. -/
def interruptedMachine : Machine Unit :=
  ⟨fun frame i =>
    if frame = 0 ∧ (i = 2 ∨ i = recursiveSlot) then .selfEntry 0 else .cleared, 0, (), []⟩

theorem interruptedMachine_resolve : interruptedMachine.resolve level4PageTable = .ok 0 := by
  decide +kernel

/-- A search for one entry in the interrupted table. -/
theorem findFree_firstRun_iff_one :
    ∃ result s', findFreeEntryIndexWith level4PageTable 1 interruptedMachine = .ok result s' ∧
      s'.mem = interruptedMachine.mem ∧
      (result.isSome ↔ ∃ i, FreeRun (interruptedMachine.mem 0) 1 i) ∧
      ((∀ i, result = some i ↔ FirstRun (interruptedMachine.mem 0) 1 i) ↔
        ((∃ i, FreeRun (interruptedMachine.mem 0) 1 i) →
          ∃ i, FirstFree (interruptedMachine.mem 0) i ∧ FreeRun (interruptedMachine.mem 0) 1 i)) :=
  findFree_firstRun_iff interruptedMachine_resolve le_rfl

/-- A search for two entries in the interrupted table returns the entry 1, and the entry 2
is present. -/
theorem not_findFree_firstRun :
    ¬∀ (s : Machine Unit) (pointer table count : ℕ), s.resolve pointer = .ok table → 1 ≤ count →
      ∃ result s', findFreeEntryIndexWith pointer count s = .ok result s' ∧
        ∀ i, result = some i ↔ FirstRun (s.mem table) count i := by
  intro h
  obtain ⟨result, s', hrun, hall⟩ :=
    h interruptedMachine level4PageTable 0 2 interruptedMachine_resolve (by decide)
  obtain ⟨result', s'', hrun', hresult, -⟩ :=
    findFreeEntryIndexWith_spec interruptedMachine_resolve (show 1 ≤ 2 by decide)
  rw [hrun] at hrun'
  cases hrun'
  have hpresent : (interruptedMachine.mem 0 2).isPresent = true := by decide +kernel
  have hone : FirstFree (interruptedMachine.mem 0) 1 := by
    refine ⟨by decide, by decide +kernel, fun j hj hlt => ?_⟩
    have hlt' := Fin.lt_def.mp hlt
    rw [Fin.val_one] at hlt'
    omega
  have hthree : FreeRun (interruptedMachine.mem 0) 2 3 := by
    refine ⟨by decide, by decide, ?_⟩
    decide +kernel
  rcases hresult with ⟨-, hnone⟩ | ⟨i, rfl, hfirst, -⟩
  · exact hnone 3 hthree
  · obtain rfl := hfirst.unique hone
    have hfree := ((hall 1).mp rfl).1.2.2 2 (by decide) (by decide)
    rw [hpresent] at hfree
    cases hfree

end Axel
