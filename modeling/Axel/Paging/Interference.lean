import Axel.Paging.Refinement

/-!
# Interference between pages

Every table that `next_level_table_create_mut` makes gets an entry 511 for itself, at
every level. A page with the index 511 below level 4 therefore shares its entry with other
pages, and a new table makes such pages appear. This file determines when a call of
`map` changes the translation of its own page only.
-/

namespace Axel

open Descent Table ActivePageTable

variable {α : Type}

/-- The page is translated to the frame, and every other page outside the recursive slot
of level 4 is translated as before. -/
def Isolated (page : Page) (frame : Frame) (s s' : Machine α) : Prop :=
  walk s'.mem s'.cr3 page.indices = some frame.number ∧
    ∀ ix : List Index, ix.length = 4 → ix.head? ≠ some recursiveSlot → ix ≠ page.indices →
      walk s'.mem s'.cr3 ix = walk s.mem s.cr3 ix

/-- Either no index of the page is 511 and its level-1 table exists, or the indices of the
levels 3 and 2 are 511, the level-3 table exists, and the frame holds no present entry. -/
def Quiet (s : Machine α) (page : Page) (frame : Frame) : Prop :=
  (Ordinary page.indices ∧
    (descend (link s.mem) s.cr3 (tablePath (page.number * 4096))).isSome) ∨
  level3Index (page.number * 4096) = recursiveSlot ∧
    level2Index (page.number * 4096) = recursiveSlot ∧
    (link s.mem s.cr3 (level4Index (page.number * 4096))).isSome ∧
    ∀ j, (s.mem frame.number j).isPresent = false

/-- In a tree that the window shows, every table refers to itself. -/
theorem ActiveTree.loops {s : Machine α} (h : ActiveTree s) : Loops s.mem s.cr3 := by
  intro path table hpath htable
  by_cases hnil : path = []
  · subst hnil
    obtain rfl := Option.some.inj htable
    exact h.window.stays
  · exact h.tree.loops path table hpath hnil htable

/-- The translation of any page, the recursive slots included. -/
theorem ActiveTree.walk_any {s : Machine α} (h : ActiveTree s) {path : List Index}
    (hlen : path.length ≤ 3) (i : Index) :
    walk s.mem s.cr3 (path ++ [i]) = (descend (link s.mem) s.cr3 (squash path)).bind fun table =>
      if (s.mem table i).isPresent then some (s.mem table i).frame else none := by
  rw [← descend_squash hlen (fun _ => h.loops)]
  apply walk_eq_bind
  rintro before j after table rfl htable
  have hbefore : before.length ≤ 3 := by
    simp at hlen
    omega
  rw [descend_squash hbefore (fun _ => h.loops)] at htable
  have hpath := squash_tablePath hbefore
  by_cases hj : j = recursiveSlot
  · have hloop := h.loops _ table hpath htable
    rw [hj]
    exact (PageEntry.child_eq_some.mp hloop).2.1
  · exact h.tree.small _ table j hpath htable hj

/-- The step of `map` that fills the entry of a page, in a tree that the window shows. -/
structure Filling (s s' : Machine α) (page : Page) (frame : Frame) (table : ℕ) : Prop where
  /-- The tables form a tree that the window shows. -/
  tree : ActiveTree s
  /-- The table of the entry. -/
  path : descend (link s.mem) s.cr3 (squash (tablePath (page.number * 4096))) = some table
  /-- The entry was not present. -/
  vacant : (s.mem table (level1Index (page.number * 4096))).isPresent = false
  /-- The entry refers to the frame. -/
  mem : s'.mem = s.mem.set table (level1Index (page.number * 4096))
    ((s.mem table (level1Index (page.number * 4096))).withFrame frame.number)
  /-- The active table is the same. -/
  cr3 : s'.cr3 = s.cr3
  /-- The frame fits into an entry. -/
  fits : frame.number < 2 ^ 36

namespace Filling

variable {s s' : Machine α} {page : Page} {frame : Frame} {table : ℕ}
variable (h : Filling s s' page frame table)
include h

/-- The level-1 index of the page is not the recursive slot, since that entry of the table
is present. -/
theorem level1_ne : level1Index (page.number * 4096) ≠ recursiveSlot := by
  intro hslot
  have hloop := h.tree.loops _ table (squash_tablePath le_rfl) h.path
  have hvacant := h.vacant
  rw [hslot, (PageEntry.child_eq_some.mp hloop).1] at hvacant
  cases hvacant

/-- Filling the entry keeps all references to tables. -/
theorem descend_mono {path : List Index} {node : ℕ}
    (hpath : descend (link s.mem) s.cr3 path = some node) :
    descend (link s'.mem) s'.cr3 path = some node := by
  rw [h.cr3]
  refine Descent.descend_mono (fun f j child hlink => ?_) hpath
  rw [h.mem]
  exact link_set_vacant (PageEntry.child_eq_none h.vacant) _ hlink

/-- A path leads to the table exactly when it has the indices of the page, apart from
recursive slots. -/
theorem descend_iff {path : List Index} (hlen : path.length ≤ 3) :
    descend (link s.mem) s.cr3 path = some table ↔
      squash path = squash (tablePath (page.number * 4096)) := by
  rw [descend_squash hlen (fun _ => h.tree.loops)]
  constructor
  · exact h.tree.tree.sole _ table (squash_tablePath le_rfl) h.path _ (squash_tablePath hlen)
  · intro hpath
    rw [hpath, h.path]

/-- Every page with the indices of the mapped page, apart from recursive slots, was not
mapped and is translated to the frame. -/
theorem walk_alias {path : List Index} (hlen : path.length ≤ 3)
    (hpath : squash path = squash (tablePath (page.number * 4096))) :
    walk s.mem s.cr3 (path ++ [level1Index (page.number * 4096)]) = none ∧
      walk s'.mem s'.cr3 (path ++ [level1Index (page.number * 4096)]) = some frame.number := by
  have hreach := (h.descend_iff hlen).mpr hpath
  constructor
  · rw [walk_append hreach (by simp), walk_absent h.vacant]
  · rw [walk_append (h.descend_mono hreach) (by simp), walk_singleton, h.mem, Memory.set_self,
      PageEntry.isPresent_withFrame, PageEntry.frame_withFrame _ h.fits]
    rfl

/-- The mapped page is translated to the frame. -/
theorem walk_page : walk s'.mem s'.cr3 page.indices = some frame.number :=
  (h.walk_alias le_rfl rfl).2

/-- A page whose walk does not read the filled entry is translated as before. -/
theorem walk_unread {ix : List Index}
    (hunread : ∀ before after, ix = before ++ level1Index (page.number * 4096) :: after →
      descend (link s.mem) s.cr3 before ≠ some table) :
    walk s'.mem s'.cr3 ix = walk s.mem s.cr3 ix := by
  rw [h.cr3, h.mem]
  apply walk_congr
  intro before j after node hsplit hnode
  apply Memory.set_of_ne
  by_contra hread
  obtain ⟨rfl, rfl⟩ : node = table ∧ j = level1Index (page.number * 4096) := by
    simpa [not_or] using hread
  exact hunread before after hsplit hnode

/-- Without recursive slots on its path the page shares its entry with no other page. -/
theorem isolated_of_ordinary (hpath : TablePath (tablePath (page.number * 4096))) :
    Isolated page frame s s' := by
  refine ⟨h.walk_page, ?_⟩
  intro ix hix4 _ hne
  apply h.walk_unread
  intro before after hsplit hreach
  have hbefore : before.length ≤ 3 := by
    have := congrArg List.length hsplit
    simp at this
    omega
  have hsquash := (h.descend_iff hbefore).mp hreach
  rw [squash_eq_self hpath.2] at hsquash
  have hlong : before.length = 3 := by
    have hle : (squash before).length ≤ before.length := List.length_filter_le _ _
    have heq : (squash before).length = 3 := congrArg List.length hsquash
    omega
  have hbefore' : before = tablePath (page.number * 4096) := by
    rw [← hsquash]
    refine (List.filter_eq_self.mpr fun i hi => ?_).symm
    have hall := List.length_filter_eq_length_iff.mp
      ((congrArg List.length hsquash).trans hlong.symm)
    exact hall i hi
  have hafter : after = [] := by
    have := congrArg List.length hsplit
    simp at this
    exact List.eq_nil_of_length_eq_zero (by omega)
  exact hne (by rw [hsplit, hafter, hbefore', Page.indices_eq])

/-- A second page with the same entry is translated in another way. -/
theorem not_isolated_of_alias (path : List Index) (hlen : path.length = 3)
    (hhead : path.head? ≠ some recursiveSlot)
    (hpath : squash path = squash (tablePath (page.number * 4096)))
    (hne : path ≠ tablePath (page.number * 4096)) : ¬Isolated page frame s s' := by
  rintro ⟨-, hothers⟩
  obtain ⟨hbefore, hafter⟩ := h.walk_alias hlen.le hpath
  have hsame := hothers (path ++ [level1Index (page.number * 4096)]) (by simp [hlen]) ?_ ?_
  · rw [hbefore, hafter] at hsame
    cases hsame
  · cases path with
    | nil => cases hlen
    | cons i rest => simpa using hhead
  · rw [Page.indices_eq]
    intro hsame
    exact hne (List.append_cancel_right hsame)

end Filling

section Isolation

variable {s s₁ s' : Machine α} {page : Page} {frame : Frame} {table : ℕ}

/-- A call that created a table makes a page appear that refers to the table itself. -/
theorem Filling.not_isolated_of_created (h : Filling s₁ s' page frame table) (htree : ActiveTree s)
    (hlevel4 : level4Index (page.number * 4096) ≠ recursiveSlot)
    (hmissing : descend (link s.mem) s.cr3 (squash (tablePath (page.number * 4096))) = none) :
    ¬Isolated page frame s s' := by
  rintro ⟨-, hothers⟩
  have hpath : descend (link s₁.mem) s₁.cr3 (tablePath (page.number * 4096)) = some table :=
    (h.descend_iff le_rfl).mpr rfl
  have hloop := h.tree.loops _ table (squash_tablePath le_rfl) h.path
  have hafter : walk s'.mem s'.cr3 (tablePath (page.number * 4096) ++ [recursiveSlot]) ≠ none := by
    rw [walk_append (h.descend_mono hpath) (by simp), walk_singleton, h.mem,
      Memory.set_of_ne _ _ (Or.inr h.level1_ne.symm), (PageEntry.child_eq_some.mp hloop).1]
    simp
  have hbefore : walk s.mem s.cr3 (tablePath (page.number * 4096) ++ [recursiveSlot]) = none := by
    rw [htree.walk_any le_rfl, hmissing, Option.bind_none]
  apply hafter
  rw [← hbefore]
  apply hothers
  · rfl
  · simpa [tablePath] using hlevel4
  · rw [Page.indices_eq]
    intro hsame
    exact h.level1_ne (List.singleton_injective (List.append_cancel_left hsame)).symm

/-- The path of a page with the index 511 at the levels 3 and 2. -/
theorem squash_level3 (h3 : level3Index (page.number * 4096) = recursiveSlot)
    (h2 : level2Index (page.number * 4096) = recursiveSlot)
    (hlevel4 : level4Index (page.number * 4096) ≠ recursiveSlot) :
    squash (tablePath (page.number * 4096)) = [level4Index (page.number * 4096)] := by
  simp [squash, tablePath, h3, h2, hlevel4]

/-- The only path of three indices outside the recursive slot that comes down to one index. -/
theorem eq_of_squash_singleton {path : List Index} {i : Index} (hlen : path.length = 3)
    (hhead : path.head? ≠ some recursiveSlot) (hpath : squash path = [i]) :
    path = [i, recursiveSlot, recursiveSlot] := by
  obtain ⟨a, b, c, rfl⟩ := List.length_eq_three.mp hlen
  have ha : a ≠ recursiveSlot := by simpa using hhead
  by_cases hb : b = recursiveSlot
  · by_cases hc : c = recursiveSlot
    · have hi : a = i := by simpa [squash, ha, hb, hc] using hpath
      rw [hi, hb, hc]
    · simp [squash, ha, hb, hc] at hpath
  · by_cases hc : c = recursiveSlot
    · simp [squash, ha, hb, hc] at hpath
    · simp [squash, ha, hb, hc] at hpath

namespace Filling

variable (h : Filling s s' page frame table)
include h

/-- The filled entry refers to the frame, also as a table. -/
theorem link_page : link s'.mem table (level1Index (page.number * 4096)) = some frame.number := by
  have hsmall : (s.mem table (level1Index (page.number * 4096))).isHuge = false :=
    h.tree.tree.small _ table _ (squash_tablePath le_rfl) h.path h.level1_ne
  rw [link, h.mem, Memory.set_self, PageEntry.child_withFrame h.fits hsmall]

variable (h3 : level3Index (page.number * 4096) = recursiveSlot)
  (h2 : level2Index (page.number * 4096) = recursiveSlot)
  (hlevel4 : level4Index (page.number * 4096) ≠ recursiveSlot)
include h3 h2 hlevel4

/-- A level-3 table used as the table of the entry: a present entry of the frame makes a page
appear below it. -/
theorem not_isolated_of_present {j : Index} (hpresent : (s.mem frame.number j).isPresent = true) :
    ¬Isolated page frame s s' := by
  rintro ⟨-, hothers⟩
  have hentry : (s'.mem frame.number j).isPresent = true := by
    rw [h.mem]
    by_cases hsame : frame.number = table ∧ j = level1Index (page.number * 4096)
    · obtain ⟨hframe, rfl⟩ := hsame
      rw [← hframe, Memory.set_self, PageEntry.isPresent_withFrame]
    · rw [Memory.set_of_ne _ _ (not_and_or.mp hsame), hpresent]
  have hreach : descend (link s.mem) s.cr3
      [level4Index (page.number * 4096), recursiveSlot] = some table :=
    (h.descend_iff (by simp)).mpr
      (by rw [squash_level3 h3 h2 hlevel4]; simp [squash, hlevel4])
  let ix := [level4Index (page.number * 4096), recursiveSlot] ++
    [level1Index (page.number * 4096), j]
  have hafter : walk s'.mem s'.cr3 ix ≠ none := by
    rw [walk_append (h.descend_mono hreach) (by simp), walk_cons h.link_page (by simp),
      walk_singleton, hentry]
    simp
  have hbefore : walk s.mem s.cr3 ix = none := by
    rw [walk_append hreach (by simp), walk_absent h.vacant]
  apply hafter
  rw [← hbefore]
  apply hothers
  · rfl
  · simpa [ix] using hlevel4
  · intro hsame
    simp only [ix, Page.indices_eq, tablePath, List.cons_append, List.nil_append,
      List.cons.injEq] at hsame
    exact h.level1_ne (hsame.2.2.1.trans h2)

/-- A level-3 table used as the table of the entry: other pages stay when the frame holds no
present entry. -/
theorem isolated_of_empty (hempty : ∀ j, (s.mem frame.number j).isPresent = false) :
    Isolated page frame s s' := by
  refine ⟨h.walk_page, ?_⟩
  intro ix hix4 hhead hne
  have hframe : frame.number ≠ table := by
    intro hsame
    have hloop := h.tree.loops _ table (squash_tablePath le_rfl) h.path
    have hpresent := (PageEntry.child_eq_some.mp hloop).1
    rw [← hsame, hempty] at hpresent
    cases hpresent
  by_cases hread : ∃ before after, ix = before ++ level1Index (page.number * 4096) :: after ∧
      descend (link s.mem) s.cr3 before = some table
  · obtain ⟨before, after, hsplit, hreach⟩ := hread
    have hlen : before.length + after.length = 3 := by
      have hsum := congrArg List.length hsplit
      rw [List.length_append, List.length_cons] at hsum
      omega
    have hbefore := (h.descend_iff (by omega)).mp hreach
    rw [squash_level3 h3 h2 hlevel4] at hbefore
    cases after with
    | nil =>
      have hhead' : before.head? ≠ some recursiveSlot := by
        cases before with
        | nil => simp
        | cons a rest => simpa [hsplit] using hhead
      refine absurd ?_ hne
      rw [hsplit, eq_of_squash_singleton hlen hhead' hbefore, Page.indices_eq, tablePath, h3, h2]
    | cons j rest =>
      have habsent : (s'.mem frame.number j).isPresent = false := by
        rw [h.mem, Memory.set_of_ne _ _ (Or.inl hframe), hempty]
      rw [hsplit, walk_append hreach (by simp), walk_absent h.vacant,
        walk_append (h.descend_mono hreach) (by simp), walk_cons h.link_page (by simp),
        walk_absent habsent]
  · apply h.walk_unread
    intro before after hsplit hreach
    exact hread ⟨before, after, hsplit, hreach⟩

/-- A level-3 table used as the table of the entry: other pages change unless the frame
holds no present entry. -/
theorem isolated_iff_of_level3 :
    Isolated page frame s s' ↔ ∀ j, (s.mem frame.number j).isPresent = false := by
  refine ⟨fun hisolated j => ?_, h.isolated_of_empty h3 h2 hlevel4⟩
  by_contra hpresent
  rw [Bool.not_eq_false] at hpresent
  exact h.not_isolated_of_present h3 h2 hlevel4 hpresent hisolated

end Filling

end Isolation

section Result

variable [FrameAllocator α] {source : FrameSource α} {s₀ s s' : Machine α} {page : Page}
  {frame : Frame}

/-- A call of `map` that returned `Ok` grew the tables, unless all tables of the page
existed, and then filled the entry of the page. -/
theorem ActiveTree.map_ok (h : ActiveTree s)
    (hserves : source.Serves s.allocator (insert frame.number s.pages.frames ∪ tables s.mem s.cr3))
    (hrun : ActivePageTable.map page frame s = .ok (.ok ()) s') :
    ∃ s₁ table, Filling s₁ s' page frame table ∧ s₁.cr3 = s.cr3 ∧
      ((descend (link s.mem) s.cr3 (squash (tablePath (page.number * 4096)))).isSome →
        s₁.mem = s.mem) := by
  obtain ⟨hpage, ⟨-, hframe⟩ | ⟨⟨_, herror⟩, -⟩⟩ := map_returned hrun
  rotate_left
  · cases herror
  let used := insert frame.number s.pages.frames \ tables s.mem s.cr3
  have hhosted : Hosted source used s.cr3 s := by
    refine ⟨h.window, Or.inr root_mem_nodes, Set.disjoint_sdiff_left, ?_⟩
    rw [Set.sdiff_union_self]
    exact hserves
  have hframes : s.pages.frames ⊆ used :=
    fun f hf => ⟨Or.inr hf, Set.disjoint_left.mp h.apart hf⟩
  obtain ⟨s₁, h₁, hgrown, hsame, -, hcases⟩ := hhosted.map_squash hpage hframe (fun _ => h.loops)
    (h.tree.passable (squash_tablePath le_rfl))
  obtain ⟨htree₁, -⟩ := h.of_grown hgrown h₁.window hframes h₁.apart
  have hcr3 := hgrown.cr3
  rcases hcases with ⟨hrun', -⟩ |
    ⟨table, n, htable, -, -, ⟨-, hrun'⟩ | ⟨hvacant, s₂, hrun', hreach⟩⟩
  · rw [hrun] at hrun'
    cases hrun'
  · rw [hrun] at hrun'
    cases hrun'
  · rw [hrun] at hrun'
    obtain ⟨-, rfl⟩ := EStateM.Result.ok.inj hrun'
    rw [← hcr3] at htable
    exact ⟨s₁, table, ⟨htree₁, htable, hvacant, hreach.mem, hreach.cr3, hframe⟩, hcr3,
      fun hsome => (hsame hsome).1⟩

/-- A page none of whose indices is the recursive slot. -/
theorem Page.ordinary_of_ne (h4 : level4Index (page.number * 4096) ≠ recursiveSlot)
    (h3 : level3Index (page.number * 4096) ≠ recursiveSlot)
    (h2 : level2Index (page.number * 4096) ≠ recursiveSlot)
    (h1 : level1Index (page.number * 4096) ≠ recursiveSlot) : Ordinary page.indices := by
  intro i hi
  rw [Page.indices_eq] at hi
  simp only [tablePath, List.cons_append, List.nil_append, List.mem_cons, List.not_mem_nil,
    or_false] at hi
  rcases hi with rfl | rfl | rfl | rfl
  · exact h4
  · exact h3
  · exact h2
  · exact h1

/-- The isolation of a call in a tree that the window shows. -/
theorem ActiveTree.isolated_iff_quiet (h : ActiveTree s)
    (hlevel4 : level4Index (page.number * 4096) ≠ recursiveSlot)
    (hserves : source.Serves s.allocator (insert frame.number s.pages.frames ∪ tables s.mem s.cr3))
    (hrun : ActivePageTable.map page frame s = .ok (.ok ()) s') :
    Isolated page frame s s' ↔ Quiet s page frame := by
  obtain ⟨s₁, table, hfill, hcr3, hsame⟩ := h.map_ok hserves hrun
  have hlevel1 := hfill.level1_ne
  cases hpath : descend (link s.mem) s.cr3 (squash (tablePath (page.number * 4096))) with
  | none =>
    refine iff_of_false (hfill.not_isolated_of_created h hlevel4 hpath) ?_
    rintro (⟨hordinary, hsome⟩ | ⟨h3, h2, hsome, -⟩)
    · rw [squash_eq_self hordinary.tablePath.2] at hpath
      rw [hpath] at hsome
      cases hsome
    · rw [squash_level3 h3 h2 hlevel4, descend_singleton] at hpath
      rw [hpath] at hsome
      cases hsome
  | some table' =>
    have hmem := hsame (by rw [hpath]; rfl)
    have hisolated : Isolated page frame s₁ s' ↔ Isolated page frame s s' := by
      rw [Isolated, Isolated, hmem, hcr3]
    rw [← hisolated]
    by_cases h3 : level3Index (page.number * 4096) = recursiveSlot
    · by_cases h2 : level2Index (page.number * 4096) = recursiveSlot
      · have hexists : (link s.mem s.cr3 (level4Index (page.number * 4096))).isSome := by
          rw [squash_level3 h3 h2 hlevel4, descend_singleton] at hpath
          rw [hpath]
          rfl
        have hnot : ¬Ordinary page.indices := fun hordinary =>
          hordinary.tablePath.2 _ (by simp [tablePath]) h3
        rw [hfill.isolated_iff_of_level3 h3 h2 hlevel4, hmem]
        simp only [Quiet, hnot, false_and, false_or, h3, h2, hexists, true_and]
      · refine iff_of_false ?_ ?_
        · apply hfill.not_isolated_of_alias [level4Index (page.number * 4096),
            level2Index (page.number * 4096), recursiveSlot] rfl (by simpa using hlevel4)
          · simp [squash, tablePath, h3, h2, hlevel4]
          · intro hsame
            simp only [tablePath, List.cons.injEq] at hsame
            exact h2 (hsame.2.1.trans h3)
        · rintro (⟨hordinary, -⟩ | ⟨-, h2', -⟩)
          · exact hordinary.tablePath.2 _ (by simp [tablePath]) h3
          · exact h2 h2'
    · by_cases h2 : level2Index (page.number * 4096) = recursiveSlot
      · refine iff_of_false ?_ ?_
        · apply hfill.not_isolated_of_alias [level4Index (page.number * 4096),
            recursiveSlot, level3Index (page.number * 4096)] rfl (by simpa using hlevel4)
          · simp [squash, tablePath, h3, h2, hlevel4]
          · intro hsame
            simp only [tablePath, List.cons.injEq] at hsame
            exact h3 hsame.2.1.symm
        · rintro (⟨hordinary, -⟩ | ⟨h3', -⟩)
          · exact hordinary.tablePath.2 _ (by simp [tablePath]) h2
          · exact h3 h3'
      · have hordinary := Page.ordinary_of_ne hlevel4 h3 h2 hlevel1
        refine iff_of_true (hfill.isolated_of_ordinary hordinary.tablePath) (Or.inl ⟨hordinary, ?_⟩)
        rw [squash_eq_self hordinary.tablePath.2] at hpath
        rw [hpath]
        rfl

/-- In every state that calls of `map` and `unmap` on pages without the index 511 reach, a
further call of `map` that returns `Ok` changes the translation of its page only exactly
when the call is quiet. -/
theorem map_isolated_iff (hstart : OnlyRecursive s₀.mem s₀.cr3)
    (hsmall : ∀ i, i ≠ recursiveSlot → (s₀.mem s₀.cr3 i).isHuge = false)
    (hreached : Reached source s₀ s) (hlevel4 : level4Index (page.number * 4096) ≠ recursiveSlot)
    (hserves : source.Serves s.allocator (insert frame.number s.pages.frames ∪ tables s.mem s.cr3))
    (hrun : ActivePageTable.map page frame s = .ok (.ok ()) s') :
    Isolated page frame s s' ↔ Quiet s page frame :=
  (hreached.activeTree (hstart.activeTree hsmall).1).isolated_iff_quiet hlevel4 hserves hrun

end Result

/-- The first call on an empty table returns `Ok`. -/
theorem level4Machine_map_ok :
    ActiveTree (level4Machine 0) ∧
    Legal FramePool.source (level4Machine 0) (.map ⟨0⟩ ⟨9, 0, .used⟩) ∧
    ∃ s', ActivePageTable.map ⟨0⟩ ⟨9, 0, .used⟩ (level4Machine 0) = .ok (.ok ()) s' := by
  have hstart := level4Machine_onlyRecursive (show (0 : BitVec 64).getLsbD 0 = false by decide)
  obtain ⟨htree, hempty⟩ := hstart.activeTree (by decide +kernel)
  have hlegal := level4Machine_legal (by decide) hempty
  exact ⟨htree, hlegal, htree.map_pool hlegal (by rw [hempty]) (by decide)⟩

/-- The condition at the first call on an empty table. -/
theorem map_isolated_iff_first :
    ∃ s', ActivePageTable.map ⟨0⟩ ⟨9, 0, .used⟩ (level4Machine 0) = .ok (.ok ()) s' ∧
      (Isolated ⟨0⟩ ⟨9, 0, .used⟩ (level4Machine 0) s' ↔
        Quiet (level4Machine 0) ⟨0⟩ ⟨9, 0, .used⟩) := by
  obtain ⟨-, ⟨-, -, -, -, hserves⟩, s', hrun⟩ := level4Machine_map_ok
  exact ⟨s', hrun, map_isolated_iff (level4Machine_onlyRecursive (by decide)) (by decide +kernel)
    .start (by decide +kernel) hserves hrun⟩

/-- The first call on an empty table makes another page appear: the one with the index 511
at level 1 is translated to the new level-1 table. -/
theorem not_map_isolated :
    ¬∀ (s₀ s s' : Machine FramePool) (page : Page) (frame : Frame),
      OnlyRecursive s₀.mem s₀.cr3 →
      (∀ i, i ≠ recursiveSlot → (s₀.mem s₀.cr3 i).isHuge = false) →
      Reached FramePool.source s₀ s →
      level4Index (page.number * 4096) ≠ recursiveSlot →
      FramePool.source.Serves s.allocator
        (insert frame.number s.pages.frames ∪ tables s.mem s.cr3) →
      ActivePageTable.map page frame s = .ok (.ok ()) s' →
      Isolated page frame s s' := by
  intro hclaim
  obtain ⟨htree, ⟨-, -, -, -, hserves⟩, s', hrun⟩ := level4Machine_map_ok
  have hlevel4 : level4Index ((⟨0⟩ : Page).number * 4096) ≠ recursiveSlot := by decide +kernel
  have hisolated := hclaim _ _ s' ⟨0⟩ ⟨9, 0, .used⟩ (level4Machine_onlyRecursive (by decide))
    (by decide +kernel) .start hlevel4 hserves hrun
  obtain ⟨s₁, table, hfill, -⟩ := htree.map_ok hserves hrun
  refine hfill.not_isolated_of_created htree hlevel4 ?_ hisolated
  have hvacant : link (level4Machine 0).mem (level4Machine 0).cr3 0 = none := by decide +kernel
  have hpath : squash (tablePath ((⟨0⟩ : Page).number * 4096)) = [0, 0, 0] := by decide +kernel
  rw [hpath, Descent.descend, hvacant, Option.bind_none]

end Axel
