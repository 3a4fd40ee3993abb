import Mathlib.Data.List.Induction
import Mathlib.Data.Set.Insert

/-!
# Descent along paths

A graph given by a partial successor function `next node slot`, and the node that a
list of slots leads to. The lemmas say how descent composes, which entries it reads,
and what linking a fresh node below an existing one does to it. Paths are restricted
to a set of slots and to a length, since a heap that stores trees may store other
things in the remaining slots and below the last level.
-/

namespace Descent

variable {Node Slot : Type*}

/-- The node that a path leads to from a start node. -/
def descend (next : Node → Slot → Option Node) : Node → List Slot → Option Node
  | node, [] => some node
  | node, slot :: path => (next node slot).bind fun child => descend next child path

/-- A path of at most `depth` slots, all of them allowed. -/
def Within (allowed : Slot → Prop) (depth : ℕ) (path : List Slot) : Prop :=
  path.length ≤ depth ∧ ∀ slot ∈ path, allowed slot

/-- The nodes that paths within the bounds lead to. -/
def nodes (next : Node → Slot → Option Node) (allowed : Slot → Prop) (depth : ℕ)
    (root : Node) : Set Node :=
  {node | ∃ path, Within allowed depth path ∧ descend next root path = some node}

/-- The node lies on no second path within the bounds. -/
def Only (next : Node → Slot → Option Node) (allowed : Slot → Prop) (depth : ℕ)
    (root : Node) (path : List Slot) (node : Node) : Prop :=
  ∀ other, Within allowed depth other → descend next root other = some node → other = path

variable {next next' : Node → Slot → Option Node} {allowed : Slot → Prop} {depth : ℕ}
variable {root node child : Node} {slot : Slot} {path rest : List Slot}

/-- The empty path stays at the start. -/
@[simp] theorem descend_nil : descend next node [] = some node := rfl

/-- One slot leads to the successor. -/
@[simp] theorem descend_singleton : descend next node [slot] = next node slot := by
  simp [descend]

/-- Descending along a path and then along another one. -/
theorem descend_append :
    descend next root (path ++ rest) =
      (descend next root path).bind fun node => descend next node rest := by
  induction path generalizing root with
  | nil => simp [descend]
  | cons slot path ih =>
    simp only [List.cons_append, descend]
    cases next root slot with
    | none => rfl
    | some child => exact ih

/-- Descending one slot further. -/
theorem descend_concat (h : descend next root path = some node) :
    descend next root (path ++ [slot]) = next node slot := by
  rw [descend_append, h, Option.bind_some, descend_singleton]

/-- A path below a missing node leads nowhere. -/
theorem descend_append_none (h : descend next root path = none) :
    descend next root (path ++ rest) = none := by
  rw [descend_append, h, Option.bind_none]

/-- Descent only depends on the entries that it reads. -/
theorem descend_congr
    (h : ∀ before slot after node, path = before ++ slot :: after →
      descend next root before = some node → next' node slot = next node slot) :
    descend next' root path = descend next root path := by
  induction path generalizing root with
  | nil => rfl
  | cons slot path ih =>
    have hfirst : next' root slot = next root slot := h [] slot path root rfl rfl
    simp only [descend, hfirst]
    cases hchild : next root slot with
    | none => rfl
    | some child =>
      apply ih
      intro before slot' after node hpath hnode
      apply h (slot :: before) slot' after node
      · rw [hpath, List.cons_append]
      · rw [descend, hchild, Option.bind_some, hnode]

/-- Descent survives when entries are only added. -/
theorem descend_mono (h : ∀ node slot child, next node slot = some child →
      next' node slot = some child)
    (hpath : descend next root path = some node) : descend next' root path = some node := by
  induction path generalizing root with
  | nil => exact hpath
  | cons slot path ih =>
    obtain ⟨child, hchild, hrest⟩ := Option.bind_eq_some_iff.mp hpath
    rw [descend, h root slot child hchild, Option.bind_some, ih hrest]

/-- The empty path is within every bound. -/
theorem within_nil : Within allowed depth ([] : List Slot) :=
  ⟨Nat.zero_le depth, fun _ h => absurd h List.not_mem_nil⟩

/-- The parts of a path within the bounds are within the bounds. -/
theorem Within.left (h : Within allowed depth (path ++ rest)) : Within allowed depth path := by
  constructor
  · have := h.1
    rw [List.length_append] at this
    omega
  · exact fun slot hslot => h.2 slot (List.mem_append_left rest hslot)

/-- A path can be extended by an allowed slot while there is room. -/
theorem Within.concat (h : Within allowed depth path) (hlen : path.length < depth)
    (hslot : allowed slot) : Within allowed depth (path ++ [slot]) := by
  constructor
  · rw [List.length_append, List.length_singleton]
    exact hlen
  · intro other hother
    rcases List.mem_append.mp hother with hpath | hlast
    · exact h.2 other hpath
    · rw [List.mem_singleton.mp hlast]
      exact hslot

/-- A node that a path within the bounds leads to is one of the nodes. -/
theorem mem_nodes (hpath : Within allowed depth path)
    (h : descend next root path = some node) : node ∈ nodes next allowed depth root :=
  ⟨path, hpath, h⟩

/-- The root is one of the nodes. -/
theorem root_mem_nodes : root ∈ nodes next allowed depth root :=
  mem_nodes within_nil rfl

/-- Descent within the bounds is the same in two graphs that agree on the nodes. -/
theorem descend_congr_nodes
    (h : ∀ node ∈ nodes next allowed depth root, ∀ slot, allowed slot →
      next' node slot = next node slot)
    (hpath : Within allowed depth path) :
    descend next' root path = descend next root path := by
  apply descend_congr
  rintro before slot after node rfl hnode
  apply h node (mem_nodes hpath.left hnode)
  exact hpath.2 slot (List.mem_append_right before List.mem_cons_self)

/-- Two graphs that agree on the nodes have the same nodes. -/
theorem nodes_congr
    (h : ∀ node ∈ nodes next allowed depth root, ∀ slot, allowed slot →
      next' node slot = next node slot) :
    nodes next' allowed depth root = nodes next allowed depth root := by
  ext node
  constructor
  · rintro ⟨path, hpath, hnode⟩
    exact ⟨path, hpath, by rw [← descend_congr_nodes h hpath, hnode]⟩
  · rintro ⟨path, hpath, hnode⟩
    exact ⟨path, hpath, by rw [descend_congr_nodes h hpath, hnode]⟩

/-- A set that contains the root and the successors of its nodes contains all nodes. -/
theorem nodes_subset_of_closed {closed : Set Node} (hroot : root ∈ closed)
    (hstep : ∀ node ∈ closed, ∀ slot reached, allowed slot → next node slot = some reached →
      reached ∈ closed) : nodes next allowed depth root ⊆ closed := by
  rintro reached ⟨path, hpath, hreached⟩
  induction path using List.reverseRecOn generalizing reached with
  | nil => exact Option.some.inj hreached ▸ hroot
  | append_singleton path slot ih =>
    rw [descend_append] at hreached
    obtain ⟨parent, hparent, hlast⟩ := Option.bind_eq_some_iff.mp hreached
    rw [descend_singleton] at hlast
    exact hstep parent (ih hpath.left hparent) slot reached (hpath.2 slot (by simp)) hlast

/-- The nodes of a graph in which some entries now lead to a node that leads to itself only. -/
theorem nodes_subset_insert
    (h : ∀ node ∈ nodes next allowed depth root, ∀ slot reached, allowed slot →
      next' node slot = some reached → reached = child ∨ next node slot = some reached)
    (hchild : ∀ slot reached, allowed slot → next' child slot = some reached → reached = child) :
    nodes next' allowed depth root ⊆ insert child (nodes next allowed depth root) := by
  rintro reached ⟨path, hpath, hreached⟩
  have hcases : reached = child ∨ descend next root path = some reached := by
    induction path using List.reverseRecOn generalizing reached with
    | nil => exact Or.inr hreached
    | append_singleton path slot ih =>
      have hslot : allowed slot := hpath.2 slot (by simp)
      rw [descend_append] at hreached
      obtain ⟨parent, hparent, hstep⟩ := Option.bind_eq_some_iff.mp hreached
      rw [descend_singleton] at hstep
      rcases ih hpath.left hparent with rfl | hold
      · exact Or.inl (hchild slot reached hslot hstep)
      · rcases h parent (mem_nodes hpath.left hold) slot reached hslot hstep with hnew | hstep
        · exact Or.inl hnew
        · exact Or.inr ((descend_concat hold).trans hstep)
  rcases hcases with rfl | hold
  · exact Or.inl rfl
  · exact Or.inr (mem_nodes hpath hold)

section Attach

/-- The graph after a fresh `child` was linked at a slot of `node`: the slot was
empty, the child has no allowed successor, and no other entry of the graph changed. -/
structure Attached (next next' : Node → Slot → Option Node) (allowed : Slot → Prop)
    (node : Node) (slot : Slot) (child : Node) : Prop where
  /-- The slot was empty. -/
  vacant : next node slot = none
  /-- The slot leads to the child. -/
  linked : next' node slot = some child
  /-- The child is empty. -/
  bare : ∀ slot, allowed slot → next' child slot = none
  /-- Every other entry is as before. -/
  frame : ∀ other slot', other ≠ child → (other ≠ node ∨ slot' ≠ slot) →
    next' other slot' = next other slot'

section General

variable (hattach : Attached next next' allowed node slot child)
  (hfresh : child ∉ nodes next allowed depth root)

include hattach hfresh

/-- Linking a fresh node adds exactly the paths that reach its parent and go on with its
slot. -/
theorem Attached.descend_iff {other : List Slot} (hother : Within allowed depth other)
    {reached : Node} : descend next' root other = some reached ↔
      descend next root other = some reached ∨
        reached = child ∧ ∃ path, other = path ++ [slot] ∧ descend next root path = some node := by
  induction other using List.reverseRecOn generalizing reached with
  | nil => simp
  | append_singleton other slot' ih =>
    have hleft := hother.left
    have hallowed : allowed slot' := hother.2 slot' (by simp)
    rw [descend_append, descend_append, Option.bind_eq_some_iff, Option.bind_eq_some_iff]
    simp only [descend_singleton]
    constructor
    · rintro ⟨parent, hparent, hstep⟩
      rcases (ih hleft).mp hparent with hold | ⟨rfl, -⟩
      · have hne : parent ≠ child := by
          rintro rfl
          exact hfresh (mem_nodes hleft hold)
        by_cases hhere : parent = node ∧ slot' = slot
        · obtain ⟨rfl, rfl⟩ := hhere
          rw [hattach.linked] at hstep
          exact Or.inr ⟨(Option.some.inj hstep).symm, other, rfl, hold⟩
        · rw [hattach.frame parent slot' hne (not_and_or.mp hhere)] at hstep
          exact Or.inl ⟨parent, hold, hstep⟩
      · rw [hattach.bare slot' hallowed] at hstep
        cases hstep
    · rintro (⟨parent, hold, hstep⟩ | ⟨rfl, path, hpath, hnode⟩)
      · refine ⟨parent, (ih hleft).mpr (Or.inl hold), ?_⟩
        have hne : parent ≠ child := by
          rintro rfl
          exact hfresh (mem_nodes hleft hold)
        rw [hattach.frame parent slot' hne, hstep]
        by_contra hhere
        obtain ⟨rfl, rfl⟩ : parent = node ∧ slot' = slot := by simpa [not_or] using hhere
        rw [hattach.vacant] at hstep
        cases hstep
      · obtain ⟨rfl, hslot⟩ := List.append_inj' hpath rfl
        obtain rfl := List.singleton_inj.mp hslot
        exact ⟨node, (ih hleft).mpr (Or.inl hnode), hattach.linked⟩

/-- Every path still leads to the same node. -/
theorem Attached.kept {other : List Slot} (hother : Within allowed depth other) {reached : Node}
    (hreached : descend next root other = some reached) :
    descend next' root other = some reached :=
  (hattach.descend_iff hfresh hother).mpr (Or.inl hreached)

/-- A path to the parent leads on to the fresh node. -/
theorem Attached.reached (hnode : descend next root path = some node)
    (hpath : Within allowed depth (path ++ [slot])) :
    descend next' root (path ++ [slot]) = some child :=
  (hattach.descend_iff hfresh hpath).mpr (Or.inr ⟨rfl, path, rfl, hnode⟩)

/-- Linking a fresh node adds it to the nodes. -/
theorem Attached.nodes_eq (hnode : descend next root path = some node)
    (hpath : Within allowed depth (path ++ [slot])) :
    nodes next' allowed depth root = insert child (nodes next allowed depth root) := by
  ext reached
  constructor
  · rintro ⟨other, hother, hreached⟩
    rcases (hattach.descend_iff hfresh hother).mp hreached with hold | ⟨rfl, -⟩
    · exact Or.inr (mem_nodes hother hold)
    · exact Or.inl rfl
  · rintro (rfl | ⟨other, hother, hreached⟩)
    · exact mem_nodes hpath (hattach.reached hfresh hnode hpath)
    · exact mem_nodes hother (hattach.kept hfresh hother hreached)

/-- A fresh node below a node with a single path has a single path. -/
theorem Attached.only (honly : Only next allowed depth root path node) :
    Only next' allowed depth root (path ++ [slot]) child := by
  intro other hother hreached
  rcases (hattach.descend_iff hfresh hother).mp hreached with hold | ⟨-, path', rfl, hnode'⟩
  · exact absurd (mem_nodes hother hold) hfresh
  · rw [honly path' hother.left hnode']

end General

end Attach

section Levels

/-- The paths within the bounds that lead to a node have one length, its level. -/
def Leveled (next : Node → Slot → Option Node) (allowed : Slot → Prop) (depth : ℕ)
    (root : Node) : Prop :=
  ∀ path path' node, Within allowed depth path → Within allowed depth path' →
    descend next root path = some node → descend next root path' = some node →
    path.length = path'.length

/-- Two graphs with the same paths have the same levels. -/
theorem Leveled.of_descend_eq (h : Leveled next allowed depth root)
    (hsame : ∀ path, Within allowed depth path →
      descend next' root path = descend next root path) :
    Leveled next' allowed depth root := by
  intro path path' node hpath hpath' hnode hnode'
  rw [hsame path hpath] at hnode
  rw [hsame path' hpath'] at hnode'
  exact h path path' node hpath hpath' hnode hnode'

/-- Only the empty path leads to the root. -/
theorem Leveled.only_root (h : Leveled next allowed depth root) :
    Only next allowed depth root [] root := by
  intro path hpath hroot
  exact List.length_eq_zero_iff.mp (h path [] root hpath within_nil hroot rfl)

/-- The successors of a node of the last level are not read. -/
theorem Leveled.descend_of_last (h : Leveled next allowed depth root)
    (hpath : Within allowed depth path) (hlen : path.length = depth)
    (hnode : descend next root path = some node)
    (hframe : ∀ other slot, other ≠ node → next' other slot = next other slot)
    {other : List Slot} (hother : Within allowed depth other) :
    descend next' root other = descend next root other := by
  apply descend_congr
  rintro before slot after parent rfl hparent
  apply hframe
  rintro rfl
  have hlevel := h before path parent hother.left hpath hparent hnode
  have hdepth := hother.1
  rw [List.length_append, List.length_cons] at hdepth
  omega

/-- A fresh node that is linked below another one has a level. -/
theorem Attached.leveled (hattach : Attached next next' allowed node slot child)
    (hfresh : child ∉ nodes next allowed depth root) (h : Leveled next allowed depth root) :
    Leveled next' allowed depth root := by
  intro path path' reached hpath hpath' hreached hreached'
  rcases (hattach.descend_iff hfresh hpath).mp hreached with hold | ⟨rfl, front, rfl, hfront⟩
  · rcases (hattach.descend_iff hfresh hpath').mp hreached' with hold' | ⟨rfl, -⟩
    · exact h path path' reached hpath hpath' hold hold'
    · exact absurd (mem_nodes hpath hold) hfresh
  · rcases (hattach.descend_iff hfresh hpath').mp hreached' with hold' | ⟨-, front', rfl, hfront'⟩
    · exact absurd (mem_nodes hpath' hold') hfresh
    · rw [List.length_append, List.length_append,
        h front front' node hpath.left hpath'.left hfront hfront']

end Levels

/-- A path that leads nowhere leads to a node whose next entry is empty. -/
theorem exists_of_descend_eq_none (h : descend next root path = none) :
    ∃ before slot after node, path = before ++ slot :: after ∧
      descend next root before = some node ∧ next node slot = none := by
  induction path using List.reverseRecOn with
  | nil => cases h
  | append_singleton path slot ih =>
    cases hpath : descend next root path with
    | none =>
      obtain ⟨before, slot', after, node, rfl, hnode, hnone⟩ := ih hpath
      exact ⟨before, slot', after ++ [slot], node, by simp, hnode, hnone⟩
    | some node =>
      rw [descend_concat hpath] at h
      exact ⟨path, slot, [], node, rfl, hpath, h⟩

end Descent
