import Mathlib.Data.Finset.Erase
import Mathlib.Data.Finset.Insert
import Mathlib.Logic.Relation

/-!
# Routines that interrupt each other on one processor

A processor runs the top routine of a stack. An interrupt pushes a routine, and a routine that
has ended is popped. The routines take and release locks, and one that waits for a lock spins:
the routines below it do not run in the meantime. So a routine that needs a lock of a routine
below it never ends. This file says when that happens, for routines without branches over
arbitrary locks and devices.
-/

namespace Preemption

/-- A step of a routine. -/
inductive Op (Lock Action : Type*) where
  /-- Take a lock; spin while it is held. -/
  | acquire (lock : Lock)
  /-- Give a lock back. -/
  | release (lock : Lock)
  /-- Access a device. -/
  | act (action : Action)
  deriving DecidableEq, Repr

variable {Lock Action Device : Type*}

/-- A state of the processor with its locks and devices. -/
structure Config (Lock Action Device : Type*) where
  /-- The locks that are held. -/
  held : Finset Lock
  /-- The devices. -/
  device : Device
  /-- What is left of the routines, the running one first. -/
  stack : List (List (Op Lock Action))

/-! ## The locks of a routine -/

/-- What is left of a routine releases a lock before it takes it: the routine holds the lock. -/
def Owns (lock : Lock) : List (Op Lock Action) → Prop
  | [] => False
  | .acquire l :: code => l ≠ lock ∧ Owns lock code
  | .release l :: code => l = lock ∨ Owns lock code
  | .act _ :: code => Owns lock code

/-- A routine takes only locks that it does not hold, and releases only locks that it holds. -/
def WellBracketed : List (Op Lock Action) → Prop
  | [] => True
  | .acquire l :: code => Owns l code ∧ WellBracketed code
  | .release l :: code => ¬Owns l code ∧ WellBracketed code
  | .act _ :: code => WellBracketed code

/-- Whether a routine holds a lock can be computed. -/
instance Owns.decidable [DecidableEq Lock] (lock : Lock) :
    (code : List (Op Lock Action)) → Decidable (Owns lock code)
  | [] => inferInstanceAs (Decidable False)
  | .acquire l :: code =>
    have := Owns.decidable lock code
    inferInstanceAs (Decidable (l ≠ lock ∧ Owns lock code))
  | .release l :: code =>
    have := Owns.decidable lock code
    inferInstanceAs (Decidable (l = lock ∨ Owns lock code))
  | .act _ :: code => Owns.decidable lock code

/-- Whether a routine uses its locks in pairs can be computed. -/
instance WellBracketed.decidable [DecidableEq Lock] :
    (code : List (Op Lock Action)) → Decidable (WellBracketed code)
  | [] => inferInstanceAs (Decidable True)
  | .acquire l :: code =>
    have := WellBracketed.decidable code
    inferInstanceAs (Decidable (Owns l code ∧ WellBracketed code))
  | .release l :: code =>
    have := WellBracketed.decidable code
    inferInstanceAs (Decidable (¬Owns l code ∧ WellBracketed code))
  | .act _ :: code => WellBracketed.decidable code

/-- A routine that can be entered: it starts without locks and uses them in pairs. -/
structure Entry (code : List (Op Lock Action)) : Prop where
  /-- It takes each lock before it releases it. -/
  free (lock : Lock) : ¬Owns lock code
  /-- It uses its locks in pairs. -/
  wellBracketed : WellBracketed code

/-! ## Steps -/

/-- The running routine does its next step; there is none when all routines have ended, and when
the next step is to take a lock that is held. -/
def exec [DecidableEq Lock] (perform : Action → Device → Device) (c : Config Lock Action Device) :
    Option (Config Lock Action Device) :=
  match c.stack with
  | [] => none
  | [] :: below => some { c with stack := below }
  | (.acquire l :: code) :: below =>
    if l ∈ c.held then none else some { c with held := insert l c.held, stack := code :: below }
  | (.release l :: code) :: below =>
    some { c with held := c.held.erase l, stack := code :: below }
  | (.act a :: code) :: below =>
    some { c with device := perform a c.device, stack := code :: below }

/-- A step of the running routine, a step of the devices on their own, or an interrupt by a
routine that can be entered. -/
inductive Move [DecidableEq Lock] (perform : Action → Device → Device)
    (c : Config Lock Action Device) : Config Lock Action Device → Prop where
  /-- The running routine goes on. -/
  | exec {c' : Config Lock Action Device} (h : exec perform c = some c') : Move perform c c'
  /-- The devices change. -/
  | device (device : Device) : Move perform c { c with device }
  /-- A routine is entered. -/
  | interrupt (device : Device) {code : List (Op Lock Action)} (h : Entry code) :
      Move perform c { c with device, stack := code :: c.stack }

/-- The locks that are held are those of the routines, no two routines hold the same one, and
every routine uses its locks in pairs. -/
structure Invariant (c : Config Lock Action Device) : Prop where
  /-- A lock is held when a routine holds it. -/
  mem_held (lock : Lock) : lock ∈ c.held ↔ ∃ code ∈ c.stack, Owns lock code
  /-- No two routines hold the same lock. -/
  pairwise : c.stack.Pairwise fun code code' => ∀ lock, ¬(Owns lock code ∧ Owns lock code')
  /-- What is left of a routine uses its locks in pairs. -/
  wellBracketed : ∀ code ∈ c.stack, WellBracketed code

section

variable {c : Config Lock Action Device} {code : List (Op Lock Action)}
  {below stack : List (List (Op Lock Action))} {lock : Lock}

/-! ## The invariant -/

/-- The invariant when a routine runs on top of others. -/
theorem invariant_cons (hstack : c.stack = code :: below) :
    Invariant c ↔
      (∀ lock, lock ∈ c.held ↔ Owns lock code ∨ ∃ b ∈ below, Owns lock b) ∧
      (∀ b ∈ below, ∀ lock, ¬(Owns lock code ∧ Owns lock b)) ∧
      (below.Pairwise fun code code' => ∀ lock, ¬(Owns lock code ∧ Owns lock code')) ∧
      WellBracketed code ∧ ∀ b ∈ below, WellBracketed b := by
  constructor
  · rintro ⟨hheld, hpairwise, hbracketed⟩
    rw [hstack] at hheld hpairwise hbracketed
    simp only [List.exists_mem_cons_iff] at hheld
    obtain ⟨hhead, htail⟩ := List.pairwise_cons.mp hpairwise
    obtain ⟨hcode, hbelow⟩ := List.forall_mem_cons.mp hbracketed
    exact ⟨hheld, hhead, htail, hcode, hbelow⟩
  · rintro ⟨hheld, hhead, htail, hcode, hbelow⟩
    refine ⟨fun lock => ?_, ?_, ?_⟩ <;> rw [hstack]
    · rw [hheld, List.exists_mem_cons_iff]
    · exact List.pairwise_cons.mpr ⟨hhead, htail⟩
    · exact List.forall_mem_cons.mpr ⟨hcode, hbelow⟩

/-- Entering a routine keeps the invariant. -/
theorem Invariant.interrupt (h : Invariant c) (hentry : Entry code) (device : Device) :
    Invariant { c with device, stack := code :: c.stack } := by
  refine (invariant_cons rfl).mpr ⟨fun lock => ?_, fun b _ lock hboth =>
    hentry.free lock hboth.1, h.pairwise, hentry.wellBracketed, h.wellBracketed⟩
  rw [or_iff_right (hentry.free lock)]
  exact h.mem_held lock

/-! ## Routines that never end -/

/-- Of the routines on a stack, one waits, now or later, for a lock that a routine below it
holds; the argument is what lies below the waiting one. -/
inductive BlockedOn (below : List (List (Op Lock Action))) : List (List (Op Lock Action)) → Prop
  /-- The top routine takes a lock of a routine below it. -/
  | waits {code b : List (Op Lock Action)} {lock : Lock} (htake : .acquire lock ∈ code)
    (hb : b ∈ below) (howns : Owns lock b) : BlockedOn below (code :: below)
  /-- A routine below the top one is blocked. -/
  | push {code : List (Op Lock Action)} {stack : List (List (Op Lock Action))}
    (h : BlockedOn below stack) : BlockedOn below (code :: stack)

/-- The top routine is the one that waits, or it lies above it. -/
theorem blockedOn_cons : BlockedOn below (code :: stack) ↔
    (stack = below ∧ ∃ lock, .acquire lock ∈ code ∧ ∃ b ∈ below, Owns lock b) ∨
      BlockedOn below stack := by
  constructor
  · intro h
    cases h with
    | waits htake hb howns => exact .inl ⟨rfl, _, htake, _, hb, howns⟩
    | push h => exact .inr h
  · rintro (⟨rfl, lock, htake, b, hb, howns⟩ | h)
    · exact .waits htake hb howns
    · exact .push h

/-- What a blocked routine waits for stays below it. -/
theorem BlockedOn.suffix (h : BlockedOn below stack) : below <:+ stack := by
  induction h with
  | waits => exact List.suffix_cons _ _
  | push _ ih => exact ih.trans (List.suffix_cons _ _)

/-- A routine holds the lock that a blocked one waits for. -/
theorem BlockedOn.ne_nil (h : BlockedOn below stack) : below ≠ [] := by
  induction h with
  | waits _ hb => exact List.ne_nil_of_mem hb
  | push _ ih => exact ih

/-- There is a routine above the one that holds the lock. -/
theorem BlockedOn.length_lt (h : BlockedOn below stack) : below.length < stack.length := by
  cases h with
  | waits => exact Nat.lt_succ_self _
  | push h => exact Nat.lt_succ_of_le h.suffix.length_le

/-- A routine of the state is blocked. -/
def Blocked (c : Config Lock Action Device) : Prop := ∃ below, BlockedOn below c.stack

/-- Entering a routine blocks it exactly when it takes a lock that is held. -/
theorem interrupt_blockedOn_iff (h : Invariant c) :
    BlockedOn below (code :: c.stack) ↔
      (c.stack = below ∧ ∃ lock ∈ c.held, .acquire lock ∈ code) ∨ BlockedOn below c.stack := by
  rw [blockedOn_cons]
  refine or_congr_left (and_congr_right fun hbelow => exists_congr fun lock => ?_)
  rw [h.mem_held, hbelow, and_comm]

/-- The steps that are left to the routines on the stack. -/
def Config.size (c : Config Lock Action Device) : ℕ := c.stack.flatten.length + c.stack.length

/-- A step is taken off the running routine. -/
theorem Config.size_lt {held held' : Finset Lock} {device device' : Device} (op : Op Lock Action)
    (code : List (Op Lock Action)) (below : List (List (Op Lock Action))) :
    (⟨held', device', code :: below⟩ : Config Lock Action Device).size <
      (⟨held, device, (op :: code) :: below⟩ : Config Lock Action Device).size := by
  simp only [Config.size, List.flatten_cons, List.cons_append, List.length_cons]
  omega

end

section

variable [DecidableEq Lock] {perform : Action → Device → Device}
  {c c' : Config Lock Action Device} {code : List (Op Lock Action)}
  {below : List (List (Op Lock Action))} {lock : Lock}

/-! ## Runs -/

/-- What a step of the running routine can be. -/
theorem exec_cases (h : exec perform c = some c') :
    (∃ below, c.stack = [] :: below ∧ c' = { c with stack := below }) ∨
    (∃ l code below, c.stack = (.acquire l :: code) :: below ∧ l ∉ c.held ∧
      c' = { c with held := insert l c.held, stack := code :: below }) ∨
    (∃ l code below, c.stack = (.release l :: code) :: below ∧
      c' = { c with held := c.held.erase l, stack := code :: below }) ∨
    (∃ a code below, c.stack = (.act a :: code) :: below ∧
      c' = { c with device := perform a c.device, stack := code :: below }) := by
  unfold exec at h
  split at h
  case h_1 => cases h
  case h_2 below hstack => exact .inl ⟨below, hstack, (Option.some.inj h).symm⟩
  case h_3 l code below hstack =>
    split at h
    case isTrue => cases h
    case isFalse hfree =>
      exact .inr (.inl ⟨l, code, below, hstack, hfree, (Option.some.inj h).symm⟩)
  case h_4 l code below hstack =>
    exact .inr (.inr (.inl ⟨l, code, below, hstack, (Option.some.inj h).symm⟩))
  case h_5 a code below hstack =>
    exact .inr (.inr (.inr ⟨a, code, below, hstack, (Option.some.inj h).symm⟩))

/-- A step of the running routine does not touch the routines below it. -/
theorem mem_tail_of_exec (h : exec perform c = some c') (hcode : code ∈ c'.stack.tail) :
    code ∈ c.stack.tail := by
  obtain ⟨stack, hstack, rfl⟩ | ⟨l, head, stack, hstack, -, rfl⟩ |
    ⟨l, head, stack, hstack, rfl⟩ | ⟨a, head, stack, hstack, rfl⟩ := exec_cases h <;> rw [hstack]
  · exact List.mem_of_mem_tail hcode
  all_goals exact hcode

/-- A step of the running routine keeps the invariant. -/
theorem Invariant.exec (h : Invariant c) (hexec : exec perform c = some c') : Invariant c' := by
  obtain ⟨below, hstack, rfl⟩ | ⟨l, code, below, hstack, hfree, rfl⟩ |
    ⟨l, code, below, hstack, rfl⟩ | ⟨a, code, below, hstack, rfl⟩ := exec_cases hexec
  · obtain ⟨hheld, -, htail, -, hbelow⟩ := (invariant_cons hstack).mp h
    exact ⟨fun lock => (hheld lock).trans (or_iff_right id), htail, hbelow⟩
  · obtain ⟨hheld, hhead, htail, ⟨howns, hcode⟩, hbelow⟩ := (invariant_cons hstack).mp h
    have hnone : ∀ b ∈ below, ¬Owns l b := fun b hb hl =>
      hfree ((hheld l).mpr (Or.inr ⟨b, hb, hl⟩))
    refine (invariant_cons rfl).mpr ⟨fun lock => ?_, fun b hb lock hboth => ?_, htail, hcode,
      hbelow⟩
    · rw [Finset.mem_insert, hheld]
      by_cases hlock : l = lock
      · subst hlock
        exact iff_of_true (Or.inl rfl) (Or.inl howns)
      · simp only [Ne.symm hlock, Owns, ne_eq, hlock, not_false_eq_true, true_and, false_or]
    · by_cases hlock : l = lock
      · subst hlock
        exact hnone b hb hboth.2
      · exact hhead b hb lock ⟨⟨hlock, hboth.1⟩, hboth.2⟩
  · obtain ⟨hheld, hhead, htail, ⟨howns, hcode⟩, hbelow⟩ := (invariant_cons hstack).mp h
    have hnone : ∀ b ∈ below, ¬Owns l b := fun b hb hl => hhead b hb l ⟨Or.inl rfl, hl⟩
    refine (invariant_cons rfl).mpr ⟨fun lock => ?_, fun b hb lock hboth =>
      hhead b hb lock ⟨Or.inr hboth.1, hboth.2⟩, htail, hcode, hbelow⟩
    rw [Finset.mem_erase, hheld]
    by_cases hlock : l = lock
    · subst hlock
      refine iff_of_false (fun hmem => hmem.1 rfl) ?_
      rintro (hl | ⟨b, hb, hl⟩)
      · exact howns hl
      · exact hnone b hb hl
    · simp only [Ne.symm hlock, Owns, ne_eq, hlock, not_false_eq_true, true_and, false_or]
  · obtain ⟨hheld, hhead, htail, hcode, hbelow⟩ := (invariant_cons hstack).mp h
    exact (invariant_cons (show _ = code :: below from rfl)).mpr
      ⟨hheld, hhead, htail, hcode, hbelow⟩

/-- Every move keeps the invariant. -/
theorem Invariant.move (h : Invariant c) (hmove : Move perform c c') : Invariant c' := by
  cases hmove with
  | exec hexec => exact h.exec hexec
  | device device => exact ⟨h.mem_held, h.pairwise, h.wellBracketed⟩
  | interrupt device hentry => exact h.interrupt hentry device

/-- A step of the running routine blocks no routine and frees none. -/
theorem exec_blockedOn_iff (h : Invariant c) (hexec : exec perform c = some c') :
    BlockedOn below c'.stack ↔ BlockedOn below c.stack := by
  obtain ⟨stack, hstack, rfl⟩ | ⟨l, code, stack, hstack, hfree, rfl⟩ |
    ⟨l, code, stack, hstack, rfl⟩ | ⟨a, code, stack, hstack, rfl⟩ := exec_cases hexec
  · rw [hstack, blockedOn_cons]
    simp
  · -- The lock that was taken is free, so no routine below holds it.
    have hnone : ∀ b ∈ stack, ¬Owns l b := fun b hb hl =>
      hfree ((((invariant_cons hstack).mp h).1 l).mpr (Or.inr ⟨b, hb, hl⟩))
    rw [hstack, blockedOn_cons, blockedOn_cons]
    refine or_congr_left (and_congr_right fun hbelow => exists_congr fun lock => ?_)
    subst hbelow
    simp only [List.mem_cons, Op.acquire.injEq]
    constructor
    · exact fun hwait => ⟨Or.inr hwait.1, hwait.2⟩
    · rintro ⟨rfl | htake, b, hb, howns⟩
      · exact absurd howns (hnone b hb)
      · exact ⟨htake, b, hb, howns⟩
  · rw [hstack, blockedOn_cons, blockedOn_cons]
    simp
  · rw [hstack, blockedOn_cons, blockedOn_cons]
    simp

/-- A blocked routine stays blocked, whatever happens. -/
theorem BlockedOn.move (h : Invariant c) (hblocked : BlockedOn below c.stack)
    (hmove : Move perform c c') : BlockedOn below c'.stack := by
  cases hmove with
  | exec hexec => exact (exec_blockedOn_iff h hexec).mpr hblocked
  | device device => exact hblocked
  | interrupt device hentry => exact hblocked.push

/-- A blocked routine never ends: in every run, what lies below it is never resumed. -/
theorem BlockedOn.run (h : Invariant c) (hblocked : BlockedOn below c.stack)
    (hrun : Relation.ReflTransGen (Move perform) c c') :
    Invariant c' ∧ BlockedOn below c'.stack := by
  induction hrun with
  | refl => exact ⟨h, hblocked⟩
  | tail _ hmove ih => exact ⟨ih.1.move hmove, ih.2.move ih.1 hmove⟩

/-! ## Routines that end -/

/-- When no routine is blocked, the running one can go on. -/
theorem exists_exec (perform : Action → Device → Device) (h : Invariant c)
    (hblocked : ¬Blocked c) (hstack : c.stack ≠ []) :
    ∃ c', exec perform c = some c' ∧ c'.size < c.size := by
  obtain ⟨held, device, stack⟩ := c
  rcases stack with _ | ⟨_ | ⟨op, code⟩, below⟩
  · exact absurd rfl hstack
  · exact ⟨_, rfl, Nat.lt_succ_self _⟩
  · cases op with
    | acquire l =>
      have hfree : l ∉ held := by
        intro hl
        obtain ⟨b, hb, howns⟩ := (h.mem_held l).mp hl
        rcases List.mem_cons.mp hb with rfl | hb
        · exact howns.1 rfl
        · exact hblocked ⟨below, .waits List.mem_cons_self hb howns⟩
      exact ⟨_, if_neg hfree, Config.size_lt _ code below⟩
    | release l => exact ⟨_, rfl, Config.size_lt _ code below⟩
    | act a => exact ⟨_, rfl, Config.size_lt _ code below⟩

/-- When no routine is blocked, all of them end if nothing interrupts them. -/
theorem exists_finished (perform : Action → Device → Device) (h : Invariant c)
    (hblocked : ¬Blocked c) :
    ∃ c', Relation.ReflTransGen (fun c c' => exec perform c = some c') c c' ∧ c'.stack = [] := by
  induction hsize : c.size using Nat.strong_induction_on generalizing c with
  | _ n ih =>
    by_cases hstack : c.stack = []
    · exact ⟨c, .refl, hstack⟩
    · obtain ⟨c', hexec, hlt⟩ := exists_exec perform h hblocked hstack
      have hblocked' : ¬Blocked c' := by
        rintro ⟨below, hbelow⟩
        exact hblocked ⟨below, (exec_blockedOn_iff h hexec).mp hbelow⟩
      obtain ⟨c'', hrun, hend⟩ := ih c'.size (hsize ▸ hlt) (h.exec hexec) hblocked' rfl
      exact ⟨c'', .head hexec hrun, hend⟩

end

end Preemption
