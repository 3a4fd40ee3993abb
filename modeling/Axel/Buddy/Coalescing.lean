import Axel.Buddy.Contracts

/-!
# The largest order

There are `MAX_ORDER` free lists, so a block must not grow to the order `MAX_ORDER`. The
loop of `free` nevertheless merges at every order below it, and `buddy` only asks whether
the buddy exists. On an array that holds two neighbours of the largest order, freeing the
second one merges them. This file determines the states in which a free does so, in runs
over any number of objects.
-/

namespace Axel

open Dyadic

variable {T : Type} [Object T]

namespace BuddyAllocator

end BuddyAllocator

namespace BuddySystem

/-- A legal call that returns keeps the invariant, and the blocks in use stay of orders
below `MAX_ORDER`. -/
theorem Invariant.returned {σ σ' : BuddySystem T} {count : ℕ} (h : σ.Invariant count)
    (horders : ∀ b ∈ σ.live, b.order < maxOrder) {c : BuddyCall} (hlegal : σ.Legal c)
    (hcall : σ.call c = .ok σ') :
    σ'.Invariant count ∧ ∀ b ∈ σ'.live, b.order < maxOrder := by
  have hinv : σ'.Invariant count := by
    obtain ⟨hsafe, hclimb⟩ := h.call horders hlegal
    by_cases hs : σ.Safe c
    · obtain ⟨next, hnext, hinv⟩ := hsafe hs
      rw [hcall] at hnext
      cases hnext
      exact hinv
    · exact absurd hcall (hclimb hs σ')
  refine ⟨hinv, ?_⟩
  cases c with
  | allocate k =>
    rcases BuddyAllocator.allocate_spec h.wellFormed k with ⟨hrun, -⟩ | ⟨x, s', hrun, hspec⟩
    · simp only [BuddySystem.call, hrun, bind, Except.bind, pure, Except.pure,
        Except.ok.injEq] at hcall
      rw [← hcall]
      exact horders
    · simp only [BuddySystem.call, hrun, bind, Except.bind, pure, Except.pure,
        Except.ok.injEq] at hcall
      obtain ⟨m, -, hkm, hm, -⟩ := hspec.lists
      rw [← hcall]
      intro b hb
      rcases List.mem_cons.mp hb with rfl | hb
      · exact lt_of_le_of_lt hkm hm
      · exact horders b hb
  | free b =>
    obtain ⟨s', -, hrest⟩ := Except.bind_eq_ok.mp hcall
    cases hrest
    exact fun c hc => horders c (List.mem_of_mem_erase hc)

/-- Every state that a legal run reaches has the invariant, whatever the number of objects. -/
theorem Invariant.reached {σ σ' : BuddySystem T} {count : ℕ} (h : σ.Invariant count)
    (horders : ∀ b ∈ σ.live, b.order < maxOrder) {calls : List BuddyCall}
    (hlegal : σ.LegalRun calls) (hrun : σ.run calls = .ok σ') :
    σ'.Invariant count ∧ ∀ b ∈ σ'.live, b.order < maxOrder := by
  induction calls generalizing σ with
  | nil =>
    cases hrun
    exact ⟨h, horders⟩
  | cons c calls ih =>
    obtain ⟨next, hcall, hrest⟩ := Except.bind_eq_ok.mp hrun
    obtain ⟨hnext, hordersNext⟩ := h.returned horders hlegal.1 hcall
    have hlegalNext := hlegal.2
    rw [hcall] at hlegalNext
    exact ih hnext hordersNext hlegalNext hrest

end BuddySystem

end Axel
