import Mathlib.Algebra.Order.Ring.Nat
import Mathlib.Data.Nat.Notation

/-!
# Loops in strides over a memory of cells

A loop without a bound of its own advances a position until it reaches a limit, and writes a
memory on the way. Whether it ends depends on what an iteration adds to the position. This
file has the rules for such loops, and for the memory that stores at regular distances leave
behind: one row of stores and a grid of rows. The cells, the states of a loop and its failures
are arbitrary.
-/

namespace Strides

/-! ## Loops -/

section Loops

variable {α ε σ : Type}

/-- A computation with fuel returns a result: any fuel from some amount on gives it. -/
def Returns (run : ℕ → Option α) (result : α) : Prop :=
  ∃ enough, ∀ fuel, enough ≤ fuel → run fuel = some result

/-- A computation returns at most one result. -/
theorem Returns.unique {run : ℕ → Option α} {result other : α} (hresult : Returns run result)
    (hother : Returns run other) : result = other := by
  obtain ⟨enough, hrun⟩ := hresult
  obtain ⟨enough', hrun'⟩ := hother
  have hsome := hrun (max enough enough') (by omega)
  rw [hrun' (max enough enough') (by omega)] at hsome
  exact (Option.some.inj hsome).symm

/-- A computation that does not look at its fuel returns its result. -/
theorem Returns.const (result : α) : Returns (fun _ => some result) result :=
  ⟨0, fun _ _ => rfl⟩

/-- Runs `body` at `position`, moves on by `advance`, and goes on while the position is below
`bound`. `none` means that the fuel ran out. -/
def loop (advance : ℕ → Except ε ℕ) (body : ℕ → σ → Option (Except ε σ)) (bound : ℕ) :
    ℕ → ℕ → σ → Option (Except ε σ)
  | 0, _, _ => none
  | fuel + 1, position, state =>
    if position < bound then
      match body position state with
      | none => none
      | some (.error failure) => some (.error failure)
      | some (.ok state') =>
        match advance position with
        | .error failure => some (.error failure)
        | .ok position' => loop advance body bound fuel position' state'
    else
      some (.ok state)

/-- The loop returns, when its body has fuel of its own. -/
def LoopReturns (advance : ℕ → Except ε ℕ) (body : ℕ → ℕ → σ → Option (Except ε σ))
    (bound position : ℕ) (state : σ) (result : Except ε σ) : Prop :=
  ∃ enough, ∀ inner fuel, enough ≤ inner → enough ≤ fuel →
    loop advance (body inner) bound fuel position state = some result

variable {advance : ℕ → Except ε ℕ} {body : ℕ → ℕ → σ → Option (Except ε σ)}
  {bound position position' : ℕ} {state state' : σ} {result : Except ε σ} {failure : ε}

/-- One fuel serves the loop and its body. -/
theorem LoopReturns.returns (h : LoopReturns advance body bound position state result) :
    Returns (fun fuel => loop advance (body fuel) bound fuel position state) result := by
  obtain ⟨enough, hloop⟩ := h
  exact ⟨enough, fun fuel hfuel => hloop fuel fuel hfuel hfuel⟩

/-- A loop that has reached its bound leaves the state as it is. -/
theorem LoopReturns.of_le (hbound : bound ≤ position) :
    LoopReturns advance body bound position state (.ok state) := by
  refine ⟨1, fun inner fuel _ hfuel => ?_⟩
  obtain ⟨fuel, rfl⟩ := Nat.exists_eq_add_of_le' hfuel
  exact if_neg (Nat.not_lt.mpr hbound)

/-- A loop whose body fails fails. -/
theorem LoopReturns.of_body_error (hlt : position < bound)
    (hbody : Returns (fun fuel => body fuel position state) (.error failure)) :
    LoopReturns advance body bound position state (.error failure) := by
  obtain ⟨enough, hbody⟩ := hbody
  refine ⟨enough + 1, fun inner fuel hinner hfuel => ?_⟩
  obtain ⟨fuel, rfl⟩ := Nat.exists_eq_add_of_le' (Nat.le_trans (Nat.le_add_left 1 enough) hfuel)
  have hinner := hbody inner (by omega)
  simp only [loop, if_pos hlt, hinner]

/-- A loop that cannot move on fails. -/
theorem LoopReturns.of_advance_error (hlt : position < bound)
    (hbody : Returns (fun fuel => body fuel position state) (.ok state'))
    (hadvance : advance position = .error failure) :
    LoopReturns advance body bound position state (.error failure) := by
  obtain ⟨enough, hbody⟩ := hbody
  refine ⟨enough + 1, fun inner fuel hinner hfuel => ?_⟩
  obtain ⟨fuel, rfl⟩ := Nat.exists_eq_add_of_le' (Nat.le_trans (Nat.le_add_left 1 enough) hfuel)
  have hinner := hbody inner (by omega)
  simp only [loop, if_pos hlt, hinner, hadvance]

/-- A loop returns what the rest of it returns after one iteration. -/
theorem LoopReturns.step (hlt : position < bound)
    (hbody : Returns (fun fuel => body fuel position state) (.ok state'))
    (hadvance : advance position = .ok position')
    (hrest : LoopReturns advance body bound position' state' result) :
    LoopReturns advance body bound position state result := by
  obtain ⟨enough, hbody⟩ := hbody
  obtain ⟨enough', hrest⟩ := hrest
  refine ⟨enough + enough' + 1, fun inner fuel hinner hfuel => ?_⟩
  obtain ⟨fuel, rfl⟩ : ∃ rest, fuel = rest + 1 :=
    Nat.exists_eq_add_of_le' (Nat.le_trans (Nat.le_add_left 1 _) hfuel)
  have hinner' := hbody inner (by omega)
  simp only [loop, if_pos hlt, hinner', hadvance]
  exact hrest inner fuel (by omega) (by omega)

/-- A loop returns if its body does and every move below the bound goes forward. -/
theorem LoopReturns.exists_of_advance
    (hadvance : ∀ position position', position < bound → advance position = .ok position' →
      position < position')
    (hbody : ∀ position state, ∃ result, Returns (fun fuel => body fuel position state) result)
    (position : ℕ) (state : σ) :
    ∃ result, LoopReturns advance body bound position state result := by
  induction hleft : bound - position using Nat.strong_induction_on generalizing position state with
  | _ left ih =>
    subst hleft
    by_cases hlt : position < bound
    · obtain ⟨result, hresult⟩ := hbody position state
      cases result with
      | error failure => exact ⟨_, .of_body_error hlt hresult⟩
      | ok state' =>
        cases hnext : advance position with
        | error failure => exact ⟨_, .of_advance_error hlt hresult hnext⟩
        | ok position' =>
          have hforward := hadvance position position' hlt hnext
          obtain ⟨result, hrest⟩ := ih (bound - position') (by omega) position' state' rfl
          exact ⟨result, .step hlt hresult hnext hrest⟩
    · exact ⟨_, .of_le (Nat.not_lt.mp hlt)⟩

/-- A loop that advances by `stride` up to a bound that is `n` strides away runs through the `n`
states that its iterations leave. Each iteration has room for one more stride. -/
theorem LoopReturns.count {stride : ℕ} (hstride : 0 < stride) (states : ℕ → σ) (n : ℕ)
    (hbound : bound = position + n * stride)
    (hadvance : ∀ position, position + stride ≤ bound →
      advance position = .ok (position + stride))
    (hbody : ∀ i, i < n → position + i * stride + stride ≤ bound →
      Returns (fun fuel => body fuel (position + i * stride) (states i)) (.ok (states (i + 1)))) :
    LoopReturns advance body bound position (states 0) (.ok (states n)) := by
  have hroom : ∀ i, i < n → position + i * stride + stride ≤ bound := by
    intro i hi
    rw [hbound, Nat.add_assoc, ← Nat.succ_mul]
    exact Nat.add_le_add_left (Nat.mul_le_mul_right stride hi) position
  -- The last `left` iterations, starting from the state before them.
  have hsuffix : ∀ left, left ≤ n →
      LoopReturns advance body bound (position + (n - left) * stride) (states (n - left))
        (.ok (states n)) := by
    intro left
    induction left with
    | zero => exact fun _ => .of_le (Nat.le_of_eq hbound)
    | succ left ih =>
      intro hleft
      have hlt : n - (left + 1) < n := by omega
      have hnext : n - (left + 1) + 1 = n - left := by omega
      have hstate := hbody _ hlt (hroom _ hlt)
      have hmove := hadvance _ (hroom _ hlt)
      have hbelow := hroom _ hlt
      rw [Nat.add_assoc, ← Nat.succ_mul, Nat.succ_eq_add_one, hnext] at hmove
      rw [hnext] at hstate
      exact .step (by omega) hstate hmove (ih (by omega))
  have hall := hsuffix n (Nat.le_refl n)
  rwa [Nat.sub_self, Nat.zero_mul, Nat.add_zero] at hall

end Loops

/-! ## Stores -/

section Stores

variable {α : Type}

/-- The memory after `cells` have been stored from `start` on. -/
def store (memory : ℕ → α) (start : ℕ) (cells : List α) : ℕ → α := fun addr =>
  if start ≤ addr then (cells[addr - start]?).getD (memory addr) else memory addr

/-- The memory after `count` cells from `start` on have been set to `cell`. -/
def fill (memory : ℕ → α) (start count : ℕ) (cell : α) : ℕ → α := fun addr =>
  if start ≤ addr ∧ addr < start + count then cell else memory addr

/-- A stored cell is there afterwards. -/
theorem store_inside (memory : ℕ → α) (start : ℕ) {cells : List α} {j : ℕ}
    (hj : j < cells.length) : store memory start cells (start + j) = cells[j] := by
  unfold store
  rw [if_pos (Nat.le_add_right start j), Nat.add_sub_cancel_left,
    List.getElem?_eq_getElem hj, Option.getD_some]

/-- A store leaves the cells before and after it alone. -/
theorem store_outside (memory : ℕ → α) {start addr : ℕ} {cells : List α}
    (haddr : addr < start ∨ start + cells.length ≤ addr) :
    store memory start cells addr = memory addr := by
  unfold store
  split
  case isTrue hle =>
    rw [List.getElem?_eq_none (by omega), Option.getD_none]
  case isFalse hlt => rfl

/-- The memory after the cells have been stored at `count` positions, `stride` apart. -/
def row (memory : ℕ → α) (start stride : ℕ) (cells : List α) : ℕ → (ℕ → α)
  | 0 => memory
  | count + 1 => store (row memory start stride cells count) (start + count * stride) cells

/-- The last store of a row is intact. -/
theorem row_last (memory : ℕ → α) (start stride count : ℕ) {cells : List α} {j : ℕ}
    (hj : j < cells.length) :
    row memory start stride cells (count + 1) (start + count * stride + j) = cells[j] :=
  store_inside _ _ hj

/-- A row leaves the cells alone that none of its stores covers. -/
theorem row_outside (memory : ℕ → α) {start stride addr : ℕ} {cells : List α} {count : ℕ}
    (haddr : ∀ i, i < count →
      addr < start + i * stride ∨ start + i * stride + cells.length ≤ addr) :
    row memory start stride cells count addr = memory addr := by
  induction count with
  | zero => rfl
  | succ count ih =>
    rw [row, store_outside _ (haddr count (Nat.lt_succ_self count))]
    exact ih fun i hi => haddr i (Nat.lt_succ_of_lt hi)

/-- The stores of a row do not touch each other when the stride is wide enough. -/
theorem row_inside (memory : ℕ → α) {start stride : ℕ} {cells : List α} {count i j : ℕ}
    (hstride : cells.length ≤ stride) (hi : i < count) (hj : j < cells.length) :
    row memory start stride cells count (start + i * stride + j) = cells[j] := by
  induction count with
  | zero => exact absurd hi (Nat.not_lt_zero i)
  | succ count ih =>
    rcases Nat.lt_succ_iff_lt_or_eq.mp hi with hlt | rfl
    · have hmul : (i + 1) * stride ≤ count * stride := Nat.mul_le_mul_right stride hlt
      rw [Nat.add_mul, Nat.one_mul] at hmul
      rw [row, store_outside _ (.inl (by omega))]
      exact ih hlt
    · exact row_last memory start stride i hj

/-- A row can be stored in two parts. -/
theorem row_add (memory : ℕ → α) (start stride : ℕ) (cells : List α) (count more : ℕ) :
    row memory start stride cells (count + more) =
      row (row memory start stride cells count) (start + count * stride) stride cells more := by
  induction more with
  | zero => rfl
  | succ more ih =>
    have hstart : start + (count + more) * stride = start + count * stride + more * stride := by
      rw [Nat.add_mul, Nat.add_assoc]
    rw [← Nat.add_assoc, row, row, ih, hstart]

/-- The memory after `height` rows of `width` stores, the rows `pitch` apart. -/
def grid (memory : ℕ → α) (start pitch stride : ℕ) (cells : List α) (width : ℕ) :
    ℕ → (ℕ → α)
  | 0 => memory
  | height + 1 =>
    row (grid memory start pitch stride cells width height) (start + height * pitch) stride
      cells width

/-- A grid leaves the cells alone that none of its stores covers. -/
theorem grid_outside (memory : ℕ → α) {start pitch stride width addr : ℕ} {cells : List α}
    {height : ℕ}
    (haddr : ∀ i k, i < width → k < height →
      addr < start + k * pitch + i * stride ∨
        start + k * pitch + i * stride + cells.length ≤ addr) :
    grid memory start pitch stride cells width height addr = memory addr := by
  induction height with
  | zero => rfl
  | succ height ih =>
    rw [grid, row_outside _ fun i hi => haddr i height hi (Nat.lt_succ_self height)]
    exact ih fun i k hi hk => haddr i k hi (Nat.lt_succ_of_lt hk)

/-- The stores of a grid do not touch each other when the stride and the pitch are wide
enough. -/
theorem grid_inside (memory : ℕ → α) {start pitch stride width : ℕ} {cells : List α}
    {height i k j : ℕ} (hstride : cells.length ≤ stride) (hpitch : width * stride ≤ pitch)
    (hi : i < width) (hk : k < height) (hj : j < cells.length) :
    grid memory start pitch stride cells width height (start + k * pitch + i * stride + j) =
      cells[j] := by
  induction height with
  | zero => exact absurd hk (Nat.not_lt_zero k)
  | succ height ih =>
    rcases Nat.lt_succ_iff_lt_or_eq.mp hk with hlt | rfl
    · have hrows : (k + 1) * pitch ≤ height * pitch := Nat.mul_le_mul_right pitch hlt
      have hcolumns : (i + 1) * stride ≤ width * stride := Nat.mul_le_mul_right stride hi
      rw [Nat.add_mul, Nat.one_mul] at hrows hcolumns
      rw [grid, row_outside _ fun i' _ => .inl (by omega)]
      exact ih hlt
    · rw [grid]
      exact row_inside _ hstride hi hj

/-- A grid of empty rows changes nothing. -/
theorem grid_width_zero (memory : ℕ → α) (start pitch stride : ℕ) (cells : List α)
    (height : ℕ) : grid memory start pitch stride cells 0 height = memory := by
  induction height with
  | zero => rfl
  | succ height ih => rw [grid, row, ih]

/-- Rows that follow each other without a gap are one row. -/
theorem grid_eq_row (memory : ℕ → α) (start stride : ℕ) (cells : List α) (width height : ℕ) :
    grid memory start (width * stride) stride cells width height =
      row memory start stride cells (height * width) := by
  induction height with
  | zero => rw [Nat.zero_mul, row, grid]
  | succ height ih =>
    rw [Nat.add_mul, Nat.one_mul, row_add, ← ih, grid, Nat.mul_assoc]

end Stores

end Strides
