import Axel.Fault
import Axel.Lib.SplitCounter
import Mathlib.Order.Monotone.Basic

/-!
# Waiting on the system timer

`arch::arm11::peripheral::timer` measures time with the free-running 64-bit counter of the
BCM2835. A load reads 32 bits, so the two words of the counter are loaded one after the
other while the counter keeps running. A run of the machine is a sequence of moments with a
counter value at each of them; every load, call and return takes place at some moment, and
the counter may advance by any amount between two moments.
-/

namespace Axel.Timer

/-- The counter of the system timer over a run of the machine. -/
structure Trace where
  /-- The value of the counter at each moment. -/
  counter : ℕ → ℕ
  /-- The counter never decreases. -/
  monotone : Monotone counter
  /-- The counter has 64 bits and does not wrap around. -/
  counter_lt : ∀ t, counter t < 2 ^ 64

/-- The profiles of the manifest, which differ in what an arithmetic overflow does. -/
inductive Profile where
  /-- An overflow panics. -/
  | dev
  /-- An overflow wraps around. -/
  | release
  deriving DecidableEq, Repr

/-- Subtraction of `u64` values. -/
def Profile.sub : Profile → ℕ → ℕ → Except Fault ℕ
  | .dev, a, b => checkedSub a b
  | .release, a, b => .ok ((a + (2 ^ 64 - b)) % 2 ^ 64)

/-- Multiplication of `u64` values. -/
def Profile.mul : Profile → ℕ → ℕ → Except Fault ℕ
  | .dev, a, b => checkedMul a b
  | .release, a, b => .ok (a * b % 2 ^ 64)

/-- The registers of the enumeration `Addr` that the timer functions load. -/
inductive Addr where
  /-- The low word of the counter. -/
  | timerClo
  /-- The high word of the counter. -/
  | timerChi
  deriving DecidableEq, Repr

/-- The 32 bits that a register shows while the counter has the given value. -/
def Addr.word : Addr → ℕ → ℕ
  | .timerClo, counter => counter % 2 ^ 32
  | .timerChi, counter => counter / 2 ^ 32

/-- `Addr::load` of a `u32`, called at the moment `t`, with the moment of its return. The
register is read at a moment in between. -/
def Addr.load (self : Addr) (trace : Trace) (t : ℕ) : ℕ × ℕ :=
  (self.word (trace.counter (t + 1)), t + 2)

/-- `get_time_counter_value`, called at the moment `t`, with the moment of its return. -/
def getTimeCounterValue (trace : Trace) (t : ℕ) : ℕ × ℕ :=
  let (lo, t) := Addr.timerClo.load trace t
  let (hi, t) := Addr.timerChi.load trace t
  (hi <<< 32 ||| lo, t)

/-- The loop of `wait_usec` from the moment `t` on: the moment at which it is left, or
nothing if that takes more than `fuel` passes. -/
def waitLoop (profile : Profile) (trace : Trace) (usec timeBegin : ℕ) :
    ℕ → ℕ → Except Fault (Option ℕ)
  | 0, _ => .ok none
  | fuel + 1, t => do
    let (timeCurrent, t) := getTimeCounterValue trace t
    let elapsed ← profile.sub timeCurrent timeBegin
    if usec ≤ elapsed then return some t
    else waitLoop profile trace usec timeBegin fuel t

/-- `wait_usec`, called at the moment `t`: the moment of its return, or nothing if it is
still waiting after `fuel` passes of its loop. -/
def waitUsec (profile : Profile) (trace : Trace) (usec fuel t : ℕ) :
    Except Fault (Option ℕ) :=
  let (timeBegin, t) := getTimeCounterValue trace t
  waitLoop profile trace usec timeBegin fuel t

/-- `wait`, for milliseconds. -/
def wait (profile : Profile) (trace : Trace) (msec fuel t : ℕ) : Except Fault (Option ℕ) := do
  let usec ← profile.mul msec 1000
  waitUsec profile trace usec fuel t

/-! ## One reading -/

/-- How often the low word wraps around between the two loads of a call of
`get_time_counter_value` at the moment `t`. -/
def wraps (trace : Trace) (t : ℕ) : ℕ :=
  SplitCounter.wraps (2 ^ 32) (trace.counter (t + 1)) (trace.counter (t + 3))

/-- How far the call of `get_time_counter_value` at the moment `t` reads ahead of the
counter at its start. -/
def lead (trace : Trace) (t : ℕ) : ℕ :=
  trace.counter (t + 1) + 2 ^ 32 * wraps trace t - trace.counter t

/-- The counter advances by a full range of the low word for each wrap-around between the
loads of the call at the moment `t`, from the first load to the return, but for the
`slack`. -/
def SettledWithin (trace : Trace) (slack t : ℕ) : Prop :=
  trace.counter (t + 1) + 2 ^ 32 * wraps trace t ≤ trace.counter (t + 4) + slack

/-- A call that is settled without any slack, such as one whose loads see the same high
word. -/
def Settled (trace : Trace) (t : ℕ) : Prop := SettledWithin trace 0 t

/-- A call whose loads see the same high word is settled. -/
theorem settled_of_wraps_eq_zero {trace : Trace} {t : ℕ} (h : wraps trace t = 0) :
    Settled trace t := by
  unfold Settled SettledWithin
  rw [h, Nat.mul_zero, Nat.add_zero, Nat.add_zero]
  exact trace.monotone (by omega)

/-- A settled call is settled within any slack. -/
theorem Settled.within {trace : Trace} {t : ℕ} (h : Settled trace t) (slack : ℕ) :
    SettledWithin trace slack t :=
  le_trans h (Nat.add_le_add_left (Nat.zero_le slack) _)

/-- A subtraction that does not underflow is the same in both profiles. -/
theorem Profile.sub_eq {a b : ℕ} (profile : Profile) (hle : b ≤ a) (ha : a < 2 ^ 64) :
    profile.sub a b = .ok (a - b) := by
  cases profile with
  | dev => exact checkedSub_ok hle
  | release =>
    have hsum : a + (2 ^ 64 - b) = a - b + 2 ^ 64 := by omega
    rw [Profile.sub, hsum, Nat.add_mod_right, Nat.mod_eq_of_lt (by omega)]

/-- A call joins the low word of its first load with the high word of its second. -/
theorem getTimeCounterValue_fst (trace : Trace) (t : ℕ) :
    (getTimeCounterValue trace t).1 =
      SplitCounter.join (2 ^ 32) (trace.counter (t + 1)) (trace.counter (t + 3)) :=
  SplitCounter.shiftLeft_or_eq_join 32 _ _

/-- A call returns the value of the counter at its first load, plus a full range of the low
word for each wrap-around before its second load. -/
theorem getTimeCounterValue_eq (trace : Trace) (t : ℕ) :
    getTimeCounterValue trace t =
      (trace.counter (t + 1) + 2 ^ 32 * wraps trace t, t + 4) := by
  have hle : trace.counter (t + 1) ≤ trace.counter (t + 3) := trace.monotone (by omega)
  rw [wraps, ← SplitCounter.join_eq hle, ← getTimeCounterValue_fst]
  rfl

/-- The result of a call is a `u64`. -/
theorem getTimeCounterValue_lt (trace : Trace) (t : ℕ) :
    (getTimeCounterValue trace t).1 < 2 ^ 64 := by
  rw [getTimeCounterValue_fst]
  exact SplitCounter.join_lt (c := 2 ^ 32) (Nat.two_pow_pos 32) (trace.counter_lt (t + 3))

/-- A call never returns less than the counter at its start. -/
theorem counter_le_getTimeCounterValue (trace : Trace) (t : ℕ) :
    trace.counter t ≤ (getTimeCounterValue trace t).1 := by
  rw [getTimeCounterValue_fst]
  calc trace.counter t
      ≤ trace.counter (t + 1) := trace.monotone (by omega)
    _ ≤ _ := SplitCounter.le_join (trace.monotone (by omega))

/-- What a call returns is ahead of the counter at its start by its lead. -/
theorem getTimeCounterValue_eq_add_lead (trace : Trace) (t : ℕ) :
    (getTimeCounterValue trace t).1 = trace.counter t + lead trace t := by
  have hle := counter_le_getTimeCounterValue trace t
  rw [getTimeCounterValue_eq] at hle ⊢
  exact (Nat.add_sub_of_le hle).symm

/-- What a call returns exceeds the counter at its return by at most the slack within
which it is settled. -/
theorem getTimeCounterValue_le_add_iff (trace : Trace) (slack t : ℕ) :
    (getTimeCounterValue trace t).1 ≤ trace.counter (t + 4) + slack ↔
      SettledWithin trace slack t := by
  rw [getTimeCounterValue_eq]
  exact Iff.rfl

/-- A call returns at most the counter at its return exactly when it is settled. -/
theorem getTimeCounterValue_le_iff (trace : Trace) (t : ℕ) :
    (getTimeCounterValue trace t).1 ≤ trace.counter (t + 4) ↔ Settled trace t :=
  getTimeCounterValue_le_add_iff trace 0 t

/-! ## The loop -/

variable {profile : Profile} {trace : Trace} {usec timeBegin fuel t t' : ℕ}

/-- One pass of the loop that starts when the counter is not behind `time_begin`. -/
theorem waitLoop_succ (hbegin : timeBegin ≤ trace.counter t) :
    waitLoop profile trace usec timeBegin (fuel + 1) t =
      if usec ≤ (getTimeCounterValue trace t).1 - timeBegin then .ok (some (t + 4))
      else waitLoop profile trace usec timeBegin fuel (t + 4) := by
  have hle := le_trans hbegin (counter_le_getTimeCounterValue trace t)
  have hsub := profile.sub_eq hle (getTimeCounterValue_lt trace t)
  rw [waitLoop]
  simp only [hsub, bind, Except.bind, pure, Except.pure]
  rw [getTimeCounterValue_eq]

/-- The loop never panics. -/
theorem waitLoop_ok (hbegin : timeBegin ≤ trace.counter t) :
    ∃ result, waitLoop profile trace usec timeBegin fuel t = .ok result := by
  induction fuel generalizing t with
  | zero => exact ⟨none, rfl⟩
  | succ fuel ih =>
    rw [waitLoop_succ hbegin]
    split
    · exact ⟨some (t + 4), rfl⟩
    · exact ih (le_trans hbegin (trace.monotone (by omega)))

/-- The loop is left after its first pass at the earliest. -/
theorem waitLoop_later (h : waitLoop profile trace usec timeBegin fuel t = .ok (some t')) :
    t + 4 ≤ t' := by
  induction fuel generalizing t with
  | zero => simp [waitLoop] at h
  | succ fuel ih =>
    rw [waitLoop, getTimeCounterValue_eq] at h
    obtain ⟨elapsed, -, hrest⟩ := Except.bind_eq_ok.mp h
    split at hrest
    · have ht : t + 4 = t' := by simpa [pure, Except.pure] using hrest
      exact ht.le
    · have := ih hrest
      omega

/-- The loop is left once a pass reads a value that is far enough from `time_begin`. -/
theorem waitLoop_returns {n : ℕ} (hbegin : timeBegin ≤ trace.counter t)
    (h : timeBegin + usec ≤ (getTimeCounterValue trace (t + 4 * n)).1) :
    ∃ t' ≤ t + 4 * (n + 1),
      waitLoop profile trace usec timeBegin (n + 1) t = .ok (some t') := by
  induction n generalizing t with
  | zero =>
    have henough : usec ≤ (getTimeCounterValue trace t).1 - timeBegin := by
      rw [Nat.mul_zero, Nat.add_zero] at h
      omega
    exact ⟨t + 4, by omega, by rw [waitLoop_succ hbegin, if_pos henough]⟩
  | succ n ih =>
    rw [waitLoop_succ hbegin]
    split
    · exact ⟨t + 4, by omega, rfl⟩
    · have hmoment : t + 4 * (n + 1) = t + 4 + 4 * n := by omega
      rw [hmoment] at h
      obtain ⟨t', hle, hret⟩ := ih (le_trans hbegin (trace.monotone (by omega))) h
      exact ⟨t', by omega, hret⟩

/-- The calls after the first one, counted from the moment at which that one returns. -/
theorem later_calls {p : ℕ → Prop} (h : ∀ n, t + 4 * (n + 1) < t' → p (t + 4 * (n + 1))) (n : ℕ)
    (hn : t + 4 + 4 * n < t') : p (t + 4 + 4 * n) := by
  have hmoment : t + 4 + 4 * n = t + 4 * (n + 1) := by omega
  rw [hmoment] at hn ⊢
  exact h n hn

/-- When the loop is left, the counter has advanced from `time_begin` by the time to wait,
but for the slack within which every call of the loop is settled. -/
theorem waitLoop_elapsed {slack : ℕ} (hbegin : timeBegin ≤ trace.counter t)
    (hsettled : ∀ n, t + 4 * n < t' → SettledWithin trace slack (t + 4 * n))
    (h : waitLoop profile trace usec timeBegin fuel t = .ok (some t')) :
    timeBegin + usec ≤ trace.counter t' + slack := by
  induction fuel generalizing t with
  | zero => simp [waitLoop] at h
  | succ fuel ih =>
    have hlater := waitLoop_later h
    rw [waitLoop_succ hbegin] at h
    split at h
    case isTrue henough =>
      have ht : t + 4 = t' := by simpa using h
      have hread := (getTimeCounterValue_le_add_iff trace slack t).mpr (hsettled 0 (by omega))
      have hle := le_trans hbegin (counter_le_getTimeCounterValue trace t)
      rw [← ht]
      omega
    case isFalse =>
      exact ih (le_trans hbegin (trace.monotone (by omega)))
        (later_calls fun n hn => hsettled (n + 1) hn) h

/-- A wait is its loop, started after one more call. -/
theorem waitUsec_eq (profile : Profile) (trace : Trace) (usec fuel t : ℕ) :
    waitUsec profile trace usec fuel t =
      waitLoop profile trace usec (getTimeCounterValue trace t).1 fuel (t + 4) := by
  rw [waitUsec, getTimeCounterValue_eq]

/-- A wait whose first call is settled does not panic. -/
theorem waitUsec_ok (h : Settled trace t) :
    ∃ result, waitUsec profile trace usec fuel t = .ok result := by
  rw [waitUsec_eq]
  exact waitLoop_ok ((getTimeCounterValue_le_iff trace t).mpr h)

/-- A wait whose first call is settled returns if the counter gets far enough. -/
theorem waitUsec_returns {m : ℕ} (h : Settled trace t)
    (hm : (getTimeCounterValue trace t).1 + usec ≤ trace.counter m) :
    ∃ fuel t', waitUsec profile trace usec fuel t = .ok (some t') := by
  have hread : (getTimeCounterValue trace t).1 + usec ≤
      (getTimeCounterValue trace (t + 4 + 4 * m)).1 :=
    calc (getTimeCounterValue trace t).1 + usec
        ≤ trace.counter m := hm
      _ ≤ trace.counter (t + 4 + 4 * m) := trace.monotone (by omega)
      _ ≤ (getTimeCounterValue trace (t + 4 + 4 * m)).1 := counter_le_getTimeCounterValue _ _
  obtain ⟨t', -, hret⟩ := waitLoop_returns ((getTimeCounterValue_le_iff trace t).mpr h) hread
  exact ⟨m + 1, t', by rw [waitUsec_eq, hret]⟩

/-- A wait does not return early if its first call is settled and no later one reads
further ahead of the counter than the first. -/
theorem waitUsec_elapsed (h : waitUsec profile trace usec fuel t = .ok (some t'))
    (hfirst : Settled trace t)
    (hlater : ∀ n, t + 4 * (n + 1) < t' → SettledWithin trace (lead trace t) (t + 4 * (n + 1))) :
    trace.counter t + usec ≤ trace.counter t' := by
  rw [waitUsec_eq] at h
  have hbegin := (getTimeCounterValue_le_iff trace t).mpr hfirst
  have hloop : (getTimeCounterValue trace t).1 + usec ≤ trace.counter t' + lead trace t :=
    waitLoop_elapsed hbegin (later_calls hlater) h
  rw [getTimeCounterValue_eq_add_lead] at hloop
  omega

/-- A wait for milliseconds does not return early if its calls are settled and the number
of microseconds is a `u64`. -/
theorem wait_elapsed {msec : ℕ} (hmsec : msec * 1000 < 2 ^ 64)
    (h : wait profile trace msec fuel t = .ok (some t')) (hsettled : ∀ s, Settled trace s) :
    trace.counter t + msec * 1000 ≤ trace.counter t' := by
  obtain ⟨usec, hmul, hwait⟩ := Except.bind_eq_ok.mp h
  have husec : usec = msec * 1000 := by
    cases profile with
    | dev => exact (checkedMul_eq_ok.mp hmul).2.symm
    | release => exact (Except.ok.inj hmul).symm.trans (Nat.mod_eq_of_lt hmsec)
  rw [← husec]
  exact waitUsec_elapsed hwait (hsettled t) fun n _ => (hsettled _).within _

/-- If the first call of a wait is settled and a later one reads further ahead of the
counter, then the wait for the time that the later one measures returns early. -/
theorem exists_early (profile : Profile) {n : ℕ} (hfirst : Settled trace t)
    (hn : ¬SettledWithin trace (lead trace t) (t + 4 * (n + 1))) :
    ∃ usec < 2 ^ 64, ∃ fuel t', waitUsec profile trace usec fuel t = .ok (some t') ∧
      trace.counter t' < trace.counter t + usec := by
  have hmoment : t + 4 * (n + 1) = t + 4 + 4 * n := by omega
  rw [← getTimeCounterValue_le_add_iff, hmoment, not_le] at hn
  have hbegin := (getTimeCounterValue_le_iff trace t).mpr hfirst
  have hlead := getTimeCounterValue_eq_add_lead trace t
  have hread : (getTimeCounterValue trace t).1 ≤
      (getTimeCounterValue trace (t + 4 + 4 * n)).1 :=
    calc (getTimeCounterValue trace t).1
        ≤ trace.counter (t + 4) := hbegin
      _ ≤ trace.counter (t + 4 + 4 * n) := trace.monotone (by omega)
      _ ≤ (getTimeCounterValue trace (t + 4 + 4 * n)).1 := counter_le_getTimeCounterValue _ _
  have hlt := getTimeCounterValue_lt trace (t + 4 + 4 * n)
  obtain ⟨t', hle, hret⟩ := waitLoop_returns hbegin (Nat.add_sub_of_le hread).le
  rw [← waitUsec_eq] at hret
  have hreturn : trace.counter t' ≤ trace.counter (t + 4 + 4 * n + 4) :=
    trace.monotone (by omega)
  exact ⟨_, by omega, n + 1, t', hret, by omega⟩

/-- A call returns a value that the counter has between its start and its return exactly
when it is settled. A wait whose first call is settled and of which no later call reads
further ahead never returns early, in either profile; and when the first call is settled,
the waits that start with it are never early exactly when no later call reads further ahead. -/
theorem waitUsec_never_early (trace : Trace) :
    (∀ t, (trace.counter t ≤ (getTimeCounterValue trace t).1 ∧
        (getTimeCounterValue trace t).1 ≤ trace.counter (getTimeCounterValue trace t).2) ↔
      Settled trace t) ∧
    (∀ profile usec fuel t t', waitUsec profile trace usec fuel t = .ok (some t') →
      Settled trace t →
      (∀ n, t + 4 * (n + 1) < t' → SettledWithin trace (lead trace t) (t + 4 * (n + 1))) →
      trace.counter t + usec ≤ trace.counter t') ∧
    (∀ profile t, Settled trace t →
      ((∀ usec < 2 ^ 64, ∀ fuel t', waitUsec profile trace usec fuel t = .ok (some t') →
          trace.counter t + usec ≤ trace.counter t') ↔
        ∀ n, SettledWithin trace (lead trace t) (t + 4 * (n + 1)))) := by
  refine ⟨fun t => ?_, fun profile usec fuel t t' h hfirst hlater =>
    waitUsec_elapsed h hfirst hlater, fun profile t hfirst => ⟨fun hwait n => ?_,
    fun hlater usec _ fuel t' h => waitUsec_elapsed h hfirst fun n _ => hlater n⟩⟩
  · have hreturn : (getTimeCounterValue trace t).2 = t + 4 := by rw [getTimeCounterValue_eq]
    rw [hreturn, getTimeCounterValue_le_iff]
    exact and_iff_right (counter_le_getTimeCounterValue trace t)
  · by_contra hn
    obtain ⟨usec, husec, fuel, t', hret, hearly⟩ := exists_early profile hfirst hn
    exact absurd (hwait usec husec fuel t' hret) (not_le.mpr hearly)

/-- The counter advances by one between two moments, up to 1000. -/
def steadyTrace : Trace where
  counter t := min t 1000
  monotone := monotone_nat_of_le_succ fun t => by omega
  counter_lt t := by omega

/-- Every call is settled in this run. -/
theorem settled_steadyTrace (t : ℕ) : Settled steadyTrace t := by
  have hsmall : steadyTrace.counter (t + 3) / 2 ^ 32 = 0 :=
    Nat.div_eq_of_lt (lt_of_le_of_lt (Nat.min_le_right _ _) (by decide))
  apply settled_of_wraps_eq_zero
  rw [wraps, SplitCounter.wraps, hsmall, Nat.zero_sub]

/-- Two waits that return after the third pass of their loop, neither of them early. -/
theorem waitUsec_never_early_steady :
    (waitUsec .dev steadyTrace 10 3 0 = .ok (some 16) ∧
      steadyTrace.counter 0 + 10 ≤ steadyTrace.counter 16) ∧
    (waitUsec .release steadyTrace 12 3 0 = .ok (some 16) ∧
      steadyTrace.counter 0 + 12 ≤ steadyTrace.counter 16) := by
  have hdev : waitUsec .dev steadyTrace 10 3 0 = .ok (some 16) := by decide
  have hrelease : waitUsec .release steadyTrace 12 3 0 = .ok (some 16) := by decide
  have hfirst := settled_steadyTrace 0
  obtain ⟨-, hruns, hstarts⟩ := waitUsec_never_early steadyTrace
  refine ⟨⟨hdev, hruns _ _ _ _ _ hdev hfirst fun n _ => (settled_steadyTrace _).within _⟩,
    hrelease, ?_⟩
  have hnever := (hstarts .release 0 hfirst).mpr fun n => (settled_steadyTrace _).within _
  exact hnever 12 (by decide) 3 16 hrelease

/-- The counter wraps around its low word between the loads of the call at the moment 4. -/
def wrappingTrace : Trace where
  counter t := if t ≤ 4 then 2 ^ 32 - 300 else if t ≤ 6 then 2 ^ 32 - 1 else 2 ^ 32
  monotone := monotone_nat_of_le_succ fun t => by split_ifs <;> omega
  counter_lt t := by split_ifs <;> decide

/-- A wait for 1000 microseconds returns after 300, in both profiles. -/
theorem waitUsec_early :
    waitUsec .dev wrappingTrace 1000 1 0 = .ok (some 8) ∧
    waitUsec .release wrappingTrace 1000 1 0 = .ok (some 8) ∧
    wrappingTrace.counter 8 = wrappingTrace.counter 0 + 300 ∧
    wrappingTrace.counter 8 < (getTimeCounterValue wrappingTrace 4).1 := by
  decide

end Axel.Timer
