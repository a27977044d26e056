import Mathlib.Algebra.Order.Floor.Semiring
import Mathlib.Tactic.Linarith

/-! A slow clock of any phase against a fast one. Time is an ordered field; the fast
clock rises at the integers and falls half-way between. Time from 0 on is cut into
slots: slot `2 m` is the instant `m / 2`, and slot `2 m + 1` the open gap after it. A
slow clock with phases longer than a gap changes at most once in a slot, so a circuit
on both clocks takes one step a slot. -/
namespace Cpen311.SlowClock

variable {Time : Type*} [Field Time] [LinearOrder Time]

def ChangesTo (slow : Time → Bool) (level : Bool) (t : Time) : Prop :=
  slow t = level ∧ ∃ δ > 0, ∀ u, t - δ < u → u < t → slow u = !level

abbrev Rises (slow : Time → Bool) : Time → Prop := ChangesTo slow true

abbrev Falls (slow : Time → Bool) : Time → Prop := ChangesTo slow false

/-- A waveform whose phases last at least `phase`, and which does not change while the
fast clock falls. -/
structure Waveform (phase : Time) (slow : Time → Bool) : Prop where
  change : ∀ a b, a < b → slow a ≠ slow b → ∃ c, a < c ∧ c ≤ b ∧ ChangesTo slow (slow b) c
  lasts : ∀ level t, ChangesTo slow level t → ∀ u, t ≤ u → u < t + phase → slow u = level
  apart : ∀ level (n : Nat), ¬ ChangesTo slow level (n + 1 / 2)

/-- `f` is the time the slow clock last fell before `r`. -/
structure LastFell (slow : Time → Bool) (f r : Time) : Prop where
  fell : Falls slow f
  earlier : f < r
  low : ∀ u, f ≤ u → u < r → slow u = false

section Phases
variable {phase : Time} {slow : Time → Bool} (wave : Waveform phase slow)
include wave

theorem opposite_late {level : Bool} {t u : Time} (change : ChangesTo slow level t)
    (back : ChangesTo slow (!level) u) (order : t < u) : t + phase ≤ u := by
  by_contra early
  have still := wave.lasts _ t change u order.le (not_le.mp early)
  rw [back.1] at still
  cases level <;> contradiction

variable [IsStrictOrderedRing Time]

omit wave in
theorem flat_unchanged {level : Bool} {t b : Time} (below : b < t)
    (flat : ∀ u, b ≤ u → u ≤ t → slow u = slow t) : ¬ ChangesTo slow level t := by
  rintro ⟨reached, δ, positive, near⟩
  have close : max b (t - δ / 2) < t := max_lt below (by linarith)
  have before := near _ (lt_of_lt_of_le (by linarith) (le_max_right b (t - δ / 2))) close
  rw [flat _ (le_max_left ..) close.le, reached] at before
  cases level <;> contradiction

/-- The level that a change leads to is left before the change. -/
theorem left_before {level : Bool} {t u : Time} (change : ChangesTo slow level t) (before : u < t)
    (same : slow u = level) : ∃ c, u < c ∧ c < t ∧ ChangesTo slow (!level) c := by
  obtain ⟨-, δ, positive, near⟩ := change
  have close : max u (t - δ / 2) < t := max_lt before (by linarith)
  have other : slow (max u (t - δ / 2)) = !level :=
    near _ (lt_of_lt_of_le (by linarith) (le_max_right ..)) close
  have differs : u ≠ max u (t - δ / 2) := by
    intro equal
    rw [← equal, same] at other
    cases level <;> contradiction
  have after : u < max u (t - δ / 2) := lt_of_le_of_ne (le_max_left ..) differs
  obtain ⟨c, late, early, changes⟩ :=
    wave.change u _ after (by rw [same, other]; cases level <;> decide)
  rw [other] at changes
  exact ⟨c, late, lt_of_le_of_lt early close, changes⟩

/-- The phase that a change ends has lasted as well. -/
theorem before_change {level : Bool} {t u : Time} (change : ChangesTo slow level t)
    (near : t - phase ≤ u) (before : u < t) : slow u = !level := by
  by_contra other
  have same : slow u = level := by
    revert other
    cases slow u <;> cases level <;> decide
  obtain ⟨c, late, early, changes⟩ := left_before wave change before same
  have still := wave.lasts _ c changes t early.le (by linarith)
  rw [change.1] at still
  cases level <;> contradiction

theorem same_far (positive : 0 < phase) {level : Bool} {t next : Time}
    (change : ChangesTo slow level t) (again : ChangesTo slow level next) (order : t < next) :
    t + phase + phase ≤ next := by
  by_contra near
  push Not at near
  have early : max t (next - phase) < next := max_lt order (by linarith)
  have still := wave.lasts _ t change (max t (next - phase)) (le_max_left ..)
    (max_lt (by linarith) (by linarith))
  have other := before_change wave again (le_max_right ..) early
  rw [still] at other
  cases level <;> contradiction

/-- After a first fall, every rise has a last fall before it. -/
theorem last_fell [FloorSemiring Time] (positive : 0 < phase) {first r : Time}
    (fell : Falls slow first) (order : first < r) (rises : Rises slow r) :
    ∃ f, first ≤ f ∧ LastFell slow f r := by
  by_contra none
  -- a fall that is not the last one has another fall more than a phase after it
  have later (n : Nat) : ∃ f, first + n * phase ≤ f ∧ f < r ∧ Falls slow f := by
    induction n with
    | zero => exact ⟨first, by simp, order, fell⟩
    | succ n ih =>
        obtain ⟨f, late, early, falls⟩ := ih
        have far : first ≤ f := by
          have grown : 0 ≤ n * phase := mul_nonneg n.cast_nonneg positive.le
          linarith
        have notLast : ¬ ∀ u, f ≤ u → u < r → slow u = false := fun low =>
          none ⟨f, far, falls, early, low⟩
        push Not at notLast
        obtain ⟨u, after, before, high⟩ := notLast
        have high : slow u = true := by simpa using high
        have long : f + phase ≤ u := by
          by_contra short
          have low := wave.lasts _ f falls u after (not_le.mp short)
          rw [high] at low
          contradiction
        obtain ⟨c, next, soon, changes⟩ := left_before wave rises before high
        refine ⟨c, ?_, soon, changes⟩
        push_cast
        linarith
  have enough := Nat.le_ceil ((r - first) / phase)
  rw [div_le_iff₀ positive] at enough
  obtain ⟨f, late, early, -⟩ := later ⌈(r - first) / phase⌉₊
  linarith

end Phases

section Slots
variable [FloorSemiring Time]

/-- The slot of a time from 0 on. -/
def slot (t : Time) : Nat :=
  if (⌊2 * t⌋₊ : Time) = 2 * t then 2 * ⌊2 * t⌋₊ else 2 * ⌊2 * t⌋₊ + 1

/-- The slow clock rises in the slot. -/
def RiseIn (slow : Time → Bool) (k : Nat) : Prop := ∃ t, 0 ≤ t ∧ slot t = k ∧ Rises slow t

/-- The first fast edge that is at least one and a half periods after `r`. -/
def FirstEdge (m : Nat) (r : Time) : Prop := r + 3 / 2 ≤ m ∧ m < r + 5 / 2

variable [IsStrictOrderedRing Time] {t u : Time}

theorem slot_bounds (started : 0 ≤ t) : (slot t : Time) - 1 < 4 * t ∧ 4 * t < slot t + 1 := by
  have below := Nat.floor_le (show 0 ≤ 2 * t by linarith)
  have above := Nat.lt_floor_add_one (2 * t)
  unfold slot
  split
  · push_cast
    constructor <;> linarith
  · next other =>
    have inside := lt_of_le_of_ne below other
    push_cast
    constructor <;> linarith

theorem slot_instant (even : slot t % 2 = 0) : 4 * t = slot t := by
  unfold slot at *
  split at even
  · next whole =>
    rw [if_pos whole]
    push_cast
    linarith
  · omega

/-- The fast clock rises in the slots divisible by 4. -/
theorem slot_lt_edge (started : 0 ≤ t) (n : Nat) : slot t < 4 * n ↔ t < n := by
  obtain ⟨low, high⟩ := slot_bounds started
  constructor
  · intro before
    have cast : (slot t : Time) + 1 ≤ 4 * n := by exact_mod_cast before
    linarith
  · intro before
    by_contra late
    have cast : (4 * n : Time) ≤ slot t := by exact_mod_cast not_lt.mp late
    have close : slot t < 4 * n + 1 := by
      have casted : (slot t : Time) < 4 * n + 1 := by linarith
      exact_mod_cast casted
    have instant := slot_instant (t := t) (by omega)
    linarith

theorem edge_lt_slot (started : 0 ≤ t) (n : Nat) : 4 * n < slot t ↔ n < t := by
  obtain ⟨low, high⟩ := slot_bounds started
  constructor
  · intro after
    have cast : (4 * n : Time) + 1 ≤ slot t := by exact_mod_cast after
    linarith
  · intro after
    by_contra early
    have cast : (slot t : Time) ≤ 4 * n := by exact_mod_cast not_lt.mp early
    have close : 4 * n < slot t + 1 := by
      have casted : (4 * n : Time) < slot t + 1 := by linarith
      exact_mod_cast casted
    have instant := slot_instant (t := t) (by omega)
    linarith

theorem slot_lt_slot (started : 0 ≤ t) (apart : t + 1 / 2 ≤ u) : slot t < slot u := by
  have first := (slot_bounds started).1
  have second := (slot_bounds (show 0 ≤ u by linarith)).2
  have cast : (slot t : Time) < slot u := by linarith
  exact_mod_cast cast

/-- In a slot the slow clock changes at most once. -/
theorem change_unique {phase : Time} {slow : Time → Bool} (wave : Waveform phase slow)
    (long : 1 / 2 ≤ phase) {level other : Bool} (first : ChangesTo slow level t)
    (second : ChangesTo slow other u) (started : 0 ≤ t) (order : t < u) : slot t < slot u := by
  apply slot_lt_slot started
  by_cases same : other = level
  · subst same
    have far := same_far wave (by linarith) first second order
    linarith
  · have back : other = !level := by
      cases other <;> cases level <;> simp_all
    subst back
    have far := opposite_late wave first second order
    linarith

end Slots

end Cpen311.SlowClock
