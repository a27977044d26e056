import Mathlib.Data.List.Induction
import Mathlib.Data.Nat.Find
import Cpen311.ClockedRun

/-! A debouncer: a level that follows a line only when the last `w + 1` samples
agree. Time is cut into phases; in a phase of level `v` the line may bounce, but
never stays at the other level for `w + 1` samples, and it is steady for a
stretch of `hold` samples. The level changes once in a phase, before the steady
stretch is over. -/
namespace Cpen311.Debounce
open ClockedRun

variable {w : Nat}

/-- The newest bit enters at the top, as in `{x, buffer[w:1]}`. -/
def shiftIn (x : Bool) (buffer : BitVec (w + 1)) : BitVec (w + 1) :=
  BitVec.cons x (buffer.extractLsb' 1 w)

theorem shift_in_bit (x : Bool) (buffer : BitVec (w + 1)) {i : Nat} (inside : i ≤ w) :
    (shiftIn x buffer).getLsbD i = if i = w then x else buffer.getLsbD (i + 1) := by
  unfold shiftIn
  rw [BitVec.getLsbD_cons]
  split
  · rfl
  · next below =>
    have lower : i < w := by omega
    simp [lower, Nat.add_comm]

/-- The bits shifted in last stand in order at the top. -/
theorem shifted_bit (bits : List Bool) (buffer : BitVec (w + 1)) {i : Nat} (inside : i < bits.length)
    (fits : bits.length ≤ w + 1) :
    (bits.foldl (fun old x => shiftIn x old) buffer).getLsbD (w + 1 - bits.length + i) =
      bits[i] := by
  induction bits using List.reverseRecOn generalizing i with
  | nil => simp at inside
  | append_singleton bits x ih =>
      simp only [List.length_append, List.length_singleton] at inside fits ⊢
      rw [List.foldl_append, List.foldl_cons, List.foldl_nil, shift_in_bit _ _ (by omega)]
      rcases Nat.lt_or_ge i bits.length with earlier | last
      · rw [if_neg (by omega), List.getElem_append_left earlier, ← ih earlier (by omega)]
        congr 1
        omega
      · rw [if_pos (by omega), List.getElem_append_right last]
        simp

def fill (v : Bool) : BitVec (w + 1) := if v then BitVec.allOnes (w + 1) else 0

theorem fill_bit (v : Bool) {i : Nat} (inside : i ≤ w) : (fill v : BitVec (w + 1)).getLsbD i = v := by
  cases v
  · simp [fill]
  · simp [fill]
    omega

theorem eq_fill {v : Bool} {buffer : BitVec (w + 1)} (bits : ∀ i ≤ w, buffer.getLsbD i = v) :
    buffer = fill v :=
  BitVec.eq_of_getLsbD_eq fun i inside => by
    rw [bits i (by omega), fill_bit v (by omega)]

theorem fill_injective {u v : Bool} (same : (fill u : BitVec (w + 1)) = fill v) : u = v := by
  rw [← @fill_bit w u 0 (Nat.zero_le w), same, fill_bit v (Nat.zero_le w)]

structure Debouncer (w : Nat) where
  buffer : BitVec (w + 1)
  level : Bool
  previous : Bool

def Debouncer.clock (x : Bool) (d : Debouncer w) : Debouncer w where
  buffer := shiftIn x d.buffer
  level := if d.buffer = fill true then true else if d.buffer = fill false then false else d.level
  previous := d.level

def Debouncer.rising (d : Debouncer w) : Bool := d.level && !d.previous

def Debouncer.Settled (v : Bool) (d : Debouncer w) : Prop := d.level = v ∧ d.previous = v

theorem settled_quiet {v : Bool} {d : Debouncer w} (settled : d.Settled v) : d.rising = false := by
  obtain ⟨level, previous⟩ := settled
  cases v <;> simp [Debouncer.rising, level, previous]

theorem level_flips {x v : Bool} {d : Debouncer w} (held : d.level = !v)
    (flips : (d.clock x).level = v) : d.buffer = fill v := by
  unfold Debouncer.clock at flips
  grind

theorem level_follows {x v : Bool} {d : Debouncer w} (filled : d.buffer = fill v) :
    (d.clock x).level = v := by
  cases v
  · have distinct : (fill false : BitVec (w + 1)) ≠ fill true := fun same =>
      absurd (fill_injective same) (by decide)
    simp [Debouncer.clock, filled, distinct]
  · simp [Debouncer.clock, filled]

theorem level_stays {x v : Bool} {d : Debouncer w} (held : d.level = v)
    (unfilled : d.buffer ≠ fill (!v)) : (d.clock x).level = v := by
  cases v <;> simp_all [Debouncer.clock]

/-- A phase of level `v` during `[a, b)` whose steady stretch starts at `r`. -/
structure Phase (w hold : Nat) (x : Nat → Bool) (v : Bool) (a r b : Nat) : Prop where
  starts : x a = v
  calm : ∀ u, a ≤ u → u + w < b → ∃ i ≤ w, x (u + i) = v
  late : a ≤ r
  early : r + hold ≤ b
  steady : ∀ t, r ≤ t → t < r + hold → x t = v

section Runs
variable {hold : Nat} {x : Nat → Bool} {d : Nat → Debouncer w}
  (isRun : ∀ t, d (t + 1) = (d t).clock (x t))
include isRun

theorem buffer_past {t i : Nat} (inside : i ≤ w) (past : w < t + i) :
    (d t).buffer.getLsbD i = x (t + i - (w + 1)) := by
  induction t generalizing i with
  | zero => omega
  | succ t ih =>
      rw [isRun, Debouncer.clock, shift_in_bit _ _ inside]
      split
      · next top => rw [top, show t + 1 + w - (w + 1) = t by omega]
      · rw [ih (by omega) (by omega)]
        congr 1
        omega

variable {v : Bool} {a r b : Nat} (phase : Phase w hold x v a r b)
include phase

/-- In a phase the buffer is never full of the other level: it holds the first sample of the
phase, or lies within it. -/
theorem buffer_mixed {t : Nat} (after : a < t) (before : t ≤ b) : (d t).buffer ≠ fill (!v) := by
  intro filled
  by_cases whole : a + w < t
  · obtain ⟨i, inside, sample⟩ := phase.calm (t - (w + 1)) (by omega) (by omega)
    have bit := buffer_past isRun inside (t := t) (by omega)
    rw [filled, fill_bit _ inside, show t + i - (w + 1) = t - (w + 1) + i by omega, sample] at bit
    simp at bit
  · have bit := buffer_past isRun (t := t) (i := a + (w + 1) - t) (by omega) (by omega)
    rw [filled, fill_bit _ (by omega), show t + (a + (w + 1) - t) - (w + 1) = a by omega,
      phase.starts] at bit
    simp at bit

theorem level_kept {s t : Nat} (after : a < s) (held : (d s).level = v) (order : s ≤ t)
    (before : t ≤ b) : (d t).level = v := by
  induction t, order using Nat.le_induction with
  | base => exact held
  | succ t order ih =>
      rw [isRun]
      exact level_stays (ih (by omega)) (buffer_mixed isRun phase (by omega) (by omega))

theorem level_reached (long : w < hold) : (d (r + w + 2)).level = v := by
  rw [show r + w + 2 = r + w + 1 + 1 by omega, isRun]
  refine level_follows (eq_fill fun i inside => ?_)
  rw [buffer_past isRun inside (by omega)]
  exact phase.steady _ (by omega) (by omega)

theorem phase_level (long : w + 2 ≤ hold) {t : Nat} (late : r + w + 2 ≤ t) (before : t ≤ b) :
    (d t).level = v :=
  level_kept isRun phase (by have := phase.late; omega) (level_reached isRun phase (by omega)) late
    before

theorem phase_settles (long : w + 3 ≤ hold) : (d b).Settled v := by
  have early := phase.early
  obtain ⟨c, rfl⟩ : ∃ c, b = c + 1 := ⟨b - 1, by omega⟩
  refine ⟨phase_level isRun phase (by omega) (by omega) (Nat.le_refl _), ?_⟩
  rw [isRun]
  exact phase_level isRun phase (by omega) (by omega) (by omega)

end Runs

section Edges
variable {hold : Nat} {x : Nat → Bool} {d : Nat → Debouncer w}
  (isRun : ∀ t, d (t + 1) = (d t).clock (x t)) {a r b : Nat}
include isRun

theorem rising_level {t : Nat} : (d (t + 1)).rising = true ↔
    (d (t + 1)).level = true ∧ (d t).level = false := by
  have previous : (d (t + 1)).previous = (d t).level := by rw [isRun]; rfl
  simp [Debouncer.rising, previous]

theorem low_phase_quiet (phase : Phase w hold x false a r b) (settled : (d a).Settled true) {t : Nat}
    (after : a ≤ t) (before : t ≤ b) : (d t).rising = false := by
  rcases Nat.eq_or_lt_of_le after with rfl | later
  · exact settled_quiet settled
  · obtain ⟨t, rfl⟩ : ∃ u, t = u + 1 := ⟨t - 1, by omega⟩
    by_contra rises
    obtain ⟨high, low⟩ := (rising_level isRun).mp (by simpa using rises)
    -- the level was low after the first sample, so the buffer cannot raise it
    have started : a < t := by
      rcases Nat.eq_or_lt_of_le (Nat.le_of_lt_succ later) with rfl | started
      · rw [settled.1] at low
        cases low
      · exact started
    rw [isRun] at high
    exact buffer_mixed isRun phase started (by omega) (level_flips low high)

/-- In a high phase the level rises exactly once, at most `w + 2` samples into the steady stretch. -/
theorem high_phase_rises (phase : Phase w hold x true a r b) (settled : (d a).Settled false)
    (long : w + 2 ≤ hold) :
    ∃ t, a ≤ t ∧ t ≤ r + w + 2 ∧ (d t).rising = true ∧
      ∀ u, a ≤ u → u ≤ b → u ≠ t → (d u).rising = false := by
  have early := phase.early
  have reached : ∃ t, a ≤ t ∧ (d t).level = true :=
    ⟨r + w + 2, by have := phase.late; omega, level_reached isRun phase (by omega)⟩
  obtain ⟨after, high⟩ := Nat.find_spec reached
  have least := fun u (before : u < Nat.find reached) => Nat.find_min reached before
  generalize Nat.find reached = t at after high least
  have bound : t ≤ r + w + 2 := by
    by_contra far
    exact least (r + w + 2) (by omega)
      ⟨by have := phase.late; omega, level_reached isRun phase (by omega)⟩
  have low : ∀ u, a ≤ u → u < t → (d u).level = false := fun u since before => by
    simpa [since] using least u before
  have started : a < t := by
    rcases Nat.eq_or_lt_of_le after with rfl | started
    · rw [settled.1] at high
      cases high
    · exact started
  obtain ⟨s, rfl⟩ : ∃ s, t = s + 1 := ⟨t - 1, by omega⟩
  refine ⟨s + 1, after, bound, (rising_level isRun).mpr ⟨high, low s (by omega) (by omega)⟩, ?_⟩
  intro u since before other
  rcases Nat.lt_or_gt_of_ne other with earlier | later
  · simp [Debouncer.rising, low u since earlier]
  · obtain ⟨u, rfl⟩ : ∃ v, u = v + 1 := ⟨u - 1, by omega⟩
    have still := level_kept isRun phase started high (t := u) (by omega) (by omega)
    rw [← Bool.not_eq_true, rising_level isRun, still]
    simp

end Edges

/-- The line carries `bits` during `[a, c)`: for each of them the clock falls and rises, and the
data line shows it from the rise to the end of the steady stretch. -/
inductive Carries (w hold : Nat) (clk dat : Nat → Bool) : Nat → List Bool → Nat → Prop
  | done (a : Nat) : Carries w hold clk dat a [] a
  | bit {a r m s b c : Nat} {x : Bool} {bits : List Bool}
      (low : Phase w hold clk false a r m) (high : Phase w hold clk true m s b)
      (shown : ∀ t, m ≤ t → t < s + hold → dat t = x)
      (rest : Carries w hold clk dat b bits c) : Carries w hold clk dat a (x :: bits) c

/-- During `[a, b)` the debounced clock rises at `t` only, with `room` clocks left, and the data
line shows `x` then. -/
structure Pulse (w room : Nat) (d : Nat → Debouncer w) (dat : Nat → Bool) (x : Bool) (a t b : Nat) :
    Prop where
  since : a ≤ t
  inside : t + room ≤ b
  rises : (d t).rising = true
  alone : ∀ u, a ≤ u → u < b → u ≠ t → (d u).rising = false
  shown : dat t = x

section Pulses
variable {hold : Nat} {clk dat : Nat → Bool} {d : Nat → Debouncer w}
  (isRun : ∀ t, d (t + 1) = (d t).clock (clk t))
include isRun

theorem high_phase_pulse (room : Nat) {a s b : Nat} {x : Bool}
    (high : Phase w hold clk true a s b) (settled : (d a).Settled false)
    (shown : ∀ t, a ≤ t → t < s + hold → dat t = x) (long : w + 2 + room ≤ hold) (positive : 0 < room) :
    ∃ t, Pulse w room d dat x a t b ∧ (d b).Settled true := by
  obtain ⟨t, after, bound, rises, alone⟩ := high_phase_rises isRun high settled (by omega)
  have early := high.early
  exact ⟨t, ⟨after, by omega, rises, fun u since before => alone u since (by omega),
    shown t after (by omega)⟩, phase_settles isRun high (by omega)⟩

theorem carries_pulse (room : Nat) {a c : Nat} {x : Bool} {bits : List Bool}
    (line : Carries w hold clk dat a (x :: bits) c) (settled : (d a).Settled true)
    (long : w + 2 + room ≤ hold) (positive : 0 < room) :
    ∃ t b, Pulse w room d dat x a t b ∧ (d b).Settled true ∧ Carries w hold clk dat b bits c := by
  cases line with
  | @bit _ r m s b _ _ _ low high shown rest =>
      obtain ⟨t, pulse, settles⟩ :=
        high_phase_pulse isRun room high (phase_settles isRun low (by omega)) shown long positive
      have ordered := low.late
      have ends := low.early
      refine ⟨t, b, ⟨by have := pulse.since; omega, pulse.inside, pulse.rises, ?_, pulse.shown⟩,
        settles, rest⟩
      intro u since before other
      rcases Nat.lt_or_ge u m with earlier | later
      · exact low_phase_quiet isRun low settled since (by omega)
      · exact pulse.alone u later before other

end Pulses

/-! A clean line: the clock stays `n` samples at each level, and the data line changes when it
falls. Before the first bit both lines rest high. -/
def squareClk (n t : Nat) : Bool := t / n % 2 == 0

def squareDat (n : Nat) (bits : List Bool) (t : Nat) : Bool := (true :: bits).getD (t / n / 2) true

theorem slot_phase {n : Nat} (positive : 0 < n) (slot : Nat) :
    Phase w n (squareClk n) (slot % 2 == 0) (n * slot) (n * slot) (n * slot + n) := by
  have level : ∀ t, n * slot ≤ t → t < n * slot + n → squareClk n t = (slot % 2 == 0) := by
    intro t late early
    rw [squareClk, Nat.div_eq_of_lt_le (by rwa [Nat.mul_comm]) (by rwa [Nat.mul_comm, Nat.mul_succ])]
  exact ⟨level _ (Nat.le_refl _) (by omega), fun u late early => ⟨0, by omega, level u late (by omega)⟩,
    Nat.le_refl _, Nat.le_refl _, level⟩

theorem square_shows {n : Nat} (bits : List Bool) (j : Nat) {t : Nat}
    (late : n * (2 * j) ≤ t) (early : t < n * (2 * j) + n) :
    squareDat n bits t = (true :: bits).getD j true := by
  have slot : t / n = 2 * j :=
    Nat.div_eq_of_lt_le (by rwa [Nat.mul_comm]) (by rwa [Nat.mul_comm, Nat.mul_succ])
  rw [squareDat, slot, Nat.mul_div_cancel_left j (by decide)]

theorem square_carries {n : Nat} (positive : 0 < n) (bits : List Bool) {xs : List Bool} {j : Nat}
    (segment : xs <+: bits.drop j) :
    Carries w n (squareClk n) (squareDat n bits) (n * (2 * j + 1)) xs
      (n * (2 * (j + xs.length) + 1)) := by
  induction xs generalizing j with
  | nil => exact Carries.done _
  | cons x xs ih =>
      obtain ⟨tail, whole⟩ := segment
      have more : j < bits.length := by
        have lengths := congrArg List.length whole
        simp only [List.cons_append, List.length_cons, List.length_drop] at lengths
        omega
      rw [List.drop_eq_getElem_cons more, List.cons_append, List.cons.injEq] at whole
      have low := @slot_phase w n positive (2 * j + 1)
      have high := @slot_phase w n positive (2 * (j + 1))
      rw [show (2 * j + 1) % 2 = 1 by omega] at low
      rw [Nat.mul_mod_right, show 2 * (j + 1) = 2 * j + 1 + 1 by omega, Nat.mul_succ n (2 * j + 1)] at high
      have rest := @ih (j + 1) ⟨tail, whole.2⟩
      rw [List.length_cons, show j + (xs.length + 1) = j + 1 + xs.length by omega]
      refine Carries.bit low high ?_ rest
      intro t late early
      rw [square_shows bits (j + 1) (by rwa [← Nat.mul_succ] at late)
        (by rwa [← Nat.mul_succ] at early)]
      simp [more, whole.1]

end Cpen311.Debounce
