import Mathlib.Data.Nat.Count
import Mathlib.Logic.Function.Iterate

/-! Runs of clocked machines. A machine is given by its successor relation, so
that one clock of a closed circuit and one clock under arbitrary inputs are
treated alike. `Surely` describes a stretch of a fixed number of clocks whose
intermediate states are all constrained; it is what separates "the next visit"
from "some later visit". Nothing here depends on a particular circuit. -/
namespace Cpen311.ClockedRun

universe u
variable {State : Type u}

def IsRun (next : State → State → Prop) (run : Nat → State) : Prop :=
  ∀ n, next (run n) (run (n + 1))

/-- The run of a machine that reads one input at each clock. -/
def drive {Input : Type} (step : Input → State → State) (input : Nat → Input)
    (start : State) : Nat → State
  | 0 => start
  | n + 1 => step (input n) (drive step input start n)

def clocked {Input : Type} (step : Input → State → State) (before after : State) : Prop :=
  ∃ input, step input before = after

theorem drive_is_run {Input : Type} (step : Input → State → State) (input : Nat → Input)
    (start : State) : IsRun (clocked step) (drive step input start) :=
  fun n => ⟨input n, rfl⟩

theorem iterate_is_run (step : State → State) (start : State) :
    IsRun (fun before after => step before = after) (fun n => step^[n] start) :=
  fun n => (Function.iterate_succ_apply' step n start).symm

theorem shifted_is_run {next : State → State → Prop} {run : Nat → State}
    (isRun : IsRun next run) (offset : Nat) : IsRun next (fun n => run (offset + n)) :=
  fun n => isRun (offset + n)

theorem invariant_along {next : State → State → Prop} {run : Nat → State}
    (isRun : IsRun next run) {Inv : State → Prop}
    (preserved : ∀ before after, next before after → Inv before → Inv after)
    (initial : Inv (run 0)) (n : Nat) : Inv (run n) := by
  induction n with
  | zero => exact initial
  | succ n ih => exact preserved _ _ (isRun n) ih

theorem invariant_from {next : State → State → Prop} {run : Nat → State}
    (isRun : IsRun next run) {Inv : State → Prop}
    (preserved : ∀ before after, next before after → Inv before → Inv after)
    {start n : Nat} (initial : Inv (run start)) (later : start ≤ n) : Inv (run n) := by
  obtain ⟨distance, rfl⟩ := Nat.exists_eq_add_of_le later
  exact invariant_along (shifted_is_run isRun start) preserved initial distance

/-- For `n` clocks every state satisfies `During`, whatever the machine does,
and the state reached after them satisfies `After`. -/
def Surely (next : State → State → Prop) (During After : State → Prop) : Nat → State → Prop
  | 0, state => After state
  | n + 1, state => During state ∧ ∀ after, next state after → Surely next During After n after

section Stretches
variable {next : State → State → Prop} {During Between After : State → Prop}

theorem surely_trans {n m : Nat} {state : State} (first : Surely next During Between n state)
    (second : ∀ middle, Between middle → Surely next During After m middle) :
    Surely next During After (n + m) state := by
  induction n generalizing state with
  | zero => simpa using second state first
  | succ n ih =>
      rw [Nat.succ_add]
      exact ⟨first.1, fun after taken => ih (first.2 after taken)⟩

/-- One clock of a machine with inputs, whatever the input is. -/
theorem surely_input {Input : Type} {step : Input → State → State} {n : Nat} {state : State}
    (during : During state)
    (rest : ∀ input, Surely (clocked step) During After n (step input state)) :
    Surely (clocked step) During After (n + 1) state := by
  refine ⟨during, ?_⟩
  rintro _ ⟨input, rfl⟩
  exact rest input

/-- A loop whose body takes `period` clocks carries its invariant through `count` rounds. -/
theorem surely_repeat {Inv : Nat → State → Prop} {period : Nat} (bound : Nat)
    (body : ∀ round state, round < bound → Inv round state →
      Surely next During (Inv (round + 1)) period state)
    (first count : Nat) (inside : first + count ≤ bound) {state : State}
    (initial : Inv first state) :
    Surely next During (Inv (first + count)) (count * period) state := by
  induction count with
  | zero => simpa [Surely] using initial
  | succ count ih =>
      rw [Nat.succ_mul]
      exact surely_trans (ih (by omega))
        (fun middle reached => body (first + count) middle (by omega) reached)

theorem surely_ends {run : Nat → State} (isRun : IsRun next run) {n a : Nat}
    (stretch : Surely next During After n (run a)) : After (run (a + n)) := by
  induction n generalizing a with
  | zero => exact stretch
  | succ n ih =>
      have rest := ih (a := a + 1) (stretch.2 _ (isRun a))
      rwa [Nat.add_right_comm] at rest

theorem surely_during {run : Nat → State} (isRun : IsRun next run) {n a : Nat}
    (stretch : Surely next During After n (run a)) (m : Nat) (early : m < n) :
    During (run (a + m)) := by
  induction n generalizing a m with
  | zero => omega
  | succ n ih =>
      cases m with
      | zero => exact stretch.1
      | succ m =>
          have rest := ih (a := a + 1) (stretch.2 _ (isRun a)) m (by omega)
          rwa [Nat.add_right_comm, Nat.add_assoc] at rest

/-- A stretch whose length depends on what happens in it, within a bound. -/
def SurelyWithin (next : State → State → Prop) (During After : State → Prop) :
    Nat → State → Prop
  | 0, state => After state
  | n + 1, state => After state ∨
      During state ∧ ∀ after, next state after → SurelyWithin next During After n after

theorem surely_within_after {state : State} (bound : Nat) (reached : After state) :
    SurelyWithin next During After bound state := by
  cases bound with
  | zero => exact reached
  | succ bound => exact Or.inl reached

theorem surely_within_mono {n m : Nat} {state : State}
    (stretch : SurelyWithin next During After n state) (more : n ≤ m) :
    SurelyWithin next During After m state := by
  induction n generalizing m state with
  | zero => exact surely_within_after m stretch
  | succ n ih =>
      obtain ⟨m, rfl⟩ := Nat.exists_eq_add_of_le' (Nat.lt_of_lt_of_le (Nat.succ_pos n) more)
      rcases stretch with reached | ⟨during, rest⟩
      · exact Or.inl reached
      · exact Or.inr ⟨during, fun after taken => ih (rest after taken) (by omega)⟩

theorem surely_is_within {n : Nat} {state : State} (stretch : Surely next During After n state) :
    SurelyWithin next During After n state := by
  induction n generalizing state with
  | zero => exact stretch
  | succ n ih => exact Or.inr ⟨stretch.1, fun after taken => ih (stretch.2 after taken)⟩

theorem surely_within_trans {n m : Nat} {state : State}
    (first : SurelyWithin next During Between n state)
    (second : ∀ middle, Between middle → SurelyWithin next During After m middle) :
    SurelyWithin next During After (n + m) state := by
  induction n generalizing state with
  | zero => simpa using second state first
  | succ n ih =>
      rcases first with reached | ⟨during, rest⟩
      · exact surely_within_mono (second state reached) (by omega)
      · rw [Nat.succ_add]
        exact Or.inr ⟨during, fun after taken => ih (rest after taken)⟩

theorem surely_within_ends {run : Nat → State} (isRun : IsRun next run) {n a : Nat}
    (stretch : SurelyWithin next During After n (run a)) :
    ∃ b, a ≤ b ∧ After (run b) ∧ ∀ u, a ≤ u → u < b → During (run u) := by
  induction n generalizing a with
  | zero => exact ⟨a, Nat.le_refl a, stretch, fun u late early => by omega⟩
  | succ n ih =>
      rcases stretch with reached | ⟨during, rest⟩
      · exact ⟨a, Nat.le_refl a, reached, fun u late early => by omega⟩
      · obtain ⟨b, later, reached, inside⟩ := ih (rest _ (isRun a))
        refine ⟨b, by omega, reached, fun u late early => ?_⟩
        rcases Nat.eq_or_lt_of_le late with rfl | after
        · exact during
        · exact inside u after early

end Stretches

/-! Excursions. A run has states that are home; from one of them it may leave,
stay away for a bounded stretch, and come back to a state that is related to the
one it left. -/
section Excursions
variable (next : State → State → Prop) (Away Returned : State → State → Prop)

structure Excursion (bound : Nat) (run : Nat → State) (a b : Nat) : Prop where
  departed : a < b
  away : ∀ u, a < u → u ≤ b → Away (run a) (run u)
  returning : ∃ left, b + left ≤ a + bound ∧
    SurelyWithin next (Away (run a)) (Returned (run a)) left (run b)

/-- A state away from home is not home, and a return leads home. -/
structure Homing (Home : State → Prop) : Prop where
  exclusive : ∀ d s, Home d → Away d s → ¬ Home s
  back : ∀ d s, Home d → Returned d s → Home s

variable {next Away Returned} {Home : State → Prop} {run : Nat → State} {bound : Nat}

theorem excursion_starts {a : Nat} (gone : Away (run a) (run (a + 1)))
    (stretch : SurelyWithin next (Away (run a)) (Returned (run a)) bound (run (a + 1))) :
    Excursion next Away Returned (bound + 1) run a (a + 1) := by
  refine ⟨Nat.lt_succ_self a, fun u after before => ?_, bound, by omega, stretch⟩
  obtain rfl : u = a + 1 := by omega
  exact gone

theorem excursion_left (homing : Homing Away Returned Home) {a b : Nat} (home : Home (run a))
    (trip : Excursion next Away Returned bound run a b) :
    ∃ left, b + 1 + left ≤ a + bound ∧ ∀ after, next (run b) after →
      SurelyWithin next (Away (run a)) (Returned (run a)) left after := by
  obtain ⟨departed, away, left, inside, returning⟩ := trip
  have notReturned : ¬ Returned (run a) (run b) := fun returned =>
    homing.exclusive _ _ home (away b departed (Nat.le_refl b)) (homing.back _ _ home returned)
  -- the bound is not used up: at its end the run would have returned
  cases left with
  | zero => exact absurd returning notReturned
  | succ left => exact ⟨left, by omega, (returning.resolve_left notReturned).2⟩

theorem excursion_step (isRun : IsRun next run) (homing : Homing Away Returned Home) {a b : Nat}
    (home : Home (run a)) (trip : Excursion next Away Returned bound run a b) :
    Returned (run a) (run (b + 1)) ∨ Excursion next Away Returned bound run a (b + 1) := by
  obtain ⟨left, inside, rest⟩ := excursion_left homing home trip
  have later := rest _ (isRun b)
  by_cases returned : Returned (run a) (run (b + 1))
  · exact Or.inl returned
  · have departed := trip.departed
    refine Or.inr ⟨by omega, fun u after before => ?_, left, inside, later⟩
    rcases Nat.lt_succ_iff_lt_or_eq.mp (Nat.lt_succ_of_le before) with earlier | rfl
    · exact trip.away u after (by omega)
    · cases left with
      | zero => exact absurd later returned
      | succ left => exact (later.resolve_left returned).1

/-- From its first time home on, the run is home or on an excursion from home. -/
theorem home_or_excursion (isRun : IsRun next run) (homing : Homing Away Returned Home)
    {first : Nat} (initial : Home (run first))
    (leaves : ∀ n, Home (run n) → Home (run (n + 1)) ∨ Away (run n) (run (n + 1)) ∧
      SurelyWithin next (Away (run n)) (Returned (run n)) bound (run (n + 1)))
    {t : Nat} (late : first ≤ t) :
    Home (run t) ∨ ∃ a, first ≤ a ∧ Home (run a) ∧
      Excursion next Away Returned (bound + 1) run a t := by
  induction t, late using Nat.le_induction with
  | base => exact Or.inl initial
  | succ t late ih =>
      rcases ih with home | ⟨a, after, home, trip⟩
      · rcases leaves t home with stays | ⟨gone, stretch⟩
        · exact Or.inl stays
        · exact Or.inr ⟨t, late, home, excursion_starts gone stretch⟩
      · rcases excursion_step isRun homing home trip with returned | trip
        · exact Or.inl (homing.back _ _ home returned)
        · exact Or.inr ⟨a, after, home, trip⟩

/-- An excursion ends within the bound, in a state related to its departure. -/
theorem home_again (isRun : IsRun next run) (homing : Homing Away Returned Home) {a b : Nat}
    (home : Home (run a)) (trip : Excursion next Away Returned bound run a b) :
    ∃ u, b < u ∧ u ≤ a + bound ∧ Returned (run a) (run u) ∧
      ∀ v, a < v → v < u → Away (run a) (run v) := by
  obtain ⟨left, inside, -⟩ := excursion_left homing home trip
  -- the time that remains until the bound decreases at each step away from home
  induction remaining : a + bound - b generalizing b left with
  | zero => omega
  | succ remaining ih =>
      rcases excursion_step isRun homing home trip with returned | onward
      · exact ⟨b + 1, Nat.lt_succ_self b, by omega, returned, fun v after before =>
          trip.away v after (by omega)⟩
      · obtain ⟨left, inside, -⟩ := excursion_left homing home onward
        obtain ⟨u, later, early, facts⟩ := ih onward left inside (by omega)
        exact ⟨u, by omega, early, facts⟩

end Excursions

theorem count_quiet {p : Nat → Prop} [DecidablePred p] {a b : Nat} (order : a ≤ b)
    (quiet : ∀ u, a ≤ u → u < b → ¬ p u) : Nat.count p b = Nat.count p a := by
  induction b, order using Nat.le_induction with
  | base => rfl
  | succ b order ih =>
      rw [Nat.count_succ, if_neg (quiet b order (Nat.lt_succ_self b)), Nat.add_zero]
      exact ih fun u late early => quiet u late (by omega)

theorem holds_between {Value : Type*} {x : Nat → Value} {a b : Nat}
    (steady : ∀ k, a ≤ k → k < b → x (k + 1) = x k) {k : Nat} (late : a ≤ k) (early : k ≤ b) :
    x k = x a := by
  induction k, late using Nat.le_induction with
  | base => rfl
  | succ k late ih => exact (steady k late early).trans (ih (Nat.le_of_succ_le early))

/-! Visits. The visit numbered `k` (from 0) to an event is the time at which the
event holds after holding at exactly `k` earlier times. -/
section Visits
variable (event : State → Prop) [DecidablePred event] (run : Nat → State)

def earlierVisits (time : Nat) : Nat := Nat.count (fun n => event (run n)) time

def VisitAt (k time : Nat) : Prop := event (run time) ∧ earlierVisits event run time = k

theorem visit_unique {k first second : Nat} (atFirst : VisitAt event run k first)
    (atSecond : VisitAt event run k second) : first = second :=
  Nat.count_injective (p := fun n => event (run n)) atFirst.1 atSecond.1
    (atFirst.2.trans atSecond.2.symm)

/-- Before every visit but the first there is a previous one. -/
theorem previous_visit {k time : Nat} (visited : earlierVisits event run time = k + 1) :
    ∃ before < time, VisitAt event run k before ∧
      ∀ u, before < u → u < time → ¬ event (run u) := by
  induction time with
  | zero => exact absurd visited (Nat.succ_ne_zero k).symm
  | succ time ih =>
      by_cases now : event (run time)
      · have counted : earlierVisits event run time = k := by
          rw [earlierVisits, Nat.count_succ, if_pos now] at visited
          exact Nat.succ.inj visited
        exact ⟨time, Nat.lt_succ_self time, ⟨now, counted⟩, fun u after before => by omega⟩
      · rw [earlierVisits, Nat.count_succ, if_neg now] at visited
        obtain ⟨before, early, visit, quiet⟩ := ih visited
        refine ⟨before, Nat.lt_succ_of_lt early, visit, fun u after soon => ?_⟩
        rcases Nat.lt_succ_iff_lt_or_eq.mp soon with earlier | rfl
        · exact quiet u after earlier
        · exact now

theorem visit_order {j k first second : Nat} (atFirst : VisitAt event run j first)
    (atSecond : VisitAt event run k second) (order : j < k) : first < second := by
  by_contra late
  have counts := Nat.count_monotone (fun n => event (run n)) (Nat.le_of_not_lt late)
  have := atFirst.2
  have := atSecond.2
  simp only [earlierVisits] at *
  omega

theorem visit_index_le {j k first second : Nat} (atFirst : VisitAt event run j first)
    (atSecond : VisitAt event run k second) (order : first ≤ second) : j ≤ k := by
  rw [← atFirst.2, ← atSecond.2]
  exact Nat.count_monotone _ order

theorem earlier_visits_quiet {a length : Nat}
    (quiet : ∀ m, m < length → ¬ event (run (a + m))) :
    earlierVisits event run (a + length) = earlierVisits event run a :=
  count_quiet (Nat.le_add_right a length) fun u late early => by
    obtain ⟨m, rfl⟩ := Nat.exists_eq_add_of_le late
    exact quiet m (by omega)

theorem earlier_visits_succ {time k : Nat} (visit : VisitAt event run k time) :
    earlierVisits event run (time + 1) = k + 1 := by
  have counted := visit.2
  simp only [earlierVisits] at *
  rw [Nat.count_succ, counted, if_pos visit.1]

/-- After a visit, a stretch without the event leads to the next visit. -/
theorem next_visit {k time length : Nat} (visit : VisitAt event run k time)
    (quiet : ∀ m, m < length → ¬ event (run (time + 1 + m)))
    (again : event (run (time + 1 + length))) :
    VisitAt event run (k + 1) (time + 1 + length) :=
  ⟨again, (earlier_visits_quiet event run quiet).trans (earlier_visits_succ event run visit)⟩

theorem first_visit {length : Nat} (quiet : ∀ m, m < length → ¬ event (run m))
    (reached : event (run length)) : VisitAt event run 0 length := by
  have counted := earlier_visits_quiet event run (a := 0) (by simpa using quiet)
  rw [Nat.zero_add] at counted
  exact ⟨reached, counted.trans (Nat.count_zero _)⟩

end Visits

end Cpen311.ClockedRun
