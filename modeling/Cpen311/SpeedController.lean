import Mathlib.Data.Int.Basic
import Cpen311.ClockSync

/-! `speed_controller` and what it drives. The divisor is a 28-bit accumulator
without bounds: it steps by 5 from 2273, so speeding up reaches 3, which is too
small for `clock_sync`, and then wraps to the largest divisors. -/
namespace Cpen311.SpeedController
open ClockedRun Phases ClkDivider ClockSync

structure Pulses where
  reset : Bool
  speedUp : Bool
  speedDown : Bool

def standard : Count := 2273

/-- One rising edge of `CLOCK_50`. -/
def speedController (pulses : Pulses) (divisor : Count) : Count :=
  if pulses.reset then standard
  else if pulses.speedUp then divisor - 5
  else if pulses.speedDown then divisor + 5
  else divisor

def divisor (pulses : Nat → Pulses) (t : Nat) : Count := drive speedController pulses standard t

/-- The cycle obeys `speedUp`, which yields to `reset`. -/
def SpeedsUp (p : Pulses) : Prop := p.reset = false ∧ p.speedUp = true

/-- The cycle obeys `speedDown`, which yields to both others. -/
def SpeedsDown (p : Pulses) : Prop := p.reset = false ∧ p.speedUp = false ∧ p.speedDown = true

/-- `divisor22` is the `finalcount` of the divider; `race` as in `ClockSync`. -/
def dividerInputs (pulses : Nat → Pulses) (race : Nat → Bool) (t : Nat) : ClockSync.Inputs where
  finalcount := divisor pulses t
  race := race t

structure InRange (pulses : Nat → Pulses) : Prop where
  faster : ∀ t, SpeedsUp (pulses t) → divisor pulses (t + 1) ≤ divisor pulses t
  slower : ∀ t, SpeedsDown (pulses t) → divisor pulses t ≤ divisor pulses (t + 1)
  working : ∀ t, 6 ≤ (divisor pulses t).toNat
  toggles : ∀ race t, ∃ u, t ≤ u ∧ Toggle (slowWave (run (dividerInputs pulses race))) u
  ticks : ∀ race, OneTick (run (dividerInputs pulses race))

/-- The speed-down cycles less the speed-up cycles since the last reset. -/
def net (pulses : Nat → Pulses) : Nat → Int
  | 0 => 0
  | t + 1 =>
      if (pulses t).reset then 0
      else if (pulses t).speedUp then net pulses t - 1
      else if (pulses t).speedDown then net pulses t + 1
      else net pulses t

def NetBounded (pulses : Nat → Pulses) : Prop :=
  ∀ t, -453 ≤ net pulses t ∧ net pulses t ≤ 53686636

section Range
variable {pulses : Nat → Pulses}

/-- The divisor without the wrap. -/
def ideal (pulses : Nat → Pulses) (t : Nat) : Int := 2273 + 5 * net pulses t

theorem divisor_wraps (t : Nat) : ((divisor pulses t).toNat : Int) = ideal pulses t % 2 ^ 28 := by
  have five : (5 : Count).toNat = 5 := rfl
  induction t with
  | zero => rfl
  | succ t ih =>
      have next : divisor pulses (t + 1) = speedController (pulses t) (divisor pulses t) := rfl
      unfold ideal at *
      rw [next, speedController, net]
      split
      · rfl
      · split
        · rw [BitVec.toNat_sub, five]
          omega
        · split
          · rw [BitVec.toNat_add, five]
            omega
          · exact ih

theorem divisor_ideal {t : Nat} (low : -453 ≤ net pulses t) (high : net pulses t ≤ 53686636) :
    ((divisor pulses t).toNat : Int) = ideal pulses t := by
  rw [divisor_wraps]
  unfold ideal
  omega

theorem net_steps (t : Nat) :
    net pulses (t + 1) = 0 ∨
      net pulses t - 1 ≤ net pulses (t + 1) ∧ net pulses (t + 1) ≤ net pulses t + 1 := by
  rw [net]
  split
  · exact .inl rfl
  · right
    split
    · omega
    · split <;> omega

/-- One step beyond either bound the divisor is 3 or 2, so it has not skipped the
values that are too small. -/
theorem working_net (working : ∀ t, 6 ≤ (divisor pulses t).toNat) : NetBounded pulses := by
  intro t
  induction t with
  | zero => simp [net]
  | succ t ih =>
      have atLeast := working (t + 1)
      have wrapped := @divisor_wraps pulses (t + 1)
      unfold ideal at wrapped
      rcases @net_steps pulses t with cleared | stepped
      · omega
      · omega

section Bounded
variable (bounded : NetBounded pulses)
include bounded

theorem unwrapped (t : Nat) : ((divisor pulses t).toNat : Int) = ideal pulses t :=
  divisor_ideal (bounded t).1 (bounded t).2

theorem bounded_faster (t : Nat) (faster : SpeedsUp (pulses t)) :
    divisor pulses (t + 1) ≤ divisor pulses t := by
  have now := unwrapped bounded t
  have next := unwrapped bounded (t + 1)
  unfold ideal at now next
  have down : net pulses (t + 1) = net pulses t - 1 := by simp [net, faster.1, faster.2]
  rw [BitVec.le_def]
  omega

theorem bounded_slower (t : Nat) (slower : SpeedsDown (pulses t)) :
    divisor pulses t ≤ divisor pulses (t + 1) := by
  have now := unwrapped bounded t
  have next := unwrapped bounded (t + 1)
  unfold ideal at now next
  have up : net pulses (t + 1) = net pulses t + 1 := by
    simp [net, slower.1, slower.2.1, slower.2.2]
  rw [BitVec.le_def]
  omega

theorem bounded_working (t : Nat) : 6 ≤ (divisor pulses t).toNat := by
  have now := unwrapped bounded t
  have low := (bounded t).1
  unfold ideal at now
  omega

/-- Half of a 28-bit divisor is at most `2 ^ 27`. -/
theorem bounded_toggles (race : Nat → Bool) (t : Nat) :
    ∃ u, t ≤ u ∧ Toggle (slowWave (run (dividerInputs pulses race))) u := by
  obtain ⟨u, after, -, toggle⟩ :=
    @toggle_within _ (phaseRun (dividerInputs pulses race))
      (phase_counts (bounded_working bounded)) t (2 ^ 27) (by decide) fun u _ _ => by
        have small := (dividerInputs pulses race u).finalcount.isLt
        unfold threshold half
        omega
  exact ⟨u, after, toggle⟩

theorem bounded_ticks (race : Nat → Bool) : OneTick (run (dividerInputs pulses race)) where
  tick := pulse_risen (bounded_working bounded)
  single := pulse_single (bounded_working bounded)
  prompt := rises_apart (bounded_working bounded)

end Bounded

theorem net_held (held : ∀ t, SpeedsUp (pulses t)) (t : Nat) : net pulses t = -t := by
  induction t with
  | zero => rfl
  | succ t ih =>
      simp only [net, (held t).1, (held t).2, ih]
      simp
      omega

end Range

/-- The range is kept exactly as long as the presses that count stay within 453
net speed-ups and 53686636 net speed-downs of the last reset. -/
theorem range_iff (pulses : Nat → Pulses) : InRange pulses ↔ NetBounded pulses := by
  constructor
  · intro inRange
    exact working_net inRange.working
  · intro bounded
    exact {
      faster := bounded_faster bounded
      slower := bounded_slower bounded
      working := bounded_working bounded
      toggles := bounded_toggles bounded
      ticks := bounded_ticks bounded }

/-- With `speedUp` held from power-up the divisor is 3 after 454 cycles. -/
theorem held_too_fast : ¬ InRange fun _ => ⟨false, true, false⟩ := by
  intro inRange
  have atLeast := (working_net inRange.working 454).1
  rw [net_held fun _ => ⟨rfl, rfl⟩] at atLeast
  contradiction

end Cpen311.SpeedController
