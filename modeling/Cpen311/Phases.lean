import Mathlib.Order.Basic
import Mathlib.Tactic.Push
import Cpen311.ClockedRun

/-! Square waves made by counting. A wave is a level at each time; a phase is a
stretch between two toggles. The counter of this file toggles as soon as the
phase has lasted as long as the threshold of the current cycle, whatever the
thresholds of earlier cycles were. -/
namespace Cpen311.Phases
open ClockedRun

section Wave
variable (wave : Nat → Bool)

/-- The wave changes between the times `t` and `t + 1`. -/
def Toggle (t : Nat) : Prop := wave (t + 1) ≠ wave t

instance : DecidablePred (Toggle wave) := fun _ => inferInstanceAs (Decidable (_ ≠ _))

def Rising (t : Nat) : Prop := wave t = false ∧ wave (t + 1) = true

/-- A phase begins at time 0 and after every toggle. -/
def PhaseStart (s : Nat) : Prop := s = 0 ∨ ∃ t, Toggle wave t ∧ s = t + 1

/-- The phase that begins at `s` ends with its cycle `n`; its cycles are numbered from 1. -/
def PhaseEnds (s n : Nat) : Prop :=
  1 ≤ n ∧ Toggle wave (s + n - 1) ∧ ∀ k, 1 ≤ k → k < n → ¬ Toggle wave (s + k - 1)

theorem rising_toggle {t : Nat} (rising : Rising wave t) : Toggle wave t := by
  rw [Toggle, rising.1, rising.2]
  decide

end Wave

structure Phase where
  level : Bool
  elapsed : Nat

/-- One cycle of the counter. -/
def count (threshold : Nat) (p : Phase) : Phase :=
  if threshold ≤ p.elapsed + 1 then { level := !p.level, elapsed := 0 }
  else { p with elapsed := p.elapsed + 1 }

section Run
variable {threshold : Nat → Nat} {run : Nat → Phase}
  (isRun : ∀ t, run (t + 1) = count (threshold t) (run t))
include isRun

theorem toggle_iff (t : Nat) :
    Toggle (fun t => (run t).level) t ↔ threshold t ≤ (run t).elapsed + 1 := by
  simp only [Toggle, isRun, count]
  split <;> simp_all

theorem elapsed_toggle {t : Nat} (toggle : Toggle (fun t => (run t).level) t) :
    (run (t + 1)).elapsed = 0 := by
  rw [isRun, count, if_pos ((toggle_iff isRun t).mp toggle)]

theorem steady_succ {t : Nat} (steady : ¬ Toggle (fun t => (run t).level) t) :
    run (t + 1) = { run t with elapsed := (run t).elapsed + 1 } := by
  rw [isRun, count, if_neg fun reached => steady ((toggle_iff isRun t).mpr reached)]

theorem elapsed_start (initial : (run 0).elapsed = 0) {s : Nat}
    (start : PhaseStart (fun t => (run t).level) s) : (run s).elapsed = 0 := by
  rcases start with rfl | ⟨t, toggle, rfl⟩
  · exact initial
  · exact elapsed_toggle isRun toggle

theorem elapsed_phase {s : Nat} (zero : (run s).elapsed = 0) (n : Nat)
    (steady : ∀ k, 1 ≤ k → k ≤ n → ¬ Toggle (fun t => (run t).level) (s + k - 1)) :
    (run (s + n)).elapsed = n := by
  induction n with
  | zero => exact zero
  | succ n ih =>
      have before := ih fun k first inside => steady k first (by omega)
      have last := steady (n + 1) (by omega) (Nat.le_refl _)
      rw [← Nat.add_assoc, Nat.add_sub_cancel] at last
      rw [← Nat.add_assoc, steady_succ isRun last, before]

/-- A phase ends with its first cycle that is late enough for its own threshold. -/
theorem phase_ends_iff (initial : (run 0).elapsed = 0) {s : Nat}
    (start : PhaseStart (fun t => (run t).level) s) (n : Nat) :
    PhaseEnds (fun t => (run t).level) s n ↔
      1 ≤ n ∧ threshold (s + n - 1) ≤ n ∧ ∀ k, 1 ≤ k → k < n → k < threshold (s + k - 1) := by
  have zero := elapsed_start isRun initial start
  -- up to the first toggle of the phase, the counter shows the cycle
  have cycle (k : Nat) (first : 1 ≤ k)
      (steady : ∀ j, 1 ≤ j → j < k → ¬ Toggle (fun t => (run t).level) (s + j - 1)) :
      Toggle (fun t => (run t).level) (s + k - 1) ↔ threshold (s + k - 1) ≤ k := by
    obtain ⟨k, rfl⟩ := Nat.exists_eq_add_of_le' first
    have shown := elapsed_phase isRun zero k fun j first inside => steady j first (by omega)
    rw [toggle_iff isRun, show s + (k + 1) - 1 = s + k by omega, shown]
  constructor
  · rintro ⟨first, toggle, steady⟩
    refine ⟨first, (cycle n first steady).mp toggle, fun k early before => ?_⟩
    have still := steady k early before
    rw [cycle k early fun j least less => steady j least (by omega)] at still
    omega
  · rintro ⟨first, reached, early⟩
    have steady (k : Nat) : 1 ≤ k → k < n → ¬ Toggle (fun t => (run t).level) (s + k - 1) := by
      induction k using Nat.strong_induction_on with
      | h k ih =>
          intro least before toggle
          have late := (cycle k least fun j one less => ih j less one (by omega)).mp toggle
          have notYet := early k least before
          omega
    exact ⟨first, (cycle n first steady).mpr reached, steady⟩

/-- While the thresholds are larger than `n`, the `n`-th cycle of a high phase
lies `n + 1` times after its rise. -/
theorem risen_iff (low : (run 0).level = false) (zero : (run 0).elapsed = 0) {n : Nat}
    (long : ∀ t, n < threshold t) (t : Nat) :
    ((run t).level = true ∧ (run t).elapsed = n) ↔
      ∃ s, t = s + n + 1 ∧ Rising (fun t => (run t).level) s := by
  induction n generalizing t with
  | zero =>
      constructor
      · rintro ⟨high, fresh⟩
        cases t with
        | zero =>
            rw [low] at high
            contradiction
        | succ s =>
            have toggle : Toggle (fun t => (run t).level) s := by
              by_contra steady
              rw [steady_succ isRun steady] at fresh
              contradiction
            have before : (run s).level = false := by simpa [Toggle, high] using toggle
            exact ⟨s, rfl, before, high⟩
      · rintro ⟨s, rfl, rising⟩
        exact ⟨rising.2, elapsed_toggle isRun (rising_toggle _ rising)⟩
  | succ n ih =>
      have previous := ih fun t => Nat.lt_of_succ_lt (long t)
      constructor
      · rintro ⟨high, late⟩
        cases t with
        | zero =>
            rw [zero] at late
            contradiction
        | succ u =>
            have steady : ¬ Toggle (fun t => (run t).level) u := by
              intro toggle
              rw [elapsed_toggle isRun toggle] at late
              contradiction
            rw [steady_succ isRun steady] at high late
            obtain ⟨s, same, rising⟩ := (previous u).mp ⟨high, Nat.succ.inj late⟩
            exact ⟨s, by omega, rising⟩
      · rintro ⟨s, rfl, rising⟩
        obtain ⟨high, earlier⟩ := (previous (s + n + 1)).mpr ⟨s, rfl, rising⟩
        have steady : ¬ Toggle (fun t => (run t).level) (s + n + 1) := by
          rw [toggle_iff isRun, earlier]
          have more := long (s + n + 1)
          omega
        rw [show s + (n + 1) + 1 = s + n + 1 + 1 by omega, steady_succ isRun steady]
        exact ⟨high, congrArg (· + 1) earlier⟩

/-- If the threshold stays within a bound, the next toggle comes within as many cycles. -/
theorem toggle_within {t h : Nat} (positive : 0 < h)
    (bounded : ∀ u, t ≤ u → u < t + h → threshold u ≤ h) :
    ∃ u, t ≤ u ∧ u < t + h ∧ Toggle (fun t => (run t).level) u := by
  by_contra none
  push Not at none
  have grows (n : Nat) (inside : n < h) : n ≤ (run (t + n)).elapsed := by
    induction n with
    | zero => exact Nat.zero_le _
    | succ n ih =>
        have steady := none (t + n) (by omega) (by omega)
        rw [← Nat.add_assoc, steady_succ isRun steady]
        have before := ih (by omega)
        exact Nat.succ_le_succ before
  have last := grows (h - 1) (by omega)
  have steady := none (t + (h - 1)) (by omega) (by omega)
  have limit := bounded (t + (h - 1)) (by omega) (by omega)
  rw [toggle_iff isRun] at steady
  omega

end Run

end Cpen311.Phases
