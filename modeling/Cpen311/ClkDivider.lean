import Mathlib.Data.BitVec
import Cpen311.Phases

/-! The clock dividers of lab2 (`clk_divider`) and lab5 (`clkDiv`). In the
comparison the 28-bit operands meet the 32-bit literals, so it is a comparison
of unsigned 32-bit values, and `finalcount / 2 - 1` is largest for a
`finalcount` below 2. -/
namespace Cpen311.ClkDivider
open ClockedRun Phases

abbrev Count := BitVec 28

structure Divider where
  outclk : Bool
  cycleCount : Count

/-- One rising edge of `inclk`. -/
def clkDivider (finalcount : Count) (d : Divider) : Divider :=
  if finalcount.setWidth 32 / 2 - 1 ≤ d.cycleCount.setWidth 32 then
    { outclk := !d.outclk, cycleCount := 0 }
  else { d with cycleCount := d.cycleCount + 1 }

def powerUp : Divider where
  outclk := false
  cycleCount := 0

structure ClkDiv where
  counter : Count
  clockOut : Bool

/-- One rising edge of `clock_in`. -/
def clkDiv (frequencySelect : Count) (d : ClkDiv) : ClkDiv :=
  if d.counter.setWidth 32 ≥ frequencySelect.setWidth 32 / 2 - 1 then
    { counter := 0, clockOut := !d.clockOut }
  else { d with counter := d.counter + 1 }

def clkDivPowerUp : ClkDiv where
  counter := 0
  clockOut := false

/-- The number of cycles that a phase is to last. -/
def half (finalcount : Count) : Nat := finalcount.toNat / 2

theorem terminal_iff {finalcount cycleCount : Count} (enough : 2 ≤ finalcount.toNat) :
    finalcount.setWidth 32 / 2 - 1 ≤ cycleCount.setWidth 32 ↔
      half finalcount ≤ cycleCount.toNat + 1 := by
  have small := finalcount.isLt
  have count := cycleCount.isLt
  have two : (2 : BitVec 32).toNat = 2 := rfl
  have one : (1 : BitVec 32).toNat = 1 := rfl
  rw [BitVec.le_def, BitVec.toNat_sub, BitVec.toNat_udiv, BitVec.toNat_setWidth,
    BitVec.toNat_setWidth, two, one, half]
  omega

def phase (d : Divider) : Phase where
  level := d.outclk
  elapsed := d.cycleCount.toNat

/-- The 28-bit counter does not wrap: it is reset at half of a 28-bit value. -/
theorem divider_counts (finalcount : Count) (enough : 2 ≤ finalcount.toNat) (d : Divider) :
    phase (clkDivider finalcount d) = count (half finalcount) (phase d) := by
  have terminal := @terminal_iff finalcount d.cycleCount enough
  unfold clkDivider count
  by_cases reached : half finalcount ≤ (phase d).elapsed + 1
  · rw [if_pos (terminal.mpr reached), if_pos reached]
    rfl
  · rw [if_neg (terminal.not.mpr reached), if_neg reached]
    have small := finalcount.isLt
    have one : (1 : Count).toNat = 1 := rfl
    simp only [phase, half] at reached
    simp only [phase, Phase.mk.injEq, true_and, BitVec.toNat_add, one]
    omega

/-- The two dividers in the same state. -/
def Same (lab2 : Divider) (lab5 : ClkDiv) : Prop :=
  lab5.counter = lab2.cycleCount ∧ lab5.clockOut = lab2.outclk

theorem same_preserved (final : Count) {lab2 : Divider} {lab5 : ClkDiv} (same : Same lab2 lab5) :
    Same (clkDivider final lab2) (clkDiv final lab5) := by
  obtain ⟨counter, output⟩ := same
  unfold clkDivider clkDiv
  rw [counter]
  split
  · exact ⟨rfl, congrArg (!·) output⟩
  · exact ⟨rfl, output⟩

section Run
variable (final : Nat → Count)

def lab2Wave (t : Nat) : Bool := (drive clkDivider final powerUp t).outclk

def lab5Wave (t : Nat) : Bool := (drive clkDiv final clkDivPowerUp t).clockOut

/-- How the waveform follows the values presented. -/
structure Retunes (wave : Nat → Bool) : Prop where
  phases : ∀ s, PhaseStart wave s → ∀ n, PhaseEnds wave s n ↔
    1 ≤ n ∧ half (final (s + n - 1)) ≤ n ∧ ∀ k, 1 ≤ k → k < n → k < half (final (s + k - 1))
  constant : ∀ f, (∀ t, final t = f) → ∀ s, PhaseStart wave s →
    ∀ n, PhaseEnds wave s n ↔ n = half f
  retuned : ∀ t f, 2 ≤ f.toNat → (∀ u, t ≤ u → u < t + half f → final u = f) →
    ∃ u, t ≤ u ∧ u < t + half f ∧ Toggle wave u

variable {final}

theorem waves_same (t : Nat) : lab5Wave final t = lab2Wave final t := by
  have same : Same (drive clkDivider final powerUp t) (drive clkDiv final clkDivPowerUp t) := by
    induction t with
    | zero => exact ⟨rfl, rfl⟩
    | succ t ih => exact same_preserved (final t) ih
  exact same.2

def lab2Run (final : Nat → Count) (t : Nat) : Phase := phase (drive clkDivider final powerUp t)

theorem lab2_counts (enough : ∀ t, 2 ≤ (final t).toNat) (t : Nat) :
    lab2Run final (t + 1) = count (half (final t)) (lab2Run final t) :=
  divider_counts (final t) (enough t) _

theorem half_pos {f : Count} (enough : 2 ≤ f.toNat) : 1 ≤ half f := by
  unfold half
  omega

theorem lab2_phases (enough : ∀ t, 2 ≤ (final t).toNat) {s : Nat}
    (start : PhaseStart (lab2Wave final) s) (n : Nat) :
    PhaseEnds (lab2Wave final) s n ↔
      1 ≤ n ∧ half (final (s + n - 1)) ≤ n ∧
        ∀ k, 1 ≤ k → k < n → k < half (final (s + k - 1)) :=
  @phase_ends_iff (fun t => half (final t)) (lab2Run final) (lab2_counts enough) rfl s start n

theorem lab2_constant {f : Count} (enough : ∀ t, 2 ≤ (final t).toNat) (stays : ∀ t, final t = f)
    {s : Nat} (start : PhaseStart (lab2Wave final) s) (n : Nat) :
    PhaseEnds (lab2Wave final) s n ↔ n = half f := by
  have positive := half_pos (enough 0)
  rw [stays 0] at positive
  rw [lab2_phases enough start]
  simp only [stays]
  constructor
  · rintro ⟨first, reached, early⟩
    by_contra other
    have notYet := early (half f) positive (by omega)
    omega
  · rintro rfl
    exact ⟨positive, Nat.le_refl _, fun k _ before => before⟩

end Run

/-- For every sequence of values of at least 2: both dividers make one waveform,
and each of its phases ends as soon as it has lasted half the value present. -/
theorem dividers_equivalent (final : Nat → Count) (enough : ∀ t, 2 ≤ (final t).toNat) :
    (∀ t, lab5Wave final t = lab2Wave final t) ∧ Retunes final (lab2Wave final) ∧
      Retunes final (lab5Wave final) := by
  have retunes : Retunes final (lab2Wave final) := by
    constructor
    case phases => exact fun s start n => lab2_phases enough start n
    case constant => exact fun f stays s start n => lab2_constant enough stays start n
    case retuned =>
      intro t f atLeast stays
      apply @toggle_within (fun t => half (final t)) (lab2Run final) (lab2_counts enough) t (half f)
        (half_pos atLeast)
      intro u after before
      exact (congrArg half (stays u after before)).le
  have same : lab5Wave final = lab2Wave final := funext waves_same
  refine ⟨waves_same, retunes, ?_⟩
  rwa [same]

/-- The value of the testbench comes after three of the ten cycles of a longer half period. -/
def shortened (t : Nat) : Count := if t < 3 then 20 else 2

theorem dividers_equivalent_shortened :
    (∀ t, 2 ≤ (shortened t).toNat) ∧ (∀ t, lab5Wave shortened t = lab2Wave shortened t) ∧
      Retunes shortened (lab2Wave shortened) ∧ Retunes shortened (lab5Wave shortened) := by
  have enough (t : Nat) : 2 ≤ (shortened t).toNat := by
    unfold shortened
    split <;> decide
  exact ⟨enough, dividers_equivalent shortened enough⟩

end Cpen311.ClkDivider
