import Cpen311.ClkDivider

/-! `clock_sync` on the clock that `clk_divider` makes from the same `CLOCK_50`.
`ff1` is clocked by the divided clock and cleared while that clock is low and
`ff3out` is high. Where the divided clock rises while the clear is still active,
the edge and the end of the clear race for `ff1`; `race` leaves the outcome open
at every edge. -/
namespace Cpen311.ClockSync
open ClockedRun Phases ClkDivider

structure Sync where
  ff1out : Bool
  ff2out : Bool
  ff3out : Bool
  syncSignal : Bool

def reset (asyncClk : Bool) (s : Sync) : Bool := !asyncClk && s.ff3out

def edgedetect (s : Sync) : Bool := !s.syncSignal && s.ff3out

/-- One rising edge of `CLOCK_50`, at which `async_clk` may change as well. -/
def clockSync (race before after : Bool) (s : Sync) : Sync :=
  let shifted : Sync :=
    { ff1out := s.ff1out, ff2out := s.ff1out, ff3out := s.ff2out, syncSignal := s.ff3out }
  { shifted with
    ff1out :=
      if reset after shifted then false
      else if !before && after then if reset before s then race else true
      else s.ff1out }

structure System where
  divider : Divider
  sync : Sync

structure Inputs where
  finalcount : Count
  race : Bool

def clock (input : Inputs) (s : System) : System :=
  let divider := clkDivider input.finalcount s.divider
  { divider := divider
    sync := clockSync input.race s.divider.outclk divider.outclk s.sync }

def powerUp : System where
  divider := ClkDivider.powerUp
  sync := ⟨false, false, false, false⟩

def readNow (s : System) : Bool := edgedetect s.sync

/-- The divided clock along a run. -/
def slowWave (run : Nat → System) (t : Nat) : Bool := (run t).divider.outclk

/-- One pulse of one cycle for each rising edge, three states later and before
the next rising edge. -/
structure OneTick (run : Nat → System) : Prop where
  tick : ∀ t, readNow (run t) = true ↔ ∃ n, t = n + 3 ∧ Rising (slowWave run) n
  single : ∀ t, readNow (run t) = true → readNow (run (t + 1)) = false
  prompt : ∀ n m, Rising (slowWave run) n → Rising (slowWave run) m → n < m → n + 4 ≤ m

/-- The flip-flops against the phase of the divided clock. A high phase shifts ones
in; a low phase has cleared `ff1` and shifts zeros in. -/
structure High (elapsed : Nat) (s : Sync) : Prop where
  ff1 : s.ff1out = true
  ff2 : s.ff2out = true ↔ 1 ≤ elapsed
  ff3 : s.ff3out = true ↔ 2 ≤ elapsed
  ff4 : s.syncSignal = true ↔ 3 ≤ elapsed

structure Low (elapsed : Nat) (s : Sync) : Prop where
  ff1 : s.ff1out = false
  ff2 : s.ff2out = true → elapsed = 0 ∧ s.ff3out = true
  ff3 : s.ff3out = true → elapsed ≤ 1 ∧ s.syncSignal = true

def InStep (p : Phase) (s : Sync) : Prop :=
  match p.level with
  | true => High p.elapsed s
  | false => Low p.elapsed s

section Edges
variable {elapsed : Nat} {s : Sync} {race : Bool}

theorem high_stays (high : High elapsed s) :
    High (elapsed + 1) (clockSync race true true s) := by
  obtain ⟨ff1, ff2, ff3, ff4⟩ := high
  constructor
  · simp [clockSync, reset, ff1]
  · simp [clockSync, ff1]
  · simpa [clockSync] using ff2
  · simpa [clockSync] using ff3

/-- After at least three cycles the next two stages are up, and the fall clears `ff1`. -/
theorem high_falls (high : High elapsed s) (long : 2 ≤ elapsed) :
    Low 0 (clockSync race true false s) := by
  obtain ⟨ff1, ff2, ff3, ff4⟩ := high
  have second := ff2.mpr (by omega)
  have third := ff3.mpr long
  constructor
  · simp [clockSync, reset, second]
  · simp [clockSync, second]
  · simp [clockSync, third]

theorem low_stays (low : Low elapsed s) : Low (elapsed + 1) (clockSync race false false s) := by
  obtain ⟨ff1, ff2, ff3⟩ := low
  constructor
  · simp [clockSync, ff1]
  · simp [clockSync, ff1]
  · intro third
    have second : s.ff2out = true := third
    obtain ⟨zero, fourth⟩ := ff2 second
    exact ⟨by omega, fourth⟩

/-- After at least three cycles the clear has been released, so the rise sets `ff1`. -/
theorem low_rises (low : Low elapsed s) (long : 2 ≤ elapsed) :
    High 0 (clockSync race false true s) := by
  obtain ⟨ff1, ff2, ff3⟩ := low
  have second : s.ff2out = false := by
    by_contra up
    have zero := (ff2 (by simpa using up)).1
    omega
  have third : s.ff3out = false := by
    by_contra up
    have early := (ff3 (by simpa using up)).1
    omega
  constructor
  · simp [clockSync, reset, third]
  · simp [clockSync, ff1]
  · simp [clockSync, second]
  · simp [clockSync, third]

theorem in_step_count {p : Phase} {threshold : Nat} (long : 3 ≤ threshold) (inv : InStep p s) :
    InStep (count threshold p) (clockSync race p.level (count threshold p).level s) := by
  obtain ⟨level, elapsed⟩ := p
  unfold count
  split
  · next reached =>
    have late : 2 ≤ elapsed := by
      simp only at reached
      omega
    cases level
    · exact low_rises inv late
    · exact high_falls inv late
  · cases level
    · exact low_stays inv
    · exact high_stays inv

/-- The detector fires in the third cycle of a high phase. -/
theorem edgedetect_iff {p : Phase} (inv : InStep p s) :
    edgedetect s = true ↔ p.level = true ∧ p.elapsed = 2 := by
  obtain ⟨level, elapsed⟩ := p
  unfold edgedetect
  cases level
  · obtain ⟨ff1, ff2, ff3⟩ : Low elapsed s := inv
    cases third : s.ff3out
    · simp
    · simp [(ff3 third).2]
  · obtain ⟨ff1, ff2, ff3, ff4⟩ : High elapsed s := inv
    simp only [Bool.and_eq_true, Bool.not_eq_true', true_and, ff3, ← Bool.not_eq_true, ff4]
    omega

end Edges

section Run
variable (input : Nat → Inputs)

def run (t : Nat) : System := drive clock input powerUp t

def phaseRun (t : Nat) : Phase := phase (run input t).divider

def threshold (t : Nat) : Nat := half (input t).finalcount

variable {input} (enough : ∀ t, 6 ≤ (input t).finalcount.toNat)
include enough

theorem threshold_long (t : Nat) : 3 ≤ threshold input t := by
  have atLeast := enough t
  unfold threshold half
  omega

theorem phase_counts (t : Nat) :
    phaseRun input (t + 1) = count (threshold input t) (phaseRun input t) :=
  divider_counts _ (Nat.le_trans (by decide) (enough t)) _

theorem stays_in_step (t : Nat) : InStep (phaseRun input t) (run input t).sync := by
  induction t with
  | zero => exact ⟨rfl, nofun, nofun⟩
  | succ t ih =>
      have counted := phase_counts enough t
      have next := @in_step_count _ (input t).race _ _ (threshold_long enough t) ih
      rw [← counted] at next
      exact next

theorem pulse_iff (t : Nat) :
    readNow (run input t) = true ↔
      (phaseRun input t).level = true ∧ (phaseRun input t).elapsed = 2 :=
  edgedetect_iff (stays_in_step enough t)

theorem pulse_risen (t : Nat) :
    readNow (run input t) = true ↔ ∃ n, t = n + 3 ∧ Rising (slowWave (run input)) n :=
  (pulse_iff enough t).trans
    (risen_iff (phase_counts enough) rfl rfl (threshold_long enough) t)

theorem pulse_single (t : Nat) (pulse : readNow (run input t) = true) :
    readNow (run input (t + 1)) = false := by
  obtain ⟨-, third⟩ := (pulse_iff enough t).mp pulse
  by_contra again
  obtain ⟨-, still⟩ := (pulse_iff enough (t + 1)).mp (by simpa using again)
  rw [phase_counts enough, count] at still
  split at still
  · contradiction
  · simp [third] at still

/-- A high phase lasts at least three cycles. -/
theorem rises_apart (n m : Nat) (first : Rising (slowWave (run input)) n)
    (second : Rising (slowWave (run input)) m) (order : n < m) : n + 4 ≤ m := by
  have high (k : Nat) (early : k < 3) : slowWave (run input) (n + k + 1) = true :=
    ((risen_iff (phase_counts enough) rfl rfl
      (fun t => Nat.lt_of_lt_of_le early (threshold_long enough t)) (n + k + 1)).mpr
        ⟨n, rfl, first⟩).1
  by_contra early
  obtain ⟨k, rfl⟩ := Nat.exists_eq_add_of_lt order
  have up := high k (by omega)
  rw [second.1] at up
  contradiction

end Run

/-- For every sequence of divisors of at least 6, changing at any cycle, and every
outcome of the races: one tick for each rising edge of the divided clock. -/
theorem one_tick (input : Nat → Inputs) (enough : ∀ t, 6 ≤ (input t).finalcount.toNat) :
    OneTick (run input) where
  tick := pulse_risen enough
  single := pulse_single enough
  prompt := rises_apart enough

/-- The divisor of the testbench comes in the middle of a longer period, and the races end one way and
the other in turn. -/
def shortened (t : Nat) : Inputs := ⟨if t < 9 then 40 else 7, t % 2 = 0⟩

theorem one_tick_shortened : (∀ t, 6 ≤ (shortened t).finalcount.toNat) ∧ OneTick (run shortened) := by
  have enough (t : Nat) : 6 ≤ (shortened t).finalcount.toNat := by
    unfold shortened
    dsimp only
    split <;> decide
  exact ⟨enough, one_tick shortened enough⟩

end Cpen311.ClockSync
