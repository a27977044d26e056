import Cpen311.ClkDivider

/-! The clock divider of lab1 (`clk_divider`). Unlike the later ones it compares for
equality and goes on from 1, not from 0, after a toggle. -/
namespace Cpen311.OrganDivider
open ClockedRun Phases ClkDivider

/-- One rising edge of `inclk`. -/
def clkDivider (finalcount : Count) (d : Divider) : Divider :=
  if d.cycleCount.setWidth 32 = finalcount.setWidth 32 / 2 - 1 then
    { outclk := !d.outclk, cycleCount := 1 }
  else { d with cycleCount := d.cycleCount + 1 }

theorem equal_iff (finalcount cycleCount : Count) :
    cycleCount.setWidth 32 = finalcount.setWidth 32 / 2 - 1 ↔
      cycleCount.toNat + 1 = half finalcount := by
  have small := finalcount.isLt
  have count := cycleCount.isLt
  have two : (2 : BitVec 32).toNat = 2 := rfl
  have one : (1 : BitVec 32).toNat = 1 := rfl
  rw [← BitVec.toNat_inj, BitVec.toNat_sub, BitVec.toNat_udiv, BitVec.toNat_setWidth,
    BitVec.toNat_setWidth, two, one, half]
  omega

/-- The increments until the counter is terminal, modulo its width. -/
def remaining (finalcount cycleCount : Count) : Nat :=
  (BitVec.ofNat 28 (half finalcount - 1) - cycleCount).toNat

section Run
variable (final : Nat → Count)

def run (t : Nat) : Divider := drive clkDivider final powerUp t

def wave (t : Nat) : Bool := (run final t).outclk

variable {final}

theorem wave_toggle_iff (t : Nat) :
    Toggle (wave final) t ↔ (run final t).cycleCount.toNat + 1 = half (final t) := by
  have next : run final (t + 1) = clkDivider (final t) (run final t) := rfl
  rw [← equal_iff, Toggle, wave, wave, next, clkDivider]
  split
  · next reached => simp [reached]
  · next other => simpa using other

theorem run_toggled {t : Nat} (toggle : Toggle (wave final) t) :
    (run final (t + 1)).cycleCount = 1 := by
  have next : run final (t + 1) = clkDivider (final t) (run final t) := rfl
  rw [next, clkDivider, if_pos ((equal_iff ..).mpr ((wave_toggle_iff t).mp toggle))]

theorem run_steady {t : Nat} (steady : ¬ Toggle (wave final) t) :
    (run final (t + 1)).cycleCount = (run final t).cycleCount + 1 := by
  have next : run final (t + 1) = clkDivider (final t) (run final t) := rfl
  rw [wave_toggle_iff, ← equal_iff] at steady
  rw [next, clkDivider, if_neg steady]

section Stays
variable {f : Count} {s : Nat}

/-- While the value stays, the counter runs up to the terminal count. -/
theorem counted (n : Nat) (stays : ∀ m < n, final (s + m) = f)
    (inside : n ≤ remaining f (run final s).cycleCount) :
    (run final (s + n)).cycleCount = (run final s).cycleCount + BitVec.ofNat 28 n ∧
      ∀ m < n, ¬ Toggle (wave final) (s + m) := by
  induction n with
  | zero => exact ⟨(BitVec.add_zero _).symm, nofun⟩
  | succ n ih =>
      obtain ⟨shown, steady⟩ := ih (fun m early => stays m (by omega)) (by omega)
      -- `n` increments are fewer than those that remain, so the counter is not terminal
      have last : ¬ Toggle (wave final) (s + n) := by
        rw [wave_toggle_iff, stays n (Nat.lt_succ_self n), shown]
        unfold remaining half at *
        bv_omega
      refine ⟨?_, fun m early => ?_⟩
      · rw [← Nat.add_assoc, run_steady last, shown, BitVec.add_assoc, BitVec.ofNat_add]
        rfl
      · rcases Nat.lt_succ_iff_lt_or_eq.mp early with before | rfl
        · exact steady m before
        · exact last

theorem toggle_follows (enough : 2 ≤ f.toNat)
    (stays : ∀ m ≤ remaining f (run final s).cycleCount, final (s + m) = f) :
    Toggle (wave final) (s + remaining f (run final s).cycleCount) := by
  obtain ⟨shown, -⟩ := counted _ (fun m early => stays m (Nat.le_of_lt early)) (Nat.le_refl _)
  rw [wave_toggle_iff, stays _ (Nat.le_refl _), shown]
  unfold remaining half
  bv_omega

end Stays

end Run

/-- The `n`-th toggle comes with the input edge numbered `edge`; both count from 1. -/
def ToggleAt (wave : Nat → Bool) (n edge : Nat) : Prop :=
  ∃ m t, n = m + 1 ∧ edge = t + 1 ∧ VisitAt (Toggle wave) id m t

def ExactPeriod (finalcount : Count) : Prop :=
  ∀ n, 1 ≤ n → ToggleAt (wave fun _ => finalcount) n (n * half finalcount)

/-- The distance of the toggles after the first one. -/
def gap (finalcount : Count) : Nat := remaining finalcount 1 + 1

section Constant
variable {finalcount : Count} (enough : 2 ≤ finalcount.toNat)
include enough

theorem half_remaining : remaining finalcount 0 + 1 = half finalcount := by
  unfold remaining half
  bv_omega

/-- The phases after the first one are a cycle too short or, for a half of 1, too
long: the terminal count is then reached only after the counter has wrapped. -/
theorem gap_eq : gap finalcount = if half finalcount = 1 then 2 ^ 28 else half finalcount - 1 := by
  unfold gap remaining half
  split <;> bv_omega

theorem toggle_next (s : Nat) {c : Count} (shows : (run (fun _ => finalcount) s).cycleCount = c) :
    (∀ m < remaining finalcount c, ¬ Toggle (wave fun _ => finalcount) (s + m)) ∧
      Toggle (wave fun _ => finalcount) (s + remaining finalcount c) := by
  subst shows
  have stays : ∀ m ≤ remaining finalcount (run (fun _ => finalcount) s).cycleCount,
      (fun _ => finalcount) (s + m) = finalcount := fun _ _ => rfl
  have quiet := (counted _ (fun m early => stays m (Nat.le_of_lt early)) (Nat.le_refl _)).2
  exact ⟨quiet, toggle_follows enough stays⟩

/-- Every toggle of a run, with a constant value. -/
theorem toggle_visit (n : Nat) :
    VisitAt (Toggle (wave fun _ => finalcount)) id n
      (remaining finalcount 0 + n * gap finalcount) := by
  induction n with
  | zero =>
      have first := toggle_next enough 0 rfl
      simp only [Nat.zero_add] at first
      rw [Nat.zero_mul, Nat.add_zero]
      exact first_visit _ id first.1 first.2
  | succ n ih =>
      obtain ⟨quiet, again⟩ := toggle_next enough _ (run_toggled ih.1)
      have visit := next_visit _ id ih quiet again
      rw [Nat.succ_mul, ← Nat.add_assoc, gap, ← Nat.add_assoc, Nat.add_right_comm]
      exact visit

theorem toggle_at (n : Nat) :
    ToggleAt (wave fun _ => finalcount) (n + 1) (half finalcount + n * gap finalcount) := by
  refine ⟨n, _, rfl, ?_, toggle_visit enough n⟩
  rw [← half_remaining enough, Nat.add_right_comm]

end Constant

theorem toggle_at_unique {wave : Nat → Bool} {n first second : Nat}
    (atFirst : ToggleAt wave n first) (atSecond : ToggleAt wave n second) : first = second := by
  obtain ⟨m, t, rfl, rfl, visit⟩ := atFirst
  obtain ⟨m', t', same, rfl, visit'⟩ := atSecond
  obtain rfl := Nat.succ.inj same
  rw [visit_unique _ id visit visit']

/-- No value has the exact period: from 2 on the second toggle is misplaced, and below
2 there is no phase at all. -/
theorem never_exact (finalcount : Count) : ¬ ExactPeriod finalcount := by
  intro exact
  by_cases enough : 2 ≤ finalcount.toNat
  · have due := exact 2 (by decide)
    have comes := toggle_at enough 1
    have same := toggle_at_unique due comes
    have gap := gap_eq enough
    have positive := half_pos enough
    split at gap <;> omega
  · obtain ⟨m, t, -, never, -⟩ := exact 1 (by decide)
    unfold half at never
    omega

/-- The value of the testbench: the second toggle comes with edge 9. -/
theorem ten_inexact :
    ToggleAt (wave fun _ => 10) 2 9 ∧ ¬ ToggleAt (wave fun _ => 10) 2 (2 * half 10) := by
  have second : ToggleAt (wave fun _ => 10) 2 9 := toggle_at (by decide) 1
  refine ⟨second, fun due => ?_⟩
  have same := toggle_at_unique second due
  contradiction

/-- The wave toggles in one of `cycles` cycles, the first of which is `t`. -/
def TogglesWithin (wave : Nat → Bool) (t cycles : Nat) : Prop :=
  ∃ u, t ≤ u ∧ u < t + cycles ∧ Toggle wave u

section Retuned
variable {final : Nat → Count} {f : Count} {t : Nat}

theorem remaining_ahead (ahead : (run final t).cycleCount.toNat < half f) :
    remaining f (run final t).cycleCount < half f := by
  unfold remaining half at *
  bv_omega

/-- A counter that is past the terminal count has to wrap before it gets there. -/
theorem remaining_past (past : half f ≤ (run final t).cycleCount.toNat) :
    half f ≤ remaining f (run final t).cycleCount := by
  unfold remaining half at *
  bv_omega

section Stays
variable (stays : ∀ u, t ≤ u → u < t + half f → final u = f)
include stays

theorem stays_shifted (m : Nat) (early : m < half f) : final (t + m) = f :=
  stays (t + m) (Nat.le_add_right t m) (Nat.add_lt_add_left early t)

theorem silent_past (past : half f ≤ (run final t).cycleCount.toNat) :
    ¬ TogglesWithin (wave final) t (half f) := by
  rintro ⟨u, after, before, toggle⟩
  obtain ⟨m, rfl⟩ := Nat.exists_eq_add_of_le after
  have quiet := (counted (half f) (stays_shifted stays) (remaining_past past)).2
  exact quiet m (Nat.lt_of_add_lt_add_left before) toggle

end Stays

/-- The value is `f` from `t` on, whatever it was before: the next toggle is in time
unless the counter has passed the new terminal count. -/
theorem retuned_in_time_iff (stays : ∀ u, t ≤ u → u < t + half f → final u = f) :
    TogglesWithin (wave final) t (half f) ↔ (run final t).cycleCount.toNat < half f := by
  constructor
  · intro inTime
    by_contra past
    exact silent_past stays (Nat.le_of_not_lt past) inTime
  · intro ahead
    have inTime := remaining_ahead ahead
    have enough : 2 ≤ f.toNat := by
      unfold half at ahead
      omega
    have toggle := toggle_follows enough fun m early =>
      stays_shifted stays m (Nat.lt_of_le_of_lt early inTime)
    exact ⟨_, Nat.le_add_right t _, Nat.add_lt_add_left inTime t, toggle⟩

end Retuned

/-- While the lower `do` sounds, the cycles of its first half period are counted. -/
theorem do_counted {final : Nat → Count} {n : Nat} (stays : ∀ m < n, final m = 95602)
    (short : n ≤ 47800) : (run final n).cycleCount = BitVec.ofNat 28 n := by
  have all : remaining 95602 (run final 0).cycleCount = 47800 := by
    change remaining 95602 0 = 47800
    decide
  have shown := (@counted final 95602 0 n (fun m early => by rw [Nat.zero_add, stays m early])
    (all ▸ short)).1
  rw [Nat.zero_add] at shown
  rw [shown]
  exact BitVec.zero_add _

/-- The tone is changed from the lower to the higher `do` after 20000 cycles. -/
def doToDo2Early (t : Nat) : Count := if t < 20000 then 95602 else 47801

theorem retuned_in_time_do : TogglesWithin (wave doToDo2Early) 20000 (half 47801) := by
  have changed (u : Nat) (after : 20000 ≤ u) : doToDo2Early u = 47801 :=
    if_neg (Nat.not_lt_of_le after)
  refine (retuned_in_time_iff fun u after _ => changed u after).mpr ?_
  rw [@do_counted doToDo2Early 20000 (fun m early => if_pos early) (by decide)]
  decide

/-- The tone is changed from the lower to the higher `do` after 30000 cycles. -/
def doToDo2 (t : Nat) : Count := if t < 30000 then 95602 else 47801

theorem do_silenced :
    (∀ u, 4 ≤ (doToDo2 u).toNat) ∧ (∀ u, 30000 ≤ u → doToDo2 u = 47801) ∧
      ¬ TogglesWithin (wave doToDo2) 30000 (half 47801) := by
  have changed (u : Nat) (after : 30000 ≤ u) : doToDo2 u = 47801 :=
    if_neg (Nat.not_lt_of_le after)
  refine ⟨fun u => ?_, changed, ?_⟩
  · unfold doToDo2
    split <;> decide
  · apply silent_past fun u after _ => changed u after
    rw [@do_counted doToDo2 30000 (fun m early => if_pos early) (by decide)]
    decide

end Cpen311.OrganDivider
