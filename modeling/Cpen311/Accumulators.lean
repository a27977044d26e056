import Mathlib.Algebra.BigOperators.Intervals
import Cpen311.StrengthMeter

/-! The accumulators of the service routine. The interrupts are numbered from 0; the one
numbered `n` reads sample `n`, and leaves in the scratchpad the count and the exact sum of the
samples since the last whole window. The sum of a whole window is never stored: it is in the
registers when `UPDATE_LED` is reached. -/
namespace Cpen311.Accumulators
open ClockedRun Kcpsm3 PracPico PicoService PicoInterrupts StrengthMeter

/-- The sum of the sizes of the `k` samples before sample `n`. -/
def lastSum (samples : Nat → Byte) (n k : Nat) : Nat :=
  ∑ i ∈ Finset.Ico (n - k) n, size (samples i)

theorem last_sum_partial (samples : Nat → Byte) (m k : Nat) :
    lastSum samples (256 * m + k) k = partialSum samples m k := by
  rw [lastSum, partialSum, Finset.sum_Ico_eq_sum_range, Nat.add_sub_cancel, Nat.add_sub_cancel_left]

section Run
variable (samples : Nat → Byte) (request : Nat → Bool) (start : Board)

/-- An interrupt is taken at `t`. -/
def Taken (t : Nat) : Prop := ((run samples request start t).cpu.enabled && request t) = true

instance : DecidablePred (Taken samples request start) :=
  fun _ => inferInstanceAs (Decidable (_ = true))

/-- The scratchpad after `n` interrupts. -/
structure Stored (n : Nat) (b : Board) : Prop where
  counter : (b.cpu.scratch counter).toNat = n % 256
  sum : (b.cpu.scratch sumOfData1).toNat + 256 * (b.cpu.scratch sumOfData2).toNat =
    lastSum samples n (n % 256)

/-- Between `t` and `u` the routine comes to `UPDATE_LED` with the sum of the 256 samples before
sample `n` in `s3` and `s2`. -/
def SumsWindow (n t u : Nat) : Prop :=
  ∃ v, t < v ∧ v < u ∧ (run samples request start v).cpu.pc = address .updateLed ∧
    ((run samples request start v).cpu.reg s2).toNat +
      256 * ((run samples request start v).cpu.reg s3).toNat = lastSum samples n 256

/-- The interrupt numbered `n` and its service. -/
structure Accumulates (n t : Nat) : Prop where
  reads : (run samples request start t).position = n
  serves : ∃ u, Service samples request start t u ∧
    Stored samples (n + 1) (run samples request start u) ∧
    (256 ∣ n + 1 → SumsWindow samples request start (n + 1) t u)
  fits : ∀ k ≤ 256, lastSum samples (n + 1) k < 2 ^ 16

variable {samples request start}

theorem metered_stored {b : Board} (metered : Metered samples b) : Stored samples b.position b := by
  obtain ⟨count, sum, -⟩ := metered.shows
  have split := Nat.div_add_mod b.position 256
  constructor
  · have shown := congrArg BitVec.toNat count
    rw [BitVec.toNat_ofNat, Nat.mod_mod] at shown
    exact shown
  · have same := last_sum_partial samples (b.position / 256) (b.position % 256)
    rw [split] at same
    exact sum.trans same.symm

theorem last_sum_bound (samples : Nat → Byte) (n : Nat) {k : Nat} (short : k ≤ 256) :
    lastSum samples n k < 2 ^ 16 := by
  have bounded : lastSum samples n k ≤ (Finset.Ico (n - k) n).card • 128 :=
    Finset.sum_le_card_nsmul _ _ _ fun i _ => size_bound (samples i)
  rw [Nat.card_Ico, Nat.nsmul_eq_mul] at bounded
  omega

/-- No interrupt is taken while one is served. -/
theorem served_counted {a t : Nat} (taken : Taken samples request start a) (later : a < t)
    (away : ∀ u, a < u → u < t →
      Away (run samples request start a) (run samples request start u)) :
    Nat.count (Taken samples request start) t =
      Nat.count (Taken samples request start) a + 1 := by
  have quiet : ∀ u, a + 1 ≤ u → u < t → ¬ Taken samples request start u := by
    intro u after before taken
    have masked := (away u after before).masked
    simp [Taken, masked] at taken
  rw [count_quiet later quiet, Nat.count_succ, if_pos taken]

/-- Outside the routine, as many samples have been read as interrupts have been taken. -/
theorem taken_read {first : Nat} (initial : Metered samples (run samples request start first))
    (counted : Nat.count (Taken samples request start) first =
      (run samples request start first).position) (t : Nat) (late : first ≤ t)
    (metered : Metered samples (run samples request start t)) :
    Nat.count (Taken samples request start) t = (run samples request start t).position := by
  induction t using Nat.strong_induction_on with
  | h t ih =>
      rcases Nat.eq_or_lt_of_le late with rfl | after
      · exact counted
      · obtain ⟨t, rfl⟩ := Nat.exists_eq_add_of_lt after
        rcases metered_before initial (Nat.le_add_right first t) metered with ⟨before, idle⟩ |
            ⟨a, since, departed, home, taken, served, away⟩
        · have none : ¬ Taken samples request start (first + t) := by simp [Taken, idle]
          rw [Nat.count_succ, if_neg none, metered_idle before idle]
          exact ih (first + t) (Nat.lt_succ_self _) (Nat.le_add_right first t) before
        · have quiet (u : Nat) (after : a < u) (early : u < first + t + 1) :=
            away u after (Nat.le_of_lt_succ early)
          rw [served_counted taken (Nat.lt_succ_of_lt departed) quiet, served.position,
            ih a (Nat.lt_succ_of_lt departed) since home]

/-- The interrupt that fills a window comes to `UPDATE_LED` before its service is over. -/
theorem window_summed {t u : Nat} (metered : Metered samples (run samples request start t))
    (service : Service samples request start t u)
    (fills : 256 ∣ (run samples request start t).position + 1) :
    SumsWindow samples request start ((run samples request start t).position + 1) t u := by
  obtain ⟨m, whole⟩ := fills
  obtain ⟨m, rfl⟩ : ∃ k, m = k + 1 := Nat.exists_eq_add_of_le' (by omega)
  have shows := metered.shows
  have position : (run samples request start t).position = 256 * m + 255 := by omega
  rw [position, show (256 * m + 255) / 256 = m by omega,
    show (256 * m + 255) % 256 = 255 by omega] at shows
  have stretch := @interrupt_sums samples (run samples request start t) shows.counter
  rw [← interrupt_taken service.taken] at stretch
  obtain ⟨v, after, summed, inside⟩ := surely_within_ends run_is_run stretch
  have before : v < u := by
    by_contra notBefore
    rcases Nat.eq_or_lt_of_le (Nat.le_of_not_lt notBefore) with rfl | past
    · have ended := service.ended
      rw [summed.serving.pc] at ended
      contradiction
    · have running := (inside u service.later past).code
      exact BitVec.not_lt.mpr running service.ended
  refine ⟨v, after, before, summed.serving.pc, ?_⟩
  rw [summed.low, summed.high, position, last_sum_partial samples m 256]
  exact sum_added (by decide) shows

end Run

section PowerUp
variable {samples : Nat → Byte} {request : Nat → Bool} {reg : Reg → Byte} {led : Byte}
  {led0 : Bool} {sseg : BitVec 24}

theorem cold_untaken (t : Nat) (early : t < 5) :
    ¬ Taken samples request (powerUp reg led led0 sseg) t := by
  have masked := (@cold_start samples request reg led led0 sseg).2.2 t early
  simp [Taken, masked]

theorem cold_count : Nat.count (Taken samples request (powerUp reg led led0 sseg)) 5 = 0 := by
  rw [count_quiet (Nat.zero_le 5) fun u _ early => cold_untaken u early]
  rfl

/-- When requests never pause, an interrupt is taken as soon as the one before is served. -/
theorem always_taken {t : Nat}
    (metered : Metered samples (run samples (fun _ => true) (powerUp reg led led0 sseg) t)) :
    Taken samples (fun _ => true) (powerUp reg led led0 sseg) t := by
  rw [Taken, metered.enabled]
  rfl

theorem always_home (n : Nat) :
    ∃ t, 5 ≤ t ∧ Metered samples (run samples (fun _ => true) (powerUp reg led led0 sseg) t) ∧
      (run samples (fun _ => true) (powerUp reg led led0 sseg) t).position = n := by
  obtain ⟨initial, zero, -⟩ := @cold_start samples (fun _ => true) reg led led0 sseg
  induction n with
  | zero => exact ⟨5, Nat.le_refl 5, initial, zero⟩
  | succ n ih =>
      obtain ⟨t, late, metered, numbered⟩ := ih
      obtain ⟨u, service, served⟩ := interrupt_served initial late (always_taken metered)
      exact ⟨u, Nat.le_trans late (Nat.le_of_lt service.later), served_metered _ _ metered served,
        by rw [served.position, numbered]⟩

theorem always_visited (n : Nat) :
    ∃ t, VisitAt (Taken samples (fun _ => true) (powerUp reg led led0 sseg)) id n t := by
  obtain ⟨initial, zero, -⟩ := @cold_start samples (fun _ => true) reg led led0 sseg
  obtain ⟨t, late, metered, numbered⟩ := @always_home samples reg led led0 sseg n
  exact ⟨t, always_taken metered,
    (taken_read initial (cold_count.trans zero.symm) t late metered).trans numbered⟩

end PowerUp

/-- For every sequence of audio bytes and every pattern of interrupts: the accumulators are
exact after each interrupt, and the sum of a whole window is on the way. -/
theorem accumulators_exact (samples : Nat → Byte) (request : Nat → Bool) (reg : Reg → Byte)
    (led : Byte) (led0 : Bool) (sseg : BitVec 24) (n t : Nat)
    (visit : VisitAt (Taken samples request (powerUp reg led led0 sseg)) id n t) :
    Accumulates samples request (powerUp reg led led0 sseg) n t := by
  obtain ⟨initial, zero, -⟩ := @cold_start samples request reg led led0 sseg
  obtain ⟨taken, numbered⟩ := visit
  have late : 5 ≤ t := by
    by_contra early
    exact cold_untaken t (Nat.lt_of_not_le early) taken
  have metered := interrupted_metered initial late taken
  have read := taken_read initial (cold_count.trans zero.symm) t late metered
  obtain rfl : (run samples request (powerUp reg led led0 sseg) t).position = n :=
    read.symm.trans numbered
  obtain ⟨u, service, served⟩ := interrupt_served initial late taken
  have stored := metered_stored (served_metered _ _ metered served)
  rw [served.position] at stored
  exact ⟨rfl, ⟨u, service, stored, window_summed metered service⟩, fun _ => last_sum_bound _ _⟩

/-- With an interrupt at every chance the one that fills the first window comes. -/
theorem window_accumulated :
    let samples : Nat → Byte := fun i => BitVec.ofNat 8 i
    ∃ t, VisitAt (Taken samples (fun _ => true) (powerUp (fun _ => 0) 0 false 0)) id 255 t ∧
      Accumulates samples (fun _ => true) (powerUp (fun _ => 0) 0 false 0) 255 t := by
  intro samples
  obtain ⟨t, visit⟩ := @always_visited samples (fun _ => 0) 0 false 0 255
  exact ⟨t, visit, accumulators_exact samples (fun _ => true) (fun _ => 0) 0 false 0 255 t visit⟩

end Cpen311.Accumulators
