import Mathlib.Order.WithBot
import Cpen311.ClkSync

/-! `clk_sync_fast2slow`: words sampled on the fast clock are handed over at the rises
of the slow one. -/
namespace Cpen311.Fast2Slow
open ClockedRun SlowClock ClkSync

variable {Time : Type*} [Field Time] [LinearOrder Time] [FloorSemiring Time]

noncomputable def run (slow : Time → Bool) (data : Nat → Word) (words : Registers) (k : Nat) :
    Registers :=
  drive clkSyncFast2slow (edges slow data) (powerUp words) k

/-- The word on `data` at fast edge `n`. -/
def wordAt (data : Nat → Word) (n : Nat) : Word := data (4 * n)

/-- A high phase that begins after power-up has ended before `r`. -/
def HighPhaseBefore (slow : Time → Bool) (r : Time) : Prop :=
  ∃ rise fall, 0 ≤ rise ∧ Rises slow rise ∧ rise < fall ∧ Falls slow fall ∧ fall < r

/-- `t` is the last fast edge earlier than `limit`. -/
def LastEdge (t : Nat) (limit : Time) : Prop := (t : Time) < limit ∧ limit ≤ t + 1

structure HandsOver (slow : Time → Bool) (data : Nat → Word) (run : Nat → Registers) : Prop where
  /-- `reg3` is not updated near a rise. -/
  apart : ∀ (n : Nat) r, Rises slow r → r - 1 < n → n < r + 1 → (run (4 * n)).enable = false
  /-- The word handed over at a rise. -/
  handed : ∀ r, 0 ≤ r → Rises slow r → HighPhaseBefore slow r →
    ∃ f, LastFell slow f r ∧ ∃ t, 1 ≤ t ∧ LastEdge t (f + 3 / 2) ∧
      (run (slot r + 1)).out = wordAt data (t - 1)
  /-- `out` only changes at a rise. -/
  kept : ∀ k, ¬ RiseIn slow k → (run (k + 1)).out = (run k).out
  /-- Each word on `out` was sampled earlier, at an edge that never moves back; until
  the first such word `out` shows what a register held at power-up. -/
  ordered : ∃ sampled : Nat → WithBot Nat, Monotone sampled ∧ ∀ k,
    (sampled k = ⊥ → (run k).out = (run 0).out ∨ (run k).out = (run 0).reg3) ∧
      ∀ n : Nat, sampled k = n → 4 * n < k ∧ (run k).out = wordAt data n

section Run
variable {slow : Time → Bool} {data : Nat → Word} {words : Registers}

theorem run_reg1 (k : Nat) : (run slow data words (k + 1)).reg1 =
    flipflop (edges slow data k).data (run slow data words k).reg1
      (edges slow data k).clkRises true := rfl

theorem run_out (k : Nat) : (run slow data words (k + 1)).out =
    flipflop (run slow data words k).reg3 (run slow data words k).out
      (edges slow data k).slowRises true := rfl

theorem run_gated : GatedRun slow data (run slow data words) where
  d1_low := rfl
  enable_low := rfl
  d1 _ := rfl
  enable _ := rfl
  reg3 _ := rfl

theorem out_kept (k : Nat) (quiet : ¬ RiseIn slow k) :
    (run slow data words (k + 1)).out = (run slow data words k).out := by
  rw [run_out, slow_quiet quiet, flipflop_idle]

theorem out_taken {k : Nat} (rise : RiseIn slow k) :
    (run slow data words (k + 1)).out = (run slow data words k).reg3 := by
  rw [run_out, slow_rises rise]
  rfl

/-- Before an edge `reg1` holds the word of the edge before it. -/
theorem reg1_edge (n : Nat) : (run slow data words (4 * (n + 1))).reg1 = wordAt data n := by
  have sampled : (run slow data words (4 * n + 1)).reg1 = wordAt data n := by
    rw [run_reg1, clk_rises]
    rfl
  have steady (k : Nat) (late : 4 * n + 1 ≤ k) (early : k < 4 * (n + 1)) :
      (run slow data words (k + 1)).reg1 = (run slow data words k).reg1 := by
    rw [run_reg1, clk_quiet (fun m => by omega), flipflop_idle]
  rw [holds_between (x := fun k => (run slow data words k).reg1) steady (by omega) (by omega),
    sampled]

/-- The edge at which the word in `reg3` was sampled. -/
def taken (run : Nat → Registers) : Nat → WithBot Nat
  | 0 => ⊥
  | k + 1 =>
      if k % 4 = 0 ∧ (run k).enable = true then (k / 4 - 1 : Nat) else taken run k

open Classical in
/-- The edge at which the word on `out` was sampled. -/
noncomputable def shown (slow : Time → Bool) (run : Nat → Registers) : Nat → WithBot Nat
  | 0 => ⊥
  | k + 1 => if RiseIn slow k then taken run k else shown slow run k

theorem taken_open {n : Nat} (opened : (run slow data words (4 * (n + 1))).enable = true) :
    taken (run slow data words) (4 * (n + 1) + 1) = n := by
  simp [taken, opened]

theorem taken_closed {k : Nat}
    (closed : ∀ n, k = 4 * n → (run slow data words (4 * n)).enable = false) :
    taken (run slow data words) (k + 1) = taken (run slow data words) k := by
  apply if_neg
  rintro ⟨edge, opened⟩
  obtain ⟨n, rfl⟩ := Nat.dvd_of_mod_eq_zero edge
  rw [closed n rfl] at opened
  contradiction

variable [IsStrictOrderedRing Time]

/-- The gate is closed at the first two edges. -/
theorem open_late {n : Nat} (opened : (run slow data words (4 * n)).enable = true) :
    ∃ m, n = m + 1 := by
  obtain ⟨second, -⟩ := (enable_iff run_gated n).mp opened
  exact Nat.exists_eq_add_of_le' (Nat.le_of_succ_le second)

variable (slow data words) in
theorem reg3_taken (k : Nat) :
    (taken (run slow data words) k = ⊥ →
      (run slow data words k).reg3 = (run slow data words 0).reg3) ∧
    ∀ n : Nat, taken (run slow data words) k = n →
      4 * n + 4 < k ∧ (run slow data words k).reg3 = wordAt data n := by
  induction k with
  | zero => exact ⟨fun _ => rfl, fun n absurd => by simp [taken] at absurd⟩
  | succ k ih =>
      rcases @open_or_closed (run slow data words) k with ⟨m, rfl, opened⟩ | closed
      · obtain ⟨m, rfl⟩ := open_late opened
        rw [taken_open opened, reg3_open run_gated opened, reg1_edge]
        constructor
        · simp
        · intro n same
          obtain rfl : m = n := by exact_mod_cast same
          exact ⟨by omega, rfl⟩
      · obtain ⟨initial, sampled⟩ := ih
        rw [taken_closed closed, reg3_holds run_gated closed]
        refine ⟨initial, fun n same => ?_⟩
        obtain ⟨before, word⟩ := sampled n same
        exact ⟨by omega, word⟩

variable (slow data words) in
theorem taken_monotone : Monotone (taken (run slow data words)) := by
  apply monotone_nat_of_le_succ
  intro k
  rcases @open_or_closed (run slow data words) k with ⟨m, rfl, opened⟩ | closed
  · obtain ⟨m, rfl⟩ := open_late opened
    rw [taken_open opened]
    cases earlier : taken (run slow data words) (4 * (m + 1)) with
    | bot => exact bot_le
    | coe n =>
        have before := ((reg3_taken slow data words _).2 n earlier).1
        have order : n ≤ m := by omega
        exact WithBot.coe_le_coe.mpr order
  · rw [taken_closed closed]

theorem shown_le_taken (k : Nat) :
    shown slow (run slow data words) k ≤ taken (run slow data words) k := by
  induction k with
  | zero => exact bot_le
  | succ k ih =>
      have grows := taken_monotone slow data words (Nat.le_succ k)
      rw [shown]
      split
      · exact grows
      · exact ih.trans grows

theorem shown_monotone : Monotone (shown slow (run slow data words)) := by
  apply monotone_nat_of_le_succ
  intro k
  rw [shown]
  split
  · exact shown_le_taken k
  · exact le_refl _

theorem out_shown (k : Nat) :
    (shown slow (run slow data words) k = ⊥ →
      (run slow data words k).out = (run slow data words 0).out ∨
        (run slow data words k).out = (run slow data words 0).reg3) ∧
    ∀ n : Nat, shown slow (run slow data words) k = n →
      4 * n < k ∧ (run slow data words k).out = wordAt data n := by
  induction k with
  | zero => exact ⟨fun _ => Or.inl rfl, fun n absurd => by simp [shown] at absurd⟩
  | succ k ih =>
      rw [shown]
      split
      · next rise =>
        obtain ⟨initial, sampled⟩ := reg3_taken slow data words k
        rw [out_taken rise]
        refine ⟨fun none => Or.inr (initial none), fun n same => ?_⟩
        obtain ⟨before, word⟩ := sampled n same
        exact ⟨by omega, word⟩
      · next quiet =>
        rw [out_kept k quiet]
        refine ⟨ih.1, fun n same => ?_⟩
        obtain ⟨before, word⟩ := ih.2 n same
        exact ⟨by omega, word⟩

theorem last_edge_exists {limit : Time} (positive : 0 < limit) : ∃ t, LastEdge t limit := by
  obtain ⟨t, above⟩ := Nat.exists_eq_add_of_lt (Nat.ceil_pos.mpr positive)
  have reached := Nat.le_ceil limit
  have close := Nat.ceil_lt_add_one positive.le
  rw [above] at reached close
  push_cast at reached close
  exact ⟨t, by linarith, by linarith⟩

variable (wave : Waveform 3 slow)
include wave

/-- The last update before a rise is at the last edge before `f + 3 / 2`: until `f` the
slow clock was high for at least three cycles, and from `f` to the rise it is low. -/
theorem reg3_at_rise {f r : Time} (started : 3 ≤ f) (last : LastFell slow f r)
    (rises : Rises slow r) {t : Nat} (edge : LastEdge (t + 1) (f + 3 / 2)) :
    (run slow data words (slot r)).reg3 = wordAt data t := by
  obtain ⟨early, limit⟩ := edge
  push_cast at early limit
  have far := opposite_late wave last.fell rises last.earlier
  have opened : (run slow data words (4 * (t + 1))).enable = true := by
    rw [enable_iff run_gated]
    push_cast
    refine ⟨?_, before_change wave last.fell (by linarith) (by linarith)⟩
    have cast : (1 : Time) < t := by linarith
    have one : 1 < t := by exact_mod_cast cast
    omega
  have closed (n : Nat) (late : 4 * (t + 1) + 1 ≤ 4 * n) (before : 4 * n < slot r) :
      (run slow data words (4 * n)).enable = false := by
    by_contra again
    obtain ⟨-, high⟩ := (enable_iff run_gated n).mp (by simpa using again)
    have after : ((t + 2 : Nat) : Time) ≤ n := by exact_mod_cast (by omega : t + 2 ≤ n)
    have inside := (edge_lt_slot (by linarith [last.earlier]) n).mp before
    push_cast at after
    rw [last.low _ (by linarith) (by linarith)] at high
    contradiction
  have passed : 4 * (t + 1) < slot r := by
    rw [edge_lt_slot (by linarith)]
    push_cast
    linarith
  rw [reg3_between run_gated closed passed (Nat.le_refl _), reg3_open run_gated opened, reg1_edge]

theorem word_handed {r : Time} (started : 0 ≤ r) (rises : Rises slow r)
    (settled : HighPhaseBefore slow r) :
    ∃ f, LastFell slow f r ∧ ∃ t, 1 ≤ t ∧ LastEdge t (f + 3 / 2) ∧
      (run slow data words (slot r + 1)).out = wordAt data (t - 1) := by
  obtain ⟨rise, fall, positive, rose, order, fell, before⟩ := settled
  obtain ⟨f, late, last⟩ := last_fell wave (by norm_num) fell before rises
  have long := opposite_late wave rose fell order
  have limit : 0 < f + 3 / 2 := by linarith
  obtain ⟨t, edge⟩ := last_edge_exists limit
  have notFirst : t ≠ 0 := by
    rintro rfl
    have reached := edge.2
    push_cast at reached
    linarith
  obtain ⟨t, rfl⟩ := Nat.exists_eq_succ_of_ne_zero notFirst
  refine ⟨f, last, t + 1, by omega, edge, ?_⟩
  rw [out_taken ⟨r, started, rfl, rises⟩]
  exact reg3_at_rise wave (by linarith) last rises edge

end Run

variable [IsStrictOrderedRing Time]

/-- For every waveform with phases of at least three fast cycles, every data stream and
every power-up content of the words. -/
theorem fast2slow_hands_over (slow : Time → Bool) (wave : Waveform 3 slow) (data : Nat → Word)
    (words : Registers) : HandsOver slow data (run slow data words) where
  apart n r rises late early :=
    closed_near_rise run_gated wave rises (by linarith) (by linarith)
  handed r started rises settled := word_handed wave started rises settled
  kept := out_kept
  ordered := ⟨shown slow (run slow data words), shown_monotone, out_shown⟩

theorem square_hands_over :
    Waveform 3 square ∧ HighPhaseBefore square 8 ∧
      HandsOver square (BitVec.ofNat 12)
        (run square (BitVec.ofNat 12) ⟨0, 0, 0, false, false⟩) := by
  refine ⟨square_waveform, ?_, fast2slow_hands_over square square_waveform _ _⟩
  exact ⟨2, 5, by norm_num, square_rises.1, by norm_num, square_falls, by norm_num⟩

end Cpen311.Fast2Slow
