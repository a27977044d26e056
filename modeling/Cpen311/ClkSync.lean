import Mathlib.Data.BitVec
import Mathlib.Data.Rat.Floor
import Mathlib.Tactic.Ring
import Cpen311.ClockedRun
import Cpen311.SlowClock

/-! The two clock crossings of lab5, `clk_sync_fast2slow` and `clk_sync_slow2fast`.
`d1` and `enable` power up low, the words hold anything. Registers whose edges fall
into one slot all sample the values from before it. -/
namespace Cpen311.ClkSync
open ClockedRun SlowClock

abbrev Word := BitVec 12

/-- The pins in one slot; `slowClk` and `data` are only looked at on edges. -/
structure Edges where
  clkRises : Bool
  clkFalls : Bool
  slowRises : Bool
  slowClk : Bool
  data : Word

structure Registers where
  reg1 : Word
  reg3 : Word
  out : Word
  d1 : Bool
  enable : Bool

/-- `flipflop`, and its copy `flipflop2`. -/
def flipflop {Value : Type} (d q : Value) (clk en : Bool) : Value :=
  if clk then if en then d else q else q

def clkSyncFast2slow (e : Edges) (r : Registers) : Registers where
  reg1 := flipflop e.data r.reg1 e.clkRises true
  reg3 := flipflop r.reg1 r.reg3 e.clkRises r.enable
  out := flipflop r.reg3 r.out e.slowRises true
  d1 := flipflop e.slowClk r.d1 e.clkFalls true
  enable := flipflop r.d1 r.enable e.clkFalls true

def clkSyncSlow2fast (e : Edges) (r : Registers) : Registers where
  reg1 := flipflop e.data r.reg1 e.slowRises true
  reg3 := flipflop r.reg1 r.reg3 e.clkRises r.enable
  out := flipflop r.reg3 r.out e.clkRises true
  d1 := flipflop e.slowClk r.d1 e.clkFalls true
  enable := flipflop r.d1 r.enable e.clkFalls true

def powerUp (words : Registers) : Registers := { words with d1 := false, enable := false }

@[simp] theorem flipflop_edge {Value : Type} (d q : Value) (en : Bool) :
    flipflop d q true en = if en then d else q := rfl

@[simp] theorem flipflop_idle {Value : Type} (d q : Value) (en : Bool) :
    flipflop d q false en = q := rfl

variable {Time : Type*} [Field Time] [LinearOrder Time] [FloorSemiring Time]

open Classical in
/-- The pins in slot `k`; `data k` is the word presented there. -/
noncomputable def edges (slow : Time → Bool) (data : Nat → Word) (k : Nat) : Edges where
  clkRises := k % 4 == 0
  clkFalls := k % 4 == 2
  slowRises := decide (RiseIn slow k)
  slowClk := slow (k / 4)
  data := data k

/-- The part of a run that both crossings share. -/
structure GatedRun (slow : Time → Bool) (data : Nat → Word) (run : Nat → Registers) : Prop where
  d1_low : (run 0).d1 = false
  enable_low : (run 0).enable = false
  d1 : ∀ k, (run (k + 1)).d1 =
    flipflop (edges slow data k).slowClk (run k).d1 (edges slow data k).clkFalls true
  enable : ∀ k, (run (k + 1)).enable =
    flipflop (run k).d1 (run k).enable (edges slow data k).clkFalls true
  reg3 : ∀ k, (run (k + 1)).reg3 =
    flipflop (run k).reg1 (run k).reg3 (edges slow data k).clkRises (run k).enable

section Pins
variable {slow : Time → Bool} {data : Nat → Word}

theorem clk_rises (n : Nat) : (edges slow data (4 * n)).clkRises = true := by
  simp [edges]

theorem clk_quiet {k : Nat} (other : ∀ n, k ≠ 4 * n) : (edges slow data k).clkRises = false := by
  have off := other (k / 4)
  simp only [edges, beq_eq_false_iff_ne]
  omega

theorem slow_rises {k : Nat} (rise : RiseIn slow k) : (edges slow data k).slowRises = true := by
  simp [edges, rise]

theorem slow_quiet {k : Nat} (quiet : ¬ RiseIn slow k) :
    (edges slow data k).slowRises = false := by
  simp [edges, quiet]

end Pins

section Gate
variable {slow : Time → Bool} {data : Nat → Word} {run : Nat → Registers}
  (gated : GatedRun slow data run)
include gated

theorem gate_cycle (n : Nat) :
    (run (4 * (n + 1))).d1 = slow (n + 1 / 2) ∧
      (run (4 * (n + 1))).enable = (run (4 * n)).d1 := by
  have edge : (edges slow data (4 * n)).clkFalls = false := by simp [edges]
  have early : (edges slow data (4 * n + 1)).clkFalls = false := by simp [edges]
  have fall : (edges slow data (4 * n + 2)).clkFalls = true := by simp [edges]
  have late : (edges slow data (4 * n + 3)).clkFalls = false := by simp [edges]
  have sampled : (edges slow data (4 * n + 2)).slowClk = slow (n + 1 / 2) := by
    simp only [edges]
    congr 1
    push_cast
    ring
  have d1 := gated.d1
  have enable := gated.enable
  rw [show 4 * (n + 1) = 4 * n + 3 + 1 by omega]
  simp only [d1, enable, edge, early, fall, late, sampled, flipflop_edge, flipflop_idle, if_true]
  exact ⟨trivial, trivial⟩

theorem reg3_open {n : Nat} (opened : (run (4 * n)).enable = true) :
    (run (4 * n + 1)).reg3 = (run (4 * n)).reg1 := by
  rw [gated.reg3, clk_rises, opened]
  rfl

theorem reg3_holds {k : Nat} (closed : ∀ n, k = 4 * n → (run (4 * n)).enable = false) :
    (run (k + 1)).reg3 = (run k).reg3 := by
  by_cases edge : ∃ n, k = 4 * n
  · obtain ⟨n, rfl⟩ := edge
    rw [gated.reg3, clk_rises, closed n rfl]
    rfl
  · push Not at edge
    rw [gated.reg3, clk_quiet edge, flipflop_idle]

/-- While the gate is closed at every edge, `reg3` keeps its word. -/
theorem reg3_between {a b k : Nat}
    (closed : ∀ n, a ≤ 4 * n → 4 * n < b → (run (4 * n)).enable = false)
    (late : a ≤ k) (early : k ≤ b) : (run k).reg3 = (run a).reg3 := by
  have steady (k : Nat) (after : a ≤ k) (before : k < b) :
      (run (k + 1)).reg3 = (run k).reg3 :=
    reg3_holds gated fun n same => closed n (by omega) (by omega)
  exact holds_between (x := fun k => (run k).reg3) steady late early

omit gated in
theorem open_or_closed (k : Nat) : (∃ n, k = 4 * n ∧ (run (4 * n)).enable = true) ∨
    ∀ n, k = 4 * n → (run (4 * n)).enable = false := by
  by_cases opened : ∃ n, k = 4 * n ∧ (run (4 * n)).enable = true
  · exact Or.inl opened
  · right
    intro n same
    by_contra other
    exact opened ⟨n, same, by simpa using other⟩

variable [IsStrictOrderedRing Time]

/-- At a fast edge `enable` shows the slow clock three halves of a cycle before. -/
theorem enable_iff (n : Nat) :
    (run (4 * n)).enable = true ↔ 2 ≤ n ∧ slow (n - 3 / 2) = true := by
  match n with
  | 0 => simp [gated.enable_low]
  | 1 =>
      have first := (gate_cycle gated 0).2
      rw [Nat.mul_zero, gated.d1_low] at first
      simp [first]
  | n + 2 =>
      have sampled := (gate_cycle gated n).1
      have passed := (gate_cycle gated (n + 1)).2
      have before : ((n + 2 : Nat) : Time) - 3 / 2 = n + 1 / 2 := by
        push_cast
        linarith
      rw [passed, sampled, before]
      simp

/-- The gate is closed from three halves of a cycle before a rise to three halves after it. -/
theorem closed_near_rise (wave : Waveform 3 slow) {r : Time} (rises : Rises slow r) {n : Nat}
    (late : r - 3 / 2 ≤ n) (early : n < r + 3 / 2) : (run (4 * n)).enable = false := by
  by_contra opened
  obtain ⟨-, high⟩ := (enable_iff gated n).mp (by simpa using opened)
  have low := before_change wave rises (u := (n : Time) - 3 / 2) (by linarith) (by linarith)
  rw [high] at low
  contradiction

end Gate

/-- A waveform that rises at 2, falls at 5 and rises again at 8. -/
def square (t : ℚ) : Bool := decide (2 ≤ t ∧ t < 5 ∨ 8 ≤ t)

theorem square_low {t : ℚ} (low : t < 2 ∨ 5 ≤ t ∧ t < 8) : square t = false := by
  apply decide_eq_false
  rintro (⟨late, early⟩ | late) <;> rcases low with before | ⟨after, before⟩ <;> linarith

theorem square_high {t : ℚ} (high : 2 ≤ t ∧ t < 5 ∨ 8 ≤ t) : square t = true := decide_eq_true high

theorem square_changes {level : Bool} {t : ℚ} (change : ChangesTo square level t) :
    level = true ∧ (t = 2 ∨ t = 8) ∨ level = false ∧ t = 5 := by
  have reached := change.1
  rcases lt_trichotomy t 2 with before | rfl | afterTwo
  · refine absurd change (flat_unchanged (sub_one_lt t) fun u _ same => ?_)
    rw [square_low (Or.inl before), square_low (Or.inl (by linarith))]
  · rw [square_high (by norm_num)] at reached
    exact Or.inl ⟨reached.symm, Or.inl rfl⟩
  · rcases lt_trichotomy t 5 with before | rfl | afterFive
    · refine absurd change (flat_unchanged afterTwo fun u late same => ?_)
      rw [square_high (Or.inl ⟨by linarith, before⟩),
        square_high (Or.inl ⟨late, by linarith⟩)]
    · rw [square_low (by norm_num)] at reached
      exact Or.inr ⟨reached.symm, rfl⟩
    · rcases lt_trichotomy t 8 with before | rfl | afterEight
      · refine absurd change (flat_unchanged afterFive fun u late same => ?_)
        rw [square_low (Or.inr ⟨by linarith, before⟩),
          square_low (Or.inr ⟨late, by linarith⟩)]
      · rw [square_high (by norm_num)] at reached
        exact Or.inl ⟨reached.symm, Or.inr rfl⟩
      · refine absurd change (flat_unchanged afterEight fun u late same => ?_)
        rw [square_high (Or.inr late), square_high (Or.inr (by linarith))]

theorem square_rises : Rises square 2 ∧ Rises square 8 := by
  refine ⟨⟨square_high (by norm_num), 1, by norm_num, fun u _ before => ?_⟩,
    ⟨square_high (by norm_num), 1, by norm_num, fun u after before => ?_⟩⟩
  · exact square_low (Or.inl before)
  · exact square_low (Or.inr ⟨by linarith, before⟩)

theorem square_falls : Falls square 5 := by
  refine ⟨square_low (by norm_num), 1, by norm_num, fun u after before => ?_⟩
  exact square_high (Or.inl ⟨by linarith, before⟩)

theorem square_waveform : Waveform 3 square where
  change a b order differs := by
    cases after : square b with
    | true =>
        rw [after] at differs
        have high : 2 ≤ b ∧ b < 5 ∨ 8 ≤ b := of_decide_eq_true after
        rcases high with ⟨late, early⟩ | late
        · have before : a < 2 := by
            by_contra inside
            exact differs (square_high (Or.inl ⟨not_lt.mp inside, by linarith⟩))
          exact ⟨2, before, late, square_rises.1⟩
        · have before : a < 8 := by
            by_contra inside
            exact differs (square_high (Or.inr (not_lt.mp inside)))
          exact ⟨8, before, late, square_rises.2⟩
    | false =>
        have low : ¬ (2 ≤ b ∧ b < 5 ∨ 8 ≤ b) := of_decide_eq_false after
        have high : 2 ≤ a ∧ a < 5 ∨ 8 ≤ a := by
          by_contra other
          exact differs ((decide_eq_false other).trans after.symm)
        rcases high with ⟨late, early⟩ | late
        · have reached : 5 ≤ b := by
            by_contra inside
            exact low (Or.inl ⟨by linarith, not_le.mp inside⟩)
          exact ⟨5, early, reached, square_falls⟩
        · exact absurd (Or.inr (by linarith)) low
  lasts level t change u late early := by
    obtain ⟨rfl, rfl | rfl⟩ | ⟨rfl, rfl⟩ := square_changes change
    · exact square_high (Or.inl ⟨late, by linarith⟩)
    · exact square_high (Or.inr late)
    · exact square_low (Or.inr ⟨late, by linarith⟩)
  apart level n change := by
    have even (m : Nat) : (n : ℚ) + 1 / 2 ≠ m := by
      intro same
      have cast : (2 * n + 1 : ℚ) = 2 * m := by linarith
      have whole : 2 * n + 1 = 2 * m := by exact_mod_cast cast
      omega
    obtain ⟨-, two | eight⟩ | ⟨-, five⟩ := square_changes change
    · exact even 2 two
    · exact even 8 eight
    · exact even 5 five

end Cpen311.ClkSync
