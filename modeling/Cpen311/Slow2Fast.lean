import Cpen311.ClkSync

/-! `clk_sync_slow2fast`: the words presented at the rises of the slow clock appear on
the fast one. -/
namespace Cpen311.Slow2Fast
open ClockedRun SlowClock ClkSync

variable {Time : Type*} [Field Time] [LinearOrder Time] [FloorSemiring Time]

noncomputable def run (slow : Time → Bool) (data : Nat → Word) (words : Registers) (k : Nat) :
    Registers :=
  drive clkSyncSlow2fast (edges slow data) (powerUp words) k

open Classical in
/-- Slot `k` has the rise numbered `n`, from 0. -/
def RiseAt (slow : Time → Bool) (n k : Nat) : Prop := VisitAt (RiseIn slow) id n k

/-- `word n` is on `data` at the rise numbered `n`. -/
def Presented (slow : Time → Bool) (data word : Nat → Word) : Prop :=
  ∀ n k, RiseAt slow n k → data k = word n

open Classical in
/-- A stream that presents a given sequence of words. -/
noncomputable def stream (slow : Time → Bool) (word : Nat → Word) (k : Nat) : Word :=
  word (earlierVisits (RiseIn slow) id k)

theorem stream_presents (slow : Time → Bool) (word : Nat → Word) :
    Presented slow (stream slow word) word := by
  intro n k rise
  exact congrArg word rise.2

structure Delivers (slow : Time → Bool) (word : Nat → Word) (run : Nat → Registers) : Prop where
  /-- After the rise numbered `n` there is one fast edge, within four cycles, until which
  `out` shows the word before, and after which it shows word `n` until the next rise. -/
  delivered : ∀ n r, 0 ≤ r → Rises slow r → RiseAt slow n (slot r) →
    ∃ e : Nat, r < e ∧ e < r + 4 ∧ (∀ next, Rises slow next → r < next → e < next) ∧
      (∀ m, n = m + 1 → ∀ k, slot r < k → k ≤ 4 * e → (run k).out = word m) ∧
      ∀ k, 4 * e < k → (∀ u, slot r < u → u < k → ¬ RiseIn slow u) → (run k).out = word n
  /-- `reg3` does not sample `reg1` within a cycle of a rise. -/
  apart : ∀ (n : Nat) r, Rises slow r → r - 1 ≤ n → n ≤ r + 1 → (run (4 * n)).enable = false

section Run
variable {slow : Time → Bool} {data word : Nat → Word} {words : Registers}

theorem run_reg1 (k : Nat) : (run slow data words (k + 1)).reg1 =
    flipflop (edges slow data k).data (run slow data words k).reg1
      (edges slow data k).slowRises true := rfl

theorem run_out (k : Nat) : (run slow data words (k + 1)).out =
    flipflop (run slow data words k).reg3 (run slow data words k).out
      (edges slow data k).clkRises true := rfl

theorem run_gated : GatedRun slow data (run slow data words) where
  d1_low := rfl
  enable_low := rfl
  d1 _ := rfl
  enable _ := rfl
  reg3 _ := rfl

theorem out_edge (n : Nat) :
    (run slow data words (4 * n + 1)).out = (run slow data words (4 * n)).reg3 := by
  rw [run_out, clk_rises]
  rfl

theorem out_next {k : Nat} {w : Word} (shown : (run slow data words k).out = w)
    (held : ∀ p, k = 4 * p → (run slow data words k).reg3 = w) :
    (run slow data words (k + 1)).out = w := by
  by_cases edge : ∃ p, k = 4 * p
  · obtain ⟨p, rfl⟩ := edge
    rw [out_edge, held p rfl]
  · push Not at edge
    rw [run_out, clk_quiet edge, flipflop_idle, shown]

/-- From a rise to the next one `reg1` holds the word of the rise. -/
theorem reg1_word (presented : Presented slow data word) {n k : Nat} (rise : RiseAt slow n k)
    {u : Nat} (after : k < u) (quiet : ∀ v, k < v → v < u → ¬ RiseIn slow v) :
    (run slow data words u).reg1 = word n := by
  have loaded : (run slow data words (k + 1)).reg1 = word n := by
    have risen : RiseIn slow k := rise.1
    rw [run_reg1, slow_rises risen, ← presented n k rise]
    rfl
  have steady (v : Nat) (late : k + 1 ≤ v) (early : v < u) :
      (run slow data words (v + 1)).reg1 = (run slow data words v).reg1 := by
    rw [run_reg1, slow_quiet (quiet v late early), flipflop_idle]
  rw [holds_between (x := fun k => (run slow data words k).reg1) steady after (Nat.le_refl _),
    loaded]

variable [IsStrictOrderedRing Time]

theorem first_edge_exists {r : Time} (started : 0 ≤ r) : ∃ m, FirstEdge m r := by
  have reached := Nat.le_ceil (r + 3 / 2)
  have close := Nat.ceil_lt_add_one (show 0 ≤ r + 3 / 2 by linarith)
  exact ⟨⌈r + 3 / 2⌉₊, reached, by linarith⟩

section Rise
variable (wave : Waveform 3 slow) {n m : Nat} {r : Time} (started : 0 ≤ r) (rises : Rises slow r)
  (edge : FirstEdge m r)
include wave rises started edge

theorem first_edge_open : (run slow data words (4 * m)).enable = true := by
  obtain ⟨late, early⟩ := edge
  rw [enable_iff run_gated]
  refine ⟨?_, wave.lasts _ r rises _ (by linarith) (by linarith)⟩
  have cast : (1 : Time) < m := by linarith
  have one : 1 < m := by exact_mod_cast cast
  omega

variable (presented : Presented slow data word) (rise : RiseAt slow n (slot r))
include presented rise

/-- Once the gate has been open, `reg3` has the word of the rise until the next one. -/
theorem reg3_word {u : Nat} (after : 4 * m < u)
    (quiet : ∀ v, slot r < v → v < u → ¬ RiseIn slow v) :
    (run slow data words u).reg3 = word n := by
  have passed : slot r < 4 * m := by
    rw [slot_lt_edge started]
    linarith [edge.1]
  induction u, after using Nat.le_induction with
  | base =>
      rw [reg3_open run_gated (first_edge_open wave started rises edge)]
      exact reg1_word presented rise passed fun v late early => quiet v late (by omega)
  | succ u late ih =>
      have word := ih fun v after before => quiet v after (by omega)
      rcases open_or_closed u with ⟨p, rfl, opened⟩ | closed
      · rw [reg3_open run_gated opened]
        exact reg1_word presented rise (by omega) fun v after before => quiet v after (by omega)
      · rw [reg3_holds run_gated closed, word]

theorem out_word {u : Nat} (after : 4 * (m + 1) < u)
    (quiet : ∀ v, slot r < v → v < u → ¬ RiseIn slow v) :
    (run slow data words u).out = word n := by
  have held (v : Nat) (late : 4 * (m + 1) ≤ v) (early : v < u) :
      (run slow data words v).reg3 = word n :=
    reg3_word wave started rises edge presented rise (by omega) fun w after before =>
      quiet w after (by omega)
  induction u, after using Nat.le_induction with
  | base => rw [out_edge, held _ (Nat.le_refl _) (Nat.lt_succ_self _)]
  | succ u late ih =>
      have before := ih (fun v after before => quiet v after (by omega)) fun v late early =>
        held v late (by omega)
      exact out_next before fun _ _ => held u (by omega) (Nat.lt_succ_self u)

/-- At the next rise the gate is closed until its own first edge, so the word stays on
`out` up to the edge after that. -/
theorem out_across {next : Time} (again : Rises slow next) (order : r < next)
    (quiet : ∀ v, slot r < v → v < slot next → ¬ RiseIn slow v) {m' : Nat}
    (edge' : FirstEdge m' next) {u : Nat} (late : slot next ≤ u) (early : u ≤ 4 * (m' + 1)) :
    (run slow data words u).out = word n := by
  have far := same_far wave (by norm_num) rises again order
  have close := edge.2
  have limit := edge'.2
  have passed : 4 * (m + 1) < slot next := by
    rw [edge_lt_slot (by linarith)]
    push_cast
    linarith
  have closed (p : Nat) (after : slot next ≤ 4 * p) (before : 4 * p < 4 * m') :
      (run slow data words (4 * p)).enable = false := by
    have reached : next ≤ p := by
      by_contra notYet
      exact absurd ((edge_lt_slot (by linarith) p).mpr (not_le.mp notYet)) (by omega)
    have cast : ((p + 1 : Nat) : Time) ≤ m' := by exact_mod_cast (by omega : p + 1 ≤ m')
    push_cast at cast
    exact closed_near_rise run_gated wave again (by linarith) (by linarith)
  have held (v : Nat) (after : slot next ≤ v) (before : v ≤ 4 * m') :
      (run slow data words v).reg3 = word n := by
    rw [reg3_between run_gated closed after before]
    exact reg3_word wave started rises edge presented rise (by omega) quiet
  induction u, late using Nat.le_induction with
  | base => exact out_word wave started rises edge presented rise passed quiet
  | succ u late ih =>
      -- the first edge itself still loads the old word, and the next one is not before `u`
      apply out_next (ih (by omega))
      rintro p rfl
      exact held _ late (by omega)

end Rise

open Classical in
theorem previous_rise (wave : Waveform 3 slow) {n : Nat} {r : Time} (started : 0 ≤ r)
    (rises : Rises slow r) (rise : RiseAt slow (n + 1) (slot r)) :
    ∃ before, 0 ≤ before ∧ Rises slow before ∧ before < r ∧ RiseAt slow n (slot before) ∧
      ∀ v, slot before < v → v < slot r → ¬ RiseIn slow v := by
  obtain ⟨k, early, visit, quiet⟩ := previous_visit _ _ rise.2
  obtain ⟨before, positive, rfl, rose⟩ : RiseIn slow k := visit.1
  refine ⟨before, positive, rose, ?_, visit, quiet⟩
  rcases lt_trichotomy before r with order | rfl | order
  · exact order
  · exact absurd early (Nat.lt_irrefl _)
  · have later := change_unique wave (by norm_num) rises rose started order
    omega

end Run

variable [IsStrictOrderedRing Time]

/-- For every waveform with phases of at least three fast cycles, every sequence of
words and every power-up content of the registers. -/
theorem slow2fast_delivers (slow : Time → Bool) (wave : Waveform 3 slow) (data word : Nat → Word)
    (presented : Presented slow data word) (words : Registers) :
    Delivers slow word (run slow data words) where
  delivered n r started rises rise := by
    obtain ⟨m, edge⟩ := first_edge_exists started
    obtain ⟨late, early⟩ := edge
    refine ⟨m + 1, ?_, ?_, fun next again order => ?_, fun before same k after close => ?_,
      fun k after quiet => ?_⟩
    · push_cast
      linarith
    · push_cast
      linarith
    · have far := same_far wave (by norm_num) rises again order
      push_cast
      linarith
    · subst same
      obtain ⟨last, positive, rose, order, visit, quiet⟩ := previous_rise wave started rises rise
      obtain ⟨m', edge'⟩ := first_edge_exists positive
      exact out_across wave positive rose edge' presented visit rises order quiet ⟨late, early⟩
        after.le close
    · exact out_word wave started rises ⟨late, early⟩ presented rise after quiet
  apart n r rises late early :=
    closed_near_rise run_gated wave rises (by linarith) (by linarith)

theorem square_delivers :
    Waveform 3 square ∧ Presented square (stream square (BitVec.ofNat 12)) (BitVec.ofNat 12) ∧
      Delivers square (BitVec.ofNat 12)
        (run square (stream square (BitVec.ofNat 12)) ⟨0, 0, 0, false, false⟩) :=
  have presents := stream_presents square (BitVec.ofNat 12)
  ⟨square_waveform, presents, slow2fast_delivers square square_waveform _ _ presents _⟩

end Cpen311.Slow2Fast
