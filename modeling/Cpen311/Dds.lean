import Cpen311.Fast2Slow
import Cpen311.WaveformGen

/-! The selectors of lab5 (`dds.sv`) and the two crossings behind them, which bring the selected
waveform and the modulated one to the clock of the scope. Both crossings open their gates at the
same edges, so the two traces belong to one edge of the fast clock. -/
namespace Cpen311.Dds
open ClockedRun SlowClock ClkSync Fast2Slow WaveformGen

/-- The original signal controller. -/
def signal (signalSel : BitVec 2) (s : WaveformGen.Registers) : Sample :=
  if signalSel = 0b00 then s.sinOut
  else if signalSel = 0b01 then s.cosOut
  else if signalSel = 0b10 then sawOut s
  else squOut s

/-- The modulated signal controller. -/
def modSignal (modulationSel : BitVec 2) (lfsr : Bool) (sinOut : Sample) : Sample :=
  if modulationSel = 0b00 then if lfsr then 0 else sinOut
  else if modulationSel = 0b01 then sinOut
  else if modulationSel = 0b10 then if lfsr then ~~~sinOut + 1 else sinOut
  else if lfsr then 0b0 else 0b100000000000

/-- What the module reads at an edge of `clk`. -/
structure Inputs where
  modulationSel : BitVec 2
  signalSel : BitVec 2
  lfsr : Bool

variable {Time : Type*} [Field Time] [LinearOrder Time] [FloorSemiring Time]

section Scope
variable (slow : Time → Bool) (inputs : Nat → Inputs) (waves : Nat → WaveformGen.Registers)

/-- The words that `clk` finds at its edges, in the slots of a crossing. -/
def signalData (k : Nat) : Word := signal (inputs (k / 4)).signalSel (waves (k / 4))

def modData (k : Nat) : Word :=
  modSignal (inputs (k / 4)).modulationSel (inputs (k / 4)).lfsr (waves (k / 4)).sinOut

noncomputable def originalSignal (words : ClkSync.Registers) (k : Nat) : Word :=
  (Fast2Slow.run slow (signalData inputs waves) words k).out

noncomputable def modSignalOut (words : ClkSync.Registers) (k : Nat) : Word :=
  (Fast2Slow.run slow (modData inputs waves) words k).out

/-- Both traces are those of the edge numbered `n`. -/
structure ShowsEdge (words modWords : ClkSync.Registers) (k n : Nat) : Prop where
  past : 4 * n < k
  original : originalSignal slow inputs waves words k = signal (inputs n).signalSel (waves n)
  modulated : modSignalOut slow inputs waves modWords k =
    modSignal (inputs n).modulationSel (inputs n).lfsr (waves n).sinOut

end Scope

section Coherent
variable {slow : Time → Bool} {inputs : Nat → Inputs} {waves : Nat → WaveformGen.Registers}
  {words modWords : ClkSync.Registers}

theorem edge_data (n : Nat) : wordAt (signalData inputs waves) n =
      signal (inputs n).signalSel (waves n) ∧
    wordAt (modData inputs waves) n =
      modSignal (inputs n).modulationSel (inputs n).lfsr (waves n).sinOut := by
  have index : 4 * n / 4 = n := Nat.mul_div_cancel_left n (by decide)
  rw [wordAt, wordAt, signalData, modData, index]
  exact ⟨rfl, rfl⟩

theorem shows_kept {k n : Nat} (quiet : ¬ RiseIn slow k)
    (shows : ShowsEdge slow inputs waves words modWords k n) :
    ShowsEdge slow inputs waves words modWords (k + 1) n where
  past := Nat.lt_succ_of_lt shows.past
  original := (out_kept k quiet).trans shows.original
  modulated := (out_kept k quiet).trans shows.modulated

variable [IsStrictOrderedRing Time] (wave : Waveform 3 slow)
include wave

/-- Which edge a rise hands over depends on the clocks alone. -/
theorem edge_handed {r : Time} (started : 0 ≤ r) (rises : Rises slow r)
    (settled : HighPhaseBefore slow r) : ∃ n : Nat, 4 * n < slot r ∧
      ∀ data words, (Fast2Slow.run slow data words (slot r + 1)).out = wordAt data n := by
  obtain ⟨rise, fall, positive, rose, order, fell, before⟩ := settled
  obtain ⟨f, late, last⟩ := last_fell wave (by norm_num) fell before rises
  have long := opposite_late wave rose fell order
  have far := opposite_late wave last.fell rises last.earlier
  obtain ⟨t, edge⟩ := @last_edge_exists Time _ _ _ _ (f + 3 / 2) (by linarith)
  have notFirst : t ≠ 0 := by
    rintro rfl
    have reached := edge.2
    push_cast at reached
    linarith
  obtain ⟨n, rfl⟩ := Nat.exists_eq_succ_of_ne_zero notFirst
  refine ⟨n, ?_, fun data words => ?_⟩
  · have early := edge.1
    push_cast at early
    rw [edge_lt_slot started]
    linarith
  · rw [out_taken ⟨r, started, rfl, rises⟩]
    exact reg3_at_rise wave (by linarith) last rises edge

theorem shows_taken {r : Time} (started : 0 ≤ r) (rises : Rises slow r)
    (settled : HighPhaseBefore slow r) :
    ∃ n, ShowsEdge slow inputs waves words modWords (slot r + 1) n := by
  obtain ⟨n, early, handed⟩ := edge_handed wave started rises settled
  have words := @edge_data inputs waves n
  exact ⟨n, Nat.lt_succ_of_lt early, (handed _ _).trans words.1, (handed _ _).trans words.2⟩

theorem settled_later {r next : Time} (started : 0 ≤ next) (rises : Rises slow r)
    (again : Rises slow next) (later : slot r < slot next) (settled : HighPhaseBefore slow r) :
    HighPhaseBefore slow next := by
  obtain ⟨rise, fall, positive, rose, order, fell, before⟩ := settled
  refine ⟨rise, fall, positive, rose, order, fell, ?_⟩
  by_contra early
  have change := change_unique wave (by norm_num) again rises started (by linarith)
  exact Nat.lt_asymm change later

/-- From the first rise after a whole phase on, the two traces belong together. -/
theorem traces_coherent {r : Time} (started : 0 ≤ r) (rises : Rises slow r)
    (settled : HighPhaseBefore slow r) {k : Nat} (late : slot r < k) :
    ∃ n, ShowsEdge slow inputs waves words modWords k n := by
  induction k, late using Nat.le_induction with
  | base => exact shows_taken wave started rises settled
  | succ k late ih =>
      by_cases rise : RiseIn slow k
      · obtain ⟨next, positive, rfl, again⟩ := rise
        exact shows_taken wave positive again (settled_later wave positive rises again late settled)
      · obtain ⟨n, shows⟩ := ih
        exact ⟨n, shows_kept rise shows⟩

end Coherent

/-- A sine and its inverse, five slots after the sampler rises at 8. -/
theorem traces_coherent_inverted :
    ∃ n, ShowsEdge square (fun _ => ⟨0b10, 0b00, true⟩) (fun _ => ⟨0, 0, 5, 7⟩)
      ⟨0, 0, 0, false, false⟩ ⟨0, 0, 0, false, false⟩ (slot (8 : ℚ) + 5) n :=
  traces_coherent square_waveform (by norm_num) square_rises.2
    ⟨2, 5, by norm_num, square_rises.1, by norm_num, square_falls, by norm_num⟩
    (Nat.lt_add_of_pos_right (by decide))

end Cpen311.Dds
