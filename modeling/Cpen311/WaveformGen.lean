import Mathlib.Algebra.BigOperators.Intervals
import Mathlib.Data.BitVec
import Cpen311.ClockedRun
import Cpen311.PhaseAccumulator

/-! The waveforms of lab5 (`waveform_gen.vhd` and its table `sincos_lut.vhd`): a phase
accumulator whose top bits address the table, and a register that hides the latency of the
table. -/
namespace Cpen311.WaveformGen
open ClockedRun PhaseAccumulator

abbrev Sample := BitVec 12

/-- `SIN_ROM` and `COS_ROM`. -/
structure SincosLut where
  sinRom : BitVec 12 → Sample
  cosRom : BitVec 12 → Sample

structure Registers where
  phaseAcc : BitVec 32
  lutAddrReg : BitVec 12
  sinOut : Sample
  cosOut : Sample

structure Pins where
  reset : Bool
  en : Bool
  phaseInc : BitVec 32

def lutAddr (phaseAcc : BitVec 32) : BitVec 12 := phaseAcc.extractLsb' 20 12

/-- A rising edge of `clk`. -/
def waveformGen (lut : SincosLut) (i : Pins) (s : Registers) : Registers :=
  -- `reset` is asynchronous, so while it is low the edge finds an accumulator of 0
  let phaseAcc := if i.reset then s.phaseAcc else 0
  { phaseAcc := if i.reset && i.en then phaseAcc + i.phaseInc else phaseAcc
    lutAddrReg := if i.en then lutAddr phaseAcc else s.lutAddrReg
    sinOut := if i.en then lut.sinRom (lutAddr phaseAcc) else s.sinOut
    cosOut := if i.en then lut.cosRom (lutAddr phaseAcc) else s.cosOut }

def squOut (s : Registers) : Sample :=
  if s.lutAddrReg.getLsbD 11 then 0b011111111111 else 0b100000000000

def sawOut (s : Registers) : Sample := s.lutAddrReg

/-- As wired: never reset, always enabled. -/
def tied (phaseInc : BitVec 32) : Pins := ⟨true, true, phaseInc⟩

theorem tied_clock (lut : SincosLut) (phaseInc : BitVec 32) (s : Registers) :
    waveformGen lut (tied phaseInc) s =
      { phaseAcc := s.phaseAcc + phaseInc
        lutAddrReg := lutAddr s.phaseAcc
        sinOut := lut.sinRom (lutAddr s.phaseAcc)
        cosOut := lut.cosRom (lutAddr s.phaseAcc) } := rfl

/-- `squ_out` rises between two states. -/
def SquareRises (before after : Registers) : Prop :=
  squOut before = 0b100000000000 ∧ squOut after = 0b011111111111

instance (before after : Registers) : Decidable (SquareRises before after) :=
  inferInstanceAs (Decidable (_ ∧ _))

def halfTurn : Nat := 2 ^ 31

section Run
variable (lut : SincosLut) (phaseInc : Nat → BitVec 32) (start : Registers)

def run (t : Nat) : Registers :=
  drive (waveformGen lut) (fun u => tied (phaseInc u)) start t

/-- The phase before it wraps. -/
def total (t : Nat) : Nat := start.phaseAcc.toNat + ∑ u ∈ Finset.range t, (phaseInc u).toNat

structure Generates : Prop where
  phase : ∀ t, (run lut phaseInc start t).phaseAcc.toNat = total phaseInc start t % 2 ^ 32
  /-- All outputs belong to the phase of the clock before. -/
  saw : ∀ t, (sawOut (run lut phaseInc start (t + 1))).toNat =
    total phaseInc start t % 2 ^ 32 / 2 ^ 20
  sin : ∀ t, (run lut phaseInc start (t + 1)).sinOut =
    lut.sinRom (sawOut (run lut phaseInc start (t + 1)))
  cos : ∀ t, (run lut phaseInc start (t + 1)).cosOut =
    lut.cosRom (sawOut (run lut phaseInc start (t + 1)))
  /-- The square wave has one edge for each turn of the phase. -/
  square : (∀ t, (phaseInc t).toNat ≤ halfTurn) → ∀ n,
    Nat.count (fun t => SquareRises (run lut phaseInc start (t + 1))
      (run lut phaseInc start (t + 2))) n + crossings halfTurn (total phaseInc start 0) =
        crossings halfTurn (total phaseInc start n)

variable {lut phaseInc start}

theorem run_succ (t : Nat) : run lut phaseInc start (t + 1) =
    waveformGen lut (tied (phaseInc t)) (run lut phaseInc start t) := rfl

theorem total_succ (t : Nat) :
    total phaseInc start (t + 1) = total phaseInc start t + (phaseInc t).toNat := by
  rw [total, Finset.sum_range_succ, ← Nat.add_assoc, total]

theorem phase_total (t : Nat) :
    (run lut phaseInc start t).phaseAcc.toNat = total phaseInc start t % 2 ^ 32 := by
  induction t with
  | zero => exact (Nat.mod_eq_of_lt start.phaseAcc.isLt).symm
  | succ t ih =>
      rw [run_succ, tied_clock, total_succ]
      dsimp only
      rw [BitVec.toNat_add, ih, Nat.mod_add_mod]

theorem lut_addr_value (phaseAcc : BitVec 32) :
    (lutAddr phaseAcc).toNat = phaseAcc.toNat / 2 ^ 20 := by
  have bound := phaseAcc.isLt
  rw [lutAddr, BitVec.extractLsb'_toNat, Nat.shiftRight_eq_div_pow]
  exact Nat.mod_eq_of_lt (by omega)

/-- The square wave is high in the upper half of a turn. -/
theorem square_upper (t : Nat) :
    (run lut phaseInc start (t + 1)).lutAddrReg.getLsbD 11 = true ↔
      Upper halfTurn (total phaseInc start t) := by
  have phase := @phase_total lut phaseInc start t
  rw [run_succ, tied_clock, BitVec.getLsbD, lut_addr_value, phase, Nat.testBit_eq_decide_div_mod_eq,
    decide_eq_true_iff, Upper, halfTurn]
  omega

theorem square_rises_iff (t : Nat) :
    SquareRises (run lut phaseInc start (t + 1)) (run lut phaseInc start (t + 2)) ↔
      Rise halfTurn (total phaseInc start t) (total phaseInc start (t + 1)) := by
  rw [Rise, ← @square_upper lut phaseInc start t, ← @square_upper lut phaseInc start (t + 1),
    SquareRises, squOut, squOut]
  cases (run lut phaseInc start (t + 1)).lutAddrReg.getLsbD 11 <;>
    cases (run lut phaseInc start (t + 2)).lutAddrReg.getLsbD 11 <;> decide

theorem square_edges (short : ∀ t, (phaseInc t).toNat ≤ halfTurn) (n : Nat) :
    Nat.count (fun t => SquareRises (run lut phaseInc start (t + 1))
      (run lut phaseInc start (t + 2))) n + crossings halfTurn (total phaseInc start 0) =
        crossings halfTurn (total phaseInc start n) := by
  have positive : 0 < halfTurn := by decide
  rw [← @count_rises halfTurn positive (total phaseInc start) n]
  · simp only [square_rises_iff]
  · intro t _
    have bound := short t
    rw [total_succ]
    omega

end Run

/-- For every sequence of increments, whatever the registers hold at first. -/
theorem generates_waveforms (lut : SincosLut) (phaseInc : Nat → BitVec 32) (start : Registers) :
    Generates lut phaseInc start where
  phase := phase_total
  saw t := by
    rw [← @phase_total lut phaseInc start t, ← lut_addr_value]
    rfl
  sin _ := rfl
  cos _ := rfl
  square := square_edges

end Cpen311.WaveformGen
