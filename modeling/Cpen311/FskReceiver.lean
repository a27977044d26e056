import Cpen311.FskTuning
import Cpen311.WaveformGen

/-! The FSK path of lab5 from the LFSR to the waveforms, as `dds_and_nios_lab.v` wires it, and a
receiver that counts edges. Between two rising edges of `CLOCK_50` any number of steps of the
tuning happen: edges of `lfsr_clk` and bus accesses of the handler, in any order. -/
namespace Cpen311.FskReceiver
open PhaseAccumulator WaveformGen FskTuning

def phaseInc (modulationSelector : BitVec 4) (ddsIncrement : BitVec 32) : BitVec 32 :=
  if modulationSelector.extractLsb' 0 2 = 0b01 then ddsIncrement else 258

section Board
variable (selector : Nat → BitVec 4) (between : Nat → List Action)

def steps (s : System) (actions : List Action) : System :=
  actions.foldl (fun s action => FskTuning.step action s) s

/-- The LFSR and the handler at clock `t`. -/
def tuning : Nat → System
  | 0 => powerUp
  | t + 1 => steps (tuning t) (between t)

def increments (t : Nat) : BitVec 32 := phaseInc (selector t) (tuning between t).ddsIncrement

def wave (lut : SincosLut) (start : Registers) (t : Nat) : Registers :=
  WaveformGen.run lut (increments selector between) start t

/-- The rising edges of `squ_out` from clock `a + 1` to clock `b + 1`. -/
def edges (lut : SincosLut) (start : Registers) (a b : Nat) : Nat :=
  Nat.count (fun t => SquareRises (wave selector between lut start (t + 1))
      (wave selector between lut start (t + 2))) b -
    Nat.count (fun t => SquareRises (wave selector between lut start (t + 1))
      (wave selector between lut start (t + 2))) a

/-- FSK is selected for `length` clocks; at the first of them nothing is pending and the word is
that of the LFSR, and the LFSR is not clocked. -/
structure Window (a length : Nat) : Prop where
  selected : ∀ t, a ≤ t → t < a + length → (selector t).extractLsb' 0 2 = 0b01
  served : 0 < (tuning between a).served
  idle : (tuning between a).handler = .idle
  acknowledged : (tuning between a).edgeCapture = false
  tuned : Tuned (tuning between a)
  quiet : ∀ t, a ≤ t → t < a + length → .edge ∉ between t

variable {selector between}

/-- The handler has nothing to serve. -/
theorem steps_quiet {s : System} (idle : s.handler = .idle) (acknowledged : s.edgeCapture = false)
    {actions : List Action} (quiet : .edge ∉ actions) : steps s actions = s := by
  induction actions with
  | nil => rfl
  | cons action rest ih =>
      cases action with
      | edge => exact absurd List.mem_cons_self quiet
      | handler =>
          have still : FskTuning.step .handler s = s := by
            simp [FskTuning.step, handleLfsrInterrupts, idle, acknowledged]
          rw [steps, List.foldl_cons, still]
          exact ih fun later => quiet (List.mem_cons_of_mem _ later)

theorem window_still {a length : Nat} (window : Window selector between a length) {t : Nat}
    (late : a ≤ t) (early : t ≤ a + length) : tuning between t = tuning between a := by
  induction t, late using Nat.le_induction with
  | base => rfl
  | succ t late ih =>
      have same := ih (Nat.le_of_succ_le early)
      rw [tuning, same]
      exact steps_quiet window.idle window.acknowledged (window.quiet t late (by omega))

/-- The handler writes one of the two words. -/
def Keyed (s : System) : Prop := s.ddsIncrement = 0 ∨ ∃ bit, s.ddsIncrement = increment bit

theorem keyed_step (action : Action) {s : System} (keyed : Keyed s) :
    Keyed (FskTuning.step action s) := by
  cases action with
  | edge => exact keyed
  | handler =>
      change Keyed (handleLfsrInterrupts s)
      unfold handleLfsrInterrupts
      split
      · split
        · exact keyed
        · exact keyed
      · next value _ => exact .inr ⟨_, tuning_word_eq value⟩
      · exact keyed
      · exact keyed

theorem keyed_steps (actions : List Action) {s : System} (keyed : Keyed s) :
    Keyed (steps s actions) := by
  induction actions generalizing s with
  | nil => exact keyed
  | cons action rest ih => exact ih (keyed_step action keyed)

theorem tuning_keyed (t : Nat) : Keyed (tuning between t) := by
  induction t with
  | zero => exact .inl rfl
  | succ t ih => exact keyed_steps (between t) ih

/-- No increment is longer than half a turn, so no edge of the square wave is skipped. -/
theorem increments_short (t : Nat) : (increments selector between t).toNat ≤ halfTurn := by
  unfold increments phaseInc
  split
  · rcases @tuning_keyed between t with zero | ⟨bit, word⟩
    · rw [zero]
      decide
    · rw [word]
      cases bit <;> decide
  · decide

theorem window_total {a length : Nat} (window : Window selector between a length)
    (start : Registers) : total (increments selector between) start (a + length) =
      total (increments selector between) start a +
        length * (increment ((tuning between a).lfsr.getLsbD 0)).toNat := by
  have word := window.tuned window.served window.idle window.acknowledged
  have constant (t : Nat) (inside : t < length) :
      increments selector between (a + t) = increment ((tuning between a).lfsr.getLsbD 0) := by
    have still := window_still window (Nat.le_add_right a t) (by omega)
    rw [increments, phaseInc, still, word]
    exact if_pos (window.selected (a + t) (by omega) (by omega))
  clear window
  induction length with
  | zero => simp
  | succ length ih =>
      rw [← Nat.add_assoc, total_succ, ih fun t inside => constant t (by omega),
        constant length (Nat.lt_succ_self length), Nat.succ_mul, Nat.add_assoc]

theorem edges_crossings (lut : SincosLut) (start : Registers) {a b : Nat} :
    edges selector between lut start a b =
      crossings halfTurn (total (increments selector between) start b) -
        crossings halfTurn (total (increments selector between) start a) := by
  have first := @square_edges lut (increments selector between) start increments_short a
  have last := @square_edges lut (increments selector between) start increments_short b
  unfold edges wave
  omega

/-- Any number of edges that fits the way tells the way. -/
theorem edges_near {a length : Nat} (window : Window selector between a length) (lut : SincosLut)
    (start : Registers) :
    length * (increment ((tuning between a).lfsr.getLsbD 0)).toNat <
        2 ^ 32 * (edges selector between lut start a (a + length) + 1) ∧
      2 ^ 32 * edges selector between lut start a (a + length) <
        length * (increment ((tuning between a).lfsr.getLsbD 0)).toNat + 2 ^ 32 := by
  have near := @crossings_near halfTurn (by decide) (total (increments selector between) start a)
    (length * (increment ((tuning between a).lfsr.getLsbD 0)).toNat)
  rw [← window_total window, ← edges_crossings lut start] at near
  exact near

/-- Under every interleaving, the edges counted in a window of 0.6 to 1.98 seconds give back the
bit of the LFSR, wherever in a turn the window begins. -/
theorem bit_received {a length : Nat} (window : Window selector between a length)
    (enough : 30000000 ≤ length) (few : length ≤ 99000000) (lut : SincosLut) (start : Registers) :
    (tuning between a).lfsr.getLsbD 0 = true ↔
      3 ≤ edges selector between lut start a (a + length) := by
  obtain ⟨low, high⟩ := edges_near window lut start
  cases bit : (tuning between a).lfsr.getLsbD 0 with
  | true =>
      have word : (increment true).toNat = 430 := rfl
      rw [bit, word] at low high
      simp only [true_iff]
      omega
  | false =>
      have word : (increment false).toNat = 86 := rfl
      rw [bit, word] at low high
      simp only [Bool.false_eq_true, false_iff]
      omega

/-- One edge of `lfsr_clk`, served at once; then a second of the wave. -/
theorem bit_received_first :
    (tuning (fun t => if t = 0 then [.edge, .handler, .handler, .handler, .handler] else [])
      1).lfsr.getLsbD 0 = true ↔
      3 ≤ edges (fun _ => 0b0001)
        (fun t => if t = 0 then [.edge, .handler, .handler, .handler, .handler] else [])
        ⟨id, id⟩ ⟨0, 0, 0, 0⟩ 1 (1 + 50000000) :=
  bit_received
    { selected := fun _ _ _ => by decide
      served := by decide
      idle := by decide
      acknowledged := by decide
      tuned := fun _ _ _ => by decide
      quiet := fun t late _ => by rw [if_neg (by omega)]; nofun }
    (by decide) (by decide) ⟨id, id⟩ ⟨0, 0, 0, 0⟩

end Board

end Cpen311.FskReceiver
