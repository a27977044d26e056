import Cpen311.IpodPlayer

/-! `sound_out` by itself, under any inputs, with `reset = 0` as in every
instance. The half of the word to play is chosen from the live `direction`, once
in `audio1` and again in `audio2`, a sample period later: a change in between
plays one half twice and the other not at all. -/
namespace Cpen311.SoundOut
open ClockedRun IpodPlayer

structure Inputs where
  start : Bool
  edgedetect : Bool
  readdatavalid : Bool
  direction : Bool
  audioData : Word

structure Machine where
  state : SoundState
  buffer : Word
  sound : Byte

def powerUp (buffer : Word) (sound : Byte) : Machine where
  state := .idle
  buffer := buffer
  sound := sound

def clock (s : Inputs) (m : Machine) : Machine where
  state := soundOut s.start s.readdatavalid s.edgedetect m.state
  buffer :=
    match m.state with
    | .wait1 => s.audioData
    | _ => m.buffer
  sound :=
    match m.state with
    | .audio1 => firstByte s.direction m.buffer
    | .audio2 => secondByte s.direction m.buffer
    | _ => m.sound

/-! The player contains this machine. -/
def inputs (s : Signals) (p : Player) : Inputs where
  start := finishRead p.readState
  edgedetect := s.readNow
  readdatavalid := s.readdatavalid
  direction := s.direction
  audioData := s.readdata

def part (p : Player) : Machine where
  state := p.soundState
  buffer := p.buffer
  sound := p.sound

theorem part_clock (s : Signals) (p : Player) :
    part (IpodPlayer.clock s p) = clock (inputs s p) (part p) := by
  cases playing : p.soundState <;>
    simp [part, inputs, clock, IpodPlayer.clock, audioRegisters, playing]

/-- The edge leaves `wait1`, or `wait2`. -/
def FirstTick (s : Inputs) (m : Machine) : Prop := m.state = .wait1 ∧ s.edgedetect = true

def SecondTick (s : Inputs) (m : Machine) : Prop := m.state = .wait2 ∧ s.edgedetect = true

section Word
variable {input : Nat → Inputs} {run : Nat → Machine}

/-- From its first tick on, the machine keeps what the bus carried then. -/
theorem buffer_kept (isRun : ∀ n, run (n + 1) = clock (input n) (run n)) {first last : Nat}
    (tick : FirstTick (input first) (run first)) (later : first + 2 ≤ last)
    (noTick : ∀ u, first < u → u < last → ¬ SecondTick (input u) (run u)) :
    (run last).state = .wait2 ∧ (run last).buffer = (input first).audioData := by
  induction last, later using Nat.le_induction with
  | base => simp [isRun, clock, tick.1, tick.2, soundOut]
  | succ last later ih =>
      obtain ⟨state, buffer⟩ := ih fun u after before => noTick u after (by omega)
      have stays := noTick last (by omega) (Nat.lt_succ_self last)
      have quiet : (input last).edgedetect = false := by simpa [SecondTick, state] using stays
      simp [isRun, clock, state, quiet, soundOut, buffer]

theorem first_played (isRun : ∀ n, run (n + 1) = clock (input n) (run n)) {first : Nat}
    (tick : FirstTick (input first) (run first)) :
    (run (first + 2)).sound = firstByte (input (first + 1)).direction (input first).audioData := by
  simp [isRun, clock, tick.1, tick.2, soundOut]

theorem second_played (isRun : ∀ n, run (n + 1) = clock (input n) (run n)) {second : Nat}
    (tick : SecondTick (input second) (run second)) :
    (run (second + 2)).sound =
      secondByte (input (second + 1)).direction (run second).buffer := by
  simp [isRun, clock, tick.1, tick.2, soundOut]

theorem ticks_apart (isRun : ∀ n, run (n + 1) = clock (input n) (run n)) {first second : Nat}
    (firstTick : FirstTick (input first) (run first)) (order : first < second)
    (secondTick : SecondTick (input second) (run second)) : first + 2 ≤ second := by
  by_contra early
  obtain rfl : second = first + 1 := by omega
  have playing : (run (first + 1)).state = .audio1 := by
    simp [isRun, clock, firstTick.1, firstTick.2, soundOut]
  simpa [playing] using secondTick.1

end Word

section Halves
variable (input : Nat → Inputs) (run : Nat → Machine)

/-- A word leaves `wait1` at `first`, and `wait2` at the next opportunity, `second`. -/
structure WordPlayed (first second : Nat) : Prop where
  order : first < second
  firstTick : FirstTick (input first) (run first)
  secondTick : SecondTick (input second) (run second)
  next : ∀ u, first < u → u < second → ¬ SecondTick (input u) (run u)

/-- The bytes that `audio1` and `audio2` load are the two halves of the word
held when `wait1` is left, each once. -/
def PlaysHalves : Prop :=
  ∀ first second, WordPlayed input run first second →
    (run (first + 2)).sound = lowByte (run (first + 1)).buffer ∧
        (run (second + 2)).sound = highByte (run (first + 1)).buffer ∨
      (run (first + 2)).sound = highByte (run (first + 1)).buffer ∧
        (run (second + 2)).sound = lowByte (run (first + 1)).buffer

/-- The direction in `audio2` is that in `audio1`, or the halves are equal anyway. -/
def KeepsDirection : Prop :=
  ∀ first second, WordPlayed input run first second →
    (input (first + 1)).direction = (input (second + 1)).direction ∨
      lowByte (input first).audioData = highByte (input first).audioData

end Halves

theorem both_halves_iff (early late : Bool) (word : Word) :
    (firstByte early word = lowByte word ∧ secondByte late word = highByte word ∨
      firstByte early word = highByte word ∧ secondByte late word = lowByte word) ↔
    (early = late ∨ lowByte word = highByte word) := by
  cases early <;> cases late <;> simp [firstByte, secondByte, eq_comm]

/-- For every run: each word is played as its two halves if and only if no change
of direction separates `audio1` from `audio2` of a word with distinct halves. -/
theorem halves_played_iff (input : Nat → Inputs) (buffer : Word) (sound : Byte) :
    PlaysHalves input (drive clock input (powerUp buffer sound)) ↔
      KeepsDirection input (drive clock input (powerUp buffer sound)) := by
  apply forall_congr'
  intro first
  apply forall_congr'
  intro second
  apply imp_congr_right
  intro word
  have isRun (n : Nat) : drive clock input (powerUp buffer sound) (n + 1) =
      clock (input n) (drive clock input (powerUp buffer sound) n) := rfl
  have apart := ticks_apart isRun word.firstTick word.order word.secondTick
  obtain ⟨-, kept⟩ := buffer_kept isRun word.firstTick apart word.next
  have held : (drive clock input (powerUp buffer sound) (first + 1)).buffer =
      (input first).audioData := by
    simp [isRun, clock, word.firstTick.1]
  rw [first_played isRun word.firstTick, second_played isRun word.secondTick, kept, held]
  exact both_halves_iff _ _ _

/-- The direction changes between `audio1` (cycle 3) and `audio2` (cycle 5). -/
def turned (t : Nat) : Inputs where
  start := true
  edgedetect := true
  readdatavalid := true
  direction := decide (t < 5)
  audioData := 0x22001100

theorem half_played_twice : ¬ PlaysHalves turned (drive clock turned (powerUp 0 0)) := by
  intro plays
  have word : WordPlayed turned (drive clock turned (powerUp 0 0)) 2 4 := by
    refine ⟨by decide, ⟨by decide, by decide⟩, ⟨by decide, by decide⟩, ?_⟩
    intro u after before
    obtain rfl : u = 3 := by omega
    rintro ⟨state, -⟩
    contradiction
  rcases plays 2 4 word with ⟨-, second⟩ | ⟨first, -⟩
  · contradiction
  · contradiction

end Cpen311.SoundOut
