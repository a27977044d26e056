import Cpen311.AvalonRead
import Cpen311.PlayerLockStep
import Cpen311.SoundOut

/-! What the player plays. `sound_out` waits for `readdatavalid` in `read`, but
takes the word from the data bus in `wait1`: it ends up with what the bus
carries in the cycle whose `readNow` releases `wait1`, any number of cycles
after the answer. The bytes played are those of the flash exactly when that
cycle still shows them, which the bus does not promise. -/
namespace Cpen311.PlayedContent
open ClockedRun IpodPlayer PlayerLockStep

section Played
variable (signals : Nat → Signals) (run : Nat → Player)

/-- The flash's port as the player's run drives it. -/
def bus (t : Nat) : AvalonRead.Bus Address Word where
  read := flashMemRead (run t).readState
  waitrequest := (signals t).waitrequest
  address := (run t).address
  readdatavalid := (signals t).readdatavalid
  readdata := (signals t).readdata

/-- The run of `sound_out` within the player's run. -/
def soundRun (t : Nat) : SoundOut.Machine := SoundOut.part (run t)

def soundInputs (t : Nat) : SoundOut.Inputs := SoundOut.inputs (signals t) (run t)

/-- A word that is played: updating `flash_mem_address` in cycle `a` makes it
`address`, and the ticks `first` and `second` output its bytes, with `direction`
the same throughout. -/
structure WordPlayed (a : Nat) (address : Address) (first second : Nat) (direction : Bool) :
    Prop where
  update : Updating (run a)
  held : ∀ u, a < u → u ≤ second + 2 → (run u).address = address
  order : a < first ∧ first < second
  firstTick : FirstTick (signals first) (run first)
  secondTick : SecondTick (signals second) (run second)
  constant : ∀ u, a ≤ u → u ≤ second + 1 → (signals u).direction = direction

/-- Every word played is the content of its address. -/
def PlaysContent (content : Address → Word) : Prop :=
  ∀ a address first second direction, WordPlayed signals run a address first second direction →
    (run (first + 2)).sound = firstByte direction (content address) ∧
      (run (second + 2)).sound = secondByte direction (content address)

/-- Whenever `readNow` releases `wait1`, the data bus carries the two bytes. -/
def BusHolds (content : Address → Word) : Prop :=
  ∀ a address first second direction, WordPlayed signals run a address first second direction →
    lowByte (signals first).readdata = lowByte (content address) ∧
      highByte (signals first).readdata = highByte (content address)

end Played

section Word
variable {signals : Nat → Signals} {run : Nat → Player}

theorem part_is_run (isRun : ∀ n, run (n + 1) = clock (signals n) (run n)) (n : Nat) :
    soundRun run (n + 1) = SoundOut.clock (soundInputs signals run n) (soundRun run n) := by
  rw [soundRun, isRun]
  exact SoundOut.part_clock (signals n) (run n)

theorem buffer_kept (isRun : ∀ n, run (n + 1) = clock (signals n) (run n)) {first last : Nat}
    (tick : FirstTick (signals first) (run first)) (later : first + 2 ≤ last)
    (noTick : ∀ u, first < u → u < last → ¬ SecondTick (signals u) (run u)) :
    (run last).buffer = (signals first).readdata :=
  (@SoundOut.buffer_kept _ _ (part_is_run isRun) first last tick later noTick).2

theorem first_played (isRun : ∀ n, run (n + 1) = clock (signals n) (run n)) {first : Nat}
    (tick : FirstTick (signals first) (run first)) :
    (run (first + 2)).sound =
      firstByte (signals (first + 1)).direction (signals first).readdata :=
  @SoundOut.first_played _ _ (part_is_run isRun) first tick

theorem second_played (isRun : ∀ n, run (n + 1) = clock (signals n) (run n)) {second : Nat}
    (tick : SecondTick (signals second) (run second)) :
    (run (second + 2)).sound =
      secondByte (signals (second + 1)).direction (run second).buffer :=
  @SoundOut.second_played _ _ (part_is_run isRun) second tick

theorem word_undisturbed (isRun : ∀ n, run (n + 1) = clock (signals n) (run n))
    {a first second : Nat} {address : Address} {direction : Bool}
    (word : WordPlayed signals run a address first second direction) (u : Nat)
    (after : a < u) (before : u < second) : ¬ Updating (run u) := by
  intro again
  have enabled : getAddress (run u).readState = true := again
  have same : (run (u + 1)).address = (run u).address :=
    (word.held (u + 1) (by omega) (by omega)).trans (word.held u after (by omega)).symm
  rw [isRun] at same
  simp only [clock, enabled] at same
  exact address_changes _ _ same

theorem word_ticks (isRun : ∀ n, run (n + 1) = clock (signals n) (run n))
    (handshake : ∀ n, Handshake (run n)) {a first second : Nat} {address : Address}
    {direction : Bool} (word : WordPlayed signals run a address first second direction) :
    first + 2 ≤ second ∧ ∀ u, first < u → u < second → ¬ SecondTick (signals u) (run u) := by
  obtain ⟨order, behind⟩ := word.order
  have apart : first + 2 ≤ second :=
    @SoundOut.ticks_apart _ _ (part_is_run isRun) first second word.firstTick behind word.secondTick
  have stage := stage_along isRun handshake word.update (by omega) (word_undisturbed isRun word)
  refine ⟨apart, fun u after before tick => ?_⟩
  cases stage with
  | waiting _ _ ticks => simpa using (ticks.second u (by omega) before).mp tick
  | half _ _ _ _ ticks => simpa using (ticks.second u (by omega) before).mp tick
  | played _ _ _ ended => grind [SecondTick, word.secondTick.1]

theorem bytes_eq_iff (direction : Bool) (played word : Word) :
    (firstByte direction played = firstByte direction word ∧
      secondByte direction played = secondByte direction word) ↔
      lowByte played = lowByte word ∧ highByte played = highByte word := by
  cases direction
  · exact and_comm
  · exact Iff.rfl

/-- A word is played right exactly when the bus shows it at its first tick. -/
theorem word_content_iff (isRun : ∀ n, run (n + 1) = clock (signals n) (run n))
    (handshake : ∀ n, Handshake (run n)) {a first second : Nat} {address : Address}
    {direction : Bool} (content : Address → Word)
    (word : WordPlayed signals run a address first second direction) :
    ((run (first + 2)).sound = firstByte direction (content address) ∧
      (run (second + 2)).sound = secondByte direction (content address)) ↔
    (lowByte (signals first).readdata = lowByte (content address) ∧
      highByte (signals first).readdata = highByte (content address)) := by
  obtain ⟨order, behind⟩ := word.order
  obtain ⟨apart, noTick⟩ := word_ticks isRun handshake word
  have buffer := buffer_kept isRun word.firstTick apart noTick
  rw [first_played isRun word.firstTick, second_played isRun word.secondTick, buffer,
    word.constant (first + 1) (by omega) (by omega),
    word.constant (second + 1) (by omega) (by omega)]
  exact bytes_eq_iff direction _ _

end Word

/-- Over all contents, keys, sample clocks and bus traces: the player plays the
content if and only if the bus holds it at every release of `wait1`. -/
theorem content_played_iff (content : Address → Word) (signals : Nat → Signals) (buffer : Word)
    (sound : Byte) :
    PlaysContent signals (drive clock signals (powerUp buffer sound)) content ↔
      BusHolds signals (drive clock signals (powerUp buffer sound)) content := by
  have handshake := handshake_along signals buffer sound
  constructor
  · intro plays a address first second direction word
    exact (word_content_iff (fun _ => rfl) handshake content word).mp
      (plays a address first second direction word)
  · intro holds a address first second direction word
    exact (word_content_iff (fun _ => rfl) handshake content word).mpr
      (holds a address first second direction word)

/-! A flash that takes one cycle in four, answers two cycles later and drives
zero otherwise. One word of it is played, with `readNow` in cycles 9 and 13. -/
def sparseContent (_ : Address) : Word := 0x22001100

def sparseSignals (t : Nat) : Signals where
  startKey := t == 0
  direction := true
  readNow := t == 9 || t == 13
  waitrequest := t % 4 != 2
  readdatavalid := t == 4 || t == 8 || t == 12 || t == 16
  readdata := if t == 4 || t == 8 || t == 12 || t == 16 then 0x22001100 else 0

def sparseRun : Nat → Player := drive clock sparseSignals (powerUp 0 0)

theorem sparse_run_ends (t : Nat) (late : 16 ≤ t) :
    (sparseRun t).readState = .idle ∧ (sparseRun t).soundState = .idle := by
  induction t, late using Nat.le_induction with
  | base => decide
  | succ t late ih =>
      have noKey : (sparseSignals t).startKey = false := by
        simp [sparseSignals, show t ≠ 0 by omega]
      have next : sparseRun (t + 1) = clock (sparseSignals t) (sparseRun t) := rfl
      simp [next, clock, ih.1, ih.2, noKey, fsmFlashRead, soundOut, finishRead, ReadState.encoding]

theorem sparse_fixed_latency :
    AvalonRead.FixedLatency 2 sparseContent (bus sparseSignals sparseRun) := by
  have early : ∀ t < 16, (AvalonRead.Answered (bus sparseSignals sparseRun (t + 2)) ↔
      AvalonRead.Accepted (bus sparseSignals sparseRun t)) ∧
      (AvalonRead.Accepted (bus sparseSignals sparseRun t) →
        (bus sparseSignals sparseRun (t + 2)).readdata = 0x22001100) := by decide
  have ended (t : Nat) (late : 16 ≤ t) :
      ¬ AvalonRead.Accepted (bus sparseSignals sparseRun t) := by
    simp [AvalonRead.Accepted, bus, (sparse_run_ends t late).1, flashMemRead, ReadState.encoding]
  constructor
  · decide
  · intro t
    rcases Nat.lt_or_ge t 16 with before | late
    · exact (early t before).1
    · have silent : ¬ AvalonRead.Answered (bus sparseSignals sparseRun (t + 2)) := by
        simp [AvalonRead.Answered, bus, sparseSignals]
        omega
      exact iff_of_false silent (ended t late)
  · intro t accepted
    have before : t < 16 := by
      by_contra late
      exact ended t (by omega) accepted
    exact (early t before).2 accepted

theorem sparse_flash_misplayed :
    AvalonRead.Legal sparseContent (bus sparseSignals (drive clock sparseSignals (powerUp 0 0))) ∧
      ¬ PlaysContent sparseSignals (drive clock sparseSignals (powerUp 0 0)) sparseContent := by
  refine ⟨AvalonRead.fixed_latency_legal (Nat.le_refl 2) sparse_fixed_latency, fun plays => ?_⟩
  have word : WordPlayed sparseSignals (drive clock sparseSignals (powerUp 0 0)) 1 1 9 13 true := by
    refine ⟨by decide, ?_, by decide, ⟨by decide, by decide⟩, ⟨by decide, by decide⟩,
      fun _ _ _ => rfl⟩
    intro u after before
    have window : ∀ u < 16, 1 < u →
        (drive clock sparseSignals (powerUp 0 0) u).address = 1 := by decide
    exact window u (by omega) after
  have zero : (drive clock sparseSignals (powerUp 0 0) 11).sound = 0 := by decide
  have right := (plays 1 1 9 13 true word).1
  rw [zero] at right
  exact absurd right (by decide)

end Cpen311.PlayedContent
