import Mathlib.Algebra.Group.Basic
import Mathlib.Algebra.Group.Int.Defs
import Cpen311.IpodPlayer

/-! The two machines of the player run in lock step. `sound_out` leaves `idle`
only while `fsm_flash_read` waits in `finished`, and ends that wait by ending its
own pass; so a word is played exactly once between two updates of the address.
The argument follows one word: `Stage` says which of its two sample ticks have
been used when the machines are in a given pair of states. -/
namespace Cpen311.PlayerLockStep
open ClockedRun IpodPlayer

/-- The address register is enabled: this edge updates `flash_mem_address`. -/
def Updating (p : Player) : Prop := getAddress p.readState = true

instance (p : Player) : Decidable (Updating p) := inferInstanceAs (Decidable (_ = true))

theorem updating_iff (p : Player) : Updating p ↔ p.readState = .getReadAddress := by
  unfold Updating
  cases p.readState <;> decide

/-- `readNow` lets `sound_out` leave `wait1`, and `wait2`. -/
def FirstTick (s : Signals) (p : Player) : Prop := p.soundState = .wait1 ∧ s.readNow = true

def SecondTick (s : Signals) (p : Player) : Prop := p.soundState = .wait2 ∧ s.readNow = true

theorem audio1_entered (s : Signals) (p : Player) :
    (clock s p).soundState = .audio1 ↔ FirstTick s p := by
  unfold clock FirstTick
  cases p.soundState <;> grind [soundOut]

theorem audio2_entered (s : Signals) (p : Player) :
    (clock s p).soundState = .audio2 ↔ SecondTick s p := by
  unfold clock SecondTick
  cases p.soundState <;> grind [soundOut]

/-- The product invariant of the handshake. -/
def Handshake (p : Player) : Prop := p.soundState ≠ .idle → p.readState = .finished

theorem handshake_preserved (before after : Player) (taken : clocked clock before after)
    (inv : Handshake before) : Handshake after := by
  obtain ⟨s, rfl⟩ := taken
  unfold Handshake clock at *
  cases reading : before.readState <;> cases playing : before.soundState <;>
    simp_all [fsmFlashRead, soundOut, finishRead, finishSound, ReadState.encoding,
      SoundState.encoding]

theorem handshake_along (signals : Nat → Signals) (buffer : Word) (sound : Byte) (n : Nat) :
    Handshake (drive clock signals (powerUp buffer sound) n) :=
  invariant_along (drive_is_run clock signals (powerUp buffer sound)) handshake_preserved
    (by simp [Handshake, drive, powerUp]) n

theorem returns_together (s : Signals) (p : Player) (inv : Handshake p) :
    (p.readState ≠ .idle ∧ (clock s p).readState = .idle) ↔
      (p.soundState ≠ .idle ∧ (clock s p).soundState = .idle) := by
  unfold Handshake at inv
  unfold clock
  cases reading : p.readState <;> cases playing : p.soundState <;>
    simp_all [fsmFlashRead, soundOut, finishRead, finishSound, ReadState.encoding,
      SoundState.encoding] <;> split <;> simp

theorem sound_steady (s : Signals) (p : Player) (changed : (clock s p).sound ≠ p.sound) :
    p.soundState = .audio1 ∨ p.soundState = .audio2 := by
  unfold clock audioRegisters at changed
  cases playing : p.soundState <;> simp_all

section Word
variable (signals : Nat → Signals) (run : Nat → Player)

/-- The sample ticks used in the cycles from `a` up to but excluding `b`. -/
structure Ticks (a b : Nat) (first second : Option Nat) : Prop where
  first : ∀ u, a ≤ u → u < b → (FirstTick (signals u) (run u) ↔ first = some u)
  second : ∀ u, a ≤ u → u < b → (SecondTick (signals u) (run u) ↔ second = some u)

/-- Where a word, whose address was updated at `a`, has got to in cycle `b`. -/
inductive Stage (a b : Nat) : Prop where
  | waiting (fresh : (run b).readState = .sendReadAddress ∨ (run b).readState = .finished)
      (early : (run b).soundState = .idle ∨ (run b).soundState = .read ∨
        (run b).soundState = .wait1)
      (ticks : Ticks signals run a b none none)
  | half (first : Nat) (inside : a < first ∧ first < b) (reading : (run b).readState = .finished)
      (middle : (run b).soundState = .audio1 ∨ (run b).soundState = .wait2)
      (ticks : Ticks signals run a b (some first) none)
  | played (first second : Nat) (inside : a < first ∧ first < second ∧ second < b)
      (ending : (run b).readState = .finished ∧
          ((run b).soundState = .audio2 ∨ (run b).soundState = .finishedSound) ∨
        (run b).soundState = .idle ∧
          ((run b).readState = .idle ∨ (run b).readState = .getReadAddress))
      (ticks : Ticks signals run a b (some first) (some second))

variable {signals run}

theorem ticks_start {a : Nat} (quiet : (run a).soundState = .idle) :
    Ticks signals run a (a + 1) none none := by
  constructor
  all_goals
    intro u late early
    obtain rfl : u = a := by omega
    simp [FirstTick, SecondTick, quiet]

/-- One more cycle of a signal whose cycle, if any, is recorded. -/
theorem recorded_next {tick : Nat → Prop} {a b : Nat} {old new : Option Nat}
    (recorded : ∀ u, a ≤ u → u < b → (tick u ↔ old = some u))
    (kept : ∀ u < b, old = some u ↔ new = some u) (now : tick b ↔ new = some b) (u : Nat)
    (late : a ≤ u) (early : u < b + 1) : tick u ↔ new = some u := by
  rcases Nat.lt_succ_iff_lt_or_eq.mp early with before | rfl
  · exact (recorded u late before).trans (kept u before)
  · exact now

theorem ticks_extend {a b : Nat} {first second : Option Nat}
    (ticks : Ticks signals run a b first second)
    (atFirst : FirstTick (signals b) (run b) ↔ first = some b)
    (atSecond : SecondTick (signals b) (run b) ↔ second = some b) :
    Ticks signals run a (b + 1) first second where
  first := recorded_next ticks.first (fun _ _ => Iff.rfl) atFirst
  second := recorded_next ticks.second (fun _ _ => Iff.rfl) atSecond

theorem first_tick_taken {a b : Nat} (ticks : Ticks signals run a b none none)
    (tick : FirstTick (signals b) (run b)) : Ticks signals run a (b + 1) (some b) none := by
  have notSecond : ¬ SecondTick (signals b) (run b) := by
    simp [SecondTick, tick.1]
  constructor
  · apply recorded_next ticks.first
    · intro u before
      simp [before.ne']
    · simpa using tick
  · apply recorded_next ticks.second fun _ _ => Iff.rfl
    simpa using notSecond

theorem second_tick_taken {a b first : Nat} (inside : first < b)
    (ticks : Ticks signals run a b (some first) none)
    (tick : SecondTick (signals b) (run b)) :
    Ticks signals run a (b + 1) (some first) (some b) := by
  have notFirst : ¬ FirstTick (signals b) (run b) := by
    simp [FirstTick, tick.1]
  constructor
  · apply recorded_next ticks.first fun _ _ => Iff.rfl
    simpa [inside.ne] using notFirst
  · apply recorded_next ticks.second
    · intro u before
      simp [before.ne']
    · simpa using tick

theorem stage_starts (isRun : ∀ n, run (n + 1) = clock (signals n) (run n)) {a : Nat}
    (handshake : Handshake (run a)) (update : Updating (run a)) :
    Stage signals run a (a + 1) := by
  have reading : (run a).readState = .getReadAddress := (updating_iff _).mp update
  have quiet : (run a).soundState = .idle := by
    by_contra playing
    simpa [reading] using handshake playing
  refine .waiting (.inl ?_) (.inl ?_) (ticks_start quiet)
  · simp [isRun, clock, reading, fsmFlashRead]
  · simp [isRun, clock, reading, quiet, soundOut, finishRead, ReadState.encoding]

theorem stage_continues (isRun : ∀ n, run (n + 1) = clock (signals n) (run n)) {a b : Nat}
    (later : a < b) (handshake : Handshake (run b)) (noUpdate : ¬ Updating (run b))
    (stage : Stage signals run a b) : Stage signals run a (b + 1) := by
  have nextRead : (run (b + 1)).readState = fsmFlashRead (signals b).startKey
      (finishSound (run b).soundState) (run b).readState := by rw [isRun]; rfl
  have nextSound : (run (b + 1)).soundState = soundOut (finishRead (run b).readState)
      (signals b).readdatavalid (signals b).readNow (run b).soundState := by rw [isRun]; rfl
  rw [updating_iff] at noUpdate
  unfold Handshake at handshake
  cases stage with
  | waiting fresh early ticks =>
      by_cases tick : FirstTick (signals b) (run b)
      · have reading := handshake (by simp [tick.1])
        refine .half b ⟨later, Nat.lt_succ_self b⟩ ?_ (.inl ?_) (first_tick_taken ticks tick)
        · simp [nextRead, reading, tick.1, fsmFlashRead, finishSound, SoundState.encoding]
        · simp [nextSound, tick.1, tick.2, soundOut]
      · have extended := ticks_extend ticks (by simpa using tick) (by
          rcases early with here | here | here <;> simp [SecondTick, here])
        -- without the tick, `wait1` is kept and the reader waits in `finished`
        unfold FirstTick at tick
        refine .waiting (.inr ?_) ?_ extended
        · grind [fsmFlashRead, finishSound, SoundState.encoding]
        · grind [soundOut]
  | half first inside reading middle ticks =>
      by_cases tick : SecondTick (signals b) (run b)
      · refine .played first b ⟨inside.1, inside.2, Nat.lt_succ_self b⟩ (.inl ⟨?_, .inl ?_⟩)
          (second_tick_taken inside.2 ticks tick)
        · simp [nextRead, reading, tick.1, fsmFlashRead, finishSound, SoundState.encoding]
        · simp [nextSound, tick.1, tick.2, soundOut]
      · have extended := ticks_extend ticks (by
          rcases middle with here | here <;> simp [FirstTick, here, inside.2.ne])
          (by simpa using tick)
        unfold SecondTick at tick
        refine .half first ⟨inside.1, by omega⟩ ?_ ?_ extended
        · grind [fsmFlashRead, finishSound, SoundState.encoding]
        · grind [soundOut]
  | played first second inside ending ticks =>
      have extended := ticks_extend ticks
        (by unfold FirstTick; grind) (by unfold SecondTick; grind)
      refine .played first second ⟨inside.1, inside.2.1, by omega⟩ ?_ extended
      grind [fsmFlashRead, soundOut, finishRead, finishSound, SoundState.encoding,
        ReadState.encoding]

theorem stage_along (isRun : ∀ n, run (n + 1) = clock (signals n) (run n)) {a b : Nat}
    (handshake : ∀ n, Handshake (run n)) (update : Updating (run a)) (later : a < b)
    (quiet : ∀ u, a < u → u < b → ¬ Updating (run u)) : Stage signals run a b := by
  induction b, later using Nat.le_induction with
  | base => exact stage_starts isRun (handshake a) update
  | succ b later ih =>
      have stage := ih fun u after before => quiet u after (by omega)
      exact stage_continues isRun later (handshake b) (quiet b later (Nat.lt_succ_self b)) stage

end Word

/-! The address. `addressController` counts modulo `2 ^ 19` in a 23-bit register. -/
section Address

/-- The register holds the residue of an unbounded position on the tape. -/
def Holds (address : Address) (position : Int) : Prop :=
  (address.toNat : Int) = position % 2 ^ 19

theorem address_forward (address : Address) (position : Int) (held : Holds address position) :
    Holds (addressController true true address) (position + 1) := by
  unfold Holds at *
  by_cases last : address = finish
  -- the wrap from `finish` to `start` is a step of one modulo `2 ^ 19`
  · subst last
    simp [addressController, start, finish] at *
    omega
  · have below : address.toNat ≠ 0x7FFFF := fun same => last (BitVec.eq_of_toNat_eq same)
    have one : (1 : Address).toNat = 1 := rfl
    simp only [addressController, if_true, if_neg last, BitVec.toNat_add, one]
    omega

theorem address_backward (address : Address) (position : Int) (held : Holds address position) :
    Holds (addressController true false address) (position - 1) := by
  unfold Holds at *
  by_cases first : address = start
  · subst first
    simp [addressController, start, finish] at *
    omega
  · have above : address.toNat ≠ 0 := fun same => first (BitVec.eq_of_toNat_eq same)
    have one : (1 : Address).toNat = 1 := rfl
    simp only [addressController, if_true, Bool.false_eq_true, if_false, if_neg first,
      BitVec.toNat_sub, one]
    omega

theorem address_changes (direction : Bool) (address : Address) :
    addressController true direction address ≠ address := by
  cases direction
  · by_cases first : address = start
    · subst first
      decide
    · intro same
      simp only [addressController, if_true, Bool.false_eq_true, if_false, if_neg first] at same
      bv_omega
  · by_cases last : address = finish
    · subst last
      decide
    · intro same
      simp only [addressController, if_true, if_neg last] at same
      bv_omega

/-- The updates made before cycle `time` while the direction was `forward`. -/
def updates (signals : Nat → Signals) (run : Nat → Player) (forward : Bool) (time : Nat) : Nat :=
  Nat.count (fun u => Updating (run u) ∧ (signals u).direction = forward) time

theorem position_counted {signals : Nat → Signals} {run : Nat → Player}
    (isRun : ∀ n, run (n + 1) = clock (signals n) (run n)) (initial : (run 0).address = 0)
    (time : Nat) :
    Holds (run time).address (updates signals run true time - updates signals run false time) := by
  induction time with
  | zero => simp [Holds, updates, initial]
  | succ time ih =>
      have next : (run (time + 1)).address = addressController
          (getAddress (run time).readState) (signals time).direction (run time).address := by
        rw [isRun]; rfl
      rw [next]
      unfold updates at *
      simp only [Nat.count_succ]
      by_cases update : Updating (run time)
      · have enabled : getAddress (run time).readState = true := update
        cases direction : (signals time).direction
        · have backward := address_backward _ _ ih
          simpa [enabled, update, Int.sub_sub] using backward
        · have forward := address_forward _ _ ih
          simpa [enabled, update, sub_add_eq_add_sub] using forward
      · have disabled : getAddress (run time).readState = false := by
          simpa [Updating] using update
        simpa [disabled, update, addressController] using ih

end Address

/-- What the handshake guarantees on a run of the player. -/
structure LockStep (signals : Nat → Signals) (run : Nat → Player) : Prop where
  /-- `sound_out` is outside `idle` only while the reader waits for it. -/
  waits : ∀ t, (run t).soundState ≠ .idle → (run t).readState = .finished
  together : ∀ t, ((run t).readState ≠ .idle ∧ (run (t + 1)).readState = .idle) ↔
    ((run t).soundState ≠ .idle ∧ (run (t + 1)).soundState = .idle)
  /-- The enable of the address register is high exactly when the address changes. -/
  updated : ∀ t, (run (t + 1)).address ≠ (run t).address ↔ Updating (run t)
  /-- Between two consecutive updates: `audio1` once, then `audio2` once. -/
  playedOnce : ∀ a b, a < b → Updating (run a) → Updating (run b) →
    (∀ u, a < u → u < b → ¬ Updating (run u)) →
    ∃ first second, a < first ∧ first < second ∧ second < b ∧
      (signals first).readNow = true ∧ (signals second).readNow = true ∧
      (∀ u, a ≤ u → u ≤ b → ((run u).soundState = .audio1 ↔ u = first + 1)) ∧
      (∀ u, a ≤ u → u ≤ b → ((run u).soundState = .audio2 ↔ u = second + 1))
  steady : ∀ t, (run (t + 1)).sound ≠ (run t).sound →
    (run t).soundState = .audio1 ∨ (run t).soundState = .audio2
  counted : ∀ t, ((run t).address.toNat : Int) =
    ((updates signals run true t : Int) - updates signals run false t) % 2 ^ 19

/-- A state that is entered exactly at a tick is visited exactly after it. -/
theorem entered_once {run : Nat → Player} {state : SoundState} {tick : Nat → Prop} {a b w : Nat}
    (entered : ∀ u, (run (u + 1)).soundState = state ↔ tick u)
    (recorded : ∀ u, a ≤ u → u < b → (tick u ↔ some w = some u)) (inside : a < w)
    (outside : (run a).soundState ≠ state) (u : Nat) (after : a ≤ u) (before : u ≤ b) :
    (run u).soundState = state ↔ u = w + 1 := by
  rcases Nat.eq_or_lt_of_le after with rfl | after
  · simp [outside, show a ≠ w + 1 by omega]
  · obtain ⟨v, rfl⟩ := Nat.exists_eq_add_of_lt after
    rw [entered, recorded (a + v) (by omega) (by omega)]
    simp [eq_comm]

theorem word_played_once {signals : Nat → Signals} {run : Nat → Player}
    (isRun : ∀ n, run (n + 1) = clock (signals n) (run n)) (handshake : ∀ n, Handshake (run n))
    {a b : Nat} (later : a < b) (update : Updating (run a)) (again : Updating (run b))
    (quiet : ∀ u, a < u → u < b → ¬ Updating (run u)) :
    ∃ first second, a < first ∧ first < second ∧ second < b ∧
      (signals first).readNow = true ∧ (signals second).readNow = true ∧
      (∀ u, a ≤ u → u ≤ b → ((run u).soundState = .audio1 ↔ u = first + 1)) ∧
      (∀ u, a ≤ u → u ≤ b → ((run u).soundState = .audio2 ↔ u = second + 1)) := by
  have reading := (updating_iff _).mp again
  have silent : (run a).soundState = .idle := by
    by_contra playing
    simpa [(updating_iff _).mp update] using handshake a playing
  -- an update happens in `getReadAddress`, which only the last stage allows
  cases stage_along isRun handshake update later quiet with
  | waiting fresh => simp [reading] at fresh
  | half _ _ elsewhere => simp [reading] at elsewhere
  | played first second inside _ ticks =>
      have firstTick := (ticks.first first (by omega) (by omega)).mpr rfl
      have secondTick := (ticks.second second (by omega) (by omega)).mpr rfl
      refine ⟨first, second, inside.1, inside.2.1, inside.2.2, firstTick.2, secondTick.2, ?_, ?_⟩
      · apply entered_once _ ticks.first (by omega) (by simp [silent])
        intro u
        rw [isRun]
        exact audio1_entered (signals u) (run u)
      · apply entered_once _ ticks.second (by omega) (by simp [silent])
        intro u
        rw [isRun]
        exact audio2_entered (signals u) (run u)

/-- Every run from power-up, whatever the keys, the sample clock and the flash
do, keeps the two machines in lock step. -/
theorem player_lock_step (signals : Nat → Signals) (buffer : Word) (sound : Byte) :
    LockStep signals (drive clock signals (powerUp buffer sound)) := by
  have isRun (n : Nat) : drive clock signals (powerUp buffer sound) (n + 1) =
      clock (signals n) (drive clock signals (powerUp buffer sound) n) := rfl
  have handshake := handshake_along signals buffer sound
  constructor
  case waits => exact handshake
  case together =>
    intro t
    exact returns_together (signals t) _ (handshake t)
  case updated =>
    intro t
    constructor
    · intro changed
      by_contra idle
      have disabled : getAddress (drive clock signals (powerUp buffer sound) t).readState = false := by
        simpa [Updating] using idle
      simp [isRun, clock, disabled, addressController] at changed
    · intro update
      have enabled : getAddress (drive clock signals (powerUp buffer sound) t).readState = true :=
        update
      simpa [isRun, clock, enabled] using address_changes _ _
  case playedOnce =>
    intro a b later update again quiet
    exact word_played_once isRun handshake later update again quiet
  case steady =>
    intro t changed
    exact sound_steady (signals t) _ changed
  case counted =>
    intro t
    exact position_counted isRun rfl t

end Cpen311.PlayerLockStep
