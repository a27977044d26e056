import Cpen311.PlayerLockStep

/-! `keyboard_control`, and the player it starts and stops. The five states of the
machine remember two keys only: the last of start and stop, and the last of
forward and backward. Before the first key that it obeys it is asleep. -/
namespace Cpen311.KeyboardControl
open ClockedRun IpodPlayer PlayerLockStep

def backward : Byte := 0x62
def backwardUp : Byte := 0x42
def stop : Byte := 0x64
def stopUp : Byte := 0x44
def start : Byte := 0x65
def startUp : Byte := 0x45
def forward : Byte := 0x66
def forwardUp : Byte := 0x46

inductive KeyState where
  | checkKey
  | startForward
  | startBackward
  | stopForward
  | stopBackward
deriving DecidableEq

def KeyState.encoding : KeyState → BitVec 6
  | .checkKey => 0b000000
  | .startForward => 0b001011
  | .startBackward => 0b011001
  | .stopForward => 0b100010
  | .stopBackward => 0b101000

def startstop (state : KeyState) : Bool := state.encoding.getLsbD 0

def direction (state : KeyState) : Bool := state.encoding.getLsbD 1

/-- One rising edge of `clk`; the `default` branch belongs to no named state. -/
def keyboardControl (key : Byte) : KeyState → KeyState
  | .checkKey =>
      if key = start ∨ key = startUp then .startForward
      else if key = backward ∨ key = backwardUp then .startBackward
      else .checkKey
  | .startForward =>
      if key = stop ∨ key = stopUp then .stopForward
      else if key = backward ∨ key = backwardUp then .startBackward
      else .startForward
  | .startBackward =>
      if key = forward ∨ key = forwardUp then .startForward
      else if key = stop ∨ key = stopUp then .stopBackward
      else .startBackward
  | .stopForward =>
      if key = start ∨ key = startUp then .startForward
      else if key = backward ∨ key = backwardUp then .stopBackward
      else .stopForward
  | .stopBackward =>
      if key = start ∨ key = startUp then .startBackward
      else if key = forward ∨ key = forwardUp then .stopForward
      else .stopBackward

def IsStart (key : Byte) : Prop := key = start ∨ key = startUp
def IsStop (key : Byte) : Prop := key = stop ∨ key = stopUp
def IsForward (key : Byte) : Prop := key = forward ∨ key = forwardUp
def IsBackward (key : Byte) : Prop := key = backward ∨ key = backwardUp

instance (key : Byte) : Decidable (IsStart key) := inferInstanceAs (Decidable (_ ∨ _))
instance (key : Byte) : Decidable (IsStop key) := inferInstanceAs (Decidable (_ ∨ _))
instance (key : Byte) : Decidable (IsForward key) := inferInstanceAs (Decidable (_ ∨ _))
instance (key : Byte) : Decidable (IsBackward key) := inferInstanceAs (Decidable (_ ∨ _))

def states (keys : Nat → Byte) (n : Nat) : KeyState := drive keyboardControl keys .checkKey n

/-! What the machine is for: two switches and the key that wakes it. -/
def Wakes (key : Byte) : Prop := IsStart key ∨ IsBackward key

def Awake (keys : Nat → Byte) (n : Nat) : Prop := ∃ t < n, Wakes (keys t)

/-- The key at `t` turns the player on. -/
def TurnsOn (keys : Nat → Byte) (t : Nat) : Prop :=
  IsStart (keys t) ∨ IsBackward (keys t) ∧ ¬ Awake keys t

/-- The key at `t` sets the direction to forward. -/
def TurnsForward (keys : Nat → Byte) (t : Nat) : Prop :=
  IsForward (keys t) ∧ Awake keys t ∨ IsStart (keys t) ∧ ¬ Awake keys t

/-- Set before `n`, and not reset since. -/
def Latched (set reset : Nat → Prop) (n : Nat) : Prop :=
  ∃ t < n, set t ∧ ∀ u, t < u → u < n → ¬ reset u

theorem latched_succ (set reset : Nat → Prop) (n : Nat) :
    Latched set reset (n + 1) ↔ set n ∨ ¬ reset n ∧ Latched set reset n := by
  constructor
  · rintro ⟨t, before, setting, kept⟩
    rcases Nat.lt_succ_iff_lt_or_eq.mp before with earlier | rfl
    · exact .inr ⟨kept n earlier (Nat.lt_succ_self n), t, earlier, setting,
        fun u after early => kept u after (Nat.lt_succ_of_lt early)⟩
    · exact .inl setting
  · rintro (setting | ⟨unreset, t, before, setting, kept⟩)
    · exact ⟨n, Nat.lt_succ_self n, setting, fun u after early => by omega⟩
    · refine ⟨t, Nat.lt_succ_of_lt before, setting, fun u after early => ?_⟩
      rcases Nat.lt_succ_iff_lt_or_eq.mp early with earlier | rfl
      · exact kept u after earlier
      · exact unreset

theorem awake_succ (keys : Nat → Byte) (n : Nat) :
    Awake keys (n + 1) ↔ Awake keys n ∨ Wakes (keys n) :=
  Nat.exists_lt_succ_right

theorem control_awake (key : Byte) (s : KeyState) :
    keyboardControl key s ≠ .checkKey ↔ s ≠ .checkKey ∨ IsStart key ∨ IsBackward key := by
  revert key
  cases s <;> decide +kernel

theorem control_startstop (key : Byte) (s : KeyState) :
    startstop (keyboardControl key s) = true ↔
      (IsStart key ∨ IsBackward key ∧ s = .checkKey) ∨ ¬ IsStop key ∧ startstop s = true := by
  revert key
  cases s <;> decide +kernel

theorem control_direction (key : Byte) (s : KeyState) :
    direction (keyboardControl key s) = true ↔
      (IsForward key ∧ s ≠ .checkKey ∨ IsStart key ∧ s = .checkKey) ∨
        ¬ IsBackward key ∧ direction s = true := by
  revert key
  cases s <;> decide +kernel

section Keys
variable (keys : Nat → Byte)

theorem states_succ (n : Nat) :
    states keys (n + 1) = keyboardControl (keys n) (states keys n) := rfl

theorem awake_iff (n : Nat) : Awake keys n ↔ states keys n ≠ .checkKey := by
  induction n with
  | zero =>
      exact ⟨fun ⟨t, early, _⟩ => absurd early (Nat.not_lt_zero t), fun asleep => absurd rfl asleep⟩
  | succ n ih => rw [awake_succ, ih, states_succ, control_awake, Wakes]

theorem asleep_iff (n : Nat) : ¬ Awake keys n ↔ states keys n = .checkKey := by
  rw [awake_iff, not_not]

theorem startstop_latched (n : Nat) :
    startstop (states keys n) = true ↔
      Latched (TurnsOn keys) (fun u => IsStop (keys u)) n := by
  induction n with
  | zero =>
      have off : startstop (states keys 0) = false := (by decide : startstop .checkKey = false)
      simp [off, Latched]
  | succ n ih => rw [latched_succ, ← ih, states_succ, control_startstop, TurnsOn, asleep_iff]

theorem direction_latched (n : Nat) :
    direction (states keys n) = true ↔
      Latched (TurnsForward keys) (fun u => IsBackward (keys u)) n := by
  induction n with
  | zero =>
      have off : direction (states keys 0) = false := (by decide : direction .checkKey = false)
      simp [off, Latched]
  | succ n ih =>
      rw [latched_succ, ← ih, states_succ, control_direction, TurnsForward, asleep_iff, awake_iff]

/-- For every history of keys the outputs are the two switches. -/
theorem outputs_follow_keys (n : Nat) :
    (startstop (states keys n) = true ↔ Latched (TurnsOn keys) (fun u => IsStop (keys u)) n) ∧
      (direction (states keys n) = true ↔
        Latched (TurnsForward keys) (fun u => IsBackward (keys u)) n) :=
  ⟨startstop_latched keys n, direction_latched keys n⟩

end Keys

/-! The machine wired to the player. -/
structure Inputs where
  key : Byte
  readNow : Bool
  waitrequest : Bool
  readdatavalid : Bool
  readdata : Word

structure Board where
  keyRead : KeyState
  player : Player

def Board.signals (i : Inputs) (s : Board) : Signals where
  startKey := startstop s.keyRead
  direction := direction s.keyRead
  readNow := i.readNow
  waitrequest := i.waitrequest
  readdatavalid := i.readdatavalid
  readdata := i.readdata

def Board.clock (i : Inputs) (s : Board) : Board where
  keyRead := keyboardControl i.key s.keyRead
  player := IpodPlayer.clock (s.signals i) s.player

def Board.powerUp (buffer : Word) (sound : Byte) : Board := ⟨.checkKey, IpodPlayer.powerUp buffer sound⟩

section Board
variable (inputs : Nat → Inputs) (buffer : Word) (sound : Byte)

def board (t : Nat) : Board := drive Board.clock inputs (Board.powerUp buffer sound) t

theorem key_read_states (t : Nat) :
    (board inputs buffer sound t).keyRead = states (fun u => (inputs u).key) t := by
  induction t with
  | zero => rfl
  | succ t ih => exact congrArg (keyboardControl (inputs t).key) ih

theorem player_handshake (t : Nat) : Handshake (board inputs buffer sound t).player := by
  induction t with
  | zero => exact fun away => absurd rfl away
  | succ t ih => exact handshake_preserved _ _ ⟨_, rfl⟩ ih

/-- The stop key was obeyed at `a`, and until `n` no key turns the player on again. -/
structure StoppedDuring (keys : Nat → Byte) (a n : Nat) : Prop where
  pressed : IsStop (keys a)
  off : ∀ u, a < u → u < n → ¬ TurnsOn keys u

theorem stop_only (key : Byte) (stops : IsStop key) : ¬ IsStart key ∧ ¬ IsBackward key := by
  revert key
  decide +kernel

theorem stopped_off {keys : Nat → Byte} {a n : Nat} (stopped : StoppedDuring keys a n) {u : Nat}
    (after : a < u) (early : u ≤ n) : startstop (states keys u) = false := by
  rw [← Bool.not_eq_true, startstop_latched]
  rintro ⟨t, before, turned, kept⟩
  obtain ⟨noStart, noBackward⟩ := stop_only (keys a) stopped.pressed
  rcases Nat.lt_trichotomy t a with earlier | rfl | later
  · exact kept a earlier after stopped.pressed
  · rcases turned with starts | ⟨turns, -⟩
    · exact noStart starts
    · exact noBackward turns
  · exact stopped.off t later (by omega) turned

/-- After the stop key the player keeps its place, and once idle it keeps everything. -/
structure KeepsPlace (a n : Nat) : Prop where
  address : ∀ u, a + 2 ≤ u → u ≤ n →
    (board inputs buffer sound u).player.address = (board inputs buffer sound (a + 2)).player.address
  all : ∀ m, a < m → (board inputs buffer sound m).player.readState = .idle → ∀ u, m ≤ u → u ≤ n →
    (board inputs buffer sound u).player = (board inputs buffer sound m).player

theorem idle_kept {s : Signals} {p : Player} (reading : p.readState = .idle)
    (playing : p.soundState = .idle) (off : s.startKey = false) : clock s p = p := by
  cases p
  simp_all [clock, fsmFlashRead, addressController, getAddress, soundOut, finishRead, audioRegisters,
    ReadState.encoding]

theorem update_after_start {s : Signals} {p : Player} (off : s.startKey = false) :
    ¬ Updating (clock s p) := by
  rw [updating_iff]
  cases state : p.readState <;> simp [clock, fsmFlashRead, state, off]
  split <;> simp

theorem stop_keeps_place {a n : Nat} (stopped : StoppedDuring (fun u => (inputs u).key) a n) :
    KeepsPlace inputs buffer sound a n := by
  have off : ∀ u, a < u → u ≤ n →
      ((board inputs buffer sound u).signals (inputs u)).startKey = false := fun u after early => by
    rw [Board.signals, key_read_states]
    exact stopped_off stopped after early
  constructor
  · intro u late early
    induction u, late using Nat.le_induction with
    | base => rfl
    | succ u late ih =>
        rw [← ih (by omega)]
        obtain ⟨v, rfl⟩ : ∃ v, u = v + 1 := ⟨u - 1, by omega⟩
        have disabled := @update_after_start _ (board inputs buffer sound v).player
          (off v (by omega) (by omega))
        have next : (board inputs buffer sound (v + 1 + 1)).player.address = addressController
          (getAddress (board inputs buffer sound (v + 1)).player.readState)
          (direction (board inputs buffer sound (v + 1)).keyRead)
          (board inputs buffer sound (v + 1)).player.address := rfl
        have held : getAddress (board inputs buffer sound (v + 1)).player.readState = false :=
          Bool.eq_false_of_not_eq_true disabled
        rw [next, held, addressController]
        rfl
  · intro m after idle u late early
    induction u, late using Nat.le_induction with
    | base => rfl
    | succ u late ih =>
        have same := ih (by omega)
        have reading : (board inputs buffer sound u).player.readState = .idle := by rw [same, idle]
        have playing : (board inputs buffer sound u).player.soundState = .idle := by
          by_contra away
          have finished := player_handshake inputs buffer sound u away
          rw [reading] at finished
          cases finished
        exact (idle_kept reading playing (off u (by omega) (by omega))).trans same

/-- `e`, a word, and `d` five cycles later: the place is kept for as long as one looks. -/
theorem stop_keeps_place_after_e :
    KeepsPlace (fun t => ⟨if t = 0 then 0x65 else if t = 5 then 0x64 else 0, true, false, true, t⟩)
      0 0 5 1000 :=
  stop_keeps_place _ 0 0
    { pressed := .inl rfl
      off := fun u after early turned => by
        have quiet : (if u = 0 then (0x65 : Byte) else if u = 5 then 0x64 else 0) = 0 := by
          rw [if_neg (by omega), if_neg (by omega)]
        simp only [TurnsOn, quiet] at turned
        rcases turned with starts | ⟨turns, -⟩
        · exact absurd starts (by decide)
        · exact absurd turns (by decide) }

end Board

end Cpen311.KeyboardControl
