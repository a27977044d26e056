import Cpen311.PlayedContent

/-! The read transfers of the player on the flash's bus. `flash_mem_read` is a
bit of `send_read_address` and also of `finished`, the state in which
`fsm_flash_read` waits for the playback, and neither machine sees
`waitrequest`. So each word reads in every cycle of its playback in which the
flash does not stall. -/
namespace Cpen311.BusReads
open ClockedRun IpodPlayer PlayerLockStep PlayedContent

section Reads
variable (signals : Nat → Signals) (run : Nat → Player)

/-- The address is updated in cycle `a` and next in cycle `b`. -/
structure NextUpdate (a b : Nat) : Prop where
  later : a < b
  update : Updating (run a)
  again : Updating (run b)
  quiet : ∀ u, a < u → u < b → ¬ Updating (run u)

def Transfer (u : Nat) : Prop := AvalonRead.Accepted (bus signals run u)

/-- One transfer between two updates, at the address of the first of them, with
the strobe and the address held until it. -/
def OneRead (a b : Nat) : Prop :=
  ∃ c, a < c ∧ c ≤ b ∧ Transfer signals run c ∧
    (∀ u, a < u → u ≤ b → Transfer signals run u → u = c) ∧
    ∀ u, a < u → u ≤ c →
      (bus signals run u).read = true ∧ (bus signals run u).address = (run (a + 1)).address

def OneReadPerWord : Prop := ∀ a b, NextUpdate run a b → OneRead signals run a b

/-- From the update to the end of the playback, two cycles after the second
sample tick, the flash is ready in a single cycle. -/
def ReadyOnce : Prop :=
  ∀ a b second, NextUpdate run a b → a < second → second < b →
    SecondTick (signals second) (run second) →
    ∃! u, a < u ∧ u ≤ second + 2 ∧ (signals u).waitrequest = false

end Reads

section Word
variable {signals : Nat → Signals} {run : Nat → Player}

theorem address_held (isRun : ∀ n, run (n + 1) = clock (signals n) (run n)) {a b : Nat}
    (word : NextUpdate run a b) (u : Nat) (after : a < u) (before : u ≤ b) :
    (run u).address = (run (a + 1)).address := by
  induction u, after using Nat.le_induction with
  | base => rfl
  | succ u after ih =>
      have idle := word.quiet u after before
      have disabled : getAddress (run u).readState = false := by simpa [Updating] using idle
      rw [← ih (by omega), isRun]
      simp [clock, disabled, addressController]

theorem finished_entered (s : Signals) (p : Player) :
    (clock s p).soundState = .finishedSound ↔ p.soundState = .audio2 := by
  unfold clock
  cases p.soundState <;> grind [soundOut]

theorem second_tick_unique (isRun : ∀ n, run (n + 1) = clock (signals n) (run n))
    (handshake : ∀ n, Handshake (run n)) {a b second : Nat} (word : NextUpdate run a b)
    (inside : a < second ∧ second < b) (tick : SecondTick (signals second) (run second)) (u : Nat)
    (after : a ≤ u) (before : u < b) (another : SecondTick (signals u) (run u)) : u = second := by
  have reading := (updating_iff _).mp word.again
  cases stage_along isRun handshake word.update word.later word.quiet with
  | waiting fresh => simp [reading] at fresh
  | half _ _ elsewhere => simp [reading] at elsewhere
  | played first other _ _ ticks =>
      have atSecond := (ticks.second second (by omega) inside.2).mp tick
      have atU := (ticks.second u after before).mp another
      rw [atSecond, Option.some_inj] at atU
      exact atU.symm

/-- `audio2` follows the second tick and `finishedSound` follows `audio2`. -/
theorem ending_early (isRun : ∀ n, run (n + 1) = clock (signals n) (run n)) {second u : Nat}
    (unique : ∀ v < u, second ≤ v → SecondTick (signals v) (run v) → v = second)
    (late : second < u)
    (state : (run u).soundState = .audio2 ∨ (run u).soundState = .finishedSound) :
    u ≤ second + 2 := by
  by_contra beyond
  obtain ⟨v, rfl⟩ := Nat.exists_eq_add_of_lt (show second + 2 < u by omega)
  rcases state with here | here
  · rw [isRun, audio2_entered] at here
    have same := unique _ (by omega) (by omega) here
    omega
  · rw [isRun, finished_entered, show second + 2 + v = second + 1 + v + 1 by omega, isRun,
      audio2_entered] at here
    have same := unique _ (by omega) (by omega) here
    omega

/-- The strobe is up from the update to the end of the playback, and down after it. -/
theorem strobe_until (isRun : ∀ n, run (n + 1) = clock (signals n) (run n))
    (handshake : ∀ n, Handshake (run n)) {a b second : Nat} (word : NextUpdate run a b)
    (inside : a < second ∧ second < b) (tick : SecondTick (signals second) (run second)) (u : Nat)
    (after : a < u) (before : u ≤ b) :
    flashMemRead (run u).readState = true ↔ u ≤ second + 2 := by
  have unique := second_tick_unique isRun handshake word inside tick
  have stage := stage_along isRun handshake word.update after fun v later early =>
    word.quiet v later (by omega)
  cases stage with
  | waiting fresh early ticks =>
      have notYet : u ≤ second := by
        by_contra late
        simpa using (ticks.second second (by omega) (by omega)).mp tick
      rcases fresh with here | here <;> simp [here, flashMemRead, ReadState.encoding] <;> omega
  | half first order reading middle ticks =>
      have notYet : u ≤ second := by
        by_contra late
        simpa using (ticks.second second (by omega) (by omega)).mp tick
      simp [reading, flashMemRead, ReadState.encoding]
      omega
  | played first other order ending ticks =>
      have otherTick := (ticks.second other (by omega) (by omega)).mpr rfl
      obtain rfl := unique other (by omega) (by omega) otherTick
      rcases ending with ⟨reading, state⟩ | ⟨silent, reading⟩
      · have early := ending_early isRun (fun v order late => unique v (by omega) (by omega))
          order.2.2 state
        simp [reading, flashMemRead, ReadState.encoding]
        omega
      · have playing : (run (other + 1)).soundState = .audio2 := by
          rw [isRun, audio2_entered]
          exact tick
        have finished : (run (other + 2)).soundState = .finishedSound := by
          rw [isRun, finished_entered]
          exact playing
        have late : ¬ u ≤ other + 2 := by
          intro early
          obtain rfl | rfl : u = other + 1 ∨ u = other + 2 := by omega
          · rw [playing] at silent
            contradiction
          · rw [finished] at silent
            contradiction
        rcases reading with here | here <;> simp [here, flashMemRead, ReadState.encoding] <;> omega

theorem transfer_iff (isRun : ∀ n, run (n + 1) = clock (signals n) (run n))
    (handshake : ∀ n, Handshake (run n)) {a b second : Nat} (word : NextUpdate run a b)
    (inside : a < second ∧ second < b) (tick : SecondTick (signals second) (run second)) (u : Nat)
    (after : a < u) (before : u ≤ b) :
    Transfer signals run u ↔ u ≤ second + 2 ∧ (signals u).waitrequest = false :=
  and_congr_left' (strobe_until isRun handshake word inside tick u after before)

/-- The playback of a word ends before the next update. -/
theorem word_has_tick (isRun : ∀ n, run (n + 1) = clock (signals n) (run n))
    (handshake : ∀ n, Handshake (run n)) {a b : Nat} (word : NextUpdate run a b) :
    ∃ second, (a < second ∧ second < b) ∧ second + 2 < b ∧
      SecondTick (signals second) (run second) := by
  have reading := (updating_iff _).mp word.again
  have later := word.later
  cases stage_along isRun handshake word.update later word.quiet with
  | waiting fresh => simp [reading] at fresh
  | half _ _ elsewhere => simp [reading] at elsewhere
  | played first second order _ ticks =>
      have tick := (ticks.second second (by omega) order.2.2).mpr rfl
      have inside : a < second ∧ second < b := by omega
      have strobe := strobe_until isRun handshake word inside tick b later (Nat.le_refl b)
      refine ⟨second, inside, ?_, tick⟩
      by_contra late
      have high := strobe.mpr (by omega)
      rw [reading] at high
      contradiction

theorem one_read_word_iff (isRun : ∀ n, run (n + 1) = clock (signals n) (run n))
    (handshake : ∀ n, Handshake (run n)) {a b second : Nat} (word : NextUpdate run a b)
    (inside : a < second ∧ second < b) (ended : second + 2 < b)
    (tick : SecondTick (signals second) (run second)) :
    OneRead signals run a b ↔
      ∃! u, a < u ∧ u ≤ second + 2 ∧ (signals u).waitrequest = false := by
  have transfer := transfer_iff isRun handshake word inside tick
  constructor
  · rintro ⟨c, after, before, taken, unique, -⟩
    refine ⟨c, ⟨after, (transfer c after before).mp taken⟩, ?_⟩
    rintro u ⟨later, within, ready⟩
    exact unique u later (by omega) ((transfer u later (by omega)).mpr ⟨within, ready⟩)
  · rintro ⟨c, ⟨after, within, ready⟩, unique⟩
    refine ⟨c, after, by omega, (transfer c after (by omega)).mpr ⟨within, ready⟩, ?_, ?_⟩
    · intro u later before another
      exact unique u ⟨later, (transfer u later before).mp another⟩
    · intro u later before
      have strobe := strobe_until isRun handshake word inside tick u later (by omega)
      exact ⟨strobe.mpr (by omega), address_held isRun word u later (by omega)⟩

end Word

/-- Over all flashes, keys and sample clocks: there is one read transfer per word
if and only if the flash is ready in one cycle of each playback. -/
theorem one_read_iff (signals : Nat → Signals) (buffer : Word) (sound : Byte) :
    OneReadPerWord signals (drive clock signals (powerUp buffer sound)) ↔
      ReadyOnce signals (drive clock signals (powerUp buffer sound)) := by
  have handshake := handshake_along signals buffer sound
  constructor
  · intro once a b second word after before tick
    obtain ⟨other, inside, ended, otherTick⟩ := word_has_tick (fun _ => rfl) handshake word
    obtain rfl := second_tick_unique (fun _ => rfl) handshake word inside otherTick second
      (by omega) before tick
    exact (one_read_word_iff (fun _ => rfl) handshake word inside ended tick).mp (once a b word)
  · intro ready a b word
    obtain ⟨second, inside, ended, tick⟩ := word_has_tick (fun _ => rfl) handshake word
    exact (one_read_word_iff (fun _ => rfl) handshake word inside ended tick).mpr
      (ready a b second word inside.1 inside.2 tick)

/-- A flash that never stalls, with every other input high. -/
def neverStalls (_ : Nat) : Signals where
  startKey := true
  direction := true
  readNow := true
  waitrequest := false
  readdatavalid := true
  readdata := 0

/-- It accepts a read in each of the cycles 2 to 9, between updates in 1 and 11. -/
theorem flash_flooded : ¬ OneReadPerWord neverStalls (drive clock neverStalls (powerUp 0 0)) := by
  intro once
  have word : NextUpdate (drive clock neverStalls (powerUp 0 0)) 1 11 := by
    refine ⟨by decide, by decide, by decide, ?_⟩
    have quiet : ∀ u < 11, 1 < u → ¬ Updating (drive clock neverStalls (powerUp 0 0) u) := by decide
    exact fun u after before => quiet u before after
  obtain ⟨c, -, -, -, unique, -⟩ := once 1 11 word
  have first := unique 2 (by decide) (by decide) (by unfold Transfer; decide)
  have second := unique 3 (by decide) (by decide) (by unfold Transfer; decide)
  omega

end Cpen311.BusReads
