import Cpen311.Debounce
import Cpen311.Reports

/-! `PS2_ScanCodeReader`: bytes from the clock and data lines of a keyboard. The
clock is debounced over eight samples, a byte is assembled from the bits at its
rises, and the consumer takes it by `iRead`. -/
namespace Cpen311.ScanCodeReader
open ClockedRun Debounce Reports

abbrev Byte := BitVec 8

structure Pins where
  ps2Clk : Bool
  ps2Dat : Bool
  reset : Bool
  read : Bool

structure Reader where
  readingChar : Bool
  bitCntr : BitVec 4
  shiftIn : BitVec 9
  ps2ClkBuffer : BitVec 8
  ps2ClkDebounced : Bool
  ps2ClkDebouncedPrev : Bool
  scanReady : Bool
  scanByte : Byte

def Reader.posedge (s : Reader) : Bool := s.ps2ClkDebounced && !s.ps2ClkDebouncedPrev

/-- One rising edge of `iCLK`. -/
def Reader.clock (i : Pins) (s : Reader) : Reader :=
  if i.reset then
    { s with
      ps2ClkBuffer := 0
      ps2ClkDebounced := false
      ps2ClkDebouncedPrev := false
      bitCntr := 0
      readingChar := false
      scanReady := false }
  else
    { ps2ClkBuffer := Debounce.shiftIn i.ps2Clk s.ps2ClkBuffer
      ps2ClkDebounced :=
        if s.ps2ClkBuffer = 0xFF then true
        else if s.ps2ClkBuffer = 0x00 then false
        else s.ps2ClkDebounced
      ps2ClkDebouncedPrev := s.ps2ClkDebounced
      readingChar :=
        if s.posedge then
          if !s.readingChar then if !i.ps2Dat then true else s.readingChar
          else if s.bitCntr = 9 then false
          else s.readingChar
        else s.readingChar
      bitCntr :=
        if s.posedge && s.readingChar then if s.bitCntr = 9 then 0 else s.bitCntr + 1
        else s.bitCntr
      shiftIn :=
        if s.posedge && s.readingChar && s.bitCntr != 9 then Debounce.shiftIn i.ps2Dat s.shiftIn
        else s.shiftIn
      scanByte :=
        if s.posedge && s.readingChar && s.bitCntr == 9 then s.shiftIn.extractLsb' 0 8
        else s.scanByte
      scanReady :=
        if s.posedge && s.readingChar && s.bitCntr == 9 then true
        else if i.read then false
        else s.scanReady }

/-- What the consumer takes at a clock. -/
def taken (now : Pins × Reader) : Option Byte :=
  if now.2.scanReady && now.1.read then some now.2.scanByte else none

/-- A byte as the keyboard frames it; the reader checks neither the parity nor the stop bit. -/
structure Frame where
  byte : Byte
  parity : Bool
  stop : Bool

/-- The bits between the start and the stop bit. -/
def Frame.payload (f : Frame) : List Bool :=
  ((List.range 8).map fun i => f.byte.getLsbD i) ++ [f.parity]

def Frame.bits (f : Frame) : List Bool := false :: f.payload ++ [f.stop]

/-! The bits, one at each rise of the debounced clock. -/
structure Assembly where
  readingChar : Bool
  bitCntr : BitVec 4
  shiftIn : BitVec 9

def Reader.assembly (s : Reader) : Assembly := ⟨s.readingChar, s.bitCntr, s.shiftIn⟩

def Reader.debouncer (s : Reader) : Debouncer 7 :=
  ⟨s.ps2ClkBuffer, s.ps2ClkDebounced, s.ps2ClkDebouncedPrev⟩

def Assembly.push (x : Bool) (s : Assembly) : Assembly :=
  if !s.readingChar then { s with readingChar := if !x then true else s.readingChar }
  else if s.bitCntr = 9 then { s with readingChar := false, bitCntr := 0 }
  else { s with bitCntr := s.bitCntr + 1, shiftIn := Debounce.shiftIn x s.shiftIn }

def Assembly.complete (s : Assembly) : Bool := s.readingChar && s.bitCntr == 9

def Assembly.byte (s : Assembly) : Byte := s.shiftIn.extractLsb' 0 8

/-- No character is being read. -/
def Assembly.Waiting (s : Assembly) : Prop := s.readingChar = false ∧ s.bitCntr = 0

theorem posedge_rising (s : Reader) : s.posedge = s.debouncer.rising := rfl

/-- Nine shifts leave the first eight bits in order below the ninth. -/
theorem payload_byte (f : Frame) (start : BitVec 9) :
    (f.payload.foldl (fun old x => Debounce.shiftIn x old) start).extractLsb' 0 8 = f.byte := by
  refine BitVec.eq_of_getLsbD_eq fun i inside => ?_
  have nine : f.payload.length = 9 := by simp [Frame.payload]
  have bit := shifted_bit f.payload start (i := i) (by omega) (by omega)
  rw [show 8 + 1 - f.payload.length + i = i by omega] at bit
  rw [BitVec.getLsbD_extractLsb', Nat.zero_add, bit]
  simp [Frame.payload, List.getElem_append_left, inside]

section Clock
variable {i : Pins} {s : Reader} (running : i.reset = false)
include running

theorem debouncer_clock : (s.clock i).debouncer = s.debouncer.clock i.ps2Clk := by
  simp only [Reader.clock, running]
  rfl

theorem clock_idle (quiet : s.debouncer.rising = false) :
    (s.clock i).assembly = s.assembly ∧ (s.clock i).scanByte = s.scanByte ∧
      (s.clock i).scanReady = (s.scanReady && !i.read) := by
  rw [← posedge_rising] at quiet
  simp [Reader.clock, running, quiet, Reader.assembly]
  grind

theorem clock_pushes (rises : s.debouncer.rising = true) :
    (s.clock i).assembly = s.assembly.push i.ps2Dat := by
  rw [← posedge_rising] at rises
  simp only [Reader.clock, running, rises, Reader.assembly, Assembly.push]
  grind

theorem clock_unfinished (rises : s.debouncer.rising = true) (missing : s.assembly.complete = false) :
    (s.clock i).scanByte = s.scanByte ∧ (s.clock i).scanReady = (s.scanReady && !i.read) := by
  rw [← posedge_rising] at rises
  have missing' : (s.readingChar && s.bitCntr == 9) = false := missing
  simp only [Reader.clock, running, rises, Bool.true_and, missing']
  grind

theorem clock_complete (rises : s.debouncer.rising = true) (full : s.assembly.complete = true) :
    (s.clock i).scanByte = s.assembly.byte ∧ (s.clock i).scanReady = true := by
  rw [← posedge_rising] at rises
  have full' : (s.readingChar && s.bitCntr == 9) = true := full
  simp only [Reader.clock, running, rises, Bool.true_and, full']
  exact ⟨rfl, rfl⟩

end Clock

/-- One bit of the line, `room` clocks before `b`. -/
abbrev BitAt (pins : Nat → Pins) (run : Nat → Reader) (room : Nat) (x : Bool) (a t b : Nat) : Prop :=
  Pulse 7 room (fun u => (run u).debouncer) (fun u => (pins u).ps2Dat) x a t b

/-- The consumer reads within `k` clocks of a byte being ready. -/
def Prompt (pins : Nat → Pins) (run : Nat → Reader) (k : Nat) : Prop :=
  ∀ t, (run t).scanReady = true → ∃ j ≤ k, (pins (t + j)).read = true

section Runs
variable {pins : Nat → Pins} {run : Nat → Reader} (isRun : ∀ t, run (t + 1) = (run t).clock (pins t))
  (running : ∀ t, (pins t).reset = false)
include isRun running

theorem debouncer_run (t : Nat) :
    (run (t + 1)).debouncer = (run t).debouncer.clock (pins t).ps2Clk := by
  rw [isRun, debouncer_clock (running t)]

theorem quiet_assembly {a b : Nat} (quiet : ∀ u, a ≤ u → u < b → (run u).debouncer.rising = false)
    {u : Nat} (after : a ≤ u) (before : u ≤ b) : (run u).assembly = (run a).assembly := by
  induction u, after using Nat.le_induction with
  | base => rfl
  | succ u after ih =>
      rw [isRun, (clock_idle (running u) (quiet u after before)).1]
      exact ih (by omega)

theorem quiet_byte {a b : Nat} (quiet : ∀ u, a ≤ u → u < b → (run u).debouncer.rising = false)
    {u : Nat} (after : a ≤ u) (before : u ≤ b) : (run u).scanByte = (run a).scanByte := by
  induction u, after using Nat.le_induction with
  | base => rfl
  | succ u after ih =>
      rw [isRun, (clock_idle (running u) (quiet u after before)).2.1]
      exact ih (by omega)

theorem quiet_unready {a b : Nat} (quiet : ∀ u, a ≤ u → u < b → (run u).debouncer.rising = false)
    (unready : (run a).scanReady = false) {u : Nat} (after : a ≤ u) (before : u ≤ b) :
    (run u).scanReady = false := by
  induction u, after using Nat.le_induction with
  | base => exact unready
  | succ u after ih =>
      rw [isRun, (clock_idle (running u) (quiet u after before)).2.2, ih (by omega)]
      rfl

theorem quiet_ready {a b : Nat} (quiet : ∀ u, a ≤ u → u < b → (run u).debouncer.rising = false)
    (ready : (run a).scanReady = true) (unread : ∀ u, a ≤ u → u < b → (pins u).read = false)
    {u : Nat} (after : a ≤ u) (before : u ≤ b) : (run u).scanReady = true := by
  induction u, after using Nat.le_induction with
  | base => exact ready
  | succ u after ih =>
      rw [isRun, (clock_idle (running u) (quiet u after before)).2.2, ih (by omega),
        unread u after before]
      rfl

theorem pulse_pushes {x : Bool} {room a t b : Nat}
    (pulse : BitAt pins run room x a t b)
    (positive : 0 < room) : (run b).assembly = (run a).assembly.push x := by
  have inside := pulse.inside
  have before := quiet_assembly isRun running (a := a) (b := t)
    (fun u after early => pulse.alone u after (by omega) (by omega)) pulse.since (Nat.le_refl t)
  have behind := quiet_assembly isRun running (a := t + 1) (b := b)
    (fun u after early => pulse.alone u (by have := pulse.since; omega) early (by omega))
    (by omega) (Nat.le_refl b)
  rw [behind, isRun, clock_pushes (running t) pulse.rises, before]
  have shown : (pins t).ps2Dat = x := pulse.shown
  rw [shown]

theorem pulse_unfinished {x : Bool} {room a t b : Nat}
    (pulse : BitAt pins run room x a t b)
    (positive : 0 < room) (unready : (run a).scanReady = false)
    (missing : (run a).assembly.complete = false) :
    ∀ u, a ≤ u → u ≤ b → (run u).scanReady = false := by
  intro u after before
  have since := pulse.since
  have inside := pulse.inside
  have quietBefore := fun u (after : a ≤ u) (early : u < t) =>
    pulse.alone u after (by omega) (by omega)
  have still := quiet_unready isRun running quietBefore unready since (Nat.le_refl t)
  rcases Nat.lt_or_ge t u with later | earlier
  · have next : (run (t + 1)).scanReady = false := by
      rw [isRun, (clock_unfinished (running t) pulse.rises (by
        rw [quiet_assembly isRun running quietBefore since (Nat.le_refl t)]
        exact missing)).2, still]
      rfl
    exact quiet_unready isRun running (b := b)
      (fun v late early => pulse.alone v (by omega) early (by omega)) next later before
  · exact quiet_unready isRun running quietBefore unready after earlier

/-- In `[a, b)` the consumer takes one byte, at `u`, with `slack` clocks left. -/
structure TakenAt (pins : Nat → Pins) (run : Nat → Reader) (slack : Nat) (byte : Byte)
    (a u b : Nat) : Prop where
  since : a ≤ u
  inside : u + slack ≤ b
  here : taken (pins u, run u) = some byte
  elsewhere : ∀ v, a ≤ v → v < b → v ≠ u → taken (pins v, run v) = none

theorem pulse_complete {x : Bool} {a t b k slack : Nat} (positive : 0 < slack)
    (pulse : BitAt pins run (k + 1 + slack) x a t b)
    (prompt : Prompt pins run k) (unready : (run a).scanReady = false)
    (full : (run a).assembly.complete = true) :
    (run b).scanReady = false ∧ ∃ u, TakenAt pins run slack (run a).assembly.byte a u b := by
  have since := pulse.since
  have inside := pulse.inside
  have quietBefore := fun u (after : a ≤ u) (early : u < t) =>
    pulse.alone u after (by omega) (by omega)
  have quietBehind := fun u (after : t + 1 ≤ u) (early : u < b) =>
    pulse.alone u (by omega) early (by omega)
  have held := quiet_assembly isRun running quietBefore since (Nat.le_refl t)
  obtain ⟨byte, ready⟩ := clock_complete (running t) pulse.rises (by rw [held]; exact full)
  rw [← isRun] at byte ready
  rw [held] at byte
  -- the byte waits for the first read after it
  obtain ⟨j, soon, read, unread⟩ : ∃ j ≤ k, (pins (t + 1 + j)).read = true ∧
      ∀ i < j, (pins (t + 1 + i)).read = false := by
    have reads := prompt (t + 1) ready
    obtain ⟨soon, read⟩ := Nat.find_spec reads
    exact ⟨Nat.find reads, soon, read, fun i early => by
      have earlier := Nat.find_min reads early
      simpa [show i ≤ k by omega] using earlier⟩
  have waits : ∀ u, t + 1 ≤ u → u < t + 1 + j → (pins u).read = false := fun u after early => by
    obtain ⟨i, rfl⟩ := Nat.exists_eq_add_of_le after
    exact unread i (by omega)
  have still := @quiet_ready pins run isRun running (t + 1) (t + 1 + j)
    (fun u after early => quietBehind u after (by omega)) ready waits (t + 1 + j) (by omega)
    (Nat.le_refl _)
  have cleared : (run (t + 1 + j + 1)).scanReady = false := by
    rw [isRun, (clock_idle (running _) (quietBehind _ (by omega) (by omega))).2.2, read]
    simp
  have after := fun u (late : t + 1 + j + 1 ≤ u) (early : u ≤ b) =>
    quiet_unready isRun running (fun v behind ahead => quietBehind v (by omega) ahead) cleared late early
  refine ⟨after b (by omega) (Nat.le_refl b), t + 1 + j, by omega, by omega, ?_, ?_⟩
  · simp only [taken, still, read,
      quiet_byte isRun running quietBehind (by omega) (by omega : t + 1 + j ≤ b), byte]
    rfl
  · intro u late early other
    rcases Nat.lt_trichotomy u (t + 1 + j) with earlier | same | later
    · rcases Nat.lt_or_ge t u with behind | ahead
      · simp [taken, waits u behind earlier]
      · simp [taken, quiet_unready isRun running quietBefore unready late ahead]
    · exact absurd same other
    · simp [taken, after u later (by omega)]

/-- Between frames: the clock line rests high and no byte is pending. -/
structure Between (s : Reader) : Prop where
  settled : s.debouncer.Settled true
  unready : s.scanReady = false
  waiting : s.assembly.Waiting

variable {hold a c : Nat}

theorem payload_bits {xs rest : List Bool} (long : 10 ≤ hold)
    (line : Carries 7 hold (fun t => (pins t).ps2Clk) (fun t => (pins t).ps2Dat) a (xs ++ rest) c)
    (settled : (run a).debouncer.Settled true) (unready : (run a).scanReady = false)
    {n : Nat} {start : BitVec 9} (room : n + xs.length ≤ 9)
    (reading : (run a).assembly = ⟨true, BitVec.ofNat 4 n, start⟩) :
    ∃ b, a ≤ b ∧
      Carries 7 hold (fun t => (pins t).ps2Clk) (fun t => (pins t).ps2Dat) b rest c ∧
      (run b).debouncer.Settled true ∧ (run b).scanReady = false ∧
      (run b).assembly = ⟨true, BitVec.ofNat 4 (n + xs.length),
        xs.foldl (fun old x => Debounce.shiftIn x old) start⟩ ∧
      ∀ u, a ≤ u → u ≤ b → (run u).scanReady = false := by
  induction xs generalizing a n start with
  | nil => exact ⟨a, Nat.le_refl a, line, settled, unready, reading, fun u late early =>
      by rwa [Nat.le_antisymm early late]⟩
  | cons x xs ih =>
      rw [List.length_cons] at room
      obtain ⟨t, b, pulse, settles, line⟩ :=
        carries_pulse (d := fun t => (run t).debouncer) (debouncer_run isRun running) 1 line settled
          (by omega) (by omega)
      have later : a ≤ b := by
        have := pulse.since
        have := pulse.inside
        omega
      have small : (BitVec.ofNat 4 n == 9) = false := by
        simp [← BitVec.toNat_inj]
        omega
      have missing : (run a).assembly.complete = false := by
        rw [reading, Assembly.complete, small]
        rfl
      have pushed := pulse_pushes isRun running pulse (by omega)
      rw [reading, Assembly.push] at pushed
      simp only [beq_eq_false_iff_ne] at small
      simp only [Bool.not_true, Bool.false_eq_true, if_false, small] at pushed
      have unready' := pulse_unfinished isRun running pulse (by omega) unready missing
      obtain ⟨d, after, line, facts⟩ := ih line settles (unready' b later (Nat.le_refl b))
        (n := n + 1) (by omega) (by rw [pushed, BitVec.ofNat_add]; rfl)
      refine ⟨d, by omega, line, facts.1, facts.2.1, ?_, ?_⟩
      · rw [facts.2.2.1, List.length_cons, Nat.add_assoc, Nat.add_comm 1]
        rfl
      · intro u late early
        rcases Nat.le_total u b with before | behind
        · exact unready' u late before
        · exact facts.2.2.2 u behind early

theorem frame_read {k slack : Nat} (enough : k + slack + 10 ≤ hold) (positive : 0 < slack)
    (prompt : Prompt pins run k) {frame : Frame} {rest : List Bool}
    (line : Carries 7 hold (fun t => (pins t).ps2Clk) (fun t => (pins t).ps2Dat) a
      (frame.bits ++ rest) c) (between : Between (run a)) :
    ∃ b, a ≤ b ∧
      Carries 7 hold (fun t => (pins t).ps2Clk) (fun t => (pins t).ps2Dat) b rest c ∧
      Between (run b) ∧ ∃ u, TakenAt pins run slack frame.byte a u b := by
  have shape : frame.bits ++ rest = false :: (frame.payload ++ frame.stop :: rest) := by
    simp [Frame.bits]
  rw [shape] at line
  -- the start bit
  obtain ⟨t, b, pulse, settles, line⟩ :=
    carries_pulse (d := fun t => (run t).debouncer) (debouncer_run isRun running) 1 line
      between.settled (by omega) (by omega)
  have later : a ≤ b := Nat.le_trans pulse.since (by have := pulse.inside; omega)
  have missing : (run a).assembly.complete = false := by
    rw [Assembly.complete, between.waiting.1]
    rfl
  have unready := pulse_unfinished isRun running pulse (by omega) between.unready missing
  have started := pulse_pushes isRun running pulse (by omega)
  rw [Assembly.push, between.waiting.1] at started
  have cleared := between.waiting.2
  -- the data and the parity
  obtain ⟨d, after, line, settles, unready', read, silent⟩ :=
    @payload_bits pins run isRun running hold b c frame.payload (frame.stop :: rest) (by omega) line
      settles (unready b later (Nat.le_refl b)) 0 (run a).assembly.shiftIn (by simp [Frame.payload])
      (by rw [started, cleared]; rfl)
  -- the stop bit
  obtain ⟨u, e, pulse, settles, line⟩ :=
    carries_pulse (d := fun t => (run t).debouncer) (debouncer_run isRun running) (k + 1 + slack) line
      settles (by omega) (by omega)
  have last : d ≤ e := Nat.le_trans pulse.since (by have := pulse.inside; omega)
  have full : (run d).assembly.complete = true := by
    rw [read]
    simp [Frame.payload, Assembly.complete]
  obtain ⟨ready, v, byte⟩ := pulse_complete isRun running positive pulse prompt unready' full
  have done := pulse_pushes isRun running pulse (by omega)
  refine ⟨e, by omega, line, ⟨settles, ready, ?_⟩, v, ?_⟩
  · rw [done, read]
    simp [Frame.payload, Assembly.push, Assembly.Waiting]
  · refine ⟨by have := byte.since; omega, byte.inside, ?_, ?_⟩
    · rw [byte.here, read, Assembly.byte, payload_byte]
    · intro z late early other
      rcases Nat.lt_or_ge z d with before | behind
      · rcases Nat.le_total z b with starting | reading
        · simp [taken, unready z late starting]
        · simp [taken, silent z reading (Nat.le_of_lt before)]
      · exact byte.elsewhere z behind early other

theorem frames_read {k : Nat} (enough : k + 11 ≤ hold) (prompt : Prompt pins run k)
    {frames : List Frame}
    (line : Carries 7 hold (fun t => (pins t).ps2Clk) (fun t => (pins t).ps2Dat) a
      (frames.flatMap Frame.bits) c) (between : Between (run a)) :
    a ≤ c ∧ Between (run c) ∧
      reported taken (fun u => (pins u, run u)) a c = frames.map Frame.byte := by
  induction frames generalizing a with
  | nil =>
      cases line
      exact ⟨Nat.le_refl _, between, reported_self _⟩
  | cons frame frames ih =>
      obtain ⟨b, later, line, between, u, first⟩ :=
        frame_read isRun running (show k + 1 + 10 ≤ hold from enough) (by decide) prompt line between
      obtain ⟨after, between, others⟩ := ih line between
      refine ⟨Nat.le_trans later after, between, ?_⟩
      have inside := first.inside
      rw [reported_append later after, others,
        reported_once first.since (by omega) first.here first.elsewhere]
      rfl

end Runs

/-- From time 0 the line rests high, and then it carries frames until `c`. -/
def Sends (hold : Nat) (clk dat : Nat → Bool) (frames : List Frame) (c : Nat) : Prop :=
  ∃ s a, Phase 7 hold clk true 0 s a ∧ (∀ t < s + hold, dat t = true) ∧
    Carries 7 hold clk dat a (frames.flatMap Frame.bits) c

/-- At power-up and after a clock with `iRESET`. -/
structure Cleared (s : Reader) : Prop where
  low : s.debouncer.Settled false
  unready : s.scanReady = false
  waiting : s.assembly.Waiting

theorem reset_clears {i : Pins} (reset : i.reset = true) (s : Reader) : Cleared (s.clock i) := by
  rw [Reader.clock, if_pos reset]
  exact ⟨⟨rfl, rfl⟩, rfl, ⟨rfl, rfl⟩⟩

theorem rest_between {pins : Nat → Pins} {run : Nat → Reader}
    (isRun : ∀ t, run (t + 1) = (run t).clock (pins t)) (running : ∀ t, (pins t).reset = false)
    (cleared : Cleared (run 0)) {hold s a : Nat} (long : 11 ≤ hold)
    (high : Phase 7 hold (fun t => (pins t).ps2Clk) true 0 s a)
    (idle : ∀ t < s + hold, (pins t).ps2Dat = true) :
    Between (run a) ∧ ∀ u ≤ a, (run u).scanReady = false := by
  obtain ⟨t, pulse, settled⟩ := @high_phase_pulse 7 hold (fun t => (pins t).ps2Clk)
    (fun t => (pins t).ps2Dat) (fun t => (run t).debouncer) (debouncer_run isRun running) 1 0 s a true
    high cleared.low (fun t _ early => idle t early) (by omega) (by omega)
  have missing : (run 0).assembly.complete = false := by
    rw [Assembly.complete, cleared.waiting.1]
    rfl
  have unready := pulse_unfinished isRun running pulse (by omega) cleared.unready missing
  have pushed := pulse_pushes isRun running pulse (by omega)
  rw [Assembly.push, cleared.waiting.1] at pushed
  refine ⟨⟨settled, unready a (Nat.zero_le a) (Nat.le_refl a), ?_⟩,
    fun u early => unready u (Nat.zero_le u) early⟩
  rw [pushed]
  simp [Assembly.Waiting, cleared.waiting.2]

/-- What the keyboard sends is what the consumer takes, for every consumer that reads within `k`
clocks: no byte is lost, doubled or changed by bounces shorter than the debouncer's buffer. -/
theorem bytes_taken {pins : Nat → Pins} {start : Reader} {i : Pins} (reset : i.reset = true)
    (running : ∀ t, (pins t).reset = false) {k hold : Nat} (enough : k + 11 ≤ hold)
    (prompt : Prompt pins (drive Reader.clock pins (start.clock i)) k) {frames : List Frame} {c : Nat}
    (sends : Sends hold (fun t => (pins t).ps2Clk) (fun t => (pins t).ps2Dat) frames c) :
    reported taken (fun t => (pins t, drive Reader.clock pins (start.clock i) t)) 0 c =
      frames.map Frame.byte := by
  obtain ⟨s, a, high, idle, line⟩ := sends
  have isRun : ∀ t, drive Reader.clock pins (start.clock i) (t + 1) =
      (drive Reader.clock pins (start.clock i) t).clock (pins t) := fun t => rfl
  obtain ⟨between, quiet⟩ :=
    rest_between isRun running (reset_clears reset start) (by omega) high idle
  obtain ⟨later, -, bytes⟩ := frames_read isRun running enough prompt line between
  rw [reported_append (Nat.zero_le a) later, bytes, reported_nothing fun u _ early => by
    simp [taken, quiet u (Nat.le_of_lt early)]]
  rfl

theorem bits_length (frames : List Frame) : (frames.flatMap Frame.bits).length = 11 * frames.length := by
  induction frames with
  | nil => rfl
  | cons frame frames ih =>
      rw [List.flatMap_cons, List.length_append, ih, List.length_cons]
      simp [Frame.bits, Frame.payload]
      omega

/-- A clean line that sends frames, and then others. -/
theorem square_frames {n : Nat} (positive : 0 < n) (frames more : List Frame) :
    let dat := squareDat n ((frames ++ more).flatMap Frame.bits)
    Sends n (squareClk n) dat frames (n * (22 * frames.length + 1)) ∧
      Carries 7 n (squareClk n) dat (n * (22 * frames.length + 1)) (more.flatMap Frame.bits)
        (n * (22 * (frames.length + more.length) + 1)) := by
  intro dat
  have bits : (frames ++ more).flatMap Frame.bits = frames.flatMap Frame.bits ++ more.flatMap Frame.bits :=
    List.flatMap_append
  have first := @square_carries 7 n positive ((frames ++ more).flatMap Frame.bits)
    (frames.flatMap Frame.bits) 0 (by rw [bits]; exact List.prefix_append _ _)
  have second := @square_carries 7 n positive ((frames ++ more).flatMap Frame.bits)
    (more.flatMap Frame.bits) (11 * frames.length) (by
      rw [bits, ← bits_length, List.drop_left])
  have start : n * (2 * 0 + 1) = n := Nat.mul_one n
  rw [bits_length] at first second
  rw [start, show 2 * (0 + 11 * frames.length) + 1 = 22 * frames.length + 1 by omega] at first
  rw [show 2 * (11 * frames.length) + 1 = 22 * frames.length + 1 by omega,
    show 2 * (11 * frames.length + 11 * more.length) + 1 =
      22 * (frames.length + more.length) + 1 by omega] at second
  refine ⟨⟨0, n, ?_, fun t early => square_shows _ 0 (Nat.zero_le t) (by omega), first⟩, second⟩
  simpa using @slot_phase 7 n positive 0

/-- The line of a keyboard that sends `1C F0` and sets each level for 40 clocks. -/
theorem bytes_taken_make_break :
    let pins : Nat → Pins := fun t => ⟨squareClk 40 t,
      squareDat 40 ([⟨0x1C, false, true⟩, ⟨0xF0, true, true⟩].flatMap Frame.bits) t, false, true⟩
    reported taken
      (fun t => (pins t, drive Reader.clock pins
        ((⟨true, 3, 5, 7, true, false, true, 9⟩ : Reader).clock ⟨false, true, true, false⟩) t))
      0 (40 * 45) = [0x1C, 0xF0] :=
  @bytes_taken _ _ ⟨false, true, true, false⟩ rfl (fun _ => rfl) 0 40 (by decide)
    (fun t _ => ⟨0, Nat.le_refl 0, rfl⟩) [⟨0x1C, false, true⟩, ⟨0xF0, true, true⟩] (40 * 45)
    (square_frames (by decide) [⟨0x1C, false, true⟩, ⟨0xF0, true, true⟩] []).1

end Cpen311.ScanCodeReader
