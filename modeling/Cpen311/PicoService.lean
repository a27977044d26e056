import Cpen311.PracPico

/-! One interrupt of `pracPICO.psm`, from the interrupt itself to `RETURNI`. The
service routine is executed symbolically block by block: `Serving` collects what
all blocks keep of the interrupted board, and `Meter.serve` says what the whole
routine does to its counter, its sum and the LEDs. -/
namespace Cpen311.PicoService
open ClockedRun Kcpsm3 PracPico

def Steps (samples : Nat → Byte) : Board → Board → Prop := clocked (step samples)

/-! What the routine computes, on bytes. -/
def magnitude (sample : Byte) : Byte := if sample.msb then (sample - 1) ^^^ 0xFF else sample

/-- The cascade: the pattern at the first one of `value`, from the left. -/
def cascade : List Byte → Byte → Option Byte
  | [], _ => none
  | pattern :: rest, value => if value.msb then some pattern else cascade rest (value <<< 1)

/-- The eight steps of the cascade: where each goes on a zero, and its pattern. -/
def barSteps : List (Label × Byte) :=
  [(.bit6, 0xFF), (.bit5, 0xFE), (.bit4, 0xFC), (.bit3, 0xF8), (.bit2, 0xF0), (.bit1, 0xE0),
    (.bit0, 0xC0), (.resetAllVal, 0x80)]

def patterns : List Byte := barSteps.map Prod.snd

structure Meter where
  counter : Byte
  low : Byte
  high : Byte
  led : Byte

def meter (b : Board) : Meter where
  counter := b.cpu.scratch counter
  low := b.cpu.scratch sumOfData1
  high := b.cpu.scratch sumOfData2
  led := b.led

def Meter.add (m : Meter) (sample : Byte) : Meter :=
  { m with
    low := m.low + magnitude sample
    high := m.high + if 256 ≤ m.low.toNat + (magnitude sample).toNat then 1 else 0
    counter := m.counter + 1 }

def Meter.serve (m : Meter) (sample : Byte) : Meter :=
  if m.counter = 0xFF then
    { counter := 0, low := 0, high := 0, led := (cascade patterns (m.add sample).high).getD m.led }
  else m.add sample

/-- The board while the routine serves an interrupt taken in `m`. -/
structure Away (m b : Board) : Prop where
  code : address .isr ≤ b.cpu.pc
  masked : b.cpu.enabled = false
  depth : b.cpu.stack.length ≤ m.cpu.stack.length + 2

/-! What the routine leaves alone between saving the registers and returning. -/
structure Frame where
  enabled : Bool
  stack : List Address
  savedZero : Bool
  savedCarry : Bool
  preserved : List Byte
  led0 : Bool
  sseg : BitVec 24
  position : Nat

def frame (b : Board) : Frame where
  enabled := b.cpu.enabled
  stack := b.cpu.stack
  savedZero := b.cpu.savedZero
  savedCarry := b.cpu.savedCarry
  preserved := [isrPreserveS0, isrPreserveS1, isrPreserveS2, isrPreserveS3, isrPreserveS4].map
    b.cpu.scratch
  led0 := b.led0
  sseg := b.sseg
  position := b.position

/-- The frame of an interrupt taken in `m`, once the sample has been read. -/
def entered (m : Board) : Frame where
  enabled := false
  stack := m.cpu.pc :: m.cpu.stack
  savedZero := m.cpu.zero
  savedCarry := m.cpu.carry
  preserved := [s0, s1, s2, s3, s4].map m.cpu.reg
  led0 := m.led0
  sseg := m.sseg
  position := m.position + 1

structure Serving (m : Board) (pc : Address) (b : Board) : Prop where
  pc : b.cpu.pc = pc
  frame : frame b = entered m

/-- `code` stands at `pc`, within the routine. -/
def RoutineAt (pc : Address) : List (Instr Label) → Prop
  | [] => True
  | i :: rest => instruction pc = i ∧ address .isr ≤ pc ∧ RoutineAt (pc + 1) rest

instance decidableRoutineAt : ∀ pc code, Decidable (RoutineAt pc code)
  | _, [] => inferInstanceAs (Decidable True)
  | pc, _ :: rest =>
      have := decidableRoutineAt (pc + 1) rest
      inferInstanceAs (Decidable (_ ∧ _ ∧ _))

def straight : Instr Label → Bool
  | .jump _ _ | .call _ _ | .ret | .returniEnable | .enableInterrupt => false
  | _ => true

section Service
variable {samples : Nat → Byte} {m b : Board} {After : Board → Prop} {n : Nat}

theorem masked_step {after : Board} (masked : b.cpu.enabled = false)
    (taken : Steps samples b after) : after = perform samples b (instruction b.cpu.pc) := by
  obtain ⟨request, rfl⟩ := taken
  simp [step, masked]

theorem away_perform (pc : Address) (i : Instr Label) (here : b.cpu.pc = pc)
    (code : RoutineAt pc [i]) (masked : b.cpu.enabled = false)
    (depth : b.cpu.stack.length ≤ m.cpu.stack.length + 2) :
    Away m b ∧ ∀ after, Steps samples b after → after = perform samples b i := by
  obtain ⟨fetched, inside, -⟩ := code
  rw [← here] at fetched inside
  refine ⟨⟨inside, masked, depth⟩, fun after taken => ?_⟩
  rw [masked_step masked taken, fetched]

/-- One instruction of the routine. -/
theorem surely_perform (pc : Address) (i : Instr Label) (here : b.cpu.pc = pc)
    (code : RoutineAt pc [i]) (masked : b.cpu.enabled = false)
    (depth : b.cpu.stack.length ≤ m.cpu.stack.length + 2)
    (rest : Surely (Steps samples) (Away m) After n (perform samples b i)) :
    Surely (Steps samples) (Away m) After (n + 1) b := by
  obtain ⟨away, unique⟩ := @away_perform samples m b pc i here code masked depth
  refine ⟨away, fun after taken => ?_⟩
  rw [unique after taken]
  exact rest

theorem within_perform (pc : Address) (i : Instr Label) (here : b.cpu.pc = pc)
    (code : RoutineAt pc [i]) (masked : b.cpu.enabled = false)
    (depth : b.cpu.stack.length ≤ m.cpu.stack.length + 2)
    (rest : SurelyWithin (Steps samples) (Away m) After n (perform samples b i)) :
    SurelyWithin (Steps samples) (Away m) After (n + 1) b := by
  obtain ⟨away, unique⟩ := @away_perform samples m b pc i here code masked depth
  refine Or.inr ⟨away, fun after taken => ?_⟩
  rw [unique after taken]
  exact rest

theorem straight_perform (i : Instr Label) (straight : straight i = true) :
    (perform samples b i).cpu.pc = b.cpu.pc + 1 ∧
      (perform samples b i).cpu.enabled = b.cpu.enabled ∧
      (perform samples b i).cpu.stack = b.cpu.stack := by
  cases i <;> first | exact ⟨rfl, rfl, rfl⟩ | cases straight

theorem straight_pc (code : List (Instr Label)) (straights : code.all straight = true) :
    (code.foldl (perform samples) b).cpu.pc = b.cpu.pc + BitVec.ofNat 10 code.length := by
  induction code generalizing b with
  | nil => simp
  | cons i rest ih =>
      simp only [List.all_cons, Bool.and_eq_true] at straights
      rw [List.foldl_cons, ih straights.2, (straight_perform i straights.1).1, BitVec.add_assoc,
        List.length_cons, Nat.add_comm, BitVec.ofNat_add]
      rfl

/-- Straight-line code of the routine. -/
theorem surely_straight (pc : Address) (code : List (Instr Label)) (here : b.cpu.pc = pc)
    (stands : RoutineAt pc code) (straights : code.all straight = true)
    (masked : b.cpu.enabled = false) (depth : b.cpu.stack.length ≤ m.cpu.stack.length + 2)
    (rest : After (code.foldl (perform samples) b)) :
    Surely (Steps samples) (Away m) After code.length b := by
  induction code generalizing b pc with
  | nil => exact rest
  | cons i code ih =>
      simp only [List.all_cons, Bool.and_eq_true] at straights
      obtain ⟨next, enabled, stack⟩ := @straight_perform samples b i straights.1
      refine surely_perform pc i here ⟨stands.1, stands.2.1, trivial⟩ masked depth ?_
      refine ih (pc + 1) (next.trans (congrArg (· + 1) here)) stands.2.2 straights.2
        (enabled.trans masked) ?_ rest
      rw [stack]
      exact depth

theorem Serving.masked {pc : Address} (serving : Serving m pc b) : b.cpu.enabled = false :=
  congrArg Frame.enabled serving.frame

theorem Serving.stack {pc : Address} (serving : Serving m pc b) :
    b.cpu.stack = m.cpu.pc :: m.cpu.stack :=
  congrArg Frame.stack serving.frame

theorem Serving.depth {pc : Address} (serving : Serving m pc b) :
    b.cpu.stack.length ≤ m.cpu.stack.length + 2 := by
  rw [serving.stack]
  exact Nat.le_succ _

theorem serve_perform {pc : Address} (serving : Serving m pc b) (i : Instr Label)
    (code : RoutineAt pc [i])
    (rest : Surely (Steps samples) (Away m) After n (perform samples b i)) :
    Surely (Steps samples) (Away m) After (n + 1) b :=
  surely_perform pc i serving.pc code serving.masked serving.depth rest

theorem serve_within {pc : Address} (serving : Serving m pc b) (i : Instr Label)
    (code : RoutineAt pc [i])
    (rest : SurelyWithin (Steps samples) (Away m) After n (perform samples b i)) :
    SurelyWithin (Steps samples) (Away m) After (n + 1) b :=
  within_perform pc i serving.pc code serving.masked serving.depth rest

def silent : Instr Label → Bool
  | .output _ _ => false
  | _ => true

theorem silent_outputs (code : List (Instr Label)) (quiet : code.all silent = true) :
    (code.foldl (perform samples) b).led = b.led ∧
      (code.foldl (perform samples) b).led0 = b.led0 ∧
      (code.foldl (perform samples) b).sseg = b.sseg := by
  induction code generalizing b with
  | nil => exact ⟨rfl, rfl, rfl⟩
  | cons i rest ih =>
      simp only [List.all_cons, Bool.and_eq_true] at quiet
      have once : (perform samples b i).led = b.led ∧ (perform samples b i).led0 = b.led0 ∧
          (perform samples b i).sseg = b.sseg := by
        cases i <;> first | exact ⟨rfl, rfl, rfl⟩ | cases quiet.1
      rw [List.foldl_cons, ← once.1, ← once.2.1, ← once.2.2]
      exact ih quiet.2

def preservedCells : List Cell :=
  [isrPreserveS0, isrPreserveS1, isrPreserveS2, isrPreserveS3, isrPreserveS4]

/-- Instructions of the routine's body: they fall through and leave the frame alone. -/
def keepsFrame : Instr Label → Bool
  | .alu _ _ _ | .sl0 _ | .sr0 _ | .fetch _ _ => true
  | .store _ cell => !preservedCells.contains cell
  | .output _ port => port == ledPort
  | _ => false

theorem keeps_straight (i : Instr Label) (keeps : keepsFrame i = true) : straight i = true := by
  cases i <;> first | rfl | cases keeps

theorem perform_frame (i : Instr Label) (keeps : keepsFrame i = true) :
    frame (perform samples b i) = frame b := by
  cases i with
  | alu op x y | sl0 x | sr0 x | fetch x cell => rfl
  | store x cell =>
      simp only [keepsFrame, preservedCells, List.contains_cons, List.contains_nil, Bool.or_false,
        Bool.not_eq_true', Bool.or_eq_false_iff, beq_eq_false_iff_ne, ne_eq] at keeps
      simp only [frame, perform, execute, written, latch, consumed, Frame.mk.injEq, true_and,
        Nat.add_zero, List.map_cons, List.map_nil, List.cons.injEq, and_true]
      simp [Ne.symm keeps.1, keeps, eq_comm]
  | output x port =>
      obtain rfl : port = ledPort := by simpa [keepsFrame] using keeps
      rfl
  | _ => cases keeps

theorem serving_perform {pc : Address} (serving : Serving m pc b) (i : Instr Label)
    (keeps : keepsFrame i = true) : Serving m (pc + 1) (perform samples b i) where
  pc := by rw [(straight_perform i (keeps_straight i keeps)).1, serving.pc]
  frame := (perform_frame i keeps).trans serving.frame

theorem straight_frame (code : List (Instr Label)) (keeps : code.all keepsFrame = true) :
    frame (code.foldl (perform samples) b) = frame b := by
  induction code generalizing b with
  | nil => rfl
  | cons i rest ih =>
      simp only [List.all_cons, Bool.and_eq_true] at keeps
      rw [List.foldl_cons, ih keeps.2, perform_frame i keeps.1]

/-- Straight-line code of the routine's body. -/
theorem serve_straight {pc : Address} (code : List (Instr Label)) (serving : Serving m pc b)
    (stands : RoutineAt pc code) (keeps : code.all keepsFrame = true)
    (rest : Serving m (pc + BitVec.ofNat 10 code.length) (code.foldl (perform samples) b) →
      After (code.foldl (perform samples) b)) :
    Surely (Steps samples) (Away m) After code.length b := by
  have straights : code.all straight = true := by
    rw [List.all_eq_true] at keeps ⊢
    exact fun i inside => keeps_straight i (keeps i inside)
  refine surely_straight pc code serving.pc stands straights serving.masked serving.depth ?_
  refine rest ⟨?_, (straight_frame code keeps).trans serving.frame⟩
  rw [straight_pc code straights, serving.pc]

/-! Control transfers. -/
def goto (pc : Address) (b : Board) : Board := { b with cpu := { b.cpu with pc := pc } }

theorem perform_jump (condition : Condition) (target : Label) :
    perform samples b (.jump condition target) =
      goto (if condition.holds b.cpu then address target else b.cpu.pc + 1) b := rfl

def push (b : Board) : Board := { b with cpu := { b.cpu with stack := b.cpu.pc :: b.cpu.stack } }

theorem perform_call (condition : Condition) (target : Label) :
    perform samples b (.call condition target) =
      if condition.holds b.cpu then goto (address target) (push b) else goto (b.cpu.pc + 1) b := by
  cases holds : condition.holds b.cpu <;> simp only [perform, execute, holds] <;> rfl

theorem serving_goto {pc : Address} (serving : Serving m pc b) (target : Address) :
    Serving m target (goto target b) := ⟨rfl, serving.frame⟩

theorem parity_of_sign (sample : Byte) : oddParity (sample &&& 0x80) = sample.msb := by
  revert sample
  decide

/-- At `CALL C, POSITIVE`: the sample has been read and its sign tested. -/
structure Loaded (samples : Nat → Byte) (m b : Board) : Prop where
  serving : Serving m (address .isr + 10) b
  sample : b.cpu.reg s1 = samples m.position
  negative : b.cpu.carry = (samples m.position).msb
  low : b.cpu.reg s2 = (meter m).low
  high : b.cpu.reg s3 = (meter m).high
  counter : b.cpu.reg s4 = (meter m).counter
  led : b.led = m.led

def saveAndLoad : List (Instr Label) :=
  [.store s0 isrPreserveS0, .store s1 isrPreserveS1, .store s2 isrPreserveS2,
    .store s3 isrPreserveS3, .store s4 isrPreserveS4, .input s1 audioData,
    .fetch s2 sumOfData1, .fetch s3 sumOfData2, .fetch s4 counter, .alu .test s1 (.const 0x80)]

theorem isr_loads (m : Board) :
    Surely (Steps samples) (Away m) (Loaded samples m) 11 { m with cpu := interrupt m.cpu } := by
  refine surely_perform vector (.jump .always .isr) rfl (by decide) rfl (Nat.le_succ _) ?_
  rw [perform_jump]
  refine surely_straight (address .isr) saveAndLoad rfl (by decide) rfl rfl (Nat.le_succ _) ?_
  have silent := @silent_outputs samples
    (goto (address .isr) { m with cpu := interrupt m.cpu }) saveAndLoad rfl
  refine ⟨⟨straight_pc _ rfl, ?_⟩, rfl, parity_of_sign _, rfl, rfl, rfl, silent.1⟩
  rw [frame]
  exact congr (congr (congrArg _ silent.2.1) silent.2.2) rfl

/-- At `ADD_DATA`: the sample has been replaced by its magnitude. -/
structure Adding (samples : Nat → Byte) (m b : Board) : Prop where
  serving : Serving m (address .addData) b
  size : b.cpu.reg s1 = magnitude (samples m.position)
  low : b.cpu.reg s2 = (meter m).low
  high : b.cpu.reg s3 = (meter m).high
  counter : b.cpu.reg s4 = (meter m).counter
  led : b.led = m.led

theorem nonnegative_skips (loaded : Loaded samples m b)
    (nonnegative : (samples m.position).msb = false) :
    Surely (Steps samples) (Away m) (Adding samples m) 1 b := by
  obtain ⟨serving, sample, negative, low, high, counter, led⟩ := loaded
  refine serve_perform serving (.call .c .positive) (by decide) ?_
  have skipped : Condition.holds .c b.cpu = false := negative.trans nonnegative
  rw [perform_call, skipped, serving.pc]
  refine ⟨serving_goto serving _, ?_, low, high, counter, led⟩
  rw [magnitude, nonnegative]
  exact sample

theorem negative_negated (loaded : Loaded samples m b)
    (sign : (samples m.position).msb = true) :
    Surely (Steps samples) (Away m) (Adding samples m) 4 b := by
  obtain ⟨serving, sample, negative, low, high, counter, led⟩ := loaded
  refine serve_perform serving (.call .c .positive) (by decide) ?_
  have called : Condition.holds .c b.cpu = true := negative.trans sign
  rw [perform_call, called]
  -- the subroutine runs one call below the interrupt
  have deep : (push b).cpu.stack.length ≤ m.cpu.stack.length + 2 := by
    rw [push, serving.stack]
    exact Nat.le_refl _
  refine surely_perform (address .positive) (.alu .sub s1 (.const 0x01)) rfl (by decide)
    serving.masked deep ?_
  refine surely_perform (address .positive + 1) (.alu .xor s1 (.const 0xFF)) rfl (by decide)
    serving.masked deep ?_
  refine surely_perform (address .positive + 2) .ret rfl (by decide) serving.masked deep ?_
  refine ⟨⟨congrArg (· + 1) serving.pc, serving.frame⟩, ?_, low, high, counter, led⟩
  rw [magnitude, sign, ← sample]
  rfl

/-- At `STORE_DATA`: the registers hold what the routine leaves in `next`. -/
structure Storing (next : Meter) (m b : Board) : Prop where
  serving : Serving m (address .storeData) b
  low : b.cpu.reg s2 = next.low
  high : b.cpu.reg s3 = next.high
  counter : b.cpu.reg s4 = next.counter
  led : b.led = next.led

/-- At `UPDATE_LED`, with the high byte of the sum in `s3`. -/
structure Updating (high : Byte) (m b : Board) : Prop where
  serving : Serving m (address .updateLed) b
  high : b.cpu.reg s3 = high
  led : b.led = m.led

/-- At `UPDATE_LED`, with the whole sum in `s3` and `s2`. -/
structure Summed (next : Meter) (m b : Board) : Prop where
  serving : Serving m (address .updateLed) b
  low : b.cpu.reg s2 = next.low
  high : b.cpu.reg s3 = next.high
  led : b.led = m.led

/-- At `CHECK_256`: the sample has been added and counted. -/
structure Counted (next : Meter) (m b : Board) : Prop where
  serving : Serving m (address .check256) b
  low : b.cpu.reg s2 = next.low
  high : b.cpu.reg s3 = next.high
  counter : b.cpu.reg s4 = next.counter
  led : b.led = m.led
  carry : b.cpu.carry = decide ((meter m).counter = 0xFF)

theorem counter_wraps (a : Byte) :
    decide (256 ≤ a.toNat + (1 : Byte).toNat) = decide (a = 0xFF) := by
  rw [decide_eq_decide]
  constructor
  · intro wraps
    bv_omega
  · rintro rfl
    decide

theorem carry_added (a b c : Byte) :
    c + 0 + (if decide (256 ≤ a.toNat + b.toNat) = true then 1 else 0) =
      c + if 256 ≤ a.toNat + b.toNat then 1 else 0 := by
  simp

theorem sample_counted (adding : Adding samples m b) :
    Surely (Steps samples) (Away m) (Counted ((meter m).add (samples m.position)) m) 3 b := by
  obtain ⟨serving, size, low, high, counter, led⟩ := adding
  refine serve_straight
    [.alu .add s2 (.reg s1), .alu .addcy s3 (.const 0x00), .alu .add s4 (.const 0x01)]
    serving (by decide) rfl fun serving => ⟨serving, ?_, ?_, ?_, led, ?_⟩
  · exact congrArg₂ (· + ·) low size
  · rw [Meter.add, ← low, ← high, ← size]
    exact carry_added _ _ _
  · exact congrArg (· + 1) counter
  · rw [← counter]
    exact counter_wraps _

theorem full_sums {next : Meter} (counted : Counted next m b)
    (full : (meter m).counter = 0xFF) :
    Surely (Steps samples) (Away m) (Summed next m) 1 b := by
  obtain ⟨serving, low, high, -, led, carry⟩ := counted
  refine serve_perform serving (.jump .c .updateLed) (by decide) ?_
  have taken : Condition.holds .c b.cpu = true := carry.trans (decide_eq_true full)
  rw [perform_jump, taken]
  exact ⟨serving_goto serving _, low, high, led⟩

theorem full_updates {next : Meter} (counted : Counted next m b)
    (full : (meter m).counter = 0xFF) :
    Surely (Steps samples) (Away m) (Updating next.high m) 1 b := by
  obtain ⟨away, rest⟩ := @full_sums samples m b next counted full
  refine ⟨away, fun after taken => ?_⟩
  obtain ⟨serving, -, high, led⟩ := rest after taken
  exact ⟨serving, high, led⟩

theorem partial_stores {next : Meter} (counted : Counted next m b) (led : next.led = m.led)
    (more : (meter m).counter ≠ 0xFF) :
    Surely (Steps samples) (Away m) (Storing next m) 1 b := by
  obtain ⟨serving, low, high, counter, same, carry⟩ := counted
  refine serve_perform serving (.jump .c .updateLed) (by decide) ?_
  have skipped : Condition.holds .c b.cpu = false := carry.trans (decide_eq_false more)
  rw [perform_jump, skipped, serving.pc]
  exact ⟨serving_goto serving _, low, high, counter, same.trans led.symm⟩

theorem preserved_at (serving : Serving m (address .storeData) b) :
    b.cpu.scratch isrPreserveS0 = m.cpu.reg s0 ∧ b.cpu.scratch isrPreserveS1 = m.cpu.reg s1 ∧
      b.cpu.scratch isrPreserveS2 = m.cpu.reg s2 ∧ b.cpu.scratch isrPreserveS3 = m.cpu.reg s3 ∧
      b.cpu.scratch isrPreserveS4 = m.cpu.reg s4 := by
  have preserved := congrArg Frame.preserved serving.frame
  simpa [frame, entered] using preserved

theorem main_registers (r : Reg) (kept : mainRegister r = true) :
    r = s0 ∨ r = s1 ∨ r = s2 ∨ r = s3 ∨ r = s4 := by
  revert r
  decide

def storeAndRestore : List (Instr Label) :=
  [.store s2 sumOfData1, .store s3 sumOfData2, .store s4 counter,
    .fetch s0 isrPreserveS0, .fetch s1 isrPreserveS1, .fetch s2 isrPreserveS2,
    .fetch s3 isrPreserveS3, .fetch s4 isrPreserveS4]

theorem registers_restored (serving : Serving m (address .storeData) b) (r : Reg)
    (kept : mainRegister r = true) :
    (storeAndRestore.foldl (perform samples) b).cpu.reg r = m.cpu.reg r := by
  obtain ⟨saved0, saved1, saved2, saved3, saved4⟩ := preserved_at serving
  rcases main_registers r kept with rfl | rfl | rfl | rfl | rfl
  · exact saved0
  · exact saved1
  · exact saved2
  · exact saved3
  · exact saved4

/-- At `RETURNI ENABLE`: the registers have been restored and `next` is stored. -/
structure Restored (next : Meter) (m b : Board) : Prop where
  serving : Serving m (address .storeData + 8) b
  reg : ∀ r, mainRegister r = true → b.cpu.reg r = m.cpu.reg r
  meter : meter b = next

theorem store_restores {next : Meter} (storing : Storing next m b) :
    Surely (Steps samples) (Away m) (Restored next m) 8 b := by
  obtain ⟨serving, low, high, counter, led⟩ := storing
  refine serve_straight storeAndRestore serving (by decide) rfl
    fun served => ⟨served, registers_restored serving, ?_⟩
  have silent := @silent_outputs samples b storeAndRestore rfl
  rw [meter, silent.1, led]
  exact congr (congr (congrArg₂ Meter.mk counter low) high) rfl

/-- The interrupted board again, with `next` in the scratchpad and on the LEDs. -/
structure Resumed (next : Meter) (m b : Board) : Prop where
  agree : Agree mainRegister b.cpu m.cpu
  led0 : b.led0 = m.led0
  sseg : b.sseg = m.sseg
  position : b.position = m.position + 1
  meter : meter b = next

theorem return_resumes {next : Meter} (enabled : m.cpu.enabled = true)
    (restored : Restored next m b) :
    Surely (Steps samples) (Away m) (Resumed next m) 1 b := by
  obtain ⟨serving, reg, stored⟩ := restored
  have frame := serving.frame
  refine serve_perform serving .returniEnable (by decide) ?_
  refine ⟨⟨?_, reg, congrArg Frame.savedZero frame, congrArg Frame.savedCarry frame,
    enabled.symm, ?_⟩, congrArg Frame.led0 frame, congrArg Frame.sseg frame,
    congrArg Frame.position frame, stored⟩
  · exact congrArg (List.headD · 0) serving.stack
  · exact congrArg List.tail serving.stack

/-- At `RESET_ALL_VAL`: the cascade has set the LEDs to `led`. -/
structure Resetting (led : Byte) (m b : Board) : Prop where
  serving : Serving m (address .resetAllVal) b
  led : b.led = led

/-- The cascade from one of its steps on stands at `pc`, one step behind the other. -/
def CascadeAt (pc : Address) : List (Label × Byte) → Prop
  | [] => pc = address .resetAllVal
  | (next, pattern) :: rest =>
      RoutineAt pc (barStep next pattern) ∧ address next = pc + 5 ∧ CascadeAt (pc + 5) rest

instance decidableCascadeAt : ∀ pc steps, Decidable (CascadeAt pc steps)
  | pc, [] => inferInstanceAs (Decidable (pc = _))
  | pc, (_, _) :: rest =>
      have := decidableCascadeAt (pc + 5) rest
      inferInstanceAs (Decidable (_ ∧ _ ∧ _))

theorem bar_shown {pc : Address} {pattern : Byte} (serving : Serving m pc b)
    (stands : RoutineAt pc [.alu .load s5 (.const pattern), .output s5 ledPort,
      .jump .always .resetAllVal]) :
    Surely (Steps samples) (Away m) (Resetting pattern m) 3 b := by
  obtain ⟨load, inLoad, output, inOutput, rest⟩ := stands
  have loaded := @serving_perform samples m b pc serving (.alu .load s5 (.const pattern)) rfl
  have shown := @serving_perform samples m _ (pc + 1) loaded (.output s5 ledPort) rfl
  refine serve_perform serving _ ⟨load, inLoad, trivial⟩ ?_
  refine serve_perform loaded _ ⟨output, inOutput, trivial⟩ ?_
  refine serve_perform shown _ rest ?_
  rw [perform_jump]
  exact ⟨serving_goto shown _, rfl⟩

/-- The cascade by induction on the steps that are left. -/
theorem cascade_runs (steps : List (Label × Byte)) {pc : Address}
    (serving : Serving m pc b) (stands : CascadeAt pc steps) :
    SurelyWithin (Steps samples) (Away m)
      (Resetting ((cascade (steps.map Prod.snd) (b.cpu.reg s3)).getD b.led) m)
      (2 * steps.length + 3) b := by
  induction steps generalizing pc b with
  | nil =>
      obtain rfl : pc = address .resetAllVal := stands
      exact surely_within_after _ ⟨serving, rfl⟩
  | cons step rest ih =>
      obtain ⟨next, pattern⟩ := step
      obtain ⟨⟨shift, inShift, jump, inJump, bar⟩, contiguous, others⟩ := stands
      have shifted := @serving_perform samples m b pc serving (.sl0 s3) rfl
      refine serve_within serving _ ⟨shift, inShift, trivial⟩ ?_
      refine serve_within shifted _ ⟨jump, inJump, trivial⟩ ?_
      have carry : Condition.holds .nc (perform samples b (.sl0 s3)).cpu =
          !(b.cpu.reg s3).msb := rfl
      rw [perform_jump, carry, List.map_cons, cascade, shifted.pc]
      -- the bit shifted out decides between the next step and this step's bar
      cases (b.cpu.reg s3).msb
      · have onward := ih (serving_goto shifted (pc + 5)) others
        rw [← contiguous] at onward
        exact surely_within_mono onward (by simp only [List.length_cons]; omega)
      · exact surely_within_mono (surely_is_within (bar_shown (serving_goto shifted _) bar))
          (by simp only [List.length_cons]; omega)

theorem update_resets {high : Byte} (updating : Updating high m b) :
    SurelyWithin (Steps samples) (Away m)
      (Resetting ((cascade patterns high).getD m.led) m) 20 b := by
  obtain ⟨serving, value, led⟩ := updating
  have ready :=
    @serving_perform samples m b (address .updateLed) serving (.alu .and s0 (.reg s0)) rfl
  refine serve_within serving (.alu .and s0 (.reg s0)) (by decide) ?_
  rw [← value, ← led]
  exact cascade_runs barSteps ready (by decide)

theorem reset_stores {led : Byte} (resetting : Resetting led m b) :
    Surely (Steps samples) (Away m) (Storing ⟨0, 0, 0, led⟩ m) 5 b := by
  obtain ⟨serving, same⟩ := resetting
  have cleared : Surely (Steps samples) (Away m) (fun after =>
      Serving m (address .resetAllVal + 4) after ∧ after.cpu.reg s2 = 0 ∧ after.cpu.reg s3 = 0 ∧
        after.cpu.reg s4 = 0 ∧ after.led = led) 4 b :=
    serve_straight
      [.alu .load s2 (.const 0x00), .alu .load s3 (.const 0x00), .alu .load s4 (.const 0x00),
        .alu .load s5 (.const 0x00)]
      serving (by decide) rfl
      fun served => ⟨served, rfl, rfl, rfl, (silent_outputs _ rfl).1.trans same⟩
  refine surely_trans (n := 4) (m := 1) cleared ?_
  rintro after ⟨served, low, high, counter, same⟩
  refine serve_perform served (.jump .always .storeData) (by decide) ?_
  exact ⟨serving_goto served _, low, high, counter, same⟩

theorem magnitude_taken (loaded : Loaded samples m b) :
    SurelyWithin (Steps samples) (Away m) (Adding samples m) 4 b := by
  cases sign : (samples m.position).msb
  · exact surely_within_mono (surely_is_within (nonnegative_skips loaded sign)) (by decide)
  · exact surely_is_within (negative_negated loaded sign)

/-- Both exits of `CHECK_256` lead to `STORE_DATA`. -/
theorem counted_stores (counted : Counted ((meter m).add (samples m.position)) m b) :
    SurelyWithin (Steps samples) (Away m)
      (Storing ((meter m).serve (samples m.position)) m) 26 b := by
  by_cases full : (meter m).counter = 0xFF
  · have served : (meter m).serve (samples m.position) =
        ⟨0, 0, 0, (cascade patterns ((meter m).add (samples m.position)).high).getD m.led⟩ :=
      if_pos full
    rw [served]
    -- to `UPDATE_LED`, through the cascade, and back from `RESET_ALL_VAL`
    refine surely_within_trans (n := 1) (m := 25) (surely_is_within (full_updates counted full)) ?_
    intro middle updating
    refine surely_within_trans (n := 20) (m := 5) (update_resets updating) ?_
    intro middle resetting
    exact surely_is_within (reset_stores resetting)
  · have served : (meter m).serve (samples m.position) = (meter m).add (samples m.position) :=
      if_neg full
    rw [served]
    exact surely_within_mono (surely_is_within (partial_stores counted rfl full)) (by decide)

theorem interrupt_counts :
    SurelyWithin (Steps samples) (Away m) (Counted ((meter m).add (samples m.position)) m) 18
      { m with cpu := interrupt m.cpu } := by
  refine surely_within_trans (n := 11) (m := 7) (surely_is_within (isr_loads m)) ?_
  intro middle loaded
  refine surely_within_trans (n := 4) (m := 3) (magnitude_taken loaded) ?_
  intro middle adding
  exact surely_is_within (sample_counted adding)

/-- The interrupt that fills the window comes to `UPDATE_LED` with the sum of the window. -/
theorem interrupt_sums (full : (meter m).counter = 0xFF) :
    SurelyWithin (Steps samples) (Away m) (Summed ((meter m).add (samples m.position)) m) 19
      { m with cpu := interrupt m.cpu } := by
  refine surely_within_trans (n := 18) (m := 1) interrupt_counts ?_
  intro middle counted
  exact surely_is_within (full_sums counted full)

/-- The longest path through the routine, in instructions. -/
def serviceTime : Nat := 53

/-- An interrupt is served, and resumes the board it interrupted. -/
theorem interrupt_resumes (enabled : m.cpu.enabled = true) :
    SurelyWithin (Steps samples) (Away m) (Resumed ((meter m).serve (samples m.position)) m)
      serviceTime { m with cpu := interrupt m.cpu } := by
  refine surely_within_trans (n := 18) (m := 35) interrupt_counts ?_
  intro middle counted
  refine surely_within_trans (n := 26) (m := 9) (counted_stores counted) ?_
  intro middle storing
  exact surely_is_within (surely_trans (n := 8) (m := 1) (store_restores storing)
    fun _ restored => return_resumes enabled restored)

end Service

end Cpen311.PicoService
