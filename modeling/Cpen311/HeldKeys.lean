import Cpen311.KeyboardController

/-! The `HOLDING_` registers of `dds_and_nios_lab`, which the processor reads as
`keyboard_keys`. They compare the event type without looking at its ready line,
which is sound because the type is `SC_NONE` whenever no event is shown. -/
namespace Cpen311.HeldKeys
open ClockedRun Debounce Reports ScanCodeReader KeyboardController

inductive Key where
  | digit1 | digit2 | digit3 | digit4 | digit5 | digit6 | digit7 | digit8
  | f1 | f2 | n | m | space | leftArrow | rightArrow | upArrow | downArrow
deriving DecidableEq

/-- `SC_MAKE_` of the key. -/
def scMake : Key → Byte
  | .digit1 => 0x91 | .digit2 => 0x92 | .digit3 => 0x93 | .digit4 => 0x94
  | .digit5 => 0x95 | .digit6 => 0x96 | .digit7 => 0x97 | .digit8 => 0x98
  | .f1 => 0x82 | .f2 => 0x83 | .n => 0xBF | .m => 0xC0 | .space => 0xC8
  | .leftArrow => 0xD4 | .rightArrow => 0xD6 | .upArrow => 0xD3 | .downArrow => 0xD5

/-- `SC_BREAK_` of the key. -/
def scBreak : Key → Byte
  | .digit1 => 0x11 | .digit2 => 0x12 | .digit3 => 0x13 | .digit4 => 0x14
  | .digit5 => 0x15 | .digit6 => 0x16 | .digit7 => 0x17 | .digit8 => 0x18
  | .f1 => 0x02 | .f2 => 0x03 | .n => 0x3F | .m => 0x40 | .space => 0x48
  | .leftArrow => 0x54 | .rightArrow => 0x56 | .upArrow => 0x53 | .downArrow => 0x55

abbrev Holding := Key → Bool

/-- The chain of comparisons, without the reset. -/
def holdingAfter (eventType : Byte) (h : Holding) : Holding := fun key =>
  if eventType = scMake key then true
  else if eventType = scBreak key then false
  else h key

structure Pins where
  ps2Clk : Bool
  ps2Dat : Bool
  resetFromKey : Bool

structure Lab where
  kc0 : Keyboard
  holding : Holding

/-- `iRESET` of the controller is tied low. -/
def controllerPins (i : Pins) : KeyboardController.Pins := ⟨i.ps2Clk, i.ps2Dat, false⟩

/-- One rising edge of `CLK_25MHZ`. -/
def Lab.clock (i : Pins) (s : Lab) : Lab where
  kc0 := s.kc0.clock (controllerPins i)
  holding := if i.resetFromKey then fun _ => false else holdingAfter s.kc0.eventType s.holding

/-- The order of the concatenation, from bit 16 down; the upper 15 bits are zero. -/
def concatenation : List Key :=
  [.digit1, .digit2, .digit3, .digit4, .digit5, .digit6, .digit7, .digit8, .f1, .f2, .n, .m,
    .space, .leftArrow, .rightArrow, .upArrow, .downArrow]

def keyboardKeys (h : Holding) : BitVec 32 :=
  BitVec.ofNat 32 (concatenation.foldl (fun word key => 2 * word + (h key).toNat) 0)

/-! What the registers are for. -/
/-- The key went down, and it has not come up since. -/
def Held (events : List Byte) (key : Key) : Prop :=
  ∃ before behind, events = before ++ scMake key :: behind ∧ scBreak key ∉ behind

theorem key_events (key : Key) : scMake key ≠ scNone ∧ scBreak key ≠ scNone := by
  cases key <;> decide

theorem held_append (events : List Byte) (e : Byte) (key : Key) :
    Held (events ++ [e]) key ↔ e = scMake key ∨ e ≠ scBreak key ∧ Held events key := by
  constructor
  · rintro ⟨before, behind, split, kept⟩
    rcases List.eq_nil_or_concat behind with rfl | ⟨behind, last, rfl⟩
    · left
      have ends := congrArg List.getLast? split
      simpa using ends
    · right
      rw [List.concat_eq_append, ← List.cons_append, ← List.append_assoc] at split
      obtain ⟨same, final⟩ := List.append_inj' split rfl
      rw [List.concat_eq_append, List.mem_append, not_or] at kept
      obtain rfl : e = last := by simpa using final
      exact ⟨by simpa [eq_comm] using kept.2, before, behind, same, kept.1⟩
  · rintro (rfl | ⟨other, before, behind, rfl, kept⟩)
    · exact ⟨events, [], rfl, List.not_mem_nil⟩
    · refine ⟨before, behind ++ [e], by simp, ?_⟩
      rw [List.mem_append, not_or, List.mem_singleton]
      exact ⟨kept, fun same => other same.symm⟩

/-- The registers after a list of events, from the state with no key held. -/
def afterEvents (events : List Byte) : Holding :=
  events.foldl (fun h e => holdingAfter e h) fun _ => false

theorem after_events_held (events : List Byte) (key : Key) :
    afterEvents events key = true ↔ Held events key := by
  induction events using List.reverseRecOn with
  | nil => simp [afterEvents, Held]
  | append_singleton events e ih =>
      rw [held_append, ← ih]
      simp only [afterEvents, List.foldl_append, List.foldl_cons, List.foldl_nil, holdingAfter]
      by_cases down : e = scMake key
      · simp [down]
      · by_cases up : e = scBreak key <;> simp [down, up]

section Runs
variable {pins : Nat → Pins} {run : Nat → Lab} (isRun : ∀ t, run (t + 1) = (run t).clock (pins t))
include isRun

theorem controller_run (t : Nat) :
    (run (t + 1)).kc0 = (run t).kc0.clock (controllerPins (pins t)) := by
  rw [isRun]
  rfl

theorem type_without_event (quiet : (run 0).kc0.eventType = scNone) (t : Nat)
    (unready : (run t).kc0.eventReady = false) : (run t).kc0.eventType = scNone := by
  cases t with
  | zero => exact quiet
  | succ t =>
      rw [controller_run isRun] at unready ⊢
      cases event : scanCodeToEvent (run t).kc0.scanBytes with
      | none => simp [Keyboard.clock, controllerPins, event]
      | some e => simp [Keyboard.clock, controllerPins, event] at unready

/-- The registers see each event once, although they do not look at the ready line. -/
theorem holding_follows (running : ∀ t, (pins t).resetFromKey = false)
    (quiet : (run 0).kc0.eventType = scNone) (released : (run 0).holding = fun _ => false) (t : Nat) :
    (run t).holding = afterEvents (reported shown (fun t => (run t).kc0) 0 t) := by
  induction t with
  | zero => rw [released, reported_self]; rfl
  | succ t ih =>
      have next : (run (t + 1)).holding = holdingAfter (run t).kc0.eventType (run t).holding := by
        simp [isRun, Lab.clock, running]
      have now : reported shown (fun t => (run t).kc0) t (t + 1) = (shown (run t).kc0).toList := by
        cases event : shown (run t).kc0 <;> simp [reported, event]
      rw [next, ih, reported_append (Nat.zero_le t) (Nat.le_succ t), now, afterEvents, afterEvents,
        List.foldl_append]
      cases ready : (run t).kc0.eventReady with
      | true => simp [shown, ready]
      | false =>
          rw [type_without_event isRun quiet t ready]
          funext key
          obtain ⟨noMake, noBreak⟩ := key_events key
          simp [shown, ready, holdingAfter, noMake.symm, noBreak.symm]

end Runs

theorem word_bit (h : Holding) (keys : List Key) {i : Nat} (inside : i < keys.length) :
    (keys.foldl (fun word key => 2 * word + (h key).toNat) 0).testBit (keys.length - 1 - i) =
      h keys[i] := by
  induction keys using List.reverseRecOn generalizing i with
  | nil => simp at inside
  | append_singleton keys key ih =>
      rw [List.length_append, List.length_singleton] at inside
      rw [List.foldl_append, List.foldl_cons, List.foldl_nil, List.length_append, List.length_singleton,
        Nat.add_sub_cancel]
      rcases Nat.lt_or_ge i keys.length with earlier | last
      · have half : ∀ word, (2 * word + (h key).toNat) / 2 = word := fun word => by
          have small := Bool.toNat_lt (h key)
          omega
        rw [show keys.length - i = keys.length - 1 - i + 1 by omega, Nat.testBit_succ, half,
          ih earlier, List.getElem_append_left earlier]
      · obtain rfl : i = keys.length := by omega
        rw [Nat.sub_self, Nat.testBit_zero]
        cases now : h key
        · simp [now]
        · simp [now]

theorem word_bound (h : Holding) (keys : List Key) :
    keys.foldl (fun word key => 2 * word + (h key).toNat) 0 < 2 ^ keys.length := by
  induction keys using List.reverseRecOn with
  | nil => simp
  | append_singleton keys key ih =>
      have small := Bool.toNat_lt (h key)
      rw [List.foldl_append, List.foldl_cons, List.foldl_nil, List.length_append, List.length_singleton,
        Nat.pow_succ]
      omega

def bitOf (key : Key) : Nat := 16 - concatenation.idxOf key

theorem keyboard_keys_bit (h : Holding) (key : Key) :
    (keyboardKeys h).getLsbD (bitOf key) = h key := by
  have inside : concatenation.idxOf key < concatenation.length := by cases key <;> decide
  have named : concatenation[concatenation.idxOf key] = key := by cases key <;> rfl
  have bit := word_bit h concatenation inside
  rw [named] at bit
  have small : bitOf key < 32 := by
    unfold bitOf
    omega
  rw [keyboardKeys, BitVec.getLsbD_ofNat, ← bit]
  simp only [small, decide_true, Bool.true_and]
  rfl

theorem keyboard_keys_upper (h : Holding) {i : Nat} (above : 17 ≤ i) :
    (keyboardKeys h).getLsbD i = false := by
  have bound := word_bound h concatenation
  rw [keyboardKeys, BitVec.getLsbD_ofNat,
    Nat.testBit_lt_two_pow (Nat.lt_of_lt_of_le bound (Nat.pow_le_pow_right (by decide) above)),
    Bool.and_false]

theorem controller_drive (pins : Nat → Pins) (start : Lab) (t : Nat) :
    (drive Lab.clock pins start t).kc0 =
      drive Keyboard.clock (fun t => controllerPins (pins t)) start.kc0 t := by
  induction t with
  | zero => rfl
  | succ t ih => exact congrArg (Keyboard.clock (controllerPins (pins t))) ih

/-- The word that the processor reads shows which keys are held, for any sequence of key events. -/
theorem keyboard_keys_held {pins : Nat → Pins} (running : ∀ t, (pins t).resetFromKey = false)
    {start : Lab} (fresh : Fresh start.kc0) (released : start.holding = fun _ => false)
    {hold c : Nat} (long : 13 ≤ hold)
    {sent : List (List Byte × Byte)} (listed : ∀ row ∈ sent, row ∈ scanCodes) {frames : List Frame}
    (framed : frames.map Frame.byte = sent.flatMap Prod.fst)
    (sends : Sends hold (fun t => (pins t).ps2Clk) (fun t => (pins t).ps2Dat) frames c) :
    (∀ key, (keyboardKeys (drive Lab.clock pins start c).holding).getLsbD (bitOf key) = true ↔
      Held (sent.map Prod.snd) key) ∧
    ∀ i, 17 ≤ i → (keyboardKeys (drive Lab.clock pins start c).holding).getLsbD i = false := by
  refine ⟨fun key => ?_, fun i above => keyboard_keys_upper _ above⟩
  have isRun : ∀ t, drive Lab.clock pins start (t + 1) =
      (drive Lab.clock pins start t).clock (pins t) := fun t => rfl
  obtain ⟨-, -, events⟩ := @sends_parsed start.kc0 fresh (fun t => controllerPins (pins t))
    (fun t => rfl) hold c long frames sends
  rw [framed, (codes_parsed listed).1] at events
  rw [keyboard_keys_bit, holding_follows isRun running fresh.noEvent released, after_events_held]
  simp only [controller_drive]
  rw [events]

/-- The space bar and the left arrow go down, the arrow comes up. -/
theorem keyboard_keys_held_space :
    let sent : List Byte := [0x29, 0xE0, 0x6B, 0xE0, 0xF0, 0x6B]
    let frames := sent.map fun byte => ⟨byte, true, true⟩
    let pins : Nat → Pins :=
      fun t => ⟨squareClk 40 t, squareDat 40 (frames.flatMap Frame.bits) t, false⟩
    (∀ key, (keyboardKeys (drive Lab.clock pins ⟨powerUp, fun _ => false⟩ (40 * 133)).holding).getLsbD
        (bitOf key) = true ↔ Held [0xC8, 0xD4, 0x54] key) ∧
      ∀ i, 17 ≤ i → (keyboardKeys (drive Lab.clock pins ⟨powerUp, fun _ => false⟩
        (40 * 133)).holding).getLsbD i = false := by
  intro sent frames pins
  exact @keyboard_keys_held pins (fun _ => rfl) ⟨powerUp, fun _ => false⟩ power_up_fresh rfl 40
    (40 * 133) (by decide) [([0x29], 0xC8), ([0xE0, 0x6B], 0xD4), ([0xE0, 0xF0, 0x6B], 0x54)]
    (by decide +kernel) frames rfl (square_frames (by decide) frames []).1

end Cpen311.HeldKeys
