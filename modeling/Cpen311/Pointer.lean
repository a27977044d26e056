import Cpen311.HeldKeys
import Cpen311.TouchPanel

/-! The pointer of lab5: how the arrow keys move it (`Cursor.v`), and how `task2` reads it and the
space bar (`mouse_pos` of `drivers.c`). -/
namespace Cpen311.Pointer
open ClockedRun HeldKeys TouchPanel

abbrev Coord := BitVec 10

structure Inputs where
  iLeft : Bool
  iRight : Bool
  iUp : Bool
  iDown : Bool
  slow : Bool
  iRST : Bool

structure Cursor where
  curX : Coord
  curY : Coord
  debounce : BitVec 21

def speedX (i : Inputs) : Coord := if i.slow then 1 else 0xF

def speedY (i : Inputs) : Coord := if i.slow then 1 else 0xC

/-- One rising edge of `iCLK`. -/
def Cursor.clock (i : Inputs) (s : Cursor) : Cursor :=
  if i.iRST then ⟨400, 300, 0⟩
  else if i.iLeft then
    { s with
      curX := if s.debounce = 0 then s.curX - speedX i else s.curX
      debounce := s.debounce + 1 }
  else if i.iRight then
    { s with
      curX := if s.debounce = 0 then s.curX + speedX i else s.curX
      debounce := s.debounce + 1 }
  else if i.iUp then
    { s with
      curY := if s.debounce = 0 then s.curY - speedY i else s.curY
      debounce := s.debounce + 1 }
  else if i.iDown then
    { s with
      curY := if s.debounce = 0 then s.curY + speedY i else s.curY
      debounce := s.debounce + 1 }
  else { s with debounce := 0 }

/-- The step of the key that has precedence among those held. -/
def Inputs.step (i : Inputs) : Option (Coord × Coord) :=
  if i.iLeft then some (-speedX i, 0)
  else if i.iRight then some (speedX i, 0)
  else if i.iUp then some (0, -speedY i)
  else if i.iDown then some (0, speedY i)
  else none

/-- The steps in a number of clocks: one at the first of every `2 ^ 21`. -/
def steps (n : Nat) : Nat := (n + (2 ^ 21 - 1)) / 2 ^ 21

section Cursor
variable {i : Inputs} {d : Coord × Coord}

theorem clock_held (held : i.step = some d) (running : i.iRST = false) (s : Cursor) :
    s.clock i = ⟨if s.debounce = 0 then s.curX + d.1 else s.curX,
      if s.debounce = 0 then s.curY + d.2 else s.curY, s.debounce + 1⟩ := by
  unfold Inputs.step at held
  unfold Cursor.clock
  rw [running, if_neg Bool.false_ne_true]
  split_ifs at held ⊢ <;> cases held
  all_goals simp [BitVec.sub_eq_add_neg]

theorem clock_released (free : i.step = none) (running : i.iRST = false) (s : Cursor) :
    s.clock i = { s with debounce := 0 } := by
  unfold Inputs.step at free
  unfold Cursor.clock
  rw [running, if_neg Bool.false_ne_true]
  split_ifs at free ⊢
  rfl

theorem debounce_zero (n : Nat) : BitVec.ofNat 21 n = 0 ↔ 2 ^ 21 ∣ n := by
  rw [BitVec.toNat_eq, BitVec.toNat_ofNat, Nat.dvd_iff_mod_eq_zero]
  rfl

theorem steps_succ (n : Nat) : steps (n + 1) = if 2 ^ 21 ∣ n then steps n + 1 else steps n := by
  unfold steps
  split <;> omega

theorem one_more (n : Nat) (c d : Coord) :
    c + BitVec.ofNat 10 n * d + d = c + BitVec.ofNat 10 (n + 1) * d := by
  rw [BitVec.ofNat_add, BitVec.add_assoc, BitVec.add_mul, BitVec.one_mul]

/-- While the keys ask for one step, the pointer takes it at once and again every `2 ^ 21` clocks. -/
theorem held_moves {inputs : Nat → Inputs} {start : Cursor} {m n : Nat}
    (released : (inputs m).step = none) (running : ∀ k ≤ n, (inputs (m + k)).iRST = false)
    (held : ∀ k < n, (inputs (m + 1 + k)).step = some d) :
    drive Cursor.clock inputs start (m + 1 + n) =
      let before := drive Cursor.clock inputs start m
      ⟨before.curX + BitVec.ofNat 10 (steps n) * d.1, before.curY + BitVec.ofNat 10 (steps n) * d.2,
        BitVec.ofNat 21 n⟩ := by
  induction n with
  | zero =>
      change Cursor.clock (inputs m) (drive Cursor.clock inputs start m) = _
      rw [clock_released released (running 0 (Nat.le_refl 0))]
      simp [steps]
  | succ n ih =>
      have before := ih (fun k inside => running k (by omega)) fun k inside => held k (by omega)
      have still : (inputs (m + 1 + n)).iRST = false := by
        rw [Nat.add_assoc, Nat.add_comm 1 n]
        exact running (n + 1) (Nat.le_refl _)
      change Cursor.clock (inputs (m + 1 + n)) (drive Cursor.clock inputs start (m + 1 + n)) = _
      rw [before, clock_held (held n (Nat.lt_succ_self n)) still, steps_succ]
      simp only [debounce_zero, BitVec.ofNat_add]
      split
      · simp only [one_more]
        rfl
      · rfl

def free : Inputs := ⟨false, false, false, false, false, false⟩

/-- The right arrow goes down, and later the down arrow, which has no effect. -/
def rightThenDown (k : Nat) : Inputs :=
  if k = 0 then free else { free with iRight := true, iDown := 9 < k }

theorem right_moves :
    drive Cursor.clock rightThenDown ⟨400, 300, 5⟩ (0 + 1 + 2097153) = ⟨430, 300, 1⟩ := by
  have running (k : Nat) : (rightThenDown k).iRST = false := by
    unfold rightThenDown
    split <;> rfl
  have held (k : Nat) : (rightThenDown (0 + 1 + k)).step = some (0xF, 0) := by
    rw [rightThenDown, if_neg (by omega)]
    rfl
  rw [held_moves rfl (fun k _ => running (0 + k)) fun k _ => held k]
  rfl

end Cursor

/-! What the processor reads. -/

/-- `mouse_pos_export`. -/
def mousePosExport (c : Cursor) : BitVec 32 := (0 : BitVec 12) ++ c.curX ++ c.curY

/-- The static variable `space`; `space_last` is assigned before it is used. -/
abbrev Space := BitVec 8

/-- The event with its coordinates, and the static variable after it. -/
def mousePos (pos keys : BitVec 32) (space : Space) : Event × Space :=
  let spaceKey := (keys >>> 4) &&& 1
  let spaceLast := space
  let space := if spaceLast.setWidth 32 ≠ spaceKey then spaceKey.setWidth 8 else space
  let event :=
    if spaceLast = 0 ∧ space = 1 ∨ spaceKey = 1 then 1
    else if spaceLast = 1 ∧ space = 0 then 2
    else 0
  (⟨event, (pos >>> 10 &&& 0x3ff).toNat, (pos &&& 0x3ff).toNat⟩, space)

/-- The hardware at the moments of the calls. -/
structure Sample where
  cursor : Cursor
  holding : Holding

def space (samples : Nat → Sample) : Nat → Space
  | 0 => 0
  | n + 1 => (mousePos (mousePosExport (samples n).cursor) (keyboardKeys (samples n).holding)
      (space samples n)).2

def events (samples : Nat → Sample) (n : Nat) : Event :=
  (mousePos (mousePosExport (samples n).cursor) (keyboardKeys (samples n).holding)
    (space samples n)).1

theorem space_key (h : Holding) :
    (keyboardKeys h >>> 4) &&& 1 = if h .space then 1 else 0 := by
  have bit := keyboard_keys_bit h .space
  have place : bitOf .space = 4 := rfl
  rw [place] at bit
  refine BitVec.eq_of_getLsbD_eq fun i inside => ?_
  rw [BitVec.getLsbD_and, BitVec.getLsbD_ushiftRight]
  by_cases first : i = 0
  · subst first
    rw [Nat.add_zero, bit]
    cases h .space <;> rfl
  · have upper : (1 : BitVec 32).getLsbD i = false := by
      change (1#32).getLsbD i = false
      simp [first]
    rw [upper, Bool.and_false]
    cases h .space
    · exact BitVec.getLsbD_zero.symm
    · exact upper.symm

theorem ten_bits (word : BitVec 32) (i : Nat) :
    (word &&& 0x3ff).getLsbD i = (decide (i < 10) && word.getLsbD i) := by
  have mask : (0x3ff : BitVec 32) = (BitVec.allOnes 10).setWidth 32 := by decide
  rw [mask, BitVec.getLsbD_and, BitVec.getLsbD_setWidth, BitVec.getLsbD_allOnes, Bool.and_comm]
  by_cases low : i < 10
  · simp [low, show i < 32 by omega]
  · simp [low]

theorem field_read {word : BitVec 32} {v : Coord} (field : ∀ i < 10, word.getLsbD i = v.getLsbD i) :
    (word &&& 0x3ff).toNat = v.toNat := by
  have same : word &&& 0x3ff = v.setWidth 32 := by
    refine BitVec.eq_of_getLsbD_eq fun i inside => ?_
    rw [ten_bits, BitVec.getLsbD_setWidth]
    by_cases low : i < 10
    · rw [field i low, decide_eq_true low, decide_eq_true inside]
    · simp [low, BitVec.getLsbD_of_ge v i (by omega)]
  rw [same, BitVec.toNat_setWidth]
  omega

theorem pointer_x (c : Cursor) : ((mousePosExport c >>> 10) &&& 0x3ff).toNat = c.curX.toNat := by
  refine field_read fun i low => ?_
  rw [BitVec.getLsbD_ushiftRight, mousePosExport, BitVec.getLsbD_append, if_neg (by omega),
    BitVec.getLsbD_append, if_pos (by omega)]
  congr 1
  omega

theorem pointer_y (c : Cursor) : (mousePosExport c &&& 0x3ff).toNat = c.curY.toNat := by
  refine field_read fun i low => ?_
  rw [mousePosExport, BitVec.getLsbD_append, if_pos low]

/-- The static variable takes over what the key is. -/
theorem space_after (pos : BitVec 32) (h : Holding) (before : Space) :
    (mousePos pos (keyboardKeys h) before).2 = if h .space then 1 else 0 := by
  simp only [mousePos, space_key]
  cases h .space
  all_goals
    simp only [if_true, Bool.false_eq_true, if_false]
    split
    · rfl
    · bv_omega

theorem event_code (pos : BitVec 32) (h : Holding) (before : Space) :
    (mousePos pos (keyboardKeys h) before).1.event =
      if h .space then 1 else if before = 1 then 2 else 0 := by
  have after := space_after pos h before
  simp only [mousePos, space_key] at after ⊢
  rw [after]
  cases h .space <;> simp

/-- A call reports the position of the pointer; the bar that is down, at every call; and a bar that
has been let go since the call before. -/
theorem event_eq (samples : Nat → Sample) (n : Nat) : events samples n =
    ⟨if (samples n).holding .space then 1
      else if n ≠ 0 ∧ (samples (n - 1)).holding .space then 2 else 0,
      (samples n).cursor.curX.toNat, (samples n).cursor.curY.toNat⟩ := by
  have code := event_code (mousePosExport (samples n).cursor) (samples n).holding (space samples n)
  have before : space samples n = 1 ↔ n ≠ 0 ∧ (samples (n - 1)).holding .space = true := by
    cases n with
    | zero => simp [space]
    | succ n =>
        change _ ↔ n + 1 ≠ 0 ∧ (samples n).holding .space = true
        rw [space, space_after]
        cases (samples n).holding .space <;> simp
  simp only [before] at code
  rw [← code, ← pointer_x, ← pointer_y]
  rfl

/-! The space bar held over an icon. -/
def Clicking (s : Sample) (i : Icon) : Prop :=
  s.holding .space = true ∧ i.rect.hit (s.cursor.curX.toNat, s.cursor.curY.toNat)

/-- The tests of no two icons overlap, their additional lines included. -/
theorem hits_apart : ∀ i ∈ icons, ∀ j ∈ icons, i ≠ j →
    (i.rect.x + i.rect.w < j.rect.x ∨ j.rect.x + j.rect.w < i.rect.x) ∨
      i.rect.y + i.rect.h < j.rect.y ∨ j.rect.y + j.rect.h < i.rect.y := by
  decide

theorem hit_once {i j : Icon} {p : Pixel} (first : i.rect.hit p) (second : j.rect.hit p) : i = j := by
  by_contra other
  have member (k : Icon) : k ∈ icons := by cases k <;> decide
  have apart := hits_apart i (member i) j (member j) other
  simp only [Rect.hit, ge_iff_le, Bool.and_eq_true, decide_eq_true_eq] at first second
  omega

theorem clicking_target {samples : Nat → Sample} {n : Nat} {i : Icon} (clicking : Clicking (samples n) i) :
    (events samples n).on Icon.rect icons = some i := by
  obtain ⟨held, hit⟩ := clicking
  have member : i ∈ icons := by cases i <;> decide
  rw [event_eq, Event.on, held, if_pos rfl]
  generalize ((samples n).cursor.curX.toNat : Int) = x at *
  generalize ((samples n).cursor.curY.toNat : Int) = y at *
  cases found : icons.find? fun a => a.rect.hit (x, y) with
  | none => exact absurd hit (List.find?_eq_none.mp found i member)
  | some j =>
      have also : j.rect.hit (x, y) = true := @List.find?_some _ (fun a : Icon => a.rect.hit (x, y)) _ _ found
      rw [hit_once hit also]
      rfl

section Seek
variable {images : Images} {samples : Nat → Sample}

theorem group_freq (handler : Button → Panel → Panel)
    (keeps : ∀ b s, (handler b s).freqReader = s.freqReader) (target : Option Button) (s : Panel) :
    (handle handler target s).freqReader = s.freqReader := by
  cases target with
  | none => rfl
  | some b => exact keeps b s

/-- The frequency after a number of turns of the loop with the bar held. -/
def sought (i : Icon) (n : Nat) (freq : Int) : Int :=
  match i with
  | .ford => min (freq + n * freqReaderIncrement) freqReaderMax
  | .back => max (freq - n * freqReaderIncrement) freqReaderIncrement
  | .play | .stop | .pause => freq

theorem task2_freq {e : Event} {i : Icon} (clicked : e.on Icon.rect icons = some i) (s : Panel) :
    (task2 images e s).freqReader = sought i 1 s.freqReader := by
  have kept : (handle (signalHandler images) (e.on Button.rect signalButtons)
      (handle (modulationHandler images) (e.on Button.rect modulationButtons) s)).freqReader =
      s.freqReader := by
    rw [group_freq (signalHandler images) fun _ _ => rfl,
      group_freq (modulationHandler images) fun _ _ => rfl]
  rw [task2, clicked, ← kept]
  cases i with
  | play | stop | pause => rfl
  | back =>
      change (iconHandler images .back _).freqReader = _
      rw [back_freq]
      simp [sought]
  | ford =>
      change (iconHandler images .ford _).freqReader = _
      rw [ford_freq]
      simp [sought]

/-- The bar held over an icon repeats its click at every turn of the loop, to the end of the range
for the two icons that change the frequency. -/
theorem held_bar_repeats (images : Images) {samples : Nat → Sample} {i : Icon} (m n : Nat)
    (held : ∀ k < n, Clicking (samples (m + k)) i) :
    (run images (events samples) (m + n)).freqReader =
      sought i n (run images (events samples) m).freqReader := by
  induction n with
  | zero =>
      have tuned := @run_tuned images (events samples) m
      have lower := tuned.lower
      have upper := tuned.upper
      cases i <;> simp [sought, lower, upper]
  | succ n ih =>
      have before := ih fun k inside => held k (by omega)
      change (task2 images (events samples (m + n)) (run images (events samples) (m + n))).freqReader = _
      rw [task2_freq (clicking_target (held n (by omega))), before]
      have range : freqReaderIncrement = 100 ∧ freqReaderMax = 88000 := by decide
      cases i with
      | play | stop | pause => rfl
      | back | ford =>
          simp only [sought, range.1, range.2]
          omega

/-- Two turns of the loop with the bar held over the icon `ford`. -/
theorem bar_over_ford :
    (run solid (events fun _ => ⟨⟨520, 180, 0⟩, fun _ => true⟩) 2).freqReader = 44200 :=
  @held_bar_repeats solid (fun _ => ⟨⟨520, 180, 0⟩, fun _ => true⟩) .ford 0 2
    fun _ _ => ⟨rfl, by decide⟩

end Seek

end Cpen311.Pointer
