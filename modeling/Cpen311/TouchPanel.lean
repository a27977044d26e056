import Cpen311.Canvas
import Cpen311.ClockedRun

/-! The touch panel of lab5 (`task2`, `init_background` and `main` of `hello_ucosii.c`): eight
buttons that select the modulation and the signal, and five icons that control the player. -/
namespace Cpen311.TouchPanel
open Canvas ClockedRun

inductive Button
  | ask | fsk | bpsk | lfsr | sine | cos | saw | square
  deriving DecidableEq

inductive Icon
  | play | stop | pause | back | ford
  deriving DecidableEq

inductive Widget
  | button (b : Button)
  | icon (i : Icon)
  deriving DecidableEq

structure Rect where
  x : Int
  y : Int
  w : Int
  h : Int

abbrev Pixel := Int × Int

def Button.rect : Button → Rect
  | .ask => ⟨667, 252, 120, 35⟩
  | .fsk => ⟨667, 289, 120, 35⟩
  | .bpsk => ⟨667, 326, 120, 35⟩
  | .lfsr => ⟨667, 365, 120, 35⟩
  | .sine => ⟨667, 426, 120, 35⟩
  | .cos => ⟨667, 470, 120, 35⟩
  | .saw => ⟨667, 512, 120, 35⟩
  | .square => ⟨667, 554, 120, 35⟩

/-- The corner at which an icon is displayed and the size of its two pictures. -/
def Icon.rect : Icon → Rect
  | .play => ⟨296, 45, 94, 109⟩
  | .stop => ⟨404, 45, 98, 111⟩
  | .pause => ⟨523, 45, 108, 112⟩
  | .back => ⟨333, 177, 61, 57⟩
  | .ford => ⟨512, 177, 61, 57⟩

def Widget.rect : Widget → Rect
  | .button b => b.rect
  | .icon i => i.rect

def Rect.covers (r : Rect) (p : Pixel) : Bool :=
  r.x ≤ p.1 && p.1 < r.x + r.w && r.y ≤ p.2 && p.2 < r.y + r.h

/-- The test of a click, which takes in the lines behind the last row and column. -/
def Rect.hit (r : Rect) (p : Pixel) : Bool :=
  p.1 ≥ r.x && p.1 ≤ r.x + r.w && p.2 ≥ r.y && p.2 ≤ r.y + r.h

/-- The pictures of the icons, up and down: `DispIMAGE_from_gimp` does not copy black pixels. -/
structure Images where
  copies : Icon → Bool → Int → Int → Bool
  shared : ∀ i, ∃ x y, (0 ≤ x ∧ x < i.rect.w ∧ 0 ≤ y ∧ y < i.rect.h) ∧
    ∀ down, copies i down x y

/-- The buttons of each group, in the order of drawing and of the values of its selector. -/
def modulationButtons : List Button := [.ask, .fsk, .bpsk, .lfsr]

def signalButtons : List Button := [.sine, .cos, .saw, .square]

/-- The icons in the order of drawing and of the tests of a click. -/
def icons : List Icon := [.play, .stop, .pause, .back, .ford]

def widgets : List Widget :=
  (modulationButtons ++ signalButtons).map .button ++ icons.map .icon

def Rect.Separate (r s : Rect) : Prop :=
  r.x + r.w ≤ s.x ∨ s.x + s.w ≤ r.x ∨ r.y + r.h ≤ s.y ∨ s.y + s.h ≤ r.y

instance (r s : Rect) : Decidable (r.Separate s) := inferInstanceAs (Decidable (_ ∨ _))

theorem mem_widgets (a : Widget) : a ∈ widgets := by
  rcases a with b | i
  · cases b <;> decide
  · cases i <;> decide

theorem widgets_separate :
    ∀ a ∈ widgets, ∀ b ∈ widgets, a ≠ b → a.rect.Separate b.rect := by
  decide

theorem rect_covers_iff (r : Rect) (p : Pixel) :
    r.covers p ↔ (r.x ≤ p.1 ∧ p.1 < r.x + r.w) ∧ r.y ≤ p.2 ∧ p.2 < r.y + r.h := by
  simp [Rect.covers, and_assoc]

theorem not_both_covered {r s : Rect} (separate : r.Separate s) {p : Pixel}
    (first : r.covers p) (second : s.covers p) : False := by
  rw [rect_covers_iff] at first second
  unfold Rect.Separate at separate
  omega

section Images
variable (images : Images)

/-- The pixels that are written when a button is drawn or a picture is displayed. -/
def Widget.covers : Widget → Bool → Pixel → Bool
  | .button b, _, p => b.rect.covers p
  | .icon i, down, p => i.rect.covers p && images.copies i down (p.1 - i.rect.x) (p.2 - i.rect.y)

variable {images}

theorem covers_rect {a : Widget} {on : Bool} {p : Pixel} (covered : a.covers images on p) :
    a.rect.covers p := by
  rcases a with b | i
  · exact covered
  · exact (Bool.and_eq_true_iff.mp covered).1

theorem covers_apart {a b : Widget} {f g : Bool} {p : Pixel} (first : a.covers images f p)
    (second : b.covers images g p) : a = b := by
  by_contra distinct
  have separate := widgets_separate a (mem_widgets a) b (mem_widgets b) distinct
  exact not_both_covered separate (covers_rect first) (covers_rect second)

theorem covers_shared (a : Widget) (f g : Bool) :
    ∃ p, a.covers images f p ∧ a.covers images g p := by
  rcases a with b | i
  · have corner : b.rect.covers (b.rect.x, b.rect.y) := by cases b <;> decide
    exact ⟨_, corner, corner⟩
  · obtain ⟨x, y, inside, copied⟩ := images.shared i
    have covered (down : Bool) :
        (Widget.icon i).covers images down (i.rect.x + x, i.rect.y + y) := by
      have offset (corner distance : Int) : corner + distance - corner = distance := by omega
      rw [Widget.covers, Bool.and_eq_true_iff, rect_covers_iff, offset, offset]
      exact ⟨by omega, copied down⟩
    exact ⟨_, covered f, covered g⟩

end Images

section Panel
variable (images : Images)

/-- The second face of a widget is a highlighted button or the `down` picture of an icon. -/
def layout : Layout Pixel Widget Bool where
  covers a on p := a.covers images on p
  apart := covers_apart
  shared := covers_shared

structure Panel where
  frame : Painting Pixel Widget Bool
  modulationSelector : BitVec 8
  signalSelector : BitVec 8
  playSong : BitVec 8
  pauseSong : BitVec 8
  stopSong : BitVec 8
  freqReader : Int
  audioDataFregen : Int

def selectModulation (modulator : BitVec 8) (s : Panel) : Panel :=
  { s with modulationSelector := modulator }

def selectSignal (signal : BitVec 8) (s : Panel) : Panel := { s with signalSelector := signal }

def setAudioFrequencyAudioController (freq : Int) (s : Panel) : Panel :=
  { s with audioDataFregen := Int.tdiv 50000000 (2 * freq) - 1 }

def freqReaderIncrement : Int := 100

def freqReaderNominal : Int := 44000

def freqReaderMax : Int := 2 * freqReaderNominal

/-- The calls of `draw_button` for a group, with one button highlighted. -/
def drawButtons (group : List Button) (highlighted : Button) (s : Panel) : Panel :=
  { s with
    frame := redraw (layout images) (· == .button highlighted) (group.map .button) s.frame }

/-- The calls of `DispIMAGE_from_gimp` for all icons, with at most one `down` picture. -/
def dispImages (down : Option Icon) (s : Panel) : Panel :=
  { s with
    frame := redraw (layout images) (fun a => down.map .icon == some a) (icons.map .icon) s.frame }

def initBackground (s : Panel) : Panel :=
  drawButtons images signalButtons .square <| drawButtons images modulationButtons .ask <|
    dispImages images none { s with frame := fun _ => none }

/-- The value that the handler of a button writes to its selector. -/
def Button.value : Button → BitVec 8
  | .ask => 0
  | .fsk => 1
  | .bpsk => 2
  | .lfsr => 3
  | .sine => 0
  | .cos => 1
  | .saw => 2
  | .square => 3

/-- The globals as they are loaded; what the screen and the registers hold then is overwritten. -/
def loaded : Panel where
  frame := fun _ => none
  modulationSelector := 0
  signalSelector := 0
  playSong := 0
  pauseSong := 0
  stopSong := 0
  freqReader := freqReaderNominal
  audioDataFregen := 0

/-- The state in which `task2` starts: `task1`, of higher priority, has set the frequency. -/
def main : Panel :=
  let s := selectSignal 3 (selectModulation 0 (initBackground images loaded))
  setAudioFrequencyAudioController s.freqReader s

def modulationHandler (b : Button) (s : Panel) : Panel :=
  selectModulation b.value (drawButtons images modulationButtons b s)

def signalHandler (b : Button) (s : Panel) : Panel :=
  selectSignal b.value (drawButtons images signalButtons b s)

def iconHandler (i : Icon) (s : Panel) : Panel :=
  let s := dispImages images (some i) s
  match i with
  | .play => { s with playSong := 1, pauseSong := 0, stopSong := 0 }
  | .stop => { s with playSong := 0, pauseSong := 0, stopSong := 1 }
  | .pause => { s with playSong := 0, pauseSong := 1, stopSong := 0 }
  | .back =>
      let freq := s.freqReader - freqReaderIncrement
      let freq := if freq < freqReaderIncrement then freqReaderIncrement else freq
      setAudioFrequencyAudioController freq { s with freqReader := freq }
  | .ford =>
      let freq := s.freqReader + freqReaderIncrement
      let freq := if freq > freqReaderMax then freqReaderMax else freq
      setAudioFrequencyAudioController freq { s with freqReader := freq }

/-- The result of `mouse_pos`. -/
structure Event where
  event : BitVec 8
  x : Int
  y : Int

/-- The first widget whose test the coordinates of a down event pass, as in the chain of
`else if` of each group. -/
def Event.on {α : Type} (e : Event) (rect : α → Rect) (group : List α) : Option α :=
  if e.event = 1 then group.find? fun a => (rect a).hit (e.x, e.y) else none

def handle {α : Type} (handler : α → Panel → Panel) (target : Option α) (s : Panel) : Panel :=
  match target with
  | some a => handler a s
  | none => s

/-- One iteration of the loop of `task2`. -/
def task2 (e : Event) (s : Panel) : Panel :=
  handle (iconHandler images) (e.on Icon.rect icons) <|
    handle (signalHandler images) (e.on Button.rect signalButtons) <|
      handle (modulationHandler images) (e.on Button.rect modulationButtons) s

def run (events : Nat → Event) (n : Nat) : Panel := drive (task2 images) events (main images) n

def Highlighted (s : Panel) (b : Button) : Prop := Shows (layout images) s.frame (.button b) true

def Pressed (s : Panel) (i : Icon) : Prop := Shows (layout images) s.frame (.icon i) true

/-- Exactly one button of the group is highlighted, and its value is in the selector. -/
def Selected (s : Panel) (group : List Button) (selector : BitVec 8) : Prop :=
  ∃ b ∈ group, selector = b.value ∧ ∀ a ∈ group, Highlighted images s a ↔ a = b

structure Truthful (s : Panel) : Prop where
  modulation : Selected images s modulationButtons s.modulationSelector
  signal : Selected images s signalButtons s.signalSelector
  oneFlag : ¬ (s.playSong = 1 ∧ s.stopSong = 1) ∧ ¬ (s.playSong = 1 ∧ s.pauseSong = 1) ∧
    ¬ (s.stopSong = 1 ∧ s.pauseSong = 1)
  play : Pressed images s .play ↔ s.playSong = 1
  stop : Pressed images s .stop ↔ s.stopSong = 1
  pause : Pressed images s .pause ↔ s.pauseSong = 1

/-- The frequency is in its range, and the divider of the audio clock is that of it. -/
structure Tuned (s : Panel) : Prop where
  lower : freqReaderIncrement ≤ s.freqReader
  upper : s.freqReader ≤ freqReaderMax
  divider : s.audioDataFregen = Int.tdiv 50000000 (2 * s.freqReader) - 1

end Panel

/-! What the player is told and what it shows, apart from the pixels: the icon whose flag is
set, and the icon whose `down` picture is displayed. -/

def Icon.hasFlag : Icon → Bool
  | .play | .stop | .pause => true
  | .back | .ford => false

structure Player where
  flagged : Option Icon
  down : Option Icon

def Player.click (target : Option Icon) (p : Player) : Player :=
  match target with
  | some i => { flagged := if i.hasFlag then some i else p.flagged, down := some i }
  | none => p

/-- Only icons that have a flag can have it set. -/
def Player.Sound (p : Player) : Prop := ∀ i : Icon, p.flagged = some i → i.hasFlag

def Player.Honest (p : Player) : Prop :=
  ∀ i : Icon, i.hasFlag → (p.down = some i ↔ p.flagged = some i)

theorem flagged_click {p : Player} {i : Icon} (has : i.hasFlag) :
    (p.click (some i)).flagged = some i := by
  simp [Player.click, has]

theorem flagged_other {p : Player} {i : Icon} (hasNot : i.hasFlag = false) :
    (p.click (some i)).flagged = p.flagged := by
  simp [Player.click, hasNot]

theorem sound_click {p : Player} (sound : p.Sound) (target : Option Icon) :
    (p.click target).Sound := by
  cases target with
  | none => exact sound
  | some i =>
      intro j flagged
      cases has : i.hasFlag with
      | true =>
          rw [flagged_click has] at flagged
          cases flagged
          exact has
      | false =>
          rw [flagged_other has] at flagged
          exact sound j flagged

theorem flagged_none_click (p : Player) (target : Option Icon) :
    (p.click target).flagged = none ↔
      p.flagged = none ∧ ∀ i, target = some i → i.hasFlag = false := by
  cases target with
  | none => simp [Player.click]
  | some i => cases has : i.hasFlag <;> simp [Player.click, has]

theorem honest_click {p : Player} {i : Icon} (has : i.hasFlag) : (p.click (some i)).Honest := by
  intro j _
  rw [flagged_click has, Player.click]

/-- Any other icon takes the place of the one that is down. -/
theorem honest_click_iff {p : Player} {i : Icon} (sound : p.Sound) (hasNot : i.hasFlag = false) :
    (p.click (some i)).Honest ↔ p.flagged = none := by
  constructor
  · intro honest
    cases flagged : p.flagged with
    | none => rfl
    | some j =>
        have has := sound j flagged
        have same := (honest j has).mpr ((flagged_other hasNot).trans flagged)
        cases same
        rw [hasNot] at has
        contradiction
  · intro none j has
    rw [flagged_other hasNot, none]
    constructor
    · intro same
      cases same
      rw [hasNot] at has
      contradiction
    · nofun

section Player
variable (targets : Nat → Option Icon)

def player (n : Nat) : Player := drive Player.click targets ⟨none, none⟩ n

variable {targets}

theorem player_succ (n : Nat) :
    player targets (n + 1) = (player targets n).click (targets n) := rfl

theorem player_sound (n : Nat) : (player targets n).Sound := by
  induction n with
  | zero => exact fun _ => nofun
  | succ n ih => exact sound_click ih (targets n)

/-- No flag is set until the icon of one is clicked, and then one is for good. -/
theorem flagged_none_iff (n : Nat) :
    (player targets n).flagged = none ↔ ∀ m < n, ∀ i, targets m = some i → i.hasFlag = false := by
  induction n with
  | zero => exact ⟨fun _ => nofun, fun _ => rfl⟩
  | succ n ih => rw [player_succ, flagged_none_click, ih, Nat.forall_lt_succ_right]

theorem honest_until_iff (n : Nat) :
    (∀ m ≤ n, (player targets m).Honest) ↔
      ∀ m < n, ∀ i, targets m = some i → i.hasFlag = false → (player targets m).flagged = none := by
  constructor
  · intro honest m before i clicked hasNot
    have after := honest (m + 1) before
    rw [player_succ, clicked] at after
    exact (honest_click_iff (player_sound m) hasNot).mp after
  · intro unflagged m within
    induction m with
    | zero => exact fun _ _ => Iff.rfl
    | succ m ih =>
        rw [player_succ]
        cases clicked : targets m with
        | none => exact ih (Nat.le_of_succ_le within)
        | some i =>
            cases has : i.hasFlag with
            | true => exact honest_click has
            | false =>
                have none := unflagged m within i clicked has
                exact (honest_click_iff (player_sound m) has).mpr none

end Player

section Drawn
variable {images : Images}

theorem highlighted_drawn (group : List Button) (b a : Button) (s : Panel) :
    Highlighted images (drawButtons images group b s) a ↔
      if a ∈ group then a = b else Highlighted images s a := by
  have drawn : Widget.button a ∈ group.map Widget.button ↔ a ∈ group := by simp
  rw [Highlighted, drawButtons, shows_redraw]
  simp only [drawn]
  split
  · rw [eq_comm, beq_iff_eq, Widget.button.injEq]
  · rfl

theorem pressed_drawn (group : List Button) (b : Button) (i : Icon) (s : Panel) :
    Pressed images (drawButtons images group b s) i ↔ Pressed images s i := by
  rw [Pressed, drawButtons, shows_redraw, if_neg (by simp)]
  rfl

theorem pressed_displayed (down : Option Icon) (i : Icon) (s : Panel) :
    Pressed images (dispImages images down s) i ↔ down = some i := by
  have displayed : Widget.icon i ∈ icons.map Widget.icon := by cases i <;> decide
  rw [Pressed, dispImages, shows_redraw, if_pos displayed, eq_comm, beq_iff_eq]
  cases down <;> simp

theorem highlighted_displayed (down : Option Icon) (a : Button) (s : Panel) :
    Highlighted images (dispImages images down s) a ↔ Highlighted images s a := by
  rw [Highlighted, dispImages, shows_redraw, if_neg (by simp)]
  rfl

theorem selected_congr {s s' : Panel} {group : List Button} (selector : BitVec 8)
    (same : ∀ a ∈ group, Highlighted images s' a ↔ Highlighted images s a) :
    Selected images s' group selector ↔ Selected images s group selector := by
  unfold Selected
  refine exists_congr fun b => and_congr_right fun _ => and_congr_right fun _ => ?_
  exact forall₂_congr fun a member => by rw [same a member]

theorem selected_drawn {group : List Button} {b : Button} (member : b ∈ group) (s : Panel) :
    Selected images (drawButtons images group b s) group b.value := by
  refine ⟨b, member, rfl, fun a inside => ?_⟩
  rw [highlighted_drawn, if_pos inside]

theorem selected_other {group other : List Button} (apart : ∀ a ∈ other, a ∉ group) (b : Button)
    (s : Panel) (selector : BitVec 8) :
    Selected images (drawButtons images group b s) other selector ↔
      Selected images s other selector := by
  apply selected_congr
  intro a inside
  rw [highlighted_drawn, if_neg (apart a inside)]

end Drawn

section Simulation
variable (images : Images)

def Player.flag (p : Player) (i : Icon) : BitVec 8 := if p.flagged = some i then 1 else 0

/-- A panel whose buttons are right, and whose flags and icons are those of the player. -/
structure Displays (p : Player) (s : Panel) : Prop where
  modulation : Selected images s modulationButtons s.modulationSelector
  signal : Selected images s signalButtons s.signalSelector
  play : s.playSong = p.flag .play
  stop : s.stopSong = p.flag .stop
  pause : s.pauseSong = p.flag .pause
  down : ∀ i, Pressed images s i ↔ p.down = some i

variable {images}

theorem flag_one_iff (p : Player) (i : Icon) : p.flag i = 1 ↔ p.flagged = some i := by
  unfold Player.flag
  split <;> simp_all

theorem truthful_iff_honest {p : Player} {s : Panel} (displays : Displays images p s) :
    Truthful images s ↔ p.Honest := by
  have play := (displays.play ▸ flag_one_iff p .play : s.playSong = 1 ↔ _)
  have stop := (displays.stop ▸ flag_one_iff p .stop : s.stopSong = 1 ↔ _)
  have pause := (displays.pause ▸ flag_one_iff p .pause : s.pauseSong = 1 ↔ _)
  constructor
  · intro truthful i has
    cases i with
    | play => rw [← displays.down, truthful.play, play]
    | stop => rw [← displays.down, truthful.stop, stop]
    | pause => rw [← displays.down, truthful.pause, pause]
    | back => contradiction
    | ford => contradiction
  · intro honest
    constructor
    case modulation => exact displays.modulation
    case signal => exact displays.signal
    case oneFlag => rw [play, stop, pause]; simp_all
    case play => rw [displays.down, play, honest .play rfl]
    case stop => rw [displays.down, stop, honest .stop rfl]
    case pause => rw [displays.down, pause, honest .pause rfl]

theorem modulation_displays {p : Player} {s : Panel} {b : Button} (member : b ∈ modulationButtons)
    (displays : Displays images p s) : Displays images p (modulationHandler images b s) := by
  constructor
  case modulation => exact selected_drawn member s
  case signal => exact (selected_other (by decide) b s _).mpr displays.signal
  case down => exact fun i => (pressed_drawn modulationButtons b i s).trans (displays.down i)
  case play => exact displays.play
  case stop => exact displays.stop
  case pause => exact displays.pause

theorem signal_displays {p : Player} {s : Panel} {b : Button} (member : b ∈ signalButtons)
    (displays : Displays images p s) : Displays images p (signalHandler images b s) := by
  constructor
  case modulation => exact (selected_other (by decide) b s _).mpr displays.modulation
  case signal => exact selected_drawn member s
  case down => exact fun i => (pressed_drawn signalButtons b i s).trans (displays.down i)
  case play => exact displays.play
  case stop => exact displays.stop
  case pause => exact displays.pause

theorem icon_frame (i : Icon) (s : Panel) :
    (iconHandler images i s).frame = (dispImages images (some i) s).frame := by
  cases i <;> rfl

theorem icon_selected (i : Icon) (s : Panel) (group : List Button) (selector : BitVec 8) :
    Selected images (iconHandler images i s) group selector ↔ Selected images s group selector := by
  apply selected_congr
  intro a _
  rw [Highlighted, icon_frame]
  exact highlighted_displayed (some i) a s

theorem icon_displays {p : Player} {s : Panel} (i : Icon) (displays : Displays images p s) :
    Displays images (p.click (some i)) (iconHandler images i s) := by
  constructor
  case modulation =>
    rw [icon_selected]
    cases i <;> exact displays.modulation
  case signal =>
    rw [icon_selected]
    cases i <;> exact displays.signal
  case play => cases i <;> first | rfl | exact displays.play
  case stop => cases i <;> first | rfl | exact displays.stop
  case pause => cases i <;> first | rfl | exact displays.pause
  case down =>
    intro j
    rw [Pressed, icon_frame]
    exact pressed_displayed (some i) j s

theorem on_member {α : Type} {e : Event} {rect : α → Rect} {group : List α} {a : α}
    (hit : e.on rect group = some a) : a ∈ group := by
  unfold Event.on at hit
  split at hit
  · exact List.mem_of_find?_eq_some hit
  · contradiction

/-- The icon of the player that an event clicks. -/
def Event.target (e : Event) : Option Icon := e.on Icon.rect icons

theorem handle_keeps {α : Type} {P : Panel → Prop} {handler : α → Panel → Panel} {s : Panel}
    (target : Option α) (keeps : ∀ a, target = some a → P (handler a s)) (holds : P s) :
    P (handle handler target s) := by
  cases target with
  | none => exact holds
  | some a => exact keeps a rfl

/-- One iteration of the loop does to the panel what a click does to the player. -/
theorem task2_displays {p : Player} {s : Panel} (e : Event) (displays : Displays images p s) :
    Displays images (p.click e.target) (task2 images e s) := by
  have modulation := handle_keeps (e.on Button.rect modulationButtons)
    (fun _ hit => modulation_displays (on_member hit) displays) displays
  have signal := handle_keeps (e.on Button.rect signalButtons)
    (fun _ hit => signal_displays (on_member hit) modulation) modulation
  rw [task2, Event.target]
  cases e.on Icon.rect icons with
  | none => exact signal
  | some i => exact icon_displays i signal

theorem main_displays : Displays images ⟨none, none⟩ (main images) := by
  have ask : Button.ask ∈ modulationButtons := by decide
  have square : Button.square ∈ signalButtons := by decide
  constructor
  case modulation => exact (selected_other (by decide) .square _ _).mpr (selected_drawn ask _)
  case signal => exact selected_drawn square _
  case play => rfl
  case stop => rfl
  case pause => rfl
  case down =>
    intro i
    apply (pressed_drawn signalButtons .square i _).trans
    apply (pressed_drawn modulationButtons .ask i _).trans
    exact pressed_displayed none i _

theorem run_displays (events : Nat → Event) (n : Nat) :
    Displays images (player (fun m => (events m).target) n) (run images events n) := by
  induction n with
  | zero => exact main_displays
  | succ n ih => exact task2_displays (events n) ih

theorem back_freq (s : Panel) : (iconHandler images .back s).freqReader =
    max (s.freqReader - freqReaderIncrement) freqReaderIncrement := by
  change (if s.freqReader - freqReaderIncrement < freqReaderIncrement then freqReaderIncrement
    else s.freqReader - freqReaderIncrement) = _
  split <;> omega

theorem ford_freq (s : Panel) : (iconHandler images .ford s).freqReader =
    min (s.freqReader + freqReaderIncrement) freqReaderMax := by
  change (if s.freqReader + freqReaderIncrement > freqReaderMax then freqReaderMax
    else s.freqReader + freqReaderIncrement) = _
  split <;> omega

theorem modulation_tuned {s : Panel} (tuned : Tuned s) (b : Button) :
    Tuned (modulationHandler images b s) :=
  ⟨tuned.lower, tuned.upper, tuned.divider⟩

theorem signal_tuned {s : Panel} (tuned : Tuned s) (b : Button) :
    Tuned (signalHandler images b s) :=
  ⟨tuned.lower, tuned.upper, tuned.divider⟩

theorem icon_tuned {s : Panel} (tuned : Tuned s) (i : Icon) : Tuned (iconHandler images i s) := by
  obtain ⟨lower, upper, divider⟩ := tuned
  have range : freqReaderIncrement = 100 ∧ freqReaderMax = 88000 := by decide
  cases i with
  | play | stop | pause => exact ⟨lower, upper, divider⟩
  | back =>
      constructor
      case divider => rfl
      all_goals
        rw [back_freq]
        omega
  | ford =>
      constructor
      case divider => rfl
      all_goals
        rw [ford_freq]
        omega

theorem task2_tuned {s : Panel} (e : Event) (tuned : Tuned s) : Tuned (task2 images e s) := by
  have modulation := handle_keeps (e.on Button.rect modulationButtons)
    (fun b _ => @modulation_tuned images _ tuned b) tuned
  have signal := handle_keeps (e.on Button.rect signalButtons)
    (fun b _ => @signal_tuned images _ modulation b) modulation
  exact handle_keeps (e.on Icon.rect icons) (fun i _ => icon_tuned signal i) signal

theorem run_tuned (events : Nat → Event) (n : Nat) : Tuned (run images events n) := by
  induction n with
  | zero =>
      have range : freqReaderIncrement ≤ freqReaderNominal ∧ freqReaderNominal ≤ freqReaderMax := by
        decide
      exact ⟨range.1, range.2, rfl⟩
  | succ n ih =>
      exact task2_tuned (events n) ih

end Simulation

/-- The event clicks the play, stop or pause icon. -/
def ClicksFlag (e : Event) : Prop := ∃ i, e.target = some i ∧ i.hasFlag

/-- The event clicks the back or forward icon. -/
def ClicksSeek (e : Event) : Prop := ∃ i, e.target = some i ∧ i.hasFlag = false

/-- For every sequence of events: the panel has been right all along exactly if no click of
the back or forward icon has come after a click of the play, stop or pause icon. -/
theorem truthful_until_iff (images : Images) (events : Nat → Event) (n : Nat) :
    (∀ m ≤ n, Truthful images (run images events m)) ↔
      ∀ l m, l < m → m < n → ClicksFlag (events l) → ¬ ClicksSeek (events m) := by
  have honest (m : Nat) := truthful_iff_honest (@run_displays images events m)
  simp only [honest, honest_until_iff, flagged_none_iff]
  constructor
  · rintro unflagged l m before inside ⟨i, clicked, has⟩ ⟨j, sought, hasNot⟩
    have never := unflagged m inside j sought hasNot l before i clicked
    rw [never] at has
    contradiction
  · intro apart m inside j sought hasNot l before i clicked
    rw [Bool.eq_false_iff]
    intro has
    exact apart l m before inside ⟨i, clicked, has⟩ ⟨j, sought, hasNot⟩

/-- Pictures without black pixels. -/
def solid : Images where
  copies _ _ _ _ := true
  shared i := ⟨0, 0, by cases i <;> decide, fun _ => rfl⟩

def playThenBack (n : Nat) : Event := if n = 0 then ⟨1, 300, 50⟩ else ⟨1, 340, 180⟩

theorem playing_drawn_up :
    (run solid playThenBack 2).playSong = 1 ∧ ¬ Pressed solid (run solid playThenBack 2) .play ∧
      ¬ Truthful solid (run solid playThenBack 2) := by
  have displays := @run_displays solid playThenBack 2
  have playing : (run solid playThenBack 2).playSong = 1 := displays.play
  have up : ¬ Pressed solid (run solid playThenBack 2) .play := by
    rw [displays.down]
    decide
  exact ⟨playing, up, fun truthful => up (truthful.play.mpr playing)⟩

end Cpen311.TouchPanel
