import Cpen311.SimpleText
import Cpen311.TouchPanel

/-! The touch panel in the frame buffer: what `hello_ucosii.c` draws, word by word, refines the
painting that the panel keeps. The fourth byte of a word is not displayed, and the characters of a
text leave it undetermined, so colours are compared without it. -/
namespace Cpen311.TouchScreen
open Canvas FrameBuffer GimpImages Patches SimpleText TouchPanel

/-- Both frames are the same one; `base` is the word address of `FR_FRAME_0`. -/
def swFrame (base : Int) : Display := vipfrActiveDrawFrame (vipfrInit base base 800 600)

/-- The pictures up and down of each icon. -/
structure Pictures where
  image : Icon → Bool → GimpImage
  plain : ∀ i down, (image i down).Plain
  width : ∀ i down, ((image i down).width : Int) = i.rect.w
  height : ∀ i down, ((image i down).height : Int) = i.rect.h
  shared : ∀ i, ∃ row column : Nat, ((row : Int) < i.rect.h ∧ (column : Int) < i.rect.w) ∧
    ∀ down, (image i down).color row column ≠ black24

def Pictures.images (pictures : Pictures) : Images where
  copies i down x y := (pictures.image i down).color y.toNat x.toNat ≠ black24
  shared i := by
    obtain ⟨row, column, inside, shown⟩ := pictures.shared i
    exact ⟨column, row, by omega, fun down => decide_eq_true (shown down)⟩

/-- What uninitialised memory holds when a widget is drawn: the local `new_color` and the result of
`malloc`. Drawing 0 is that of `init_background`. -/
structure Leftovers where
  newColor : Nat → Button → Nat → Word
  fresh : Nat → Icon → Nat → Byte

def Button.color : Button → Word
  | .ask | .fsk | .bpsk | .lfsr => 0x0066CC
  | .sine | .cos | .saw | .square => 0xCC6600

def Button.text (b : Button) : List Nat :=
  let letters : List Char := match b with
    | .ask => ['A', 'S', 'K']
    | .fsk => ['F', 'S', 'K']
    | .bpsk => ['B', 'P', 'S', 'K']
    | .lfsr => ['L', 'F', 'S', 'R']
    | .sine => ['S', 'I', 'N', 'E']
    | .cos => ['C', 'O', 'S']
    | .saw => ['S', 'A', 'W']
    | .square => ['S', 'Q', 'U', 'A', 'R', 'E']
  letters.map Char.toNat

section Screen
variable (base : Int) (pictures : Pictures) (charAlphaMap : Nat → Nat → Byte) (left : Leftovers)

def drawButtonOf (newColor : Nat → Word) (b : Button) (on : Bool) : Memory → Memory :=
  drawButton (swFrame base) (tahomabold20 charAlphaMap) b.rect.x b.rect.y b.rect.w b.rect.h
    (Button.color b) (Button.text b) on newColor

def dispIcon (fresh : Nat → Byte) (i : Icon) (down : Bool) : Memory → Memory :=
  dispImageFromGimp (swFrame base) (pictures.image i down) fresh i.rect.x i.rect.y black24

def drawGroup (n : Nat) (group : List Button) (highlighted : Button) (memory : Memory) : Memory :=
  group.foldl (fun before b =>
    drawButtonOf base charAlphaMap (left.newColor n b) b (b == highlighted) before) memory

def dispIcons (n : Nat) (down : Option Icon) (memory : Memory) : Memory :=
  icons.foldl (fun before i => dispIcon base pictures (left.fresh n i) i (down == some i) before) memory

/-- The ends of the white lines. -/
def lines : List ((Int × Int) × Int × Int) :=
  [((652, 234), 800, 234), ((0, 407), 800, 407), ((0, 598), 800, 598), ((647, 0), 647, 600),
   ((795, 0), 795, 600), ((261, 0), 261, 262), ((261, 262), 647, 262), ((261, 0), 800, 0)]

def drawLines (memory : Memory) : Memory :=
  lines.foldl (fun before l =>
    vidDrawLine (swFrame base) l.1.1 l.1.2 l.2.1 l.2.2 white24 before) memory

def initScreen (memory : Memory) : Memory :=
  drawGroup base charAlphaMap left 0 signalButtons .square <|
    drawGroup base charAlphaMap left 0 modulationButtons .ask <|
      drawLines base <| dispIcons base pictures left 0 none <|
        vidCleanScreen (swFrame base) black24 memory

def redrawn {α : Type} (draw : α → Memory → Memory) (target : Option α) (memory : Memory) : Memory :=
  match target with
  | some a => draw a memory
  | none => memory

/-- What one iteration of the loop of `task2` draws. -/
def refresh (n : Nat) (e : Event) (memory : Memory) : Memory :=
  redrawn (fun i => dispIcons base pictures left n (some i)) (e.on Icon.rect icons) <|
    redrawn (drawGroup base charAlphaMap left n signalButtons) (e.on Button.rect signalButtons) <|
      redrawn (drawGroup base charAlphaMap left n modulationButtons)
        (e.on Button.rect modulationButtons) memory

def screen (events : Nat → Event) (memory : Memory) : Nat → Memory
  | 0 => initScreen base pictures charAlphaMap left memory
  | n + 1 => refresh base pictures charAlphaMap left (n + 1) (events n) (screen events memory n)

end Screen

section Faces
variable (base : Int) (pictures : Pictures) (charAlphaMap : Nat → Nat → Byte)

/-- How a widget looks at a pixel: a button as `draw_button` draws it, an icon as its picture. -/
def face : Widget → Bool → Pixel → BitVec 24
  | .button b, on, p =>
      displayed (drawButtonOf base charAlphaMap (fun _ => 0) b on (fun _ => 0) ((swFrame base).cell p))
  | .icon i, down, p =>
      displayed ((pictures.image i down).color (p.2 - i.rect.y).toNat (p.1 - i.rect.x).toNat)

/-- An operation on the frame buffer that paints a widget and nothing else. -/
structure Paints (op : Memory → Memory) (a : Widget) (f : Bool) : Prop where
  drawn : ∀ memory address, a.covers pictures.images f ((swFrame base).pixel address) →
    displayed (op memory address) = face base pictures charAlphaMap a f ((swFrame base).pixel address)
  kept : ∀ memory address, ¬ a.covers pictures.images f ((swFrame base).pixel address) →
    op memory address = memory address

end Faces

section Widgets
variable {base : Int} {pictures : Pictures} {charAlphaMap : Nat → Nat → Byte}

/-- The part of a button that its text may cover. -/
def Button.textArea (b : Button) (p : Pixel) : Prop :=
  (b.rect.x + 30 ≤ p.1 ∧
    p.1 < b.rect.x + 30 + textWidth (tahomabold20 fun _ _ => 0) (Button.text b)) ∧
  b.rect.y + 4 ≤ p.2 ∧ p.2 < b.rect.y + 30

theorem text_fits (b : Button) : textWidth (tahomabold20 fun _ _ => 0) (Button.text b) ≤ 90 := by
  cases b <;> decide

theorem text_line (b : Button) : 10 ∉ Button.text b := by
  cases b <;> decide

theorem button_size (b : Button) :
    (b.rect.w = 120 ∧ b.rect.h = 35) ∧ 0 ≤ b.rect.x ∧ b.rect.x + 120 ≤ 800 := by
  cases b <;> decide

theorem color_visible (b : Button) (on : Bool) :
    shownColor (Button.color b) on ≠ clearBackground := by
  cases b <;> cases on <;> decide

theorem button_draws (newColor : Nat → Word) (b : Button) (on : Bool) :
    ∃ patch, Draws (swFrame base) (drawButtonOf base charAlphaMap newColor b on) patch ∧
      (∀ p, (patch p).isSome ↔ b.rect.covers p) ∧
      ∀ p, b.rect.covers p → ¬ Button.textArea b p →
        patch p = some (shownColor (Button.color b) on) := by
  obtain ⟨⟨wide, high⟩, left, right⟩ := button_size b
  have fits := text_fits b
  have quarter : b.rect.w.tdiv 4 = 30 := by rw [wide]; rfl
  have eighth : b.rect.h.tdiv 8 = 4 := by rw [high]; rfl
  have screen : (swFrame base).width = 800 := rfl
  -- the widths of the characters are not those of any particular alpha map
  have width : textWidth (tahomabold20 charAlphaMap) (Button.text b) =
      textWidth (tahomabold20 fun _ _ => 0) (Button.text b) := rfl
  obtain ⟨patch, draws, covers, around⟩ := @draw_button_draws (swFrame base)
    (tahomabold20 charAlphaMap) b.rect.x b.rect.y b.rect.w b.rect.h (Button.text b) 26
    (fun _ => le_rfl) left (by omega) (by omega) (by omega) (by omega) (text_line b) (by omega)
    (by omega) (Button.color b) on (color_visible b on) newColor
  refine ⟨patch, draws, fun p => ?_, fun p inside outside => ?_⟩
  · rw [covers, rect_covers_iff]
  · rw [rect_covers_iff] at inside
    refine around p inside fun text => outside ?_
    unfold Button.textArea
    omega

theorem cell_pixel (a : Int) : (swFrame base).cell ((swFrame base).pixel a) = a := by
  have width : (swFrame base).width = 800 := rfl
  have first := Int.emod_nonneg (a - vipfrGetDrawFrame (swFrame base)) (by omega : (swFrame base).width ≠ 0)
  have last := Int.emod_lt_of_pos (a - vipfrGetDrawFrame (swFrame base)) (by omega : 0 < (swFrame base).width)
  exact ((cell_iff first last a).mpr rfl).symm

theorem button_paints (newColor : Nat → Word) (b : Button) (on : Bool) :
    Paints base pictures charAlphaMap (drawButtonOf base charAlphaMap newColor b on) (.button b) on := by
  obtain ⟨patch, draws, covers, -⟩ := @button_draws base charAlphaMap newColor b on
  constructor
  case drawn =>
    intro memory address covered
    obtain ⟨value, found⟩ := Option.isSome_iff_exists.mp ((covers _).mpr covered)
    have anyway : Alike (drawButtonOf base charAlphaMap newColor b on fun _ => 0)
        (drawButtonOf base charAlphaMap (fun _ => 0) b on fun _ => 0) := by
      apply print_string_alike
      exact fun _ => rfl
    rw [face, cell_pixel, ← anyway, draws_some draws found, draws_some draws found]
  case kept =>
    intro memory address bare
    have uncovered := Option.not_isSome_iff_eq_none.mp (mt (covers _).mp bare)
    exact draws_none draws uncovered memory

theorem icon_size (i : Icon) : 0 ≤ i.rect.x ∧ i.rect.x + i.rect.w ≤ 800 := by
  cases i <;> decide

theorem icon_paints (fresh : Nat → Byte) (i : Icon) (down : Bool) :
    Paints base pictures charAlphaMap (dispIcon base pictures fresh i down) (.icon i) down := by
  obtain ⟨left, right⟩ := icon_size i
  have screen : (swFrame base).width = 800 := rfl
  have width := pictures.width i down
  have height := pictures.height i down
  have draws := @disp_image_draws (swFrame base) _ (pictures.plain i down) fresh i.rect.x i.rect.y rfl left
    (by omega) black24
  constructor
  case drawn =>
    intro memory address covered
    rw [Widget.covers, Bool.and_eq_true_iff, rect_covers_iff] at covered
    have shown := of_decide_eq_true covered.2
    refine congrArg displayed (draws_some draws ?_ memory)
    simp only [picture, tile]
    rw [if_pos (by omega), if_pos shown]
  case kept =>
    intro memory address bare
    rw [Widget.covers, Bool.and_eq_true_iff, rect_covers_iff] at bare
    refine draws_none draws ?_ memory
    simp only [picture, tile]
    split_ifs with inside shown
    · exact absurd ⟨by omega, decide_eq_true shown⟩ bare
    · rfl
    · rfl

end Widgets

/-! The lines of the background. -/
def lineRect (l : (Int × Int) × Int × Int) : Rect :=
  if l.1.2 = l.2.2 then ⟨l.1.1, l.1.2, l.2.1 - l.1.1, 1⟩ else ⟨l.1.1, l.1.2, 1, l.2.2 - l.1.2 + 1⟩

def linePatch (l : (Int × Int) × Int × Int) : Patch Pixel Word := fun p =>
  if (lineRect l).covers p then some white24 else none

/-- Level lines that end at the edge of the screen, and upright ones that go one row beyond it. -/
theorem lines_fit : ∀ l ∈ lines,
    (l.1.2 = l.2.2 ∧ (0 ≤ l.1.1 ∧ l.1.1 ≤ l.2.1 ∧ l.2.1 ≤ 800) ∧ 0 ≤ l.1.2 ∧ l.1.2 < 600) ∨
      ((l.1.1 = l.2.1 ∧ l.1.2 ≠ l.2.2) ∧ (0 ≤ l.1.1 ∧ l.1.1 < 800) ∧ 0 ≤ l.1.2 ∧ l.1.2 < l.2.2 ∧
        l.2.2 ≤ 600) := by
  decide

theorem lines_apart : ∀ l ∈ lines, ∀ a ∈ widgets, (lineRect l).Separate a.rect := by
  decide

section Lines
variable {base : Int}

theorem line_draws {l : (Int × Int) × Int × Int} (member : l ∈ lines) :
    Draws (swFrame base) (vidDrawLine (swFrame base) l.1.1 l.1.2 l.2.1 l.2.2 white24) (linePatch l) := by
  obtain ⟨⟨x, y⟩, x', y'⟩ := l
  have screen : (swFrame base).width = 800 := rfl
  rcases lines_fit _ member with ⟨level, along, top, bottom⟩ | ⟨⟨upright, slanted⟩, along, top, down, bottom⟩
  · dsimp only at level along top bottom ⊢
    subst level
    refine draws_congr (level_line_draws (by omega) (by omega) (by omega) (by omega) (by omega)
      (by omega) (by omega) white24) fun p => ?_
    simp only [linePatch, lineRect, rect_covers_iff, block, if_true]
    exact if_congr (by omega) rfl rfl
  · dsimp only at upright slanted along top down bottom ⊢
    subst upright
    refine draws_congr (column_line_draws (by omega) (by omega) (by omega) (by omega) down
      (by omega) white24) fun p => ?_
    simp only [linePatch, lineRect, rect_covers_iff, block, if_neg slanted]
    exact if_congr (by omega) rfl rfl

theorem lines_draw : Draws (swFrame base) (drawLines base) (stack linePatch lines) :=
  draws_stack lines fun _ member => line_draws member

end Lines

/-! The frame buffer refines the painting. -/
section Refinement
variable (base : Int) (pictures : Pictures) (charAlphaMap : Nat → Nat → Byte)

/-- Every pixel that the painting has is displayed as that face of that widget. -/
structure Renders (memory : Memory) (painting : Painting Pixel Widget Bool) : Prop where
  placed : ∀ p a f, painting p = some (a, f) → a.rect.covers p
  shown : ∀ address a f, painting ((swFrame base).pixel address) = some (a, f) →
    displayed (memory address) = face base pictures charAlphaMap a f ((swFrame base).pixel address)

variable {base pictures charAlphaMap} {memory : Memory} {painting : Painting Pixel Widget Bool}

theorem renders_paint {op : Memory → Memory} {a : Widget} {f : Bool}
    (paints : Paints base pictures charAlphaMap op a f)
    (renders : Renders base pictures charAlphaMap memory painting) :
    Renders base pictures charAlphaMap (op memory)
      (paint (layout pictures.images) painting a f) := by
  constructor
  case placed =>
    intro p b g painted
    unfold paint at painted
    split at painted
    · next covered =>
      cases painted
      exact covers_rect covered
    · exact renders.placed p b g painted
  case shown =>
    intro address b g painted
    unfold paint at painted
    split at painted
    · next covered =>
      cases painted
      exact paints.drawn memory address covered
    · next bare =>
      rw [paints.kept memory address bare]
      exact renders.shown address b g painted

/-- A loop that draws some of the widgets. -/
theorem renders_redraw {α : Type} {place : α → Widget} {on : Widget → Bool}
    {op : α → Memory → Memory} (group : List α)
    (each : ∀ i, Paints base pictures charAlphaMap (op i) (place i) (on (place i)))
    (renders : Renders base pictures charAlphaMap memory painting) :
    Renders base pictures charAlphaMap (group.foldl (fun before i => op i before) memory)
      (redraw (layout pictures.images) on (group.map place) painting) := by
  induction group generalizing memory painting with
  | nil => exact renders
  | cons i rest ih => exact ih (renders_paint (each i) renders)

variable {left : Leftovers}

theorem group_renders (n : Nat) (group : List Button) (b : Button) {s : Panel}
    (renders : Renders base pictures charAlphaMap memory s.frame) :
    Renders base pictures charAlphaMap (drawGroup base charAlphaMap left n group b memory)
      (drawButtons pictures.images group b s).frame := by
  refine renders_redraw group (fun a => ?_) renders
  have same : (Widget.button a == Widget.button b) = (a == b) := by
    rw [Bool.eq_iff_iff, beq_iff_eq, beq_iff_eq, Widget.button.injEq]
  rw [same]
  exact button_paints (left.newColor n a) a (a == b)

theorem icons_render (n : Nat) (down : Option Icon) {s : Panel}
    (renders : Renders base pictures charAlphaMap memory s.frame) :
    Renders base pictures charAlphaMap (dispIcons base pictures left n down memory)
      (dispImages pictures.images down s).frame := by
  refine @renders_redraw _ _ _ _ _ _ Widget.icon (fun a => down.map .icon == some a)
    (fun i => dispIcon base pictures (left.fresh n i) i (down == some i)) icons (fun i => ?_) renders
  have same : (down.map Widget.icon == some (Widget.icon i)) = (down == some i) := by
    rw [Bool.eq_iff_iff, beq_iff_eq, beq_iff_eq]
    cases down <;> simp
  rw [same]
  exact icon_paints (left.fresh n i) i (down == some i)

theorem lines_render (renders : Renders base pictures charAlphaMap memory painting) :
    Renders base pictures charAlphaMap (drawLines base memory) painting := by
  refine ⟨renders.placed, fun address a f painted => ?_⟩
  have bare : stack linePatch lines ((swFrame base).pixel address) = none :=
    stack_none fun l member => if_neg fun covered =>
      not_both_covered (lines_apart l member a (mem_widgets a)) covered (renders.placed _ a f painted)
  rw [draws_none lines_draw bare memory]
  exact renders.shown address a f painted

theorem init_renders : Renders base pictures charAlphaMap
    (initScreen base pictures charAlphaMap left memory) (main pictures.images).frame := by
  have blank : Renders base pictures charAlphaMap (vidCleanScreen (swFrame base) black24 memory)
      loaded.frame := ⟨fun _ _ _ => nofun, fun _ _ _ => nofun⟩
  have drawn := lines_render (@icons_render _ _ _ _ left 0 none loaded blank)
  exact group_renders 0 signalButtons .square <| group_renders 0 modulationButtons .ask drawn

theorem redrawn_renders {α : Type} {draw : α → Memory → Memory} {handler : α → Panel → Panel}
    {s : Panel} (target : Option α)
    (each : ∀ a, Renders base pictures charAlphaMap (draw a memory) (handler a s).frame)
    (renders : Renders base pictures charAlphaMap memory s.frame) :
    Renders base pictures charAlphaMap (redrawn draw target memory) (handle handler target s).frame := by
  cases target with
  | none => exact renders
  | some a => exact each a

theorem refresh_renders (n : Nat) (e : Event) {s : Panel}
    (renders : Renders base pictures charAlphaMap memory s.frame) :
    Renders base pictures charAlphaMap (refresh base pictures charAlphaMap left n e memory)
      (task2 pictures.images e s).frame := by
  have modulation : Renders base pictures charAlphaMap _
      (handle (modulationHandler pictures.images) _ s).frame :=
    redrawn_renders (e.on Button.rect modulationButtons)
      (fun b => @group_renders _ _ _ _ left n modulationButtons b s renders) renders
  have signal : Renders base pictures charAlphaMap _
      (handle (signalHandler pictures.images) _ _).frame :=
    redrawn_renders (e.on Button.rect signalButtons)
      (fun b => @group_renders _ _ _ _ left n signalButtons b _ modulation) modulation
  refine redrawn_renders (e.on Icon.rect icons) (fun i => ?_) signal
  rw [icon_frame]
  exact icons_render n (some i) signal

/-- In every run, what the panel has painted is what the frame buffer displays. -/
theorem screen_renders (pictures : Pictures) (charAlphaMap : Nat → Nat → Byte) (left : Leftovers)
    (base : Int) (memory : Memory) (events : Nat → Event) (n : Nat) :
    Renders base pictures charAlphaMap (screen base pictures charAlphaMap left events memory n)
      (run pictures.images events n).frame := by
  induction n with
  | zero => exact init_renders
  | succ n ih => exact refresh_renders (n + 1) (events n) ih

end Refinement

/-! The words of a button around its text. -/
section Selection
variable (base : Int)

/-- Around its text the button has its colour, or the complement of it. -/
def Ground (memory : Memory) (b : Button) (on : Bool) : Prop :=
  ∀ p, b.rect.covers p → ¬ Button.textArea b p →
    memory ((swFrame base).cell p) = shownColor (Button.color b) on

/-- The frame buffer shows which button of the group has its value in the selector. -/
def SelectionShown (memory : Memory) (group : List Button) (selector : BitVec 8) : Prop :=
  ∃ b ∈ group, selector = b.value ∧ ∀ a ∈ group, Ground base memory a (a == b)

variable {base} {pictures : Pictures} {charAlphaMap : Nat → Nat → Byte} {left : Leftovers}
  {memory : Memory}

theorem button_pixel {b : Button} {p : Pixel} (covered : b.rect.covers p) :
    (swFrame base).pixel ((swFrame base).cell p) = p := by
  obtain ⟨⟨wide, -⟩, first, last⟩ := button_size b
  rw [rect_covers_iff] at covered
  have screen : (swFrame base).width = 800 := rfl
  exact pixel_cell (by omega) (by omega)

theorem ground_drawn (newColor : Nat → Word) (b : Button) (on : Bool) :
    Ground base (drawButtonOf base charAlphaMap newColor b on memory) b on := by
  intro p covered outside
  obtain ⟨patch, draws, -, around⟩ := @button_draws base charAlphaMap newColor b on
  refine draws_some draws ?_ memory
  rw [button_pixel covered]
  exact around p covered outside

theorem ground_kept {after : Memory} {b : Button} {on : Bool}
    (kept : ∀ p, b.rect.covers p → after ((swFrame base).cell p) = memory ((swFrame base).cell p))
    (ground : Ground base memory b on) : Ground base after b on := by
  intro p covered outside
  rw [kept p covered]
  exact ground p covered outside

theorem button_kept (newColor : Nat → Word) {a b : Button} (other : a ≠ b) (on : Bool) {p : Pixel}
    (covered : b.rect.covers p) :
    drawButtonOf base charAlphaMap newColor a on memory ((swFrame base).cell p) =
      memory ((swFrame base).cell p) := by
  obtain ⟨patch, draws, covers, -⟩ := @button_draws base charAlphaMap newColor a on
  have separate := widgets_separate (.button a) (mem_widgets _) (.button b) (mem_widgets _)
    (by simpa using other)
  refine draws_none draws ?_ memory
  rw [button_pixel covered, ← Option.not_isSome_iff_eq_none, covers]
  exact fun both => not_both_covered separate both covered

/-- A group leaves each of its buttons as it drew it last. -/
theorem group_ground (n : Nat) (group : List Button) (b a : Button)
    (before : a ∈ group ∨ Ground base memory a (a == b)) :
    Ground base (drawGroup base charAlphaMap left n group b memory) a (a == b) := by
  induction group generalizing memory with
  | nil => exact before.resolve_left List.not_mem_nil
  | cons first rest ih =>
      apply ih
      by_cases same : a = first
      · subst same
        exact .inr (ground_drawn _ a (a == b))
      · rcases before with member | ground
        · exact .inl ((List.mem_cons.mp member).resolve_left same)
        · exact .inr (ground_kept (fun p => button_kept _ (Ne.symm same) (first == b)) ground)

theorem other_ground (n : Nat) {group : List Button} (b : Button) {a : Button} (apart : a ∉ group)
    {on : Bool} (ground : Ground base memory a on) :
    Ground base (drawGroup base charAlphaMap left n group b memory) a on := by
  induction group generalizing memory with
  | nil => exact ground
  | cons first rest ih =>
      have other : first ≠ a := fun same => apart (by simp [same])
      exact ih (fun member => apart (List.mem_cons_of_mem first member))
        (ground_kept (fun p => button_kept _ other (first == b)) ground)

theorem icons_ground (n : Nat) (down : Option Icon) {b : Button} {on : Bool}
    (ground : Ground base memory b on) :
    Ground base (dispIcons base pictures left n down memory) b on := by
  unfold dispIcons
  generalize icons = shown
  induction shown generalizing memory with
  | nil => exact ground
  | cons i rest ih =>
      refine ih (ground_kept (fun p covered => ?_) ground)
      have paints := @icon_paints base pictures (fun _ _ => 0) (left.fresh n i) i (down == some i)
      refine paints.kept memory _ fun both => ?_
      rw [button_pixel covered] at both
      exact nomatch covers_apart both
        (show (Widget.button b).covers pictures.images on p from covered)

theorem selection_drawn (n : Nat) {group : List Button} {b : Button} (member : b ∈ group) :
    SelectionShown base (drawGroup base charAlphaMap left n group b memory) group b.value :=
  ⟨b, member, rfl, fun a inside => group_ground n group b a (.inl inside)⟩

theorem selection_kept {after : Memory} {group : List Button} {selector : BitVec 8}
    (kept : ∀ a ∈ group, ∀ on, Ground base memory a on → Ground base after a on)
    (shown : SelectionShown base memory group selector) : SelectionShown base after group selector := by
  obtain ⟨b, member, selected, ground⟩ := shown
  exact ⟨b, member, selected, fun a inside => kept a inside _ (ground a inside)⟩

/-- Both selections are shown. -/
def Shown (base : Int) (memory : Memory) (s : Panel) : Prop :=
  SelectionShown base memory modulationButtons s.modulationSelector ∧
    SelectionShown base memory signalButtons s.signalSelector

theorem modulation_shown (n : Nat) {b : Button} (member : b ∈ modulationButtons) {s : Panel}
    (shown : Shown base memory s) :
    Shown base (drawGroup base charAlphaMap left n modulationButtons b memory)
      (modulationHandler pictures.images b s) := by
  refine ⟨selection_drawn n member, selection_kept (fun a inside on ground => ?_) shown.2⟩
  have apart : ∀ a ∈ signalButtons, a ∉ modulationButtons := by decide
  exact other_ground n b (apart a inside) ground

theorem signal_shown (n : Nat) {b : Button} (member : b ∈ signalButtons) {s : Panel}
    (shown : Shown base memory s) :
    Shown base (drawGroup base charAlphaMap left n signalButtons b memory)
      (signalHandler pictures.images b s) := by
  refine ⟨selection_kept (fun a inside on ground => ?_) shown.1, selection_drawn n member⟩
  have apart : ∀ a ∈ modulationButtons, a ∉ signalButtons := by decide
  exact other_ground n b (apart a inside) ground

theorem icon_shown (n : Nat) (i : Icon) {s : Panel} (shown : Shown base memory s) :
    Shown base (dispIcons base pictures left n (some i) memory) (iconHandler pictures.images i s) := by
  have kept : Shown base (dispIcons base pictures left n (some i) memory) s :=
    ⟨selection_kept (fun _ _ _ => icons_ground n (some i)) shown.1,
      selection_kept (fun _ _ _ => icons_ground n (some i)) shown.2⟩
  cases i <;> exact kept

theorem redrawn_shown {α : Type} {draw : α → Memory → Memory} {handler : α → Panel → Panel}
    {s : Panel} (target : Option α)
    (each : ∀ a, target = some a → Shown base (draw a memory) (handler a s))
    (shown : Shown base memory s) : Shown base (redrawn draw target memory) (handle handler target s) := by
  cases target with
  | none => exact shown
  | some a => exact each a rfl

theorem refresh_shown (n : Nat) (e : Event) {s : Panel} (shown : Shown base memory s) :
    Shown base (refresh base pictures charAlphaMap left n e memory) (task2 pictures.images e s) := by
  have modulation : Shown base _ (handle (modulationHandler pictures.images) _ s) :=
    redrawn_shown (e.on Button.rect modulationButtons)
      (fun b hit => @modulation_shown _ pictures charAlphaMap left _ n b (on_member hit) s shown) shown
  have signal : Shown base _ (handle (signalHandler pictures.images) _ _) :=
    redrawn_shown (e.on Button.rect signalButtons)
      (fun b hit => @signal_shown _ pictures charAlphaMap left _ n b (on_member hit) _ modulation) modulation
  exact redrawn_shown (e.on Icon.rect icons) (fun i _ => icon_shown n i signal) signal

theorem init_shown :
    Shown base (initScreen base pictures charAlphaMap left memory) (main pictures.images) := by
  have ask : Button.ask ∈ modulationButtons := by decide
  have square : Button.square ∈ signalButtons := by decide
  have apart : ∀ a ∈ modulationButtons, a ∉ signalButtons := by decide
  unfold initScreen
  generalize drawLines base _ = memory
  have modulation := @selection_drawn base charAlphaMap left memory 0 _ _ ask
  generalize drawGroup base charAlphaMap left 0 modulationButtons .ask memory = memory at *
  constructor
  · exact selection_kept (fun a inside _ => other_ground 0 .square (apart a inside)) modulation
  · exact selection_drawn 0 square

/-- In every run the colours of the buttons in the frame buffer say what the selectors hold. -/
theorem selection_on_screen (pictures : Pictures) (charAlphaMap : Nat → Nat → Byte)
    (left : Leftovers) (base : Int) (memory : Memory) (events : Nat → Event) (n : Nat) :
    Shown base (screen base pictures charAlphaMap left events memory n)
      (run pictures.images events n) := by
  induction n with
  | zero => exact init_shown
  | succ n ih => exact refresh_shown (n + 1) (events n) ih

end Selection

/-! The words outside the frame. -/
section Outside
variable (base : Int)

/-- The address of a word that belongs to no row of the frame. -/
def Outside (address : Int) : Prop := address < base ∨ base + 480000 ≤ address

/-- What the two upright lines of the full height put below the frame. -/
def BelowFrame (address : Int) : Prop := address = base + 480647 ∨ address = base + 480795

instance (address : Int) : Decidable (BelowFrame base address) := inferInstanceAs (Decidable (_ ∨ _))

variable {base} {pictures : Pictures} {charAlphaMap : Nat → Nat → Byte} {left : Leftovers}
  {memory : Memory} {address : Int}

theorem outside_rows : Outside base address ↔
    ((swFrame base).pixel address).2 < 0 ∨ 600 ≤ ((swFrame base).pixel address).2 := by
  change _ ↔ (address - base) / 800 < 0 ∨ 600 ≤ (address - base) / 800
  unfold Outside
  omega

theorem widgets_inside : ∀ a ∈ widgets, 0 ≤ a.rect.y ∧ a.rect.y + a.rect.h ≤ 600 := by
  decide

theorem outside_uncovered (outside : Outside base address) (a : Widget) :
    ¬ a.rect.covers ((swFrame base).pixel address) := by
  have rows := outside_rows.mp outside
  have inside := widgets_inside a (mem_widgets a)
  rw [rect_covers_iff]
  omega

theorem button_outside (newColor : Nat → Word) (b : Button) (on : Bool)
    (outside : Outside base address) :
    drawButtonOf base charAlphaMap newColor b on memory address = memory address := by
  obtain ⟨patch, draws, covers, -⟩ := @button_draws base charAlphaMap newColor b on
  refine draws_none draws ?_ memory
  rw [← Option.not_isSome_iff_eq_none, covers]
  exact outside_uncovered outside (.button b)

theorem foldl_outside {α : Type} {op : α → Memory → Memory} (group : List α)
    (each : ∀ a memory, op a memory address = memory address) :
    group.foldl (fun before a => op a before) memory address = memory address := by
  induction group generalizing memory with
  | nil => rfl
  | cons a rest ih => exact ih.trans (each a memory)

theorem group_outside (n : Nat) (group : List Button) (b : Button) (outside : Outside base address) :
    drawGroup base charAlphaMap left n group b memory address = memory address :=
  foldl_outside group fun a _ => button_outside (left.newColor n a) a (a == b) outside

theorem icons_outside (n : Nat) (down : Option Icon) (outside : Outside base address) :
    dispIcons base pictures left n down memory address = memory address := by
  refine foldl_outside icons fun i memory => ?_
  have paints := @icon_paints base pictures (fun _ _ => 0) (left.fresh n i) i (down == some i)
  exact paints.kept memory address fun covered => outside_uncovered outside (.icon i) (covers_rect covered)

theorem upright_lines : ∀ l ∈ lines, 0 ≤ (lineRect l).y ∧ ((lineRect l).y + (lineRect l).h ≤ 600 ∨
    ((lineRect l).y + (lineRect l).h = 601 ∧ (lineRect l).w = 1 ∧
      ((lineRect l).x = 647 ∨ (lineRect l).x = 795))) := by
  decide

theorem line_outside {l : (Int × Int) × Int × Int} (member : l ∈ lines)
    (outside : Outside base address)
    (covered : (lineRect l).covers ((swFrame base).pixel address)) : BelowFrame base address := by
  have rows := outside_rows.mp outside
  obtain ⟨top, bottom⟩ := upright_lines l member
  rw [rect_covers_iff] at covered
  change ((lineRect l).x ≤ (address - base) % 800 ∧ (address - base) % 800 < _) ∧
    (lineRect l).y ≤ (address - base) / 800 ∧ (address - base) / 800 < _ at covered
  change (address - base) / 800 < 0 ∨ 600 ≤ (address - base) / 800 at rows
  unfold BelowFrame
  omega

theorem below_covered (below : BelowFrame base address) :
    ∃ l ∈ lines, (lineRect l).covers ((swFrame base).pixel address) := by
  have place (k : Int) : (swFrame base).pixel (base + k) = (k % 800, k / 800) := by
    change ((base + k - base) % 800, (base + k - base) / 800) = _
    rw [add_sub_cancel_left]
  rcases below with rfl | rfl
  · rw [place]
    exact ⟨((647, 0), 647, 600), by decide, by decide⟩
  · rw [place]
    exact ⟨((795, 0), 795, 600), by decide, by decide⟩

theorem lines_outside (outside : Outside base address) :
    drawLines base memory address = if BelowFrame base address then white24 else memory address := by
  split
  · next below =>
    obtain ⟨l, member, covered⟩ := below_covered below
    refine draws_some lines_draw (stack_some (fun i _ x found => ?_) member (if_pos covered)) memory
    unfold linePatch at found
    split at found
    · exact (Option.some.inj found).symm
    · contradiction
  · next elsewhere =>
    exact draws_none lines_draw
      (stack_none fun l member => if_neg fun covered => elsewhere (line_outside member outside covered)) memory

theorem init_outside (outside : Outside base address) :
    initScreen base pictures charAlphaMap left memory address =
      if BelowFrame base address then white24 else memory address := by
  have screen : (swFrame base).width = 800 := rfl
  have cleaned : vidCleanScreen (swFrame base) black24 memory address = memory address := by
    have rows := outside_rows.mp outside
    have height : (swFrame base).height = 600 := rfl
    refine draws_none (paint_block_draws le_rfl (by omega) le_rfl (by omega) black24) (if_neg ?_) memory
    omega
  rw [initScreen, group_outside 0 _ _ outside, group_outside 0 _ _ outside, lines_outside outside,
    icons_outside 0 none outside, cleaned]

theorem redrawn_outside {α : Type} {draw : α → Memory → Memory}
    (each : ∀ a memory, draw a memory address = memory address) {target : Option α} :
    redrawn draw target memory address = memory address := by
  cases target with
  | none => rfl
  | some a => exact each a memory

theorem refresh_outside (n : Nat) (e : Event) (outside : Outside base address) :
    refresh base pictures charAlphaMap left n e memory address = memory address := by
  unfold refresh
  rw [redrawn_outside fun i _ => icons_outside n (some i) outside,
    redrawn_outside fun b _ => group_outside n signalButtons b outside,
    redrawn_outside fun b _ => group_outside n modulationButtons b outside]

/-- Outside the frame only the ends of two lines of the background are drawn, which go down to
row 600. -/
theorem screen_outside (pictures : Pictures) (charAlphaMap : Nat → Nat → Byte) (left : Leftovers)
    (base : Int) (memory : Memory) (events : Nat → Event) (n : Nat) (address : Int)
    (outside : Outside base address) :
    screen base pictures charAlphaMap left events memory n address =
      if BelowFrame base address then white24 else memory address := by
  induction n with
  | zero => exact init_outside outside
  | succ n ih => exact (refresh_outside (n + 1) (events n) outside).trans ih

end Outside

/-- Pictures of one colour. -/
def solidPictures : Pictures where
  image i _ := ⟨i.rect.w.toNat, i.rect.h.toNat, 3, fun _ => 1⟩
  plain i _ := by cases i <;> exact ⟨rfl, by decide, by decide⟩
  width i _ := by cases i <;> rfl
  height i _ := by cases i <;> rfl
  shared i := ⟨0, 0, by cases i <;> decide, fun _ => (by decide : rgb 1 1 1 ≠ black24)⟩

end Cpen311.TouchScreen
