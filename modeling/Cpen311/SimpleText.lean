import Cpen311.GimpImages

/-! Text and buttons (`simple_text.c`, `draw_button` of `hello_ucosii.c`). A character is blended
pixel by pixel with its background, which is a colour or what the frame holds. -/
namespace Cpen311.SimpleText
open Patches SimpleGraphics FrameBuffer GimpImages

/-- The fields of `abc_font_struct` that are read. -/
structure Glyph where
  boundsWidth : Nat
  boundsHeight : Nat
  charAlphaMap : Nat → Byte

/-- From the character 33 on. -/
abbrev Font := Nat → Glyph

/-- `CLEAR_BACKGROUND` is -1. -/
def clearBackground : Word := 0xFFFFFFFF

def tabSpacing : Nat := 2

structure Channels where
  red : Byte
  green : Byte
  blue : Byte

def separateColorChannels (color : Word) : Channels where
  blue := color.extractLsb' 0 8
  green := color.extractLsb' 8 8
  red := color.extractLsb' 16 8

/-- The fourth byte of the destination is left as it is. -/
def mergeColorChannels (c : Channels) (color : Word) : Word :=
  color.extractLsb' 24 8 ++ c.red ++ c.green ++ c.blue

def blend (over_ under alpha : Byte) : Byte :=
  let blended := (over_.toNat * alpha.toNat + under.toNat * (255 - alpha.toNat)) / 255
  if blended > 0xFF then 0xFF else BitVec.ofNat 8 blended

def alphaBlending (background : Channels) (alpha : Byte) (c : Channels) : Channels where
  red := blend c.red background.red alpha
  green := blend c.green background.green alpha
  blue := blend c.blue background.blue alpha

section Printing
variable (d : Display) (font : Font)

/-- `newColor` is what the uninitialised local holds. -/
def vidPrintCharAlpha (horiz vert : Int) (color : Word) (character : Nat) (background newColor : Word)
    (memory : Memory) : Memory :=
  let glyph := font (character - 33)
  (raster glyph.boundsHeight glyph.boundsWidth).foldl (fun before at_ =>
    let under := if background = clearBackground then before (d.cell (horiz + at_.2, vert + at_.1))
      else background
    let alpha := glyph.charAlphaMap (at_.1 * glyph.boundsWidth + at_.2)
    let blended := alphaBlending (separateColorChannels under) alpha (separateColorChannels color)
    vidSetPixel d (horiz + at_.2) (vert + at_.1) (mergeColorChannels blended newColor) before) memory

/-- A space is a dash in the colour of the background. -/
def printSpace (horiz vert : Int) (background newColor : Word) (memory : Memory) : Memory :=
  if background ≠ clearBackground then
    vidPrintCharAlpha d font horiz vert background 45 background newColor memory
  else memory

def vidPrintStringAlpha (originalHoriz : Int) (color background : Word) (newColor : Nat → Word) :
    List Nat → Int → Int → Memory → Memory
  | [], _, _, memory => memory
  | character :: rest, horiz, vert, memory =>
      let here := newColor rest.length
      if character = 10 then
        vidPrintStringAlpha originalHoriz color background newColor rest originalHoriz
          (vert + (font (124 - 33)).boundsHeight) memory
      else if character = 32 then
        vidPrintStringAlpha originalHoriz color background newColor rest
          (horiz + (font (45 - 33)).boundsWidth) vert (printSpace d font horiz vert background here memory)
      else if character = 9 then
        let after := (List.range tabSpacing).foldl (fun before (k : Nat) =>
          printSpace d font (horiz + k * (font (45 - 33)).boundsWidth) vert background here before) memory
        vidPrintStringAlpha originalHoriz color background newColor rest
          (horiz + tabSpacing * (font (45 - 33)).boundsWidth) vert after
      else
        vidPrintStringAlpha originalHoriz color background newColor rest
          (horiz + (font (character - 33)).boundsWidth) vert
          (vidPrintCharAlpha d font horiz vert color character background here memory)

def black24 : Word := 0x000000

def white24 : Word := 0xFFFFFF

def drawButton (x y w h : Int) (color : Word) (text : List Nat) (eventType : Bool)
    (newColor : Nat → Word) (memory : Memory) : Memory :=
  let shown := if eventType then ~~~color else color
  vidPrintStringAlpha d font (x + w.tdiv 4) white24 shown newColor text (x + w.tdiv 4) (y + h.tdiv 8) <|
    vidDrawBox d x y (x + w) (y + h) shown true <|
      vidDrawBox d x y (x + w) (y + h) black24 true memory

end Printing

/-- The widths of `tahomabold_20`; all its characters are 26 lines high. -/
def tahomabold20Widths : List Nat :=
  [7, 10, 16, 13, 24, 17, 6, 9, 9, 13, 16, 6, 9, 6, 12, 13, 13, 13, 13, 13, 13, 13, 13, 13, 13,
   7, 7, 16, 16, 16, 11, 18, 14, 14, 13, 15, 12, 12, 15, 15, 10, 10, 14, 11, 18, 15, 15, 13, 15,
   15, 13, 12, 15, 14, 21, 14, 14, 12, 9, 12, 9, 16, 13, 11, 12, 13, 11, 13, 12, 8, 13, 13, 6, 9,
   12, 6, 19, 13, 12, 13, 13, 9, 10, 8, 13, 12, 18, 12, 12, 11, 12, 13, 12, 16]

def tahomabold20 (charAlphaMap : Nat → Nat → Byte) : Font := fun k =>
  { boundsWidth := tahomabold20Widths.getD k 0
    boundsHeight := 26
    charAlphaMap := charAlphaMap k }

section Patches
variable {d : Display} {font : Font}

/-- The colour of a pixel of a character on a background. -/
def Glyph.inked (glyph : Glyph) (color background newColor : Word) (row column : Nat) : Word :=
  mergeColorChannels (alphaBlending (separateColorChannels background)
    (glyph.charAlphaMap (row * glyph.boundsWidth + column)) (separateColorChannels color)) newColor

theorem print_char_draws {background : Word} (visible : background ≠ clearBackground) {horiz : Int}
    (character : Nat) (left : 0 ≤ horiz)
    (right : horiz + (font (character - 33)).boundsWidth ≤ d.width) (vert : Int)
    (color newColor : Word) :
    Draws d (vidPrintCharAlpha d font horiz vert color character background newColor)
      (tile horiz vert (font (character - 33)).boundsHeight (font (character - 33)).boundsWidth
        fun row column => some ((font (character - 33)).inked color background newColor row column)) := by
  generalize place : font (character - 33) = glyph at *
  have each : ∀ at_ ∈ raster glyph.boundsHeight glyph.boundsWidth,
      Draws d (vidSetPixel d (horiz + at_.2) (vert + at_.1)
        (glyph.inked color background newColor at_.1 at_.2))
        (placed horiz vert (fun row column => some (glyph.inked color background newColor row column))
          at_) := by
    intro at_ member
    obtain ⟨-, inLine⟩ := mem_raster.mp member
    refine draws_congr (set_pixel_draws (by omega) (by omega) _) fun here => ?_
    simp only [dots, placed, List.mem_singleton, Int.add_comm]
  have loop := draws_congr (draws_stack _ each) (stack_placed horiz vert _ _ _)
  intro memory a
  rw [← loop memory a]
  simp only [vidPrintCharAlpha, place, if_neg visible]
  rfl

/-- The pixels of a patch lie within a rectangle. -/
def Within (patch : Patch Pixel Word) (left top right bottom : Int) : Prop :=
  ∀ p, (patch p).isSome → (left ≤ p.1 ∧ p.1 < right) ∧ top ≤ p.2 ∧ p.2 < bottom

theorem tile_within (x y : Int) (rows columns : Nat) (color : Nat → Nat → Option Word) :
    Within (tile x y rows columns color) x y (x + columns) (y + rows) := by
  intro p covered
  unfold tile at covered
  split at covered
  · assumption
  · contradiction

theorem within_atop {later earlier : Patch Pixel Word} {left top right bottom : Int}
    (first : Within earlier left top right bottom) (second : Within later left top right bottom) :
    Within (atop later earlier) left top right bottom :=
  fun p covered => (atop_within.mp covered).elim (second p) (first p)

theorem within_mono {patch : Patch Pixel Word} {left top right bottom left' top' right' bottom' : Int}
    (within : Within patch left top right bottom)
    (wider : (left' ≤ left ∧ right ≤ right') ∧ top' ≤ top ∧ bottom ≤ bottom') :
    Within patch left' top' right' bottom' := by
  intro p covered
  have inside := within p covered
  omega

/-- How far a character moves the next one. -/
def advance (font : Font) (character : Nat) : Nat :=
  if character = 32 then (font (45 - 33)).boundsWidth
  else if character = 9 then tabSpacing * (font (45 - 33)).boundsWidth
  else (font (character - 33)).boundsWidth

def textWidth (font : Font) (text : List Nat) : Nat := (text.map (advance font)).sum

/-- An operation that draws within a rectangle, whatever the memory holds. -/
def DrawsWithin (d : Display) (op : Memory → Memory) (left top right bottom : Int) : Prop :=
  ∃ patch, Draws d op patch ∧ Within patch left top right bottom

section Line
variable {background : Word} (visible : background ≠ clearBackground) {lines : Nat}
  (high : ∀ k, (font k).boundsHeight ≤ lines)
include visible high

theorem print_char_within {horiz : Int} (character : Nat) (left : 0 ≤ horiz)
    (right : horiz + (font (character - 33)).boundsWidth ≤ d.width) (vert : Int)
    (color newColor : Word) :
    DrawsWithin d (vidPrintCharAlpha d font horiz vert color character background newColor)
      horiz vert (horiz + (font (character - 33)).boundsWidth) (vert + lines) := by
  refine ⟨_, print_char_draws visible character left right vert color newColor, ?_⟩
  have bound := high (character - 33)
  intro p covered
  have inside := tile_within _ _ _ _ _ p covered
  omega

theorem print_space_within {horiz : Int} (left : 0 ≤ horiz)
    (right : horiz + (font (45 - 33)).boundsWidth ≤ d.width) (vert : Int) (newColor : Word) :
    DrawsWithin d (printSpace d font horiz vert background newColor)
      horiz vert (horiz + (font (45 - 33)).boundsWidth) (vert + lines) := by
  have dash := print_char_within visible high 45 left right vert background newColor
  unfold printSpace
  simpa only [ne_eq, visible, not_false_eq_true, if_true] using dash

end Line

theorem draws_within_then {first second : Memory → Memory} {left top right bottom : Int}
    (earlier : DrawsWithin d first left top right bottom)
    (later : DrawsWithin d second left top right bottom) :
    DrawsWithin d (fun memory => second (first memory)) left top right bottom := by
  obtain ⟨p, draws, within⟩ := earlier
  obtain ⟨q, drawsToo, withinToo⟩ := later
  exact ⟨_, draws_atop draws drawsToo, within_atop within withinToo⟩

theorem draws_within_mono {op : Memory → Memory}
    {left top right bottom left' top' right' bottom' : Int}
    (draws : DrawsWithin d op left top right bottom)
    (wider : (left' ≤ left ∧ right ≤ right') ∧ top' ≤ top ∧ bottom ≤ bottom') :
    DrawsWithin d op left' top' right' bottom' := by
  obtain ⟨p, draws, within⟩ := draws
  exact ⟨p, draws, within_mono within wider⟩

/-- What the branches for a character other than a newline draw. -/
def printed (d : Display) (font : Font) (color background newColor : Word) (character : Nat)
    (horiz vert : Int) (memory : Memory) : Memory :=
  if character = 32 then printSpace d font horiz vert background newColor memory
  else if character = 9 then
    (List.range tabSpacing).foldl (fun before (k : Nat) =>
      printSpace d font (horiz + k * (font (45 - 33)).boundsWidth) vert background newColor before) memory
  else vidPrintCharAlpha d font horiz vert color character background newColor memory

theorem print_string_cons (originalHoriz : Int) (color background : Word) (newColor : Nat → Word)
    {character : Nat} (notNewline : character ≠ 10) (rest : List Nat) (horiz vert : Int)
    (memory : Memory) :
    vidPrintStringAlpha d font originalHoriz color background newColor (character :: rest) horiz vert
        memory =
      vidPrintStringAlpha d font originalHoriz color background newColor rest
        (horiz + advance font character) vert
        (printed d font color background (newColor rest.length) character horiz vert memory) := by
  simp only [vidPrintStringAlpha, if_neg notNewline, advance, printed]
  split_ifs <;> simp only [Nat.cast_mul]

section Line
variable {background : Word} (visible : background ≠ clearBackground) {lines : Nat}
  (high : ∀ k, (font k).boundsHeight ≤ lines)
include visible high

theorem printed_within {horiz : Int} (character : Nat) (left : 0 ≤ horiz)
    (right : horiz + advance font character ≤ d.width) (vert : Int) (color newColor : Word) :
    DrawsWithin d (printed d font color background newColor character horiz vert)
      horiz vert (horiz + advance font character) (vert + lines) := by
  unfold advance at *
  by_cases space : character = 32
  · simp only [if_pos space] at right ⊢
    have drawn := print_space_within visible high left right vert newColor
    unfold printed
    simpa only [if_pos space] using drawn
  by_cases tab : character = 9
  · simp only [if_neg space, if_pos tab, tabSpacing, Nat.cast_mul, Nat.cast_ofNat] at right ⊢
    have first : DrawsWithin d _ horiz vert (horiz + 2 * (font (45 - 33)).boundsWidth) (vert + lines) :=
      draws_within_mono (print_space_within visible high left (by omega) vert newColor) (by omega)
    have second : DrawsWithin d _ horiz vert (horiz + 2 * (font (45 - 33)).boundsWidth) (vert + lines) :=
      draws_within_mono (print_space_within visible high (by omega)
        (by omega : horiz + (font (45 - 33)).boundsWidth + _ ≤ d.width) vert newColor) (by omega)
    have both := draws_within_then first second
    unfold printed
    simpa [if_neg space, if_pos tab, tabSpacing, List.range_succ] using both
  · simp only [if_neg space, if_neg tab] at right ⊢
    have drawn := print_char_within visible high character left right vert color newColor
    unfold printed
    simpa only [if_neg space, if_neg tab] using drawn

/-- A text of one line stays within its width and the height of the font. -/
theorem print_string_within (originalHoriz : Int) (color : Word) (newColor : Nat → Word)
    (text : List Nat) (oneLine : 10 ∉ text) {horiz : Int} (left : 0 ≤ horiz)
    (right : horiz + textWidth font text ≤ d.width) (vert : Int) :
    DrawsWithin d
      (vidPrintStringAlpha d font originalHoriz color background newColor text horiz vert)
      horiz vert (horiz + textWidth font text) (vert + lines) := by
  induction text generalizing horiz with
  | nil => exact ⟨fun _ => none, draws_nothing, fun p covered => by contradiction⟩
  | cons character rest ih =>
      have width : textWidth font (character :: rest) = advance font character + textWidth font rest := by
        simp [textWidth]
      have others : 10 ∉ rest := fun member => oneLine (List.mem_cons_of_mem _ member)
      have notNewline : character ≠ 10 := fun same => oneLine (by simp [same])
      rw [width, Nat.cast_add] at right ⊢
      have head : DrawsWithin d _ horiz vert (horiz + (advance font character + textWidth font rest))
          (vert + lines) :=
        draws_within_mono (printed_within visible high character left (by omega) vert color
          (newColor rest.length)) (by omega)
      have tail : DrawsWithin d _ horiz vert (horiz + (advance font character + textWidth font rest))
          (vert + lines) :=
        draws_within_mono (@ih others (horiz + advance font character) (by omega) (by omega))
          (by omega)
      have both := draws_within_then head tail
      obtain ⟨patch, draws, within⟩ := both
      refine ⟨patch, fun memory a => ?_, within⟩
      rw [print_string_cons _ _ _ _ notNewline]
      exact draws memory a

end Line

/-- The colour behind the text of a button. -/
def shownColor (color : Word) (eventType : Bool) : Word := if eventType then ~~~color else color

/-- A button covers its rectangle, and around its text it has one colour. -/
structure ButtonDrawn (patch : Patch Pixel Word) (x y w h : Int) (width lines : Nat) (color : Word) :
    Prop where
  covers : ∀ p, (patch p).isSome ↔ (x ≤ p.1 ∧ p.1 < x + w) ∧ y ≤ p.2 ∧ p.2 < y + h
  around : ∀ p, ((x ≤ p.1 ∧ p.1 < x + w) ∧ y ≤ p.2 ∧ p.2 < y + h) →
    ¬ ((x + w.tdiv 4 ≤ p.1 ∧ p.1 < x + w.tdiv 4 + width) ∧
      y + h.tdiv 8 ≤ p.2 ∧ p.2 < y + h.tdiv 8 + lines) → patch p = some color

theorem draw_button_draws {x y w h : Int} {text : List Nat} {lines : Nat}
    (high : ∀ k, (font k).boundsHeight ≤ lines) (left : 0 ≤ x) (order : 0 ≤ w)
    (right : x + w ≤ d.width) (some : 0 < d.width) (tall : 0 ≤ h) (oneLine : 10 ∉ text)
    (fitsWidth : w.tdiv 4 + textWidth font text ≤ w) (fitsHeight : h.tdiv 8 + lines ≤ h)
    (color : Word) (eventType : Bool) (visible : shownColor color eventType ≠ clearBackground)
    (newColor : Nat → Word) :
    ∃ patch, Draws d (drawButton d font x y w h color text eventType newColor) patch ∧
      ButtonDrawn patch x y w h (textWidth font text) lines (shownColor color eventType) := by
  have quarter : 0 ≤ w.tdiv 4 := Int.tdiv_nonneg order (by omega)
  have eighth : 0 ≤ h.tdiv 8 := Int.tdiv_nonneg tall (by omega)
  obtain ⟨letters, draws, within⟩ := print_string_within (d := d) visible high (x + w.tdiv 4) white24
    newColor text oneLine (by omega : 0 ≤ x + w.tdiv 4) (by omega) (y + h.tdiv 8)
  have black := @paint_block_draws d x y (x + w) (y + h) left (by omega) right some black24
  have ground := @paint_block_draws d x y (x + w) (y + h) left (by omega) right some
    (shownColor color eventType)
  have boxes := draws_atop black ground
  have all := draws_atop boxes draws
  refine ⟨_, all, ?_, ?_⟩
  · intro p
    have letter := within p
    simp only [atop_within, block]
    split_ifs with inside
    · simp [inside]
    · simp only [Option.isSome_none, Bool.false_eq_true, or_false, inside]
      refine ⟨fun covered => inside ?_, False.elim⟩
      have place := letter covered
      omega
  · intro p inside outside
    have bare : letters p = none := Option.not_isSome_iff_eq_none.mp fun covered =>
      outside (within p covered)
    simp only [atop, block, bare, if_pos inside]
    rfl

end Patches

/-! The fourth byte of a word is not displayed. -/
/-- The bytes of a word that are displayed. -/
def displayed (word : Word) : BitVec 24 := word.setWidth 24

def Alike (m m' : Memory) : Prop := ∀ a, displayed (m a) = displayed (m' a)

theorem merged_displayed (c : Channels) (color color' : Word) :
    displayed (mergeColorChannels c color) = displayed (mergeColorChannels c color') := by
  unfold displayed mergeColorChannels
  ext i inside
  simp only [BitVec.getElem_setWidth, BitVec.getLsbD_append]
  split_ifs <;> first | rfl | omega

theorem separate_displayed {w w' : Word} (alike : displayed w = displayed w') :
    separateColorChannels w = separateColorChannels w' := by
  have part (start : Nat) (inside : start + 8 ≤ 24) : w.extractLsb' start 8 = w'.extractLsb' start 8 := by
    ext i small
    have bit := congrArg (fun v => v.getLsbD (start + i)) alike
    simp only [displayed, BitVec.getLsbD_setWidth] at bit
    simpa [show start + i < 24 by omega] using bit
  simp only [separateColorChannels, part 0 (by omega), part 8 (by omega), part 16 (by omega)]

section Alike
variable {d : Display} {font : Font}

theorem set_pixel_alike {m m' : Memory} (alike : Alike m m') (h v : Int) {color color' : Word}
    (same : displayed color = displayed color') :
    Alike (vidSetPixel d h v color m) (vidSetPixel d h v color' m') := by
  intro a
  simp only [vidSetPixel, Function.update_apply]
  split
  · exact same
  · exact alike a

theorem print_char_alike {m m' : Memory} (alike : Alike m m') (horiz vert : Int) (color : Word)
    (character : Nat) (background newColor newColor' : Word) :
    Alike (vidPrintCharAlpha d font horiz vert color character background newColor m)
      (vidPrintCharAlpha d font horiz vert color character background newColor' m') := by
  unfold vidPrintCharAlpha
  refine List.foldl_rel alike fun at_ _ before before' same => set_pixel_alike same _ _ ?_
  split
  · rw [separate_displayed (same _)]
    exact merged_displayed ..
  · exact merged_displayed ..

theorem print_space_alike {m m' : Memory} (alike : Alike m m') (horiz vert : Int)
    (background newColor newColor' : Word) :
    Alike (printSpace d font horiz vert background newColor m)
      (printSpace d font horiz vert background newColor' m') := by
  unfold printSpace
  split
  · apply print_char_alike alike
  · exact alike

theorem printed_alike {m m' : Memory} (alike : Alike m m') (color background : Word)
    (character : Nat) (horiz vert : Int) (newColor newColor' : Word) :
    Alike (printed d font color background newColor character horiz vert m)
      (printed d font color background newColor' character horiz vert m') := by
  unfold printed
  split_ifs
  · apply print_space_alike alike
  · refine List.foldl_rel alike fun _ _ before before' same => ?_
    apply print_space_alike same
  · apply print_char_alike alike

/-- What the uninitialised colour holds does not show in a text. -/
theorem print_string_alike {m m' : Memory} (alike : Alike m m') (originalHoriz : Int)
    (color background : Word) (newColor newColor' : Nat → Word) (text : List Nat) (horiz vert : Int) :
    Alike (vidPrintStringAlpha d font originalHoriz color background newColor text horiz vert m)
      (vidPrintStringAlpha d font originalHoriz color background newColor' text horiz vert m') := by
  induction text generalizing horiz vert m m' with
  | nil => exact alike
  | cons character rest ih =>
      by_cases newline : character = 10
      · simp only [vidPrintStringAlpha, if_pos newline]
        apply ih alike
      · rw [print_string_cons _ _ _ _ newline, print_string_cons _ _ _ _ newline]
        apply ih
        apply printed_alike alike

end Alike

end Cpen311.SimpleText
