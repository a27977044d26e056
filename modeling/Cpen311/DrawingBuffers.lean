import Cpen311.TouchScreen

/-! The blocks of `malloc` in which the drawing functions prepare lines and pictures. The functions of
the frame buffer leave them out; here they are stored first, and elsewhere nothing changes by that. -/
namespace Cpen311.DrawingBuffers
open FrameBuffer GimpImages Patches SimpleText TouchPanel TouchScreen
open SimpleGraphics (Coord)

/-- The addresses of `words` words from `start` on. -/
def Stretch (start : Int) (words : Nat) (address : Int) : Prop :=
  start ≤ address ∧ address < start + words

section Functions
variable (d : Display)

/-- `line` is the address of the block, as in each of these functions. -/
def vidPaintBlockIn (line : Int) (horizStart vertStart horizEnd vertEnd : Int) (color : Word)
    (memory : Memory) : Memory :=
  vidPaintBlock d horizStart vertStart horizEnd vertEnd color
    (memcpy line (List.replicate (horizEnd - horizStart).toNat color) memory)

def vidDrawHorizLineIn (fastBuffer : Int) (horizStart horizEnd : Coord) (vert : Int) (color : Word)
    (memory : Memory) : Memory :=
  vidDrawHorizLine d horizStart horizEnd vert color
    (memcpy fastBuffer (List.replicate (horizEnd.toInt - horizStart.toInt).natAbs color) memory)

def vidDrawLineIn (fastBuffer : Int) (horizStart vertStart horizEnd vertEnd : Int) (color : Word)
    (memory : Memory) : Memory :=
  let coord : Int → Coord := BitVec.ofInt 16
  if vertStart = vertEnd then
    vidDrawHorizLineIn d fastBuffer (coord horizStart) (coord horizEnd) (coord vertStart).toNat color
      memory
  else vidDrawLine d horizStart vertStart horizEnd vertEnd color memory

/-- `vid_draw_box` fills by `vid_paint_block`, once in black and once in the colour. -/
def drawButtonIn (font : Font) (line : Bool → Int) (x y w h : Int) (color : Word) (text : List Nat)
    (eventType : Bool) (newColor : Nat → Word) (memory : Memory) : Memory :=
  let shown := shownColor color eventType
  vidPrintStringAlpha d font (x + w.tdiv 4) white24 shown newColor text (x + w.tdiv 4) (y + h.tdiv 8) <|
    vidPaintBlockIn d (line true) x y (x + w) (y + h) shown <|
      vidPaintBlockIn d (line false) x y (x + w) (y + h) black24 memory

/-- The bytes of a block, little-endian. -/
def bytesAt (memory : Memory) (start : Int) (k : Nat) : Byte :=
  (memory (start + (k / 4 : Nat))).extractLsb' (8 * (k % 4)) 8

def wordOf (bytes : Nat → Byte) (k : Nat) : Word :=
  bytes (4 * k + 3) ++ bytes (4 * k + 2) ++ bytes (4 * k + 1) ++ bytes (4 * k)

/-- The fields of `bitmap_struct` that `load_gimp_bmp` sets; the address in `data` is one of bytes. -/
def storeHeader (bitmap data : Int) (image : GimpImage) (memory : Memory) : Memory :=
  let sizes := Function.update memory bitmap
    (BitVec.ofNat 16 image.height ++ BitVec.ofNat 16 image.width)
  let depth := Function.update sizes (bitmap + 1)
    ((sizes (bitmap + 1)).extractLsb' 16 16 ++ (32 : BitVec 16))
  Function.update depth (bitmap + 3) (BitVec.ofInt 32 (4 * data))

def dispImageFromGimpIn (bitmap data : Int) (image : GimpImage) (x y : Int) (transparent : Word)
    (memory : Memory) : Memory :=
  let headed := storeHeader bitmap data image memory
  let fresh := bytesAt headed data
  let bmp := loadGimpBmp image fresh
  dispImageFromGimp d image fresh x y transparent
    (memcpy data ((List.range (bmp.biWidth.toNat * bmp.biHeight.toNat)).map (wordOf bmp.data)) headed)

end Functions

/-- What `malloc` returns to the drawing functions, by word addresses; it is taken not to fail. Drawing 0
is that of `init_background`. -/
structure Blocks where
  cleanLine : Int
  buttonLine : Nat → Button → Bool → Int
  fastBuffer : (Int × Int) × Int × Int → Int
  bitmap : Nat → Icon → Int
  data : Nat → Icon → Int

section Screen
variable (base : Int) (pictures : Pictures) (charAlphaMap : Nat → Nat → Byte)
  (newColor : Nat → Button → Nat → Word) (blocks : Blocks)

def drawGroupIn (n : Nat) (group : List Button) (highlighted : Button) (memory : Memory) : Memory :=
  group.foldl (fun before b =>
    drawButtonIn (swFrame base) (tahomabold20 charAlphaMap) (blocks.buttonLine n b) b.rect.x b.rect.y
      b.rect.w b.rect.h (Button.color b) (Button.text b) (b == highlighted) (newColor n b) before) memory

def dispIconsIn (n : Nat) (down : Option Icon) (memory : Memory) : Memory :=
  icons.foldl (fun before i =>
    dispImageFromGimpIn (swFrame base) (blocks.bitmap n i) (blocks.data n i)
      (pictures.image i (down == some i)) i.rect.x i.rect.y black24 before) memory

def drawLinesIn (memory : Memory) : Memory :=
  lines.foldl (fun before l =>
    vidDrawLineIn (swFrame base) (blocks.fastBuffer l) l.1.1 l.1.2 l.2.1 l.2.2 white24 before) memory

def initScreenIn (memory : Memory) : Memory :=
  drawGroupIn base charAlphaMap newColor blocks 0 signalButtons .square <|
    drawGroupIn base charAlphaMap newColor blocks 0 modulationButtons .ask <|
      drawLinesIn base blocks <| dispIconsIn base pictures blocks 0 none <|
        vidPaintBlockIn (swFrame base) blocks.cleanLine 0 0 (swFrame base).width (swFrame base).height
          black24 memory

def refreshIn (n : Nat) (e : Event) (memory : Memory) : Memory :=
  redrawn (fun i => dispIconsIn base pictures blocks n (some i)) (e.on Icon.rect icons) <|
    redrawn (drawGroupIn base charAlphaMap newColor blocks n signalButtons)
      (e.on Button.rect signalButtons) <|
      redrawn (drawGroupIn base charAlphaMap newColor blocks n modulationButtons)
        (e.on Button.rect modulationButtons) memory

def screenIn (events : Nat → Event) (memory : Memory) : Nat → Memory
  | 0 => initScreenIn base pictures charAlphaMap newColor blocks memory
  | n + 1 => refreshIn base pictures charAlphaMap newColor blocks (n + 1) (events n)
      (screenIn events memory n)

end Screen

/-- The words of the blocks, by the sizes that the functions ask for, and the words that they store
behind a block that is too short. -/
inductive Blocks.Touches (blocks : Blocks) (address : Int) : Prop
  | cleanLine (inside : Stretch blocks.cleanLine (800 + 3) address)
  | buttonLine (n : Nat) (b : Button) (again : Bool)
      (inside : Stretch (blocks.buttonLine n b again) (120 + 3) address)
  | fastBuffer (l : (Int × Int) × Int × Int) (member : l ∈ lines) (level : l.1.2 = l.2.2)
      (inside : Stretch (blocks.fastBuffer l) 768 address)
  | behind (l : (Int × Int) × Int × Int) (member : l ∈ lines) (level : l.1.2 = l.2.2)
      (long : ¬ storesInBuffer (BitVec.ofInt 16 l.1.1) (BitVec.ofInt 16 l.2.1))
      (inside : Stretch (blocks.fastBuffer l + 768) 32 address)
  | bitmap (n : Nat) (i : Icon) (inside : Stretch (blocks.bitmap n i) 4 address)
  | data (n : Nat) (i : Icon)
      (inside : Stretch (blocks.data n i) (i.rect.w.toNat * i.rect.h.toNat) address)

theorem memcpy_elsewhere {addr : Int} {line : List Word} {memory : Memory} {a : Int}
    (elsewhere : ¬ Stretch addr line.length a) : memcpy addr line memory a = memory a :=
  if_neg elsewhere

theorem stretch_mono {start : Int} {few many : Nat} {a : Int} (fits : few ≤ many)
    (inside : Stretch start few a) : Stretch start many a := by
  unfold Stretch at inside ⊢
  omega

/-- What a drawing function does at an address depends on nothing but the word there. -/
theorem draws_agree {d : Display} {op : Memory → Memory} {p : Patch Pixel Word} (draws : Draws d op p)
    {m m' : Memory} {a : Int} (same : m a = m' a) : op m a = op m' a := by
  rw [draws m a, draws m' a, same]

theorem foldl_agrees {α : Type} {op op' : α → Memory → Memory} {a : Int} (group : List α)
    (each : ∀ i ∈ group, ∀ {m m' : Memory}, m a = m' a → op i m a = op' i m' a) {m m' : Memory}
    (same : m a = m' a) :
    group.foldl (fun before i => op i before) m a = group.foldl (fun before i => op' i before) m' a := by
  induction group generalizing m m' with
  | nil => exact same
  | cons i rest ih =>
      exact ih (fun j member => each j (List.mem_cons_of_mem i member)) (each i List.mem_cons_self same)

theorem redrawn_agrees {α : Type} {draw draw' : α → Memory → Memory} {a : Int} (target : Option α)
    (each : ∀ i, ∀ {m m' : Memory}, m a = m' a → draw i m a = draw' i m' a) {m m' : Memory}
    (same : m a = m' a) : redrawn draw target m a = redrawn draw' target m' a := by
  cases target with
  | none => exact same
  | some i => exact each i same

section Agreement
variable {base : Int} {pictures : Pictures} {charAlphaMap : Nat → Nat → Byte} {left : Leftovers}
  {blocks : Blocks} {a : Int} {m m' : Memory}

theorem paint_block_agrees {d : Display} {line horizStart vertStart horizEnd vertEnd : Int}
    (first : 0 ≤ horizStart) (order : horizStart ≤ horizEnd) (right : horizEnd ≤ d.width)
    (some : 0 < d.width) (color : Word)
    (elsewhere : ¬ Stretch line (horizEnd - horizStart).toNat a) (same : m a = m' a) :
    vidPaintBlockIn d line horizStart vertStart horizEnd vertEnd color m a =
      vidPaintBlock d horizStart vertStart horizEnd vertEnd color m' a := by
  refine draws_agree (paint_block_draws first order right some color) ?_
  rw [memcpy_elsewhere (by rwa [List.length_replicate]), same]

variable (untouched : ¬ blocks.Touches a)
include untouched

theorem button_agrees (n : Nat) (newColor : Nat → Word) (b : Button) (on : Bool) (same : m a = m' a) :
    drawButtonIn (swFrame base) (tahomabold20 charAlphaMap) (blocks.buttonLine n b) b.rect.x b.rect.y
        b.rect.w b.rect.h (Button.color b) (Button.text b) on newColor m a =
      drawButtonOf base charAlphaMap newColor b on m' a := by
  obtain ⟨⟨wide, high⟩, start, right⟩ := button_size b
  have fits := text_fits b
  have quarter : b.rect.w.tdiv 4 = 30 := by rw [wide]; rfl
  have screen : (swFrame base).width = 800 := rfl
  have width : textWidth (tahomabold20 charAlphaMap) (Button.text b) =
      textWidth (tahomabold20 fun _ _ => 0) (Button.text b) := rfl
  have length : (b.rect.x + b.rect.w - b.rect.x).toNat ≤ 120 + 3 := by omega
  have apart (again : Bool) :
      ¬ Stretch (blocks.buttonLine n b again) (b.rect.x + b.rect.w - b.rect.x).toNat a :=
    fun inside => untouched (.buttonLine n b again (stretch_mono length inside))
  obtain ⟨letters, draws, -⟩ := @print_string_within (swFrame base) (tahomabold20 charAlphaMap)
    (shownColor (Button.color b) on) (color_visible b on) 26 (fun _ => le_rfl)
    (b.rect.x + b.rect.w.tdiv 4) white24 newColor (Button.text b) (text_line b)
    (b.rect.x + b.rect.w.tdiv 4) (by omega) (by omega) (b.rect.y + b.rect.h.tdiv 8)
  refine draws_agree draws ?_
  refine paint_block_agrees start (by omega) (by omega) (by omega) _ (apart true) ?_
  exact paint_block_agrees start (by omega) (by omega) (by omega) _ (apart false) same

theorem group_agrees (n : Nat) (group : List Button) (b : Button) (same : m a = m' a) :
    drawGroupIn base charAlphaMap left.newColor blocks n group b m a =
      drawGroup base charAlphaMap left n group b m' a :=
  foldl_agrees group (fun i _ {_ _} => button_agrees untouched n (left.newColor n i) i (i == b)) same

omit untouched in
theorem header_elsewhere {bitmap data : Int} {image : GimpImage} (elsewhere : ¬ Stretch bitmap 4 a) :
    storeHeader bitmap data image m a = m a := by
  unfold Stretch at elsewhere
  simp only [storeHeader, Function.update_apply]
  rw [if_neg (by omega), if_neg (by omega), if_neg (by omega)]

theorem icon_agrees (n : Nat) (fresh : Nat → Byte) (i : Icon) (down : Bool) (same : m a = m' a) :
    dispImageFromGimpIn (swFrame base) (blocks.bitmap n i) (blocks.data n i) (pictures.image i down)
        i.rect.x i.rect.y black24 m a =
      dispIcon base pictures fresh i down m' a := by
  obtain ⟨start, right⟩ := icon_size i
  have screen : (swFrame base).width = 800 := rfl
  have width := pictures.width i down
  have height := pictures.height i down
  have plain := pictures.plain i down
  have draws (fresh : Nat → Byte) := @disp_image_draws (swFrame base) _ plain fresh
    i.rect.x i.rect.y rfl start (by omega) black24
  have apart : ¬ Stretch (blocks.data n i) (i.rect.w.toNat * i.rect.h.toNat) a :=
    fun inside => untouched (.data n i inside)
  rw [← width, ← height, Int.toNat_natCast, Int.toNat_natCast] at apart
  have stored : dispImageFromGimpIn (swFrame base) (blocks.bitmap n i) (blocks.data n i)
      (pictures.image i down) i.rect.x i.rect.y black24 m a = _ :=
    @draws_agree _ _ _ (draws _) _ m' a (by
      rw [memcpy_elsewhere (by simpa [bitmap_width plain, bitmap_height plain] using apart),
        header_elsewhere fun inside => untouched (.bitmap n i inside), same])
  rw [stored, draws, dispIcon, draws]

theorem icons_agree (n : Nat) (down : Option Icon) (same : m a = m' a) :
    dispIconsIn base pictures blocks n down m a = dispIcons base pictures left n down m' a :=
  foldl_agrees icons (fun i _ {_ _} => icon_agrees untouched n (left.fresh n i) i (down == some i)) same

/-- The 800 pixels of the longest lines go 32 words beyond their block. -/
theorem line_apart {l : (Int × Int) × Int × Int} (member : l ∈ lines) (level : l.1.2 = l.2.2) :
    ¬ Stretch (blocks.fastBuffer l)
      ((BitVec.ofInt 16 l.2.1).toInt - (BitVec.ofInt 16 l.1.1).toInt).natAbs a := by
  intro inside
  have short : ((BitVec.ofInt 16 l.2.1).toInt - (BitVec.ofInt 16 l.1.1).toInt).natAbs ≤ 800 := by
    rcases lines_fit l member with ⟨-, along, -⟩ | ⟨upright, -⟩
    · rw [coord_int (by omega) (by omega), coord_int (by omega) (by omega)]
      omega
    · exact absurd level upright.2
  by_cases fits : storesInBuffer (BitVec.ofInt 16 l.1.1) (BitVec.ofInt 16 l.2.1)
  · exact untouched (.fastBuffer l member level
      (stretch_mono ((stores_in_buffer_iff _ _).mp fits) inside))
  · by_cases within : Stretch (blocks.fastBuffer l) 768 a
    · exact untouched (.fastBuffer l member level within)
    · refine untouched (.behind l member level fits ?_)
      unfold Stretch at inside within ⊢
      omega

theorem lines_agree (same : m a = m' a) : drawLinesIn base blocks m a = drawLines base m' a := by
  refine foldl_agrees lines (fun l member {m m'} same => ?_) same
  have draws := @line_draws base l member
  rw [← draws_agree draws same]
  unfold vidDrawLineIn
  split
  · next level =>
    have kept : memcpy (blocks.fastBuffer l) (List.replicate
        ((BitVec.ofInt 16 l.2.1).toInt - (BitVec.ofInt 16 l.1.1).toInt).natAbs white24) m a = m a := by
      refine memcpy_elsewhere ?_
      rw [List.length_replicate]
      exact line_apart untouched member level
    rw [← draws_agree draws kept]
    simp only [vidDrawLine, if_pos level]
    rfl
  · rfl

theorem init_agrees (same : m a = m' a) :
    initScreenIn base pictures charAlphaMap left.newColor blocks m a =
      initScreen base pictures charAlphaMap left m' a := by
  have screen : (swFrame base).width = 800 := rfl
  have apart : ¬ Stretch blocks.cleanLine ((swFrame base).width - 0).toNat a :=
    fun inside => untouched (.cleanLine (stretch_mono (by omega) inside))
  refine group_agrees untouched 0 signalButtons .square ?_
  refine group_agrees untouched 0 modulationButtons .ask ?_
  refine lines_agree untouched ?_
  refine icons_agree untouched 0 none ?_
  exact paint_block_agrees le_rfl (by omega) le_rfl (by omega) black24 apart same

theorem refresh_agrees (n : Nat) (e : Event) (same : m a = m' a) :
    refreshIn base pictures charAlphaMap left.newColor blocks n e m a =
      refresh base pictures charAlphaMap left n e m' a := by
  refine redrawn_agrees _ (fun i {_ _} => icons_agree untouched n (some i)) ?_
  refine redrawn_agrees _ (fun b {_ _} => group_agrees untouched n signalButtons b) ?_
  exact redrawn_agrees _ (fun b {_ _} => group_agrees untouched n modulationButtons b) same

/-- Outside the blocks the frame buffer is drawn as if there were none. -/
theorem screen_agrees (memory : Memory) (events : Nat → Event) (n : Nat) :
    screenIn base pictures charAlphaMap left.newColor blocks events memory n a =
      screen base pictures charAlphaMap left events memory n a := by
  induction n with
  | zero => exact init_agrees untouched rfl
  | succ n ih => exact refresh_agrees untouched (n + 1) (events n) ih

end Agreement

/-- No run writes outside the frame, but for the blocks, the words behind those of the longest lines,
and the ends of two lines of the background, which are drawn down to row 600. -/
theorem words_kept (pictures : Pictures) (charAlphaMap : Nat → Nat → Byte)
    (newColor : Nat → Button → Nat → Word) (blocks : Blocks) (base : Int) (memory : Memory)
    (events : Nat → Event) (n : Nat) (address : Int) (outside : Outside base address)
    (untouched : ¬ blocks.Touches address) :
    screenIn base pictures charAlphaMap newColor blocks events memory n address =
      if BelowFrame base address then white24 else memory address := by
  have agrees := @screen_agrees base pictures charAlphaMap ⟨newColor, fun _ _ _ => 0⟩ blocks address
    untouched memory events n
  exact agrees.trans (screen_outside pictures charAlphaMap _ base memory events n address outside)

def behindFrame : Blocks where
  cleanLine := 600000
  buttonLine _ _ _ := 600000
  fastBuffer _ := 600000
  bitmap _ _ := 610000
  data _ _ := 610004

theorem below_untouched : ¬ behindFrame.Touches 480647 := by
  intro touched
  cases touched with
  | cleanLine inside | buttonLine _ _ _ inside | fastBuffer _ _ _ inside | behind _ _ _ _ inside
  | bitmap _ _ inside | data _ _ inside => simp [behindFrame, Stretch] at inside

/-- The blocks are behind the frame, as is the word of the row below it. -/
theorem row_below_written :
    screenIn 0 solidPictures (fun _ _ => 255) (fun _ _ _ => 7) behindFrame playThenBack (fun _ => 5) 2
      480647 = white24 :=
  words_kept solidPictures (fun _ _ => 255) (fun _ _ _ => 7) behindFrame 0 (fun _ => 5) playThenBack 2
    480647 (.inr (by decide)) below_untouched

end Cpen311.DrawingBuffers
