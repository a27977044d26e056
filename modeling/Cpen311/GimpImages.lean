import Cpen311.FrameBuffer

/-! The pictures of GIMP on the screen (`gimp_bmp.c`, `draw_gimps.c`): the conversion to a bitmap
of 32 bits a pixel and its copy into the frame buffer, with one colour left out. -/
namespace Cpen311.GimpImages
open Patches SimpleGraphics FrameBuffer

abbrev Byte := BitVec 8

structure GimpImage where
  width : Nat
  height : Nat
  bytesPerPixel : Nat
  pixelData : Nat → Byte

/-- `biWidth` and `biHeight` are `short`. -/
structure Bitmap where
  biWidth : Int
  biHeight : Int
  data : Nat → Byte

/-- The four stores for one pixel. -/
def store24To32 (src : Nat → Byte) (s t : Nat) (dest : Nat → Byte) : Nat → Byte :=
  Function.update (Function.update (Function.update (Function.update dest
    (t + 2) (src s)) (t + 1) (src (s + 1))) t (src (s + 2))) (t + 3) 0xff

def copyPixMap24To32 (src : Nat → Byte) (activeWidth activeHeight srcLineWidth destLineWidth : Nat)
    (dest : Nat → Byte) : Nat → Byte :=
  (raster activeHeight activeWidth).foldl (fun before at_ =>
    store24To32 src (at_.1 * (3 * srcLineWidth) + 3 * at_.2) (at_.1 * (4 * destLineWidth) + 4 * at_.2)
      before) dest

def store32To32 (src : Nat → Byte) (s t : Nat) (dest : Nat → Byte) : Nat → Byte :=
  Function.update (Function.update (Function.update (Function.update dest
    t (src s)) (t + 1) (src (s + 1))) (t + 2) (src (s + 2))) (t + 3) (src (s + 3))

def copyPixMap32To32 (src : Nat → Byte) (activeWidth activeHeight srcLineWidth destLineWidth : Nat)
    (dest : Nat → Byte) : Nat → Byte :=
  (raster activeHeight activeWidth).foldl (fun before at_ =>
    store32To32 src (at_.1 * (4 * srcLineWidth) + 4 * at_.2) (at_.1 * (4 * destLineWidth) + 4 * at_.2)
      before) dest

/-- `load_gimp_bmp` for 32 bits a pixel; `fresh` is what `malloc` returns. -/
def loadGimpBmp (gimpImage : GimpImage) (fresh : Nat → Byte) : Bitmap :=
  let biWidth := (BitVec.ofNat 16 gimpImage.width).toInt
  let biHeight := (BitVec.ofNat 16 gimpImage.height).toInt
  { biWidth := biWidth
    biHeight := biHeight
    data :=
      if gimpImage.bytesPerPixel = 4 then
        copyPixMap32To32 gimpImage.pixelData biWidth.toNat biHeight.toNat biWidth.toNat
          biWidth.toNat fresh
      else if gimpImage.bytesPerPixel = 3 then
        copyPixMap24To32 gimpImage.pixelData biWidth.toNat biHeight.toNat biWidth.toNat
          biWidth.toNat fresh
      else fresh }

/-- The colour of three channels in a word of the frame buffer. -/
def rgb (red green blue : Byte) : Word :=
  (red.setWidth 32 <<< 16 ||| green.setWidth 32 <<< 8 ||| blue.setWidth 32) &&& 0xffffff

/-- `src` advances by four bytes at each pixel. -/
def asVidCopyImageToBuffer3 (dest : Int) (src : Nat → Byte) (destWidth srcWidth srcHeight : Int)
    (x y wFit hFit : Int) (transparent : Word) (memory : Memory) : Memory :=
  (raster srcHeight.toNat srcWidth.toNat).foldl (fun before at_ =>
    let s := 4 * (at_.1 * srcWidth.toNat + at_.2)
    let realColor := rgb (src (s + 2)) (src (s + 1)) (src s)
    if ((at_.1 : Int) ≤ hFit ∧ (at_.2 : Int) ≤ wFit) ∧ realColor ≠ transparent then
      Function.update before (dest + ((at_.1 + y) * destWidth + (at_.2 + x))) realColor
    else before) memory

/-- The destination is the frame that is shown, where `vid_set_pixel` takes the other one. -/
def dispImageFromGimp (d : Display) (gimpImage : GimpImage) (fresh : Nat → Byte) (x y : Int)
    (transparent : Word) (memory : Memory) : Memory :=
  let image := loadGimpBmp gimpImage fresh
  let imageDest := if d.displayFrame = 0 then d.frame0Base else d.frame1Base
  asVidCopyImageToBuffer3 imageDest image.data d.width image.biWidth image.biHeight x y image.biWidth
    image.biHeight transparent memory

/-- The colour of a pixel in the source of a picture. -/
def GimpImage.color (image : GimpImage) (row column : Nat) : Word :=
  let k := image.bytesPerPixel * (row * image.width + column)
  rgb (image.pixelData k) (image.pixelData (k + 1)) (image.pixelData (k + 2))

/-- The picture at a place of the screen, with holes where it has the colour `transparent`. -/
def picture (image : GimpImage) (x y : Int) (transparent : Word) : Patch Pixel Word :=
  tile x y image.height image.width fun row column =>
    if image.color row column ≠ transparent then some (image.color row column) else none

/-- The bytes of a pixel in the bitmap: blue first, then a constant after red. -/
def converted (src : Nat → Byte) (a : Nat) : Byte :=
  match a % 4 with
  | 0 => src (3 * (a / 4) + 2)
  | 1 => src (3 * (a / 4) + 1)
  | 2 => src (3 * (a / 4))
  | _ => 0xff

/-- The bytes of the pixel at a row and a column. -/
def bytesOf (src : Nat → Byte) (width : Nat) (at_ : Nat × Nat) : Patch Nat Byte := fun a =>
  if a / 4 = at_.1 * width + at_.2 then some (converted src a) else none

theorem store_writes (src : Nat → Byte) (width : Nat) (at_ : Nat × Nat) :
    Writes (store24To32 src (at_.1 * (3 * width) + 3 * at_.2) (at_.1 * (4 * width) + 4 * at_.2))
      (bytesOf src width at_) := by
  intro dest a
  have source : at_.1 * (3 * width) + 3 * at_.2 = 3 * (at_.1 * width + at_.2) := by ring
  have target : at_.1 * (4 * width) + 4 * at_.2 = 4 * (at_.1 * width + at_.2) := by ring
  simp only [store24To32, Function.update_apply, converted, bytesOf, source, target]
  generalize at_.1 * width + at_.2 = k
  by_cases here : a / 4 = k
  · subst here
    have left : a % 4 < 4 := Nat.mod_lt _ (by omega)
    have whole : 4 * (a / 4) + a % 4 = a := Nat.div_add_mod a 4
    generalize a / 4 = k at *
    rcases (by omega : a % 4 = 0 ∨ a % 4 = 1 ∨ a % 4 = 2 ∨ a % 4 = 3) with rest | rest | rest | rest
    all_goals
      rw [rest] at whole ⊢
      subst whole
      simp
  · rw [if_neg here, if_neg (by omega), if_neg (by omega), if_neg (by omega), if_neg (by omega)]
    rfl

theorem copy_24_to_32 (src dest : Nat → Byte) {width height row column : Nat} (inRow : row < height)
    (inLine : column < width) (a : Nat) (here : a / 4 = row * width + column) :
    copyPixMap24To32 src width height width width dest a = converted src a := by
  have loop := writes_stack (raster height width) (fun at_ _ => store_writes src width at_) dest a
  have top : stack (bytesOf src width) (raster height width) a = some (converted src a) := by
    refine stack_some (fun i _ x found => ?_) (i := (row, column))
      (mem_raster.mpr ⟨inRow, inLine⟩) (if_pos here)
    unfold bytesOf at found
    split at found
    · exact (Option.some.inj found).symm
    · contradiction
  rw [top] at loop
  exact loop

section Screen
variable {d : Display}

theorem short_value {n : Nat} (small : n < 2 ^ 15) : (BitVec.ofNat 16 n).toInt = n := by
  have value : (BitVec.ofNat 16 n).toNat = n := by
    rw [BitVec.toNat_ofNat]
    omega
  rw [BitVec.toInt_eq_toNat_of_lt (by omega), value]

/-- The sizes that `load_gimp_bmp` supports, with three bytes a pixel. -/
structure GimpImage.Plain (image : GimpImage) : Prop where
  three : image.bytesPerPixel = 3
  wide : image.width < 2 ^ 15
  high : image.height < 2 ^ 15

theorem bitmap_width {image : GimpImage} (plain : image.Plain) (fresh : Nat → Byte) :
    (loadGimpBmp image fresh).biWidth = image.width := short_value plain.wide

theorem bitmap_height {image : GimpImage} (plain : image.Plain) (fresh : Nat → Byte) :
    (loadGimpBmp image fresh).biHeight = image.height := short_value plain.high

theorem bitmap_color {image : GimpImage} (plain : image.Plain) (fresh : Nat → Byte)
    {row column : Nat} (inRow : row < image.height) (inLine : column < image.width) (s : Nat)
    (start : s = 4 * (row * image.width + column)) :
    rgb ((loadGimpBmp image fresh).data (s + 2)) ((loadGimpBmp image fresh).data (s + 1))
      ((loadGimpBmp image fresh).data s) = image.color row column := by
  have bytes (c : Nat) (small : c < 4) : (loadGimpBmp image fresh).data (s + c) =
      converted image.pixelData (s + c) := by
    simp only [loadGimpBmp, plain.three, short_value plain.wide, short_value plain.high,
      Int.toNat_natCast]
    exact copy_24_to_32 _ _ inRow inLine _ (by omega)
  rw [bytes 2 (by omega), bytes 1 (by omega), show s = s + 0 from rfl, bytes 0 (by omega)]
  have divided (c : Nat) (small : c < 4) :
      (s + c) % 4 = c ∧ (s + c) / 4 = row * image.width + column := by omega
  simp only [converted, divided _ (by omega : 0 < 4), divided _ (by omega : 1 < 4),
    divided _ (by omega : 2 < 4), GimpImage.color, plain.three]

/-- `DispIMAGE_from_gimp` shows the picture with its colours, when both frames are one. -/
theorem disp_image_draws {image : GimpImage} (plain : image.Plain) (fresh : Nat → Byte) {x y : Int}
    (oneFrame : d.frame0Base = d.frame1Base) (left : 0 ≤ x) (right : x + image.width ≤ d.width)
    (transparent : Word) :
    Draws d (dispImageFromGimp d image fresh x y transparent) (picture image x y transparent) := by
  have base : (if d.displayFrame = 0 then d.frame0Base else d.frame1Base) = vipfrGetDrawFrame d := by
    unfold vipfrGetDrawFrame
    rw [oneFrame]
  have each : ∀ at_ ∈ raster image.height image.width,
      Draws d (fun memory => if image.color at_.1 at_.2 ≠ transparent then
        vidSetPixel d (at_.2 + x) (at_.1 + y) (image.color at_.1 at_.2) memory else memory)
        (placed x y (fun row column =>
          if image.color row column ≠ transparent then some (image.color row column) else none) at_) := by
    intro at_ member
    obtain ⟨-, inLine⟩ := mem_raster.mp member
    have store := set_pixel_draws (d := d) (h := at_.2 + x) (v := at_.1 + y) (by omega) (by omega)
      (image.color at_.1 at_.2)
    refine draws_congr (draws_ite (image.color at_.1 at_.2 ≠ transparent) store) fun here => ?_
    simp only [dots, placed, List.mem_singleton]
    split_ifs <;> rfl
  have loop : Draws d _ (picture image x y transparent) :=
    draws_congr (draws_stack _ each) (stack_placed x y _ _ _)
  intro memory a
  rw [← loop memory a]
  unfold dispImageFromGimp asVidCopyImageToBuffer3
  simp only [base, bitmap_width plain, bitmap_height plain, Int.toNat_natCast]
  refine congrFun (List.foldl_ext _ _ _ fun before at_ member => ?_) a
  obtain ⟨inRow, inLine⟩ := mem_raster.mp member
  have inside : (at_.1 : Int) ≤ image.height ∧ (at_.2 : Int) ≤ image.width := by omega
  rw [bitmap_color plain fresh inRow inLine _ rfl]
  simp only [inside, true_and]
  rfl

end Screen

end Cpen311.GimpImages
