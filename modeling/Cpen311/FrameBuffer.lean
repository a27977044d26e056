import Mathlib.Data.List.ProdSigma
import Cpen311.Patches
import Cpen311.SimpleGraphics

/-! The frame buffer as the drawing functions write it (`vip_fr.c`, `simple_graphics.c`), with the
32 bits a pixel that `VIPFR_Init` sets. Memory is addressed by words. Every address is a pixel of
some line, the lines above and below the screen included, so that a drawing function is known by
what it writes at each pixel. -/
namespace Cpen311.FrameBuffer
open Patches SimpleGraphics

abbrev Word := BitVec 32

abbrev Memory := Int → Word

structure Display where
  frame0Base : Int
  frame1Base : Int
  displayFrame : Nat
  width : Int
  height : Int

def vipfrInit (frame0Base frame1Base frameWidth frameHeight : Int) : Display where
  frame0Base := frame0Base
  frame1Base := frame1Base
  displayFrame := 0
  width := frameWidth
  height := frameHeight

def vipfrGetDrawFrame (d : Display) : Int :=
  if d.displayFrame = 0 then d.frame1Base else d.frame0Base

def vipfrActiveDrawFrame (d : Display) : Display :=
  { d with displayFrame := (d.displayFrame + 1) % 2 }

def memcpy (addr : Int) (line : List Word) (memory : Memory) : Memory := fun a =>
  if addr ≤ a ∧ a < addr + line.length then line.getD (a - addr).toNat 0 else memory a

section Drawing
variable (d : Display)

def vidSetPixel (horiz vert : Int) (color : Word) (memory : Memory) : Memory :=
  Function.update memory (vipfrGetDrawFrame d + (vert * d.width + horiz)) color

/-- The loop of `vid_paint_block` over its lines. -/
def paintRows (line : List Word) : Nat → Int → Memory → Memory
  | 0, _, memory => memory
  | rows + 1, addr, memory => paintRows line rows (addr + d.width) (memcpy addr line memory)

/-- The line as it is copied; the block of `malloc` that holds it is not part of `memory` here. -/
def vidPaintBlock (horizStart vertStart horizEnd vertEnd : Int) (color : Word) (memory : Memory) :
    Memory :=
  let line := List.replicate (horizEnd - horizStart).toNat color
  paintRows d line (vertEnd - vertStart).toNat
    (vipfrGetDrawFrame d + (vertStart * d.width + horizStart)) memory

def vidCleanScreen (color : Word) (memory : Memory) : Memory :=
  vidPaintBlock d 0 0 d.width d.height color memory

/-- The ends are `short`. The block of `malloc` with the line is left out here too. -/
def vidDrawHorizLine (horizStart horizEnd : Coord) (vert : Int) (color : Word) (memory : Memory) :
    Memory :=
  let swapped := horizStart.toInt > horizEnd.toInt
  let low := if swapped then horizEnd.toInt else horizStart.toInt
  let high := if swapped then horizStart.toInt else horizEnd.toInt
  memcpy (vipfrGetDrawFrame d + (vert * d.width + low)) (List.replicate (high - low).toNat color)
    memory

/-- The pixels of `vid_draw_sloped_line`, one `vid_set_pixel` each. -/
def setPixels (pixels : List (Coord × Coord)) (color : Word) (memory : Memory) : Memory :=
  pixels.foldl (fun before p => vidSetPixel d p.1.toNat p.2.toNat color before) memory

def vidDrawLine (horizStart vertStart horizEnd vertEnd : Int) (color : Word) (memory : Memory) :
    Memory :=
  let coord : Int → Coord := BitVec.ofInt 16
  if vertStart = vertEnd then
    vidDrawHorizLine d (coord horizStart) (coord horizEnd) (coord vertStart).toNat color memory
  else
    setPixels d
      (vidDrawSlopedLine (coord horizStart) (coord vertStart) (coord horizEnd) (coord vertEnd))
      color memory

def vidDrawBox (horizStart vertStart horizEnd vertEnd : Int) (color : Word) (fill : Bool)
    (memory : Memory) : Memory :=
  if fill then vidPaintBlock d horizStart vertStart horizEnd vertEnd color memory
  else
    vidDrawLine d horizStart (vertEnd - 1) (horizEnd - 1) (vertEnd - 1) color <|
      vidDrawLine d horizStart vertStart (horizEnd - 1) vertStart color <|
        vidDrawLine d (horizEnd - 1) vertStart (horizEnd - 1) (vertEnd - 1) color <|
          vidDrawLine d horizStart vertStart horizStart (vertEnd - 1) color memory

/-- The pixel that an address belongs to. -/
def Display.pixel (a : Int) : Pixel :=
  ((a - vipfrGetDrawFrame d) % d.width, (a - vipfrGetDrawFrame d) / d.width)

def Display.cell (p : Pixel) : Int := vipfrGetDrawFrame d + (p.2 * d.width + p.1)

/-- What a drawing function puts where, whatever was there. -/
def Draws (op : Memory → Memory) (patch : Patch Pixel Word) : Prop :=
  Writes op fun a => patch (d.pixel a)

/-- Two nested loops, the inner one over the columns. -/
def raster (rows columns : Nat) : List (Nat × Nat) := List.range rows ×ˢ List.range columns

theorem mem_raster {rows columns : Nat} {at_ : Nat × Nat} :
    at_ ∈ raster rows columns ↔ at_.1 < rows ∧ at_.2 < columns := by
  obtain ⟨row, column⟩ := at_
  simp [raster]

/-! Shapes. -/
def block (horizStart vertStart horizEnd vertEnd : Int) (color : Word) : Patch Pixel Word := fun p =>
  if (horizStart ≤ p.1 ∧ p.1 < horizEnd) ∧ vertStart ≤ p.2 ∧ p.2 < vertEnd then some color else none

def dots (pixels : List Pixel) (color : Word) : Patch Pixel Word := fun p =>
  if p ∈ pixels then some color else none

/-- A rectangle of pixels with a value for each, or none. -/
def tile (x y : Int) (rows columns : Nat) (color : Nat → Nat → Option Word) : Patch Pixel Word :=
  fun p => if (x ≤ p.1 ∧ p.1 < x + columns) ∧ y ≤ p.2 ∧ p.2 < y + rows then
    color (p.2 - y).toNat (p.1 - x).toNat
  else none

/-- One pixel of a tile. -/
def placed (x y : Int) (color : Nat → Nat → Option Word) (at_ : Nat × Nat) : Patch Pixel Word :=
  fun p => if p = (at_.2 + x, at_.1 + y) then color at_.1 at_.2 else none

theorem placed_some {x y : Int} {color : Nat → Nat → Option Word} {at_ : Nat × Nat} {p : Pixel}
    {value : Word} (found : placed x y color at_ p = some value) :
    p = (at_.2 + x, at_.1 + y) ∧ color at_.1 at_.2 = some value := by
  unfold placed at found
  split at found
  · next here => exact ⟨here, found⟩
  · contradiction

/-- All pixels of a tile together are the tile. -/
theorem stack_placed (x y : Int) (rows columns : Nat) (color : Nat → Nat → Option Word) (p : Pixel) :
    stack (placed x y color) (raster rows columns) p = tile x y rows columns color p := by
  simp only [tile]
  split
  · next inside =>
    obtain ⟨row, down⟩ := Int.eq_ofNat_of_zero_le (by omega : 0 ≤ p.2 - y)
    obtain ⟨column, along⟩ := Int.eq_ofNat_of_zero_le (by omega : 0 ≤ p.1 - x)
    rw [down, along, Int.toNat_natCast, Int.toNat_natCast]
    have place : p = (↑column + x, ↑row + y) := Prod.ext (by omega) (by omega)
    have only (at_ : Nat × Nat) (value : Word) (found : placed x y color at_ p = some value) :
        color row column = some value := by
      obtain ⟨same, here⟩ := placed_some found
      rw [place, Prod.mk.injEq] at same
      obtain rfl : at_ = (row, column) := Prod.ext (by omega) (by omega)
      exact here
    cases here : color row column with
    | none =>
        refine stack_none fun at_ _ => ?_
        by_contra shown
        obtain ⟨value, found⟩ := Option.ne_none_iff_exists'.mp shown
        rw [only at_ value found] at here
        contradiction
    | some value =>
        refine stack_some (fun at_ _ other found => ?_) (i := (row, column))
          (mem_raster.mpr ⟨by omega, by omega⟩) ?_
        · rw [only at_ other found] at here
          exact Option.some.inj here
        · rw [placed, if_pos place]
          exact here
  · next outside =>
    refine stack_none fun at_ member => ?_
    by_contra shown
    obtain ⟨value, found⟩ := Option.ne_none_iff_exists'.mp shown
    obtain ⟨rfl, -⟩ := placed_some found
    obtain ⟨inRow, inLine⟩ := mem_raster.mp member
    omega

variable {d}

theorem draws_nothing : Draws d (fun memory => memory) fun _ => none := writes_nothing

theorem draws_congr {op : Memory → Memory} {p q : Patch Pixel Word} (draws : Draws d op p)
    (same : ∀ here, p here = q here) : Draws d op q :=
  writes_congr draws fun a => same (d.pixel a)

theorem draws_some {op : Memory → Memory} {p : Patch Pixel Word} (draws : Draws d op p) {a : Int}
    {value : Word} (here : p (d.pixel a) = some value) (memory : Memory) : op memory a = value := by
  rw [draws memory a]
  simp only [here, Option.getD_some]

theorem draws_none {op : Memory → Memory} {p : Patch Pixel Word} (draws : Draws d op p) {a : Int}
    (bare : p (d.pixel a) = none) (memory : Memory) : op memory a = memory a := by
  rw [draws memory a]
  simp only [bare, Option.getD_none]

theorem draws_atop {first second : Memory → Memory} {p q : Patch Pixel Word}
    (earlier : Draws d first p) (later : Draws d second q) :
    Draws d (fun memory => second (first memory)) (atop q p) :=
  writes_atop earlier later

theorem draws_ite {op : Memory → Memory} {p : Patch Pixel Word} (condition : Prop)
    [Decidable condition] (draws : Draws d op p) :
    Draws d (fun memory => if condition then op memory else memory)
      (fun here => if condition then p here else none) :=
  writes_ite condition fun _ => draws

theorem draws_stack {Index : Type} {op : Index → Memory → Memory} {patch : Index → Patch Pixel Word}
    (indices : List Index) (each : ∀ i ∈ indices, Draws d (op i) (patch i)) :
    Draws d (fun memory => indices.foldl (fun before i => op i before) memory)
      (stack patch indices) :=
  writes_congr (writes_stack indices each) fun a => stack_view patch indices d.pixel a

theorem cell_iff {h v : Int} (left : 0 ≤ h) (right : h < d.width) (a : Int) :
    a = d.cell (h, v) ↔ d.pixel a = (h, v) := by
  have positive : 0 < d.width := by omega
  rw [Display.pixel, Display.cell, Prod.mk.injEq]
  constructor
  · rintro rfl
    rw [add_sub_cancel_left, Int.add_comm, Int.add_mul_emod_self_right,
      Int.add_mul_ediv_right _ _ (by omega), Int.emod_eq_of_lt left right,
      Int.ediv_eq_zero_of_lt left right]
    exact ⟨rfl, Int.zero_add v⟩
  · rintro ⟨column, row⟩
    have whole := Int.mul_ediv_add_emod (a - vipfrGetDrawFrame d) d.width
    rw [column, row, Int.mul_comm] at whole
    change a = vipfrGetDrawFrame d + (v * d.width + h)
    omega

theorem pixel_cell {h v : Int} (left : 0 ≤ h) (right : h < d.width) :
    d.pixel (d.cell (h, v)) = (h, v) :=
  (cell_iff left right _).mp rfl

/-- The addresses of a stretch of one line. -/
theorem in_row_iff {low high v : Int} (left : 0 ≤ low) (order : low ≤ high) (right : high ≤ d.width)
    (some : 0 < d.width) (a : Int) :
    (d.cell (low, v) ≤ a ∧ a < d.cell (low, v) + (high - low).toNat) ↔
      (low ≤ (d.pixel a).1 ∧ (d.pixel a).1 < high) ∧ (d.pixel a).2 = v := by
  have whole := Int.mul_ediv_add_emod (a - vipfrGetDrawFrame d) d.width
  have first := Int.emod_nonneg (a - vipfrGetDrawFrame d) (by omega : d.width ≠ 0)
  have last := Int.emod_lt_of_pos (a - vipfrGetDrawFrame d) some
  rw [Display.pixel, Display.cell]
  dsimp only
  generalize (a - vipfrGetDrawFrame d) % d.width = column at *
  generalize (a - vipfrGetDrawFrame d) / d.width = row at *
  rw [Int.mul_comm] at whole
  rcases Int.lt_trichotomy row v with above | rfl | below
  · have gap : (row + 1) * d.width ≤ v * d.width := Int.mul_le_mul_of_nonneg_right above (by omega)
    rw [Int.add_mul, Int.one_mul] at gap
    omega
  · omega
  · have gap : (v + 1) * d.width ≤ row * d.width := Int.mul_le_mul_of_nonneg_right below (by omega)
    rw [Int.add_mul, Int.one_mul] at gap
    omega

theorem set_pixel_draws {h v : Int} (left : 0 ≤ h) (right : h < d.width) (color : Word) :
    Draws d (vidSetPixel d h v color) (dots [(h, v)] color) := by
  intro memory a
  change Function.update memory (d.cell (h, v)) color a = _
  simp only [Function.update_apply, dots, cell_iff left right, List.mem_singleton]
  split <;> rfl

theorem memcpy_draws {low high v : Int} (left : 0 ≤ low) (order : low ≤ high)
    (right : high ≤ d.width) (some : 0 < d.width) (color : Word) :
    Draws d (memcpy (d.cell (low, v)) (List.replicate (high - low).toNat color))
      (block low v high (v + 1) color) := by
  intro memory a
  have inside := @in_row_iff d low high v left order right some a
  simp only [memcpy, List.length_replicate, block]
  by_cases here : (low ≤ (d.pixel a).1 ∧ (d.pixel a).1 < high) ∧ (d.pixel a).2 = v
  · have reached := inside.mpr here
    rw [if_pos reached, if_pos ⟨here.1, by omega⟩, List.getD_eq_getElem?_getD,
      List.getElem?_replicate, if_pos (by omega)]
    rfl
  · rw [if_neg (mt inside.mp here), if_neg (fun covered => here ⟨covered.1, by omega⟩)]
    rfl

theorem rows_draw {low high : Int} (left : 0 ≤ low) (order : low ≤ high) (right : high ≤ d.width)
    (some : 0 < d.width) (color : Word) (rows : Nat) (v : Int) :
    Draws d (paintRows d (List.replicate (high - low).toNat color) rows (d.cell (low, v)))
      (block low v high (v + rows) color) := by
  induction rows generalizing v with
  | zero =>
      change Draws d (fun memory => memory) _
      refine draws_congr draws_nothing fun here => (if_neg ?_).symm
      omega
  | succ rows ih =>
      have next : d.cell (low, v) + d.width = d.cell (low, v + 1) := by
        simp only [Display.cell, Int.add_mul, Int.one_mul]
        omega
      have below := ih (v + 1)
      rw [← next] at below
      have both := draws_atop (memcpy_draws (v := v) left order right some color) below
      refine draws_congr both fun here => ?_
      simp only [atop, block]
      split_ifs <;> first | rfl | omega

theorem paint_block_draws {horizStart vertStart horizEnd vertEnd : Int} (left : 0 ≤ horizStart)
    (order : horizStart ≤ horizEnd) (right : horizEnd ≤ d.width) (some : 0 < d.width)
    (color : Word) :
    Draws d (vidPaintBlock d horizStart vertStart horizEnd vertEnd color)
      (block horizStart vertStart horizEnd vertEnd color) := by
  have rows := rows_draw left order right some color (vertEnd - vertStart).toNat vertStart
  refine draws_congr rows fun here => ?_
  simp only [block]
  split_ifs <;> first | rfl | omega

theorem set_pixels_draw (pixels : List (Coord × Coord))
    (inside : ∀ p ∈ pixels, (p.1.toNat : Int) < d.width) (color : Word) :
    Draws d (setPixels d pixels color) (dots (pixels.map toPixel) color) := by
  have each : ∀ p ∈ pixels, Draws d (vidSetPixel d p.1.toNat p.2.toNat color)
      (dots [toPixel p] color) :=
    fun p member => set_pixel_draws (Int.natCast_nonneg _) (inside p member) color
  refine draws_congr (draws_stack pixels each) fun here => ?_
  change _ = if _ then some color else none
  split
  · next drawn =>
    obtain ⟨p, member, rfl⟩ := List.mem_map.mp drawn
    refine stack_some (fun q _ x top => ?_) member (if_pos (List.mem_singleton_self _))
    unfold dots at top
    split at top <;> simp_all
  · next bare =>
    refine stack_none fun p member => if_neg fun same => bare ?_
    rw [List.mem_singleton.mp same]
    exact List.mem_map_of_mem member

/-- From the smaller to the larger end, the larger one excluded. -/
theorem horiz_line_draws {horizStart horizEnd : Coord} (left : 0 ≤ min horizStart.toInt horizEnd.toInt)
    (right : max horizStart.toInt horizEnd.toInt ≤ d.width) (some : 0 < d.width) (v : Int)
    (color : Word) :
    Draws d (vidDrawHorizLine d horizStart horizEnd v color)
      (block (min horizStart.toInt horizEnd.toInt) v (max horizStart.toInt horizEnd.toInt) (v + 1)
        color) := by
  have order : min horizStart.toInt horizEnd.toInt ≤ max horizStart.toInt horizEnd.toInt :=
    le_trans (min_le_left ..) (le_max_left ..)
  have row := memcpy_draws (v := v) left order right some color
  intro memory a
  rw [← row memory a]
  unfold vidDrawHorizLine
  by_cases swapped : horizStart.toInt > horizEnd.toInt
  · simp only [swapped, if_true, min_eq_right (Int.le_of_lt swapped), max_eq_left (Int.le_of_lt swapped)]
    rfl
  · simp only [swapped, if_false, min_eq_left (Int.not_lt.mp swapped),
      max_eq_right (Int.not_lt.mp swapped)]
    rfl

theorem coord_nat {n : Int} (low : 0 ≤ n) (high : n < 2 ^ 15) :
    ((BitVec.ofInt 16 n).toNat : Int) = n := by
  rw [BitVec.toNat_ofInt]
  omega

theorem coord_int {n : Int} (low : 0 ≤ n) (high : n < 2 ^ 15) : (BitVec.ofInt 16 n).toInt = n := by
  have value := coord_nat low high
  rw [BitVec.toInt_eq_toNat_of_lt (by omega), value]

theorem level_line_draws {left right vert : Int} (first : 0 ≤ left) (order : left ≤ right)
    (last : right ≤ d.width) (some : 0 < d.width) (short : right < 2 ^ 15) (top : 0 ≤ vert)
    (bottom : vert < 2 ^ 15) (color : Word) :
    Draws d (vidDrawLine d left vert right vert color) (block left vert right (vert + 1) color) := by
  have low := coord_int first (by omega)
  have high := coord_int (by omega : 0 ≤ right) short
  have drawn := @horiz_line_draws d (BitVec.ofInt 16 left) (BitVec.ofInt 16 right)
    (by omega) (by omega) some vert color
  rw [low, high, min_eq_left order, max_eq_right order] at drawn
  intro memory a
  rw [← drawn memory a]
  unfold vidDrawLine
  simp only [if_true, coord_nat top bottom]

/-- Down a column: the walk of `vid_draw_sloped_line` never leaves it. -/
theorem column_pixels {x first last : Coord} (order : first < last) :
    (vidDrawSlopedLine x first x last).map toPixel =
      (List.range (delta first last + 1)).map fun k : Nat => ((x.toNat : Int), (first.toNat : Int) + k) := by
  have none : delta x x = 0 := by simp [delta]
  have down : incr first last = 1 := if_neg (BitVec.not_lt.mpr (BitVec.le_of_lt order))
  have tall : 0 < delta first last := by
    rw [BitVec.lt_def] at order
    unfold delta
    omega
  rw [steep_pixels _ _ _ _ (by omega), List.map_map, none, down]
  refine List.map_congr_left fun k _ => ?_
  have straight : Bresenham.minor (delta first last) 0 k = 0 := by
    rw [Bresenham.minor, Nat.div_eq_zero_iff]
    omega
  rw [Function.comp_apply, straight]
  simp [incr]

theorem column_line_draws {x first last : Int} (left : 0 ≤ x) (right : x < d.width)
    (narrow : x < 2 ^ 15) (top : 0 ≤ first) (order : first < last) (bottom : last < 2 ^ 15)
    (color : Word) :
    Draws d (vidDrawLine d x first x last color) (block x first (x + 1) (last + 1) color) := by
  have across := coord_nat left narrow
  have above := coord_nat top (by omega)
  have below := coord_nat (by omega : 0 ≤ last) bottom
  have down : BitVec.ofInt 16 first < BitVec.ofInt 16 last := by
    rw [BitVec.lt_def]
    omega
  have pixels := @column_pixels (BitVec.ofInt 16 x) _ _ down
  have length : (delta (BitVec.ofInt 16 first) (BitVec.ofInt 16 last) : Int) = last - first := by
    unfold delta
    omega
  have drawn := set_pixels_draw (d := d)
    (vidDrawSlopedLine (BitVec.ofInt 16 x) (BitVec.ofInt 16 first) (BitVec.ofInt 16 x)
      (BitVec.ofInt 16 last)) (fun p member => by
      have listed := List.mem_map_of_mem (f := toPixel) member
      rw [pixels] at listed
      obtain ⟨k, -, same⟩ := List.mem_map.mp listed
      have place : (p.1.toNat : Int) = x := (congrArg Prod.fst same).symm.trans across
      omega) color
  rw [pixels] at drawn
  intro memory a
  have stored := draws_congr drawn (q := block x first (x + 1) (last + 1) color) (fun p => by
    have listed : p ∈ ((List.range (delta (BitVec.ofInt 16 first) (BitVec.ofInt 16 last) + 1)).map
        fun k : Nat => (((BitVec.ofInt 16 x).toNat : Int), ((BitVec.ofInt 16 first).toNat : Int) + k)) ↔
        (x ≤ p.1 ∧ p.1 < x + 1) ∧ first ≤ p.2 ∧ p.2 < last + 1 := by
      rw [List.mem_map, across, above]
      constructor
      · rintro ⟨k, inside, rfl⟩
        have bound := List.mem_range.mp inside
        dsimp only
        omega
      · intro inside
        refine ⟨(p.2 - first).toNat, List.mem_range.mpr (by omega), Prod.ext ?_ ?_⟩ <;> dsimp only <;> omega
    simp only [dots, block, listed]) memory a
  rw [← stored]
  unfold vidDrawLine
  simp only [if_neg (Int.ne_of_lt order)]

/-- The buffer of `vid_draw_horiz_line` has 3072 bytes; its loop stores four bytes a pixel. -/
def storesInBuffer (horizStart horizEnd : Coord) : Prop :=
  ∀ i < (horizEnd.toInt - horizStart.toInt).natAbs * 4, i < 1024 * 3

theorem stores_in_buffer_iff (horizStart horizEnd : Coord) :
    storesInBuffer horizStart horizEnd ↔ (horizEnd.toInt - horizStart.toInt).natAbs ≤ 768 := by
  constructor
  · intro stores
    by_contra long
    have last := stores 3072 (by omega)
    omega
  · intro short i inside
    omega

end Drawing

end Cpen311.FrameBuffer
