import Mathlib.Algebra.Order.Ring.Abs
import Mathlib.Data.List.Chain
import Cpen311.Bresenham

/-! Straight and sloped lines (`simple_graphics.c`). A drawing function is its list of
`vid_set_pixel` calls, in order. -/
namespace Cpen311.SimpleGraphics
open Bresenham

/-- An `unsigned short`. -/
abbrev Coord := BitVec 16

abbrev Pixel := Int × Int

/-- `horiz_incr` and `vert_incr`. -/
def incr (start stop : Coord) : Int := if start > stop then -1 else 1

def delta (start stop : Coord) : Nat := ((stop.toNat : Int) - start.toNat).natAbs

/-- `c += by` for an `unsigned short`. -/
def Coord.add (c : Coord) (by_ : Int) : Coord := c + BitVec.ofInt 16 by_

def vidDrawSlopedLine (horizStart vertStart horizEnd vertEnd : Coord) : List (Coord × Coord) :=
  let horizIncr := incr horizStart horizEnd
  let vertIncr := incr vertStart vertEnd
  let horizDelta := delta horizStart horizEnd
  let vertDelta := delta vertStart vertEnd
  let both : Coord × Coord → Coord × Coord := fun p => (p.1.add horizIncr, p.2.add vertIncr)
  if horizDelta ≥ vertDelta then
    line (fun p => (p.1.add horizIncr, p.2)) both horizDelta vertDelta (horizStart, vertStart)
  else
    line (fun p => (p.1, p.2.add vertIncr)) both vertDelta horizDelta (horizStart, vertStart)

/-- The arguments of `vid_set_pixel` are `int`. -/
def toPixel (p : Coord × Coord) : Pixel := (p.1.toNat, p.2.toNat)

/-! What a line on a grid is. -/
def Adjacent (p q : Pixel) : Prop := p ≠ q ∧ |q.1 - p.1| ≤ 1 ∧ |q.2 - p.2| ≤ 1

/-- The longer of the two distances. -/
def span (a b : Pixel) : Int := max |b.1 - a.1| |b.2 - a.2|

/-- From `a` to `b`, connected, no longer than it must be, and every pixel within half a pixel of
the straight line, measured along the shorter axis. -/
structure Rasterizes (pixels : List Pixel) (a b : Pixel) : Prop where
  first : pixels.head? = some a
  last : pixels.getLast? = some b
  length : (pixels.length : Int) = span a b + 1
  connected : pixels.IsChain Adjacent
  near : ∀ p ∈ pixels,
    2 * |(p.1 - a.1) * (b.2 - a.2) - (p.2 - a.2) * (b.1 - a.1)| ≤ span a b

theorem rasterizes_swap {pixels : List Pixel} {a b : Pixel} (line : Rasterizes pixels a b) :
    Rasterizes (pixels.map Prod.swap) a.swap b.swap := by
  have same : span a.swap b.swap = span a b := max_comm _ _
  refine ⟨by simp [line.first], by simp [line.last], by simp [line.length, same], ?_, ?_⟩
  · refine (List.isChain_map _).mpr (line.connected.imp fun p q next => ?_)
    exact ⟨fun swapped => next.1 (Prod.swap_injective swapped), next.2.2, next.2.1⟩
  · intro p member
    obtain ⟨q, listed, rfl⟩ := List.mem_map.mp member
    rw [same, abs_sub_comm]
    simpa [mul_comm] using line.near q listed

section Axis
variable {σ τ : Int} (hσ : |σ| = 1) (hτ : |τ| = 1) {n m : Nat} (steep : m ≤ n) (a : Pixel)
include hσ hτ steep

/-- The closed form of the algorithm is a line on the grid, in each of the four directions. -/
theorem minor_rasterizes :
    Rasterizes ((List.range (n + 1)).map fun k : Nat => (a.1 + σ * k, a.2 + τ * (minor n m k : Nat)))
      a (a.1 + σ * n, a.2 + τ * m) := by
  have long : span a (a.1 + σ * n, a.2 + τ * m) = n := by
    simp [span, abs_mul, hσ, hτ]
    exact_mod_cast steep
  refine ⟨?_, ?_, ?_, ?_, ?_⟩
  · simp [List.head?_range, minor_zero]
  · simp [List.getLast?_range, minor_end steep]
  · simp [long]
  · rw [List.isChain_map, List.isChain_range]
    intro k inside
    obtain ⟨u, once, same⟩ : ∃ u : Int, (u = 0 ∨ u = 1) ∧
        ((minor n m (k + 1) : Nat) : Int) = (minor n m k : Nat) + u := by
      rcases minor_step steep (by omega : 0 < n) k with stays | moves
      · exact ⟨0, .inl rfl, by rw [stays, add_zero]⟩
      · exact ⟨1, .inr rfl, by rw [moves]; push_cast; rfl⟩
    have right : a.1 + σ * ((k + 1 : Nat) : Int) - (a.1 + σ * k) = σ := by
      push_cast
      ring
    have down : a.2 + τ * ((minor n m (k + 1) : Nat) : Int) - (a.2 + τ * (minor n m k : Nat)) =
        τ * u := by
      rw [same]
      ring
    refine ⟨fun equal => ?_, ?_, ?_⟩
    · have moved := congrArg Prod.fst equal
      simp only at moved
      rw [moved, sub_self] at right
      rw [← right] at hσ
      simp at hσ
    · rw [right, hσ]
    · rw [down, abs_mul, hτ, one_mul]
      rcases once with rfl | rfl <;> simp
  · intro p member
    obtain ⟨k, inside, rfl⟩ := List.mem_map.mp member
    have cross : (a.1 + σ * k - a.1) * (a.2 + τ * m - a.2) -
        (a.2 + τ * (minor n m k : Nat) - a.2) * (a.1 + σ * n - a.1) =
          -(σ * τ * (n * (minor n m k : Nat) - m * k)) := by
      ring
    rw [long, cross, abs_neg, abs_mul, abs_mul, hσ, hτ, one_mul, one_mul]
    rcases Nat.eq_zero_or_pos n with rfl | positive
    · obtain rfl : m = 0 := by omega
      simp
    · exact minor_near positive k

end Axis

section Steps
variable (start stop : Coord)

def along (σ : Int) (i : Nat) : Coord := start + BitVec.ofInt 16 (σ * i)

theorem along_add (σ : Int) (i : Nat) : (along start σ i).add σ = along start σ (i + 1) := by
  rw [along, Coord.add, along, BitVec.add_assoc, ← BitVec.ofInt_add]
  congr 2
  push_cast
  ring

theorem incr_abs : |incr start stop| = 1 := by
  unfold incr
  split <;> rfl

/-- Between its ends the coordinate does not wrap. -/
theorem along_value {i : Nat} (inside : i ≤ delta start stop) :
    ((along start (incr start stop) i).toNat : Int) = start.toNat + incr start stop * i := by
  have low := start.isLt
  have high := stop.isLt
  unfold delta at inside
  rw [along, BitVec.toNat_add, BitVec.toNat_ofInt, incr]
  split
  · next backwards =>
    rw [gt_iff_lt, BitVec.lt_def] at backwards
    omega
  · next forwards =>
    rw [gt_iff_lt, BitVec.lt_def] at forwards
    omega

theorem delta_end : (stop.toNat : Int) = start.toNat + incr start stop * delta start stop := by
  unfold delta incr
  split
  · next backwards =>
    rw [gt_iff_lt, BitVec.lt_def] at backwards
    omega
  · next forwards =>
    rw [gt_iff_lt, BitVec.lt_def] at forwards
    omega

end Steps

theorem along_zero (c : Coord) (σ : Int) : along c σ 0 = c := by
  simp [along]

section Sloped
variable (horizStart vertStart horizEnd vertEnd : Coord)

theorem flat_pixels (flat : delta vertStart vertEnd ≤ delta horizStart horizEnd) :
    (vidDrawSlopedLine horizStart vertStart horizEnd vertEnd).map toPixel =
      (List.range (delta horizStart horizEnd + 1)).map fun k : Nat =>
        ((horizStart.toNat : Int) + incr horizStart horizEnd * k,
          (vertStart.toNat : Int) + incr vertStart vertEnd *
            (minor (delta horizStart horizEnd) (delta vertStart vertEnd) k : Nat)) := by
  have points := @line_eq (Coord × Coord) (fun p => (p.1.add (incr horizStart horizEnd), p.2))
    (fun p => (p.1.add (incr horizStart horizEnd), p.2.add (incr vertStart vertEnd))) _ _ flat
    (fun i j => (along horizStart (incr horizStart horizEnd) i,
      along vertStart (incr vertStart vertEnd) j))
    (fun i j => Prod.ext (along_add horizStart _ i) rfl)
    (fun i j => Prod.ext (along_add horizStart _ i) (along_add vertStart _ j))
  rw [along_zero, along_zero] at points
  rw [vidDrawSlopedLine, if_pos flat, points, List.map_map]
  refine List.map_congr_left fun k inside => ?_
  have bound : k ≤ delta horizStart horizEnd := Nat.le_of_lt_succ (List.mem_range.mp inside)
  exact Prod.ext (along_value horizStart horizEnd bound)
    (along_value vertStart vertEnd (minor_le flat bound))

theorem steep_pixels (steep : ¬ delta vertStart vertEnd ≤ delta horizStart horizEnd) :
    (vidDrawSlopedLine horizStart vertStart horizEnd vertEnd).map toPixel =
      ((List.range (delta vertStart vertEnd + 1)).map fun k : Nat =>
        ((vertStart.toNat : Int) + incr vertStart vertEnd * k,
          (horizStart.toNat : Int) + incr horizStart horizEnd *
            (minor (delta vertStart vertEnd) (delta horizStart horizEnd) k : Nat))).map
        Prod.swap := by
  have tall : delta horizStart horizEnd ≤ delta vertStart vertEnd := by omega
  have points := @line_eq (Coord × Coord) (fun p => (p.1, p.2.add (incr vertStart vertEnd)))
    (fun p => (p.1.add (incr horizStart horizEnd), p.2.add (incr vertStart vertEnd))) _ _ tall
    (fun i j => (along horizStart (incr horizStart horizEnd) j,
      along vertStart (incr vertStart vertEnd) i))
    (fun i j => Prod.ext rfl (along_add vertStart _ i))
    (fun i j => Prod.ext (along_add horizStart _ j) (along_add vertStart _ i))
  rw [along_zero, along_zero] at points
  rw [vidDrawSlopedLine, if_neg steep, points, List.map_map, List.map_map]
  refine List.map_congr_left fun k inside => ?_
  have bound : k ≤ delta vertStart vertEnd := Nat.le_of_lt_succ (List.mem_range.mp inside)
  exact Prod.ext (along_value horizStart horizEnd (minor_le tall bound))
    (along_value vertStart vertEnd bound)

/-- Both loops, whichever axis is the longer one, draw a line between any two points. -/
theorem sloped_line_rasterizes :
    Rasterizes ((vidDrawSlopedLine horizStart vertStart horizEnd vertEnd).map toPixel)
      (toPixel (horizStart, vertStart)) (toPixel (horizEnd, vertEnd)) := by
  have across := incr_abs horizStart horizEnd
  have down := incr_abs vertStart vertEnd
  have ends : toPixel (horizEnd, vertEnd) =
      (horizStart.toNat + incr horizStart horizEnd * delta horizStart horizEnd,
        vertStart.toNat + incr vertStart vertEnd * delta vertStart vertEnd) := by
    rw [toPixel, delta_end horizStart horizEnd, delta_end vertStart vertEnd]
  rw [ends]
  by_cases flat : delta vertStart vertEnd ≤ delta horizStart horizEnd
  · rw [flat_pixels _ _ _ _ flat]
    exact minor_rasterizes across down flat (toPixel (horizStart, vertStart))
  · have tall : delta horizStart horizEnd ≤ delta vertStart vertEnd := by omega
    rw [steep_pixels _ _ _ _ flat]
    exact rasterizes_swap
      (minor_rasterizes down across tall (toPixel (horizStart, vertStart)).swap)

end Sloped

end Cpen311.SimpleGraphics
