import Mathlib.Data.List.Range
import Mathlib.Tactic.Ring
import Mathlib.Tactic.Linarith

/-! The line algorithm of Bresenham. A walk takes one step along the major axis
at each iteration and decides by an accumulator whether it also takes one along
the minor axis. The accumulator is the rounding error, so the decision after
`k` steps depends on `k` alone: the line is at the nearest point of the grid,
the nearer one to the start when two are equally near. -/
namespace Cpen311.Bresenham

universe u
variable {Point : Type u}

/-- `count` iterations of the loop: plot, then step. -/
def walk (major both : Point → Point) (dPr dPru : Int) : Nat → Int → Point → List Point
  | 0, _, _ => []
  | count + 1, P, p =>
      p :: if P > 0 then walk major both dPr dPru count (P + dPru) (both p)
        else walk major both dPr dPru count (P + dPr) (major p)

/-- The loop for the distances `n` and `m` along the two axes. -/
def line (major both : Point → Point) (n m : Nat) (start : Point) : List Point :=
  walk major both (2 * m) (2 * m - 2 * n) (n + 1) (2 * m - n) start

/-- The steps along the minor axis before the `k`th point. -/
def minor (n m k : Nat) : Nat := (2 * m * k + n - 1) / (2 * n)

section Minor
variable {n m : Nat}

theorem minor_bounds (positive : 0 < n) (k : Nat) :
    2 * (n * minor n m k) ≤ 2 * m * k + n - 1 ∧ 2 * m * k + n - 1 < 2 * (n * minor n m k) + 2 * n := by
  have whole := Nat.div_add_mod (2 * m * k + n - 1) (2 * n)
  have rest := Nat.mod_lt (2 * m * k + n - 1) (Nat.mul_pos (by decide : 0 < 2) positive)
  rw [Nat.mul_assoc] at whole
  unfold minor
  omega

theorem minor_unique {k q : Nat} (low : 2 * (n * q) ≤ 2 * m * k + n - 1)
    (high : 2 * m * k + n - 1 < 2 * (n * q) + 2 * n) : minor n m k = q := by
  have floor : q * (2 * n) = 2 * (n * q) := by ring
  have ceiling : (q + 1) * (2 * n) = 2 * (n * q) + 2 * n := by ring
  refine Nat.div_eq_of_lt_le ?_ ?_
  · rw [floor]
    exact low
  · rw [ceiling]
    exact high

theorem minor_zero (n m : Nat) : minor n m 0 = 0 := by
  rcases Nat.eq_zero_or_pos n with rfl | positive
  · exact Nat.div_zero _
  · exact minor_unique (by omega) (by omega)

theorem minor_succ (steep : m ≤ n) (positive : 0 < n) (k : Nat) :
    minor n m (k + 1) =
      if (2 * m * (k + 1) : Int) - n - 2 * (n * minor n m k) > 0 then minor n m k + 1
      else minor n m k := by
  obtain ⟨low, high⟩ := @minor_bounds n m positive k
  have next : 2 * m * (k + 1) = 2 * m * k + 2 * m := Nat.mul_succ _ k
  have more : n * (minor n m k + 1) = n * minor n m k + n := Nat.mul_succ n _
  generalize minor n m k = q at *
  generalize hp : n * q = p at *
  have cast : ((n : Int) * q) = (p : Int) := by exact_mod_cast hp
  have castNext : (2 * m * (k + 1) : Int) = ((2 * m * k + 2 * m : Nat) : Int) := by
    rw [← next]
    push_cast
    ring
  rw [cast, castNext]
  split
  · refine minor_unique ?_ ?_
    · rw [more, next]
      omega
    · rw [more, next]
      omega
  · refine minor_unique ?_ ?_
    · rw [hp, next]
      omega
    · rw [hp, next]
      omega

theorem minor_step (steep : m ≤ n) (positive : 0 < n) (k : Nat) :
    minor n m (k + 1) = minor n m k ∨ minor n m (k + 1) = minor n m k + 1 := by
  rw [minor_succ steep positive]
  split
  · exact .inr rfl
  · exact .inl rfl

theorem minor_end (steep : m ≤ n) : minor n m n = m := by
  rcases Nat.eq_zero_or_pos n with rfl | positive
  · simp [minor]
    omega
  · have same : n * m = m * n := Nat.mul_comm n m
    refine minor_unique ?_ ?_
    · rw [same, Nat.mul_assoc]
      omega
    · rw [same, Nat.mul_assoc]
      omega

theorem minor_le (steep : m ≤ n) {k : Nat} (inside : k ≤ n) : minor n m k ≤ m := by
  have scaled := Nat.mul_le_mul_left (2 * m) inside
  have last := minor_end steep
  have order : minor n m k ≤ minor n m n := Nat.div_le_div_right (by omega)
  omega

/-- The point is within half a step of the ideal line, along the minor axis. -/
theorem minor_near (positive : 0 < n) (k : Nat) :
    2 * |(n * minor n m k : Int) - m * k| ≤ n := by
  obtain ⟨low, high⟩ := @minor_bounds n m positive k
  have shape : 2 * m * k = 2 * (m * k) := Nat.mul_assoc 2 m k
  rw [shape] at low high
  have cast : ((m : Int) * k) = ((m * k : Nat) : Int) := by push_cast; rfl
  have cast' : ((n : Int) * (minor n m k : Nat)) = ((n * minor n m k : Nat) : Int) := by
    push_cast
    rfl
  rw [cast, cast']
  rcases abs_cases (((n * minor n m k : Nat) : Int) - ((m * k : Nat) : Int)) with ⟨same, _⟩ | ⟨same, _⟩
  · omega
  · omega

end Minor

/-- The points of the line, for steps that move on a grid. -/
theorem line_eq {major both : Point → Point} {n m : Nat} (steep : m ≤ n) (pos : Nat → Nat → Point)
    (isMajor : ∀ i j, major (pos i j) = pos (i + 1) j)
    (isBoth : ∀ i j, both (pos i j) = pos (i + 1) (j + 1)) :
    line major both n m (pos 0 0) =
      (List.range (n + 1)).map fun k => pos k (minor n m k) := by
  rcases Nat.eq_zero_or_pos n with rfl | positive
  · simp [line, walk, minor_zero]
  · have loop : ∀ count k : Nat, walk major both (2 * m) (2 * m - 2 * n) count
        ((2 * m * (k + 1) : Int) - n - 2 * (n * minor n m k)) (pos k (minor n m k)) =
          (List.range' k count).map fun i => pos i (minor n m i) := by
      intro count
      induction count with
      | zero => exact fun k => rfl
      | succ count ih =>
          intro k
          rw [walk, List.range'_succ, List.map_cons, ← ih (k + 1), minor_succ steep positive k]
          congr 1
          split
          · rw [isBoth]
            push_cast
            ring_nf
          · rw [isMajor]
            push_cast
            ring_nf
    have all := loop (n + 1) 0
    rw [minor_zero, ← List.range_eq_range'] at all
    rw [line, ← all]
    congr 1
    push_cast
    ring

end Cpen311.Bresenham
