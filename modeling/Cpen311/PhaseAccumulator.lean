import Mathlib.Data.Nat.Count

/-! A phase accumulator and the square wave in its top bit. The phase is a sum that wraps at
twice `half`; the wave is high in the upper half. When no step is longer than `half` no edge is
skipped, so the rising edges count the turns, whatever the single steps are. -/
namespace Cpen311.PhaseAccumulator

variable (half : Nat)

def Upper (sum : Nat) : Prop := half ≤ sum % (2 * half)

instance (sum : Nat) : Decidable (Upper half sum) := inferInstanceAs (Decidable (_ ≤ _))

/-- How often a phase that is not wrapped has come into an upper half. -/
def crossings (sum : Nat) : Nat := (sum + half) / (2 * half)

/-- The wave rises between two phases. -/
def Rise (before after : Nat) : Prop := ¬ Upper half before ∧ Upper half after

instance (before after : Nat) : Decidable (Rise half before after) :=
  inferInstanceAs (Decidable (_ ∧ _))

variable {half} (positive : 0 < half)
include positive

theorem crossings_eq (sum : Nat) :
    crossings half sum = sum / (2 * half) + if Upper half sum then 1 else 0 := by
  have whole := Nat.div_add_mod sum (2 * half)
  have inside := Nat.mod_lt sum (Nat.mul_pos (by decide : 0 < 2) positive)
  have turn : 2 * half * (sum / (2 * half) + 1) = 2 * half * (sum / (2 * half)) + 2 * half :=
    Nat.mul_succ _ _
  have place : Upper half sum ↔ half ≤ sum % (2 * half) := Iff.rfl
  by_cases upper : Upper half sum
  · rw [if_pos upper]
    rw [place] at upper
    refine ((@Nat.div_mod_unique (2 * half) _ _ (sum % (2 * half) - half) (by omega)).mpr ⟨?_, ?_⟩).1
    · omega
    · omega
  · rw [if_neg upper, Nat.add_zero]
    rw [place] at upper
    refine ((@Nat.div_mod_unique (2 * half) _ _ (sum % (2 * half) + half) (by omega)).mpr ⟨?_, ?_⟩).1
    · omega
    · omega

theorem crossings_step (sum : Nat) {step : Nat} (short : step ≤ half) :
    crossings half (sum + step) =
      crossings half sum + if Rise half sum (sum + step) then 1 else 0 := by
  have whole := Nat.div_add_mod sum (2 * half)
  have inside := Nat.mod_lt sum (Nat.mul_pos (by decide : 0 < 2) positive)
  have turn : 2 * half * (sum / (2 * half) + 1) = 2 * half * (sum / (2 * half)) + 2 * half :=
    Nat.mul_succ _ _
  have before : Upper half sum ↔ half ≤ sum % (2 * half) := Iff.rfl
  have after : Upper half (sum + step) ↔ half ≤ (sum + step) % (2 * half) := Iff.rfl
  rw [crossings_eq positive, crossings_eq positive]
  simp only [Rise, before, after]
  rcases Nat.lt_or_ge (sum % (2 * half) + step) (2 * half) with same | next
  · -- still in the same turn
    obtain ⟨turns, place⟩ : (sum + step) / (2 * half) = sum / (2 * half) ∧
        (sum + step) % (2 * half) = sum % (2 * half) + step :=
      (Nat.div_mod_unique (by omega)).mpr ⟨by omega, same⟩
    rw [turns, place]
    split <;> split <;> split <;> omega
  · obtain ⟨turns, place⟩ : (sum + step) / (2 * half) = sum / (2 * half) + 1 ∧
        (sum + step) % (2 * half) = sum % (2 * half) + step - 2 * half :=
      (Nat.div_mod_unique (by omega)).mpr ⟨by omega, by omega⟩
    rw [turns, place]
    split <;> split <;> split <;> omega

/-- The edges of a run are the turns it makes. -/
theorem count_rises {sum : Nat → Nat} {n : Nat}
    (short : ∀ t < n, sum t ≤ sum (t + 1) ∧ sum (t + 1) ≤ sum t + half) :
    Nat.count (fun t => Rise half (sum t) (sum (t + 1))) n + crossings half (sum 0) =
      crossings half (sum n) := by
  induction n with
  | zero => exact Nat.zero_add _
  | succ n ih =>
      obtain ⟨step, next⟩ := Nat.exists_eq_add_of_le (short n (Nat.lt_succ_self n)).1
      have bound := (short n (Nat.lt_succ_self n)).2
      have before := ih fun t early => short t (Nat.lt_succ_of_lt early)
      rw [Nat.count_succ, Nat.add_right_comm, before, next, crossings_step positive _ (by omega)]

/-- How many edges a phase can have on its way, in terms of the way alone. -/
theorem crossings_near (sum way : Nat) :
    way < 2 * half * (crossings half (sum + way) - crossings half sum + 1) ∧
      2 * half * (crossings half (sum + way) - crossings half sum) < way + 2 * half := by
  have first := Nat.div_add_mod (sum + half) (2 * half)
  have last := Nat.div_add_mod (sum + way + half) (2 * half)
  have inFirst := Nat.mod_lt (sum + half) (Nat.mul_pos (by decide : 0 < 2) positive)
  have inLast := Nat.mod_lt (sum + way + half) (Nat.mul_pos (by decide : 0 < 2) positive)
  have order : (sum + half) / (2 * half) ≤ (sum + way + half) / (2 * half) :=
    Nat.div_le_div_right (by omega)
  have scaled := Nat.mul_le_mul_left (2 * half) order
  unfold crossings
  rw [Nat.mul_succ, Nat.mul_sub]
  omega

end Cpen311.PhaseAccumulator
