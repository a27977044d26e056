import Mathlib.Data.List.Range
import Cpen311.ClockedRun

/-! What a run reports: the values an output shows, clock by clock, as a list. -/
namespace Cpen311.Reports

universe u
variable {State : Type u} {Out : Type u}

def reported (out : State → Option Out) (run : Nat → State) (a b : Nat) : List Out :=
  (List.range' a (b - a)).filterMap fun t => out (run t)

variable {out : State → Option Out} {run : Nat → State}

theorem reported_append {a m b : Nat} (first : a ≤ m) (second : m ≤ b) :
    reported out run a b = reported out run a m ++ reported out run m b := by
  obtain ⟨k, rfl⟩ := Nat.exists_eq_add_of_le first
  obtain ⟨n, rfl⟩ := Nat.exists_eq_add_of_le second
  unfold reported
  rw [← List.filterMap_append, Nat.add_sub_cancel_left, Nat.add_sub_cancel_left,
    List.range'_append_1, Nat.add_assoc, Nat.add_sub_cancel_left]

theorem reported_nothing {a b : Nat} (quiet : ∀ t, a ≤ t → t < b → out (run t) = none) :
    reported out run a b = [] := by
  unfold reported
  rw [List.filterMap_eq_nil_iff]
  intro t member
  rw [List.mem_range'_1] at member
  exact quiet t member.1 (by omega)

theorem reported_self (a : Nat) : reported out run a a = [] :=
  reported_nothing fun _ after before => absurd after (Nat.not_le_of_lt before)

theorem reported_once {a t b : Nat} {x : Out} (after : a ≤ t) (before : t < b)
    (here : out (run t) = some x)
    (elsewhere : ∀ u, a ≤ u → u < b → u ≠ t → out (run u) = none) :
    reported out run a b = [x] := by
  have now : reported out run t (t + 1) = [x] := by
    simp [reported, here]
  rw [reported_append after (Nat.le_of_lt before), reported_append (Nat.le_succ t) before, now,
    reported_nothing fun u late early => elsewhere u late (by omega) (by omega),
    reported_nothing fun u late early => elsewhere u (by omega) early (by omega)]
  rfl

end Cpen311.Reports
