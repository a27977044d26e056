import Mathlib.Order.Bounds.Basic
import Mathlib.Logic.Function.Basic

/-! Sets of numbers below `w * w` as bitmaps of two levels: a table of `w` rows of `w` bits, and one
more row that has a bit for each row of the table that is not empty. The least member is found with
two looks into a table of lowest bits. -/
namespace Cpen311.Bitmaps

variable {w : Nat}

structure Bitmap (w : Nat) where
  group : BitVec w
  table : Nat → BitVec w
  grouped : ∀ y < w, group.getLsbD y = true ↔ table y ≠ 0

namespace Bitmap

instance : Membership Nat (Bitmap w) where
  mem b p := p / w < w ∧ (b.table (p / w)).getLsbD (p % w) = true

theorem mem_iff {b : Bitmap w} {p : Nat} :
    p ∈ b ↔ p / w < w ∧ (b.table (p / w)).getLsbD (p % w) = true := Iff.rfl

theorem row_nonempty {v : BitVec w} {i : Nat} (bit : v.getLsbD i = true) : v ≠ 0 := by
  rintro rfl
  simp at bit

def empty (w : Nat) : Bitmap w where
  group := 0
  table _ := 0
  grouped := by simp

def insert (p : Nat) (b : Bitmap w) : Bitmap w where
  group := b.group ||| BitVec.twoPow w (p / w)
  table := Function.update b.table (p / w) (b.table (p / w) ||| BitVec.twoPow w (p % w))
  grouped y inside := by
    have bit := Nat.mod_lt p (by omega : w > 0)
    rw [BitVec.getLsbD_or, BitVec.getLsbD_twoPow, Function.update_apply]
    by_cases same : y = p / w
    · subst same
      have set : (b.table (p / w) ||| BitVec.twoPow w (p % w)).getLsbD (p % w) = true := by
        simp [bit]
      simpa [inside] using row_nonempty set
    · simpa [same, Ne.symm same] using b.grouped y inside

def remove (p : Nat) (b : Bitmap w) : Bitmap w :=
  let row := b.table (p / w) &&& ~~~BitVec.twoPow w (p % w)
  { group := if row = 0 then b.group &&& ~~~BitVec.twoPow w (p / w) else b.group
    table := Function.update b.table (p / w) row
    grouped := by
      intro y inside
      have before := b.grouped y inside
      rw [Function.update_apply]
      by_cases same : y = p / w
      · subst same
        split
        · next cleared => simp [cleared, inside]
        · next left =>
          rw [if_pos rfl, before]
          refine iff_of_true (fun none => left ?_) left
          simp only [row, none]
          exact BitVec.zero_and
      · rw [if_neg same, ← before]
        split
        · simp only [BitVec.getLsbD_and, BitVec.getLsbD_not, BitVec.getLsbD_twoPow, inside, Ne.symm same]
          simp
        · rfl }

theorem not_mem_empty (p : Nat) : p ∉ empty w := by
  simp [mem_iff, empty]

theorem same_place {p q : Nat} (row : q / w = p / w) (bit : q % w = p % w) : q = p := by
  rw [← Nat.div_add_mod q w, ← Nat.div_add_mod p w, row, bit]

theorem mem_insert {p : Nat} (inside : p / w < w) (b : Bitmap w) (q : Nat) :
    q ∈ b.insert p ↔ q = p ∨ q ∈ b := by
  have bound := Nat.mod_lt q (Nat.lt_of_le_of_lt (Nat.zero_le _) inside)
  rw [mem_iff, mem_iff, insert]
  dsimp only
  by_cases row : q / w = p / w
  · have here : q = p ↔ p % w = q % w :=
      ⟨fun same => by rw [same], fun bit => same_place row bit.symm⟩
    rw [row, Function.update_self, BitVec.getLsbD_or, BitVec.getLsbD_twoPow, here]
    by_cases same : p % w = q % w
    · simp [inside, bound, same]
    · simp [inside, same]
  · have other : q ≠ p := fun same => row (by rw [same])
    rw [Function.update_of_ne row]
    simp [other]

theorem mem_remove (p : Nat) (b : Bitmap w) (q : Nat) :
    q ∈ b.remove p ↔ q ≠ p ∧ q ∈ b := by
  rw [mem_iff, mem_iff, remove]
  dsimp only
  by_cases row : q / w = p / w
  · have here : q ≠ p ↔ ¬ p % w = q % w :=
      not_congr ⟨fun same => by rw [same], fun bit => same_place row bit.symm⟩
    rw [row, Function.update_self, BitVec.getLsbD_and, BitVec.getLsbD_not, BitVec.getLsbD_twoPow, here]
    by_cases inside : p / w < w
    · have bound := Nat.mod_lt q (Nat.lt_of_le_of_lt (Nat.zero_le _) inside)
      by_cases same : p % w = q % w
      · simp [same]
      · simp [inside, bound, same]
    · simp [inside]
  · have other : q ≠ p := fun same => row (by rw [same])
    rw [Function.update_of_ne row]
    simp [other]

/-- A table of the lowest bits of rows. -/
def LowestBit (first : BitVec w → Nat) : Prop :=
  ∀ v, v ≠ 0 → v.getLsbD (first v) = true ∧ ∀ i, v.getLsbD i = true → first v ≤ i

def lowest (first : BitVec w → Nat) (b : Bitmap w) : Nat :=
  first b.group * w + first (b.table (first b.group))

/-- The lowest bit of the lowest row is the least member. -/
theorem lowest_isLeast {first : BitVec w → Nat} (correct : LowestBit first) {b : Bitmap w}
    (nonempty : ∃ p, p ∈ b) : IsLeast {p | p ∈ b} (b.lowest first) := by
  obtain ⟨p, inside, bit⟩ := nonempty
  have someRow : b.group ≠ 0 :=
    row_nonempty ((b.grouped _ inside).mpr (row_nonempty bit))
  obtain ⟨rowSet, rowLeast⟩ := correct b.group someRow
  have rowInside := BitVec.lt_of_getLsbD rowSet
  obtain ⟨bitSet, bitLeast⟩ := correct _ ((b.grouped _ rowInside).mp rowSet)
  have bitInside := BitVec.lt_of_getLsbD bitSet
  have row : b.lowest first / w = first b.group := by
    rw [lowest, Nat.mul_comm, Nat.mul_add_div (by omega), Nat.div_eq_of_lt bitInside, Nat.add_zero]
  have column : b.lowest first % w = first (b.table (first b.group)) := by
    rw [lowest, Nat.mul_add_mod_self_right, Nat.mod_eq_of_lt bitInside]
  constructor
  · exact ⟨by omega, by rw [row, column]; exact bitSet⟩
  · rintro q ⟨within, member⟩
    have rowBelow := rowLeast _ ((b.grouped _ within).mpr (row_nonempty member))
    rw [← Nat.div_add_mod q w, lowest, Nat.mul_comm]
    rcases Nat.eq_or_lt_of_le rowBelow with same | below
    · rw [same] at bitLeast ⊢
      exact Nat.add_le_add_left (bitLeast _ member) _
    · have next : w * (first b.group + 1) ≤ w * (q / w) := Nat.mul_le_mul_left w below
      rw [Nat.mul_add, Nat.mul_one] at next
      omega

end Bitmap

end Cpen311.Bitmaps
