import Mathlib.Data.List.Induction
import Mathlib.Tactic.ByContra

/-! Writes to a memory as patches. A patch has new contents for some of the cells; an operation
that writes a patch leaves the other cells and does not depend on what any cell held. -/
namespace Cpen311.Patches

universe u v w
variable {Cell : Type u} {Value : Type v} {Index : Type w}

abbrev Patch (Cell : Type u) (Value : Type v) := Cell → Option Value

def Writes (op : (Cell → Value) → Cell → Value) (patch : Patch Cell Value) : Prop :=
  ∀ memory cell, op memory cell = (patch cell).getD (memory cell)

def atop (later earlier : Patch Cell Value) : Patch Cell Value :=
  fun cell => (later cell).or (earlier cell)

/-- The patches of a list of writes, the last on top. -/
def stack (patch : Index → Patch Cell Value) (indices : List Index) : Patch Cell Value :=
  indices.foldl (fun below i => atop (patch i) below) fun _ => none

theorem writes_nothing : Writes (fun memory => memory) (fun _ : Cell => (none : Option Value)) :=
  fun _ _ => rfl

theorem writes_atop {first second : (Cell → Value) → Cell → Value} {p q : Patch Cell Value}
    (earlier : Writes first p) (later : Writes second q) :
    Writes (fun memory => second (first memory)) (atop q p) := by
  intro memory cell
  change second (first memory) cell = _
  rw [later, earlier, atop]
  cases q cell <;> rfl

theorem writes_congr {op : (Cell → Value) → Cell → Value} {p q : Patch Cell Value}
    (writes : Writes op p) (same : ∀ cell, p cell = q cell) : Writes op q :=
  fun memory cell => same cell ▸ writes memory cell

theorem writes_ite {op : (Cell → Value) → Cell → Value} {p : Patch Cell Value} (condition : Prop)
    [Decidable condition] (writes : condition → Writes op p) :
    Writes (fun memory => if condition then op memory else memory)
      (fun cell => if condition then p cell else none) := by
  intro memory cell
  by_cases holds : condition
  · simp only [if_pos holds]
    exact writes holds memory cell
  · simp only [if_neg holds]
    rfl

/-- A loop of writes. -/
theorem writes_stack {op : Index → (Cell → Value) → Cell → Value} {patch : Index → Patch Cell Value}
    (indices : List Index) (each : ∀ i ∈ indices, Writes (op i) (patch i)) :
    Writes (fun memory => indices.foldl (fun before i => op i before) memory)
      (stack patch indices) := by
  suffices general : ∀ (start : (Cell → Value) → Cell → Value) (base : Patch Cell Value),
      Writes start base →
      Writes (fun memory => indices.foldl (fun before i => op i before) (start memory))
        (indices.foldl (fun below i => atop (patch i) below) base) from
    general (fun memory => memory) _ writes_nothing
  induction indices with
  | nil => exact fun start base writes => writes
  | cons i rest ih =>
      intro start base writes
      exact ih (fun j member => each j (List.mem_cons_of_mem i member)) (fun memory => op i (start memory))
        _ (writes_atop writes (each i List.mem_cons_self))

theorem stack_append (patch : Index → Patch Cell Value) (indices : List Index) (last : Index) :
    stack patch (indices ++ [last]) = atop (patch last) (stack patch indices) := by
  rw [stack, List.foldl_append]
  rfl

/-- A view of the cells. -/
theorem stack_view {View : Type*} (patch : Index → Patch Cell Value) (indices : List Index)
    (view : View → Cell) (place : View) :
    stack (fun i place => patch i (view place)) indices place = stack patch indices (view place) := by
  induction indices using List.reverseRecOn with
  | nil => rfl
  | append_singleton rest last ih => rw [stack_append, stack_append, atop, atop, ih]

theorem stack_none {patch : Index → Patch Cell Value} {indices : List Index} {cell : Cell}
    (each : ∀ i ∈ indices, patch i cell = none) : stack patch indices cell = none := by
  induction indices using List.reverseRecOn with
  | nil => rfl
  | append_singleton rest last ih =>
      rw [stack_append, atop, each last (by simp), ih fun i member => each i (by simp [member])]
      rfl

/-- What all patches that have the cell agree on. -/
theorem stack_some {patch : Index → Patch Cell Value} {indices : List Index} {cell : Cell}
    {value : Value} (agreed : ∀ i ∈ indices, ∀ x, patch i cell = some x → x = value)
    {i : Index} (member : i ∈ indices) (here : patch i cell = some value) :
    stack patch indices cell = some value := by
  induction indices using List.reverseRecOn with
  | nil => contradiction
  | append_singleton rest last ih =>
      rw [stack_append, atop]
      cases top : patch last cell with
      | some x =>
          rw [agreed last (by simp) x top]
          rfl
      | none =>
          have inRest : i ∈ rest := by
            rcases List.mem_append.mp member with before | atLast
            · exact before
            · rw [List.mem_singleton.mp atLast, top] at here
              contradiction
          exact ih (fun j before => agreed j (by simp [before])) inRest

theorem atop_within {later earlier : Patch Cell Value} {cell : Cell} :
    (atop later earlier cell).isSome ↔ (later cell).isSome ∨ (earlier cell).isSome := by
  rw [atop]
  cases later cell <;> simp

end Cpen311.Patches
