import Mathlib.Data.List.Infix

/-! Code words looked up in a buffer that is filled from the front and padded
behind. A word matches as soon as it is a prefix of the buffer; in a prefix-free
code no word matches before the one that is being received is complete. -/
namespace Cpen311.PrefixCode

variable {Symbol Value : Type} [DecidableEq Symbol]

def lookup (rows : List (List Symbol × Value)) (buffer : List Symbol) : Option Value :=
  (rows.find? fun row => row.1.isPrefixOf buffer).map Prod.snd

structure PrefixFree (pad : Symbol) (rows : List (List Symbol × Value)) : Prop where
  free : ∀ row ∈ rows, ∀ other ∈ rows, row.1 <+: other.1 → row = other
  unpadded : ∀ row ∈ rows, pad ∉ row.1
  nonempty : ∀ row ∈ rows, row.1 ≠ []

variable {pad : Symbol} {rows : List (List Symbol × Value)}

theorem lookup_none {buffer : List Symbol} (absent : ∀ row ∈ rows, ¬ row.1 <+: buffer) :
    lookup rows buffer = none := by
  unfold lookup
  rw [Option.map_eq_none_iff, List.find?_eq_none]
  intro row member
  simpa using absent row member

theorem lookup_only {buffer : List Symbol} {row : List Symbol × Value} (member : row ∈ rows)
    (matching : row.1 <+: buffer) (only : ∀ other ∈ rows, other.1 <+: buffer → other = row) :
    lookup rows buffer = some row.2 := by
  unfold lookup
  rw [Option.map_eq_some_iff]
  refine ⟨row, ?_, rfl⟩
  obtain ⟨found, search⟩ : ∃ found, rows.find? (fun r => r.1.isPrefixOf buffer) = some found := by
    rw [← Option.isSome_iff_exists, List.find?_isSome]
    exact ⟨row, member, by simpa using matching⟩
  have matched := List.find?_some search
  rw [search, only found (List.mem_of_find?_eq_some search) (by simpa using matched)]

omit [DecidableEq Symbol] in
/-- A word without padding that matches, matches the received symbols alone. -/
theorem prefix_unpadded {word received : List Symbol} {n : Nat} (clean : pad ∉ word)
    (matching : word <+: received ++ List.replicate n pad) : word <+: received := by
  rcases Nat.le_total word.length received.length with short | long
  · exact List.prefix_of_prefix_length_le matching (List.prefix_append _ _) short
  · obtain ⟨tail, rfl⟩ := List.prefix_of_prefix_length_le (List.prefix_append _ _) matching long
    rw [List.prefix_append_right_inj, List.prefix_replicate_iff] at matching
    rw [matching.2] at clean
    cases tail with
    | nil => simp
    | cons x tail => simp at clean

variable (code : PrefixFree pad rows)
include code

theorem lookup_complete {row : List Symbol × Value} (member : row ∈ rows) (n : Nat) :
    lookup rows (row.1 ++ List.replicate n pad) = some row.2 :=
  lookup_only member (List.prefix_append _ _) fun other listed matching =>
    code.free other listed row member (prefix_unpadded (code.unpadded other listed) matching)

theorem lookup_begun {row : List Symbol × Value} (member : row ∈ rows) {received : List Symbol}
    (begun : received <+: row.1) (missing : received ≠ row.1) (n : Nat) :
    lookup rows (received ++ List.replicate n pad) = none :=
  lookup_none fun other listed matching => by
    have early := prefix_unpadded (code.unpadded other listed) matching
    have same := code.free other listed row member (early.trans begun)
    subst same
    exact missing (begun.eq_of_length_le early.length_le)

end Cpen311.PrefixCode
