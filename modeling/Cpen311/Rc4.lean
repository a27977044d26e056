import Mathlib.Logic.Equiv.Basic
import Mathlib.Data.BitVec

/-! RC4 over words of any width: the key schedule, the keystream generator and
the permutation invariant. The box is a function on words, and one round of
either phase exchanges two of its cells. -/
namespace Cpen311.Rc4

section Exchange
variable {Index Value : Type*} [DecidableEq Index]

def exchange (box : Index → Value) (i j : Index) : Index → Value :=
  fun k => if k = i then box j else if k = j then box i else box k

theorem exchange_eq_swap (box : Index → Value) (i j : Index) :
    exchange box i j = box ∘ Equiv.swap i j := by
  funext k
  simp only [exchange, Function.comp_apply, Equiv.swap_apply_def, apply_ite box]

theorem exchange_bijective (box : Index → Value) (i j : Index)
    (bijective : Function.Bijective box) : Function.Bijective (exchange box i j) := by
  rw [exchange_eq_swap]
  exact bijective.comp (Equiv.swap i j).bijective

/-- Writing the cell at `j` and then the cell at `i` with the values read before
is an exchange, also when the indices are equal. -/
theorem exchange_by_writes (box : Index → Value) (i j : Index) :
    Function.update (Function.update box j (box i)) i (box j) = exchange box i j := by
  funext k
  simp only [exchange, Function.update_apply]

theorem exchange_left (box : Index → Value) (i j : Index) : exchange box i j i = box j := by
  simp [exchange]

theorem exchange_right (box : Index → Value) (i j : Index) : exchange box i j j = box i := by
  by_cases same : j = i <;> simp [exchange, same]

theorem exchange_eq_self (box : Index → Value) (i j : Index) :
    exchange box i j = box ↔ box i = box j := by
  constructor
  · intro same
    rw [← exchange_left box i j, same]
  · intro equal
    funext k
    by_cases atI : k = i
    · rw [atI, exchange_left, equal]
    · by_cases atJ : k = j
      · rw [atJ, exchange_right, equal]
      · simp [exchange, atI, atJ]

end Exchange

variable {w : Nat}

structure Cipher (w : Nat) where
  box : BitVec w → BitVec w
  j : BitVec w

/-- Round `n` of the key schedule, for a key byte sequence `key`. -/
def scheduleRound (key : Nat → BitVec w) (n : Nat) (cipher : Cipher w) : Cipher w :=
  let i := BitVec.ofNat w n
  let j := cipher.j + cipher.box i + key n
  ⟨exchange cipher.box i j, j⟩

def schedule (key : Nat → BitVec w) : Nat → Cipher w
  | 0 => ⟨id, 0⟩
  | n + 1 => scheduleRound key n (schedule key n)

def keySchedule (key : Nat → BitVec w) : BitVec w → BitVec w := (schedule key (2 ^ w)).box

/-- Round `k` of the generator uses index `k + 1`: the index is incremented first. -/
def generateRound (k : Nat) (cipher : Cipher w) : Cipher w :=
  let i := BitVec.ofNat w (k + 1)
  let j := cipher.j + cipher.box i
  ⟨exchange cipher.box i j, j⟩

def generate (box : BitVec w → BitVec w) : Nat → Cipher w
  | 0 => ⟨box, 0⟩
  | k + 1 => generateRound k (generate box k)

def output (k : Nat) (cipher : Cipher w) : BitVec w :=
  cipher.box (cipher.box (BitVec.ofNat w (k + 1)) + cipher.box cipher.j)

def keystream (key : Nat → BitVec w) (k : Nat) : BitVec w :=
  output k (generate (keySchedule key) (k + 1))

theorem schedule_bijective (key : Nat → BitVec w) (n : Nat) :
    Function.Bijective (schedule key n).box := by
  induction n with
  | zero => exact Function.bijective_id
  | succ n ih => exact exchange_bijective _ _ _ ih

theorem key_schedule_bijective (key : Nat → BitVec w) :
    Function.Bijective (keySchedule key) := schedule_bijective key _

theorem generate_bijective (box : BitVec w → BitVec w) (bijective : Function.Bijective box)
    (k : Nat) : Function.Bijective (generate box k).box := by
  induction k with
  | zero => exact bijective
  | succ k ih => exact exchange_bijective _ _ _ ih

/-- The generator adds the two exchanged cells; read before the exchange they
are the cells at `j` and at the index. -/
theorem output_exchanged (k : Nat) (cipher : Cipher w) :
    output k (generateRound k cipher) =
      (generateRound k cipher).box
        (cipher.box (generateRound k cipher).j + cipher.box (BitVec.ofNat w (k + 1))) := by
  simp only [output, generateRound, exchange_left, exchange_right]

end Cpen311.Rc4
