import Cpen311.ClockedRun

/-! A pipelined read port seen from outside, cycle by cycle. Nothing is assumed
of the slave beyond the rules of the bus: it accepts a read in a cycle of its
choice, answers accepted reads in order, each at least two cycles later, and
drives meaningful data only together with `readdatavalid`. -/
namespace Cpen311.AvalonRead
open ClockedRun

structure Bus (Address Word : Type) where
  read : Bool
  waitrequest : Bool
  address : Address
  readdatavalid : Bool
  readdata : Word

variable {Address Word : Type}

def Accepted (b : Bus Address Word) : Prop := b.read = true ∧ b.waitrequest = false

def Answered (b : Bus Address Word) : Prop := b.readdatavalid = true

instance (b : Bus Address Word) : Decidable (Accepted b) := inferInstanceAs (Decidable (_ ∧ _))

instance (b : Bus Address Word) : Decidable (Answered b) := inferInstanceAs (Decidable (_ = true))

/-- The answer numbered `k` belongs to the accepted read numbered `k`. -/
structure Legal (content : Address → Word) (bus : Nat → Bus Address Word) : Prop where
  inOrder : ∀ v, Answered (bus v) → ∃ c, c + 2 ≤ v ∧
    VisitAt Accepted bus (earlierVisits Answered bus v) c ∧
    (bus v).readdata = content (bus c).address
  served : ∀ c, Accepted (bus c) → ∃ v, VisitAt Answered bus (earlierVisits Accepted bus c) v

/-- A slave that answers every accepted read after exactly `latency` cycles. -/
structure FixedLatency (latency : Nat) (content : Address → Word)
    (bus : Nat → Bus Address Word) : Prop where
  silent : ∀ t, t < latency → ¬ Answered (bus t)
  answers : ∀ t, Answered (bus (t + latency)) ↔ Accepted (bus t)
  data : ∀ t, Accepted (bus t) → (bus (t + latency)).readdata = content (bus t).address

section FixedLatency
variable {latency : Nat} {content : Address → Word} {bus : Nat → Bus Address Word}

theorem answers_follow (slave : FixedLatency latency content bus) (t : Nat) :
    earlierVisits Answered bus (t + latency) = earlierVisits Accepted bus t := by
  induction t with
  | zero =>
      have none : earlierVisits Answered bus (0 + latency) = earlierVisits Answered bus 0 :=
        earlier_visits_quiet Answered bus (by simpa using slave.silent)
      simpa [earlierVisits] using none
  | succ t ih =>
      -- the counts grow together, since an answer is due exactly `latency` cycles later
      have paired := slave.answers t
      unfold earlierVisits at *
      rw [Nat.succ_add, Nat.count_succ, Nat.count_succ, ih]
      simp only [paired]

theorem fixed_latency_legal (enough : 2 ≤ latency) (slave : FixedLatency latency content bus) :
    Legal content bus := by
  constructor
  · intro v answered
    have late : latency ≤ v := by
      by_contra early
      exact slave.silent v (by omega) answered
    obtain ⟨c, rfl⟩ := Nat.exists_eq_add_of_le' late
    have accepted := (slave.answers c).mp answered
    exact ⟨c, by omega, ⟨accepted, (answers_follow slave c).symm⟩, slave.data c accepted⟩
  · intro c accepted
    exact ⟨c + latency, (slave.answers c).mpr accepted, answers_follow slave c⟩

end FixedLatency

end Cpen311.AvalonRead
