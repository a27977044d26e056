import Cpen311.ClockedRun

/-! FSK tuning in the last lab: `lfsr`, the edge-capture register of the PIO
`lfsr_clk_interrupt_gen`, and the Nios handler `handle_lfsr_interrupts`. The
handler is cut at its bus accesses, each of them atomic, and edges of `lfsr_clk`
fall anywhere between them. A scheduled handler step with nothing to serve
leaves the system as it is. The handler reads before it acknowledges, so an edge
between the two accesses is acknowledged without having been served. -/
namespace Cpen311.FskTuning
open ClockedRun

/-- The next value of `lfsr`: `{q[0] ^ q[2], q[4:1]}`. -/
def lfsr (q : BitVec 5) : BitVec 5 :=
  BitVec.cons (q.getLsbD 0 ^^ q.getLsbD 2) (q.extractLsb' 1 4)

/-- What a read of `LFSR_VAL` returns: `{27'b0, LFSR[4:0]}`. -/
def lfsrVal (q : BitVec 5) : BitVec 32 := q.setWidth 32

/-- The word written to `DDS_INCREMENT`; `value` is a C `int`. -/
def tuningWord (value : BitVec 32) : BitVec 32 :=
  if value.srem 2 = 0 then 0x56 else 0x1AE

/-- The next bus access of the handler, with what it keeps in `value`. -/
inductive Handler where
  | idle
  | sampled (value : BitVec 32)
  | published (value : BitVec 32)
  | acknowledged
deriving DecidableEq

structure System where
  lfsr : BitVec 5
  edgeCapture : Bool
  ddsIncrement : BitVec 32
  handler : Handler
  served : Nat

def powerUp : System where
  lfsr := 0b00001
  edgeCapture := false
  ddsIncrement := 0
  handler := .idle
  served := 0

inductive Action where
  | edge
  | handler
deriving DecidableEq

def lfsrEdge (s : System) : System :=
  { s with lfsr := lfsr s.lfsr, edgeCapture := true }

/-- The next bus access of `handle_lfsr_interrupts`. -/
def handleLfsrInterrupts (s : System) : System :=
  match s.handler with
  | .idle => if s.edgeCapture then { s with handler := .sampled (lfsrVal s.lfsr) } else s
  | .sampled value => { s with ddsIncrement := tuningWord value, handler := .published value }
  -- any write to `EDGE_CAP` clears it
  | .published _ => { s with edgeCapture := false, handler := .acknowledged }
  -- the value read back is not used
  | .acknowledged => { s with handler := .idle, served := s.served + 1 }

def step : Action → System → System
  | .edge => lfsrEdge
  | .handler => handleLfsrInterrupts

/-- The increment that the current bit of the LFSR asks for. -/
def increment (bit : Bool) : BitVec 32 := if bit then 0x1AE else 0x56

theorem increment_inj {a b : Bool} (same : increment a = increment b) : a = b := by
  cases a <;> cases b <;> first | rfl | exact absurd same (by decide)

/-- Once some handler run has completed, a system with nothing pending is tuned. -/
def Tuned (s : System) : Prop :=
  0 < s.served → s.handler = .idle → s.edgeCapture = false →
    s.ddsIncrement = increment (s.lfsr.getLsbD 0)

theorem tuning_word_eq (value : BitVec 32) : tuningWord value = increment (value.getLsbD 0) := by
  have even : value.srem 2 = 0 ↔ value.getLsbD 0 = false := by
    have two : (2 : BitVec 32).toInt = 2 := rfl
    have zero : (0 : BitVec 32).toInt = 0 := rfl
    rw [← BitVec.toInt_inj, BitVec.toInt_srem, two, zero, ← Int.dvd_iff_tmod_eq_zero,
      BitVec.toInt_eq_toNat_cond, BitVec.getLsbD, Nat.testBit_zero, decide_eq_false_iff_not]
    omega
  simp only [tuningWord, increment, even]
  cases value.getLsbD 0 <;> rfl

section Run
variable (schedule : Nat → Action)

def run : Nat → System := drive step schedule powerUp

/-- Between its write of `DDS_INCREMENT` and its write of `EDGE_CAP` the handler
has put out the word for the value it read, whatever edges arrive. -/
def Published (s : System) : Prop :=
  ∀ value, s.handler = .published value → s.ddsIncrement = tuningWord value

theorem published_preserved (before after : System) (taken : clocked step before after)
    (inv : Published before) : Published after := by
  obtain ⟨action, rfl⟩ := taken
  cases action with
  | edge => exact inv
  | handler =>
      intro value
      simp only [step, handleLfsrInterrupts]
      cases access : before.handler with
      | idle => by_cases pending : before.edgeCapture = true <;> simp [pending, access]
      | sampled read =>
          intro here
          rw [Handler.published.inj here]
      | published read => simp
      | acknowledged => simp

/-- The handler run that writes `EDGE_CAP` at `t`, and returns before another
edge, acknowledges nothing that it has not served. -/
def ServesLatest (t : Nat) : Prop :=
  ∀ value, (run schedule t).handler = .published value → schedule t = .handler →
    schedule (t + 1) = .handler → value.getLsbD 0 = (run schedule t).lfsr.getLsbD 0

/-- What the condition keeps true at each step. After the acknowledgement it
speaks of the handler's own next step only: an edge there is still pending. -/
def Settled (s : System) (next : Action) : Prop :=
  match s.handler with
  | .idle => Tuned s
  | .acknowledged => s.edgeCapture = false → next = .handler →
      s.ddsIncrement = increment (s.lfsr.getLsbD 0)
  | _ => True

variable {schedule}

theorem settled_step {t : Nat} (published : Published (run schedule t))
    (latest : ServesLatest schedule t) (settled : Settled (run schedule t) (schedule t)) :
    Settled (run schedule (t + 1)) (schedule (t + 1)) := by
  have next : run schedule (t + 1) = step (schedule t) (run schedule t) := rfl
  cases action : schedule t with
  | edge =>
      rw [next, action]
      cases here : (run schedule t).handler <;> simp [Settled, Tuned, step, lfsrEdge, here]
  | handler =>
      rw [next, action]
      cases here : (run schedule t).handler with
      | idle =>
          by_cases pending : (run schedule t).edgeCapture = true
          · simp [Settled, step, handleLfsrInterrupts, here, pending]
          · simpa [Settled, step, handleLfsrInterrupts, here, pending] using settled
      | sampled value => simp [Settled, step, handleLfsrInterrupts, here]
      | published value =>
          -- the acknowledgement: no edge has changed the bit since it was read
          have word := published value here
          have bit := latest value here action
          rw [tuning_word_eq] at word
          simp only [Settled, step, handleLfsrInterrupts, here]
          intro _ returns
          rw [word, bit returns]
      | acknowledged =>
          simp only [Settled, here] at settled
          simp only [Settled, step, handleLfsrInterrupts, here]
          intro _ _ clear
          exact settled clear action

theorem settled_along (latest : ∀ t, ServesLatest schedule t) (t : Nat) :
    Settled (run schedule t) (schedule t) := by
  have published := invariant_along (drive_is_run step schedule powerUp) published_preserved
    (by simp [Published, drive, powerUp])
  induction t with
  | zero => simp [Settled, Tuned, run, drive, powerUp]
  | succ t ih => exact settled_step (published t) (latest t) ih

/-- An edge that is acknowledged unserved leaves the wrong word behind. -/
theorem tuned_serves_latest (tuned : ∀ t, Tuned (run schedule t)) (t : Nat) :
    ServesLatest schedule t := by
  intro value here acknowledges returns
  have published := invariant_along (drive_is_run step schedule powerUp) published_preserved
    (by simp [Published, drive, powerUp])
  have word : (run schedule t).ddsIncrement = increment (value.getLsbD 0) :=
    (published t value here).trans (tuning_word_eq value)
  have first : run schedule (t + 1) = step (schedule t) (run schedule t) := rfl
  have second : run schedule (t + 2) = step (schedule (t + 1)) (run schedule (t + 1)) := rfl
  -- two steps later the handler has returned, and nothing is pending
  have quiet := tuned (t + 2)
  simp only [second, first, acknowledges, returns, Tuned, step, handleLfsrInterrupts, here] at quiet
  have same := quiet (by omega) trivial trivial
  rw [word] at same
  exact increment_inj same

end Run

/-- Under every interleaving: the increment never goes stale if and only if
each handler run that returns before a further edge has served the bit it
acknowledges. -/
theorem never_stale_iff (schedule : Nat → Action) :
    (∀ t, Tuned (run schedule t)) ↔ ∀ t, ServesLatest schedule t := by
  constructor
  · exact fun tuned t => tuned_serves_latest tuned t
  · intro latest t _ idle
    have settled := settled_along latest t
    simp only [Settled, idle] at settled
    exact settled (by assumption) idle

/-- Four edges, then a handler run with a fifth edge right after its read. -/
def lateEdge (t : Nat) : Action := if t < 4 ∨ t = 5 then .edge else .handler

theorem late_edge_stale : ¬ ∀ t, Tuned (run lateEdge t) := by
  intro tuned
  exact absurd (tuned 9 (by decide) (by decide) (by decide)) (by decide)

end Cpen311.FskTuning
