import Mathlib.Data.BitVec
import Cpen311.ClockedRun

/-! The samples on their way to the audio FIFO of lab5 (`send_audio_fifo`, `audio_dac_fifo_full`
and `audio_dac_wr_fifo`). The processor moves three pins by single bus writes, and the FIFO is
drained at any time between two of them. -/
namespace Cpen311.AudioFifo
open ClockedRun

abbrev Sample := BitVec 8

abbrev Word := BitVec 32

/-- A FIFO that is written at the rising edges of `wrclk` while `wrreq` is high. Reading it does
not make it full. -/
structure Fifo where
  State : Type
  contents : State → List Word
  full : State → Bool
  push : Word → State → State
  pop : State → State
  push_contents : ∀ w s, full s = false → contents (push w s) = contents s ++ [w]
  pop_contents : ∀ s, contents (pop s) = (contents s).tail
  pop_room : ∀ s, full s = false → full (pop s) = false

def Fifo.clock (fifo : Fifo) : Option Word → fifo.State → fifo.State
  | some word, queue => fifo.push word queue
  | none, queue => queue

/-- `IOWR(AUDIO_WRREQ_BASE, 0, _)`, and so on. -/
inductive Access
  | wrreq (level : Bool)
  | wrclk (level : Bool)
  | outDataAudio (word : Word)

/-- The sample on both channels. -/
def loaded (muestra : Sample) : Word :=
  (muestra.setWidth 32 <<< 8) ||| (muestra.setWidth 32 <<< 24)

def audioDacWrFifo (muestra : Sample) : List Access :=
  [.wrreq false, .wrclk false, .outDataAudio 0,
   .outDataAudio (loaded muestra),
   .wrreq true, .wrclk false, .wrclk true, .wrclk false,
   .wrreq false, .wrclk false, .outDataAudio 0]

structure Pins where
  wrreq : Bool
  wrclk : Bool
  dataAudio : Word

def Pins.access (p : Pins) : Access → Pins
  | .wrreq level => { p with wrreq := level }
  | .wrclk level => { p with wrclk := level }
  | .outDataAudio word => { p with dataAudio := word }

/-- The word that an access clocks into the FIFO. -/
def Pins.clocked (p : Pins) : Access → Option Word
  | .wrclk level => if level && !p.wrclk && p.wrreq then some p.dataAudio else none
  | _ => none

section Driver
variable (fifo : Fifo)

structure System where
  /-- The samples that the loop has still to send. -/
  todo : List Sample
  /-- The accesses of the call under way. -/
  accesses : List Access
  pins : Pins
  queue : fifo.State
  heard : List Word

inductive Action
  | processor
  | drain

variable {fifo}

/-- The loop waits for as long as `audio_dac_fifo_full` returns 1. -/
def sendAudioFifo (s : System fifo) : System fifo :=
  match s.accesses with
  | a :: rest =>
      { s with
        accesses := rest
        pins := s.pins.access a
        queue := fifo.clock (s.pins.clocked a) s.queue }
  | [] =>
      match s.todo with
      | [] => s
      | muestra :: rest =>
          if fifo.full s.queue then s
          else { s with todo := rest, accesses := audioDacWrFifo muestra }

def drain (s : System fifo) : System fifo :=
  { s with queue := fifo.pop s.queue, heard := s.heard ++ (fifo.contents s.queue).take 1 }

def step : Action → System fifo → System fifo
  | .processor => sendAudioFifo
  | .drain => drain

/-- The words that the accesses will clock in. -/
def pulses : List Access → Pins → List Word
  | [], _ => []
  | a :: rest, p => (p.clocked a).toList ++ pulses rest (p.access a)

/-- What was sent so far and is to be sent. -/
def System.stream (s : System fifo) : List Word :=
  s.heard ++ fifo.contents s.queue ++ pulses s.accesses s.pins ++ s.todo.map loaded

/-- The room that the call under way needs. -/
def System.HasRoom (s : System fifo) : Prop :=
  (pulses s.accesses s.pins).length ≤ 1 ∧
    (pulses s.accesses s.pins ≠ [] → fifo.full s.queue = false)

def System.Returned (s : System fifo) : Prop := s.todo = [] ∧ s.accesses = []

/-- A call clocks its sample in, once, whatever the levels of the pins are before. -/
theorem pulses_call (muestra : Sample) (p : Pins) :
    pulses (audioDacWrFifo muestra) p = [loaded muestra] := by
  obtain ⟨_ | _, _ | _, word⟩ := p <;> rfl

section Step
variable {s : System fifo} (room : s.HasRoom)
include room

theorem access_room {a : Access} {rest : List Access} (next : s.accesses = a :: rest) :
    (sendAudioFifo s).stream = s.stream ∧ (sendAudioFifo s).HasRoom := by
  unfold System.HasRoom at room
  rw [next, pulses] at room
  rw [System.stream, System.stream, System.HasRoom, sendAudioFifo, next, pulses]
  cases word : s.pins.clocked a with
  | none => simpa [word, Fifo.clock] using room
  | some w =>
      rw [word] at room
      have single : pulses rest (s.pins.access a) = [] := by
        have one := room.1
        rw [Option.toList_some, List.singleton_append, List.length_cons] at one
        exact List.length_eq_zero_iff.mp (by omega)
      have unfilled : fifo.full s.queue = false := room.2 (by simp)
      simp [single, word, Fifo.clock, fifo.push_contents w s.queue unfilled]

theorem processor_room : (sendAudioFifo s).stream = s.stream ∧ (sendAudioFifo s).HasRoom := by
  cases accesses : s.accesses with
  | cons a rest => exact access_room room accesses
  | nil =>
      cases todo : s.todo with
      | nil =>
          have same : sendAudioFifo s = s := by simp [sendAudioFifo, accesses, todo]
          rw [same]
          exact ⟨rfl, room⟩
      | cons muestra rest =>
          cases full : fifo.full s.queue with
          | true =>
              have same : sendAudioFifo s = s := by simp [sendAudioFifo, accesses, todo, full]
              rw [same]
              exact ⟨rfl, room⟩
          | false =>
              simp [sendAudioFifo, System.stream, System.HasRoom, accesses, todo, full,
                pulses_call, pulses]

theorem drain_room : (drain s).stream = s.stream ∧ (drain s).HasRoom := by
  constructor
  · have split := List.take_append_drop 1 (fifo.contents s.queue)
    rw [List.drop_one] at split
    rw [System.stream, System.stream, drain]
    dsimp only
    rw [fifo.pop_contents, List.append_assoc s.heard, split]
  · exact ⟨room.1, fun pulse => fifo.pop_room _ (room.2 pulse)⟩

end Step

end Driver

section Run
variable {fifo : Fifo} (samples : List Sample) (pins : Pins) (queue : fifo.State)
  (schedule : Nat → Action)

def run (t : Nat) : System fifo := drive step schedule ⟨samples, [], pins, queue, []⟩ t

/-- Every sample reaches the FIFO once, in order, and the FIFO is never written when it is full. -/
structure Delivers : Prop where
  conserved : ∀ t, (run samples pins queue schedule t).stream =
    fifo.contents queue ++ samples.map loaded
  hasRoom : ∀ t, (run samples pins queue schedule t).HasRoom
  /-- The loop returns, if the processor finds the FIFO not full again and again. -/
  returned : (∀ t, ∃ u, t ≤ u ∧ schedule u = .processor ∧
    fifo.full (run samples pins queue schedule u).queue = false) →
      ∃ t, (run samples pins queue schedule t).Returned

/-- The accesses that are left. -/
def System.left (s : System fifo) : Nat := 12 * s.todo.length + s.accesses.length

theorem left_processor (s : System fifo) : (sendAudioFifo s).left ≤ s.left ∧
    (¬ s.Returned → fifo.full s.queue = false → (sendAudioFifo s).left < s.left) := by
  unfold System.Returned System.left sendAudioFifo
  cases accesses : s.accesses with
  | cons a rest => simp
  | nil =>
      cases todo : s.todo with
      | nil => simp [accesses, todo]
      | cons muestra rest =>
          cases full : fifo.full s.queue with
          | true => simp [accesses, todo]
          | false =>
              simp [audioDacWrFifo]
              omega

theorem left_drain (s : System fifo) : (drain s).left = s.left := rfl

theorem left_step (action : Action) (s : System fifo) : (step action s).left ≤ s.left := by
  cases action with
  | processor => exact (left_processor s).1
  | drain => exact Nat.le_of_eq (left_drain s)

variable {samples pins queue schedule}

theorem run_succ (t : Nat) : run samples pins queue schedule (t + 1) =
    step (schedule t) (run samples pins queue schedule t) := rfl

theorem left_antitone {t u : Nat} (later : t ≤ u) :
    (run samples pins queue schedule u).left ≤ (run samples pins queue schedule t).left := by
  induction u, later using Nat.le_induction with
  | base => exact Nat.le_refl _
  | succ u later ih => exact Nat.le_trans (left_step _ _) ih

theorem eventually_returned (t : Nat) (again : ∀ t, ∃ u, t ≤ u ∧ schedule u = .processor ∧
    fifo.full (run samples pins queue schedule u).queue = false) :
    ∃ u, (run samples pins queue schedule u).Returned := by
  induction left : (run samples pins queue schedule t).left using Nat.strong_induction_on
    generalizing t with
  | h n ih =>
      obtain ⟨u, later, looks, unfilled⟩ := again t
      by_cases returned : (run samples pins queue schedule u).Returned
      · exact ⟨u, returned⟩
      · have progress := (left_processor _).2 returned unfilled
        have before := @left_antitone _ samples pins queue schedule t u later
        have next : run samples pins queue schedule (u + 1) =
            sendAudioFifo (run samples pins queue schedule u) := by rw [run_succ, looks]; rfl
        exact ih _ (by rw [next]; omega) (u + 1) rfl

theorem run_room (t : Nat) : (run samples pins queue schedule t).stream =
      fifo.contents queue ++ samples.map loaded ∧ (run samples pins queue schedule t).HasRoom := by
  induction t with
  | zero => exact ⟨by simp [run, drive, System.stream, pulses], Nat.zero_le _, nofun⟩
  | succ t ih =>
      rw [run_succ, ← ih.1]
      cases schedule t with
      | processor => exact processor_room ih.2
      | drain => exact drain_room ih.2

/-- Under every interleaving of the bus accesses with the drain. -/
theorem nothing_lost (samples : List Sample) (pins : Pins) (queue : fifo.State)
    (schedule : Nat → Action) : Delivers samples pins queue schedule where
  conserved t := run_room t |>.1
  hasRoom t := run_room t |>.2
  returned again := eventually_returned 0 again

end Run

/-! A FIFO of a given depth. -/
def bounded (depth : Nat) : Fifo where
  State := List Word
  contents := id
  full queue := decide (depth ≤ queue.length)
  push w queue := if depth ≤ queue.length then queue else queue ++ [w]
  pop := List.tail
  push_contents w queue unfilled := if_neg (of_decide_eq_false unfilled)
  pop_contents _ := rfl
  pop_room queue unfilled := by
    have few := of_decide_eq_false unfilled
    rw [decide_eq_false_iff_not, List.length_tail]
    omega

/-- The second sample waits for the drain of the first one. -/
example : (bounded 1).contents (@run (bounded 1) [7, 9] ⟨true, true, 3⟩ []
    (fun t => if t = 20 then .drain else .processor) 33).queue = [loaded 9] := by
  decide

end Cpen311.AudioFifo
