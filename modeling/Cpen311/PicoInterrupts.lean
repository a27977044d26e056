import Mathlib.Order.Filter.Cofinite
import Mathlib.Data.Nat.Nth
import Cpen311.PicoService

/-! Interrupts are transparent to the main program of `pracPICO.psm`. `nesting`
assigns to each address of the main program the number of calls it sits under;
that the program respects it is a finite check, and with it come the shape and
the depth of the stack. The interrupted run is then compared with the run without
interrupts, step of the main program by step of the main program. -/
namespace Cpen311.PicoInterrupts
open ClockedRun Kcpsm3 PracPico PicoService

/-- How deep the delay routines are nested below the main program; the routines
that it does not reach have no level. -/
def nesting (a : Address) : Option Nat :=
  if a < address .hexByteToASCII then some 0
  else if a < address .delay1us then none
  else if a < address .delay40us then some 5
  else if a < address .delay1ms then some 4
  else if a < address .delay20ms then some 3
  else if a < address .delay100ms then some 2
  else if a < address .delay1s then none
  else if a < address .isr then some 1
  else none

/-- The instruction at `a` moves only to addresses of the right level. -/
def respects (a : Address) (level : Nat) : Instr Label → Bool
  | .jump condition target =>
      nesting (address target) == some level &&
        (condition == .always || nesting (a + 1) == some level)
  | .call condition target =>
      condition == .always && nesting (address target) == some (level + 1) &&
        nesting (a + 1) == some level
  | .ret => level != 0
  | .returniEnable => false
  | _ => nesting (a + 1) == some level

def nests (a : Address) : Bool :=
  match nesting a with
  | none => true
  | some level =>
      decide (level ≤ 5) && respects a level (instruction a) && (instruction a).blind mainRegister

theorem below_isr {a b : Address} (below : a < b) (early : b ≤ address .isr) : a < address .isr :=
  Nat.lt_of_lt_of_le below early

theorem nesting_inside {a : Address} {level : Nat} (nested : nesting a = some level) :
    a < address .isr := by
  unfold nesting at nested
  split_ifs at nested with h0 h1 h2 h3 h4 h5 h6 h7
  · exact below_isr h0 (by decide)
  · exact below_isr h2 (by decide)
  · exact below_isr h3 (by decide)
  · exact below_isr h4 (by decide)
  · exact below_isr h5 (by decide)
  · exact h7

theorem main_nests {a : Address} {level : Nat} (nested : nesting a = some level) :
    level ≤ 5 ∧ respects a level (instruction a) = true ∧
      (instruction a).blind mainRegister = true := by
  have inside : a.toNat < 0x3F := nesting_inside nested
  -- the 63 addresses below `ISR`, one by one
  have checked : ∀ n < 0x3F, nests (BitVec.ofNat 10 n) = true := by decide
  have here := checked a.toNat inside
  rw [BitVec.ofNat_toNat, BitVec.setWidth_eq] at here
  simpa only [nests, nested, Bool.and_eq_true, decide_eq_true_eq, and_assoc] using here

/-- The return addresses on the stack lead back to their callers' levels. -/
def Frames : List Address → Prop
  | [] => True
  | site :: rest => nesting (site + 1) = some rest.length ∧ Frames rest

/-- The processor is in the main program, with the calls it is under on the stack. -/
structure InMain (c : Cpu) : Prop where
  level : nesting c.pc = some c.stack.length
  frames : Frames c.stack

theorem main_execute {c : Cpu} (inPort : Byte → Byte) (main : InMain c) :
    InMain (execute address inPort c (instruction c.pc)) := by
  obtain ⟨level, frames⟩ := main
  obtain ⟨-, respected, -⟩ := main_nests level
  cases fetched : instruction c.pc with
  | jump condition target =>
      simp only [fetched, respects, Bool.and_eq_true, Bool.or_eq_true, beq_iff_eq] at respected
      refine ⟨?_, frames⟩
      simp only [execute]
      split
      · exact respected.1
      · rcases respected.2 with rfl | next
        · contradiction
        · exact next
  | call condition target =>
      simp only [fetched, respects, Bool.and_eq_true, beq_iff_eq] at respected
      obtain ⟨⟨rfl, callee⟩, next⟩ := respected
      exact ⟨callee, next, frames⟩
  | ret =>
      simp only [fetched, respects, bne_iff_ne, ne_eq] at respected
      cases stack : c.stack with
      | nil => simp [stack] at respected
      | cons site rest =>
          rw [stack] at frames
          simp only [execute, stack]
          exact ⟨frames.1, frames.2⟩
  | returniEnable => simp [fetched, respects] at respected
  | _ =>
      simp only [fetched, respects, beq_iff_eq] at respected
      exact ⟨respected, frames⟩

theorem main_depth {c : Cpu} (main : InMain c) : c.stack.length ≤ 5 := (main_nests main.level).1

theorem isr_below_vector : address .isr ≤ vector := by decide

theorem away_not_main (d b : Board) (away : Away d b) : ¬ InMain b.cpu := by
  intro main
  have inside := nesting_inside main.level
  exact BitVec.not_lt.mpr away.code inside

section Run
variable (samples : Nat → Byte) (request : Nat → Bool) (start : Board)

def run (t : Nat) : Board := drive (step samples) request start t

/-- At `t` an instruction of the main program is executed. -/
def MainStep (t : Nat) : Prop :=
  (run samples request start t).cpu.pc < address .isr ∧
    ((run samples request start t).cpu.enabled && request t) = false

instance : DecidablePred (MainStep samples request start) := fun _ =>
  inferInstanceAs (Decidable (_ ∧ _))

def mainSteps (t : Nat) : Nat := Nat.count (MainStep samples request start) t

/-- The board comes back from an interrupt with one more sample served. -/
def Served (d b : Board) : Prop := Resumed ((meter d).serve (samples d.position)) d b

variable {samples request start}

theorem run_is_run : IsRun (Steps samples) (run samples request start) :=
  drive_is_run (step samples) request start

theorem served_main (d b : Board) (main : InMain d.cpu) (served : Served samples d b) :
    InMain b.cpu := by
  obtain ⟨level, frames⟩ := main
  have agree := served.agree
  exact ⟨by rw [agree.pc, agree.stack]; exact level, by rw [agree.stack]; exact frames⟩

theorem main_homing :
    Homing Away (Served samples) (fun b : Board => InMain b.cpu) where
  exclusive d b _ away := away_not_main d b away
  back := served_main

theorem main_steps_succ {t : Nat} (mainStep : MainStep samples request start t) :
    mainSteps samples request start (t + 1) = mainSteps samples request start t + 1 := by
  rw [mainSteps, Nat.count_succ, if_pos mainStep]
  rfl

theorem main_steps_idle {t : Nat} (idle : ¬ MainStep samples request start t) :
    mainSteps samples request start (t + 1) = mainSteps samples request start t := by
  rw [mainSteps, Nat.count_succ, if_neg idle]
  rfl

theorem main_stepped {t : Nat}
    (quiet : ((run samples request start t).cpu.enabled && request t) = false) :
    run samples request start (t + 1) =
      perform samples (run samples request start t)
        (instruction (run samples request start t).cpu.pc) := by
  have next : run samples request start (t + 1) =
      step samples (request t) (run samples request start t) := rfl
  rw [next, step, quiet]
  rfl

theorem interrupt_taken {t : Nat}
    (taken : ((run samples request start t).cpu.enabled && request t) = true) :
    run samples request start (t + 1) =
      { run samples request start t with cpu := interrupt (run samples request start t).cpu } := by
  have next : run samples request start (t + 1) =
      step samples (request t) (run samples request start t) := rfl
  rw [next, step, taken]
  rfl

theorem interrupt_leaves {t : Nat}
    (taken : ((run samples request start t).cpu.enabled && request t) = true) :
    Away (run samples request start t) (run samples request start (t + 1)) ∧
      SurelyWithin (Steps samples) (Away (run samples request start t))
        (Served samples (run samples request start t)) serviceTime
        (run samples request start (t + 1)) := by
  have enabled := ((Bool.and_eq_true _ _).mp taken).1
  rw [interrupt_taken taken]
  exact ⟨⟨isr_below_vector, rfl, Nat.le_succ _⟩, interrupt_resumes enabled⟩

/-- From the main program the run stays in it or leaves for the service routine. -/
theorem main_leaves (t : Nat) (main : InMain (run samples request start t).cpu) :
    InMain (run samples request start (t + 1)).cpu ∨
      Away (run samples request start t) (run samples request start (t + 1)) ∧
        SurelyWithin (Steps samples) (Away (run samples request start t))
          (Served samples (run samples request start t)) serviceTime
          (run samples request start (t + 1)) := by
  cases taken : (run samples request start t).cpu.enabled && request t
  · left
    rw [main_stepped taken]
    exact main_execute _ main
  · exact Or.inr (interrupt_leaves taken)

theorem main_or_serving (initial : InMain start.cpu) (t : Nat) :
    InMain (run samples request start t).cpu ∨ ∃ a, InMain (run samples request start a).cpu ∧
      Excursion (Steps samples) Away (Served samples) (serviceTime + 1)
        (run samples request start) a t := by
  have started : InMain (run samples request start 0).cpu := initial
  rcases home_or_excursion run_is_run main_homing started main_leaves (Nat.zero_le t) with
    main | ⟨a, -, departure, trip⟩
  · exact Or.inl main
  · exact Or.inr ⟨a, departure, trip⟩

theorem departure_taken {a b : Nat} (main : InMain (run samples request start a).cpu)
    (trip : Excursion (Steps samples) Away (Served samples) (serviceTime + 1)
      (run samples request start) a b) :
    ((run samples request start a).cpu.enabled && request a) = true := by
  by_contra quiet
  have gone := trip.away (a + 1) (Nat.lt_succ_self a) trip.departed
  rw [main_stepped (by simpa using quiet)] at gone
  exact away_not_main _ _ gone (main_execute _ main)

theorem serving_quiet {a b : Nat} (main : InMain (run samples request start a).cpu)
    (trip : Excursion (Steps samples) Away (Served samples) (serviceTime + 1)
      (run samples request start) a b) :
    mainSteps samples request start (b + 1) = mainSteps samples request start a := by
  have departed := trip.departed
  refine count_quiet (by omega) fun u late early mainStep => ?_
  rcases Nat.eq_or_lt_of_le late with rfl | late
  · have taken := departure_taken main trip
    rw [mainStep.2] at taken
    contradiction
  · have away := trip.away u late (by omega)
    exact BitVec.not_lt.mpr away.code mainStep.1

/-- Whenever the interrupted run is in the main program, it agrees with the run
without interrupts after the same number of steps of the main program. -/
theorem main_agrees (initial : InMain start.cpu) (t : Nat)
    (main : InMain (run samples request start t).cpu) :
    Agree mainRegister (run samples request start t).cpu
      (run samples (fun _ => false) start (mainSteps samples request start t)).cpu := by
  induction t using Nat.strongRecOn with
  | ind t ih =>
      cases t with
      | zero => exact ⟨rfl, fun _ _ => rfl, rfl, rfl, rfl, rfl⟩
      | succ t =>
          rcases main_or_serving initial t with before | ⟨a, departure, trip⟩
          · cases taken : (run samples request start t).cpu.enabled && request t
            -- a step of the main program is a step of the uninterrupted run as well
            · have agree := ih t (Nat.lt_succ_self t) before
              rw [main_steps_succ ⟨nesting_inside before.level, taken⟩, main_stepped taken,
                main_stepped (Bool.and_false _), ← agree.pc]
              exact execute_agree agree address _ _ _ (main_nests before.level).2.2
            · exact absurd main (away_not_main _ _ (interrupt_leaves taken).1)
          · rcases excursion_step run_is_run main_homing departure trip with served | onward
            -- back from an interrupt: the uninterrupted run has not moved since it was taken
            · rw [serving_quiet departure trip]
              have departed := trip.departed
              exact agree_trans served.agree (ih a (by omega) departure)
            · exact absurd main
                (away_not_main _ _ (onward.away (t + 1) onward.departed (Nat.le_refl _)))

theorem main_step_main (initial : InMain start.cpu) {t : Nat}
    (mainStep : MainStep samples request start t) : InMain (run samples request start t).cpu := by
  rcases main_or_serving initial t with main | ⟨a, -, trip⟩
  · exact main
  · have away := trip.away t trip.departed (Nat.le_refl t)
    exact absurd mainStep.1 (BitVec.not_lt.mpr away.code)

end Run

/-! What is stored from the service routine on. -/
def routineCode : List (Instr Label) :=
  [.jump .always .isr, .alu .load s0 (.const 0x00)] ++
    (source.flatMap Prod.snd).drop (offset .isr source)

theorem routine_instruction {a : Address} (inside : address .isr ≤ a) :
    instruction a ∈ routineCode := by
  unfold instruction routineCode
  split
  · simp
  · have late : 0x3F ≤ a.toNat := inside
    cases found : (source.flatMap Prod.snd)[a.toNat]? with
    | none => simp
    | some i =>
        obtain ⟨k, same⟩ := Nat.exists_eq_add_of_le late
        have stored : ((source.flatMap Prod.snd).drop (offset .isr source))[k]? = some i := by
          rw [List.getElem?_drop, ← found, same]
          rfl
        exact List.mem_append_right _ (List.mem_of_getElem? stored)

/-- A port of `led_0` or `sseg`. -/
def displayPort (port : Byte) : Bool := port.getLsbD 4 || port.getLsbD 5 || port.getLsbD 6

/-- The write to `led_0` or `sseg` at one instruction boundary. -/
def displayWrite (request : Bool) (b : Board) : Option (Byte × Byte) :=
  if b.cpu.enabled && request then none
  else (written b.cpu (instruction b.cpu.pc)).filter fun write => displayPort write.1

def displayWrites (samples : Nat → Byte) (request : Nat → Bool) (start : Board) (t : Nat) :
    List (Byte × Byte) :=
  (List.range t).filterMap fun u => displayWrite (request u) (run samples request start u)

def Stores (b : Board) (cell : Cell) : Prop := ∃ x, instruction b.cpu.pc = .store x cell

def Fetches (b : Board) (cell : Cell) : Prop := ∃ x, instruction b.cpu.pc = .fetch x cell

/-- The instruction writes `led_0` or `sseg`. -/
def displays : Instr Label → Bool
  | .output _ port => displayPort port
  | _ => false

theorem routine_display_quiet {b : Board} (inside : address .isr ≤ b.cpu.pc) (request : Bool) :
    displayWrite request b = none := by
  have quiet : ∀ i ∈ routineCode, displays i = false := by decide
  have checked : ∀ i ∈ routineCode, ∀ c : Cpu, (written c i).filter
      (fun write => displayPort write.1) = none := by
    intro i stored c
    have here := quiet i stored
    cases i with
    | output x port =>
        simp only [displays] at here
        simp only [written, Option.filter_some, here, Bool.false_eq_true, if_false]
    | _ => rfl
  unfold displayWrite
  split
  · rfl
  · exact checked _ (routine_instruction inside) b.cpu

section Transparency
variable {samples : Nat → Byte} {request : Nat → Bool} {start : Board}

theorem quiet_step (t : Nat) (notMain : ¬ MainStep samples request start t) :
    displayWrite (request t) (run samples request start t) = none := by
  by_cases taken : ((run samples request start t).cpu.enabled && request t) = true
  · rw [displayWrite, if_pos taken]
  · refine routine_display_quiet ?_ _
    have outside : ¬ (run samples request start t).cpu.pc < address .isr := fun inside =>
      notMain ⟨inside, by simpa using taken⟩
    exact BitVec.not_lt.mp outside

theorem displays_agree (initial : InMain start.cpu) (t : Nat) :
    displayWrites samples request start t =
      displayWrites samples (fun _ => false) start (mainSteps samples request start t) := by
  induction t with
  | zero => rfl
  | succ t ih =>
      unfold displayWrites at *
      rw [List.range_succ, List.filterMap_append, ih]
      by_cases mainStep : MainStep samples request start t
      · have main := main_step_main initial mainStep
        have agree := main_agrees initial t main
        have same : displayWrite (request t) (run samples request start t) =
            displayWrite false (run samples (fun _ => false) start
              (mainSteps samples request start t)) := by
          rw [displayWrite, displayWrite, mainStep.2, Bool.and_false, ← agree.pc,
            written_agree agree _ (main_nests main.level).2.2]
        rw [main_steps_succ mainStep, List.range_succ, List.filterMap_append]
        simp only [List.filterMap_cons, List.filterMap_nil, same]
      · rw [main_steps_idle mainStep]
        simp [quiet_step t mainStep]

theorem plain_main (initial : InMain start.cpu) (k : Nat) :
    InMain (run samples (fun _ => false) start k).cpu := by
  induction k with
  | zero => exact initial
  | succ k ih =>
      rw [main_stepped (Bool.and_false _)]
      exact main_execute _ ih

theorem main_resumes (initial : InMain start.cpu) (t : Nat) :
    ∃ u, t ≤ u ∧ u ≤ t + serviceTime ∧ (run samples request start u).cpu.pc < address .isr := by
  rcases main_or_serving initial t with main | ⟨a, departure, trip⟩
  · exact ⟨t, Nat.le_refl t, by omega, nesting_inside main.level⟩
  · obtain ⟨u, later, early, served, -⟩ := home_again run_is_run main_homing departure trip
    have main := served_main _ _ departure served
    have departed := trip.departed
    exact ⟨u, by omega, by omega, nesting_inside main.level⟩

theorem main_fetches_nothing (initial : InMain start.cpu) {t : Nat} {cell : Cell}
    (mainStep : MainStep samples request start t) :
    ¬ Fetches (run samples request start t) cell := by
  rintro ⟨x, fetched⟩
  have blind := (main_nests (main_step_main initial mainStep).level).2.2
  simp [fetched, Instr.blind] at blind

theorem depth_bounded (initial : InMain start.cpu) (t : Nat) :
    (run samples request start t).cpu.stack.length ≤ stackDepth := by
  unfold stackDepth
  rcases @main_or_serving samples request start initial t with main | ⟨a, departure, trip⟩
  · have bound := main_depth main
    omega
  · have bound := main_depth departure
    have deep := (trip.away t trip.departed (Nat.le_refl t)).depth
    omega

end Transparency

/-- What the main program can tell of the interrupts: nothing. -/
structure Transparent (samples : Nat → Byte) (request : Nat → Bool) (start : Board) : Prop where
  /-- Without interrupts every step is one of the main program. -/
  plain : ∀ k, MainStep samples (fun _ => false) start k
  /-- Each step of the main program is the one of the uninterrupted run: same
  address, registers, flags and stack. -/
  steps : ∀ t, MainStep samples request start t →
    Agree mainRegister (run samples request start t).cpu
      (run samples (fun _ => false) start (mainSteps samples request start t)).cpu
  /-- If the interrupts leave the main program running, it runs through all of them. -/
  whole : (∀ t, ∃ u, t ≤ u ∧ MainStep samples request start u) →
    ∀ k, ∃ t, MainStep samples request start t ∧ mainSteps samples request start t = k
  /-- Each interrupt hands back to the main program. -/
  resumes : ∀ t, ∃ u, t ≤ u ∧ u ≤ t + serviceTime ∧
    (run samples request start u).cpu.pc < address .isr
  displays : ∀ t, displayWrites samples request start t =
    displayWrites samples (fun _ => false) start (mainSteps samples request start t)
  /-- No cell that the service routine stores to is one the main program fetches. -/
  separate : ∀ t u cell, address .isr ≤ (run samples request start t).cpu.pc →
    Stores (run samples request start t) cell → MainStep samples request start u →
    ¬ Fetches (run samples request start u) cell
  depth : ∀ t, (run samples request start t).cpu.stack.length ≤ stackDepth

theorem interrupts_transparent (samples : Nat → Byte) (request : Nat → Bool) (reg : Reg → Byte)
    (led : Byte) (led0 : Bool) (sseg : BitVec 24) :
    Transparent samples request (powerUp reg led led0 sseg) := by
  have initial : InMain (powerUp reg led led0 sseg).cpu := ⟨rfl, trivial⟩
  constructor
  case plain =>
    intro k
    exact ⟨nesting_inside (plain_main initial k).level, Bool.and_false _⟩
  case steps =>
    intro t mainStep
    exact main_agrees initial t (main_step_main initial mainStep)
  case whole =>
    intro often k
    have infinite : (Set.ofPred (MainStep samples request (powerUp reg led led0 sseg))).Infinite := by
      rw [← Nat.frequently_atTop_iff_infinite, Filter.frequently_atTop]
      intro t
      obtain ⟨u, later, mainStep⟩ := often t
      exact ⟨u, later, mainStep⟩
    exact ⟨Nat.nth _ k, Nat.nth_mem_of_infinite infinite k, Nat.count_nth_of_infinite infinite k⟩
  case resumes => exact main_resumes initial
  case displays => exact displays_agree initial
  case separate =>
    intro t u cell _ _ mainStep
    exact main_fetches_nothing initial mainStep
  case depth => exact depth_bounded initial

end Cpen311.PicoInterrupts
