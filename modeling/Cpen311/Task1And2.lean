import Cpen311.Task2Fsm2

/-! `task1and2`: the fill loop and the key schedule in one machine, around an
`s_memory` of its own. As in `task2_fsm2` the registers are clocked by bits of the
state, with `reset_flag` first, and `seesNew` leaves open which output of the
memory such a register sees. The data register is a latch. Every branch of the
controller assigns a named parameter, so its default is absent, and `fsm1_done` is
never read. -/
namespace Cpen311.Task1And2
open ClockedRun SyncMemory Rc4
open Task2Fsm (Byte)

inductive State where
  | startFill | incI | arrayFill | doneFsm1 | waitforfsm1 | start | wait0 | storeI | jLogic | wait1
  | storeJ | swap1 | wait2 | swap2 | wait3 | checkInc | counterInc | resetAddress | done
  deriving DecidableEq, Repr

def State.encoding : State → BitVec 17
  | .startFill => 0b00000000000001110
  | .incI => 0b00000000100001111
  | .arrayFill => 0b01010001000000001
  | .doneFsm1 => 0b00000000000001000
  | .waitforfsm1 => 0b00000000000000000
  | .start => 0b00000000001100000
  | .wait0 => 0b00000000000100010
  | .storeI => 0b00000100000100010
  | .jLogic => 0b00000010010100100
  | .wait1 => 0b00000000000100100
  | .storeJ => 0b00001000000100110
  | .swap1 => 0b01010000000101000
  | .wait2 => 0b00000000000101000
  | .swap2 => 0b01100001000101010
  | .wait3 => 0b00000000000101100
  | .checkInc => 0b00000000000111100
  | .counterInc => 0b00000000100101110
  | .resetAddress => 0b00000001000101110
  | .done => 0b10000000000011110

structure Machine where
  state : State
  counterI : Byte
  counterJ : Byte
  tempI : Byte
  tempJ : Byte
  addressReg : Byte
  dataReg : Byte
  sMemory : Ram 8 8

def bit (n : Nat) (q : State) : Bool := q.encoding.getLsbD n

def wren (q : State) : Bool := bit 15 q

def doneFlag (m : Machine) : Bool := bit 16 m.state

def controller (m : Machine) : State → State
  | .startFill => .incI
  | .incI => .arrayFill
  | .arrayFill => if m.counterI < 255 then .incI else .doneFsm1
  | .doneFsm1 => .waitforfsm1
  | .waitforfsm1 => .start
  | .start => .wait0
  | .wait0 => .storeI
  | .storeI => .jLogic
  | .jLogic => .wait1
  | .wait1 => .storeJ
  | .storeJ => .swap1
  | .swap1 => .wait2
  | .wait2 => .swap2
  | .swap2 => .wait3
  | .wait3 => .checkInc
  | .checkInc => if m.counterI = 255 then .done else .counterInc
  | .counterInc => .resetAddress
  | .resetAddress => .wait0
  | .done => .done

/-- The registers clocked by state bits, when the state changes from `old` to `new`. -/
def edgeRegisters (secretKey : Nat → Byte) (outMem : Byte) (old new : State) (m : Machine) :
    Machine :=
  let posedge (n : Nat) : Bool := !bit n old && bit n new
  let resetFlag := bit 6 new
  { m with
    tempJ :=
      if posedge 12 || posedge 6 then
        if resetFlag then 0 else if bit 12 new then outMem else m.tempJ
      else m.tempJ
    tempI :=
      if posedge 11 || posedge 6 then
        if resetFlag then 0 else if bit 11 new then outMem else m.tempI
      else m.tempI
    counterJ :=
      if posedge 7 || posedge 6 then
        if resetFlag then 0
        else if bit 7 new then m.counterJ + outMem + secretKey (m.counterI.toNat % 3)
        else m.counterJ
      else m.counterJ
    counterI :=
      if posedge 8 || posedge 6 then
        if resetFlag then 0 else if bit 8 new then m.counterI + 1 else m.counterI
      else m.counterI
    -- `address_j` rises together with `j_enable`, so this `counter_j` is the previous one
    addressReg :=
      if posedge 9 || posedge 10 || posedge 6 then
        if resetFlag then 0
        else if bit 9 new then m.counterI
        else if bit 10 new then m.counterJ
        else m.addressReg
      else m.addressReg }

/-- The latch of the data register, after the other registers have changed. -/
def dataLatch (new : State) (m : Machine) : Byte :=
  if bit 6 new then 0
  else if bit 0 new && bit 13 new then m.counterI
  else if bit 13 new && bit 5 new then m.tempI
  else if bit 14 new then m.tempJ
  else m.dataReg

/-- The clock edge from `old` to `new`, with the state-bit edges it causes. -/
def edge (secretKey : Nat → Byte) (old new : State) (seesNew : Bool) (m : Machine) : Machine :=
  let memory := m.sMemory.clock m.addressReg m.dataReg (wren old)
  let outMem := if seesNew then memory.q else m.sMemory.q
  let registers := edgeRegisters secretKey outMem old new m
  { registers with
    state := new
    dataReg := dataLatch new registers
    sMemory := memory }

def clock (secretKey : Nat → Byte) (seesNew : Bool) (m : Machine) : Machine :=
  edge secretKey m.state (controller m m.state) seesNew m

def Clocks (secretKey : Nat → Byte) : Machine → Machine → Prop := clocked (clock secretKey)

/-- Registers without an initial value are arbitrary. -/
def powerUp (registers : Machine) : Machine :=
  { registers with
    state := .startFill
    counterI := 0
    sMemory := ⟨fun _ => 0, registers.sMemory.latched⟩ }

def AtState (q : State) (m : Machine) : Prop := m.state = q

instance (q : State) : DecidablePred (AtState q) := fun _ => inferInstanceAs (Decidable (_ = _))

def Done (m : Machine) : Prop := doneFlag m = true

instance : DecidablePred Done := fun _ => inferInstanceAs (Decidable (_ = _))

/-- The identity is written before the schedule starts, the n-th visit to
`check_inc` shows the cipher after round `n`, and `done` its box after all rounds. -/
structure Schedules (rounds : Nat → Cipher 8) (run : Nat → Machine) : Prop where
  identity : ∃ t, VisitAt (AtState .start) run 0 t ∧ (run t).sMemory.content = id
  round : ∀ n < 256, ∃ t, VisitAt (AtState .checkInc) run n t ∧
    (run t).counterJ = (rounds (n + 1)).j ∧ (run t).sMemory.content = (rounds (n + 1)).box
  done : ∃ t, VisitAt Done run 0 t ∧ (run t).sMemory.content = (rounds 256).box

/-- RC4's key schedule. -/
def KeyScheduled (secretKey : Nat → Byte) (run : Nat → Machine) : Prop :=
  Schedules (schedule fun n => secretKey (n % 3)) run

/-- A round that exchanges with the previous `j`. -/
def lateRound (key : Nat → Byte) (n : Nat) (cipher : Cipher 8) : Cipher 8 :=
  let i := BitVec.ofNat 8 n
  ⟨exchange cipher.box i cipher.j, cipher.j + cipher.box i + key n⟩

def lateSchedule (key : Nat → Byte) : Nat → Cipher 8
  | 0 => ⟨id, 0⟩
  | n + 1 => lateRound key n (lateSchedule key n)

/-! The fill loop, at `array_fill`: the write of cell `n + 1` is pending. Cell 0 is
never written; it keeps the zero of the initial memory. -/
structure Filling (n : Nat) (m : Machine) : Prop where
  state : m.state = .arrayFill
  index : m.counterI = BitVec.ofNat 8 (n + 1)
  address : m.addressReg = BitVec.ofNat 8 (n + 1)
  data : m.dataReg = BitVec.ofNat 8 (n + 1)
  filled : ∀ a : Byte, a.toNat < n + 1 → m.sMemory.content a = a

structure Filled (m : Machine) : Prop where
  state : m.state = .start
  index : m.counterI = 0
  j : m.counterJ = 0
  address : m.addressReg = 0
  identity : m.sMemory.content = id

/-! The schedule, at `wait_0` before round `n` and at `check_inc` after it. -/
structure Swapping (secretKey : Nat → Byte) (n : Nat) (m : Machine) : Prop where
  state : m.state = .wait0
  index : m.counterI = BitVec.ofNat 8 n
  address : m.addressReg = BitVec.ofNat 8 n
  latched : m.sMemory.latched = BitVec.ofNat 8 n
  j : m.counterJ = (lateSchedule (fun i => secretKey (i % 3)) n).j
  box : m.sMemory.content = (lateSchedule (fun i => secretKey (i % 3)) n).box

structure Swapped (secretKey : Nat → Byte) (n : Nat) (m : Machine) : Prop where
  state : m.state = .checkInc
  index : m.counterI = BitVec.ofNat 8 n
  j : m.counterJ = (lateSchedule (fun i => secretKey (i % 3)) (n + 1)).j
  box : m.sMemory.content = (lateSchedule (fun i => secretKey (i % 3)) (n + 1)).box

/-- The states between two events of a run. -/
def Calm (m : Machine) : Prop := m.state ≠ .start ∧ m.state ≠ .checkInc ∧ m.state ≠ .done

section Loops
variable {secretKey : Nat → Byte} {During : Machine → Prop} {After : Machine → Prop}

theorem surely_edge {n : Nat} {m : Machine} (p q : State) (here : m.state = p)
    (goes : controller m p = q) (during : During m)
    (rest : ∀ seesNew, Surely (Clocks secretKey) During After n (edge secretKey p q seesNew m)) :
    Surely (Clocks secretKey) During After (n + 1) m := by
  apply surely_input during
  intro seesNew
  rw [clock, here, goes]
  exact rest seesNew

theorem surely_calm {n : Nat} {m : Machine} (p q : State) (here : m.state = p)
    (goes : controller m p = q) (calm : p ≠ .start ∧ p ≠ .checkInc ∧ p ≠ .done)
    (rest : ∀ seesNew, Surely (Clocks secretKey) Calm After n (edge secretKey p q seesNew m)) :
    Surely (Clocks secretKey) Calm After (n + 1) m := by
  apply surely_edge p q here goes _ rest
  rwa [Calm, here]

theorem fill_starts (registers : Machine) :
    Surely (Clocks secretKey) Calm (Filling 0) 2 (powerUp registers) := by
  refine surely_calm .startFill .incI rfl rfl (by decide) fun _ => ?_
  refine surely_calm .incI .arrayFill rfl rfl (by decide) fun _ => ?_
  refine ⟨rfl, rfl, rfl, rfl, fun a early => ?_⟩
  have zero : a = 0 := by bv_omega
  rw [zero]
  rfl

theorem fill_round (n : Nat) (m : Machine) (inside : n < 254) (inv : Filling n m) :
    Surely (Clocks secretKey) Calm (Filling (n + 1)) 2 m := by
  obtain ⟨state, index, address, data, filled⟩ := inv
  have more : m.counterI < 255 := by rw [index]; bv_omega
  have next : m.counterI + 1 = BitVec.ofNat 8 (n + 1 + 1) := by
    rw [index]
    exact (BitVec.ofNat_add ..).symm
  refine surely_calm .arrayFill .incI state (if_pos more) (by decide) fun _ => ?_
  refine surely_calm .incI .arrayFill rfl rfl (by decide) fun _ => ?_
  refine ⟨rfl, next, next, next, ?_⟩
  change ∀ a : Byte, a.toNat < n + 2 →
    Function.update m.sMemory.content m.addressReg m.dataReg a = a
  rw [address, data]
  exact KeyAttempt.filled_next (by omega) filled

theorem fill_ends (m : Machine) (inv : Filling 254 m) :
    Surely (Clocks secretKey) Calm Filled 3 m := by
  obtain ⟨state, index, address, data, filled⟩ := inv
  have last : ¬ m.counterI < 255 := by rw [index]; decide
  refine surely_calm .arrayFill .doneFsm1 state (if_neg last) (by decide) fun _ => ?_
  refine surely_calm .doneFsm1 .waitforfsm1 rfl rfl (by decide) fun _ => ?_
  refine surely_calm .waitforfsm1 .start rfl rfl (by decide) fun _ => ?_
  refine ⟨rfl, rfl, rfl, rfl, ?_⟩
  change Function.update m.sMemory.content m.addressReg m.dataReg = id
  rw [address, data]
  funext a
  exact KeyAttempt.filled_next (by decide) filled a a.isLt

theorem swap_starts (m : Machine) (inv : Filled m) :
    Surely (Clocks secretKey) (fun m => m.state = .start) (Swapping secretKey 0) 1 m := by
  obtain ⟨state, index, j, address, identity⟩ := inv
  refine surely_edge .start .wait0 state rfl state fun _ => ?_
  exact ⟨rfl, index, address, address, j, identity⟩

/-- Whenever a register loads `out_mem`, the memory's address has been stable for
one clock, so both choices of `seesNew` give the same values. -/
theorem swap_body (n : Nat) (m : Machine) (inside : n < 256) (inv : Swapping secretKey n m) :
    Surely (Clocks secretKey) Calm (Swapped secretKey n) 9 m := by
  obtain ⟨state, index, address, latched, j, box⟩ := inv
  refine surely_calm .wait0 .storeI state rfl (by decide) fun _ => ?_
  refine surely_calm .storeI .jLogic rfl rfl (by decide) fun _ => ?_
  refine surely_calm .jLogic .wait1 rfl rfl (by decide) fun _ => ?_
  refine surely_calm .wait1 .storeJ rfl rfl (by decide) fun _ => ?_
  refine surely_calm .storeJ .swap1 rfl rfl (by decide) fun _ => ?_
  refine surely_calm .swap1 .wait2 rfl rfl (by decide) fun _ => ?_
  refine surely_calm .wait2 .swap2 rfl rfl (by decide) fun _ => ?_
  refine surely_calm .swap2 .wait3 rfl rfl (by decide) fun _ => ?_
  refine surely_calm .wait3 .checkInc rfl rfl (by decide) fun _ => ?_
  simp only [Surely, edge, State.encoding, edgeRegisters, dataLatch, wren, bit, BitVec.reduceGetLsb,
    Bool.not_false, Bool.not_true, Bool.and_false, Bool.false_and, Bool.and_self, Bool.or_self,
    Bool.or_false, Bool.or_true, Bool.false_eq_true, ↓reduceIte, index, address, latched, Ram.q,
    clock_idle, clock_write, ite_self, BitVec.toNat_ofNat, exchange_by_writes]
  have round : m.counterJ + m.sMemory.content (BitVec.ofNat 8 n) + secretKey (n % 256 % 3) =
      (lateSchedule (fun i => secretKey (i % 3)) (n + 1)).j := by
    rw [j, box, Nat.mod_eq_of_lt inside]
    rfl
  rw [round, j, box]
  exact ⟨rfl, rfl, rfl, rfl⟩

/-- From `check_inc` back to `wait_0`. -/
theorem swap_continues (n : Nat) (m : Machine) (inv : Swapped secretKey n m)
    (seesNew : Bool) : Surely (Clocks secretKey) Calm (Swapping secretKey (n + 1)) 2
      (edge secretKey .checkInc .counterInc seesNew m) := by
  obtain ⟨state, index, j, box⟩ := inv
  refine surely_calm .counterInc .resetAddress rfl rfl (by decide) fun _ => ?_
  refine surely_calm .resetAddress .wait0 rfl rfl (by decide) fun _ => ?_
  have next : m.counterI + 1 = BitVec.ofNat 8 (n + 1) := by
    rw [index]
    exact (BitVec.ofNat_add ..).symm
  exact ⟨rfl, next, next, next, j, box⟩

theorem swapped_more (n : Nat) (m : Machine) (inside : n < 255) (inv : Swapped secretKey n m) :
    controller m .checkInc = .counterInc := by
  apply if_neg
  rw [inv.index]
  bv_omega

theorem swap_next (n : Nat) (m : Machine) (inside : n < 255) (inv : Swapped secretKey n m)
    (after : Machine) (taken : Clocks secretKey m after) :
    Surely (Clocks secretKey) Calm (Swapped secretKey (n + 1)) 11 after := by
  obtain ⟨seesNew, rfl⟩ := taken
  rw [clock, inv.state, swapped_more n m inside inv]
  exact surely_trans (swap_continues n m inv seesNew) fun middle reached =>
    swap_body (n + 1) middle (by omega) reached

theorem swap_last (m : Machine) (inv : Swapped secretKey 255 m) (after : Machine)
    (taken : Clocks secretKey m after) :
    after.state = .done ∧
      after.sMemory.content = (lateSchedule (fun i => secretKey (i % 3)) 256).box := by
  obtain ⟨seesNew, rfl⟩ := taken
  have ends : controller m .checkInc = .done := if_pos inv.index
  rw [clock, inv.state, ends]
  exact ⟨rfl, inv.box⟩

end Loops

theorem done_iff (m : Machine) : Done m ↔ m.state = .done := by
  rw [Done, doneFlag]
  cases m.state <;> decide

section Run
variable {secretKey : Nat → Byte} {registers : Machine} {run : Nat → Machine}
  (isRun : IsRun (Clocks secretKey) run) (starts : run 0 = powerUp registers)
include starts

theorem fill_stretch : Surely (Clocks secretKey) Calm Filled 513 (run 0) := by
  have rounds (m : Machine) (inv : Filling 0 m) :
      Surely (Clocks secretKey) Calm (Filling 254) 508 m :=
    surely_repeat 254 fill_round 0 254 (by decide) inv
  rw [starts]
  exact surely_trans (surely_trans (fill_starts registers) rounds) fill_ends

include isRun

theorem filled_at : Filled (run 513) := by
  have ended := surely_ends isRun (fill_stretch starts)
  rwa [Nat.zero_add] at ended

theorem fill_calm (t : Nat) (early : t < 513) : Calm (run t) := by
  have during := surely_during isRun (fill_stretch starts) t early
  rwa [Nat.zero_add] at during

theorem first_stretch : Surely (Clocks secretKey) Calm (Swapped secretKey 0) 9 (run 514) :=
  swap_body 0 _ (by decide) (surely_ends isRun (swap_starts _ (filled_at isRun starts)))

/-- A round takes twelve clocks. -/
theorem swapped_at (n : Nat) (inside : n < 256) : Swapped secretKey n (run (523 + 12 * n)) := by
  induction n with
  | zero =>
      have ended := surely_ends isRun (first_stretch isRun starts)
      exact ended
  | succ n ih =>
      have round := swap_next n _ (by omega) (ih (by omega)) _ (isRun _)
      have ended := surely_ends isRun round
      exact ended

theorem round_calm (n : Nat) (inside : n < 255) (m : Nat) (early : m < 11) :
    Calm (run (523 + 12 * n + 1 + m)) :=
  surely_during isRun
    (swap_next n _ inside (swapped_at isRun starts n (by omega)) _ (isRun _)) m early

theorem start_visit : VisitAt (AtState .start) run 0 513 := by
  apply first_visit _ run _ (filled_at isRun starts).state
  intro m early
  exact (fill_calm isRun starts m early).1

/-- Before round 0 ends, the machine has not been in `check_inc` or in `done`. -/
theorem early_states (m : Nat) (early : m < 523) :
    (run m).state ≠ .checkInc ∧ (run m).state ≠ .done := by
  rcases Nat.lt_trichotomy m 513 with before | rfl | late
  · exact (fill_calm isRun starts m before).2
  · rw [(filled_at isRun starts).state]
    decide
  · obtain ⟨k, rfl⟩ := Nat.exists_eq_add_of_le late
    exact (surely_during isRun (first_stretch isRun starts) k (by omega)).2

theorem round_visit (n : Nat) (inside : n < 256) :
    VisitAt (AtState .checkInc) run n (523 + 12 * n) := by
  induction n with
  | zero =>
      apply first_visit _ run _ (swapped_at isRun starts 0 inside).state
      intro m early
      exact (early_states isRun starts m early).1
  | succ n ih =>
      have quiet (m : Nat) (early : m < 11) : ¬ AtState .checkInc (run (523 + 12 * n + 1 + m)) :=
        (round_calm isRun starts n (by omega) m early).2.1
      have again : AtState .checkInc (run (523 + 12 * n + 1 + 11)) :=
        (swapped_at isRun starts (n + 1) inside).state
      have visit := next_visit _ run (ih (by omega)) quiet again
      exact visit

theorem not_done (n : Nat) (inside : n < 256) (m : Nat) (early : m ≤ 523 + 12 * n) :
    (run m).state ≠ .done := by
  induction n with
  | zero =>
      rcases Nat.lt_or_eq_of_le early with before | rfl
      · exact (early_states isRun starts m before).2
      · rw [(swapped_at isRun starts 0 inside).state]
        decide
  | succ n ih =>
      -- an earlier round, a state between two visits of `check_inc`, or the visit itself
      by_cases before : m ≤ 523 + 12 * n
      · exact ih (by omega) before
      · obtain ⟨k, rfl⟩ := Nat.exists_eq_add_of_lt (Nat.lt_of_not_le before)
        by_cases inRound : k < 11
        · have calm := round_calm isRun starts n (by omega) k inRound
          rw [Nat.add_right_comm] at calm
          exact calm.2.2
        · obtain rfl : k = 11 := by omega
          have there : (run (523 + 12 * n + 11 + 1)).state = .checkInc :=
            (swapped_at isRun starts (n + 1) inside).state
          rw [there]
          decide

theorem done_visit : VisitAt Done run 0 3584 := by
  have ended := swap_last _ (swapped_at isRun starts 255 (by decide)) _ (isRun _)
  apply first_visit _ run _ ((done_iff _).mpr ended.1)
  intro m early
  rw [done_iff]
  exact not_done isRun starts 255 (by decide) m (by omega)

/-- What the machine computes, for every key. -/
theorem late_schedule_computed : Schedules (lateSchedule fun n => secretKey (n % 3)) run where
  identity := ⟨513, start_visit isRun starts, (filled_at isRun starts).identity⟩
  round n inside := by
    have swapped := swapped_at isRun starts n inside
    exact ⟨_, round_visit isRun starts n inside, swapped.j, swapped.box⟩
  done := by
    have ended := swap_last _ (swapped_at isRun starts 255 (by decide)) _ (isRun _)
    exact ⟨3584, done_visit isRun starts, ended.2⟩

end Run

/-! The late schedule is never RC4's. As long as the boxes agree, exchanging with
the previous `j` and with the new one must be the same, so `j` stays 0 and the key
bytes cancel the cells `0, 1, 2` that they are added to; but round 3 uses the byte
of round 0 again. -/
section Never
variable {key : Nat → Byte}

theorem late_step {n : Nat} (agree : lateSchedule key n = schedule key n)
    (next : (lateSchedule key (n + 1)).box = (schedule key (n + 1)).box) :
    lateSchedule key (n + 1) = schedule key (n + 1) ∧
      (schedule key (n + 1)).j = (schedule key n).j := by
  have sameJ : (lateSchedule key (n + 1)).j = (schedule key (n + 1)).j := by
    simp only [lateSchedule, lateRound, schedule, scheduleRound, agree]
  have whole : lateSchedule key (n + 1) = schedule key (n + 1) := by
    rcases late : lateSchedule key (n + 1) with ⟨box, j⟩
    rcases exact : schedule key (n + 1) with ⟨box', j'⟩
    rw [late, exact] at next sameJ
    simp only at next sameJ
    rw [next, sameJ]
  refine ⟨whole, ?_⟩
  -- both exchanges move the cell of the partner to the cell of the index
  have moved := congrFun next (BitVec.ofNat 8 n)
  simp only [lateSchedule, lateRound, schedule, scheduleRound, agree, exchange_left] at moved
  exact ((schedule_bijective key n).injective moved).symm

/-- While `j` stays 0, the cells from the index on keep their first values. -/
theorem cell_kept (n : Nat) (zero : ∀ m ≤ n, (schedule key m).j = 0) (a : Byte)
    (late : n ≤ a.toNat) (other : a ≠ 0) : (schedule key n).box a = a := by
  induction n with
  | zero => rfl
  | succ n ih =>
      have before := ih (fun m early => zero m (by omega)) (by omega)
      have notIndex : a ≠ BitVec.ofNat 8 n := by bv_omega
      have partner : (schedule key (n + 1)).j = 0 := zero (n + 1) (Nat.le_refl _)
      calc (schedule key (n + 1)).box a
          = exchange (schedule key n).box (BitVec.ofNat 8 n) (schedule key (n + 1)).j a := rfl
        _ = (schedule key n).box a := by rw [partner, exchange, if_neg notIndex, if_neg other]
        _ = a := before

theorem late_never (agree : ∀ n < 4, (lateSchedule key (n + 1)).box = (schedule key (n + 1)).box)
    (again : key 3 = key 0) : False := by
  have zeroth : lateSchedule key 0 = schedule key 0 := rfl
  obtain ⟨first, j1⟩ := late_step zeroth (agree 0 (by decide))
  obtain ⟨second, j2⟩ := late_step first (agree 1 (by decide))
  obtain ⟨third, j3⟩ := late_step second (agree 2 (by decide))
  have j4 := (late_step third (agree 3 (by decide))).2
  have start : (schedule key 0).j = 0 := rfl
  have zero (m : Nat) (early : m ≤ 3) : (schedule key m).j = 0 :=
    match m with
    | 0 => start
    | 1 => j1
    | 2 => j2.trans j1
    | 3 => j3.trans (j2.trans j1)
  have firstByte : (schedule key 1).j = 0 + 0 + key 0 := rfl
  have lastByte : (schedule key 4).j = (schedule key 3).j + (schedule key 3).box 3 + key 3 := rfl
  rw [cell_kept 3 zero 3 (by decide) (by decide), again, j4, zero 3 (by decide)] at lastByte
  rw [zero 1 (by decide)] at firstByte
  bv_omega

end Never

section Visits
variable {rounds other : Nat → Cipher 8} {run : Nat → Machine}

/-- The run fixes the boxes that it shows. -/
theorem boxes_agree (shown : Schedules rounds run) (also : Schedules other run) (n : Nat)
    (inside : n < 256) : (rounds (n + 1)).box = (other (n + 1)).box := by
  obtain ⟨t, visit, -, box⟩ := shown.round n inside
  obtain ⟨t', visit', -, box'⟩ := also.round n inside
  obtain rfl := visit_unique _ run visit visit'
  rw [← box, box']

end Visits

theorem machine_late (secretKey : Nat → Byte) (seesNew : Nat → Bool) (registers : Machine) :
    Schedules (lateSchedule fun n => secretKey (n % 3))
      (drive (clock secretKey) seesNew (powerUp registers)) :=
  have isRun := drive_is_run (clock secretKey) seesNew (powerUp registers)
  late_schedule_computed isRun rfl

/-- For no key is the machine's work RC4's key schedule. -/
theorem never_key_scheduled (secretKey : Nat → Byte) (seesNew : Nat → Bool) (registers : Machine) :
    ¬ KeyScheduled secretKey (drive (clock secretKey) seesNew (powerUp registers)) := by
  intro scheduled
  have late := machine_late secretKey seesNew registers
  have agree (n : Nat) (early : n < 4) := boxes_agree late scheduled n (by omega)
  exact late_never agree rfl

/-- The key 000249 of the first sample message. -/
def sampleKey (n : Nat) : Byte := Task2Fsm2.keyBytes 0 2 0x49 (n % 3)

def sampleRun : Nat → Machine :=
  drive (clock (Task2Fsm2.keyBytes 0 2 0x49)) (fun _ => true)
    (powerUp ⟨.startFill, 0, 0, 0, 0, 0, 0, ⟨id, 0⟩⟩)

theorem sample_cell_differs : (lateSchedule sampleKey 256).box 0 ≠ keySchedule sampleKey 0 := by
  decide +kernel

/-- With this key the memory at `done` is not RC4's either. -/
theorem sample_key_differs :
    ∃ t, VisitAt Done sampleRun 0 t ∧ (sampleRun t).sMemory.content ≠ keySchedule sampleKey := by
  obtain ⟨t, visit, box⟩ := (machine_late (Task2Fsm2.keyBytes 0 2 0x49) (fun _ => true) _).done
  refine ⟨t, visit, fun same => sample_cell_differs ?_⟩
  exact congrFun (box.symm.trans same) 0

end Cpen311.Task1And2
