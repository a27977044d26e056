import Mathlib.Data.BitVec
import Cpen311.AttemptRun

/-! The separate key-schedule machine `task2_fsm2.sv`. Its state register is
clocked, but its other registers are clocked by bits of the state: such a register
updates right after the edge that raises its bit, with `reset_flag` first. The S
memory output also moves at that edge, so a register clocked by a state bit may
see the output from before or from after it; `seesNew` leaves the choice open at
every clock. -/
namespace Cpen311.Task2Fsm2
open ClockedRun SyncMemory Rc4
open Task2Fsm (Byte)

inductive State where
  | waitforfsm1 | start | wait0 | storeI | jLogic | wait1 | storeJ | swap1 | wait2 | swap2
  | wait3 | checkInc | counterInc | resetAddress | done | wait4 | wait5 | state1
  deriving DecidableEq, Repr

def State.encoding : State → BitVec 17
  | .waitforfsm1 => 0b00000000000000000
  | .start => 0b00000000001100001
  | .wait0 => 0b00000000000100010
  | .storeI => 0b00000100000100011
  | .jLogic => 0b00000000010100100
  | .wait1 => 0b00000010000100101
  | .storeJ => 0b00001000000100111
  | .swap1 => 0b01000000000101000
  | .wait2 => 0b00000000000101001
  | .swap2 => 0b01000000000101010
  | .wait3 => 0b00000000000101100
  | .checkInc => 0b00000000000111101
  | .counterInc => 0b00000000100101110
  | .resetAddress => 0b00000001000101111
  | .done => 0b10000000000011111
  | .wait4 => 0b00010000000100111
  | .wait5 => 0b00100001000101010
  | .state1 => 0b00000000000100101

def State.all : List State :=
  [.waitforfsm1, .start, .wait0, .storeI, .jLogic, .wait1, .storeJ, .swap1, .wait2, .swap2, .wait3,
   .checkInc, .counterInc, .resetAddress, .done, .wait4, .wait5, .state1]

def decode (bits : BitVec 17) : Option State := State.all.find? fun q => q.encoding == bits

@[simp] theorem decode_encoding (q : State) : decode q.encoding = some q := by
  cases q <;> rfl

/-- `state = none` is the value `17'bz` of the default branch; its bits never rise. -/
structure Machine where
  state : Option (BitVec 17)
  counterI : Byte
  counterJ : Byte
  tempI : Byte
  tempJ : Byte
  addressReg : Byte
  dataReg : Byte
  sMemory : Ram 8 8

def bit (state : Option (BitVec 17)) (n : Nat) : Bool :=
  match state with
  | some bits => bits.getLsbD n
  | none => false

def wren (m : Machine) : Bool := bit m.state 15

def doneFlag (m : Machine) : Bool := bit m.state 16

def controller (fsm1Done : Bool) (m : Machine) : State → State
  | .waitforfsm1 => if fsm1Done then .start else .waitforfsm1
  | .start => .wait0
  | .wait0 => .storeI
  | .storeI => .jLogic
  | .jLogic => .wait1
  | .wait1 => .state1
  | .state1 => .storeJ
  | .storeJ => .wait4
  | .wait4 => .swap1
  | .swap1 => .wait2
  | .wait2 => .wait5
  | .wait5 => .swap2
  | .swap2 => .wait3
  | .wait3 => .checkInc
  | .checkInc => if m.counterI = 255 then .done else .counterInc
  | .counterInc => .resetAddress
  | .resetAddress => .wait0
  | .done => .done

/-- The registers clocked by state bits, when the state changes from `old` to `new`. -/
def edgeRegisters (secretKey : Nat → Byte) (outMem : Byte) (old new : Option (BitVec 17))
    (m : Machine) : Machine :=
  let posedge (n : Nat) : Bool := !bit old n && bit new n
  -- `reset_flag` is state bit 6: it clocks every register, and each tests it first
  let resetFlag := bit new 6
  { m with
    tempJ :=
      if posedge 12 || posedge 6 then
        if resetFlag then 0 else if bit new 12 then outMem else m.tempJ
      else m.tempJ
    tempI :=
      if posedge 11 || posedge 6 then
        if resetFlag then 0 else if bit new 11 then outMem else m.tempI
      else m.tempI
    counterJ :=
      if posedge 7 || posedge 6 then
        if resetFlag then 0
        else if bit new 7 then m.counterJ + outMem + secretKey (m.counterI.toNat % 3)
        else m.counterJ
      else m.counterJ
    counterI :=
      if posedge 8 || posedge 6 then
        if resetFlag then 0 else if bit new 8 then m.counterI + 1 else m.counterI
      else m.counterI
    addressReg :=
      if posedge 9 || posedge 10 || posedge 6 then
        if resetFlag then 0
        else if bit new 9 then m.counterI
        else if bit new 10 then m.counterJ
        else m.addressReg
      else m.addressReg
    dataReg :=
      if posedge 13 || posedge 14 || posedge 6 then
        if resetFlag then 0
        else if bit new 13 then m.tempI
        else if bit new 14 then m.tempJ
        else m.dataReg
      else m.dataReg }

/-- One rising edge of `clk` and the state-bit edges it causes. -/
def clock (fsm1Done : Bool) (secretKey : Nat → Byte) (seesNew : Bool) (m : Machine) : Machine :=
  let new := ((m.state.bind decode).map (controller fsm1Done m)).map State.encoding
  let memory := m.sMemory.clock m.addressReg m.dataReg (wren m)
  let outMem := if seesNew then memory.q else m.sMemory.q
  { edgeRegisters secretKey outMem m.state new m with
    state := new
    sMemory := memory }

def Clocks (secretKey : Nat → Byte) : Machine → Machine → Prop := clocked (clock true secretKey)

def AtState (q : State) (m : Machine) : Prop := m.state = some q.encoding

/-- The clock edge from a state with a known successor. -/
def edge (secretKey : Nat → Byte) (p q : State) (seesNew : Bool) (m : Machine) : Machine :=
  let memory := m.sMemory.clock m.addressReg m.dataReg (p.encoding.getLsbD 15)
  { edgeRegisters secretKey (if seesNew then memory.q else m.sMemory.q) (some p.encoding)
      (some q.encoding) m with
    state := some q.encoding
    sMemory := memory }

/-- `done_flag` is low. -/
def Busy (m : Machine) : Prop := doneFlag m = false

theorem surely_edge {secretKey : Nat → Byte} {After : Machine → Prop} {n : Nat} {m : Machine}
    (p q : State) (here : AtState p m) (goes : controller true m p = q)
    (busy : p.encoding.getLsbD 16 = false)
    (rest : ∀ seesNew, Surely (Clocks secretKey) Busy After n (edge secretKey p q seesNew m)) :
    Surely (Clocks secretKey) Busy After (n + 1) m := by
  have state : m.state = some p.encoding := here
  apply surely_input
  · simpa [Busy, doneFlag, bit, state] using busy
  intro seesNew
  have taken : clock true secretKey seesNew m = edge secretKey p q seesNew m := by
    simp [clock, edge, wren, bit, state, goes]
  rw [taken]
  exact rest seesNew

/-! The swap loop, at `wait_0`: the S memory shows the cell at `counter_i`. After
the last round the machine is in `done`. -/
structure Swapping (secretKey : Nat → Byte) (n : Nat) (m : Machine) : Prop where
  state : AtState (if n = 256 then .done else .wait0) m
  index : n < 256 → m.counterI = BitVec.ofNat 8 n
  address : n < 256 → m.addressReg = BitVec.ofNat 8 n
  latched : n < 256 → m.sMemory.latched = BitVec.ofNat 8 n
  j : m.counterJ = (schedule (fun i => secretKey (i % 3)) n).j
  box : m.sMemory.content = (schedule (fun i => secretKey (i % 3)) n).box

/-- The end of round `n`, at `check_inc`. -/
structure Swapped (secretKey : Nat → Byte) (n : Nat) (m : Machine) : Prop where
  state : AtState .checkInc m
  index : m.counterI = BitVec.ofNat 8 n
  j : m.counterJ = (schedule (fun i => secretKey (i % 3)) (n + 1)).j
  box : m.sMemory.content = (schedule (fun i => secretKey (i % 3)) (n + 1)).box

section Loop
variable {secretKey : Nat → Byte}

theorem swap_starts (m : Machine) (here : AtState .waitforfsm1 m)
    (identity : m.sMemory.content = id) :
    Surely (Clocks secretKey) Busy (Swapping secretKey 0) 2 m := by
  refine surely_edge .waitforfsm1 .start here rfl rfl fun _ => ?_
  refine surely_edge .start .wait0 rfl rfl rfl fun _ => ?_
  simp only [edge, edgeRegisters, bit, State.encoding, Surely, clock_idle, BitVec.reduceGetLsb]
  exact ⟨rfl, fun _ => rfl, fun _ => rfl, fun _ => rfl, rfl, identity⟩

/-- Both choices of `seesNew` give the same values: whenever a register loads
`out_mem`, the memory's address has been stable for one clock. -/
theorem swap_body (n : Nat) (m : Machine) (inside : n < 256) (inv : Swapping secretKey n m) :
    Surely (Clocks secretKey) Busy (Swapped secretKey n) 12 m := by
  obtain ⟨state, index, address, latched, j, box⟩ := inv
  rw [if_neg (by omega)] at state
  have index := index inside
  refine surely_edge .wait0 .storeI state rfl rfl fun _ => ?_
  refine surely_edge .storeI .jLogic rfl rfl rfl fun _ => ?_
  refine surely_edge .jLogic .wait1 rfl rfl rfl fun _ => ?_
  refine surely_edge .wait1 .state1 rfl rfl rfl fun _ => ?_
  refine surely_edge .state1 .storeJ rfl rfl rfl fun _ => ?_
  refine surely_edge .storeJ .wait4 rfl rfl rfl fun _ => ?_
  refine surely_edge .wait4 .swap1 rfl rfl rfl fun _ => ?_
  refine surely_edge .swap1 .wait2 rfl rfl rfl fun _ => ?_
  refine surely_edge .wait2 .wait5 rfl rfl rfl fun _ => ?_
  refine surely_edge .wait5 .swap2 rfl rfl rfl fun _ => ?_
  refine surely_edge .swap2 .wait3 rfl rfl rfl fun _ => ?_
  refine surely_edge .wait3 .checkInc rfl rfl rfl fun _ => ?_
  simp only [Surely, edge, State.encoding, edgeRegisters, bit, BitVec.reduceGetLsb, Bool.not_false,
    Bool.not_true, Bool.and_false, Bool.and_self, Bool.or_self, Bool.or_false, Bool.or_true,
    Bool.false_eq_true, ↓reduceIte, index, address inside, latched inside, Ram.q, clock_idle,
    clock_write, ite_self, BitVec.toNat_ofNat, exchange_by_writes]
  have round : m.counterJ + m.sMemory.content (BitVec.ofNat 8 n) + secretKey (n % 256 % 3) =
      (schedule (fun i => secretKey (i % 3)) (n + 1)).j := by
    rw [j, box, Nat.mod_eq_of_lt inside]
    rfl
  rw [round, box]
  exact ⟨rfl, rfl, rfl, rfl⟩

theorem swap_continues (n : Nat) (m : Machine) (inside : n < 255) (inv : Swapped secretKey n m) :
    Surely (Clocks secretKey) Busy (Swapping secretKey (n + 1)) 3 m := by
  obtain ⟨state, index, j, box⟩ := inv
  have notLast : m.counterI ≠ 255 := by rw [index]; bv_omega
  refine surely_edge .checkInc .counterInc state (if_neg notLast) rfl fun _ => ?_
  refine surely_edge .counterInc .resetAddress rfl rfl rfl fun _ => ?_
  refine surely_edge .resetAddress .wait0 rfl rfl rfl fun _ => ?_
  have next : BitVec.ofNat 8 n + 1 = BitVec.ofNat 8 (n + 1) := (BitVec.ofNat_add ..).symm
  have more : n + 1 ≠ 256 := by omega
  simp only [Surely, edge, State.encoding, edgeRegisters, bit, BitVec.reduceGetLsb, Bool.not_false,
    Bool.not_true, Bool.and_false, Bool.and_self, Bool.or_self, Bool.or_false, Bool.false_eq_true,
    ↓reduceIte, index, clock_idle]
  refine ⟨?_, fun _ => next, fun _ => next, fun _ => next, j, box⟩
  rw [if_neg more]
  rfl

theorem swap_ends (m : Machine) (inv : Swapped secretKey 255 m) :
    Surely (Clocks secretKey) Busy (Swapping secretKey 256) 1 m := by
  obtain ⟨state, index, j, box⟩ := inv
  have last : m.counterI = 255 := index
  refine surely_edge .checkInc .done state (if_pos last) rfl fun _ => ?_
  simp only [Surely, edge, State.encoding, edgeRegisters, bit, BitVec.reduceGetLsb, Bool.not_false,
    Bool.and_false, Bool.or_self, Bool.false_eq_true, ↓reduceIte, clock_idle]
  exact ⟨rfl, fun absurd => by omega, fun absurd => by omega, fun absurd => by omega, j, box⟩

theorem schedule_computed (m : Machine) (here : AtState .waitforfsm1 m)
    (identity : m.sMemory.content = id) :
    Surely (Clocks secretKey) Busy (Swapping secretKey 256) 3840 m := by
  -- the last round leaves through `done`, so only 255 rounds are alike
  have round (n : Nat) (m : Machine) (inside : n < 255) (inv : Swapping secretKey n m) :=
    surely_trans (swap_body n m (by omega) inv) (swap_continues n · inside)
  have rounds (m : Machine) (inv : Swapping secretKey 0 m) :=
    surely_repeat 255 round 0 255 (by omega) inv
  have last (m : Machine) (inv : Swapping secretKey 255 m) :=
    surely_trans (swap_body 255 m (by omega) inv) swap_ends
  exact surely_trans (surely_trans (swap_starts m here identity) rounds) last

theorem done_preserved (before after : Machine) (taken : Clocks secretKey before after)
    (inv : Swapping secretKey 256 before) : Swapping secretKey 256 after := by
  obtain ⟨seesNew, rfl⟩ := taken
  obtain ⟨state, -, -, -, j, box⟩ := inv
  have state : before.state = some State.done.encoding := state
  refine ⟨?_, fun absurd => by omega, fun absurd => by omega, fun absurd => by omega, ?_, ?_⟩
  · simp [clock, AtState, state, controller]
  · simpa [clock, edgeRegisters, bit, state, controller] using j
  · simpa [clock, wren, bit, state, State.encoding] using box

end Loop

/-- At `time` the machine raises `done_flag`, with the key schedule in the S
memory, and from then on it neither lowers the flag nor writes. -/
structure Computed (secretKey : Nat → Byte) (run : Nat → Machine) (time : Nat) : Prop where
  busy : ∀ t < time, doneFlag (run t) = false
  done : ∀ t, time ≤ t → doneFlag (run t) = true
  silent : ∀ t, time ≤ t → wren (run t) = false
  box : ∀ t, time ≤ t → (run t).sMemory.content = keySchedule fun n => secretKey (n % 3)

theorem schedule_run (secretKey : Nat → Byte) (seesNew : Nat → Bool) (m : Machine)
    (here : AtState .waitforfsm1 m) (identity : m.sMemory.content = id) :
    Computed secretKey (drive (clock true secretKey) seesNew m) 3840 := by
  have isRun := drive_is_run (clock true secretKey) seesNew m
  have stretch : Surely (Clocks secretKey) Busy (Swapping secretKey 256) 3840
      (drive (clock true secretKey) seesNew m 0) := schedule_computed m here identity
  have ended := surely_ends isRun stretch
  have settled (t : Nat) (late : 3840 ≤ t) :
      Swapping secretKey 256 (drive (clock true secretKey) seesNew m t) :=
    invariant_from isRun done_preserved ended (by omega)
  refine ⟨fun t early => ?_, fun t late => ?_, fun t late => ?_, fun t late => (settled t late).box⟩
  · have during := surely_during isRun stretch t early
    rwa [Nat.zero_add] at during
  · have state : (drive (clock true secretKey) seesNew m t).state = some State.done.encoding :=
      (settled t late).state
    simp [doneFlag, bit, state, State.encoding]
  · have state : (drive (clock true secretKey) seesNew m t).state = some State.done.encoding :=
      (settled t late).state
    simp [wren, bit, state, State.encoding]

/-- Power-up with the identity permutation in the S memory. -/
def powerUp : Machine where
  state := some State.waitforfsm1.encoding
  counterI := 0
  counterJ := 0
  tempI := 0
  tempJ := 0
  addressReg := 0
  dataReg := 0
  sMemory := ⟨id, 0⟩

/-! Agreement with the schedule phase of `task2_fsm`. -/
def keyBytes (k0 k1 k2 : Byte) (n : Nat) : Byte :=
  match n with
  | 0 => k0
  | 1 => k1
  | _ => k2

theorem secret_bytes (k0 k1 k2 : Byte) (n : Nat) :
    Task2Fsm.secretKey (k0 ++ k1 ++ k2) n = keyBytes k0 k1 k2 n := by
  match n with
  | 0 =>
      exact (BitVec.extractLsb'_append_eq_of_le (by omega)).trans
        BitVec.extractLsb'_append_eq_left
  | 1 =>
      exact (BitVec.extractLsb'_append_eq_of_le (by omega)).trans
        BitVec.extractLsb'_append_eq_right
  | _ + 2 => exact BitVec.extractLsb'_append_eq_right

/-- For every key and every resolution of the memory's edges, `task2_fsm2`
computes the same key schedule as any attempt of `task2_fsm` with that key. -/
theorem ksa_machines_agree (k0 k1 k2 : Byte) (seesNew : Nat → Bool) (m : Machine)
    (here : AtState .waitforfsm1 m) (identity : m.sMemory.content = id) :
    ∃ time, Computed (keyBytes k0 k1 k2) (drive (clock true (keyBytes k0 k1 k2)) seesNew m) time ∧
      ∀ search : Task2Fsm.Machine, KeyAttempt.AttemptStart search → search.secret = k0 ++ k1 ++ k2 →
        ∃ t, VisitAt (AttemptRun.AtState .startSwap2) (fun n => Task2Fsm.clock^[n] search) 0 t ∧
          (Task2Fsm.clock^[t] search).ram1.content =
            (drive (clock true (keyBytes k0 k1 k2)) seesNew m time).sMemory.content := by
  have computed := schedule_run (keyBytes k0 k1 k2) seesNew m here identity
  refine ⟨3840, computed, fun search start key => ?_⟩
  have isRun : IsRun KeyAttempt.Clocks (fun n => Task2Fsm.clock^[n] search) :=
    iterate_is_run Task2Fsm.clock search
  have attempt : KeyAttempt.Attempt search.secret search.encryptedInputRom.content search :=
    ⟨rfl, rfl⟩
  refine ⟨3331, AttemptRun.schedule_visit isRun start attempt, ?_⟩
  have scheduled := (AttemptRun.attempt_scheduled isRun start attempt).box
  have sameKey : KeyAttempt.rc4Key search.secret = fun n => keyBytes k0 k1 k2 (n % 3) := by
    funext n
    rw [key]
    exact secret_bytes k0 k1 k2 (n % 3)
  rw [computed.box 3840 (Nat.le_refl _), ← sameKey]
  exact scheduled

/-- The key 000249 of the first sample message. -/
theorem sample_key_agrees :
    ∃ time, Computed (keyBytes 0 2 0x49) (drive (clock true (keyBytes 0 2 0x49)) (fun _ => true)
        powerUp) time ∧
      ∀ search : Task2Fsm.Machine, KeyAttempt.AttemptStart search →
        search.secret = (0 : Byte) ++ (2 : Byte) ++ (0x49 : Byte) →
        ∃ t, VisitAt (AttemptRun.AtState .startSwap2) (fun n => Task2Fsm.clock^[n] search) 0 t ∧
          (Task2Fsm.clock^[t] search).ram1.content =
            (drive (clock true (keyBytes 0 2 0x49)) (fun _ => true) powerUp time).sMemory.content :=
  ksa_machines_agree 0 2 0x49 (fun _ => true) powerUp rfl rfl

end Cpen311.Task2Fsm2
