import Cpen311.SyncMemory

/-! The key search machine of lab4 (`task2_fsm.sv`) with its three memories.
Every register is updated from the values before the clock edge. The two
blocking assignments of the source (`wren` in `write_mem`, `fsm1_done` in
`check_done`) drive registers that no other branch of the same edge reads, so
they are registers like the others. Register names are those of the source. -/
namespace Cpen311.Task2Fsm
open SyncMemory

abbrev Byte := BitVec 8

inductive State where
  | writeMem | checkDone | doneFill
  | startSwap | swap1 | wait1 | storeI | calcJ | wait2 | storeJ
  | writeAtJ | wait3 | writeAtI | wait4 | counterInc | doneSwap
  | startSwap2 | iInc | wait0s | jUpdate | wait1s | storeI2 | wait2s | storeJ2
  | writeJ2 | wait3s | writeI2 | wait4s | fLogicI | wait5s | fLogicJ | wait6s
  | fLogicSum | wait7s | decryptState | checkKloop | doneSwap2 | badMessage
  deriving DecidableEq, Repr

def State.encoding : State → BitVec 18
  | .writeMem => 0b000000000100000001
  | .checkDone => 0b000000000100000011
  | .doneFill => 0b000000000000000111
  | .startSwap => 0b000000000000000000
  | .swap1 => 0b000000000000010000
  | .wait1 => 0b000000000000010001
  | .storeI => 0b000000000000110001
  | .calcJ => 0b000000000001110001
  | .wait2 => 0b000000000011110001
  | .storeJ => 0b000000000010110001
  | .writeAtJ => 0b000000000110010001
  | .wait3 => 0b000000000010011001
  | .writeAtI => 0b000000000110011101
  | .wait4 => 0b000000000010011111
  | .counterInc => 0b000000000000011111
  | .doneSwap => 0b000000001000001011
  | .startSwap2 => 0b000000010000000000
  | .iInc => 0b000000110000000000
  | .wait0s => 0b000001110000000000
  | .jUpdate => 0b000011110000000000
  | .wait1s => 0b000111110000000000
  | .storeI2 => 0b001111110000000000
  | .wait2s => 0b011111110000000000
  | .storeJ2 => 0b111111110000000000
  | .writeJ2 => 0b111111100000000000
  | .wait3s => 0b111111000000000000
  | .writeI2 => 0b111110000000000000
  | .wait4s => 0b111100000000000000
  | .fLogicI => 0b111000000000000000
  | .wait5s => 0b110000000000000000
  | .fLogicJ => 0b100000000000000000
  | .wait6s => 0b101000000000000000
  | .fLogicSum => 0b101100000000000000
  | .wait7s => 0b100100000000000000
  | .decryptState => 0b100110000000000000
  | .checkKloop => 0b100010000000000000
  | .doneSwap2 => 0b100011000000000000
  | .badMessage => 0b100011100000000000

def State.all : List State :=
  [.writeMem, .checkDone, .doneFill, .startSwap, .swap1, .wait1, .storeI, .calcJ, .wait2, .storeJ,
   .writeAtJ, .wait3, .writeAtI, .wait4, .counterInc, .doneSwap, .startSwap2, .iInc, .wait0s,
   .jUpdate, .wait1s, .storeI2, .wait2s, .storeJ2, .writeJ2, .wait3s, .writeI2, .wait4s, .fLogicI,
   .wait5s, .fLogicJ, .wait6s, .fLogicSum, .wait7s, .decryptState, .checkKloop, .doneSwap2,
   .badMessage]

/-- The item of a `case(state)` that an 18-bit value selects, if it is a declared encoding. -/
def decode (bits : BitVec 18) : Option State := State.all.find? fun q => q.encoding == bits

@[simp] theorem decode_encoding (q : State) : decode q.encoding = some q := by
  cases q <;> rfl

theorem encoding_injective {p q : State} (same : p.encoding = q.encoding) : p = q := by
  have decoded := congrArg decode same
  simpa using decoded

@[simp] theorem encoding_inj (p q : State) : p.encoding = q.encoding ↔ p = q :=
  ⟨encoding_injective, fun same => congrArg _ same⟩

/-- `state = none` is the value `18'bz` that the default branch assigns. -/
structure Machine where
  state : Option (BitVec 18)
  secret : BitVec 24
  crackSuccess : BitVec 2
  address : Byte
  data : Byte
  wren : Bool
  swapFlag : Bool
  fsm1Done : Bool
  counterI : Byte
  counterJ : Byte
  counterK : Byte
  tempI : Byte
  tempJ : Byte
  f : Byte
  sF : Byte
  addressIn : Byte
  addressOut : Byte
  dataDecrypted : Byte
  wrenD : Bool
  ram1 : Ram 8 8
  encryptedInputRom : Ram 5 8
  decryptedOutputRam : Ram 8 8

/-- Registers without an initial value power up to 0. The contents of the two
RAMs at power-up are left open, the ROM holds the ciphertext. -/
def powerUp (ciphertext : BitVec 5 → Byte) (sContent deContent : Byte → Byte) : Machine where
  state := some State.writeMem.encoding
  secret := 0
  crackSuccess := 0
  address := 0
  data := 0
  wren := false
  swapFlag := false
  fsm1Done := false
  counterI := 0
  counterJ := 0
  counterK := 0
  tempI := 0
  tempJ := 0
  f := 0
  sF := 0
  addressIn := 0
  addressOut := 0
  dataDecrypted := 0
  wrenD := false
  ram1 := ⟨sContent, 0⟩
  encryptedInputRom := ⟨ciphertext, 0⟩
  decryptedOutputRam := ⟨deContent, 0⟩

def secretKey (secret : BitVec 24) (n : Nat) : Byte :=
  match n with
  | 0 => secret.extractLsb' 16 8
  | 1 => secret.extractLsb' 8 8
  | _ => secret.extractLsb' 0 8

def Machine.outMem (m : Machine) : Byte := m.ram1.q

def Machine.encryptedInput (m : Machine) : Byte := m.encryptedInputRom.q

/-- The test that `check_kloop` makes in both of its blocks. -/
def accepted (dataDecrypted : Byte) : Bool :=
  dataDecrypted == 32 || (92 ≤ dataDecrypted && dataDecrypted ≤ 122)

/-- The state controller. `bad_message` has no item of its own, so it falls into
the default branch like every undeclared value. -/
def controller (m : Machine) : State → Option State
  | .writeMem => some .checkDone
  | .checkDone => if m.counterI = 255 then some .doneFill else some .writeMem
  | .doneFill => some .startSwap
  | .startSwap => if m.fsm1Done then some .swap1 else some .startSwap
  | .swap1 => some .wait1
  | .wait1 => some .storeI
  | .storeI => some .calcJ
  | .calcJ => some .wait2
  | .wait2 => some .storeJ
  | .storeJ => some .writeAtJ
  | .writeAtJ => some .wait3
  | .wait3 => some .writeAtI
  | .writeAtI => some .wait4
  | .wait4 => some .counterInc
  | .counterInc => if m.counterI = 255 then some .doneSwap else some .swap1
  | .doneSwap => some .startSwap2
  | .startSwap2 => some .iInc
  | .iInc => some .wait0s
  | .wait0s => some .jUpdate
  | .jUpdate => some .wait1s
  | .wait1s => some .storeI2
  | .storeI2 => some .wait2s
  | .wait2s => some .storeJ2
  | .storeJ2 => some .writeJ2
  | .writeJ2 => some .wait3s
  | .wait3s => some .writeI2
  | .writeI2 => some .wait4s
  | .wait4s => some .fLogicI
  | .fLogicI => some .wait5s
  | .wait5s => some .fLogicJ
  | .fLogicJ => some .wait6s
  | .wait6s => some .fLogicSum
  | .fLogicSum => some .wait7s
  | .wait7s => some .decryptState
  | .decryptState => some .checkKloop
  -- `counter_k` already counts the byte under test
  | .checkKloop =>
      if accepted m.dataDecrypted then
        if m.counterK ≤ 31 then some .iInc else some .doneSwap2
      else if m.secret ≠ 16777215 then some .writeMem else some .badMessage
  | .doneSwap2 => some .doneSwap2
  | .badMessage => none

/-- The state behaviour block; a state without an item changes no register. -/
def behaviour (m : Machine) : State → Machine
  | .writeMem => { m with address := m.counterI, data := m.counterI, wren := true }
  | .checkDone =>
      if m.counterI = 255 then { m with fsm1Done := true }
      else { m with counterI := m.counterI + 1 }
  | .doneFill => { m with wren := false }
  | .startSwap => { m with counterI := 0, counterJ := 0, tempI := 0, wren := false, tempJ := 0 }
  | .swap1 => { m with address := m.counterI }
  | .storeI => { m with tempI := m.outMem }
  -- the source repeats the sum instead of reading `counter_j` back
  | .calcJ =>
      { m with
        address := m.counterJ + m.outMem + secretKey m.secret (m.counterI.toNat % 3)
        counterJ := m.counterJ + m.outMem + secretKey m.secret (m.counterI.toNat % 3) }
  | .storeJ => { m with tempJ := m.outMem }
  | .writeAtJ => { m with data := m.tempI, wren := true }
  | .wait3 => { m with wren := false }
  | .writeAtI => { m with address := m.counterI, data := m.tempJ, wren := true }
  | .wait4 => { m with wren := false }
  | .counterInc =>
      if m.counterI = 255 then { m with swapFlag := true }
      else { m with counterI := m.counterI + 1 }
  | .startSwap2 =>
      { m with
        counterI := 0, counterJ := 0, counterK := 0, tempI := 0, wren := false, tempJ := 0
        wrenD := false, f := 0, sF := 0 }
  | .iInc =>
      { m with
        address := m.counterI + 1, counterI := m.counterI + 1
        addressIn := m.counterK, addressOut := m.counterK }
  | .jUpdate => { m with counterJ := m.counterJ + m.outMem }
  | .storeI2 => { m with tempI := m.outMem, address := m.counterJ }
  | .storeJ2 => { m with tempJ := m.outMem }
  | .writeJ2 => { m with data := m.tempI, wren := true }
  | .wait3s => { m with wren := false }
  | .writeI2 => { m with address := m.counterI, data := m.tempJ, wren := true }
  | .wait4s => { m with wren := false }
  | .fLogicI => { m with address := m.tempJ + m.tempI, sF := m.tempJ }
  | .fLogicJ => { m with sF := m.sF + m.tempI }
  | .fLogicSum => { m with f := m.outMem }
  | .decryptState =>
      { m with
        wrenD := true, dataDecrypted := m.outMem ^^^ m.encryptedInput
        counterK := m.counterK + 1 }
  | .checkKloop =>
      if !accepted m.dataDecrypted then
        if m.secret ≠ 16777215 then { m with secret := m.secret + 1, counterI := 0, wrenD := false }
        else { m with wrenD := false }
      else { m with wrenD := false }
  -- the wait states, `done_swap`, `done_swap2` and `bad_message`
  | _ => m

/-- One rising edge of `clk`: the controller, the behaviour block, the
`crack_success` register and the three memories all read the values before it.
The ROM has a 5-bit address port. -/
def clock (m : Machine) : Machine :=
  let item := m.state.bind decode
  let registers := match item with
    | some q => behaviour m q
    | none => m
  { registers with
    state := (item.bind (controller m)).map State.encoding
    crackSuccess :=
      if m.state = some 0b100011000000000000 then 0b01
      else if m.state = some 0b100011100000000000 then 0b10
      else m.crackSuccess
    ram1 := m.ram1.clock m.address m.data m.wren
    encryptedInputRom := m.encryptedInputRom.fetch (m.addressIn.setWidth 5)
    decryptedOutputRam := m.decryptedOutputRam.clock m.addressOut m.dataDecrypted m.wrenD }

end Cpen311.Task2Fsm
