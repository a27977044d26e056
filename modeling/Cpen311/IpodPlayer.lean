import Cpen311.ClockedRun

/-! The player of `simple_ipod_solution`: `fsm_flash_read` with its
`address_controller`, and `sound_out`, wired together with `reset = 0`. A state
register holds one of the named parameters, since every branch assigns one of
them; the `default` branches that return to `idle` are therefore absent. The
registers `buffer` and `sound` have no initial value, so power-up takes them as
parameters. Keyboard, clock divider and edge detector appear only as the signals
`startKey`, `direction` and `readNow`, and the flash as its three outputs. -/
namespace Cpen311.IpodPlayer

abbrev Byte := BitVec 8
abbrev Address := BitVec 23
abbrev Word := BitVec 32

/-- What the two machines read in one cycle of `CLOCK_50`. `flash_mem_waitrequest`
is not connected to either; it is here because it belongs to the flash's bus. -/
structure Signals where
  startKey : Bool
  direction : Bool
  readNow : Bool
  waitrequest : Bool
  readdatavalid : Bool
  readdata : Word

inductive ReadState where
  | idle
  | getReadAddress
  | sendReadAddress
  | finished
deriving DecidableEq, Repr

def ReadState.encoding : ReadState → Byte
  | .idle => 0b00010000
  | .getReadAddress => 0b00100010
  | .sendReadAddress => 0b10000001
  | .finished => 0b01000101

def flashMemRead (state : ReadState) : Bool := state.encoding.getLsbD 0

def getAddress (state : ReadState) : Bool := state.encoding.getLsbD 1

def finishRead (state : ReadState) : Bool := state.encoding.getLsbD 2

inductive SoundState where
  | idle
  | read
  | wait1
  | audio1
  | wait2
  | audio2
  | finishedSound
deriving DecidableEq, Repr

def SoundState.encoding : SoundState → Byte
  | .idle => 0b11110000
  | .read => 0b00010000
  | .wait1 => 0b00100000
  | .audio1 => 0b00110000
  | .wait2 => 0b01000000
  | .audio2 => 0b01010000
  | .finishedSound => 0b01111000

def finishSound (state : SoundState) : Bool := state.encoding.getLsbD 3

def start : Address := 0
def finish : Address := 0x7FFFF

/-- The register of `address_controller` after one edge. -/
def addressController (enabled direction : Bool) (address : Address) : Address :=
  if enabled then
    if direction then
      if address = finish then start else address + 1
    else
      if address = start then finish else address - 1
  else address

/-- The state controller of `fsm_flash_read`. -/
def fsmFlashRead (startKey soundFinish : Bool) : ReadState → ReadState
  | .idle => if startKey then .getReadAddress else .idle
  | .getReadAddress => .sendReadAddress
  | .sendReadAddress => .finished
  | .finished => if soundFinish then .idle else .finished

/-- The state controller of `sound_out`. -/
def soundOut (started readdatavalid edgedetect : Bool) : SoundState → SoundState
  | .idle => if started then .read else .idle
  | .read => if readdatavalid then .wait1 else .read
  | .wait1 => if edgedetect then .audio1 else .wait1
  | .audio1 => .wait2
  | .wait2 => if edgedetect then .audio2 else .wait2
  | .audio2 => .finishedSound
  | .finishedSound => .idle

def lowByte (word : Word) : Byte := word.extractLsb' 8 8
def highByte (word : Word) : Byte := word.extractLsb' 24 8

/-- The byte of a word that leaves first, and the one that leaves second. -/
def firstByte (direction : Bool) (word : Word) : Byte :=
  if direction then lowByte word else highByte word

def secondByte (direction : Bool) (word : Word) : Byte :=
  if direction then highByte word else lowByte word

structure Player where
  readState : ReadState
  address : Address
  soundState : SoundState
  buffer : Word
  sound : Byte

def powerUp (buffer : Word) (sound : Byte) : Player where
  readState := .idle
  address := 0
  soundState := .idle
  buffer := buffer
  sound := sound

/-- The data registers of `sound_out`: the two bytes of a word are taken from
`buffer`, which follows the data bus throughout `wait1`. -/
def audioRegisters (s : Signals) (p : Player) : Word × Byte :=
  match p.soundState with
  | .wait1 => (s.readdata, p.sound)
  | .audio1 => (p.buffer, firstByte s.direction p.buffer)
  | .audio2 => (p.buffer, secondByte s.direction p.buffer)
  | _ => (p.buffer, p.sound)

/-- One edge of `CLOCK_50`; every register is computed from the values before it. -/
def clock (s : Signals) (p : Player) : Player where
  readState := fsmFlashRead s.startKey (finishSound p.soundState) p.readState
  address := addressController (getAddress p.readState) s.direction p.address
  soundState := soundOut (finishRead p.readState) s.readdatavalid s.readNow p.soundState
  buffer := (audioRegisters s p).1
  sound := (audioRegisters s p).2

end Cpen311.IpodPlayer
