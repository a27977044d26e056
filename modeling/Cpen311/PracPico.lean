import Cpen311.ClockedRun
import Cpen311.Kcpsm3

/-! `pracPICO.psm` on its board. The program is the list of its labelled blocks
in source order; addresses follow from it, with the interrupt vector at `3FF` and
`LOAD s0, 00` in the words the assembler leaves at zero. The board adds the output
registers of `picoblaze_template` and the stream of audio bytes that `INPUT` from
port 01 consumes; the program reads no other port. An interrupt is requested or
not at each instruction boundary, and taken if interrupts are enabled. -/
namespace Cpen311.PracPico
open Kcpsm3

inductive Label where
  | coldStart
  | mainProgram
  | hexByteToASCII
  | hexToASCII
  | numberChar
  | delay1us
  | wait1us
  | delay40us
  | wait40us
  | delay1ms
  | wait1ms
  | delay20ms
  | wait20ms
  | delay100ms
  | wait100ms
  | delay200ms
  | wait200ms
  | delay1s
  | wait1s
  | isr
  | addData
  | incrementCounter
  | check256
  | storeData
  | updateLed
  | bit6
  | bit5
  | bit4
  | bit3
  | bit2
  | bit1
  | bit0
  | resetAllVal
  | positive
deriving DecidableEq, Repr

def s0 : Reg := 0
def s1 : Reg := 1
def s2 : Reg := 2
def s3 : Reg := 3
def s4 : Reg := 4
def s5 : Reg := 5

/-- The registers of the main program. -/
def mainRegister (r : Reg) : Bool := r < 5

def ledPort : Byte := 0x80
def led0Port : Byte := 0x10
def audioData : Byte := 0x01

def isrPreserveS0 : Cell := 0x00
def isrPreserveS1 : Cell := 0x01
def isrPreserveS2 : Cell := 0x02
def isrPreserveS3 : Cell := 0x03
def isrPreserveS4 : Cell := 0x08
def ledPattern : Cell := 0x04
def counter : Cell := 0x05
def sumOfData1 : Cell := 0x06
def sumOfData2 : Cell := 0x07

def delay1usConstant : Byte := 0x0B

/-- One step of the bar cascade: shift, and on a one show `pattern` and finish. -/
def barStep (next : Label) (pattern : Byte) : List (Instr Label) :=
  [.sl0 s3,
   .jump .nc next,
   .alu .load s5 (.const pattern),
   .output s5 ledPort,
   .jump .always .resetAllVal]

/-- A loop that calls `body` and counts `x` down to zero. -/
def countDown (x : Reg) (body wait : Label) : List (Instr Label) :=
  [.call .always body,
   .alu .sub x (.const 0x01),
   .jump .nz wait,
   .ret]

def source : List (Label × List (Instr Label)) :=
  [(.coldStart,
     [.alu .load s0 (.const 0x00),
      .store s0 ledPattern,
      .output s0 ledPort,
      .output s0 led0Port,
      .enableInterrupt]),
   (.mainProgram,
     [.alu .load s0 (.const 0x01),
      .output s0 led0Port,
      .call .always .delay1s,
      .alu .load s0 (.const 0x00),
      .output s0 led0Port,
      .call .always .delay1s,
      .jump .always .mainProgram]),
   (.hexByteToASCII,
     [.alu .load s2 (.reg s0),
      .sr0 s0,
      .sr0 s0,
      .sr0 s0,
      .sr0 s0,
      .call .always .hexToASCII,
      .alu .load s3 (.reg s0),
      .alu .load s0 (.reg s2),
      .alu .and s0 (.const 0x0F),
      .call .always .hexToASCII,
      .alu .load s2 (.reg s0),
      .ret]),
   (.hexToASCII,
     [.alu .sub s0 (.const 0x0A),
      .jump .c .numberChar,
      .alu .add s0 (.const 0x07)]),
   (.numberChar,
     [.alu .add s0 (.const 0x3A),
      .ret]),
   (.delay1us, [.alu .load s0 (.const delay1usConstant)]),
   (.wait1us,
     [.alu .sub s0 (.const 0x01),
      .jump .nz .wait1us,
      .ret]),
   (.delay40us, [.alu .load s1 (.const 0x28)]),
   (.wait40us, countDown s1 .delay1us .wait40us),
   (.delay1ms, [.alu .load s2 (.const 0x19)]),
   (.wait1ms, countDown s2 .delay40us .wait1ms),
   (.delay20ms, [.alu .load s3 (.const 0x14)]),
   (.wait20ms, countDown s3 .delay1ms .wait20ms),
   (.delay100ms, [.alu .load s3 (.const 0x64)]),
   (.wait100ms, countDown s3 .delay1ms .wait100ms),
   (.delay200ms, [.alu .load s4 (.const 0x02)]),
   (.wait200ms, countDown s4 .delay100ms .wait200ms),
   (.delay1s, [.alu .load s4 (.const 0x32)]),
   (.wait1s, countDown s4 .delay20ms .wait1s),
   (.isr,
     [.store s0 isrPreserveS0,
      .store s1 isrPreserveS1,
      .store s2 isrPreserveS2,
      .store s3 isrPreserveS3,
      .store s4 isrPreserveS4,
      .input s1 audioData,
      .fetch s2 sumOfData1,
      .fetch s3 sumOfData2,
      .fetch s4 counter,
      .alu .test s1 (.const 0x80),
      .call .c .positive]),
   (.addData,
     [.alu .add s2 (.reg s1),
      .alu .addcy s3 (.const 0x00)]),
   (.incrementCounter, [.alu .add s4 (.const 0x01)]),
   (.check256, [.jump .c .updateLed]),
   (.storeData,
     [.store s2 sumOfData1,
      .store s3 sumOfData2,
      .store s4 counter,
      .fetch s0 isrPreserveS0,
      .fetch s1 isrPreserveS1,
      .fetch s2 isrPreserveS2,
      .fetch s3 isrPreserveS3,
      .fetch s4 isrPreserveS4,
      .returniEnable]),
   (.updateLed, .alu .and s0 (.reg s0) :: barStep .bit6 0xFF),
   (.bit6, barStep .bit5 0xFE),
   (.bit5, barStep .bit4 0xFC),
   (.bit4, barStep .bit3 0xF8),
   (.bit3, barStep .bit2 0xF0),
   (.bit2, barStep .bit1 0xE0),
   (.bit1, barStep .bit0 0xC0),
   (.bit0, barStep .resetAllVal 0x80),
   (.resetAllVal,
     [.alu .load s2 (.const 0x00),
      .alu .load s3 (.const 0x00),
      .alu .load s4 (.const 0x00),
      .alu .load s5 (.const 0x00),
      .jump .always .storeData]),
   (.positive,
     [.alu .sub s1 (.const 0x01),
      .alu .xor s1 (.const 0xFF),
      .ret])]

def offset (label : Label) : List (Label × List (Instr Label)) → Nat
  | [] => 0
  | (found, block) :: rest => if found = label then 0 else block.length + offset label rest

def address (label : Label) : Address := BitVec.ofNat 10 (offset label source)

def vector : Address := 0x3FF

def instruction (a : Address) : Instr Label :=
  if a = vector then .jump .always .isr
  else ((source.flatMap Prod.snd)[a.toNat]?).getD (.alu .load s0 (.const 0x00))

structure Board where
  cpu : Cpu
  led : Byte
  led0 : Bool
  sseg : BitVec 24
  position : Nat

/-- The output registers after an `OUTPUT`, each enabled by one bit of `port_id`. -/
def latch (b : Board) : Option (Byte × Byte) → Board
  | none => b
  | some (port, value) =>
      let low := if port.getLsbD 6 then b.sseg.extractLsb' 8 16 ++ value else b.sseg
      { b with
        led := if port.getLsbD 7 then value else b.led
        sseg := if port.getLsbD 5 then low.extractLsb' 16 8 ++ value ++ low.extractLsb' 0 8 else low
        led0 := if port.getLsbD 4 then value.getLsbD 0 else b.led0 }

section Step
variable (samples : Nat → Byte)

/-- The input multiplexer; the ports that are not read are left at zero. -/
def inPort (b : Board) (port : Byte) : Byte := if port = audioData then samples b.position else 0

def consumed : Instr Label → Nat
  | .input _ port => if port = audioData then 1 else 0
  | _ => 0

def perform (b : Board) (i : Instr Label) : Board :=
  { latch b (written b.cpu i) with
    cpu := execute address (inPort samples b) b.cpu i
    position := b.position + consumed i }

def step (request : Bool) (b : Board) : Board :=
  if b.cpu.enabled && request then { b with cpu := interrupt b.cpu }
  else perform samples b (instruction b.cpu.pc)

end Step

/-- Power-up: flags clear, interrupts disabled, scratchpad zero. The registers of
the processor and of the board hold anything. -/
def powerUp (reg : Reg → Byte) (led : Byte) (led0 : Bool) (sseg : BitVec 24) : Board where
  cpu :=
    { pc := 0
      reg := reg
      zero := false
      carry := false
      enabled := false
      savedZero := false
      savedCarry := false
      stack := []
      scratch := fun _ => 0 }
  led := led
  led0 := led0
  sseg := sseg
  position := 0

end Cpen311.PracPico
