import Mathlib.Logic.Function.Basic

/-! The part of the KCPSM3 processor that a program without `RETURNI DISABLE`,
rotations and register-addressed ports uses. Instructions are generic in the
labels they jump to; `execute` is told where a label stands. The stack is a list,
so that its depth can be spoken of; the processor itself has room for `stackDepth`
return addresses. -/
namespace Cpen311.Kcpsm3

abbrev Byte := BitVec 8
abbrev Address := BitVec 10
abbrev Reg := Fin 16
abbrev Cell := BitVec 6

def stackDepth : Nat := 31

inductive Operand where
  | reg (y : Reg)
  | const (k : Byte)
deriving DecidableEq, Repr

inductive Condition where
  | always
  | z
  | nz
  | c
  | nc
deriving DecidableEq, Repr

inductive Alu where
  | load
  | and
  | xor
  | test
  | add
  | addcy
  | sub
deriving DecidableEq, Repr

inductive Instr (Label : Type) where
  | alu (op : Alu) (x : Reg) (y : Operand)
  | sl0 (x : Reg)
  | sr0 (x : Reg)
  | store (x : Reg) (cell : Cell)
  | fetch (x : Reg) (cell : Cell)
  | input (x : Reg) (port : Byte)
  | output (x : Reg) (port : Byte)
  | jump (condition : Condition) (target : Label)
  | call (condition : Condition) (target : Label)
  | ret
  | returniEnable
  | enableInterrupt
deriving DecidableEq, Repr

structure Cpu where
  pc : Address
  reg : Reg → Byte
  zero : Bool
  carry : Bool
  enabled : Bool
  savedZero : Bool
  savedCarry : Bool
  stack : List Address
  scratch : Cell → Byte

/-- The flag `TEST` puts into carry: an odd number of ones. -/
def oddParity (a : Byte) : Bool :=
  (List.finRange 8).foldl (fun odd (i : Fin 8) => odd ^^ a.getLsbD i) false

def Operand.value (y : Operand) (c : Cpu) : Byte :=
  match y with
  | .reg y => c.reg y
  | .const k => k

def Condition.holds (condition : Condition) (c : Cpu) : Bool :=
  match condition with
  | .always => true
  | .z => c.zero
  | .nz => !c.zero
  | .c => c.carry
  | .nc => !c.carry

/-- What an operation leaves in its register, and in the two flags. -/
structure Result where
  value : Byte
  zero : Bool
  carry : Bool

def Alu.result (op : Alu) (a b : Byte) (zero carry : Bool) : Result :=
  match op with
  | .load => ⟨b, zero, carry⟩
  | .and => ⟨a &&& b, a &&& b == 0, false⟩
  | .xor => ⟨a ^^^ b, a ^^^ b == 0, false⟩
  | .test => ⟨a, a &&& b == 0, oddParity (a &&& b)⟩
  | .add => ⟨a + b, a + b == 0, decide (256 ≤ a.toNat + b.toNat)⟩
  | .addcy =>
      let c : Byte := if carry then 1 else 0
      ⟨a + b + c, a + b + c == 0, decide (256 ≤ a.toNat + b.toNat + c.toNat)⟩
  | .sub => ⟨a - b, a - b == 0, decide (a.toNat < b.toNat)⟩

def Cpu.write (c : Cpu) (x : Reg) (r : Result) : Cpu :=
  { c with pc := c.pc + 1, reg := Function.update c.reg x r.value, zero := r.zero, carry := r.carry }

/-- One instruction; `inPort` is what the input multiplexer offers. -/
def execute {Label : Type} (address : Label → Address) (inPort : Byte → Byte) (c : Cpu) :
    Instr Label → Cpu
  | .alu op x y => c.write x (op.result (c.reg x) (y.value c) c.zero c.carry)
  | .sl0 x => c.write x ⟨c.reg x <<< 1, c.reg x <<< 1 == 0, (c.reg x).msb⟩
  | .sr0 x => c.write x ⟨c.reg x >>> 1, c.reg x >>> 1 == 0, (c.reg x).getLsbD 0⟩
  | .store x cell => { c with pc := c.pc + 1, scratch := Function.update c.scratch cell (c.reg x) }
  | .fetch x cell => c.write x ⟨c.scratch cell, c.zero, c.carry⟩
  | .input x port => c.write x ⟨inPort port, c.zero, c.carry⟩
  | .output _ _ => { c with pc := c.pc + 1 }
  | .jump condition target =>
      { c with pc := if condition.holds c then address target else c.pc + 1 }
  | .call condition target =>
      if condition.holds c then { c with pc := address target, stack := c.pc :: c.stack }
      else { c with pc := c.pc + 1 }
  -- a call leaves its own address on the stack, an interrupt that of the instruction it displaces
  | .ret => { c with pc := c.stack.headD 0 + 1, stack := c.stack.tail }
  | .returniEnable =>
      { c with pc := c.stack.headD 0, stack := c.stack.tail, zero := c.savedZero,
               carry := c.savedCarry, enabled := true }
  | .enableInterrupt => { c with pc := c.pc + 1, enabled := true }

/-- The port and the value of an `OUTPUT`. -/
def written {Label : Type} (c : Cpu) : Instr Label → Option (Byte × Byte)
  | .output x port => some (port, c.reg x)
  | _ => none

/-- An active interrupt, taken instead of the instruction at `pc`. -/
def interrupt (c : Cpu) : Cpu :=
  { c with pc := 0x3FF, stack := c.pc :: c.stack, savedZero := c.zero, savedCarry := c.carry,
           enabled := false }

/-! Programs that are blind to everything but some registers. -/
section Blind
variable {Label : Type} (keep : Reg → Bool)

def Operand.within : Operand → Bool
  | .reg y => keep y
  | .const _ => true

/-- The instruction reads and writes only the kept registers, the flags, the
stack and ports outside the processor. -/
def Instr.blind : Instr Label → Bool
  | .alu _ x y => keep x && y.within keep
  | .sl0 x | .sr0 x | .store x _ | .output x _ => keep x
  | .fetch _ _ | .input _ _ | .returniEnable => false
  | _ => true

/-- Equality of everything a blind instruction depends on. -/
structure Agree (c d : Cpu) : Prop where
  pc : c.pc = d.pc
  reg : ∀ r, keep r = true → c.reg r = d.reg r
  zero : c.zero = d.zero
  carry : c.carry = d.carry
  enabled : c.enabled = d.enabled
  stack : c.stack = d.stack

variable {keep} {c d : Cpu}

theorem agree_trans {e : Cpu} (first : Agree keep c d) (second : Agree keep d e) :
    Agree keep c e :=
  ⟨first.pc.trans second.pc, fun r kept => (first.reg r kept).trans (second.reg r kept),
    first.zero.trans second.zero, first.carry.trans second.carry,
    first.enabled.trans second.enabled, first.stack.trans second.stack⟩

theorem agree_operand (agree : Agree keep c d) (y : Operand) (within : y.within keep = true) :
    y.value c = y.value d := by
  cases y with
  | reg y => exact agree.reg y within
  | const k => rfl

theorem agree_condition (agree : Agree keep c d) (condition : Condition) :
    condition.holds c = condition.holds d := by
  cases condition <;> simp [Condition.holds, agree.zero, agree.carry]

theorem agree_write (agree : Agree keep c d) (x : Reg) (r : Result) :
    Agree keep (c.write x r) (d.write x r) := by
  refine ⟨congrArg (· + 1) agree.pc, fun q kept => ?_, rfl, rfl, agree.enabled, agree.stack⟩
  simp only [Cpu.write, Function.update_apply]
  split
  · rfl
  · exact agree.reg q kept

/-- Blind instructions carry agreement along, whatever the input ports offer. -/
theorem execute_agree (agree : Agree keep c d) (address : Label → Address)
    (inPort otherPort : Byte → Byte) (i : Instr Label) (blind : i.blind keep = true) :
    Agree keep (execute address inPort c i) (execute address otherPort d i) := by
  have ⟨pc, reg, zero, carry, enabled, stack⟩ := agree
  cases i with
  | alu op x y =>
      simp only [Instr.blind, Bool.and_eq_true] at blind
      simp only [execute, reg x blind.1, agree_operand agree y blind.2, zero, carry]
      exact agree_write agree x _
  | sl0 x | sr0 x =>
      simp only [execute, reg x blind]
      exact agree_write agree x _
  | store x cell => exact ⟨congrArg (· + 1) pc, reg, zero, carry, enabled, stack⟩
  | fetch x cell | input x port | returniEnable => simp [Instr.blind] at blind
  | output x port => exact ⟨congrArg (· + 1) pc, reg, zero, carry, enabled, stack⟩
  | jump condition target =>
      refine ⟨?_, reg, zero, carry, enabled, stack⟩
      simp only [execute, agree_condition agree condition, pc]
  | call condition target =>
      simp only [execute, agree_condition agree condition]
      split
      · exact ⟨rfl, reg, zero, carry, enabled, by simp only [pc, stack]⟩
      · exact ⟨congrArg (· + 1) pc, reg, zero, carry, enabled, stack⟩
  | ret =>
      refine ⟨?_, reg, zero, carry, enabled, ?_⟩
      · simp only [execute, stack]
      · simp only [execute, stack]
  | enableInterrupt => exact ⟨congrArg (· + 1) pc, reg, zero, carry, rfl, stack⟩

theorem written_agree (agree : Agree keep c d) (i : Instr Label) (blind : i.blind keep = true) :
    written c i = written d i := by
  cases i with
  | output x port => simp only [written, agree.reg x blind]
  | _ => rfl

end Blind

end Cpen311.Kcpsm3
