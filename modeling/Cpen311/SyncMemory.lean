import Mathlib.Logic.Function.Basic

/-! A single-port synchronous memory block: address, data and write enable are
registered at the clock edge, the output is not registered, and a write shows
the new data at the output. Contents are a function of the address. -/
namespace Cpen311.SyncMemory

structure Ram (addressWidth wordWidth : Nat) where
  content : BitVec addressWidth → BitVec wordWidth
  latched : BitVec addressWidth

variable {a w : Nat}

def Ram.q (memory : Ram a w) : BitVec w := memory.content memory.latched

def Ram.clock (memory : Ram a w) (address : BitVec a) (data : BitVec w)
    (wren : Bool) : Ram a w where
  content := if wren then Function.update memory.content address data else memory.content
  latched := address

/-- A read-only block has no data or write-enable port. -/
def Ram.fetch (memory : Ram a w) (address : BitVec a) : Ram a w :=
  memory.clock address 0 false

@[simp] theorem clock_idle (memory : Ram a w) (address : BitVec a) (data : BitVec w) :
    memory.clock address data false = ⟨memory.content, address⟩ := rfl

@[simp] theorem clock_write (memory : Ram a w) (address : BitVec a) (data : BitVec w) :
    memory.clock address data true = ⟨Function.update memory.content address data, address⟩ := rfl

@[simp] theorem fetch_eq (memory : Ram a w) (address : BitVec a) :
    memory.fetch address = ⟨memory.content, address⟩ := rfl

end Cpen311.SyncMemory
