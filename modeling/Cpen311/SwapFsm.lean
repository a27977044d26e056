import Mathlib.Data.BitVec
import Cpen311.ClockedRun
import Cpen311.SyncMemory
import Cpen311.Rc4

/-! `swap_fsm` with one `s_memory`. All its registers are clocked by `clk` and
enabled by bits of the state before the edge. The state register starts at
`start` and every branch assigns a named parameter, so the default branch is
absent. The enables pair `counter_i` with `temp_i` and `counter_j` with `temp_j`,
so each cell is written with the value that was read from it. -/
namespace Cpen311.SwapFsm
open ClockedRun SyncMemory Rc4

abbrev Byte := BitVec 8

inductive State where
  | start | getI | getJ | wait1 | wait2 | storeI | storeJ | swapStateJ | swapStateI | wait3 | wait4
  | done
deriving DecidableEq, Repr

def State.encoding : State → BitVec 12
  | .start => 0b000000010000
  | .getI => 0b000000010010
  | .getJ => 0b000000100011
  | .wait1 => 0b000001000100
  | .wait2 => 0b000010000101
  | .storeI => 0b000000100111
  | .storeJ => 0b000100011111
  | .swapStateJ => 0b011000100100
  | .swapStateI => 0b010100011000
  | .wait3 => 0b011000101001
  | .wait4 => 0b010000001011
  | .done => 0b100000000000

def addressI (q : State) : Bool := q.encoding.getLsbD 4
def addressJ (q : State) : Bool := q.encoding.getLsbD 5
def tempiEnable (q : State) : Bool := q.encoding.getLsbD 6
def tempjEnable (q : State) : Bool := q.encoding.getLsbD 7
def updateDataI (q : State) : Bool := q.encoding.getLsbD 8
def updateDataJ (q : State) : Bool := q.encoding.getLsbD 9
def wren (q : State) : Bool := q.encoding.getLsbD 10
def swapDone (q : State) : Bool := q.encoding.getLsbD 11

structure Machine where
  state : State
  address : Byte
  data : Byte
  tempI : Byte
  tempJ : Byte
  sMemory : Ram 8 8

def controller (swapFlag : Bool) : State → State
  | .start => if swapFlag then .getI else .start
  | .getI => .wait1
  | .wait1 => .storeI
  | .storeI => .getJ
  | .getJ => .wait2
  | .wait2 => .storeJ
  | .storeJ => .swapStateI
  | .swapStateI => .wait3
  | .wait3 => .swapStateJ
  | .swapStateJ => .wait4
  | .wait4 => .done
  | .done => .start

/-- One rising edge of `clk`, with the two indices held. -/
def clock (counterI counterJ : Byte) (swapFlag : Bool) (m : Machine) : Machine where
  state := controller swapFlag m.state
  address :=
    if addressI m.state then counterI else if addressJ m.state then counterJ else m.address
  data := if updateDataI m.state then m.tempI else if updateDataJ m.state then m.tempJ else m.data
  tempI := if tempiEnable m.state then m.sMemory.q else m.tempI
  tempJ := if tempjEnable m.state then m.sMemory.q else m.tempJ
  sMemory := m.sMemory.clock m.address m.data (wren m.state)

def Clocks (counterI counterJ : Byte) : Machine → Machine → Prop :=
  clocked (clock counterI counterJ)

/-- `swap_done` is raised for the first time. -/
def Raised (run : Nat → Machine) (t : Nat) : Prop :=
  swapDone (run t).state = true ∧ ∀ u < t, swapDone (run u).state = false

/-- What a request asks for. -/
structure Swaps (content : Byte → Byte) (i j : Byte) (run : Nat → Machine) : Prop where
  reached : ∃ t, Raised run t
  memory : ∀ t, Raised run t → (run t).sMemory.content = exchange content i j
  quiet : ∀ t, Raised run t → wren (run t).state = false
  ready : ∀ t, Raised run t → (run (t + 1)).state = .start

/-- `swap_flag` is up in the first cycle, and anything later. -/
def request (later : Nat → Bool) : Nat → Bool
  | 0 => true
  | n + 1 => later n

/-- The machine in `start`, whatever its registers hold. -/
def waiting (address data tempI tempJ latched : Byte) (content : Byte → Byte) : Machine where
  state := .start
  address := address
  data := data
  tempI := tempI
  tempJ := tempJ
  sMemory := ⟨content, latched⟩

/-- The edge from a state with a known successor. -/
def edge (counterI counterJ : Byte) (q : State) (m : Machine) : Machine :=
  { clock counterI counterJ false m with state := q }

def Busy (m : Machine) : Prop := swapDone m.state = false

section Request
variable {i j : Byte} {content : Byte → Byte} {later : Nat → Bool}

theorem surely_edge {After : Machine → Prop} {n : Nat} {m : Machine} (p q : State)
    (here : m.state = p) (goes : ∀ swapFlag, controller swapFlag p = q) (busy : swapDone p = false)
    (rest : Surely (Clocks i j) Busy After n (edge i j q m)) :
    Surely (Clocks i j) Busy After (n + 1) m := by
  subst here
  have quiet : Busy m := busy
  apply surely_input quiet
  intro swapFlag
  have taken : clock i j swapFlag m = edge i j q m := by
    simp only [clock, edge, goes]
  rwa [taken]

/-- Both pairs of writes leave the memory as it was. -/
structure Finished (content : Byte → Byte) (m : Machine) : Prop where
  state : m.state = .done
  content : m.sMemory.content = content

theorem request_course (m : Machine) (here : m.state = .getI) (address : m.address = i)
    (held : m.sMemory.content = content) :
    Surely (Clocks i j) Busy (Finished content) 10 m := by
  refine surely_edge .getI .wait1 here (fun _ => rfl) rfl ?_
  refine surely_edge .wait1 .storeI rfl (fun _ => rfl) rfl ?_
  refine surely_edge .storeI .getJ rfl (fun _ => rfl) rfl ?_
  refine surely_edge .getJ .wait2 rfl (fun _ => rfl) rfl ?_
  refine surely_edge .wait2 .storeJ rfl (fun _ => rfl) rfl ?_
  refine surely_edge .storeJ .swapStateI rfl (fun _ => rfl) rfl ?_
  refine surely_edge .swapStateI .wait3 rfl (fun _ => rfl) rfl ?_
  refine surely_edge .wait3 .swapStateJ rfl (fun _ => rfl) rfl ?_
  refine surely_edge .swapStateJ .wait4 rfl (fun _ => rfl) rfl ?_
  refine surely_edge .wait4 .done rfl (fun _ => rfl) rfl ?_
  subst held
  refine ⟨rfl, ?_⟩
  simp [edge, clock, here, address, addressI, addressJ, tempiEnable, tempjEnable, updateDataI,
    updateDataJ, wren, State.encoding, Ram.q]

/-- A request takes eleven clocks. -/
theorem request_served (m : Machine) (here : m.state = .start)
    (held : m.sMemory.content = content) :
    (∀ t < 11, swapDone (drive (clock i j) (request later) m t).state = false) ∧
      Finished content (drive (clock i j) (request later) m 11) := by
  have isRun := drive_is_run (clock i j) (request later) m
  have first : drive (clock i j) (request later) m 1 = clock i j true m := rfl
  have stretch : Surely (Clocks i j) Busy (Finished content) 10
      (drive (clock i j) (request later) m 1) := by
    rw [first]
    apply request_course
    · simp [clock, here, controller]
    · simp [clock, here, addressI, State.encoding]
    · simpa [clock, here, wren, State.encoding] using held
  refine ⟨fun t early => ?_, surely_ends isRun stretch⟩
  cases t with
  | zero => simp [drive, here, swapDone, State.encoding]
  | succ t =>
      have during := surely_during isRun stretch t (by omega)
      rwa [Nat.add_comm] at during

theorem raised_once (m : Machine) (here : m.state = .start) (t : Nat) :
    Raised (drive (clock i j) (request later) m) t ↔ t = 11 := by
  obtain ⟨before, finished⟩ := @request_served i j _ later m here rfl
  have done : swapDone (drive (clock i j) (request later) m 11).state = true := by
    rw [finished.state]
    rfl
  constructor
  · rintro ⟨raised, first⟩
    rcases Nat.lt_trichotomy t 11 with early | atEleven | late
    · rw [before t early] at raised
      contradiction
    · exact atEleven
    · rw [first 11 late] at done
      contradiction
  · rintro rfl
    exact ⟨done, before⟩

end Request

section Memory
variable {i j address data tempI tempJ latched : Byte} {content : Byte → Byte} {later : Nat → Bool}

theorem request_memory (t : Nat)
    (raised : Raised (drive (clock i j) (request later)
      (waiting address data tempI tempJ latched content)) t) :
    t = 11 ∧ Finished content (drive (clock i j) (request later)
      (waiting address data tempI tempJ latched content) t) := by
  obtain rfl := (@raised_once i j later _ rfl t).mp raised
  exact ⟨rfl, (@request_served i j content later _ rfl rfl).2⟩

theorem swapped_equal
    (swaps : Swaps content i j (drive (clock i j) (request later)
      (waiting address data tempI tempJ latched content))) : content i = content j := by
  obtain ⟨t, raised⟩ := swaps.reached
  have exchanged := swaps.memory t raised
  rw [(request_memory t raised).2.content] at exchanged
  exact (exchange_eq_self content i j).mp exchanged.symm

end Memory

/-- For every memory and all indices: the request exchanges the two cells if and
only if they hold the same byte. -/
theorem swaps_iff (i j address data tempI tempJ latched : Byte) (content : Byte → Byte)
    (later : Nat → Bool) :
    Swaps content i j
        (drive (clock i j) (request later) (waiting address data tempI tempJ latched content)) ↔
      content i = content j := by
  constructor
  · exact swapped_equal
  · intro equal
    constructor
    · exact ⟨11, (raised_once _ rfl 11).mpr rfl⟩
    · intro t raised
      rw [(request_memory t raised).2.content, (exchange_eq_self content i j).mpr equal]
    · intro t raised
      rw [(request_memory t raised).2.state]
      rfl
    · intro t raised
      obtain ⟨rfl, finished⟩ := request_memory t raised
      have next : drive (clock i j) (request later)
          (waiting address data tempI tempJ latched content) 12 =
          clock i j (request later 11) (drive (clock i j) (request later)
            (waiting address data tempI tempJ latched content) 11) := rfl
      rw [next, clock, finished.state]
      rfl

/-- Cells 0 and 1 of the identity permutation are not exchanged. -/
theorem identity_unswapped :
    ¬ Swaps id 0 1 (drive (clock 0 1) (request fun _ => false) (waiting 0 0 0 0 0 id)) := by
  intro swaps
  have equal := swapped_equal swaps
  contradiction

end Cpen311.SwapFsm
