import Cpen311.ClockedRun
import Cpen311.Task2Fsm
import Cpen311.Rc4

/-! One key attempt of `task2_fsm`, from a visit of `write_mem` with `counter_i = 0`
to the verdict on each byte. The three loops (fill, swap, decrypt) carry one
invariant each, stated at the loop's first state, and every round of a loop is
executed symbolically. Nothing is assumed about what earlier attempts left in
the registers and memories. -/
namespace Cpen311.KeyAttempt
open ClockedRun SyncMemory Task2Fsm Rc4

def Clocks (before after : Machine) : Prop := clock before = after

def rc4Key (secret : BitVec 24) (n : Nat) : Byte := secretKey secret (n % 3)

/-- Byte `k` of the ciphertext decrypted with a 24-bit key. -/
def decrypted (ct : BitVec 5 → Byte) (secret : BitVec 24) (k : Nat) : Byte :=
  ct (BitVec.ofNat 5 k) ^^^ keystream (rc4Key secret) k

def AttemptStart (m : Machine) : Prop :=
  m.state = some State.writeMem.encoding ∧ m.counterI = 0

instance : DecidablePred AttemptStart := fun m =>
  inferInstanceAs (Decidable (m.state = some State.writeMem.encoding ∧ m.counterI = 0))

/-- One clock in a state with an item of its own. -/
def edge (q : State) (m : Machine) : Machine :=
  { behaviour m q with
    state := (controller m q).map State.encoding
    crackSuccess :=
      if q = .doneSwap2 then 0b01 else if q = .badMessage then 0b10 else m.crackSuccess
    ram1 := m.ram1.clock m.address m.data m.wren
    encryptedInputRom := m.encryptedInputRom.fetch (m.addressIn.setWidth 5)
    decryptedOutputRam := m.decryptedOutputRam.clock m.addressOut m.dataDecrypted m.wrenD }

theorem clock_at {m : Machine} {q : State} (here : m.state = some q.encoding) :
    clock m = edge q m := by
  have success : m.state = some 0b100011000000000000 ↔ q = .doneSwap2 := by
    rw [here, Option.some_inj]
    exact encoding_inj q .doneSwap2
  have failure : m.state = some 0b100011100000000000 ↔ q = .badMessage := by
    rw [here, Option.some_inj]
    exact encoding_inj q .badMessage
  simp only [clock, edge, success, failure]
  simp [here]

theorem surely_edge {During After : Machine → Prop} {n : Nat} {m : Machine} (q : State)
    (here : m.state = some q.encoding) (during : During m)
    (rest : Surely Clocks During After n (edge q m)) :
    Surely Clocks During After (n + 1) m := by
  refine ⟨during, ?_⟩
  rintro _ rfl
  rwa [clock_at here]

/-- The states between two events of an attempt: its start, the end of the key
schedule, and the verdicts. -/
def calm : State → Bool
  | .writeMem | .startSwap2 | .checkKloop | .doneSwap2 | .badMessage => false
  | _ => true

structure Quiet (secret : BitVec 24) (m : Machine) : Prop where
  key : m.secret = secret
  state : ∃ q, m.state = some q.encoding ∧
    (calm q = true ∨ q = .writeMem ∧ m.counterI ≠ 0)

theorem surely_calm {secret : BitVec 24} {After : Machine → Prop} {n : Nat} {m : Machine}
    (q : State) (here : m.state = some q.encoding) (isCalm : calm q = true)
    (key : m.secret = secret) (rest : Surely Clocks (Quiet secret) After n (edge q m)) :
    Surely Clocks (Quiet secret) After (n + 1) m :=
  surely_edge q here ⟨key, q, here, Or.inl isCalm⟩ rest

structure Attempt (secret : BitVec 24) (ct : BitVec 5 → Byte) (m : Machine) : Prop where
  key : m.secret = secret
  rom : m.encryptedInputRom.content = ct

section Loops
variable {secret : BitVec 24} {ct : BitVec 5 → Byte}

theorem byte_eq_last (n : Nat) (inside : n < 256) : BitVec.ofNat 8 n = 255 ↔ n = 255 := by
  constructor <;> intro equal <;> bv_omega

/-! The fill loop, at `check_done`: the write of cell `n` is pending. -/
structure Filling (secret : BitVec 24) (ct : BitVec 5 → Byte) (n : Nat) (m : Machine) : Prop
    extends Attempt secret ct m where
  state : m.state = some State.checkDone.encoding
  index : m.counterI = BitVec.ofNat 8 n
  address : m.address = BitVec.ofNat 8 n
  data : m.data = BitVec.ofNat 8 n
  writing : m.wren = true
  filled : ∀ a : Byte, a.toNat < n → m.ram1.content a = a

theorem filled_next {content : Byte → Byte} {n : Nat} (inside : n < 256)
    (filled : ∀ a : Byte, a.toNat < n → content a = a) (a : Byte) (early : a.toNat < n + 1) :
    Function.update content (BitVec.ofNat 8 n) (BitVec.ofNat 8 n) a = a := by
  by_cases same : a = BitVec.ofNat 8 n
  · subst same
    exact Function.update_self ..
  · rw [Function.update_of_ne same]
    have distinct : a.toNat ≠ n := by
      intro equal
      exact same (BitVec.eq_of_toNat_eq (by simp only [BitVec.toNat_ofNat]; omega))
    exact filled a (by omega)

theorem filling_round (n : Nat) (m : Machine) (inside : n < 255)
    (inv : Filling secret ct n m) :
    Surely Clocks (Quiet secret) (Filling secret ct (n + 1)) 2 m := by
  obtain ⟨⟨rfl, rfl⟩, state, index, address, data, writing, filled⟩ := inv
  have notLast : m.counterI ≠ 255 := by rw [index, Ne, byte_eq_last n (by omega)]; omega
  have next : m.counterI + 1 = BitVec.ofNat 8 (n + 1) := by rw [index, BitVec.ofNat_add]; rfl
  refine surely_calm .checkDone state rfl rfl ?_
  simp only [edge, behaviour, controller, if_neg notLast]
  have notStart : m.counterI + 1 ≠ 0 := by
    rw [next]
    bv_omega
  -- a fill round passes through the state that starts an attempt, with another counter
  refine surely_edge .writeMem rfl ⟨rfl, .writeMem, rfl, Or.inr ⟨rfl, notStart⟩⟩ ?_
  simp only [edge, behaviour, controller, Surely, writing, clock_write, address, data]
  refine ⟨⟨rfl, rfl⟩, rfl, next, next, next, rfl, ?_⟩
  simp only [Function.update_idem]
  exact filled_next (by omega) filled

structure Swapping (secret : BitVec 24) (ct : BitVec 5 → Byte) (n : Nat) (m : Machine) : Prop
    extends Attempt secret ct m where
  state : m.state = some (if n = 256 then State.doneSwap else State.swap1).encoding
  index : n < 256 → m.counterI = BitVec.ofNat 8 n
  j : m.counterJ = (schedule (rc4Key secret) n).j
  box : m.ram1.content = (schedule (rc4Key secret) n).box
  idle : m.wren = false

theorem filling_ends (m : Machine) (inv : Filling secret ct 255 m) :
    Surely Clocks (Quiet secret) (Swapping secret ct 0) 3 m := by
  obtain ⟨⟨rfl, rfl⟩, state, index, address, data, writing, filled⟩ := inv
  have last : m.counterI = 255 := index
  refine surely_calm .checkDone state rfl rfl ?_
  simp only [edge, behaviour, controller, if_pos last]
  refine surely_calm .doneFill rfl rfl rfl ?_
  refine surely_calm .startSwap rfl rfl rfl ?_
  simp only [edge, behaviour, controller, Surely, writing, clock_write, clock_idle, address, data,
    Function.update_idem]
  refine ⟨⟨rfl, rfl⟩, rfl, fun _ => rfl, rfl, ?_, rfl⟩
  funext a
  exact filled_next (by omega) filled a (by have := a.isLt; omega)

theorem swapping_round (n : Nat) (m : Machine) (inside : n < 256)
    (inv : Swapping secret ct n m) :
    Surely Clocks (Quiet secret) (Swapping secret ct (n + 1)) 11 m := by
  obtain ⟨⟨rfl, rfl⟩, state, index, j, box, idle⟩ := inv
  rw [if_neg (by omega)] at state
  have index := index inside
  refine surely_calm .swap1 state rfl rfl ?_
  refine surely_calm .wait1 rfl rfl rfl ?_
  refine surely_calm .storeI rfl rfl rfl ?_
  refine surely_calm .calcJ rfl rfl rfl ?_
  refine surely_calm .wait2 rfl rfl rfl ?_
  refine surely_calm .storeJ rfl rfl rfl ?_
  refine surely_calm .writeAtJ rfl rfl rfl ?_
  refine surely_calm .wait3 rfl rfl rfl ?_
  refine surely_calm .writeAtI rfl rfl rfl ?_
  refine surely_calm .wait4 rfl rfl rfl ?_
  refine surely_calm .counterInc rfl rfl rfl ?_
  -- the eleven clocks as one function of the registers at `swap1`
  simp only [edge, behaviour, controller, Machine.outMem, Ram.q, clock_idle, clock_write, idle,
    Surely, exchange_by_writes, reduceCtorEq, if_false]
  have round : m.counterJ + m.ram1.content m.counterI + secretKey m.secret (m.counterI.toNat % 3) =
      (schedule (rc4Key m.secret) (n + 1)).j := by
    rw [j, box, index, BitVec.toNat_ofNat, Nat.mod_eq_of_lt inside]
    rfl
  have exchanged : exchange m.ram1.content m.counterI (schedule (rc4Key m.secret) (n + 1)).j =
      (schedule (rc4Key m.secret) (n + 1)).box := by
    rw [box, index]
    rfl
  rw [round, exchanged]
  by_cases last : n = 255
  · subst last
    rw [index]
    exact ⟨⟨rfl, rfl⟩, rfl, fun absurd => by omega, rfl, rfl, rfl⟩
  · have notLast : m.counterI ≠ 255 := by rw [index, Ne, byte_eq_last n inside]; exact last
    simp only [if_neg notLast]
    have more : n + 1 ≠ 256 := by omega
    refine ⟨⟨rfl, rfl⟩, ?_, fun _ => ?_, rfl, rfl, rfl⟩
    · rw [if_neg more]
      rfl
    · rw [BitVec.ofNat_add, ← index]
      rfl

/-- Entry of `start_swap2`: the key schedule of the attempt's key is in the S memory. -/
structure Scheduled (secret : BitVec 24) (ct : BitVec 5 → Byte) (m : Machine) : Prop
    extends Attempt secret ct m where
  state : m.state = some State.startSwap2.encoding
  box : m.ram1.content = keySchedule (rc4Key secret)
  idle : m.wren = false

theorem swapping_ends (m : Machine) (inv : Swapping secret ct 256 m) :
    Surely Clocks (Quiet secret) (Scheduled secret ct) 1 m := by
  obtain ⟨⟨rfl, rfl⟩, state, index, j, box, idle⟩ := inv
  refine surely_calm .doneSwap state rfl rfl ?_
  simp only [edge, behaviour, controller, Surely, idle, clock_idle]
  exact ⟨⟨rfl, rfl⟩, rfl, box, rfl⟩

/-- The key box of an attempt after `k` generator rounds. -/
def generated (secret : BitVec 24) (k : Nat) : Cipher 8 :=
  generate (keySchedule (rc4Key secret)) k

/-! The decrypt loop, at `i_inc`: the first `k` bytes are decrypted and stored. -/
structure Generating (secret : BitVec 24) (ct : BitVec 5 → Byte) (k : Nat) (m : Machine) : Prop
    extends Attempt secret ct m where
  state : m.state = some State.iInc.encoding
  index : m.counterI = BitVec.ofNat 8 k
  count : m.counterK = BitVec.ofNat 8 k
  j : m.counterJ = (generated secret k).j
  box : m.ram1.content = (generated secret k).box
  idle : m.wren = false
  idleD : m.wrenD = false
  stored : ∀ i < k, m.decryptedOutputRam.content (BitVec.ofNat 8 i) = decrypted ct secret i

theorem scheduled_clock (m : Machine) (inv : Scheduled secret ct m) :
    Generating secret ct 0 (clock m) := by
  obtain ⟨⟨rfl, rfl⟩, state, box, idle⟩ := inv
  rw [clock_at state]
  simp only [edge, behaviour, controller, idle, clock_idle]
  exact ⟨⟨rfl, rfl⟩, rfl, rfl, rfl, rfl, box, rfl, rfl, fun i absurd => by omega⟩

/-- A visit of `check_kloop` for byte `k`: the byte is decrypted, its store is pending. -/
structure Verdict (secret : BitVec 24) (ct : BitVec 5 → Byte) (k : Nat) (m : Machine) : Prop
    extends Attempt secret ct m where
  state : m.state = some State.checkKloop.encoding
  index : m.counterI = BitVec.ofNat 8 (k + 1)
  count : m.counterK = BitVec.ofNat 8 (k + 1)
  j : m.counterJ = (generated secret (k + 1)).j
  box : m.ram1.content = (generated secret (k + 1)).box
  idle : m.wren = false
  byte : m.dataDecrypted = decrypted ct secret k
  target : m.addressOut = BitVec.ofNat 8 k
  writingD : m.wrenD = true
  stored : ∀ i < k, m.decryptedOutputRam.content (BitVec.ofNat 8 i) = decrypted ct secret i

theorem generating_round (k : Nat) (m : Machine) (inv : Generating secret ct k m) :
    Surely Clocks (Quiet secret) (Verdict secret ct k) 18 m := by
  obtain ⟨⟨rfl, rfl⟩, state, index, count, j, box, idle, idleD, stored⟩ := inv
  refine surely_calm .iInc state rfl rfl ?_
  refine surely_calm .wait0s rfl rfl rfl ?_
  refine surely_calm .jUpdate rfl rfl rfl ?_
  refine surely_calm .wait1s rfl rfl rfl ?_
  refine surely_calm .storeI2 rfl rfl rfl ?_
  refine surely_calm .wait2s rfl rfl rfl ?_
  refine surely_calm .storeJ2 rfl rfl rfl ?_
  refine surely_calm .writeJ2 rfl rfl rfl ?_
  refine surely_calm .wait3s rfl rfl rfl ?_
  refine surely_calm .writeI2 rfl rfl rfl ?_
  refine surely_calm .wait4s rfl rfl rfl ?_
  refine surely_calm .fLogicI rfl rfl rfl ?_
  refine surely_calm .wait5s rfl rfl rfl ?_
  refine surely_calm .fLogicJ rfl rfl rfl ?_
  refine surely_calm .wait6s rfl rfl rfl ?_
  refine surely_calm .fLogicSum rfl rfl rfl ?_
  refine surely_calm .wait7s rfl rfl rfl ?_
  refine surely_calm .decryptState rfl rfl rfl ?_
  simp only [edge, behaviour, controller, Machine.outMem, Machine.encryptedInput, Ram.q, clock_idle,
    clock_write, fetch_eq, idle, idleD, Surely, exchange_by_writes, reduceCtorEq, if_false]
  have next : m.counterI + 1 = BitVec.ofNat 8 (k + 1) := by rw [index, BitVec.ofNat_add]; rfl
  have round : m.counterJ + m.ram1.content (BitVec.ofNat 8 (k + 1)) =
      (generated m.secret (k + 1)).j := by
    rw [j, box]
    rfl
  have exchanged : exchange m.ram1.content (BitVec.ofNat 8 (k + 1)) (generated m.secret (k + 1)).j =
      (generated m.secret (k + 1)).box := by
    rw [box]
    rfl
  -- the ROM's address port has the low five bits of `address_in`
  have slot : m.counterK.setWidth 5 = BitVec.ofNat 5 k := by rw [count]; bv_omega
  simp only [next, round, exchanged, slot]
  refine ⟨⟨rfl, rfl⟩, rfl, rfl, ?_, rfl, rfl, rfl, ?_, count, rfl, stored⟩
  · rw [count, BitVec.ofNat_add]
    rfl
  -- the machine adds the two cells it read before exchanging them
  · rw [box, BitVec.xor_comm]
    exact congrArg (_ ^^^ ·) (output_exchanged k (generated m.secret k)).symm

/-! The edge at `check_kloop`. -/
section Verdicts
variable {k : Nat} {m : Machine}

theorem verdict_stores (inv : Verdict secret ct k m) :
    (clock m).decryptedOutputRam.content =
      Function.update m.decryptedOutputRam.content (BitVec.ofNat 8 k) (decrypted ct secret k) := by
  rw [clock_at inv.state]
  simp only [edge, inv.writingD, clock_write, inv.target, inv.byte]

theorem verdict_stored (inv : Verdict secret ct k m) (inside : k < 32) (i : Nat)
    (early : i < k + 1) :
    (clock m).decryptedOutputRam.content (BitVec.ofNat 8 i) = decrypted ct secret i := by
  rw [verdict_stores inv]
  by_cases same : i = k
  · subst same
    exact Function.update_self ..
  · have distinct : BitVec.ofNat 8 i ≠ BitVec.ofNat 8 k := by
      intro equal
      bv_omega
    rw [Function.update_of_ne distinct]
    exact inv.stored i (by omega)

/-- The end of a successful attempt, at `done_swap2`. -/
structure Cracked (secret : BitVec 24) (ct : BitVec 5 → Byte) (m : Machine) : Prop
    extends Attempt secret ct m where
  state : m.state = some State.doneSwap2.encoding
  idle : m.wren = false
  idleD : m.wrenD = false
  stored : ∀ i < 32, m.decryptedOutputRam.content (BitVec.ofNat 8 i) = decrypted ct secret i

theorem verdict_accepts (inv : Verdict secret ct k m) (inside : k < 31)
    (good : accepted (decrypted ct secret k) = true) : Generating secret ct (k + 1) (clock m) := by
  have stored := verdict_stored inv (by omega)
  have room : m.counterK ≤ 31 := by rw [inv.count]; bv_omega
  obtain ⟨⟨rfl, rfl⟩, state, index, count, j, box, idle, byte, target, writingD, -⟩ := inv
  rw [clock_at state] at stored ⊢
  rw [← byte] at good
  simp only [edge, behaviour, controller, good, room, if_true, Bool.not_true, Bool.false_eq_true,
    if_false, idle, clock_idle] at stored ⊢
  exact ⟨⟨rfl, rfl⟩, rfl, index, count, j, box, rfl, rfl, stored⟩

theorem verdict_cracks (inv : Verdict secret ct 31 m)
    (good : accepted (decrypted ct secret 31) = true) : Cracked secret ct (clock m) := by
  have stored := verdict_stored inv (by omega)
  have full : ¬ m.counterK ≤ 31 := by rw [inv.count]; decide
  obtain ⟨⟨rfl, rfl⟩, state, index, count, j, box, idle, byte, target, writingD, -⟩ := inv
  rw [clock_at state] at stored ⊢
  rw [← byte] at good
  simp only [edge, behaviour, controller, good, full, if_true, Bool.not_true, Bool.false_eq_true,
    if_false] at stored ⊢
  exact ⟨⟨rfl, rfl⟩, rfl, idle, rfl, stored⟩

theorem cracked_clock (m : Machine) (inv : Cracked secret ct m) :
    Cracked secret ct (clock m) ∧ (clock m).crackSuccess = 0b01 := by
  obtain ⟨⟨rfl, rfl⟩, state, idle, idleD, stored⟩ := inv
  rw [clock_at state]
  simp only [edge, behaviour, controller, idle, idleD, clock_idle, if_true]
  exact ⟨⟨⟨rfl, rfl⟩, rfl, rfl, rfl, stored⟩, trivial⟩

theorem verdict_rejects (inv : Verdict secret ct k m)
    (bad : accepted (decrypted ct secret k) = false) (more : secret ≠ 16777215) :
    AttemptStart (clock m) ∧ Attempt (secret + 1) ct (clock m) := by
  obtain ⟨⟨rfl, rfl⟩, state, index, count, j, box, idle, byte, target, writingD, -⟩ := inv
  rw [clock_at state]
  rw [← byte] at bad
  simp only [edge, behaviour, controller, bad, more, Bool.not_false, if_true, Bool.false_eq_true,
    if_false, ne_eq, not_false_eq_true]
  exact ⟨⟨rfl, rfl⟩, rfl, rfl⟩

theorem verdict_exhausts (inv : Verdict secret ct k m)
    (bad : accepted (decrypted ct secret k) = false) (last : secret = 16777215) :
    (clock m).state = some State.badMessage.encoding ∧ (clock m).secret = secret := by
  obtain ⟨⟨rfl, rfl⟩, state, index, count, j, box, idle, byte, target, writingD, -⟩ := inv
  rw [clock_at state]
  rw [← byte] at bad
  simp only [edge, behaviour, controller, bad, last, Bool.not_false, if_true, Bool.false_eq_true,
    if_false, ne_eq, not_true_eq_false]
  exact ⟨rfl, trivial⟩

end Verdicts

theorem filling_starts (m : Machine) (start : AttemptStart m) (attempt : Attempt secret ct m) :
    Filling secret ct 0 (clock m) := by
  obtain ⟨rfl, rfl⟩ := attempt
  rw [clock_at start.1]
  simp only [edge, behaviour, controller]
  exact ⟨⟨rfl, rfl⟩, rfl, start.2, start.2, start.2, rfl, fun a absurd => by omega⟩

theorem attempt_schedules (m : Machine) (start : AttemptStart m) (attempt : Attempt secret ct m) :
    Surely Clocks (Quiet secret) (Scheduled secret ct) 3330 (clock m) := by
  have filled := surely_repeat 255 (fun n m inside => filling_round n m inside) 0 255 (by omega)
    (filling_starts m start attempt)
  have swapped (m : Machine) (inv : Swapping secret ct 0 m) := surely_repeat 256
    (fun n m inside => swapping_round n m inside) 0 256 (by omega) inv
  exact surely_trans (surely_trans (surely_trans filled filling_ends) swapped) swapping_ends

end Loops

end Cpen311.KeyAttempt
