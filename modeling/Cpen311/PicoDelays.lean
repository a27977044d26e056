import Cpen311.PicoInterrupts

/-! The delay routines of `pracPICO.psm`, instruction by instruction. Each but the innermost counts
a register of its own down to zero around calls of the one below, so the times multiply. The main
program blinks `led_0` with them; counted in its own instructions the blinking is exact, also when
it is interrupted. -/
namespace Cpen311.PicoDelays
open ClockedRun Kcpsm3 PracPico PicoInterrupts

section Delays
variable (samples : Nat → Byte)

/-- One instruction without an interrupt. -/
def Plain (before after : Board) : Prop := step samples false before = after

def Lit (level : Bool) (b : Board) : Prop := b.led0 = level

/-- Back behind the call at `site`, with every register above `used` as it was. -/
structure Back (site : Address) (rest : List Address) (level : Bool) (used : Nat)
    (reg : Reg → Byte) (b : Board) : Prop where
  pc : b.cpu.pc = site + 1
  stack : b.cpu.stack = rest
  lit : Lit level b
  kept : ∀ r : Reg, used < r.val → b.cpu.reg r = reg r

/-- The routine returns after `time` instructions. -/
def Delays (routine : Label) (time used : Nat) : Prop :=
  ∀ (b : Board) (site : Address) (rest : List Address), b.cpu.pc = address routine →
    b.cpu.stack = site :: rest →
    Surely (Plain samples) (Lit b.led0) (Back site rest b.led0 used b.cpu.reg) time b

/-- One turn of a loop later: `x` is one less, and the loop goes on or is left. -/
structure Turned (x : Reg) (wait exit : Address) (count : Nat) (before b : Board) : Prop where
  pc : b.cpu.pc = if count = 0 then exit else wait
  stack : b.cpu.stack = before.cpu.stack
  lit : Lit before.led0 b
  left : b.cpu.reg x = BitVec.ofNat 8 count
  kept : ∀ r : Reg, x.val < r.val → b.cpu.reg r = before.cpu.reg r

/-- Each turn of the loop at `wait` takes `period` instructions. -/
def Turns (x : Reg) (wait exit : Address) (period : Nat) : Prop :=
  ∀ (count : Nat) (b : Board), count + 1 < 256 → b.cpu.pc = wait →
    b.cpu.reg x = BitVec.ofNat 8 (count + 1) →
    Surely (Plain samples) (Lit b.led0) (Turned x wait exit count b) period b

variable {samples}

theorem plain_instruction {b : Board} {i : Instr Label} (fetched : instruction b.cpu.pc = i) :
    step samples false b = perform samples b i := by
  rw [step, Bool.and_false, fetched]
  rfl

theorem surely_plain {During After : Board → Prop} {n : Nat} {b : Board} {i : Instr Label}
    (fetched : instruction b.cpu.pc = i) (during : During b)
    (rest : Surely (Plain samples) During After n (perform samples b i)) :
    Surely (Plain samples) During After (n + 1) b := by
  refine ⟨during, ?_⟩
  rintro _ rfl
  rw [plain_instruction fetched]
  exact rest

/-- The registers above `x` and the return address outlive the loop. -/
theorem loop_returns {x : Reg} {wait exit : Address} {period : Nat}
    (turns : Turns samples x wait exit period) (leaves : instruction exit = .ret) {count : Nat}
    (small : count + 1 < 256) {b : Board} {site : Address} {rest : List Address}
    (pc : b.cpu.pc = wait) (stack : b.cpu.stack = site :: rest)
    (left : b.cpu.reg x = BitVec.ofNat 8 (count + 1)) :
    Surely (Plain samples) (Lit b.led0) (Back site rest b.led0 x.val b.cpu.reg)
      ((count + 1) * period + 1) b := by
  have turn := turns count b small pc left
  induction count generalizing b with
  | zero =>
      rw [Nat.zero_add, Nat.one_mul]
      refine surely_trans turn fun c turned => ?_
      refine surely_plain (n := 0) (i := .ret) ?_ turned.lit ⟨?_, ?_, turned.lit, turned.kept⟩
      · rw [turned.pc]
        exact leaves
      · change c.cpu.stack.headD 0 + 1 = site + 1
        rw [turned.stack, stack]
        rfl
      · change c.cpu.stack.tail = rest
        rw [turned.stack, stack]
        rfl
  | succ count ih =>
      rw [Nat.succ_mul, Nat.add_comm _ period, Nat.add_assoc]
      refine surely_trans turn fun c turned => ?_
      have again := ih (by omega) turned.pc (turned.stack.trans stack) turned.left
        (turns count c (by omega) turned.pc turned.left)
      rw [show c.led0 = b.led0 from turned.lit] at again
      exact surely_trans again (m := 0) fun d back =>
        ⟨back.pc, back.stack, back.lit, fun r above => (back.kept r above).trans (turned.kept r above)⟩

/-- A delay routine loads its count and runs its loop. -/
theorem loop_delays {x : Reg} {exit : Address} {period : Nat} {routine wait : Label}
    (turns : Turns samples x (address wait) exit period) (leaves : instruction exit = .ret)
    {k : Byte} (some : k ≠ 0) (entry : instruction (address routine) = .alu .load x (.const k))
    (next : address routine + 1 = address wait) :
    Delays samples routine (k.toNat * period + 2) x.val := by
  intro b site rest pc stack
  obtain ⟨count, counted⟩ := Nat.exists_eq_succ_of_ne_zero (n := k.toNat) (by bv_omega)
  have loaded : (perform samples b (.alu .load x (.const k))).cpu.reg x =
      BitVec.ofNat 8 (count + 1) := by
    rw [← Nat.succ_eq_add_one, ← counted, BitVec.ofNat_toNat, BitVec.setWidth_eq]
    exact Function.update_self ..
  have small : count + 1 < 256 := by
    have := k.isLt
    omega
  have returns := loop_returns turns leaves small (b := perform samples b (.alu .load x (.const k)))
    ((congrArg (· + 1) pc).trans next) stack loaded
  rw [counted]
  refine surely_plain (by rw [pc, entry]) rfl (surely_trans returns (m := 0) fun c back => ?_)
  refine ⟨back.pc, back.stack, back.lit, fun r above => (back.kept r above).trans ?_⟩
  exact Function.update_of_ne (fun same => Nat.lt_irrefl _ (same ▸ above)) ..

variable (samples) in
/-- The end of each turn: `SUB x, 01` and `JUMP NZ, wait`. -/
theorem counts_down {x : Reg} (wait : Label) {count : Nat} (small : count + 1 < 256) {c : Board}
    (sub : instruction c.cpu.pc = .alu .sub x (.const 0x01))
    (jump : instruction (c.cpu.pc + 1) = .jump .nz wait)
    (left : c.cpu.reg x = BitVec.ofNat 8 (count + 1)) :
    Surely (Plain samples) (Lit c.led0)
      (Turned x (address wait) (c.cpu.pc + 1 + 1) count c) 2 c := by
  have less : c.cpu.reg x - 0x01 = BitVec.ofNat 8 count := by
    rw [left]
    bv_omega
  have zero : (c.cpu.reg x - 0x01 == 0) = decide (count = 0) := by
    rw [less, Bool.eq_iff_iff, beq_iff_eq, decide_eq_true_iff]
    constructor
    · intro same
      bv_omega
    · rintro rfl
      rfl
  refine surely_plain (n := 1) sub rfl ?_
  refine surely_plain (n := 0) (i := .jump .nz wait) jump rfl ⟨?_, rfl, rfl, ?_, ?_⟩
  · change (if (!(c.cpu.reg x - 0x01 == 0)) = true then address wait else c.cpu.pc + 1 + 1) = _
    rw [zero]
    by_cases last : count = 0 <;> simp [last]
  · exact (Function.update_self ..).trans less
  · intro r above
    exact Function.update_of_ne (fun same => Nat.lt_irrefl _ (same ▸ above)) ..

/-- A loop of `countDown` around a routine that uses only registers below `x`. -/
theorem count_down_turns (x : Reg) (wait : Label) {body : Label} {time used : Nat}
    (inner : Delays samples body time used) (below : used < x.val)
    (call : instruction (address wait) = .call .always body)
    (sub : instruction (address wait + 1) = .alu .sub x (.const 0x01))
    (jump : instruction (address wait + 1 + 1) = .jump .nz wait) :
    Turns samples x (address wait) (address wait + 1 + 1 + 1) (time + 3) := by
  intro count b small pc left
  have called := inner (perform samples b (.call .always body)) (address wait) b.cpu.stack rfl
    (congrArg (· :: b.cpu.stack) pc)
  refine surely_plain (n := time + 2) (by rw [pc, call]) rfl (surely_trans called ?_)
  intro c back
  have down := counts_down samples wait small (by rw [back.pc, sub]) (by rw [back.pc, jump])
    ((back.kept x below).trans left)
  rw [show c.led0 = b.led0 from back.lit, back.pc] at down
  exact surely_trans down (m := 0) fun d turned =>
    ⟨turned.pc, turned.stack.trans back.stack, turned.lit.trans back.lit, turned.left,
      fun r above => (turned.kept r above).trans (back.kept r (Nat.lt_trans below above))⟩

/-! Each instruction takes two clocks of 50 MHz. -/
def time1us : Nat := delay1usConstant.toNat * 2 + 2
def time40us : Nat := 40 * (time1us + 3) + 2
def time1ms : Nat := 25 * (time40us + 3) + 2
def time20ms : Nat := 20 * (time1ms + 3) + 2
def time1s : Nat := 50 * (time20ms + 3) + 2

variable (samples) in
theorem delay_1us : Delays samples .delay1us time1us 0 := by
  have turns : Turns samples s0 (address .wait1us) (address .wait1us + 1 + 1) 2 := by
    intro count b small pc left
    have down := counts_down samples .wait1us small (by rw [pc]; decide)
      (by rw [pc]; decide) left
    rwa [pc] at down
  exact loop_delays turns (by decide) (k := delay1usConstant) (by decide) (by decide) (by decide)

variable (samples) in
theorem delay_40us : Delays samples .delay40us time40us 1 :=
  loop_delays (count_down_turns s1 .wait40us (delay_1us samples) (by decide)
    (by decide) (by decide) (by decide)) (by decide) (k := 0x28) (by decide) (by decide) (by decide)

variable (samples) in
theorem delay_1ms : Delays samples .delay1ms time1ms 2 :=
  loop_delays (count_down_turns s2 .wait1ms (delay_40us samples) (by decide)
    (by decide) (by decide) (by decide)) (by decide) (k := 0x19) (by decide) (by decide) (by decide)

variable (samples) in
theorem delay_20ms : Delays samples .delay20ms time20ms 3 :=
  loop_delays (count_down_turns s3 .wait20ms (delay_1ms samples) (by decide)
    (by decide) (by decide) (by decide)) (by decide) (k := 0x14) (by decide) (by decide) (by decide)

variable (samples) in
theorem delay_1s : Delays samples .delay1s time1s 4 :=
  loop_delays (count_down_turns s4 .wait1s (delay_20ms samples) (by decide)
    (by decide) (by decide) (by decide)) (by decide) (k := 0x32) (by decide) (by decide) (by decide)

end Delays

/-! The main program. -/
section Blink
variable {samples : Nat → Byte} {r : Nat → Board}

/-- The processor is at `p` in the main program, and `led_0` shows `level`. -/
structure At (p : Address) (level : Bool) (b : Board) : Prop where
  pc : b.cpu.pc = p
  stack : b.cpu.stack = []
  lit : Lit level b

/-- A write to `led_0` and the call of `delay_1s` behind it. -/
structure Half (r : Nat → Board) (a : Nat) (p : Address) (old new : Bool) : Prop where
  before : ∀ o, o < 2 → Lit old (r (a + o))
  after : ∀ o, 2 ≤ o → o < time1s + 3 → Lit new (r (a + o))
  back : At (p + 1 + 1 + 1) new (r (a + (time1s + 3)))

variable (samples) in
theorem output_led0 (b : Board) :
    (perform samples b (.output s0 led0Port)).led0 = (b.cpu.reg s0).getLsbD 0 := rfl

theorem half_period (isRun : IsRun (Plain samples) r) {a : Nat} {p : Address} {v : Byte}
    {old new : Bool} (value : v.getLsbD 0 = new)
    (load : instruction p = .alu .load s0 (.const v))
    (output : instruction (p + 1) = .output s0 led0Port)
    (call : instruction (p + 1 + 1) = .call .always .delay1s) (here : At p old (r a)) :
    Half r a p old new := by
  have write : Surely (Plain samples) (Lit old) (At (p + 1 + 1) new) 2 (r a) := by
    refine surely_plain (n := 1) (by rw [here.pc, load]) here.lit ?_
    refine surely_plain (n := 0) (i := .output s0 led0Port) ?_ here.lit ⟨?_, here.stack, ?_⟩
    · change instruction ((r a).cpu.pc + 1) = _
      rw [here.pc, output]
    · change (r a).cpu.pc + 1 + 1 = _
      rw [here.pc]
    · exact (output_led0 samples _).trans value
  have there := surely_ends isRun write
  have called := delay_1s samples (perform samples (r (a + 2)) (.call .always .delay1s))
    (p + 1 + 1) [] rfl (by rw [← there.pc, ← there.stack]; rfl)
  have wait : Surely (Plain samples) (Lit new) (At (p + 1 + 1 + 1) new) (time1s + 1) (r (a + 2)) := by
    refine surely_plain (by rw [there.pc, call]) there.lit ?_
    rw [show (perform samples (r (a + 2)) (.call .always .delay1s)).led0 = new from there.lit]
      at called
    exact surely_trans called (m := 0) fun c back => ⟨back.pc, back.stack, back.lit⟩
  constructor
  case before => exact fun o early => surely_during isRun write o early
  case after =>
    intro o late early
    have during := surely_during isRun wait (o - 2) (by omega)
    rwa [Nat.add_assoc, Nat.add_sub_cancel' late] at during
  case back =>
    have ends := surely_ends isRun wait
    rwa [Nat.add_assoc, Nat.add_comm 2] at ends

/-- Two calls of `delay_1s`, the writes around them and the jump back. -/
def blinkPeriod : Nat := 2 * time1s + 7

/-- `led_0` in the instruction `o` after the start of the main program. -/
def lamp (o : Nat) : Bool :=
  decide (2 ≤ o % blinkPeriod ∧ o % blinkPeriod < time1s + 5)

/-- One round of the main program. -/
theorem whole_period (isRun : IsRun (Plain samples) r) {a : Nat}
    (here : At (address .mainProgram) false (r a)) :
    (∀ o, o < blinkPeriod → Lit (decide (2 ≤ o ∧ o < time1s + 5)) (r (a + o))) ∧
      At (address .mainProgram) false (r (a + blinkPeriod)) := by
  have on := half_period isRun (show (0x01 : Byte).getLsbD 0 = true by decide) (by decide) (by decide)
    (by decide) here
  have off := half_period isRun (show (0x00 : Byte).getLsbD 0 = false by decide) (by decide) (by decide)
    (by decide) on.back
  have jump : Surely (Plain samples) (Lit false) (At (address .mainProgram) false) 1
      (r (a + (time1s + 3) + (time1s + 3))) := by
    refine surely_plain (n := 0) (i := .jump .always .mainProgram) ?_ off.back.lit
      ⟨rfl, off.back.stack, off.back.lit⟩
    rw [off.back.pc]
    decide
  constructor
  · intro o inside
    unfold blinkPeriod at inside
    by_cases first : o < time1s + 3
    · by_cases early : o < 2
      · rw [decide_eq_false (by omega)]
        exact on.before o early
      · rw [decide_eq_true (by omega)]
        exact on.after o (by omega) first
    · obtain ⟨q, rfl⟩ := Nat.exists_eq_add_of_le (Nat.le_of_not_lt first)
      rw [← Nat.add_assoc]
      by_cases early : q < 2
      · rw [decide_eq_true (by omega)]
        exact off.before q early
      · rw [decide_eq_false (by omega)]
        by_cases late : q < time1s + 3
        · exact off.after q (by omega) late
        · obtain rfl : q = time1s + 3 := by omega
          exact off.back.lit
  · have ends := surely_ends isRun jump
    rwa [show a + (time1s + 3) + (time1s + 3) + 1 = a + blinkPeriod by unfold blinkPeriod; omega]
      at ends

theorem every_period (isRun : IsRun (Plain samples) r) {a : Nat}
    (here : At (address .mainProgram) false (r a)) (k : Nat) :
    At (address .mainProgram) false (r (a + k * blinkPeriod)) := by
  induction k with
  | zero => simpa using here
  | succ k ih =>
      have next := (whole_period isRun ih).2
      rwa [Nat.add_assoc, ← Nat.succ_mul] at next

theorem plain_blinks (isRun : IsRun (Plain samples) r) {a : Nat}
    (here : At (address .mainProgram) false (r a)) (o : Nat) : (r (a + o)).led0 = lamp o := by
  have inside : o % blinkPeriod < blinkPeriod := Nat.mod_lt _ (by unfold blinkPeriod; omega)
  have lit := (whole_period isRun (every_period isRun here (o / blinkPeriod))).1 _ inside
  rwa [Nat.add_assoc, Nat.mul_comm, Nat.div_add_mod] at lit

end Blink

/-! What the interrupts leave of it. -/
section Interrupted
variable (samples : Nat → Byte) (request : Nat → Bool)

/-- `led_0` after a write to the display. -/
def shown (level : Bool) (write : Byte × Byte) : Bool :=
  if write.1.getLsbD 4 then write.2.getLsbD 0 else level

theorem step_shows (interrupted : Bool) (b : Board) :
    (step samples interrupted b).led0 =
      (displayWrite interrupted b).elim b.led0 (shown b.led0) := by
  unfold step displayWrite
  split
  · rfl
  · unfold perform
    cases written b.cpu (instruction b.cpu.pc) with
    | none => rfl
    | some write =>
        rw [Option.filter_some]
        change shown b.led0 write = _
        split
        · rfl
        · rename_i other
          have dark : write.1.getLsbD 4 = false := by
            simp only [displayPort, Bool.or_eq_true, not_or] at other
            exact Bool.eq_false_iff.mpr other.1.1
          rw [shown, dark]
          rfl

theorem shown_writes (start : Board) (t : Nat) :
    (run samples request start t).led0 =
      (displayWrites samples request start t).foldl shown start.led0 := by
  induction t with
  | zero => rfl
  | succ t ih =>
      have next : run samples request start (t + 1) =
          step samples (request t) (run samples request start t) := rfl
      rw [next, step_shows, displayWrites, List.range_succ, List.filterMap_append,
        List.foldl_append, ← displayWrites, ← ih]
      simp only [List.filterMap_cons, List.filterMap_nil]
      cases displayWrite (request t) (run samples request start t) <;> rfl

theorem cold_start (reg : Reg → Byte) (led : Byte) (led0 : Bool) (sseg : BitVec 24) :
    Surely (Plain samples) (fun _ => True) (At (address .mainProgram) false) 5
      (powerUp reg led led0 sseg) := by
  have off : (0x00 : Byte).getLsbD 0 = false := by decide
  refine surely_plain (i := .alu .load s0 (.const 0x00)) (n := 4) rfl trivial ?_
  refine surely_plain (i := .store s0 ledPattern) (n := 3) rfl trivial ?_
  refine surely_plain (i := .output s0 ledPort) (n := 2) rfl trivial ?_
  refine surely_plain (i := .output s0 led0Port) (n := 1) rfl trivial ?_
  refine surely_plain (i := .enableInterrupt) (n := 0) rfl trivial ⟨rfl, rfl, ?_⟩
  exact (output_led0 samples _).trans off

/-- `led_0` after `5 + o` instructions of the main program, however many of the service routine
have come between. -/
theorem led0_blinks (reg : Reg → Byte) (led : Byte) (led0 : Bool) (sseg : BitVec 24) (t o : Nat)
    (reached : mainSteps samples request (powerUp reg led led0 sseg) t = 5 + o) :
    (run samples request (powerUp reg led led0 sseg) t).led0 = lamp o := by
  have initial : InMain (powerUp reg led led0 sseg).cpu := ⟨rfl, trivial⟩
  have isRun : IsRun (Plain samples) (run samples (fun _ => false) (powerUp reg led led0 sseg)) :=
    fun n => rfl
  rw [shown_writes, displays_agree initial, reached, ← shown_writes]
  have started := surely_ends (a := 0) isRun (cold_start samples reg led led0 sseg)
  exact plain_blinks isRun started o

theorem led0_blinks_first :
    (run (fun _ => 0x80) (fun t => t == 5) (powerUp (fun _ => 0x55) 0 true 0) 36).led0 = lamp 2 :=
  led0_blinks _ _ _ _ _ _ 36 2 (by decide +kernel)

example : blinkPeriod = 54260511 := by decide

end Interrupted

end Cpen311.PicoDelays
