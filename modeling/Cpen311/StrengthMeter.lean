import Mathlib.Algebra.BigOperators.Group.Finset.Basic
import Mathlib.Algebra.Order.BigOperators.Group.Finset
import Cpen311.PicoInterrupts

/-! The strength meter: what the LEDs show after each interrupt. The scratchpad
holds the exact sum of the window so far, and the cascade shows the bar of its
high byte, which is the window's average. A window whose average is zero shows
nothing: it leaves the bar of an earlier one. -/
namespace Cpen311.StrengthMeter
open ClockedRun Kcpsm3 PracPico PicoService PicoInterrupts

/-! What the meter is for. -/
def size (sample : Byte) : Nat := sample.toInt.natAbs

/-- The sum of the first `k` samples of window `m`; windows have 256 samples. -/
def partialSum (samples : Nat → Byte) (m k : Nat) : Nat :=
  ∑ i ∈ Finset.range k, size (samples (256 * m + i))

def average (samples : Nat → Byte) (m : Nat) : Nat := partialSum samples m 256 / 256

/-- The bar for an average: its top `log2 + 1` bits are ones. -/
def bar (average : Nat) : Byte := if average = 0 then 0 else 0xFF <<< (7 - average.log2)

/-- What the code shows after `m` windows. -/
def lastBar (samples : Nat → Byte) : Nat → Byte
  | 0 => 0
  | m + 1 => if average samples m = 0 then lastBar samples m else bar (average samples m)

theorem magnitude_size (sample : Byte) : (magnitude sample).toNat = size sample := by
  revert sample
  decide

theorem size_bound (sample : Byte) : size sample ≤ 128 := by
  revert sample
  decide

theorem cascade_bar (high : Byte) :
    cascade patterns high = if high.toNat = 0 then none else some (bar high.toNat) := by
  revert high
  decide

theorem partial_sum_succ (samples : Nat → Byte) (m k : Nat) :
    partialSum samples m (k + 1) = partialSum samples m k + size (samples (256 * m + k)) :=
  Finset.sum_range_succ _ k

theorem partial_sum_bound (samples : Nat → Byte) (m k : Nat) :
    partialSum samples m k ≤ 128 * k := by
  induction k with
  | zero => simp [partialSum]
  | succ k ih =>
      rw [partial_sum_succ]
      have bounded := size_bound (samples (256 * m + k))
      omega

theorem average_bound (samples : Nat → Byte) (m : Nat) : average samples m ≤ 128 := by
  have bounded := partial_sum_bound samples m 256
  unfold average
  omega

theorem bar_eq_zero {a : Nat} (small : a ≤ 128) : bar a = 0 ↔ a = 0 := by
  have checked : ∀ a ≤ 128, bar a = 0 ↔ a = 0 := by decide
  exact checked a small

theorem last_bar_zero (samples : Nat → Byte) (m : Nat) :
    lastBar samples m = 0 ↔ ∀ j < m, average samples j = 0 := by
  induction m with
  | zero => simp [lastBar]
  | succ m ih =>
      rw [lastBar]
      split
      · next quiet =>
        rw [ih]
        constructor
        · intro earlier j inside
          rcases Nat.lt_succ_iff_lt_or_eq.mp inside with before | rfl
          · exact earlier j before
          · exact quiet
        · exact fun all j inside => all j (by omega)
      · next loud =>
        rw [bar_eq_zero (average_bound samples m)]
        exact ⟨fun quiet => absurd quiet loud, fun all => all m (Nat.lt_succ_self m)⟩

/-- After `m` whole windows and `k` samples of the next one. -/
structure Shows (samples : Nat → Byte) (m k : Nat) (meter : Meter) : Prop where
  counter : meter.counter = BitVec.ofNat 8 k
  sum : meter.low.toNat + 256 * meter.high.toNat = partialSum samples m k
  led : meter.led = lastBar samples m

/-- Adding a sample to the two sum bytes, with the carry, is exact. -/
theorem sum_added {samples : Nat → Byte} {m k : Nat} {meter : Meter} (inside : k < 256)
    (shows : Shows samples m k meter) :
    (meter.add (samples (256 * m + k))).low.toNat +
      256 * (meter.add (samples (256 * m + k))).high.toNat = partialSum samples m (k + 1) := by
  have sum := shows.sum
  have bounded := partial_sum_bound samples m (k + 1)
  have small := size_bound (samples (256 * m + k))
  rw [partial_sum_succ] at bounded ⊢
  rw [← magnitude_size] at *
  have high := meter.high.isLt
  have low := meter.low.isLt
  have one : (1 : Byte).toNat = 1 := rfl
  have zero : (0 : Byte).toNat = 0 := rfl
  simp only [Meter.add, BitVec.toNat_add]
  split
  · rw [one]
    omega
  · rw [zero]
    omega

theorem sample_shown {samples : Nat → Byte} {m k : Nat} {meter : Meter} (more : k < 255)
    (shows : Shows samples m k meter) :
    Shows samples m (k + 1) (meter.serve (samples (256 * m + k))) := by
  have notFull : meter.counter ≠ 0xFF := by
    rw [shows.counter]
    bv_omega
  rw [Meter.serve, if_neg notFull]
  refine ⟨?_, sum_added (by omega) shows, shows.led⟩
  rw [Meter.add, shows.counter, BitVec.ofNat_add]
  rfl

/-- The last sample of a window: the high byte of the sum is the average. -/
theorem window_shown {samples : Nat → Byte} {m : Nat} {meter : Meter}
    (shows : Shows samples m 255 meter) :
    Shows samples (m + 1) 0 (meter.serve (samples (256 * m + 255))) := by
  have full : meter.counter = 0xFF := shows.counter
  have sum : (meter.add (samples (256 * m + 255))).low.toNat +
      256 * (meter.add (samples (256 * m + 255))).high.toNat = partialSum samples m 256 :=
    sum_added (by omega) shows
  have low := (meter.add (samples (256 * m + 255))).low.isLt
  have high : (meter.add (samples (256 * m + 255))).high.toNat = average samples m := by
    unfold average
    omega
  rw [Meter.serve, if_pos full]
  refine ⟨rfl, by simp [partialSum], ?_⟩
  rw [cascade_bar, high, lastBar]
  split
  · exact shows.led
  · rfl

/-! The main program after its cold start leaves the meter alone. -/
structure InLoop (c : Cpu) : Prop where
  pc : address .mainProgram ≤ c.pc
  sites : ∀ site ∈ c.stack, address .mainProgram ≤ site + 1

def loops : Instr Label → Bool
  | .jump _ target | .call _ target => decide (address .mainProgram ≤ address target)
  | .store _ _ | .fetch _ _ | .input _ _ | .returniEnable => false
  | .output _ port => !port.getLsbD 7
  | .alu _ _ _ | .sl0 _ | .sr0 _ | .ret | .enableInterrupt => true

theorem loop_closed {c : Cpu} (main : InMain c) (loop : InLoop c) :
    loops (instruction c.pc) = true ∧ address .mainProgram ≤ c.pc + 1 := by
  have below : c.pc.toNat < 0x3F := nesting_inside main.level
  have above : 5 ≤ c.pc.toNat := loop.pc
  have checked : ∀ n < 0x3F, 5 ≤ n → loops (instruction (BitVec.ofNat 10 n)) = true ∧
      address .mainProgram ≤ BitVec.ofNat 10 n + 1 := by decide
  have here := checked c.pc.toNat below above
  rwa [BitVec.ofNat_toNat, BitVec.setWidth_eq] at here

theorem loop_execute {c : Cpu} (inPort : Byte → Byte) (main : InMain c) (loop : InLoop c)
    (enabled : c.enabled = true) :
    InLoop (execute address inPort c (instruction c.pc)) ∧
      (execute address inPort c (instruction c.pc)).enabled = true := by
  obtain ⟨closed, next⟩ := loop_closed main loop
  cases fetched : instruction c.pc with
  | jump condition target =>
      simp only [fetched, loops, decide_eq_true_eq] at closed
      refine ⟨⟨?_, loop.sites⟩, enabled⟩
      simp only [execute]
      split
      · exact closed
      · exact next
  | call condition target =>
      simp only [fetched, loops, decide_eq_true_eq] at closed
      simp only [execute]
      split
      · refine ⟨⟨closed, fun site inside => ?_⟩, enabled⟩
        rcases List.mem_cons.mp inside with rfl | inside
        · exact next
        · exact loop.sites site inside
      · exact ⟨⟨next, loop.sites⟩, enabled⟩
  | ret =>
      have respected := (main_nests main.level).2.1
      simp only [fetched, respects, bne_iff_ne, ne_eq] at respected
      cases stack : c.stack with
      | nil => simp [stack] at respected
      | cons site rest =>
          have sites := loop.sites
          rw [stack] at sites
          simp only [execute, stack]
          exact ⟨⟨sites site (List.mem_cons_self ..), fun q inside =>
            sites q (List.mem_cons_of_mem _ inside)⟩, enabled⟩
  | store x cell | fetch x cell | input x port | returniEnable => simp [fetched, loops] at closed
  | enableInterrupt => exact ⟨⟨next, loop.sites⟩, rfl⟩
  | _ => exact ⟨⟨next, loop.sites⟩, enabled⟩

theorem loop_keeps_meter {samples : Nat → Byte} {b : Board} {i : Instr Label}
    (closed : loops i = true) :
    meter (perform samples b i) = meter b ∧ (perform samples b i).position = b.position := by
  cases i with
  | output x port =>
      have off : port.getLsbD 7 = false := by simpa [loops] using closed
      have led : (perform samples b (.output x port : Instr Label)).led = b.led := by
        change (if port.getLsbD 7 = true then _ else b.led) = b.led
        rw [off]
        rfl
      refine ⟨?_, rfl⟩
      rw [meter, led]
      rfl
  | store x cell | fetch x cell | input x port | returniEnable => cases closed
  | call condition target =>
      rw [perform_call]
      split <;> exact ⟨rfl, rfl⟩
  | _ => exact ⟨rfl, rfl⟩

/-- The board between two interrupts. -/
structure Metered (samples : Nat → Byte) (b : Board) : Prop where
  main : InMain b.cpu
  loop : InLoop b.cpu
  enabled : b.cpu.enabled = true
  shows : Shows samples (b.position / 256) (b.position % 256) (meter b)

theorem metered_step {samples : Nat → Byte} {b : Board} (metered : Metered samples b) :
    Metered samples (perform samples b (instruction b.cpu.pc)) := by
  obtain ⟨main, loop, enabled, shows⟩ := metered
  obtain ⟨onward, still⟩ := loop_execute (inPort samples b) main loop enabled
  obtain ⟨same, position⟩ := @loop_keeps_meter samples b _ (loop_closed main loop).1
  refine ⟨main_execute _ main, onward, still, ?_⟩
  rw [same, position]
  exact shows

theorem served_metered {samples : Nat → Byte} (d b : Board) (metered : Metered samples d)
    (served : Served samples d b) : Metered samples b := by
  obtain ⟨main, loop, enabled, shows⟩ := metered
  have agree := served.agree
  have split := Nat.div_add_mod d.position 256
  refine ⟨served_main d b main served, ⟨?_, ?_⟩, agree.enabled.trans enabled, ?_⟩
  · rw [agree.pc]
    exact loop.pc
  · rw [agree.stack]
    exact loop.sites
  · rw [served.meter, served.position]
    by_cases last : d.position % 256 = 255
    · have shown := shows
      rw [last] at shown split
      have window := window_shown shown
      rw [split] at window
      rwa [show (d.position + 1) / 256 = d.position / 256 + 1 by omega,
        show (d.position + 1) % 256 = 0 by omega]
    · have shown := sample_shown (by omega) shows
      rw [split] at shown
      rwa [show (d.position + 1) / 256 = d.position / 256 by omega,
        show (d.position + 1) % 256 = d.position % 256 + 1 by omega]

theorem metered_homing {samples : Nat → Byte} :
    Homing Away (Served samples) (Metered samples) where
  exclusive d b _ away metered := away_not_main d b away metered.main
  back := served_metered

section Run
variable (samples : Nat → Byte) (request : Nat → Bool) (start : Board)

/-- An interrupt taken at `t` whose service is over, for the first time, at `u`. -/
structure Service (t u : Nat) : Prop where
  taken : ((run samples request start t).cpu.enabled && request t) = true
  later : t < u
  serving : ∀ v, t < v → v < u → address .isr ≤ (run samples request start v).cpu.pc
  ended : (run samples request start u).cpu.pc < address .isr

/-- Window `m`, counted from zero, has been read. -/
def Completed (m : Nat) : Prop := ∃ t, 256 * (m + 1) ≤ (run samples request start t).position

/-- Each interrupt reads one sample; the LEDs show the average of each window after
its last interrupt, and no other interrupt changes them. -/
structure ShowsAverages : Prop where
  reads : ∀ t u, Service samples request start t u →
    (run samples request start u).position = (run samples request start t).position + 1
  window : ∀ t u, Service samples request start t u → ∀ m,
    (run samples request start u).position = 256 * (m + 1) →
      (run samples request start u).led = bar (average samples m)
  otherwise : ∀ t u, Service samples request start t u →
    (run samples request start u).position % 256 ≠ 0 →
      (run samples request start u).led = (run samples request start t).led

variable {samples request start}

def StandsAt (pc : Address) : List (Instr Label) → Prop
  | [] => True
  | i :: rest => instruction pc = i ∧ StandsAt (pc + 1) rest

/-- Straight-line code before interrupts are enabled. -/
theorem masked_run (pc : Address) (code : List (Instr Label)) {t : Nat}
    (here : (run samples request start t).cpu.pc = pc)
    (masked : (run samples request start t).cpu.enabled = false) (stands : StandsAt pc code)
    (straights : code.all straight = true) :
    run samples request start (t + code.length) =
        code.foldl (perform samples) (run samples request start t) ∧
      ∀ k ≤ code.length, (run samples request start (t + k)).cpu.enabled = false := by
  induction code generalizing t pc with
  | nil =>
      refine ⟨rfl, fun k none => ?_⟩
      rwa [Nat.le_zero.mp none]
  | cons i rest ih =>
      simp only [List.all_cons, Bool.and_eq_true] at straights
      have next : run samples request start (t + 1) =
          perform samples (run samples request start t) i := by
        rw [main_stepped (by rw [masked]; rfl), here, stands.1]
      obtain ⟨pc', enabled, -⟩ := @straight_perform samples (run samples request start t) i
        straights.1
      obtain ⟨onward, still⟩ := ih (pc + 1) (t := t + 1) (by rw [next, pc', here])
        (by rw [next, enabled, masked]) stands.2 straights.2
      constructor
      · rw [List.length_cons, Nat.add_comm rest.length, ← Nat.add_assoc, onward, next]
        rfl
      · intro k inside
        cases k with
        | zero => exact masked
        | succ k =>
            rw [Nat.add_comm k, ← Nat.add_assoc]
            exact still k (Nat.le_of_succ_le_succ inside)

def coldStart : List (Instr Label) :=
  [.alu .load s0 (.const 0x00), .store s0 ledPattern, .output s0 ledPort, .output s0 led0Port]

/-- The cold start, which no interrupt can disturb. -/
theorem cold_start (reg : Reg → Byte) (led : Byte) (led0 : Bool) (sseg : BitVec 24) :
    Metered samples (run samples request (powerUp reg led led0 sseg) 5) ∧
      (run samples request (powerUp reg led led0 sseg) 5).position = 0 ∧
      ∀ t < 5, (run samples request (powerUp reg led led0 sseg) t).cpu.enabled = false := by
  have started := @masked_run samples request (powerUp reg led led0 sseg) 0 coldStart 0 rfl rfl
    ⟨rfl, rfl, rfl, rfl, trivial⟩ rfl
  have fourth : run samples request (powerUp reg led led0 sseg) 4 =
      coldStart.foldl (perform samples) (powerUp reg led led0 sseg) := started.1
  have masked : ∀ k ≤ 4, (run samples request (powerUp reg led led0 sseg) (0 + k)).cpu.enabled =
      false := started.2
  have here : (coldStart.foldl (perform samples) (powerUp reg led led0 sseg)).cpu.pc = 4 :=
    straight_pc coldStart rfl
  have fifth : run samples request (powerUp reg led led0 sseg) 5 =
      perform samples (coldStart.foldl (perform samples) (powerUp reg led led0 sseg))
        .enableInterrupt := by
    rw [main_stepped (t := 4) (by rw [fourth]; rfl), fourth, here]
    rfl
  have next : (perform samples (coldStart.foldl (perform samples) (powerUp reg led led0 sseg))
      .enableInterrupt).cpu.pc = address .mainProgram := congrArg (· + 1) here
  have position : (perform samples (coldStart.foldl (perform samples)
      (powerUp reg led led0 sseg)) .enableInterrupt).position = 0 := rfl
  rw [fifth]
  refine ⟨⟨⟨?_, trivial⟩, ⟨?_, ?_⟩, rfl, ?_⟩, position, fun t early => ?_⟩
  · rw [next]
    rfl
  · exact Nat.le_of_eq (congrArg BitVec.toNat next.symm)
  · intro site inside
    cases inside
  · rw [position]
    exact ⟨rfl, rfl, rfl⟩
  · rw [← Nat.zero_add t]
    exact masked t (by omega)

theorem metered_or_serving {first : Nat}
    (initial : Metered samples (run samples request start first))
    {t : Nat} (late : first ≤ t) :
    Metered samples (run samples request start t) ∨
      ∃ a, first ≤ a ∧ Metered samples (run samples request start a) ∧
        Excursion (Steps samples) Away (Served samples) (serviceTime + 1)
          (run samples request start) a t := by
  refine home_or_excursion run_is_run metered_homing initial (fun n metered => ?_) late
  cases taken : (run samples request start n).cpu.enabled && request n
  · left
    rw [main_stepped taken]
    exact metered_step metered
  · exact Or.inr (interrupt_leaves taken)

theorem interrupted_metered {first : Nat}
    (initial : Metered samples (run samples request start first)) {t : Nat} (late : first ≤ t)
    (taken : ((run samples request start t).cpu.enabled && request t) = true) :
    Metered samples (run samples request start t) := by
  rcases metered_or_serving initial late with metered | ⟨a, -, -, trip⟩
  · exact metered
  · have masked := (trip.away t trip.departed (Nat.le_refl t)).masked
    simp [masked] at taken

/-- Every interrupt is served, and the meter counts its sample. -/
theorem interrupt_served {first : Nat}
    (initial : Metered samples (run samples request start first)) {t : Nat} (late : first ≤ t)
    (taken : ((run samples request start t).cpu.enabled && request t) = true) :
    ∃ u, Service samples request start t u ∧
      Served samples (run samples request start t) (run samples request start u) := by
  have metered := interrupted_metered initial late taken
  obtain ⟨gone, stretch⟩ := interrupt_leaves taken
  obtain ⟨u, later, -, served, away⟩ :=
    home_again run_is_run metered_homing metered (excursion_starts gone stretch)
  have ended := nesting_inside (served_metered _ _ metered served).main.level
  exact ⟨u, ⟨taken, by omega, fun v after before => (away v after before).code, ended⟩, served⟩

theorem service_unique {t u v : Nat} (first : Service samples request start t u)
    (second : Service samples request start t v) : u = v := by
  -- the routine would be over at the earlier end and still running
  have order {u v : Nat} (first : Service samples request start t u)
      (second : Service samples request start t v) : ¬ u < v := by
    intro before
    have running := second.serving u first.later before
    exact BitVec.not_lt.mpr running first.ended
  have notBefore := order first second
  have notAfter := order second first
  omega

theorem service_served {first : Nat}
    (initial : Metered samples (run samples request start first)) {t u : Nat} (late : first ≤ t)
    (service : Service samples request start t u) :
    Served samples (run samples request start t) (run samples request start u) := by
  obtain ⟨v, other, served⟩ := interrupt_served initial late service.taken
  rwa [service_unique service other]

theorem position_mono {t u : Nat} (later : t ≤ u) :
    (run samples request start t).position ≤ (run samples request start u).position := by
  induction u, later using Nat.le_induction with
  | base => exact Nat.le_refl _
  | succ u later ih =>
      refine Nat.le_trans ih ?_
      cases taken : (run samples request start u).cpu.enabled && request u
      · rw [main_stepped taken]
        exact Nat.le_add_right _ _
      · rw [interrupt_taken taken]

theorem metered_reaches {first : Nat}
    (initial : Metered samples (run samples request start first)) {n t : Nat}
    (fewer : (run samples request start first).position < n)
    (reached : n ≤ (run samples request start t).position) :
    ∃ u, first ≤ u ∧ Metered samples (run samples request start u) ∧
      n ≤ (run samples request start u).position := by
  have late : first ≤ t := by
    by_contra early
    have before := @position_mono samples request start t first (by omega)
    omega
  rcases metered_or_serving initial late with metered | ⟨a, after, metered, trip⟩
  · exact ⟨t, late, metered, reached⟩
  · obtain ⟨u, later, -, served, -⟩ := home_again run_is_run metered_homing metered trip
    have grown := @position_mono samples request start t u (by omega)
    exact ⟨u, by omega, served_metered _ _ metered served, by omega⟩

/-- The step that leads home: an instruction of the main program, or the end of a service. -/
theorem metered_before {first : Nat}
    (initial : Metered samples (run samples request start first)) {t : Nat} (late : first ≤ t)
    (home : Metered samples (run samples request start (t + 1))) :
    (Metered samples (run samples request start t) ∧
      ((run samples request start t).cpu.enabled && request t) = false) ∨
    ∃ a, first ≤ a ∧ a < t ∧ Metered samples (run samples request start a) ∧
      ((run samples request start a).cpu.enabled && request a) = true ∧
      Served samples (run samples request start a) (run samples request start (t + 1)) ∧
      ∀ u, a < u → u ≤ t → Away (run samples request start a) (run samples request start u) := by
  rcases metered_or_serving initial late with metered | ⟨a, after, metered, trip⟩
  · left
    cases taken : (run samples request start t).cpu.enabled && request t
    · exact ⟨metered, rfl⟩
    · exact absurd home.main (away_not_main _ _ (interrupt_leaves taken).1)
  · right
    rcases excursion_step run_is_run metered_homing metered trip with served | onward
    · exact ⟨a, after, trip.departed, metered, departure_taken metered.main trip, served, trip.away⟩
    · exact absurd home.main
        (away_not_main _ _ (onward.away (t + 1) onward.departed (Nat.le_refl _)))

theorem metered_idle {t : Nat} (metered : Metered samples (run samples request start t))
    (idle : ((run samples request start t).cpu.enabled && request t) = false) :
    (run samples request start (t + 1)).position = (run samples request start t).position := by
  rw [main_stepped idle]
  exact (@loop_keeps_meter samples (run samples request start t) _
    (loop_closed metered.main metered.loop).1).2

/-- Being at home again, with a sample more than before, is the end of a service. -/
theorem reaching_service {first : Nat}
    (initial : Metered samples (run samples request start first)) {n v : Nat} (late : first ≤ v)
    (home : Metered samples (run samples request start (v + 1)))
    (reached : n ≤ (run samples request start (v + 1)).position)
    (fewer : ∀ t, first ≤ t → t ≤ v → Metered samples (run samples request start t) →
      (run samples request start t).position < n) :
    ∃ t, first ≤ t ∧ Service samples request start t (v + 1) ∧
      (run samples request start (v + 1)).position = n := by
  rcases metered_before initial late home with ⟨metered, idle⟩ |
      ⟨a, after, departed, metered, taken, served, away⟩
  · have before := fewer v late (Nat.le_refl v) metered
    rw [metered_idle metered idle] at reached
    omega
  · have before := fewer a after (Nat.le_of_lt departed) metered
    have position := served.position
    have ended := nesting_inside home.main.level
    have serving (u : Nat) (later : a < u) (early : u < v + 1) :=
      (away u later (Nat.le_of_lt_succ early)).code
    exact ⟨a, after, ⟨taken, Nat.lt_succ_of_lt departed, serving, ended⟩, by omega⟩

/-- The interrupt that completes a window: its service ends when the run is first
at home with that many samples read. -/
theorem service_reaches {first : Nat}
    (initial : Metered samples (run samples request start first)) {n t : Nat}
    (fewer : (run samples request start first).position < n)
    (reached : n ≤ (run samples request start t).position) :
    ∃ t u, first ≤ t ∧ Service samples request start t u ∧
      (run samples request start u).position = n := by
  classical
  -- the least time at home with `n` samples read: one step before, fewer were read at home
  have found := metered_reaches initial fewer reached
  obtain ⟨late, home, enough⟩ := Nat.find_spec found
  have least (t : Nat) (early : t < Nat.find found) (after : first ≤ t)
      (metered : Metered samples (run samples request start t)) :
      (run samples request start t).position < n := by
    by_contra enough
    exact Nat.find_min found early ⟨after, metered, by omega⟩
  have beyond : Nat.find found ≠ first := by
    intro same
    rw [same] at enough
    omega
  obtain ⟨v, next⟩ := Nat.exists_eq_add_of_lt (Nat.lt_of_le_of_ne late (Ne.symm beyond))
  rw [next] at home enough least
  obtain ⟨t, after, service, position⟩ := reaching_service initial (Nat.le_add_right first v) home
    enough fun t after early metered => least t (by omega) after metered
  exact ⟨t, first + v + 1, after, service, position⟩

theorem averages_quiet_first (initial : Metered samples (run samples request start 5))
    (zero : (run samples request start 5).position = 0)
    (shows : ShowsAverages samples request start) (m : Nat)
    (completed : Completed samples request start m) (quiet : average samples m = 0) (j : Nat)
    (earlier : j < m) : average samples j = 0 := by
  obtain ⟨t, reached⟩ := completed
  obtain ⟨t, u, late, service, position⟩ := service_reaches initial (by omega) reached
  have metered := interrupted_metered initial late service.taken
  have shown := (served_metered _ _ metered (service_served initial late service)).shows.led
  have claimed := shows.window t u service m position
  rw [position, show 256 * (m + 1) / 256 = m + 1 by omega, lastBar, if_pos quiet] at shown
  -- the bar of a quiet window is empty, and the code shows the last loud one
  have dark : (run samples request start u).led = 0 := by
    rw [claimed, quiet]
    rfl
  exact (last_bar_zero samples m).mp (shown.symm.trans dark) j earlier

theorem quiet_first_averages {first : Nat}
    (initial : Metered samples (run samples request start first))
    (masked : ∀ t < first, (run samples request start t).cpu.enabled = false)
    (quietFirst : ∀ m, Completed samples request start m → average samples m = 0 →
      ∀ j < m, average samples j = 0) :
    ShowsAverages samples request start := by
  have late {t u : Nat} (service : Service samples request start t u) : first ≤ t := by
    by_contra early
    have taken := service.taken
    simp [masked t (by omega)] at taken
  have leds {t u : Nat} (service : Service samples request start t u) :
      (run samples request start t).led =
        lastBar samples ((run samples request start t).position / 256) ∧
      (run samples request start u).led =
        lastBar samples ((run samples request start u).position / 256) ∧
      (run samples request start u).position = (run samples request start t).position + 1 := by
    have metered := interrupted_metered initial (late service) service.taken
    have served := service_served initial (late service) service
    exact ⟨metered.shows.led, (served_metered _ _ metered served).shows.led, served.position⟩
  constructor
  · exact fun t u service => (leds service).2.2
  · intro t u service m position
    obtain ⟨-, shown, -⟩ := leds service
    rw [shown, position, show 256 * (m + 1) / 256 = m + 1 by omega, lastBar]
    split
    · next quiet =>
      rw [quiet]
      exact (last_bar_zero samples m).mpr (quietFirst m ⟨u, by omega⟩ quiet)
    · rfl
  · intro t u service inside
    obtain ⟨before, after, position⟩ := leds service
    rw [before, after, show (run samples request start u).position / 256 =
      (run samples request start t).position / 256 by omega]

end Run

/-- For every sequence of audio bytes and every pattern of interrupts: the meter
shows the averages if and only if no window with average zero comes after one
with another average. -/
theorem averages_shown_iff (samples : Nat → Byte) (request : Nat → Bool) (reg : Reg → Byte)
    (led : Byte) (led0 : Bool) (sseg : BitVec 24) :
    ShowsAverages samples request (powerUp reg led led0 sseg) ↔
      ∀ m, Completed samples request (powerUp reg led led0 sseg) m → average samples m = 0 →
        ∀ j < m, average samples j = 0 := by
  obtain ⟨initial, zero, masked⟩ := @cold_start samples request reg led led0 sseg
  constructor
  · exact averages_quiet_first initial zero
  · exact quiet_first_averages initial masked

theorem always_interrupted {samples : Nat → Byte} {start : Board} {first : Nat}
    (initial : Metered samples (run samples (fun _ => true) start first)) (n : Nat) :
    ∃ t, first ≤ t ∧ Metered samples (run samples (fun _ => true) start t) ∧
      (run samples (fun _ => true) start t).position =
        (run samples (fun _ => true) start first).position + n := by
  induction n with
  | zero => exact ⟨first, Nat.le_refl _, initial, rfl⟩
  | succ n ih =>
      obtain ⟨t, late, metered, position⟩ := ih
      have taken : ((run samples (fun _ => true) start t).cpu.enabled && true) = true := by
        rw [metered.enabled]
        rfl
      obtain ⟨u, service, served⟩ := interrupt_served initial late taken
      have later := service.later
      have read := served.position
      exact ⟨u, by omega, served_metered _ _ metered served, by omega⟩

/-- A loud window, and silence after it. -/
def loudThenQuiet (n : Nat) : Byte := if n < 256 then 0x7F else 0

theorem loud_average : average loudThenQuiet 0 = 127 ∧ average loudThenQuiet 1 = 0 := by
  have loud (i : Nat) (inside : i < 256) : size (loudThenQuiet (256 * 0 + i)) = 127 := by
    rw [loudThenQuiet, if_pos (by omega)]
    rfl
  have quiet (i : Nat) : size (loudThenQuiet (256 * 1 + i)) = 0 := by
    rw [loudThenQuiet, if_neg (by omega)]
    rfl
  unfold average partialSum
  constructor
  · rw [Finset.sum_congr rfl fun i inside => loud i (Finset.mem_range.mp inside)]
    simp
  · simp [quiet]

theorem quiet_window_keeps_bar :
    ¬ ShowsAverages loudThenQuiet (fun _ => true) (powerUp (fun _ => 0) 0 false 0) := by
  intro shows
  obtain ⟨initial, zero, -⟩ := @cold_start loudThenQuiet (fun _ => true) (fun _ => 0) 0 false 0
  obtain ⟨t, -, -, position⟩ := always_interrupted initial 512
  have completed : Completed loudThenQuiet (fun _ => true) (powerUp (fun _ => 0) 0 false 0) 1 :=
    ⟨t, by omega⟩
  have dark := averages_quiet_first initial zero shows 1 completed loud_average.2 0 (by omega)
  rw [loud_average.1] at dark
  contradiction

end Cpen311.StrengthMeter
