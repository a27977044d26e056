import Cpen311.OsCore

/-! How long tasks are delayed (`os_time.c`): exactly the ticks of `OSTimeDly`, whatever the other
tasks and the interrupts do, and for `OSTimeDlyHMSM` the sum of the delays that it is made of. -/
namespace Cpen311.OsTime
open OsCore

/-- The calls that set the delay of the task of a priority. -/
def Touches (p : Nat) (c : Call) (s : Kernel) : Prop :=
  c = .osTimeDlyResume p ∨ s.osPrioCur = p ∧ ∃ ticks, c = .osTimeDly ticks

def Counted (c : Call) (s : Kernel) : Prop :=
  c = .osTimeTick ∧ s.osRunning = true ∧ 0 < s.osIntNesting

instance (c : Call) (s : Kernel) : Decidable (Counted c s) :=
  inferInstanceAs (Decidable (_ ∧ _ ∧ _))

section Delay
variable {s : Kernel} {p left : Nat}

theorem create_keeps (prio : Nat) (task : (delays s p).isSome) :
    delays ((osTaskCreateExt prio s).toOption.getD s) p = delays s p := by
  unfold osTaskCreateExt osTCBInit
  split_ifs with large interrupt free none
  · rfl
  · rfl
  · rfl
  · have other : p ≠ prio := by
      rintro rfl
      rw [delays, Option.isNone_iff_eq_none.mp free] at task
      contradiction
    change delays (if s.osRunning = true then osSched _ else _) p = _
    split
    · rw [sched_delays]
      simp only [delays, Function.update_of_ne other]
    · simp only [delays, Function.update_of_ne other]
  · rfl

theorem delay_keeps (ticks : BitVec 16) (other : s.osPrioCur ≠ p) :
    delays (osTimeDly ticks s) p = delays s p := by
  unfold osTimeDly
  split_ifs
  · rfl
  · rw [sched_delays, delays_set, if_neg (Ne.symm other)]
    rfl
  · rfl

theorem resume_keeps {prio : Nat} (other : prio ≠ p) :
    delays ((osTimeDlyResume prio s).toOption.getD s) p = delays s p := by
  unfold osTimeDlyResume
  split
  · rfl
  · split
    · rfl
    · split
      · rfl
      · change delays (osSched (wake prio s)) p = _
        rw [sched_delays]
        change delays (setDly prio 0 s) p = _
        rw [delays_set, if_neg (Ne.symm other)]

theorem lock_keeps : delays (osSchedLock s) p = delays s p := by
  unfold osSchedLock
  split_ifs <;> rfl

theorem unlock_keeps : delays (osSchedUnlock s) p = delays s p := by
  unfold osSchedUnlock
  dsimp only
  split_ifs
  · rw [sched_delays]
    rfl
  all_goals rfl

theorem exit_keeps : delays (osIntExit s) p = delays s p := by
  unfold osIntExit
  split_ifs
  · rw [sched_delays]
    rfl
  · rw [sched_delays]
  · rfl

theorem step_keeps {c : Call} (sound : Sound s) (task : delays s p = some left)
    (untouched : ¬ Touches p c s) :
    delays (step c s) p = some (if Counted c s then left - 1 else left) := by
  unfold step
  split
  · next allowed =>
    by_cases tick : c = .osTimeTick
    · subst tick
      by_cases running : s.osRunning = true
      · have counted : Counted .osTimeTick s := ⟨rfl, running, possible_tick.mp allowed running⟩
        obtain ⟨-, -, ticked⟩ := time_tick running sound.toCore
        rw [if_pos counted]
        change delays (osTimeTick s) p = _
        rw [ticked, task]
        rfl
      · have same : osTimeTick s = countTick s := if_neg running
        rw [if_neg fun counted => running counted.2.1]
        change delays (osTimeTick s) p = _
        rw [same]
        exact task
    · rw [if_neg fun counted => tick counted.1, ← task]
      cases c with
      | osTaskCreateExt prio => exact create_keeps prio (by rw [task]; rfl)
      | osStart =>
          change delays (osStart s) p = _
          unfold osStart
          split <;> rfl
      | osIntEnter =>
          change delays (osIntEnter s) p = _
          unfold osIntEnter
          split_ifs <;> rfl
      | osIntExit => exact exit_keeps
      | osTimeTick => contradiction
      | osTimeDly ticks => exact delay_keeps ticks fun same => untouched (.inr ⟨same, ticks, rfl⟩)
      | osTimeDlyResume prio => exact resume_keeps fun same => untouched (.inl (by rw [same]))
      | osSchedLock => exact lock_keeps
      | osSchedUnlock => exact unlock_keeps
  · next refused =>
    rw [if_neg, task]
    rintro ⟨rfl, running, nested⟩
    exact refused (possible_tick.mpr fun _ => nested)

/-- A delay begins. -/
theorem step_delays {ticks : BitVec 16} (allowed : s.osRunning = true ∧ s.osPrioCur ≠ osTaskIdlePrio)
    (noInterrupt : s.osIntNesting = 0) (positive : ticks > 0) (sound : Sound s) :
    delays (step (.osTimeDly ticks) s) s.osPrioCur = some ticks.toNat := by
  have possible : step (.osTimeDly ticks) s = osTimeDly ticks s := if_pos (possible_delay.mpr allowed)
  obtain ⟨left, task⟩ := Option.isSome_iff_exists.mp (sound.current allowed.1)
  rw [possible, osTimeDly, if_neg (by omega), if_pos positive, sched_delays, delays_set, if_pos rfl]
  change (delays s s.osPrioCur).map _ = _
  rw [task]
  rfl

end Delay

section Run
variable (calls : Nat → Call)

/-- The ticks that the kernel has counted in the first steps of a run. -/
def ticksBefore (n : Nat) : Nat := Nat.count (fun k => Counted (calls k) (run calls k)) n

/-- A task that may delay itself runs, and no interrupt is served. -/
def Active (p : Nat) (s : Kernel) : Prop :=
  (s.osRunning = true ∧ s.osPrioCur = p) ∧ p ≠ osTaskIdlePrio ∧ s.osIntNesting = 0

variable {calls} {i p : Nat} {ticks : BitVec 16}

theorem not_counted {c : Call} {s : Kernel} (other : c ≠ .osTimeTick) : ¬ Counted c s :=
  fun counted => other counted.1

theorem ticks_over (asked : calls i = .osTimeDly ticks) :
    ticksBefore calls (i + 1) = ticksBefore calls i := by
  have other : ¬ Counted (calls i) (run calls i) := not_counted (by rw [asked]; nofun)
  rw [ticksBefore, Nat.count_succ, if_neg other]
  rfl

theorem delay_left (asked : calls i = .osTimeDly ticks) (active : Active p (run calls i))
    (positive : ticks > 0) (n : Nat)
    (untouched : ∀ k, i < k → k < i + 1 + n → ¬ Touches p (calls k) (run calls k)) :
    delays (run calls (i + 1 + n)) p =
      some (ticks.toNat - (ticksBefore calls (i + 1 + n) - ticksBefore calls i)) := by
  induction n with
  | zero =>
      obtain ⟨⟨running, same⟩, busy, noInterrupt⟩ := active
      subst same
      have begun := step_delays ⟨running, busy⟩ noInterrupt positive (run_sound calls i)
      change delays (step (calls i) (run calls i)) _ = _
      rw [asked, begun, Nat.add_zero, ticks_over asked, Nat.sub_self, Nat.sub_zero]
  | succ n ih =>
      have before := ih fun k after inside => untouched k after (by omega)
      have kept := step_keeps (run_sound calls (i + 1 + n)) before (untouched _ (by omega) (by omega))
      change delays (step (calls (i + 1 + n)) (run calls (i + 1 + n))) p = _
      have next : ticksBefore calls (i + 1 + (n + 1)) = ticksBefore calls (i + 1 + n) +
          if Counted (calls (i + 1 + n)) (run calls (i + 1 + n)) then 1 else 0 := Nat.count_succ ..
      have passed : ticksBefore calls i ≤ ticksBefore calls (i + 1 + n) :=
        Nat.count_monotone _ (by omega)
      rw [kept, next]
      congr 1
      split <;> omega

/-- A task is ready again exactly from the last of its ticks on. -/
theorem delay_exact (asked : calls i = .osTimeDly ticks) (active : Active p (run calls i))
    (positive : ticks > 0) {j : Nat} (later : i < j)
    (untouched : ∀ k, i < k → k < j → ¬ Touches p (calls k) (run calls k)) :
    p ∈ (run calls j).osRdy ↔ ticksBefore calls i + ticks.toNat ≤ ticksBefore calls j := by
  obtain ⟨n, rfl⟩ := Nat.exists_eq_add_of_le (Nat.succ_le_of_lt later)
  have left := delay_left asked active positive n untouched
  have passed : ticksBefore calls i ≤ ticksBefore calls (i + 1 + n) :=
    Nat.count_monotone _ (by omega)
  rw [(run_sound calls _).ready, Nat.succ_eq_add_one, left, Option.some.injEq]
  omega

end Run

/-- One task that sleeps for a millisecond. -/
def oneMillisecond (n : Nat) : Call :=
  [.osTaskCreateExt 1, .osStart, .osTimeDly 1, .osIntEnter, .osTimeTick, .osIntExit].getD n .osIntEnter

theorem untouched_millisecond (m : Nat) (after : 2 < m) :
    ¬ Touches 1 (oneMillisecond m) (run oneMillisecond m) := by
  rintro (same | ⟨-, ticks, same⟩)
  all_goals
    match m, after with
    | 3, _ | 4, _ | 5, _ => cases same
    | m + 6, _ => cases same

theorem active_before : Active 1 (run oneMillisecond 2) := ⟨⟨rfl, rfl⟩, by decide, rfl⟩

theorem ready_after_tick : 1 ∈ (run oneMillisecond 5).osRdy ↔
    ticksBefore oneMillisecond 2 + 1 ≤ ticksBefore oneMillisecond 5 :=
  @delay_exact oneMillisecond 2 1 1 rfl active_before (by decide) 5 (by decide)
    fun m after _ => untouched_millisecond m after

/-! A task alone with the interrupts of the timer is back after its ticks. -/
section Timer
variable {s : Kernel} {p : Nat}

/-- Outside of interrupts and locks, where no task goes before that of priority `p`. -/
structure Calm (p : Nat) (s : Kernel) : Prop where
  running : s.osRunning = true
  noInterrupt : s.osIntNesting = 0
  unlocked : s.osLockNesting = 0
  highest : ∀ q < p, delays s q = none

theorem calm_active (calm : Calm p s) (sound : Sound s) (ready : delays s p = some 0)
    (busy : p ≠ osTaskIdlePrio) : Active p s := by
  obtain ⟨least, before⟩ := sound.scheduled calm.running calm.noInterrupt calm.unlocked
  have same : s.osPrioCur = p := by
    refine Nat.le_antisymm (before ready) (Nat.le_of_not_lt fun higher => ?_)
    have ended : delays s s.osPrioCur = some 0 := least
    rw [calm.highest _ higher] at ended
    contradiction
  exact ⟨⟨calm.running, same⟩, busy, calm.noInterrupt⟩

theorem sched_calm (calm : Calm p s) : Calm p (osSched s) := by
  obtain ⟨running, noInterrupt, unlocked, highest⟩ := calm
  refine ⟨?_, ?_, ?_, fun q higher => by rw [sched_delays, highest q higher]⟩
  all_goals
    rw [sched_eq, if_pos ⟨noInterrupt, unlocked⟩]
    assumption

theorem delay_calm {ticks : BitVec 16} (calm : Calm p s) (same : s.osPrioCur = p)
    (positive : ticks > 0) : Calm p (osTimeDly ticks s) := by
  rw [osTimeDly, if_neg (by rw [calm.noInterrupt]; decide), if_pos positive, same]
  refine sched_calm ⟨calm.running, calm.noInterrupt, calm.unlocked, fun q higher => ?_⟩
  rw [delays_set, if_neg (Nat.ne_of_lt higher)]
  exact calm.highest q higher

theorem exit_calm (running : s.osRunning = true) (last : s.osIntNesting = 1)
    (unlocked : s.osLockNesting = 0) (highest : ∀ q < p, delays s q = none) : Calm p (osIntExit s) := by
  rw [osIntExit, if_pos running, if_pos (by rw [last]; decide), last]
  exact sched_calm ⟨running, rfl, unlocked, highest⟩

/-- The handler of the timer. -/
theorem interrupt_calm (calm : Calm p s) (sound : Sound s) :
    Counted .osTimeTick (osIntEnter s) ∧ Calm p (osIntExit (osTimeTick (osIntEnter s))) := by
  obtain ⟨running, noInterrupt, unlocked, highest⟩ := calm
  have entered : osIntEnter s = { s with osIntNesting := 1 } := by
    rw [osIntEnter, if_pos running, noInterrupt]
    rfl
  obtain ⟨-, ⟨ready, table, same⟩, ticked⟩ :=
    @time_tick (osIntEnter s) (by rw [entered]; exact running) (enter_sound sound).toCore
  refine ⟨⟨rfl, by rw [entered]; exact running, by rw [entered]; exact Nat.one_pos⟩, ?_⟩
  refine exit_calm ?_ ?_ ?_ fun q higher => ?_
  · rw [same, entered]
    exact running
  · rw [same, entered]
    rfl
  · rw [same, entered]
    exact unlocked
  · rw [ticked, entered]
    change (delays s q).map _ = none
    rw [highest q higher]
    rfl

/-- The calls of the timer alone. -/
def timer (k : Nat) : Call :=
  if k % 3 = 0 then .osIntEnter else if k % 3 = 1 then .osTimeTick else .osIntExit

theorem timer_enter (n : Nat) : timer (3 * n) = .osIntEnter := if_pos (by omega)

theorem timer_tick (n : Nat) : timer (3 * n + 1) = .osTimeTick :=
  (if_neg (by omega)).trans (if_pos (by omega))

theorem timer_exit (n : Nat) : timer (3 * n + 2) = .osIntExit :=
  (if_neg (by omega)).trans (if_neg (by omega))

theorem timer_untouched (k : Nat) : ¬ Touches p (timer k) s := by
  unfold timer
  rintro (same | ⟨-, ticks, same⟩) <;> split_ifs at same

variable {calls : Nat → Call} {i : Nat}

theorem interrupt_run (calm : Calm p (run calls i)) (enter : calls i = .osIntEnter)
    (tick : calls (i + 1) = .osTimeTick) (exit : calls (i + 2) = .osIntExit) :
    Calm p (run calls (i + 3)) ∧ ticksBefore calls i + 1 ≤ ticksBefore calls (i + 3) := by
  obtain ⟨ticked, after⟩ := interrupt_calm calm (run_sound calls _)
  have entered : run calls (i + 1) = osIntEnter (run calls i) := by
    change step (calls i) _ = _
    rw [enter]
    rfl
  have left : run calls (i + 3) = osIntExit (osTimeTick (osIntEnter (run calls i))) := by
    change step (calls (i + 2)) (step (calls (i + 1)) (run calls (i + 1))) = _
    rw [exit, tick, entered]
    exact congrArg osIntExit (if_pos (possible_tick.mpr fun _ => ticked.2.2))
  have once : ticksBefore calls (i + 2) = ticksBefore calls (i + 1) + 1 := by
    have now : Counted (calls (i + 1)) (run calls (i + 1)) := by
      rw [tick, entered]
      exact ticked
    rw [ticksBefore, Nat.count_succ, if_pos now]
    rfl
  have before : ticksBefore calls i ≤ ticksBefore calls (i + 1) := Nat.count_monotone _ (by omega)
  have behind : ticksBefore calls (i + 2) ≤ ticksBefore calls (i + 3) :=
    Nat.count_monotone _ (by omega)
  exact ⟨left ▸ after, by omega⟩

theorem interrupts_counted (calm : Calm p (run calls i)) (n : Nat)
    (served : ∀ k < 3 * n, calls (i + k) = timer k) :
    Calm p (run calls (i + 3 * n)) ∧ ticksBefore calls i + n ≤ ticksBefore calls (i + 3 * n) := by
  induction n with
  | zero => exact ⟨calm, Nat.le_refl _⟩
  | succ n ih =>
      obtain ⟨still, counted⟩ := ih fun k inside => served k (by omega)
      obtain ⟨after, once⟩ := interrupt_run still ((served (3 * n) (by omega)).trans (timer_enter n))
        ((served (3 * n + 1) (by omega)).trans (timer_tick n))
        ((served (3 * n + 2) (by omega)).trans (timer_exit n))
      exact ⟨after, Nat.le_trans (Nat.succ_le_succ counted) once⟩

theorem timer_wakes {ticks : BitVec 16} (asked : calls i = .osTimeDly ticks)
    (active : Active p (run calls i)) (positive : ticks > 0) (calm : Calm p (run calls i))
    (served : ∀ k < 3 * ticks.toNat, calls (i + 1 + k) = timer k) :
    Active p (run calls (i + 1 + 3 * ticks.toNat)) ∧ Calm p (run calls (i + 1 + 3 * ticks.toNat)) := by
  have possible : possible (.osTimeDly ticks) (run calls i) = true :=
    possible_delay.mpr ⟨active.1.1, by rw [active.1.2]; exact active.2.1⟩
  have begun : run calls (i + 1) = osTimeDly ticks (run calls i) := by
    change step (calls i) _ = _
    rw [asked]
    exact if_pos possible
  obtain ⟨after, counted⟩ := interrupts_counted (begun ▸ delay_calm calm active.1.2 positive)
    ticks.toNat served
  rw [ticks_over asked] at counted
  have left := delay_left asked active positive (3 * ticks.toNat) fun k later inside => by
    obtain ⟨n, rfl⟩ := Nat.exists_eq_add_of_le (Nat.succ_le_of_lt later)
    rw [Nat.succ_eq_add_one, served n (by omega)]
    exact timer_untouched n
  have ended : ticks.toNat -
      (ticksBefore calls (i + 1 + 3 * ticks.toNat) - ticksBefore calls i) = 0 := by omega
  rw [ended] at left
  exact ⟨calm_active after (run_sound calls _) left active.2.1, after⟩

end Timer

/-! Hours, minutes, seconds and milliseconds. -/
def osTicksPerSec : Nat := 1000

/-- The calls of `OSTimeDly` that it makes, if its arguments are in range. -/
def osTimeDlyHMSM (hours minutes seconds : BitVec 8) (ms : BitVec 16) (s : Kernel) :
    Except OsErr (List (BitVec 16)) :=
  if s.osIntNesting > 0 then .error .timeDlyIsr
  else if hours = 0 ∧ minutes = 0 ∧ seconds = 0 ∧ ms = 0 then .error .timeZeroDly
  else if minutes > 59 then .error .timeInvalidMinutes
  else if seconds > 59 then .error .timeInvalidSeconds
  else if ms > 999 then .error .timeInvalidMs
  else
    let perSec := BitVec.ofNat 32 osTicksPerSec
    let ticks := (hours.setWidth 32 * 3600 + minutes.setWidth 32 * 60 + seconds.setWidth 32) * perSec +
      perSec * (ms.setWidth 32 + 500 / perSec) / 1000
    let loops := (ticks >>> 16).setWidth 16
    .ok ((ticks &&& 0xFFFF).setWidth 16 ::
      (List.replicate loops.toNat [(32768 : BitVec 16), 32768]).flatten)

def total : List (BitVec 16) → Nat
  | [] => 0
  | ticks :: rest => ticks.toNat + total rest

theorem total_loops (n : Nat) :
    total (List.replicate n [(32768 : BitVec 16), 32768]).flatten = n * 65536 := by
  induction n with
  | zero => rfl
  | succ n ih =>
      rw [List.replicate_succ, List.flatten_cons]
      change 32768 + (32768 + total (List.replicate n [32768, 32768]).flatten) = _
      omega

theorem total_split (ticks : BitVec 32) :
    total ((ticks &&& 0xFFFF).setWidth 16 ::
      (List.replicate ((ticks >>> 16).setWidth 16).toNat [(32768 : BitVec 16), 32768]).flatten) =
      ticks.toNat := by
  have low : ((ticks &&& 0xFFFF).setWidth 16).toNat = ticks.toNat % 65536 := by
    rw [BitVec.toNat_setWidth, BitVec.toNat_and]
    change (ticks.toNat &&& 2 ^ 16 - 1) % 65536 = _
    rw [Nat.and_two_pow_sub_one_eq_mod, Nat.mod_mod]
  have high : ((ticks >>> 16).setWidth 16).toNat = ticks.toNat / 65536 := by
    simp [BitVec.toNat_setWidth, BitVec.toNat_ushiftRight, Nat.shiftRight_eq_div_pow]
    omega
  rw [total, high, total_loops, low]
  omega

/-- The delays add up to the time, without an overflow and without a remainder. -/
theorem hmsm_total {hours minutes seconds : BitVec 8} {ms : BitVec 16} {s : Kernel}
    {delays : List (BitVec 16)} (granted : osTimeDlyHMSM hours minutes seconds ms s = .ok delays) :
    total delays = ((hours.toNat * 60 + minutes.toNat) * 60 + seconds.toNat) * 1000 + ms.toNat := by
  unfold osTimeDlyHMSM at granted
  split_ifs at granted with interrupt zero largeMinutes largeSeconds largeMs
  cases granted
  rw [total_split]
  have perSec : BitVec.ofNat 32 osTicksPerSec = 1000 := rfl
  have none : (500 : BitVec 32) / 1000 = 0 := rfl
  have whole : (1000 : BitVec 32) * (ms.setWidth 32 + 0) / 1000 = ms.setWidth 32 := by
    have small : ms.toNat ≤ 999 := by bv_omega
    refine BitVec.eq_of_toNat_eq ?_
    simp only [BitVec.toNat_udiv, BitVec.toNat_mul, BitVec.toNat_setWidth]
    change 1000 * (ms.toNat % 4294967296) % 4294967296 / 1000 = _
    omega
  rw [perSec, none, whole]
  bv_omega

section Sleep
variable {calls : Nat → Call} {p : Nat}

/-- The task makes the calls one after the other, each when it runs again, and runs again after the
last of them. Meanwhile no other task resumes it by `OSTimeDlyResume`, and when it runs again the
scheduler is not locked. -/
inductive Sleeps (calls : Nat → Call) (p : Nat) : List (BitVec 16) → Nat → Nat → Prop
  | back {i : Nat} : Sleeps calls p [] i i
  | call {ticks : BitVec 16} {rest : List (BitVec 16)} {i j k : Nat}
      (asked : calls i = .osTimeDly ticks) (active : Active p (run calls i)) (later : i < j)
      (untouched : ∀ m, i < m → m < j → ¬ Touches p (calls m) (run calls m))
      (again : Active p (run calls j)) (unlocked : (run calls j).osLockNesting = 0)
      (sleeps : Sleeps calls p rest j k) : Sleeps calls p (ticks :: rest) i k

theorem sleeps_total {delays : List (BitVec 16)} {i k : Nat} (sleeps : Sleeps calls p delays i k) :
    ticksBefore calls i + total delays ≤ ticksBefore calls k := by
  induction sleeps with
  | back => exact le_rfl
  | @call ticks rest i j k asked active later untouched again unlocked sleeps ih =>
      have first : ticksBefore calls i + ticks.toNat ≤ ticksBefore calls j := by
        have passed : ticksBefore calls i ≤ ticksBefore calls j := Nat.count_monotone _ later.le
        by_cases positive : ticks > 0
        · obtain ⟨n, rfl⟩ := Nat.exists_eq_add_of_le (Nat.succ_le_of_lt later)
          obtain ⟨⟨running, current⟩, -, noInterrupt⟩ := again
          have ready := ((run_sound calls _).scheduled running noInterrupt unlocked).1
          have left := delay_left asked active positive n untouched
          change OsCore.delays _ _ = some 0 at ready
          rw [current, Nat.succ_eq_add_one, left, Option.some.injEq] at ready
          rw [Nat.succ_eq_add_one] at passed ⊢
          omega
        · have zero : ticks.toNat = 0 := by bv_omega
          omega
      have sum : total (ticks :: rest) = ticks.toNat + total rest := rfl
      omega

end Sleep

/-- A task is back from `OSTimeDlyHMSM` no earlier than after the time that it gave, for all times
in range up to 255 hours. -/
theorem hmsm_delays {calls : Nat → Call} {p i j : Nat} {hours minutes seconds : BitVec 8}
    {ms : BitVec 16} {delays : List (BitVec 16)}
    (granted : osTimeDlyHMSM hours minutes seconds ms (run calls i) = .ok delays)
    (sleeps : Sleeps calls p delays i j) :
    ticksBefore calls i + (((hours.toNat * 60 + minutes.toNat) * 60 + seconds.toNat) * 1000 + ms.toNat) ≤
      ticksBefore calls j := by
  rw [← hmsm_total granted]
  exact sleeps_total sleeps

/-- A task sleeps for one minute, 5 seconds and 536 milliseconds: for one pair of delays. -/
def onePair (n : Nat) : Call :=
  if n < 4 then [.osTaskCreateExt 1, .osStart, .osTimeDly 0, .osTimeDly 32768].getD n .osStart
  else if n < 98308 then timer (n - 4)
  else if n = 98308 then .osTimeDly 32768
  else timer (n - 98309)

theorem pair_calm : Calm 1 (run onePair 3) := by
  refine ⟨rfl, rfl, rfl, fun q higher => ?_⟩
  obtain rfl : q = 0 := by omega
  rfl

theorem first_wakes : Active 1 (run onePair 98308) ∧ Calm 1 (run onePair 98308) :=
  @timer_wakes 1 onePair 3 32768 rfl ⟨⟨rfl, rfl⟩, by decide, rfl⟩ (by decide) pair_calm fun k inside => by
    change k < 98304 at inside
    rw [onePair, if_neg (by omega), if_pos (by omega), Nat.add_sub_cancel_left]

theorem second_wakes : Active 1 (run onePair 196613) ∧ Calm 1 (run onePair 196613) :=
  @timer_wakes 1 onePair 98308 32768 rfl first_wakes.1 (by decide) first_wakes.2 fun k _ => by
    rw [onePair, if_neg (by omega), if_neg (by omega), if_neg (by omega), Nat.add_sub_cancel_left]

theorem pair_untouched {m : Nat} (after : 3 < m) (other : m ≠ 98308) :
    ¬ Touches 1 (onePair m) (run onePair m) := by
  rw [onePair, if_neg (by omega), if_neg other]
  split <;> exact timer_untouched _

theorem back_after_pair : ticksBefore onePair 2 + 65536 ≤ ticksBefore onePair 196613 :=
  @hmsm_delays onePair 1 2 196613 0 1 5 536 [0, 32768, 32768] rfl <|
    .call (j := 3) rfl ⟨⟨rfl, rfl⟩, by decide, rfl⟩ (by decide) (fun m _ _ => by omega)
      ⟨⟨rfl, rfl⟩, by decide, rfl⟩ rfl <|
    .call (j := 98308) rfl ⟨⟨rfl, rfl⟩, by decide, rfl⟩ (by decide)
      (fun m after before => pair_untouched after (Nat.ne_of_lt before)) first_wakes.1
      first_wakes.2.unlocked <|
    .call rfl first_wakes.1 (by decide)
      (fun m after _ => pair_untouched (by omega) (Nat.ne_of_gt after)) second_wakes.1
      second_wakes.2.unlocked .back

end Cpen311.OsTime
