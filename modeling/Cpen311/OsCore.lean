import Mathlib.Data.Nat.Count
import Cpen311.Bitmaps
import Cpen311.ClockedRun

/-! The scheduler of the operating system under `task1` and `task2`, as lab5 configures it
(`os_core.c`, `os_time.c`, `OSTaskCreateExt` of `os_task.c`). The task that runs is the one of the
least priority number among those whose delay is over. A task control block is known by its
priority. Every task is in the state `OS_STAT_RDY`: suspending a task and waiting for an event are
not modelled. -/
namespace Cpen311.OsCore
open Bitmaps ClockedRun

/-- The position of the lowest bit of a byte, for the group and for the rows of the ready table. -/
def osUnMapTbl : List Nat :=
  [0, 0, 1, 0, 2, 0, 1, 0, 3, 0, 1, 0, 2, 0, 1, 0,
   4, 0, 1, 0, 2, 0, 1, 0, 3, 0, 1, 0, 2, 0, 1, 0,
   5, 0, 1, 0, 2, 0, 1, 0, 3, 0, 1, 0, 2, 0, 1, 0,
   4, 0, 1, 0, 2, 0, 1, 0, 3, 0, 1, 0, 2, 0, 1, 0,
   6, 0, 1, 0, 2, 0, 1, 0, 3, 0, 1, 0, 2, 0, 1, 0,
   4, 0, 1, 0, 2, 0, 1, 0, 3, 0, 1, 0, 2, 0, 1, 0,
   5, 0, 1, 0, 2, 0, 1, 0, 3, 0, 1, 0, 2, 0, 1, 0,
   4, 0, 1, 0, 2, 0, 1, 0, 3, 0, 1, 0, 2, 0, 1, 0,
   7, 0, 1, 0, 2, 0, 1, 0, 3, 0, 1, 0, 2, 0, 1, 0,
   4, 0, 1, 0, 2, 0, 1, 0, 3, 0, 1, 0, 2, 0, 1, 0,
   5, 0, 1, 0, 2, 0, 1, 0, 3, 0, 1, 0, 2, 0, 1, 0,
   4, 0, 1, 0, 2, 0, 1, 0, 3, 0, 1, 0, 2, 0, 1, 0,
   6, 0, 1, 0, 2, 0, 1, 0, 3, 0, 1, 0, 2, 0, 1, 0,
   4, 0, 1, 0, 2, 0, 1, 0, 3, 0, 1, 0, 2, 0, 1, 0,
   5, 0, 1, 0, 2, 0, 1, 0, 3, 0, 1, 0, 2, 0, 1, 0,
   4, 0, 1, 0, 2, 0, 1, 0, 3, 0, 1, 0, 2, 0, 1, 0]

def unMap (row : BitVec 8) : Nat := osUnMapTbl.getD row.toNat 0

theorem un_map_lowest : Bitmap.LowestBit unMap := by
  have table : ∀ n < 256, n ≠ 0 → n.testBit (osUnMapTbl.getD n 0) = true ∧
      ∀ i < 8, n.testBit i = true → osUnMapTbl.getD n 0 ≤ i := by
    decide +kernel
  intro v nonzero
  have some : v.toNat ≠ 0 := by simpa [BitVec.toNat_eq] using nonzero
  obtain ⟨set, least⟩ := table v.toNat v.isLt some
  exact ⟨set, fun i bit => least i (BitVec.lt_of_getLsbD bit) bit⟩

def osLowestPrio : Nat := 20

def osTaskIdlePrio : Nat := osLowestPrio

def osTaskStatPrio : Nat := osLowestPrio - 1

/-- `OS_MAX_TASKS` and the two tasks of the system. -/
def osTCBTblSize : Nat := 10 + 2

structure Tcb where
  osTCBDly : BitVec 16

inductive OsErr
  | prioInvalid | prioExist | taskCreateIsr | taskNoMoreTcb | taskNotExist | timeNotDly
  | timeDlyIsr | timeZeroDly | timeInvalidMinutes | timeInvalidSeconds | timeInvalidMs
  deriving DecidableEq

structure Kernel where
  /-- `OSRdyGrp` and `OSRdyTbl`. -/
  osRdy : Bitmap 8
  osTCBPrioTbl : Nat → Option Tcb
  osTCBList : List Nat
  /-- The length of `OSTCBFreeList`. -/
  osTCBFree : Nat
  osPrioCur : Nat
  osPrioHighRdy : Nat
  osIntNesting : Nat
  osLockNesting : Nat
  osCtxSwCtr : BitVec 32
  osTime : BitVec 32
  osRunning : Bool

def osSchedNew (s : Kernel) : Kernel := { s with osPrioHighRdy := s.osRdy.lowest unMap }

/-- `OSCtxSw` and `OSIntCtxSw`. -/
def osCtxSw (s : Kernel) : Kernel := { s with osPrioCur := s.osPrioHighRdy }

def osSched (s : Kernel) : Kernel :=
  if s.osIntNesting = 0 then
    if s.osLockNesting = 0 then
      let s := osSchedNew s
      if s.osPrioHighRdy ≠ s.osPrioCur then
        osCtxSw { s with osCtxSwCtr := s.osCtxSwCtr + 1 }
      else s
    else s
  else s

def osIntEnter (s : Kernel) : Kernel :=
  if s.osRunning then
    if s.osIntNesting < 255 then { s with osIntNesting := s.osIntNesting + 1 } else s
  else s

/-- After the decrement come the same tests and calls as in `OS_Sched`. -/
def osIntExit (s : Kernel) : Kernel :=
  if s.osRunning then
    osSched (if s.osIntNesting > 0 then { s with osIntNesting := s.osIntNesting - 1 } else s)
  else s

def osSchedLock (s : Kernel) : Kernel :=
  if s.osRunning then
    if s.osIntNesting = 0 then
      if s.osLockNesting < 255 then { s with osLockNesting := s.osLockNesting + 1 } else s
    else s
  else s

def osSchedUnlock (s : Kernel) : Kernel :=
  if s.osRunning then
    if s.osLockNesting > 0 then
      let s := { s with osLockNesting := s.osLockNesting - 1 }
      if s.osLockNesting = 0 then
        if s.osIntNesting = 0 then osSched s else s
      else s
    else s
  else s

/-- `OSStartHighRdy` sets `OSRunning` and goes on as `OSCtxSw`. -/
def osStart (s : Kernel) : Kernel :=
  if s.osRunning = false then { osCtxSw (osSchedNew s) with osRunning := true } else s

def osTCBInit (prio : Nat) (s : Kernel) : Except OsErr Kernel :=
  if s.osTCBFree = 0 then .error .taskNoMoreTcb
  else .ok { s with
    osTCBFree := s.osTCBFree - 1
    osTCBPrioTbl := Function.update s.osTCBPrioTbl prio (some ⟨0⟩)
    osTCBList := prio :: s.osTCBList
    osRdy := s.osRdy.insert prio }

def osTaskCreateExt (prio : Nat) (s : Kernel) : Except OsErr Kernel :=
  if prio > osLowestPrio then .error .prioInvalid
  else if s.osIntNesting > 0 then .error .taskCreateIsr
  else if (s.osTCBPrioTbl prio).isNone then
    (osTCBInit prio s).map fun s => if s.osRunning then osSched s else s
  else .error .prioExist

def setDly (prio : Nat) (ticks : BitVec 16) (s : Kernel) : Kernel :=
  { s with
    osTCBPrioTbl := Function.update s.osTCBPrioTbl prio
      ((s.osTCBPrioTbl prio).map fun tcb => { tcb with osTCBDly := ticks }) }

def osTimeDly (ticks : BitVec 16) (s : Kernel) : Kernel :=
  if s.osIntNesting > 0 then s
  else if ticks > 0 then
    osSched (setDly s.osPrioCur ticks { s with osRdy := s.osRdy.remove s.osPrioCur })
  else s

def osTimeDlyResume (prio : Nat) (s : Kernel) : Except OsErr Kernel :=
  if prio ≥ osLowestPrio then .error .prioInvalid
  else match s.osTCBPrioTbl prio with
  | none => .error .taskNotExist
  | some tcb =>
      if tcb.osTCBDly = 0 then .error .timeNotDly
      else
        let s := setDly prio 0 s
        .ok (osSched { s with osRdy := s.osRdy.insert prio })

/-- One turn of the loop of `OSTimeTick`. -/
def tickTask (prio : Nat) (s : Kernel) : Kernel :=
  match s.osTCBPrioTbl prio with
  | none => s
  | some tcb =>
      if tcb.osTCBDly ≠ 0 then
        let dly := tcb.osTCBDly - 1
        let s := setDly prio dly s
        if dly = 0 then { s with osRdy := s.osRdy.insert prio } else s
      else s

def countTick (s : Kernel) : Kernel := { s with osTime := s.osTime + 1 }

def osTimeTick (s : Kernel) : Kernel :=
  if s.osRunning then
    (s.osTCBList.takeWhile (· ≠ osTaskIdlePrio)).foldl (fun before prio => tickTask prio before)
      (countTick s)
  else countTick s

def osInitRdyList : Kernel where
  osRdy := .empty 8
  osTCBPrioTbl _ := none
  osTCBList := []
  osTCBFree := osTCBTblSize
  osPrioCur := 0
  osPrioHighRdy := 0
  osIntNesting := 0
  osLockNesting := 0
  osCtxSwCtr := 0
  osTime := 0
  osRunning := false

inductive Call
  | osTaskCreateExt (prio : Nat)
  | osStart
  | osIntEnter
  | osIntExit
  | osTimeTick
  | osTimeDly (ticks : BitVec 16)
  | osTimeDlyResume (prio : Nat)
  | osSchedLock
  | osSchedUnlock
  deriving DecidableEq

/-- A call that fails changes nothing. -/
def exec (c : Call) (s : Kernel) : Kernel :=
  match c with
  | .osTaskCreateExt prio => (osTaskCreateExt prio s).toOption.getD s
  | .osStart => osStart s
  | .osIntEnter => osIntEnter s
  | .osIntExit => osIntExit s
  | .osTimeTick => osTimeTick s
  | .osTimeDly ticks => osTimeDly ticks s
  | .osTimeDlyResume prio => (osTimeDlyResume prio s).toOption.getD s
  | .osSchedLock => osSchedLock s
  | .osSchedUnlock => osSchedUnlock s

def osInitTaskIdle : Kernel → Kernel := exec (.osTaskCreateExt osTaskIdlePrio)

def osInitTaskStat : Kernel → Kernel := exec (.osTaskCreateExt osTaskStatPrio)

def osInit : Kernel := osInitTaskStat (osInitTaskIdle osInitRdyList)

/-- Who calls what: a delay is for the task that runs, and `OS_TaskIdle` has none; the tick is
counted by the handler of the timer. -/
def possible (c : Call) (s : Kernel) : Bool :=
  match c with
  | .osTimeDly _ => s.osRunning && s.osPrioCur != osTaskIdlePrio
  | .osTimeTick => !s.osRunning || 0 < s.osIntNesting
  | _ => true

def step (c : Call) (s : Kernel) : Kernel := if possible c s then exec c s else s

def run (calls : Nat → Call) (n : Nat) : Kernel := drive step calls osInit n

/-- The ticks that are left to the task of a priority, if there is one. -/
def delays (s : Kernel) (p : Nat) : Option Nat := (s.osTCBPrioTbl p).map fun tcb => tcb.osTCBDly.toNat

/-- What the tables of the kernel say about the tasks. -/
structure Core (s : Kernel) : Prop where
  ready : ∀ p, p ∈ s.osRdy ↔ delays s p = some 0
  /-- `OSTimeTick` meets every task before the idle task, and each once. -/
  listed : ∃ others, s.osTCBList = others ++ [osTaskIdlePrio] ∧ (others.Nodup ∧ osTaskIdlePrio ∉ others) ∧
    ∀ p, p ∈ others ∨ p = osTaskIdlePrio ↔ (delays s p).isSome
  idle : delays s osTaskIdlePrio = some 0
  small : ∀ p, (delays s p).isSome → p ≤ osLowestPrio

/-- Outside of interrupts and locks, the task that runs is the ready task of the least number. -/
def Scheduled (s : Kernel) : Prop :=
  s.osRunning = true → s.osIntNesting = 0 → s.osLockNesting = 0 →
    IsLeast {p | delays s p = some 0} s.osPrioCur

structure Sound (s : Kernel) : Prop extends Core s where
  current : s.osRunning = true → (delays s s.osPrioCur).isSome
  scheduled : Scheduled s

theorem core_congr {s s' : Kernel} (ready : s'.osRdy = s.osRdy)
    (table : s'.osTCBPrioTbl = s.osTCBPrioTbl) (list : s'.osTCBList = s.osTCBList) (core : Core s) :
    Core s' := by
  have same : delays s' = delays s := by
    unfold delays
    rw [table]
  obtain ⟨members, listed, idle, small⟩ := core
  exact ⟨by rwa [ready, same], by rwa [list, same], by rwa [same], by rwa [same]⟩

section Sched
variable (s : Kernel)

/-- The switch to the task of the lowest number in the ready table. -/
def switched : Kernel :=
  let lowest := s.osRdy.lowest unMap
  { s with
    osPrioCur := lowest
    osPrioHighRdy := lowest
    osCtxSwCtr := if lowest ≠ s.osPrioCur then s.osCtxSwCtr + 1 else s.osCtxSwCtr }

theorem sched_eq :
    osSched s = if s.osIntNesting = 0 ∧ s.osLockNesting = 0 then switched s else s := by
  unfold osSched
  by_cases noInterrupt : s.osIntNesting = 0
  · by_cases unlocked : s.osLockNesting = 0
    · by_cases same : s.osRdy.lowest unMap = s.osPrioCur <;>
        simp [osSchedNew, osCtxSw, switched, noInterrupt, unlocked, same]
    · simp [noInterrupt, unlocked]
  · simp [noInterrupt]

theorem sched_delays : delays (osSched s) = delays s := by
  rw [sched_eq]
  split <;> rfl

end Sched

section Sound
variable {s : Kernel}

theorem lowest_scheduled (core : Core s) :
    IsLeast {p | delays s p = some 0} (s.osRdy.lowest unMap) := by
  have least := Bitmap.lowest_isLeast un_map_lowest ⟨_, (core.ready osTaskIdlePrio).mpr core.idle⟩
  have same : {p | p ∈ s.osRdy} = {p | delays s p = some 0} := Set.ext core.ready
  rwa [same] at least

theorem sched_sound (core : Core s) (current : s.osRunning = true → (delays s s.osPrioCur).isSome) :
    Sound (osSched s) := by
  have least := lowest_scheduled core
  rw [sched_eq]
  split
  · refine ⟨core_congr (s := s) rfl rfl rfl core, fun _ => ?_, fun _ _ _ => least⟩
    change (delays s (s.osRdy.lowest unMap)).isSome
    rw [least.1]
    rfl
  · next busy => exact ⟨core, current, fun _ noInterrupt unlocked => absurd ⟨noInterrupt, unlocked⟩ busy⟩

/-- A change of the ready table and of the delays, which makes or ends no task. -/
theorem core_changed {s' : Kernel} (core : Core s) (list : s'.osTCBList = s.osTCBList)
    (tasks : ∀ q, (delays s' q).isSome = (delays s q).isSome)
    (ready : ∀ q, q ∈ s'.osRdy ↔ delays s' q = some 0) (idle : delays s' osTaskIdlePrio = some 0) :
    Core s' := by
  obtain ⟨others, same, unique, complete⟩ := core.listed
  refine ⟨ready, ⟨others, list.trans same, unique, fun q => ?_⟩, idle, fun q => ?_⟩
  · rw [tasks q]
    exact complete q
  · rw [tasks q]
    exact core.small q

theorem row_inside {p : Nat} (small : p ≤ osLowestPrio) : p / 8 < 8 := by
  unfold osLowestPrio at small
  omega

theorem delays_set (p : Nat) (ticks : BitVec 16) (q : Nat) :
    delays (setDly p ticks s) q =
      if q = p then (delays s p).map fun _ => ticks.toNat else delays s q := by
  simp only [delays, setDly, Function.update_apply]
  split
  · cases s.osTCBPrioTbl p <;> rfl
  · rfl

/-- The end of a delay. -/
def wake (p : Nat) (s : Kernel) : Kernel := { setDly p 0 s with osRdy := s.osRdy.insert p }

theorem delays_wake {p : Nat} (task : (delays s p).isSome) (q : Nat) :
    delays (wake p s) q = if q = p then some 0 else delays s q := by
  obtain ⟨left, same⟩ := Option.isSome_iff_exists.mp task
  change delays (setDly p 0 s) q = _
  rw [delays_set, same]
  rfl

theorem wake_core {p : Nat} (task : (delays s p).isSome) (core : Core s) : Core (wake p s) := by
  refine core_changed core rfl (fun q => ?_) (fun q => ?_) ?_
  · rw [delays_wake task]
    split
    · next same => rw [same, task]; rfl
    · rfl
  · change q ∈ s.osRdy.insert p ↔ _
    rw [Bitmap.mem_insert (row_inside (core.small p task)), core.ready, delays_wake task]
    split <;> simp_all
  · rw [delays_wake task, core.idle, ite_self]

theorem delay_core {p : Nat} {ticks : BitVec 16} (some : ticks > 0) (task : (delays s p).isSome)
    (busy : p ≠ osTaskIdlePrio) (core : Core s) :
    Core (setDly p ticks { s with osRdy := s.osRdy.remove p }) := by
  have set (q : Nat) : delays (setDly p ticks { s with osRdy := s.osRdy.remove p }) q =
      if q = p then (delays s p).map fun _ => ticks.toNat else delays s q := delays_set p ticks q
  refine core_changed core rfl (fun q => ?_) (fun q => ?_) ?_
  · rw [set]
    split
    · next same => rw [same, Option.isSome_map]
    · rfl
  · change q ∈ s.osRdy.remove p ↔ _
    rw [Bitmap.mem_remove, core.ready, set]
    split
    · next same =>
      have positive : ticks.toNat ≠ 0 := Nat.ne_of_gt some
      obtain ⟨left, found⟩ := Option.isSome_iff_exists.mp task
      simp [same, found, positive]
    · next other => simp [other]
  · rw [set, if_neg (Ne.symm busy)]
    exact core.idle

/-! The tick. -/
theorem tick_task_eq {p : Nat} {tcb : Tcb} (found : s.osTCBPrioTbl p = some tcb) : tickTask p s =
    if tcb.osTCBDly = 0 then s
    else if tcb.osTCBDly - 1 = 0 then wake p s else setDly p (tcb.osTCBDly - 1) s := by
  simp only [tickTask, found, ne_eq, ite_not]
  split_ifs with ended last
  · rfl
  · simp only [last]
    rfl
  · rfl

theorem still_core {p left : Nat} {ticks : BitVec 16} (before : delays s p = some (left + 1))
    (after : ticks ≠ 0) (core : Core s) : Core (setDly p ticks s) := by
  have positive : ticks.toNat ≠ 0 := fun zero => after (BitVec.eq_of_toNat_eq zero)
  refine core_changed core rfl (fun q => ?_) (fun q => ?_) ?_
  · rw [delays_set]
    split
    · next same => rw [same, Option.isSome_map]
    · rfl
  · rw [show (setDly p ticks s).osRdy = s.osRdy from rfl, core.ready, delays_set]
    split
    · next same => simp [same, before, positive]
    · rfl
  · have busy : osTaskIdlePrio ≠ p := by
      rintro rfl
      rw [core.idle, Option.some.injEq] at before
      exact Nat.succ_ne_zero left before.symm
    rw [delays_set, if_neg busy]
    exact core.idle

theorem tick_task (p : Nat) (core : Core s) :
    Core (tickTask p s) ∧ ∀ q, delays (tickTask p s) q =
      if q = p then (delays s q).map (· - 1) else delays s q := by
  cases found : s.osTCBPrioTbl p with
  | none =>
      have absent : delays s p = none := by rw [delays, found]; rfl
      simp only [tickTask, found]
      refine ⟨core, fun q => ?_⟩
      split
      · next same => rw [same, absent]; rfl
      · rfl
  | some tcb =>
      have left : delays s p = some tcb.osTCBDly.toNat := by rw [delays, found]; rfl
      rw [tick_task_eq found]
      split_ifs with ready last
      · rw [ready] at left
        refine ⟨core, fun q => ?_⟩
        split
        · next same => rw [same, left]; rfl
        · rfl
      · have one : tcb.osTCBDly.toNat = 1 := by bv_omega
        rw [one] at left
        refine ⟨wake_core (by rw [left]; rfl) core, fun q => ?_⟩
        rw [delays_wake (by rw [left]; rfl)]
        split
        · next same => rw [same, left]; rfl
        · rfl
      · have fewer : (tcb.osTCBDly - 1).toNat = tcb.osTCBDly.toNat - 1 := by bv_omega
        have some : tcb.osTCBDly.toNat = (tcb.osTCBDly.toNat - 1) + 1 := by bv_omega
        refine ⟨still_core (some ▸ left) last core, fun q => ?_⟩
        rw [delays_set, left, fewer]
        split
        · next same => rw [same, left]; rfl
        · rfl

/-- A tick changes the ready table and the delays only. -/
def TablesOf (s s' : Kernel) : Prop :=
  ∃ ready table, s' = { s with osRdy := ready, osTCBPrioTbl := table }

theorem tick_task_tables (p : Nat) (s : Kernel) : TablesOf s (tickTask p s) := by
  cases found : s.osTCBPrioTbl p with
  | none => exact ⟨s.osRdy, s.osTCBPrioTbl, by simp only [tickTask, found]⟩
  | some tcb =>
      rw [tick_task_eq found]
      split_ifs <;> exact ⟨_, _, rfl⟩

theorem tick_loop (tasks : List Nat) (unique : tasks.Nodup) (core : Core s) :
    Core (tasks.foldl (fun before p => tickTask p before) s) ∧
      TablesOf s (tasks.foldl (fun before p => tickTask p before) s) ∧
      ∀ q, delays (tasks.foldl (fun before p => tickTask p before) s) q =
        if q ∈ tasks then (delays s q).map (· - 1) else delays s q := by
  induction tasks generalizing s with
  | nil => exact ⟨core, ⟨s.osRdy, s.osTCBPrioTbl, rfl⟩, fun q => rfl⟩
  | cons p rest ih =>
      obtain ⟨once, others⟩ := List.nodup_cons.mp unique
      obtain ⟨after, ticked⟩ := tick_task p core
      obtain ⟨ready, table, first⟩ := tick_task_tables p s
      obtain ⟨final, ⟨ready', table', then_⟩, left⟩ := ih others after
      refine ⟨final, ⟨ready', table', ?_⟩, fun q => ?_⟩
      · rw [List.foldl_cons, then_, first]
      · rw [List.foldl_cons, left, ticked]
        by_cases same : q = p
        · subst same
          simp [once]
        · simp [same]

theorem time_tick (running : s.osRunning = true) (core : Core s) : Core (osTimeTick s) ∧
    TablesOf (countTick s) (osTimeTick s) ∧
    ∀ q, delays (osTimeTick s) q = (delays s q).map (· - 1) := by
  have counted : Core (countTick s) := core_congr (s := s) rfl rfl rfl core
  obtain ⟨others, list, ⟨unique, apart⟩, complete⟩ := core.listed
  have visited : s.osTCBList.takeWhile (· ≠ osTaskIdlePrio) = others := by
    rw [list, List.takeWhile_append_of_pos]
    · simp
    · intro p member
      exact decide_eq_true fun same => apart (same ▸ member)
  obtain ⟨final, tables, ticked⟩ := tick_loop others unique counted
  unfold osTimeTick
  rw [if_pos running, visited]
  refine ⟨final, tables, fun q => ?_⟩
  rw [ticked]
  change (if q ∈ others then (delays s q).map (· - 1) else delays s q) = _
  split
  · rfl
  · next elsewhere =>
    by_cases idle : q = osTaskIdlePrio
    · rw [idle, core.idle]
      rfl
    · have absent : delays s q = none :=
        Option.not_isSome_iff_eq_none.mp fun task => ((complete q).mpr task).elim elsewhere idle
      rw [absent]
      rfl

theorem tick_sound (interrupt : s.osRunning = true → 0 < s.osIntNesting) (sound : Sound s) :
    Sound (osTimeTick s) := by
  by_cases running : s.osRunning = true
  · obtain ⟨final, ⟨ready, table, same⟩, ticked⟩ := time_tick running sound.toCore
    have nested := interrupt running
    refine ⟨final, fun _ => ?_, fun _ noInterrupt => ?_⟩
    · rw [ticked, Option.isSome_map, same]
      exact sound.current running
    · rw [same] at noInterrupt
      exact absurd noInterrupt (Nat.ne_of_gt nested)
  · have same : osTimeTick s = countTick s := if_neg running
    rw [same]
    exact ⟨core_congr (s := s) rfl rfl rfl sound.toCore, fun now => absurd now running,
      fun now => absurd now running⟩

theorem enter_sound (sound : Sound s) : Sound (osIntEnter s) := by
  unfold osIntEnter
  split_ifs
  · exact ⟨core_congr (s := s) rfl rfl rfl sound.toCore, sound.current,
      fun _ noInterrupt => absurd noInterrupt (Nat.succ_ne_zero _)⟩
  · exact sound
  · exact sound

theorem exit_sound (sound : Sound s) : Sound (osIntExit s) := by
  unfold osIntExit
  split_ifs
  · exact sched_sound (core_congr (s := s) rfl rfl rfl sound.toCore) sound.current
  · exact sched_sound sound.toCore sound.current
  · exact sound

theorem lock_sound (sound : Sound s) : Sound (osSchedLock s) := by
  unfold osSchedLock
  split_ifs
  · exact ⟨core_congr (s := s) rfl rfl rfl sound.toCore, sound.current,
      fun _ _ unlocked => absurd unlocked (Nat.succ_ne_zero _)⟩
  all_goals exact sound

theorem unlock_sound (sound : Sound s) : Sound (osSchedUnlock s) := by
  have core : Core { s with osLockNesting := s.osLockNesting - 1 } :=
    core_congr (s := s) rfl rfl rfl sound.toCore
  unfold osSchedUnlock
  dsimp only
  split_ifs with _ _ last noInterrupt
  · exact sched_sound core sound.current
  · exact ⟨core, sound.current, fun _ none => absurd none noInterrupt⟩
  · exact ⟨core, sound.current, fun _ _ unlocked => absurd unlocked last⟩
  · exact sound
  · exact sound

theorem start_sound (sound : Sound s) : Sound (osStart s) := by
  have least := lowest_scheduled sound.toCore
  unfold osStart
  split_ifs
  · refine ⟨core_congr (s := s) rfl rfl rfl sound.toCore, fun _ => ?_, fun _ _ _ => least⟩
    change (delays s (s.osRdy.lowest unMap)).isSome
    rw [least.1]
    rfl
  · exact sound

theorem delay_sound {ticks : BitVec 16} (allowed : s.osRunning = true ∧ s.osPrioCur ≠ osTaskIdlePrio)
    (sound : Sound s) : Sound (osTimeDly ticks s) := by
  have task := sound.current allowed.1
  unfold osTimeDly
  split_ifs with _ some
  · exact sound
  · refine sched_sound (delay_core some task allowed.2 sound.toCore) fun _ => ?_
    have set := @delays_set { s with osRdy := s.osRdy.remove s.osPrioCur } s.osPrioCur ticks s.osPrioCur
    rw [if_pos rfl] at set
    change (delays (setDly s.osPrioCur ticks { s with osRdy := s.osRdy.remove s.osPrioCur })
      s.osPrioCur).isSome
    rw [set, Option.isSome_map]
    exact task
  · exact sound

theorem resume_sound (prio : Nat) (sound : Sound s) :
    Sound ((osTimeDlyResume prio s).toOption.getD s) := by
  unfold osTimeDlyResume
  split
  · exact sound
  · split
    · exact sound
    · next tcb found =>
      split
      · exact sound
      · have task : (delays s prio).isSome := by
          rw [delays, found]
          rfl
        refine sched_sound (s := wake prio s) (wake_core task sound.toCore) fun running => ?_
        rw [delays_wake task]
        split
        · rfl
        · exact sound.current running

theorem create_core {prio : Nat} (small : prio ≤ osLowestPrio) (absent : delays s prio = none)
    (core : Core s) {s' : Kernel} (ready : s'.osRdy = s.osRdy.insert prio)
    (table : s'.osTCBPrioTbl = Function.update s.osTCBPrioTbl prio (some ⟨0⟩))
    (list : s'.osTCBList = prio :: s.osTCBList) :
    Core s' ∧ ∀ q, delays s' q = if q = prio then some 0 else delays s q := by
  have after (q : Nat) : delays s' q = if q = prio then some 0 else delays s q := by
    simp only [delays, table, Function.update_apply]
    split <;> rfl
  have other : osTaskIdlePrio ≠ prio := by
    rintro rfl
    rw [core.idle] at absent
    contradiction
  obtain ⟨others, same, ⟨unique, apart⟩, complete⟩ := core.listed
  have fresh : prio ∉ others := fun member => by
    have task := (complete prio).mp (.inl member)
    rw [absent] at task
    contradiction
  refine ⟨⟨fun q => ?_, ⟨prio :: others, by rw [list, same]; rfl, ⟨List.nodup_cons.mpr ⟨fresh, unique⟩, ?_⟩,
    fun q => ?_⟩, ?_, fun q task => ?_⟩, after⟩
  · rw [ready, Bitmap.mem_insert (row_inside small), core.ready, after]
    split <;> simp_all
  · simpa [apart] using other
  · rw [after, List.mem_cons, or_assoc, complete]
    split <;> simp_all
  · rw [after, if_neg other]
    exact core.idle
  · rw [after] at task
    split at task
    · next here => rw [here]; exact small
    · exact core.small q task

theorem create_sound (prio : Nat) (sound : Sound s) :
    Sound ((osTaskCreateExt prio s).toOption.getD s) := by
  unfold osTaskCreateExt osTCBInit
  split_ifs with large interrupt free none
  · exact sound
  · exact sound
  · exact sound
  · have absent : delays s prio = .none := by
      rw [delays, Option.isNone_iff_eq_none.mp free]
      rfl
    obtain ⟨core, after⟩ := @create_core s prio (by omega) absent sound.toCore
      { s with
        osTCBFree := s.osTCBFree - 1
        osTCBPrioTbl := Function.update s.osTCBPrioTbl prio (some ⟨0⟩)
        osTCBList := prio :: s.osTCBList
        osRdy := s.osRdy.insert prio } rfl rfl rfl
    change Sound (if s.osRunning = true then osSched _ else _)
    have current (running : s.osRunning = true) :
        (if s.osPrioCur = prio then some 0 else delays s s.osPrioCur).isSome := by
      split
      · rfl
      · exact sound.current running
    split
    · next running =>
      refine sched_sound core fun _ => ?_
      rw [after]
      exact current running
    · next stopped => exact ⟨core, fun now => absurd now stopped, fun now => absurd now stopped⟩
  · exact sound

theorem possible_tick :
    possible .osTimeTick s = true ↔ (s.osRunning = true → 0 < s.osIntNesting) := by
  change (!s.osRunning || decide (0 < s.osIntNesting)) = true ↔ _
  cases s.osRunning <;> simp

theorem possible_delay {ticks : BitVec 16} : possible (.osTimeDly ticks) s = true ↔
    s.osRunning = true ∧ s.osPrioCur ≠ osTaskIdlePrio := by
  change (s.osRunning && s.osPrioCur != osTaskIdlePrio) = true ↔ _
  rw [Bool.and_eq_true_iff, bne_iff_ne]

theorem exec_sound {c : Call} (allowed : possible c s = true) (sound : Sound s) : Sound (exec c s) := by
  cases c with
  | osTaskCreateExt prio => exact create_sound prio sound
  | osStart => exact start_sound sound
  | osIntEnter => exact enter_sound sound
  | osIntExit => exact exit_sound sound
  | osTimeTick => exact tick_sound (possible_tick.mp allowed) sound
  | osTimeDly ticks => exact delay_sound (possible_delay.mp allowed) sound
  | osTimeDlyResume prio => exact resume_sound prio sound
  | osSchedLock => exact lock_sound sound
  | osSchedUnlock => exact unlock_sound sound

theorem step_sound (c : Call) (sound : Sound s) : Sound (step c s) := by
  unfold step
  split
  · next allowed => exact exec_sound allowed sound
  · exact sound

theorem init_delays (q : Nat) : delays osInit q =
    if q = osTaskStatPrio ∨ q = osTaskIdlePrio then some 0 else none := by
  have table : osInit.osTCBPrioTbl = Function.update
      (Function.update (fun _ => none) osTaskIdlePrio (some ⟨0⟩)) osTaskStatPrio (some ⟨0⟩) := rfl
  simp only [delays, table, Function.update_apply]
  split_ifs <;> simp_all

theorem init_sound : Sound osInit := by
  constructor
  case toCore =>
    constructor
    case ready =>
      intro q
      change q ∈ ((Bitmap.empty 8).insert osTaskIdlePrio).insert osTaskStatPrio ↔ _
      rw [Bitmap.mem_insert (by decide), Bitmap.mem_insert (by decide), init_delays]
      split <;> simp_all [Bitmap.not_mem_empty]
    case listed =>
      refine ⟨[osTaskStatPrio], rfl, by decide, fun q => ?_⟩
      rw [init_delays, List.mem_singleton]
      split <;> simp_all
    case idle => rfl
    case small =>
      intro q task
      rw [init_delays] at task
      split at task
      · unfold osTaskIdlePrio osTaskStatPrio at *
        omega
      · contradiction
  case current => exact fun running => absurd running (by decide)
  case scheduled => exact fun running => absurd running (by decide)

theorem run_sound (calls : Nat → Call) (n : Nat) : Sound (run calls n) := by
  induction n with
  | zero => exact init_sound
  | succ n ih => exact step_sound (calls n) ih

end Sound

/-- In every run, whenever no interrupt is served and the scheduler is not locked, the task that
runs is the ready task of the highest priority. -/
theorem highest_runs (calls : Nat → Call) (n : Nat) : Scheduled (run calls n) :=
  (run_sound calls n).scheduled

end Cpen311.OsCore
