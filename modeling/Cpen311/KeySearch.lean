import Cpen311.AttemptRun

/-! The whole search of `task2_fsm` from power-up. Attempts are numbered by the
visits of `write_mem` with `counter_i = 0`, and attempt `n` tries key `n`. -/
namespace Cpen311.KeySearch
open ClockedRun SyncMemory Task2Fsm Rc4 KeyAttempt AttemptRun

/-- All 32 decrypted bytes pass the test of `check_kloop`. -/
def Good (ct : BitVec 5 → Byte) (secret : BitVec 24) : Prop :=
  ∀ k < 32, accepted (decrypted ct secret k) = true

def LeastGood (ct : BitVec 5 → Byte) (secret : BitVec 24) : Prop :=
  Good ct secret ∧ ∀ smaller < secret, ¬ Good ct smaller

/-! The search only stops in `done_swap2`, in `bad_message` and in what follows it. -/
def Stopped (m : Machine) : Prop :=
  AtState .doneSwap2 m ∨ AtState .badMessage m ∨ m.state = none

theorem done_clock (m : Machine) (here : AtState .doneSwap2 m) : AtState .doneSwap2 (clock m) := by
  rw [clock_at here]
  rfl

theorem stopped_preserved (before after : Machine) (taken : Clocks before after)
    (stopped : Stopped before) : Stopped after := by
  cases taken
  rcases stopped with done | exhausted
  · exact Or.inl (done_clock before done)
  · exact Or.inr (exhausted_preserved before _ rfl exhausted)

theorem stopped_not_start {m : Machine} (stopped : Stopped m) : ¬ AttemptStart m := by
  intro start
  rcases stopped with here | here | lost
  · cases at_unique here start.1
  · cases at_unique here start.1
  · rw [AttemptStart, lost] at start
    cases start.1

theorem running_silent (m : Machine) (running : ¬ Stopped m) :
    (clock m).crackSuccess = m.crackSuccess := by
  have notDone : m.state ≠ some 0b100011000000000000 := fun here => running (Or.inl here)
  have notBad : m.state ≠ some 0b100011100000000000 := fun here => running (Or.inr (Or.inl here))
  simp only [clock]
  rw [if_neg notDone, if_neg notBad]

/-- One edge leaves `secret` alone or, at a failed verdict, adds one without overflow. -/
theorem secret_step (m : Machine) :
    (clock m).secret = m.secret ∨ (clock m).secret.toNat = m.secret.toNat + 1 := by
  cases item : m.state.bind decode with
  | none => exact Or.inl (by simp [clock, item])
  | some q =>
      have kept : (clock m).secret = (behaviour m q).secret := by simp [clock, item]
      rw [kept]
      cases q
      case checkKloop =>
        simp only [behaviour]
        split
        · split
          · right
            bv_omega
          · exact Or.inl rfl
        · exact Or.inl rfl
      case checkDone | counterInc =>
        simp only [behaviour]
        split <;> exact Or.inl rfl
      all_goals exact Or.inl rfl

/-! The output memory is written at `check_kloop` only, at the address that
`i_inc` copied from a `counter_k` below 32. -/
def StoreBound : State → Machine → Prop
  | .iInc, m => m.wrenD = false ∧ m.counterK ≤ 31
  | .wait0s, m | .jUpdate, m | .wait1s, m | .storeI2, m | .wait2s, m | .storeJ2, m | .writeJ2, m
  | .wait3s, m | .writeI2, m | .wait4s, m | .fLogicI, m | .wait5s, m | .fLogicJ, m | .wait6s, m
  | .fLogicSum, m | .wait7s, m | .decryptState, m => m.wrenD = false ∧ m.addressOut ≤ 31
  | .checkKloop, m => m.addressOut ≤ 31
  | _, m => m.wrenD = false

/-- The state register holds a declared encoding whose store bound holds, or it
was lost after `bad_message`. -/
def Bounded (m : Machine) : Prop :=
  (∃ q, AtState q m ∧ StoreBound q m) ∨ m.state = none ∧ m.wrenD = false

theorem bounded_preserved (before after : Machine) (taken : Clocks before after)
    (bounded : Bounded before) : Bounded after := by
  cases taken
  rcases bounded with ⟨q, here, bound⟩ | ⟨lost, idleD⟩
  · rw [clock_at here]
    cases q
    case badMessage => exact Or.inr ⟨rfl, bound⟩
    case checkDone | counterInc | startSwap =>
      refine Or.inl ?_
      simp only [edge, behaviour, controller]
      split <;> exact ⟨_, rfl, bound⟩
    case checkKloop =>
      refine Or.inl ?_
      simp only [edge, behaviour, controller]
      by_cases good : accepted before.dataDecrypted = true
      · by_cases room : before.counterK ≤ 31
        · simp only [good, room, if_true, Bool.not_true, Bool.false_eq_true, if_false]
          exact ⟨.iInc, rfl, rfl, room⟩
        · simp only [good, room, if_true, Bool.not_true, Bool.false_eq_true, if_false]
          exact ⟨.doneSwap2, rfl, rfl⟩
      · by_cases last : before.secret = 16777215
        · simp only [good, last, Bool.false_eq_true, if_false, Bool.not_false, if_true, ne_eq,
            not_true_eq_false]
          exact ⟨.badMessage, rfl, rfl⟩
        · simp only [good, last, Bool.false_eq_true, if_false, Bool.not_false, if_true, ne_eq,
            not_false_eq_true]
          exact ⟨.writeMem, rfl, rfl⟩
    case startSwap2 => exact Or.inl ⟨.iInc, rfl, rfl, (by decide : (0 : Byte) ≤ 31)⟩
    case decryptState => exact Or.inl ⟨.checkKloop, rfl, bound.2⟩
    all_goals exact Or.inl ⟨_, rfl, bound⟩
  · exact Or.inr ⟨(undeclared_clock before lost).1, by simp [clock, lost, idleD]⟩

theorem bounded_store {m : Machine} (bounded : Bounded m) (writing : m.wrenD = true) :
    m.addressOut ≤ 31 := by
  rcases bounded with ⟨q, -, bound⟩ | ⟨-, idleD⟩
  · cases q
    case checkKloop => exact bound
    all_goals simp_all [StoreBound]
  · rw [writing] at idleD
    cases idleD

/-- The attempt that starts at `a` makes its last verdict at `v`. -/
structure Ends (run : Nat → Machine) (secret : BitVec 24) (a v : Nat) : Prop where
  later : a < v
  underway : ∀ t, a < t → t ≤ v → Underway secret (run t)
  verdict : AtState .checkKloop (run v)

section Outcomes
variable {run : Nat → Machine} (isRun : IsRun Clocks run)
  {secret : BitVec 24} {ct : BitVec 5 → Byte}
include isRun

theorem ends_at_verdict {a k : Nat} (start : AttemptStart (run a))
    (attempt : Attempt secret ct (run a)) (inside : k < 32)
    (good : ∀ i < k, accepted (decrypted ct secret i) = true) :
    Verdict secret ct k (run (a + verdictTime k)) ∧ Ends run secret a (a + verdictTime k) := by
  obtain ⟨verdict, -, underway⟩ :=
    attempt_verdict (shifted_is_run isRun a) start attempt k inside good
  refine ⟨verdict, by simp only [verdictTime]; omega, fun t began early => ?_, verdict.state⟩
  have inner := underway (t - a) (by omega) (by omega)
  have time : a + (t - a) = t := by omega
  rwa [time] at inner

theorem good_attempt {a : Nat} (start : AttemptStart (run a))
    (attempt : Attempt secret ct (run a)) (good : Good ct secret) :
    ∃ v, Ends run secret a v ∧ Cracked secret ct (run (v + 1)) := by
  obtain ⟨verdict, ends⟩ := ends_at_verdict isRun start attempt (k := 31) (by omega)
    (fun i early => good i (by omega))
  refine ⟨_, ends, ?_⟩
  rw [run_succ isRun]
  exact verdict_cracks verdict (good 31 (by omega))

/-- An attempt with a bad key stops at the first rejected byte. -/
theorem bad_attempt {a : Nat} (start : AttemptStart (run a))
    (attempt : Attempt secret ct (run a)) (bad : ¬ Good ct secret) :
    ∃ v, Ends run secret a v ∧
      (secret ≠ 16777215 → AttemptStart (run (v + 1)) ∧ Attempt (secret + 1) ct (run (v + 1))) ∧
      (secret = 16777215 →
        AtState .badMessage (run (v + 1)) ∧ (run (v + 1)).secret = secret) := by
  classical
  have rejected : ∃ k, k < 32 ∧ accepted (decrypted ct secret k) = false := by
    by_contra none
    apply bad
    intro k inside
    by_contra rejects
    exact none ⟨k, inside, by simpa using rejects⟩
  obtain ⟨inside, rejects⟩ := Nat.find_spec rejected
  have earlier (i : Nat) (early : i < Nat.find rejected) : accepted (decrypted ct secret i) = true := by
    have fine := Nat.find_min rejected early
    simp only [not_and, Bool.not_eq_false] at fine
    exact fine (by omega)
  obtain ⟨verdict, ends⟩ := ends_at_verdict isRun start attempt inside earlier
  refine ⟨_, ends, ?_, ?_⟩
  · intro more
    rw [run_succ isRun]
    exact verdict_rejects verdict rejects more
  · intro last
    rw [run_succ isRun]
    exact verdict_exhausts verdict rejects last

theorem stopped_after {v : Nat} (stopped : Stopped (run (v + 1))) (t : Nat) (later : v < t) :
    Stopped (run t) :=
  invariant_from isRun stopped_preserved stopped (Nat.succ_le_of_lt later)

/-- Before the last verdict the search was never stopped. -/
theorem running_before {v : Nat} (verdict : AtState .checkKloop (run v)) (t : Nat) (early : t ≤ v) :
    ¬ Stopped (run t) := by
  intro stopped
  rcases invariant_from isRun stopped_preserved stopped early with here | here | lost
  · cases at_unique here verdict
  · cases at_unique here verdict
  · rw [AtState, lost] at verdict
    cases verdict

theorem silent_before {v : Nat} (verdict : AtState .checkKloop (run v)) (t : Nat)
    (early : t ≤ v + 1) : (run t).crackSuccess = (run 0).crackSuccess := by
  induction t with
  | zero => rfl
  | succ t ih =>
      rw [run_succ isRun, running_silent _ (running_before isRun verdict t (by omega))]
      exact ih (by omega)

theorem last_attempt {a v : Nat} (ends : Ends run secret a v) (stopped : Stopped (run (v + 1)))
    (t : Nat) (start : AttemptStart (run t)) : t ≤ a := by
  by_contra late
  by_cases early : t ≤ v
  · exact (ends.underway t (by omega) early).2 start
  · exact stopped_not_start (stopped_after isRun stopped t (by omega)) start

end Outcomes

/-! Attempt `n` tries key `n`, as long as all smaller keys are bad. -/
section Course
variable {run : Nat → Machine} (isRun : IsRun Clocks run) {ct : BitVec 5 → Byte}
  (start : AttemptStart (run 0)) (first : Attempt 0 ct (run 0))
include isRun start first

theorem attempt_number (n : Nat) (inside : n < 2 ^ 24)
    (bad : ∀ j < n, ¬ Good ct (BitVec.ofNat 24 j)) :
    ∃ a, VisitAt AttemptStart run n a ∧ Attempt (BitVec.ofNat 24 n) ct (run a) := by
  induction n with
  | zero => exact ⟨0, first_visit _ _ (fun m absurd => by omega) start, first⟩
  | succ n ih =>
      obtain ⟨a, visit, attempt⟩ := ih (by omega) (fun j early => bad j (by omega))
      -- key `n` is bad, so its attempt ends in the start of the next one
      obtain ⟨v, ends, next, -⟩ := bad_attempt isRun visit.1 attempt (bad n (by omega))
      obtain ⟨restart, nextAttempt⟩ := next (by bv_omega)
      obtain ⟨length, rfl⟩ := Nat.exists_eq_add_of_le ends.later
      have successor : BitVec.ofNat 24 n + 1 = BitVec.ofNat 24 (n + 1) := (BitVec.ofNat_add ..).symm
      rw [successor] at nextAttempt
      refine ⟨a + 1 + (length + 1), next_visit _ _ visit (fun m early => ?_) restart, nextAttempt⟩
      exact (ends.underway (a + 1 + m) (by omega) (by simp only [Nat.succ_eq_add_one]; omega)).2

end Course

/-- The search makes attempts `0..n` and stops after the verdict at `v`. -/
structure Concluded (run : Nat → Machine) (ct : BitVec 5 → Byte) (n a v : Nat) : Prop where
  inside : n < 2 ^ 24
  smaller : ∀ j < n, ¬ Good ct (BitVec.ofNat 24 j)
  visit : VisitAt AttemptStart run n a
  ends : Ends run (BitVec.ofNat 24 n) a v
  stopped : Stopped (run (v + 1))

section Conclusion
variable {run : Nat → Machine} (isRun : IsRun Clocks run) {ct : BitVec 5 → Byte}
  (start : AttemptStart (run 0)) (first : Attempt 0 ct (run 0))
include isRun start first

/-- The search ends at the first good key, or after the last key. -/
theorem search_concludes : ∃ n a v, Concluded run ct n a v ∧
    (Good ct (BitVec.ofNat 24 n) ∧ Cracked (BitVec.ofNat 24 n) ct (run (v + 1)) ∨
      ¬ Good ct (BitVec.ofNat 24 n) ∧ n = 2 ^ 24 - 1 ∧ AtState .badMessage (run (v + 1)) ∧
        (run (v + 1)).secret = 16777215) := by
  classical
  by_cases someGood : ∃ n, n < 2 ^ 24 ∧ Good ct (BitVec.ofNat 24 n)
  · obtain ⟨inside, good⟩ := Nat.find_spec someGood
    have smaller (j : Nat) (early : j < Nat.find someGood) : ¬ Good ct (BitVec.ofNat 24 j) :=
      fun earlier => Nat.find_min someGood early ⟨by omega, earlier⟩
    obtain ⟨a, visit, attempt⟩ := attempt_number isRun start first _ inside smaller
    obtain ⟨v, ends, cracked⟩ := good_attempt isRun visit.1 attempt good
    exact ⟨_, a, v, ⟨inside, smaller, visit, ends, Or.inl cracked.state⟩, Or.inl ⟨good, cracked⟩⟩
  · have bad (j : Nat) (inside : j < 2 ^ 24) : ¬ Good ct (BitVec.ofNat 24 j) :=
      fun good => someGood ⟨j, inside, good⟩
    obtain ⟨a, visit, attempt⟩ := attempt_number isRun start first (2 ^ 24 - 1) (by omega)
      (fun j early => bad j (by omega))
    obtain ⟨v, ends, -, exhausted⟩ := bad_attempt isRun visit.1 attempt (bad _ (by omega))
    obtain ⟨here, key⟩ := exhausted rfl
    exact ⟨_, a, v, ⟨by omega, fun j early => bad j (by omega), visit, ends, Or.inr (Or.inl here)⟩,
      Or.inr ⟨bad _ (by omega), rfl, here, key⟩⟩

section Attempts
variable {n a v : Nat} (concluded : Concluded run ct n a v)
include concluded

theorem attempt_tried (j : Nat) (early : j ≤ n) :
    ∃ t < v + 1, VisitAt AttemptStart run j t ∧ (run t).secret = BitVec.ofNat 24 j := by
  obtain ⟨t, visit, attempt⟩ := attempt_number isRun start first j
    (by have := concluded.inside; omega) (fun i before => concluded.smaller i (by omega))
  have bound := last_attempt isRun concluded.ends concluded.stopped t visit.1
  have later := concluded.ends.later
  exact ⟨t, by omega, visit, attempt.key⟩

theorem attempt_key (k t : Nat) (visit : VisitAt AttemptStart run k t) :
    k ≤ n ∧ t < v + 1 ∧ (run t).secret = BitVec.ofNat 24 k := by
  have bound := last_attempt isRun concluded.ends concluded.stopped t visit.1
  have index := visit_index_le _ _ visit concluded.visit bound
  obtain ⟨s, inTime, expected, key⟩ := attempt_tried isRun start first concluded k index
  cases visit_unique _ _ visit expected
  exact ⟨index, inTime, key⟩

end Attempts

end Conclusion

/-- The search has found `secret` when it first reaches `done_swap2` at `time`. -/
structure Found (run : Nat → Machine) (ct : BitVec 5 → Byte) (secret : BitVec 24) (time : Nat) :
    Prop where
  tried : ∀ smaller ≤ secret, ∃ t < time, VisitAt AttemptStart run smaller.toNat t
  onlyTried : ∀ t, AttemptStart (run t) → t < time ∧ (run t).secret ≤ secret
  arrives : ∀ t < time, ¬ AtState .doneSwap2 (run t)
  stays : ∀ t, time ≤ t → AtState .doneSwap2 (run t) ∧ (run t).secret = secret ∧
    ∀ k < 32, (run t).decryptedOutputRam.content (BitVec.ofNat 8 k) = decrypted ct secret k
  silent : ∀ t ≤ time, (run t).crackSuccess = 0b00
  success : ∀ t, time < t → (run t).crackSuccess = 0b01

/-- The search has failed when it reaches `bad_message` at `time`. -/
structure Failed (run : Nat → Machine) (time : Nat) : Prop where
  tried : ∀ secret : BitVec 24, ∃ t < time, VisitAt AttemptStart run secret.toNat t
  onlyTried : ∀ t, AttemptStart (run t) → t < time
  arrives : AtState .badMessage (run time)
  neverDone : ∀ t, ¬ AtState .doneSwap2 (run t)
  key : ∀ t, time ≤ t → (run t).secret = 16777215
  silent : ∀ t ≤ time, (run t).crackSuccess = 0b00
  failure : ∀ t, time < t → (run t).crackSuccess = 0b10

/-- The state register lost after the last key, with the failure reported. -/
def Lost (m : Machine) : Prop :=
  m.state = none ∧ m.secret = 16777215 ∧ m.crackSuccess = 0b10

section Results
variable {run : Nat → Machine} (isRun : IsRun Clocks run) {ct : BitVec 5 → Byte}
  (start : AttemptStart (run 0)) (first : Attempt 0 ct (run 0))
include isRun

theorem cracked_stays {secret : BitVec 24} {time : Nat} (cracked : Cracked secret ct (run time))
    (t : Nat) (later : time ≤ t) : Cracked secret ct (run t) :=
  invariant_from isRun (fun before _ taken inv => taken ▸ (cracked_clock before inv).1)
    cracked later

/-- Past `bad_message` the key and the failure report stay. -/
theorem exhausted_stays {time : Nat} (here : AtState .badMessage (run time))
    (key : (run time).secret = 16777215) (t : Nat) (later : time < t) : Lost (run t) := by
  have next := bad_message_clock _ here
  rw [← run_succ isRun, key] at next
  refine invariant_from isRun ?_ next (Nat.succ_le_of_lt later)
  rintro before _ rfl ⟨lost, same, report⟩
  obtain ⟨stillLost, stillSame, stillReport⟩ := undeclared_clock before lost
  exact ⟨stillLost, stillSame.trans same, stillReport.trans report⟩

variable (reset : (run 0).crackSuccess = 0b00)
include start first reset

theorem found_at_end {n a v : Nat} (concluded : Concluded run ct n a v)
    (cracked : Cracked (BitVec.ofNat 24 n) ct (run (v + 1))) :
    Found run ct (BitVec.ofNat 24 n) (v + 1) := by
  have inside := concluded.inside
  refine ⟨?_, ?_, ?_, ?_, ?_, ?_⟩
  · intro smaller order
    obtain ⟨t, inTime, visit, -⟩ := attempt_tried isRun start first concluded smaller.toNat
      (by bv_omega)
    exact ⟨t, inTime, visit⟩
  · intro t restart
    obtain ⟨index, inTime, key⟩ := attempt_key isRun start first concluded _ t ⟨restart, rfl⟩
    refine ⟨inTime, ?_⟩
    rw [key]
    bv_omega
  · intro t early done
    exact running_before isRun concluded.ends.verdict t (by omega) (Or.inl done)
  · intro t later
    have still := cracked_stays isRun cracked t later
    exact ⟨still.state, still.key, still.stored⟩
  · intro t early
    exact (silent_before isRun concluded.ends.verdict t early).trans reset
  · intro t later
    obtain ⟨d, rfl⟩ := Nat.exists_eq_add_of_le (Nat.succ_le_of_lt later)
    -- `crack_success` is set at the edge after each clock spent in `done_swap2`
    have prior := cracked_stays isRun cracked (v + 1 + d) (by omega)
    have time : (v + 1).succ + d = v + 1 + d + 1 := by omega
    rw [time, run_succ isRun]
    exact (cracked_clock _ prior).2

theorem failed_at_end {a v : Nat} (concluded : Concluded run ct (2 ^ 24 - 1) a v)
    (here : AtState .badMessage (run (v + 1))) (key : (run (v + 1)).secret = 16777215) :
    Failed run (v + 1) := by
  have after := exhausted_stays isRun here key
  refine ⟨?_, ?_, here, ?_, ?_, ?_, fun t later => (after t later).2.2⟩
  · intro secret
    obtain ⟨t, inTime, visit, -⟩ := attempt_tried isRun start first concluded secret.toNat
      (by bv_omega)
    exact ⟨t, inTime, visit⟩
  · intro t restart
    exact (attempt_key isRun start first concluded _ t ⟨restart, rfl⟩).2.1
  · intro t done
    rcases Nat.lt_trichotomy t (v + 1) with early | rfl | late
    · exact running_before isRun concluded.ends.verdict t (by omega) (Or.inl done)
    · cases at_unique here done
    · rw [AtState, (after t late).1] at done
      cases done
  · intro t later
    rcases Nat.lt_or_eq_of_le later with late | rfl
    · exact (after t late).2.1
    · exact key
  · intro t early
    exact (silent_before isRun concluded.ends.verdict t early).trans reset

end Results

/-- The run of the search from power-up. -/
def search (ct : BitVec 5 → Byte) (sContent deContent : Byte → Byte) (time : Nat) : Machine :=
  clock^[time] (powerUp ct sContent deContent)

structure Searched (run : Nat → Machine) (ct : BitVec 5 → Byte) : Prop where
  bySteps : ∀ t, (run (t + 1)).secret = (run t).secret ∨
    (run (t + 1)).secret.toNat = (run t).secret.toNat + 1
  inOrder : ∀ n t, VisitAt AttemptStart run n t → (run t).secret.toNat = n
  writesInside : ∀ t, (run t).wrenD = true → (run t).addressOut.toNat < 32
  untouched : ∀ t, ∀ a : Byte, 32 ≤ a.toNat →
    (run t).decryptedOutputRam.content a = (run 0).decryptedOutputRam.content a
  found : (∃ secret, Good ct secret) →
    ∃ secret, LeastGood ct secret ∧ ∃ time, Found run ct secret time
  failed : (∀ secret, ¬ Good ct secret) → ∃ time, Failed run time

section PowerUp
variable (ct : BitVec 5 → Byte) (sContent deContent : Byte → Byte)

theorem search_is_run : IsRun Clocks (search ct sContent deContent) := iterate_is_run clock _

theorem search_starts : AttemptStart (search ct sContent deContent 0) := ⟨rfl, rfl⟩

theorem search_first : Attempt 0 ct (search ct sContent deContent 0) := ⟨rfl, rfl⟩

theorem search_bounded (t : Nat) : Bounded (search ct sContent deContent t) :=
  invariant_along (search_is_run ct sContent deContent) bounded_preserved
    (Or.inl ⟨.writeMem, rfl, rfl⟩) t

theorem search_untouched (t : Nat) (a : Byte) (outside : 32 ≤ a.toNat) :
    (search ct sContent deContent t).decryptedOutputRam.content a = deContent a := by
  induction t with
  | zero => rfl
  | succ t ih =>
      have bounded := search_bounded ct sContent deContent t
      rw [run_succ (search_is_run ct sContent deContent)]
      generalize search ct sContent deContent t = m at ih bounded ⊢
      cases writing : m.wrenD with
      | false => simpa [clock, writing] using ih
      | true =>
          have inside := bounded_store bounded writing
          have distinct : a ≠ m.addressOut := by
            intro same
            bv_omega
          simpa [clock, writing, Function.update_of_ne distinct] using ih

/-- A search from power-up ends in one of two ways. -/
theorem search_result : (∃ secret, LeastGood ct secret ∧
      ∃ time, Found (search ct sContent deContent) ct secret time) ∨
    (∀ secret, ¬ Good ct secret) ∧ ∃ time, Failed (search ct sContent deContent) time := by
  have isRun := search_is_run ct sContent deContent
  have start := search_starts ct sContent deContent
  have first := search_first ct sContent deContent
  obtain ⟨n, a, v, concluded, ⟨good, cracked⟩ | ⟨bad, rfl, here, key⟩⟩ :=
    search_concludes isRun start first
  · refine Or.inl ⟨_, ⟨good, ?_⟩, _, found_at_end isRun start first rfl concluded cracked⟩
    intro smaller order
    have failed := concluded.smaller smaller.toNat (by bv_omega)
    rwa [BitVec.ofNat_toNat, BitVec.setWidth_eq] at failed
  · refine Or.inr ⟨?_, _, failed_at_end isRun start first rfl concluded here key⟩
    intro secret
    by_cases last : secret = BitVec.ofNat 24 (2 ^ 24 - 1)
    · rwa [last]
    · have failed := concluded.smaller secret.toNat (by bv_omega)
      rwa [BitVec.ofNat_toNat, BitVec.setWidth_eq] at failed

theorem least_good_unique {first second : BitVec 24} (left : LeastGood ct first)
    (right : LeastGood ct second) : first = second := by
  have notBelow := right.2 first
  have notAbove := left.2 second
  by_contra different
  have numbers : first.toNat ≠ second.toNat := fun same => different (BitVec.eq_of_toNat_eq same)
  rcases Nat.lt_or_gt_of_ne numbers with below | above
  · exact notBelow (BitVec.lt_def.mpr below) left.1
  · exact notAbove (BitVec.lt_def.mpr above) right.1

/-- Total correctness of the key search from power-up, for every ciphertext and
whatever the two RAMs hold at power-up. -/
theorem key_search_correct : Searched (search ct sContent deContent) ct := by
  have isRun := search_is_run ct sContent deContent
  refine ⟨?_, ?_, ?_, search_untouched ct sContent deContent, ?_, ?_⟩
  · intro t
    rw [run_succ isRun]
    exact secret_step _
  · intro n t visit
    obtain ⟨last, a, v, concluded, -⟩ := search_concludes isRun
      (search_starts ct sContent deContent) (search_first ct sContent deContent)
    obtain ⟨index, -, key⟩ := attempt_key isRun (search_starts ct sContent deContent)
      (search_first ct sContent deContent) concluded n t visit
    have inside := concluded.inside
    rw [key, BitVec.toNat_ofNat]
    omega
  · intro t writing
    have bound := bounded_store (search_bounded ct sContent deContent t) writing
    bv_omega
  · rintro ⟨secret, good⟩
    rcases search_result ct sContent deContent with result | ⟨allBad, -⟩
    · exact result
    · exact absurd good (allBad secret)
  · intro allBad
    rcases search_result ct sContent deContent with ⟨found, least, -⟩ | ⟨-, result⟩
    · exact absurd least.1 (allBad found)
    · exact result

end PowerUp

end Cpen311.KeySearch
