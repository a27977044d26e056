import Cpen311.KeyAttempt

/-! The clock-by-clock course of one key attempt, and its refinement of RC4.
Times count from the visit of `write_mem` that starts the attempt. -/
namespace Cpen311.AttemptRun
open ClockedRun SyncMemory Task2Fsm Rc4 KeyAttempt

def AtState (q : State) (m : Machine) : Prop := m.state = some q.encoding

instance (q : State) : DecidablePred (AtState q) := fun m =>
  inferInstanceAs (Decidable (m.state = some q.encoding))

theorem at_unique {p q : State} {m : Machine} (atP : AtState p m) (atQ : AtState q m) : p = q := by
  have same : some p.encoding = some q.encoding := atP.symm.trans atQ
  simpa using same

theorem elsewhere {p q : State} {m : Machine} (there : AtState p m) (other : q ≠ p) :
    ¬ AtState q m :=
  fun here => other (at_unique here there)

/-- The attempt goes on: its key is still tried and no new attempt has started. -/
def Underway (secret : BitVec 24) (m : Machine) : Prop :=
  m.secret = secret ∧ ¬ AttemptStart m

theorem at_underway {secret : BitVec 24} {m : Machine} {q : State} (here : AtState q m)
    (other : q ≠ .writeMem) (key : m.secret = secret) : Underway secret m :=
  ⟨key, fun start => elsewhere start.1 other here⟩

theorem quiet_underway {secret : BitVec 24} {m : Machine} (quiet : Quiet secret m) :
    Underway secret m := by
  obtain ⟨key, q, here, kind⟩ := quiet
  refine ⟨key, fun start => ?_⟩
  cases at_unique here start.1
  rcases kind with isCalm | ⟨-, counting⟩
  · cases isCalm
  · exact counting start.2

theorem quiet_elsewhere {secret : BitVec 24} {m : Machine} (q : State) (eventful : calm q = false)
    (other : q ≠ .writeMem) (quiet : Quiet secret m) : ¬ AtState q m := by
  intro here
  obtain ⟨-, p, there, kind⟩ := quiet
  cases at_unique here there
  rcases kind with isCalm | ⟨same, -⟩
  · rw [eventful] at isCalm
    cases isCalm
  · exact other same

/-- The verdict on byte `k` comes 19 clocks after the one before it. -/
def verdictTime (k : Nat) : Nat := 3350 + 19 * k

/-! After the last key has failed: `bad_message` has no item in the controller. -/
theorem undeclared_clock (m : Machine) (lost : m.state = none) :
    (clock m).state = none ∧ (clock m).secret = m.secret ∧
      (clock m).crackSuccess = m.crackSuccess := by
  simp [clock, lost]

theorem bad_message_clock (m : Machine) (here : AtState .badMessage m) :
    (clock m).state = none ∧ (clock m).secret = m.secret ∧ (clock m).crackSuccess = 0b10 := by
  rw [clock_at here]
  simp [edge, behaviour, controller]

theorem exhausted_preserved (before after : Machine) (taken : Clocks before after)
    (exhausted : AtState .badMessage before ∨ before.state = none) :
    AtState .badMessage after ∨ after.state = none := by
  cases taken
  rcases exhausted with here | lost
  · exact Or.inr (bad_message_clock before here).1
  · exact Or.inr (undeclared_clock before lost).1

section Course
variable {run : Nat → Machine} (isRun : IsRun Clocks run)
  {secret : BitVec 24} {ct : BitVec 5 → Byte}
include isRun

theorem run_succ (n : Nat) : run (n + 1) = clock (run n) := (isRun n).symm

section Start
variable (start : AttemptStart (run 0)) (attempt : Attempt secret ct (run 0))
include start attempt

theorem attempt_scheduled : Scheduled secret ct (run 3331) := by
  have stretch := attempt_schedules (run 0) start attempt
  rw [← run_succ isRun] at stretch
  exact surely_ends isRun stretch

theorem before_schedule (t : Nat) (began : 0 < t) (early : t < 3331) : Quiet secret (run t) := by
  have stretch := attempt_schedules (run 0) start attempt
  rw [← run_succ isRun] at stretch
  have during := surely_during isRun stretch (t - 1) (by omega)
  have time : 0 + 1 + (t - 1) = t := by omega
  rwa [time] at during

theorem schedule_visit : VisitAt (AtState .startSwap2) run 0 3331 := by
  refine first_visit _ _ (fun t early => ?_) (attempt_scheduled isRun start attempt).state
  by_cases began : 0 < t
  · exact quiet_elsewhere .startSwap2 rfl (by decide)
      (before_schedule isRun start attempt t began early)
  · obtain rfl : t = 0 := by omega
    exact elsewhere start.1 (by decide)

theorem first_round : Surely Clocks (Quiet secret) (Verdict secret ct 0) 18 (run 3332) := by
  have generating := scheduled_clock _ (attempt_scheduled isRun start attempt)
  rw [← run_succ isRun] at generating
  exact generating_round 0 _ generating

theorem before_first_verdict (t : Nat) (began : 0 < t) (early : t < verdictTime 0) :
    ¬ AtState .checkKloop (run t) ∧ Underway secret (run t) := by
  rcases Nat.lt_trichotomy t 3331 with filling | rfl | generating
  · have quiet := before_schedule isRun start attempt t began filling
    exact ⟨quiet_elsewhere .checkKloop rfl (by decide) quiet, quiet_underway quiet⟩
  · have scheduled := attempt_scheduled isRun start attempt
    exact ⟨elsewhere scheduled.state (by decide),
      at_underway scheduled.state (by decide) scheduled.key⟩
  · have quiet := surely_during isRun (first_round isRun start attempt) (t - 3332)
      (by simp only [verdictTime] at early; omega)
    have time : 3332 + (t - 3332) = t := by omega
    rw [time] at quiet
    exact ⟨quiet_elsewhere .checkKloop rfl (by decide) quiet, quiet_underway quiet⟩

end Start

section Rounds
variable {k : Nat} {time : Nat}

theorem next_round (verdict : Verdict secret ct k (run time)) (inside : k < 31)
    (good : accepted (decrypted ct secret k) = true) :
    Surely Clocks (Quiet secret) (Verdict secret ct (k + 1)) 18 (run (time + 1)) := by
  have generating := verdict_accepts verdict inside good
  rw [← run_succ isRun] at generating
  exact generating_round (k + 1) _ generating

end Rounds

/-- As long as the bytes are accepted, the verdicts follow one another: the visit
numbered `k` of `check_kloop` decides byte `k`. -/
theorem attempt_verdict (start : AttemptStart (run 0)) (attempt : Attempt secret ct (run 0))
    (k : Nat) (inside : k < 32) (good : ∀ i < k, accepted (decrypted ct secret i) = true) :
    Verdict secret ct k (run (verdictTime k)) ∧
      VisitAt (AtState .checkKloop) run k (verdictTime k) ∧
      ∀ t, 0 < t → t ≤ verdictTime k → Underway secret (run t) := by
  -- one verdict to the next: a quiet stretch of 18 clocks, which visits nothing in between
  induction k with
  | zero =>
      have before := before_first_verdict isRun start attempt
      have verdict := surely_ends isRun (first_round isRun start attempt)
      refine ⟨verdict, first_visit _ _ (fun t early => ?_) verdict.state, fun t began early => ?_⟩
      · by_cases began : 0 < t
        · exact (before t began early).1
        · obtain rfl : t = 0 := by omega
          exact elsewhere start.1 (by decide)
      · rcases Nat.lt_or_eq_of_le early with early | rfl
        · exact (before t began early).2
        · exact at_underway verdict.state (by decide) verdict.key
  | succ k ih =>
      obtain ⟨verdict, visit, underway⟩ := ih (by omega) (fun i early => good i (by omega))
      have stretch := next_round isRun verdict (by omega) (good k (by omega))
      have next := surely_ends isRun stretch
      have quiet := surely_during isRun stretch
      have time : verdictTime (k + 1) = verdictTime k + 1 + 18 := by
        simp only [verdictTime]
        omega
      rw [time]
      refine ⟨next, next_visit _ _ visit
        (fun m early => quiet_elsewhere .checkKloop rfl (by decide) (quiet m early)) next.state, ?_⟩
      intro t began early
      by_cases prior : t ≤ verdictTime k
      · exact underway t began prior
      · obtain ⟨m, rfl⟩ := Nat.exists_eq_add_of_le (show verdictTime k + 1 ≤ t by omega)
        rcases Nat.lt_or_eq_of_le (show m ≤ 18 by omega) with inner | rfl
        · exact quiet_underway (quiet m inner)
        · exact at_underway next.state (by decide) next.key

/-- A rejected byte ends the attempt: either the next attempt starts at the
following edge, or the last key has failed and no verdict is ever made again. -/
theorem rejected_verdict {k time : Nat} (verdict : Verdict secret ct k (run time))
    (bad : accepted (decrypted ct secret k) = false) :
    AttemptStart (run (time + 1)) ∨ ∀ t, time < t → ¬ AtState .checkKloop (run t) := by
  by_cases last : secret = 16777215
  · right
    intro t later here
    have ended : AtState .badMessage (run (time + 1)) := by
      rw [run_succ isRun]
      exact (verdict_exhausts verdict bad last).1
    rcases invariant_from isRun exhausted_preserved (Or.inl ended) (Nat.succ_le_of_lt later) with
      there | lost
    · exact elsewhere there (by decide) here
    · rw [AtState, lost] at here
      cases here
  · left
    rw [run_succ isRun]
    exact (verdict_rejects verdict bad last).1

/-- No new attempt has started up to the given time. -/
def SameAttempt (run : Nat → Machine) (time : Nat) : Prop :=
  ∀ t, 0 < t → t ≤ time → ¬ AttemptStart (run t)

theorem visited_bytes_accepted (start : AttemptStart (run 0))
    (attempt : Attempt secret ct (run 0)) {k time : Nat} (inside : k < 32)
    (visit : VisitAt (AtState .checkKloop) run k time) (same : SameAttempt run time) (i : Nat)
    (early : i < k) : accepted (decrypted ct secret i) = true := by
  induction i using Nat.strong_induction_on with
  | h i ih =>
      obtain ⟨verdict, earlier, -⟩ := attempt_verdict isRun start attempt i (by omega)
        (fun j before => ih j before (by omega))
      have order := visit_order _ _ earlier visit early
      -- a rejection of byte `i` would have ended the attempt before the visit for byte `k`
      by_contra bad
      rcases rejected_verdict isRun verdict (by simpa using bad) with restart | never
      · exact same _ (by omega) (Nat.succ_le_of_lt order) restart
      · exact never time order visit.1

end Course

/-- What a visit of `check_kloop` for byte `k` shows, and the edge after it. -/
structure ByteRefined (secret : BitVec 24) (ct : BitVec 5 → Byte) (k : Nat)
    (now after : Machine) : Prop where
  byte : now.dataDecrypted = ct (BitVec.ofNat 5 k) ^^^ keystream (rc4Key secret) k
  box : now.ram1.content = (generate (keySchedule (rc4Key secret)) (k + 1)).box
  permutation : Function.Bijective now.ram1.content
  i : now.counterI = BitVec.ofNat 8 (k + 1)
  j : now.counterJ = (generate (keySchedule (rc4Key secret)) (k + 1)).j
  received : after.decryptedOutputRam.content =
    Function.update now.decryptedOutputRam.content (BitVec.ofNat 8 k) now.dataDecrypted

structure AttemptRefined (run : Nat → Machine) (secret : BitVec 24) (ct : BitVec 5 → Byte) :
    Prop where
  scheduleReached : ∃ t, VisitAt (AtState .startSwap2) run 0 t
  scheduled : ∀ t, VisitAt (AtState .startSwap2) run 0 t →
    (run t).ram1.content = keySchedule (rc4Key secret)
  verdictReached : ∀ k < 32, (∀ i < k, accepted (decrypted ct secret i) = true) →
    ∃ t, VisitAt (AtState .checkKloop) run k t ∧ SameAttempt run t
  verdict : ∀ k < 32, ∀ t, VisitAt (AtState .checkKloop) run k t → SameAttempt run t →
    ByteRefined secret ct k (run t) (run (t + 1))

theorem verdict_refined {secret : BitVec 24} {ct : BitVec 5 → Byte} {k : Nat} {m : Machine}
    (inv : Verdict secret ct k m) : ByteRefined secret ct k m (clock m) where
  byte := inv.byte
  box := inv.box
  permutation := by
    rw [inv.box]
    exact generate_bijective _ (key_schedule_bijective _) _
  i := inv.index
  j := inv.j
  received := by rw [verdict_stores inv, inv.byte]

/-- Every attempt computes RC4 of its key, whatever the registers and memories
hold when it starts. -/
theorem attempt_refines_rc4 (m : Machine) (start : AttemptStart m) :
    AttemptRefined (fun n => clock^[n] m) m.secret m.encryptedInputRom.content := by
  have isRun : IsRun Clocks (fun n => clock^[n] m) := iterate_is_run clock m
  have attempt : Attempt m.secret m.encryptedInputRom.content m := ⟨rfl, rfl⟩
  refine ⟨⟨3331, schedule_visit isRun start attempt⟩, ?_, ?_, ?_⟩
  · intro t visit
    cases visit_unique _ _ visit (schedule_visit isRun start attempt)
    exact (attempt_scheduled isRun start attempt).box
  · intro k inside good
    obtain ⟨-, visit, underway⟩ := attempt_verdict isRun start attempt k inside good
    exact ⟨verdictTime k, visit, fun t began early => (underway t began early).2⟩
  · intro k inside t visit same
    have good := visited_bytes_accepted isRun start attempt inside visit same
    obtain ⟨verdict, expected, -⟩ := attempt_verdict isRun start attempt k inside good
    cases visit_unique _ _ visit expected
    exact run_succ isRun (verdictTime k) ▸ verdict_refined verdict

/-- A later attempt, with registers and memories in use, whose key decrypts every byte to an `a`. -/
def laterAttempt : Machine :=
  { powerUp (fun a => 97 ^^^ keystream (rc4Key 0x249) a.toNat) (fun a => a + 3) (fun a => a ^^^ 5) with
    secret := 0x249
    counterJ := 7
    counterK := 2
    tempI := 9
    tempJ := 0x41
    addressIn := 1
    dataDecrypted := 0x5B
    ram1 := ⟨fun a => a + 3, 0x41⟩
    encryptedInputRom := ⟨fun a => 97 ^^^ keystream (rc4Key 0x249) a.toNat, 0x5A⟩ }

theorem later_attempt_refines_rc4 :
    accepted (decrypted laterAttempt.encryptedInputRom.content laterAttempt.secret 0) = true ∧
      AttemptRefined (fun n => clock^[n] laterAttempt) laterAttempt.secret
        laterAttempt.encryptedInputRom.content := by
  refine ⟨?_, attempt_refines_rc4 laterAttempt ⟨rfl, rfl⟩⟩
  have byte : decrypted laterAttempt.encryptedInputRom.content laterAttempt.secret 0 = 97 := by
    change 97 ^^^ keystream (rc4Key 0x249) 0 ^^^ keystream (rc4Key 0x249) 0 = 97
    rw [BitVec.xor_assoc, BitVec.xor_self, BitVec.xor_zero]
  rw [byte]
  rfl

end Cpen311.AttemptRun
