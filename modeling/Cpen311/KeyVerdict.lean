import Mathlib.Data.Fintype.BigOperators
import Mathlib.Data.BitVec
import Cpen311.KeySearch

/-! What the search reports. `ksa.sv` shows `crack_success` on the LEDs. A found
key can decrypt to bytes between `'Z'` and `'a'`, since the test starts at 92, and
a failed search leaves the declared states, since `bad_message` has no item in
the state controller. -/
namespace Cpen311.KeyVerdict
open ClockedRun Task2Fsm Rc4 KeyAttempt AttemptRun KeySearch

/-- The top level: the search machine and the LED register. -/
structure Ksa where
  task2 : Machine
  led : BitVec 10

def Ksa.clock (top : Ksa) : Ksa where
  task2 := Task2Fsm.clock top.task2
  led :=
    if top.task2.crackSuccess = 0b01 then 0b0000000001
    else if top.task2.crackSuccess = 0b10 then 0b0000000010
    else 0

def ksa (ct : BitVec 5 → Byte) (sContent deContent : Byte → Byte) (time : Nat) : Ksa :=
  Ksa.clock^[time] ⟨powerUp ct sContent deContent, 0⟩

/-- The three ways in which a cracked key shows. -/
def Reported (top : Ksa) : Prop :=
  AtState .doneSwap2 top.task2 ∨ top.task2.crackSuccess = 0b01 ∨ top.led.getLsbD 0 = true

section Reports
variable (ct : BitVec 5 → Byte) (sContent deContent : Byte → Byte)

theorem ksa_succ (t : Nat) :
    ksa ct sContent deContent (t + 1) = (ksa ct sContent deContent t).clock :=
  Function.iterate_succ_apply' ..

theorem ksa_task2 (t : Nat) :
    (ksa ct sContent deContent t).task2 = search ct sContent deContent t := by
  induction t with
  | zero => rfl
  | succ t ih =>
      rw [ksa_succ, run_succ (search_is_run ct sContent deContent), ← ih]
      rfl

theorem success_found (t : Nat)
    (success : (search ct sContent deContent t).crackSuccess = 0b01) :
    ∃ secret time, LeastGood ct secret ∧ time < t ∧
      Found (search ct sContent deContent) ct secret time := by
  rcases search_result ct sContent deContent with ⟨secret, least, time, found⟩ | ⟨-, time, failed⟩
  · refine ⟨secret, time, least, ?_, found⟩
    by_contra early
    rw [found.silent t (by omega)] at success
    cases success
  · by_cases early : t ≤ time
    · rw [failed.silent t early] at success
      cases success
    · rw [failed.failure t (by omega)] at success
      cases success

theorem reported_found (t : Nat) (reported : Reported (ksa ct sContent deContent t)) :
    ∃ secret time, LeastGood ct secret ∧ time ≤ t ∧
      Found (search ct sContent deContent) ct secret time := by
  rcases reported with done | success | lit
  · rw [ksa_task2] at done
    rcases search_result ct sContent deContent with ⟨secret, least, time, found⟩ | ⟨-, time, failed⟩
    · refine ⟨secret, time, least, ?_, found⟩
      by_contra early
      exact found.arrives t (by omega) done
    · exact absurd done (failed.neverDone t)
  · rw [ksa_task2] at success
    obtain ⟨secret, time, least, early, found⟩ := success_found ct sContent deContent t success
    exact ⟨secret, time, least, by omega, found⟩
  · cases t with
    | zero =>
        have dark : (0 : BitVec 10).getLsbD 0 = true := lit
        exact absurd dark (by decide)
    | succ t =>
        rw [ksa_succ, Ksa.clock, ksa_task2] at lit
        have success : (search ct sContent deContent t).crackSuccess = 0b01 := by
          by_contra other
          rw [if_neg other] at lit
          split at lit <;> simp at lit
        obtain ⟨secret, time, least, early, found⟩ := success_found ct sContent deContent t success
        exact ⟨secret, time, least, by omega, found⟩

end Reports

/-- Space or a lower-case letter. -/
def inAlphabet (byte : Byte) : Bool := byte == 32 || (97 ≤ byte && byte ≤ 122)

/-- The bytes that the test of `check_kloop` admits besides the alphabet. -/
def inGap (byte : Byte) : Bool := 92 ≤ byte && byte ≤ 96

theorem accepted_split (byte : Byte) (pass : accepted byte = true) :
    inAlphabet byte = !inGap byte := by
  revert byte
  decide

/-- Every report shows a key and a plaintext within the alphabet. -/
structure SoundReports (ct : BitVec 5 → Byte) (run : Nat → Ksa) : Prop where
  bytes : ∀ t, Reported (run t) → ∀ k < 32,
    inAlphabet ((run t).task2.decryptedOutputRam.content (BitVec.ofNat 8 k)) = true
  key : ∀ t, Reported (run t) → ∀ k < 32,
    inAlphabet (decrypted ct (run t).task2.secret k) = true

section Soundness
variable (ct : BitVec 5 → Byte) (sContent deContent : Byte → Byte)

theorem found_reported (secret : BitVec 24) (least : LeastGood ct secret) :
    ∃ t, Reported (ksa ct sContent deContent t) ∧
      (ksa ct sContent deContent t).task2.secret = secret := by
  rcases search_result ct sContent deContent with ⟨found, alsoLeast, time, result⟩ | ⟨allBad, -⟩
  · cases least_good_unique ct least alsoLeast
    obtain ⟨done, key, -⟩ := result.stays time (Nat.le_refl time)
    refine ⟨time, Or.inl ?_, ?_⟩
    · rwa [ksa_task2]
    · rwa [ksa_task2]
  · exact absurd least.1 (allBad secret)

theorem sound_no_gap (sound : SoundReports ct (ksa ct sContent deContent)) (secret : BitVec 24)
    (least : LeastGood ct secret) (k : Nat) (inside : k < 32) :
    inGap (decrypted ct secret k) = false := by
  obtain ⟨t, reported, key⟩ := found_reported ct sContent deContent secret least
  have letter := sound.key t reported k inside
  rw [key, accepted_split _ (least.1 k inside)] at letter
  simpa using letter

/-- Reports stay within the alphabet exactly when the first key that passes the
code's test decrypts to no byte in the gap from 92 to 96. -/
theorem reports_sound_iff :
    SoundReports ct (ksa ct sContent deContent) ↔
      ∀ secret, LeastGood ct secret → ∀ k < 32, inGap (decrypted ct secret k) = false := by
  constructor
  · exact sound_no_gap ct sContent deContent
  · intro noGap
    have letters (secret : BitVec 24) (least : LeastGood ct secret) (k : Nat) (inside : k < 32) :
        inAlphabet (decrypted ct secret k) = true := by
      rw [accepted_split _ (least.1 k inside), noGap secret least k inside]
      rfl
    constructor
    · intro t reported k inside
      obtain ⟨secret, time, least, late, found⟩ := reported_found ct sContent deContent t reported
      rw [ksa_task2, (found.stays t late).2.2 k inside]
      exact letters secret least k inside
    · intro t reported k inside
      obtain ⟨secret, time, least, late, found⟩ := reported_found ct sContent deContent t reported
      rw [ksa_task2, (found.stays t late).2.1]
      exact letters secret least k inside

end Soundness

/-- The ciphertext of 32 backslashes (92) under key 0. -/
def backslashes (address : BitVec 5) : Byte := 92 ^^^ keystream (rc4Key 0) address.toNat

theorem backslashes_decrypted (k : Nat) (inside : k < 32) : decrypted backslashes 0 k = 92 := by
  have position : (BitVec.ofNat 5 k).toNat = k := by
    rw [BitVec.toNat_ofNat]
    omega
  rw [decrypted, backslashes, position, BitVec.xor_assoc, BitVec.xor_self, BitVec.xor_zero]

theorem backslashes_least : LeastGood backslashes 0 := by
  constructor
  · intro k inside
    rw [backslashes_decrypted k inside]
    rfl
  · intro smaller below
    exact absurd below (BitVec.not_lt_zero)

/-- Key 0 is reported as cracked although it decrypts to backslashes. -/
theorem backslashes_reported :
    ¬ SoundReports backslashes (ksa backslashes (fun _ => 0) fun _ => 0) := by
  intro sound
  have gap := sound_no_gap _ _ _ sound 0 backslashes_least 0 (by omega)
  rw [backslashes_decrypted 0 (by omega)] at gap
  cases gap

/-! Control states. -/
def Declared (m : Machine) : Prop := ∃ q, AtState q m

/-- The state register always holds a declared encoding, and both ends of the
search are terminal. -/
structure ControlSafe (run : Nat → Machine) : Prop where
  declared : ∀ t, Declared (run t) ∧ Declared (run (t + 1))
  failureKept : ∀ t, AtState .badMessage (run t) → ∀ later, t ≤ later →
    AtState .badMessage (run later) ∧ (run later).secret = 16777215 ∧
      (t < later → (run later).crackSuccess = 0b10)
  successKept : ∀ t, AtState .doneSwap2 (run t) → ∀ later, t ≤ later →
    AtState .doneSwap2 (run later) ∧ (run later).secret = (run t).secret ∧
      (t < later → (run later).crackSuccess = 0b01)

section Safety
variable (ct : BitVec 5 → Byte) (sContent deContent : Byte → Byte)

theorem found_not_exhausted {secret : BitVec 24} {time : Nat}
    (found : Found (search ct sContent deContent) ct secret time) (t : Nat) :
    ¬ (AtState .badMessage (search ct sContent deContent t) ∨
      (search ct sContent deContent t).state = none) := by
  intro exhausted
  have isRun := search_is_run ct sContent deContent
  -- both ends of the search are kept, so at the later of the two times both would hold
  have still := invariant_from isRun exhausted_preserved exhausted (Nat.le_max_left t time)
  have done := (found.stays (max t time) (Nat.le_max_right t time)).1
  rcases still with here | lost
  · cases at_unique here done
  · rw [AtState, lost] at done
    cases done

theorem search_declared {secret : BitVec 24} {time : Nat}
    (found : Found (search ct sContent deContent) ct secret time) (t : Nat) :
    Declared (search ct sContent deContent t) := by
  rcases search_bounded ct sContent deContent t with ⟨q, here, -⟩ | ⟨lost, -⟩
  · exact ⟨q, here⟩
  · exact absurd (Or.inr lost) (found_not_exhausted ct sContent deContent found t)

theorem safe_some_good (safe : ControlSafe (search ct sContent deContent)) :
    ∃ secret, Good ct secret := by
  rcases search_result ct sContent deContent with ⟨secret, least, -⟩ | ⟨-, time, failed⟩
  · exact ⟨secret, least.1⟩
  · obtain ⟨q, here⟩ := (safe.declared time).2
    rw [run_succ (search_is_run ct sContent deContent), AtState,
      (bad_message_clock _ failed.arrives).1] at here
    cases here

/-- The default branch of the state controller is never taken exactly when some
key passes the test; otherwise the edge after `bad_message` takes it. -/
theorem control_safe_iff :
    ControlSafe (search ct sContent deContent) ↔ ∃ secret, Good ct secret := by
  constructor
  · exact safe_some_good ct sContent deContent
  · rintro ⟨someKey, good⟩
    rcases search_result ct sContent deContent with ⟨secret, -, time, found⟩ | ⟨allBad, -⟩
    · have declared := search_declared ct sContent deContent found
      refine ⟨fun t => ⟨declared t, declared (t + 1)⟩, ?_, ?_⟩
      · intro t here
        exact absurd (Or.inl here) (found_not_exhausted ct sContent deContent found t)
      · intro t done later order
        have arrived : time ≤ t := by
          by_contra early
          exact found.arrives t (by omega) done
        obtain ⟨here, key, -⟩ := found.stays later (by omega)
        exact ⟨here, key.trans (found.stays t arrived).2.1.symm,
          fun strict => found.success later (by omega)⟩
    · exact absurd good (allBad someKey)

end Safety

/-! Some ciphertext is rejected by every key: a key and 32 accepted bytes fix a
ciphertext, there are 32 accepted bytes, and `2 ^ 24 * 32 ^ 32 < 256 ^ 32`. -/
def acceptedByte (n : Fin 32) : Byte := if n.val = 0 then 32 else BitVec.ofNat 8 (91 + n.val)

theorem accepted_byte_complete (byte : Byte) (pass : accepted byte = true) :
    ∃ n, acceptedByte n = byte := by
  revert byte
  decide

def encrypted (choice : Fin (2 ^ 24) × (Fin 32 → Fin 32)) (k : Fin 32) : Fin 256 :=
  (acceptedByte (choice.2 k) ^^^ keystream (rc4Key (BitVec.ofNat 24 choice.1.val)) k.val).toFin

theorem some_encryption_missed : ∃ bytes : Fin 32 → Fin 256, ∀ choice, encrypted choice ≠ bytes := by
  by_contra allHit
  have surjective : Function.Surjective encrypted := by
    intro bytes
    by_contra missed
    exact allHit ⟨bytes, fun choice hit => missed ⟨choice, hit⟩⟩
  -- `256 ^ 32 ≤ 2 ^ 24 * 32 ^ 32` is what would follow
  have counted := Fintype.card_le_of_surjective encrypted surjective
  simp only [Fintype.card_prod, Fintype.card_fun, Fintype.card_fin] at counted
  omega

theorem some_ciphertext_rejected : ∃ ct : BitVec 5 → Byte, ∀ secret, ¬ Good ct secret := by
  obtain ⟨bytes, missed⟩ := some_encryption_missed
  refine ⟨fun address => BitVec.ofFin (bytes address.toFin), fun secret good => ?_⟩
  have choices (k : Fin 32) := accepted_byte_complete _ (good k.val k.isLt)
  choose choice chosen using choices
  apply missed ⟨secret.toFin, choice⟩
  funext k
  have position : (BitVec.ofNat 5 k.val).toFin = k := by
    apply Fin.ext
    rw [BitVec.val_toFin, BitVec.toNat_ofNat, Nat.mod_eq_of_lt k.isLt]
  have key : BitVec.ofNat 24 secret.toFin.val = secret :=
    (BitVec.ofNat_toNat 24 secret).trans (BitVec.setWidth_eq secret)
  simp only [encrypted, chosen, decrypted, key, position, BitVec.xor_assoc, BitVec.xor_self,
    BitVec.xor_zero]

/-- For such a ciphertext the search leaves the declared states. -/
theorem rejected_search_unsafe :
    ¬ ∀ (ct : BitVec 5 → Byte) (sContent deContent : Byte → Byte),
      ControlSafe (search ct sContent deContent) := by
  intro safe
  obtain ⟨ct, rejected⟩ := some_ciphertext_rejected
  obtain ⟨secret, good⟩ := safe_some_good _ _ _ (safe ct (fun _ => 0) fun _ => 0)
  exact rejected secret good

end Cpen311.KeyVerdict
