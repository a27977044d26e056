import Cpen311.KeyVerdict

/-! When the search ends, and what the board then shows. An attempt lasts until its first rejected
byte, so the ciphertext fixes the clock at which each key is tried. -/
namespace Cpen311.SearchReport
open ClockedRun Task2Fsm Rc4 KeyAttempt AttemptRun KeySearch KeyVerdict

section Time
variable (ct : BitVec 5 → Byte)

/-- The byte on which an attempt is decided: the first rejected one, or the last. -/
def deciding (secret : BitVec 24) : Nat :=
  (List.range 31).findIdx fun k => !accepted (decrypted ct secret k)

def attemptTime (secret : BitVec 24) : Nat := verdictTime (deciding ct secret) + 1

/-- The clock at which key `n` is tried first, and the search ends if it was the last one. -/
def startTime : Nat → Nat
  | 0 => 0
  | n + 1 => startTime n + attemptTime ct (BitVec.ofNat 24 n)

variable {ct}

theorem deciding_inside (secret : BitVec 24) : deciding ct secret ≤ 31 := by
  have bound := @List.findIdx_le_length _ (fun k => !accepted (decrypted ct secret k))
    (List.range 31)
  rwa [List.length_range] at bound

theorem before_deciding (secret : BitVec 24) (i : Nat) (early : i < deciding ct secret) :
    accepted (decrypted ct secret i) = true := by
  have fine := List.not_of_lt_findIdx early
  simpa using fine

theorem at_deciding (secret : BitVec 24) (early : deciding ct secret < 31) :
    accepted (decrypted ct secret (deciding ct secret)) = false := by
  have rejects := List.findIdx_of_getElem?_eq_some (List.getElem?_range early)
  exact (Bool.not_eq_true' _).mp rejects

theorem good_iff_last (secret : BitVec 24) :
    Good ct secret ↔ accepted (decrypted ct secret (deciding ct secret)) = true := by
  constructor
  · intro good
    exact good _ (Nat.lt_succ_of_le (deciding_inside secret))
  · intro pass k inside
    by_cases early : deciding ct secret < 31
    · rw [at_deciding secret early] at pass
      cases pass
    · rcases Nat.lt_or_ge k (deciding ct secret) with before | after
      · exact before_deciding secret k before
      · have bound := @deciding_inside ct secret
        obtain rfl : k = deciding ct secret := by omega
        exact pass

theorem bad_rejects (secret : BitVec 24) (bad : ¬ Good ct secret) :
    accepted (decrypted ct secret (deciding ct secret)) = false := by
  rw [good_iff_last] at bad
  exact Bool.eq_false_iff.mpr bad

theorem good_last (secret : BitVec 24) (good : Good ct secret) : deciding ct secret = 31 := by
  by_contra other
  have early : deciding ct secret < 31 := Nat.lt_of_le_of_ne (deciding_inside secret) other
  have rejects := at_deciding secret early
  rw [(good_iff_last secret).mp good] at rejects
  cases rejects

theorem start_bounds (n : Nat) : 3351 * n ≤ startTime ct n ∧ startTime ct n ≤ 3940 * n := by
  induction n with
  | zero => exact ⟨Nat.le_refl _, Nat.le_refl _⟩
  | succ n ih =>
      have inside := @deciding_inside ct (BitVec.ofNat 24 n)
      simp only [startTime, attemptTime, verdictTime]
      omega

end Time

section Course
variable {run : Nat → Machine} (isRun : IsRun Clocks run) {ct : BitVec 5 → Byte}
  (start : AttemptStart (run 0)) (first : Attempt 0 ct (run 0))
include isRun start first

theorem attempt_starts (n : Nat) (inside : n < 2 ^ 24)
    (bad : ∀ j < n, ¬ Good ct (BitVec.ofNat 24 j)) :
    VisitAt AttemptStart run n (startTime ct n) ∧
      Attempt (BitVec.ofNat 24 n) ct (run (startTime ct n)) := by
  induction n with
  | zero => exact ⟨@first_visit _ _ _ run 0 (fun m absurd => by omega) start, first⟩
  | succ n ih =>
      obtain ⟨visit, attempt⟩ := ih (by omega) (fun j early => bad j (by omega))
      obtain ⟨verdict, ends⟩ := ends_at_verdict isRun visit.1 attempt
        (Nat.lt_succ_of_le (deciding_inside _)) (before_deciding _)
      have next := verdict_rejects verdict (bad_rejects _ (bad n (by omega))) (by bv_omega)
      have successor : BitVec.ofNat 24 n + 1 = BitVec.ofNat 24 (n + 1) := (BitVec.ofNat_add ..).symm
      rw [successor, ← run_succ isRun] at next
      have time : startTime ct (n + 1) =
          startTime ct n + 1 + verdictTime (deciding ct (BitVec.ofNat 24 n)) := by
        simp only [startTime, attemptTime]
        omega
      refine ⟨?_, next.2⟩
      rw [time]
      refine next_visit _ _ visit (fun m early => (ends.underway _ (by omega) (by omega)).2) ?_
      rw [← time]
      exact next.1

theorem deciding_verdict (n : Nat) (inside : n < 2 ^ 24)
    (bad : ∀ j < n, ¬ Good ct (BitVec.ofNat 24 j)) :
    ∃ v, startTime ct (n + 1) = v + 1 ∧
      Verdict (BitVec.ofNat 24 n) ct (deciding ct (BitVec.ofNat 24 n)) (run v) := by
  obtain ⟨visit, attempt⟩ := attempt_starts isRun start first n inside bad
  obtain ⟨verdict, -⟩ := ends_at_verdict isRun visit.1 attempt
    (Nat.lt_succ_of_le (deciding_inside _)) (before_deciding _)
  exact ⟨_, rfl, verdict⟩

end Course

/-- The search ends at the clock that the ciphertext fixes. -/
structure Timed (run : Nat → Machine) (ct : BitVec 5 → Byte) : Prop where
  attempts : ∀ n < 2 ^ 24, (∀ j < n, ¬ Good ct (BitVec.ofNat 24 j)) →
    VisitAt AttemptStart run n (startTime ct n)
  found : ∀ secret, LeastGood ct secret → Found run ct secret (startTime ct (secret.toNat + 1))
  failed : (∀ secret, ¬ Good ct secret) → Failed run (startTime ct (2 ^ 24))
  bounds : ∀ n, 3351 * n ≤ startTime ct n ∧ startTime ct n ≤ 3940 * n

section PowerUp
variable (ct : BitVec 5 → Byte) (sContent deContent : Byte → Byte)

theorem smaller_bad {secret : BitVec 24} (least : LeastGood ct secret) (j : Nat)
    (early : j < secret.toNat) : ¬ Good ct (BitVec.ofNat 24 j) :=
  least.2 _ (by bv_omega)

theorem least_found (secret : BitVec 24) (least : LeastGood ct secret) :
    Found (search ct sContent deContent) ct secret (startTime ct (secret.toNat + 1)) := by
  have isRun := search_is_run ct sContent deContent
  rcases search_result ct sContent deContent with ⟨other, alsoLeast, time, found⟩ | ⟨allBad, -⟩
  · cases least_good_unique ct least alsoLeast
    obtain ⟨v, ends, verdict⟩ := deciding_verdict isRun (search_starts ct sContent deContent)
      (search_first ct sContent deContent) secret.toNat secret.isLt (smaller_bad ct least)
    rw [BitVec.ofNat_toNat, BitVec.setWidth_eq, good_last secret least.1] at verdict
    have cracked := verdict_cracks verdict (least.1 31 (by omega))
    rw [← run_succ isRun] at cracked
    -- at `v` the search is still in `check_kloop`, one clock later it is done
    have late : v < time := by
      by_contra early
      have done := (found.stays v (by omega)).1
      cases at_unique verdict.state done
    have early : ¬ v + 1 < time := fun before => found.arrives _ before cracked.state
    obtain rfl : time = v + 1 := by omega
    rwa [ends]
  · exact absurd least.1 (allBad secret)

theorem all_failed (allBad : ∀ secret, ¬ Good ct secret) :
    Failed (search ct sContent deContent) (startTime ct (2 ^ 24)) := by
  have isRun := search_is_run ct sContent deContent
  rcases search_result ct sContent deContent with ⟨secret, least, -⟩ | ⟨-, time, failed⟩
  · exact absurd least.1 (allBad secret)
  · obtain ⟨v, ends, verdict⟩ := deciding_verdict isRun (search_starts ct sContent deContent)
      (search_first ct sContent deContent) (2 ^ 24 - 1) (by omega) (fun j _ => allBad _)
    obtain ⟨here, key⟩ := verdict_exhausts verdict (bad_rejects _ (allBad _)) rfl
    rw [← run_succ isRun] at here key
    -- both ends of the search are kept, and `check_kloop` is neither
    have late : v < time := by
      by_contra early
      rcases invariant_from isRun exhausted_preserved (Or.inl failed.arrives) (Nat.le_of_not_lt early)
        with still | lost
      · cases at_unique verdict.state still
      · rw [verdict.state] at lost
        cases lost
    have early : time ≤ v + 1 := by
      by_contra before
      have lost := exhausted_stays isRun here key time (by omega)
      have arrives := failed.arrives
      rw [AtState, lost.1] at arrives
      cases arrives
    obtain rfl : time = v + 1 := by omega
    rwa [show startTime ct (2 ^ 24) = v + 1 from ends]

/-- The clocks at which the keys are tried and the search ends depend on the ciphertext alone. -/
theorem search_takes : Timed (search ct sContent deContent) ct where
  attempts := fun n inside bad => (attempt_starts (search_is_run ct sContent deContent)
    (search_starts ct sContent deContent) (search_first ct sContent deContent) n inside bad).1
  found := least_found ct sContent deContent
  failed := all_failed ct sContent deContent
  bounds := start_bounds

end PowerUp

/-! The displays of `ksa.sv`. -/
def segments (nIn : BitVec 4) : BitVec 7 :=
  match nIn with
  | 0x0 => 0b0111111
  | 0x1 => 0b0000110
  | 0x2 => 0b1011011
  | 0x3 => 0b1001111
  | 0x4 => 0b1100110
  | 0x5 => 0b1101101
  | 0x6 => 0b1111101
  | 0x7 => 0b0000111
  | 0x8 => 0b1111111
  | 0x9 => 0b1101111
  | 0xA => 0b1110111
  | 0xB => 0b1111100
  | 0xC => 0b0111001
  | 0xD => 0b1011110
  | 0xE => 0b1111001
  -- 4'hF
  | _ => 0b1110001

/-- `SevenSegmentDisplayDecoder`: the segments are lit by a 0. -/
def ssOut (nIn : BitVec 4) : BitVec 7 := ~~~ segments nIn

/-- `HEX0` to `HEX5`. -/
def hex (secret : BitVec 24) (n : Fin 6) : BitVec 7 := ssOut (secret.extractLsb' (4 * n.val) 4)

theorem ss_out_injective : Function.Injective ssOut := by
  intro a b
  revert a b
  decide

/-- The six displays tell all keys apart. -/
theorem hex_injective : Function.Injective hex := by
  intro first second same
  apply BitVec.eq_of_getLsbD_eq
  intro i inside
  have digit := ss_out_injective (congrFun same ⟨i / 4, by omega⟩)
  have bit := congrArg (fun d => d.getLsbD (i % 4)) digit
  have position : 4 * (i / 4) + i % 4 = i := Nat.div_add_mod i 4
  have low : i % 4 < 4 := Nat.mod_lt _ (by omega)
  simpa only [BitVec.getLsbD_extractLsb', low, decide_true, Bool.true_and, position] using bit

/-- The board from power-up: dark up to the clock `ended`, then the key and the plaintext. -/
structure Shows (run : Nat → Ksa) (secret : BitVec 24) (ended : Nat) : Prop where
  dark : ∀ t ≤ ended + 1, (run t).led = 0
  lit : ∀ t, ended + 1 < t → (run t).led = 1
  digits : ∀ t, ended ≤ t → ∀ key, hex (run t).task2.secret = hex key ↔ key = secret

section Board
variable (ct : BitVec 5 → Byte) (sContent deContent : Byte → Byte)

theorem found_shows {secret : BitVec 24} {time : Nat}
    (found : Found (search ct sContent deContent) ct secret time) :
    Shows (ksa ct sContent deContent) secret time := by
  constructor
  case dark =>
    intro t early
    cases t with
    | zero => rfl
    | succ t =>
        rw [ksa_succ, Ksa.clock, ksa_task2, found.silent t (by omega)]
        rfl
  case lit =>
    intro t late
    obtain ⟨t, rfl⟩ := Nat.exists_eq_add_of_le' (Nat.lt_of_le_of_lt (Nat.zero_le _) late)
    rw [ksa_succ, Ksa.clock, ksa_task2, found.success t (by omega)]
    rfl
  case digits =>
    intro t late key
    rw [ksa_task2, (found.stays t late).2.1, hex_injective.eq_iff]
    exact eq_comm

end Board

/-! From a plaintext through its encryption to the board. -/
section Plaintext
variable (plain : BitVec 5 → Byte) (key : BitVec 24) (sContent deContent : Byte → Byte)

/-- RC4 of the message under `key`, as stored in the ROM. -/
def encrypt (address : BitVec 5) : Byte := plain address ^^^ keystream (rc4Key key) address.toNat

/-- Decrypting with another key leaves the difference of the two keystreams. -/
theorem decrypted_encrypt (secret : BitVec 24) (k : Nat) (inside : k < 32) :
    decrypted (encrypt plain key) secret k =
      plain (BitVec.ofNat 5 k) ^^^ (keystream (rc4Key key) k ^^^ keystream (rc4Key secret) k) := by
  have position : (BitVec.ofNat 5 k).toNat = k := by
    rw [BitVec.toNat_ofNat]
    omega
  rw [decrypted, encrypt, position, BitVec.xor_assoc]

theorem encrypt_good (fits : ∀ address, accepted (plain address) = true) :
    Good (encrypt plain key) key := by
  intro k inside
  rw [decrypted_encrypt plain key key k inside, BitVec.xor_self, BitVec.xor_zero]
  exact fits _

/-- What the board makes of the encrypted message: the key `secret` and the message under it. -/
structure Recovers (run : Nat → Ksa) (secret : BitVec 24) (ended : Nat) : Prop where
  below : secret ≤ key
  shows : Shows run secret ended
  memory : ∀ t, ended ≤ t → ∀ k < 32,
    (run t).task2.decryptedOutputRam.content (BitVec.ofNat 8 k) =
      plain (BitVec.ofNat 5 k) ^^^ (keystream (rc4Key key) k ^^^ keystream (rc4Key secret) k)

theorem exists_least {ct : BitVec 5 → Byte} (good : Good ct key) :
    ∃ secret, LeastGood ct secret ∧ secret ≤ key := by
  classical
  have some : ∃ n, n ≤ key.toNat ∧ Good ct (BitVec.ofNat 24 n) :=
    ⟨key.toNat, Nat.le_refl _, by rwa [BitVec.ofNat_toNat, BitVec.setWidth_eq]⟩
  obtain ⟨below, least⟩ := Nat.find_spec some
  have bound := key.isLt
  refine ⟨BitVec.ofNat 24 (Nat.find some), ⟨least, fun smaller before also => ?_⟩, by bv_omega⟩
  refine Nat.find_min some (m := smaller.toNat) (by bv_omega) ⟨by bv_omega, ?_⟩
  rwa [BitVec.ofNat_toNat, BitVec.setWidth_eq]

/-- A message of accepted bytes comes back under the first key that decrypts it to accepted bytes,
at the latest under its own. -/
theorem message_recovered (fits : ∀ address, accepted (plain address) = true) :
    ∃ secret, LeastGood (encrypt plain key) secret ∧
      Recovers plain key (ksa (encrypt plain key) sContent deContent) secret
        (startTime (encrypt plain key) (secret.toNat + 1)) := by
  obtain ⟨secret, least, below⟩ := exists_least key (encrypt_good plain key fits)
  have found := least_found (encrypt plain key) sContent deContent secret least
  refine ⟨secret, least, below, found_shows _ sContent deContent found, ?_⟩
  intro t late k inside
  rw [ksa_task2, (found.stays t late).2.2 k inside, decrypted_encrypt plain key secret k inside]

end Plaintext

/-- Thirty-two spaces under the key 1. -/
theorem message_recovered_spaces :
    ∃ secret, LeastGood (encrypt (fun _ => 32) 1) secret ∧
      Recovers (fun _ => 32) 1 (ksa (encrypt (fun _ => 32) 1) (fun _ => 0) fun _ => 0) secret
        (startTime (encrypt (fun _ => 32) 1) (secret.toNat + 1)) :=
  message_recovered (fun _ => 32) 1 (fun _ => 0) (fun _ => 0) fun _ => rfl

end Cpen311.SearchReport
