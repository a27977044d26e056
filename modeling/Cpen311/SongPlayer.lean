import Mathlib.Data.BitVec
import Cpen311.ClockedRun

/-! The song player of lab5 (`task1` and `send_audio_fifo` of `hello_ucosii.c`). The song is
sent to the FIFO in chunks of 1000 samples. `size_song` is unsigned, so the operands of `%` and
`<` are, and only the addition to `address_counter` is one of signed integers. -/
namespace Cpen311.SongPlayer
open ClockedRun

abbrev Word := BitVec 32

def numeroDeMuestras : Nat := 1000

/-- The indices of `song` that the loop reads, in order; `buf` points to `song[buf]`. -/
def sendAudioFifo (sizeSong : Word) (buf : Nat) : List Nat :=
  (List.range numeroDeMuestras).map fun i => buf + (BitVec.ofNat 32 i % sizeSong).toNat

structure Flags where
  playSong : BitVec 8
  pauseSong : BitVec 8
  stopSong : BitVec 8

structure Task1 where
  addressCounter : Word
  /-- The indices of `song` read so far. -/
  reads : List Nat

/-- One iteration of the loop of `task1`. -/
def task1 (sizeSong : Word) (flags : Flags) (s : Task1) : Task1 :=
  if flags.playSong = 1 then
    { addressCounter :=
        if s.addressCounter < sizeSong then
          s.addressCounter + BitVec.ofNat 32 numeroDeMuestras
        else 0
      reads := s.reads ++ sendAudioFifo sizeSong (s.addressCounter % sizeSong).toNat }
  else if flags.pauseSong = 1 then s
  else if flags.stopSong = 1 then { s with addressCounter := 0 }
  else s

def start : Task1 where
  addressCounter := 0
  reads := []

def playing : Flags where
  playSong := 1
  pauseSong := 0
  stopSong := 0

/-- The samples written to the FIFO. `song` is the memory from the song on, so from index
`size_song` on it is foreign. -/
def written (song : Nat → BitVec 8) (s : Task1) : List (BitVec 8) := s.reads.map song

section Played
variable (sizeSong : Word)

def played (n : Nat) : Task1 := drive (task1 sizeSong) (fun _ => playing) start n

/-- `address_counter` stays in the range of `int`. -/
def NoOverflow : Prop := ∀ n, (played sizeSong n).addressCounter.toNat < 2 ^ 31

/-- While the play flag is set, whatever the other two are. -/
def Plays (flags : Nat → Flags) : Prop := ∀ n, (flags n).playSong = 1

structure Cyclic (flags : Nat → Flags) (song : Nat → BitVec 8) : Prop where
  inBounds : ∀ n, ∀ index ∈ (drive (task1 sizeSong) flags start n).reads, index < sizeSong.toNat
  inOrder : ∀ n m sample, (written song (drive (task1 sizeSong) flags start n))[m]? = some sample →
    sample = song (m % sizeSong.toNat)

end Played

/-- The number of chunks that cover the song. -/
def chunks (size : Nat) : Nat := (size + 999) / 1000

/-- The index of the sample numbered `m`: after the chunks that cover the song one more is sent
before the counter is reset. -/
def index (size m : Nat) : Nat :=
  1000 * (m / 1000 % (chunks size + 1)) % size + m % 1000 % size

/-- The sample numbered `m` is the one at `m` modulo the length of the song. -/
def InLaps (size : Nat) (song : Nat → BitVec 8) : Prop :=
  ∀ m, index size m < size ∧ song (index size m) = song (m % size)

theorem chunk_start_lt (size j : Nat) : 1000 * j < size ↔ j < chunks size := by
  unfold chunks
  omega

theorem cycle_next {period : Nat} (positive : 1 ≤ period) (n : Nat) :
    (if n % (period + 1) < period then n % (period + 1) + 1 else 0) = (n + 1) % (period + 1) := by
  have position : n % (period + 1) < period + 1 := Nat.mod_lt n (Nat.succ_pos period)
  rw [Nat.add_mod_eq_ite, Nat.mod_eq_of_lt (Nat.lt_succ_of_le positive)]
  split <;> split <;> omega

section Played
variable {sizeSong : Word}

theorem task1_plays {flags : Flags} (plays : flags.playSong = 1) (s : Task1) :
    task1 sizeSong flags s =
      { addressCounter :=
          if s.addressCounter < sizeSong then
            s.addressCounter + BitVec.ofNat 32 numeroDeMuestras
          else 0
        reads := s.reads ++ sendAudioFifo sizeSong (s.addressCounter % sizeSong).toNat } :=
  if_pos plays

theorem task1_playing (s : Task1) :
    task1 sizeSong playing s =
      { addressCounter :=
          if s.addressCounter < sizeSong then
            s.addressCounter + BitVec.ofNat 32 numeroDeMuestras
          else 0
        reads := s.reads ++ sendAudioFifo sizeSong (s.addressCounter % sizeSong).toNat } :=
  task1_plays rfl s

theorem plays_played {flags : Nat → Flags} (plays : Plays flags) (n : Nat) :
    drive (task1 sizeSong) flags start n = played sizeSong n := by
  induction n with
  | zero => rfl
  | succ n ih =>
      change task1 sizeSong (flags n) (drive (task1 sizeSong) flags start n) =
        task1 sizeSong playing (played sizeSong n)
      rw [ih, task1_plays (plays n), task1_playing]

theorem played_succ (n : Nat) :
    played sizeSong (n + 1) = task1 sizeSong playing (played sizeSong n) := rfl

/-- A counter that stays within `n + 1000` does so without overflow. -/
theorem no_overflow (small : sizeSong.toNat + 999 < 2 ^ 31) : NoOverflow sizeSong := by
  intro n
  have bounded : (played sizeSong n).addressCounter.toNat ≤ sizeSong.toNat + 999 := by
    induction n with
    | zero => exact Nat.zero_le _
    | succ n ih =>
        rw [played_succ, task1_playing]
        dsimp only
        split
        · next ahead =>
            rw [BitVec.lt_def] at ahead
            rw [BitVec.toNat_add]
            have step : (BitVec.ofNat 32 numeroDeMuestras).toNat = 1000 := rfl
            omega
        · exact Nat.zero_le _
  omega

variable (nonempty : 1 ≤ sizeSong.toNat) (noOverflow : NoOverflow sizeSong)
include nonempty noOverflow

/-- The counter goes through the starts of the chunks and one value past the last of them. -/
theorem counter_eq (n : Nat) :
    (played sizeSong n).addressCounter.toNat = 1000 * (n % (chunks sizeSong.toNat + 1)) := by
  have positive : 1 ≤ chunks sizeSong.toNat := (chunk_start_lt sizeSong.toNat 0).mp nonempty
  induction n with
  | zero => rw [Nat.zero_mod]; rfl
  | succ n ih =>
      have fits := noOverflow n
      have step : (BitVec.ofNat 32 numeroDeMuestras).toNat = 1000 := rfl
      have ahead : (played sizeSong n).addressCounter < sizeSong ↔
          n % (chunks sizeSong.toNat + 1) < chunks sizeSong.toNat := by
        rw [BitVec.lt_def, ih, chunk_start_lt]
      rw [played_succ, task1_playing, ← cycle_next positive]
      dsimp only
      by_cases inside : n % (chunks sizeSong.toNat + 1) < chunks sizeSong.toNat
      · rw [if_pos (ahead.mpr inside), if_pos inside, BitVec.toNat_add, step]
        omega
      · rw [if_neg (ahead.not.mpr inside), if_neg inside]
        rfl

theorem chunk_reads (n : Nat) :
    sendAudioFifo sizeSong ((played sizeSong n).addressCounter % sizeSong).toNat =
      (List.range 1000).map fun i => index sizeSong.toNat (1000 * n + i) := by
  apply List.map_congr_left
  intro i member
  have inside : i < 1000 := List.mem_range.mp member
  have position : (1000 * n + i) / 1000 = n ∧ (1000 * n + i) % 1000 = i := by omega
  have narrow : (BitVec.ofNat 32 i).toNat = i := by
    rw [BitVec.toNat_ofNat]
    omega
  rw [BitVec.toNat_umod, BitVec.toNat_umod, counter_eq nonempty noOverflow, narrow, index,
    position.1, position.2]

theorem reads_eq (n : Nat) :
    (played sizeSong n).reads = (List.range (1000 * n)).map (index sizeSong.toNat) := by
  induction n with
  | zero => rfl
  | succ n ih =>
      rw [played_succ, task1_playing, Nat.mul_succ, List.range_add, List.map_append, ← ih]
      dsimp only
      rw [chunk_reads nonempty noOverflow, List.map_map]
      rfl

/-- The property of all chunks, sample by sample. -/
theorem cyclic_iff_in_laps {flags : Nat → Flags} (plays : Plays flags) (song : Nat → BitVec 8) :
    Cyclic sizeSong flags song ↔ InLaps sizeSong.toNat song := by
  constructor
  · intro cyclic m
    have sent : m < 1000 * (m + 1) := by omega
    have inBounds := cyclic.inBounds (m + 1)
    have inOrder := cyclic.inOrder (m + 1) m
    rw [plays_played plays, reads_eq nonempty noOverflow] at inBounds
    rw [written, plays_played plays, reads_eq nonempty noOverflow] at inOrder
    refine ⟨inBounds _ (List.mem_map_of_mem (List.mem_range.mpr sent)), inOrder _ ?_⟩
    simp [sent]
  · intro inLaps
    constructor
    · intro n index member
      rw [plays_played plays, reads_eq nonempty noOverflow] at member
      obtain ⟨m, -, rfl⟩ := List.mem_map.mp member
      exact (inLaps m).1
    · intro n m sample sent
      rw [written, plays_played plays, reads_eq nonempty noOverflow] at sent
      have same : m < 1000 * n ∧ song (index sizeSong.toNat m) = sample := by
        simpa [List.getElem?_eq_some_iff] using sent
      rw [← same.2, (inLaps m).2]

end Played

/-- The samples come again after every chunk. -/
def Repeats (size : Nat) (song : Nat → BitVec 8) : Prop :=
  ∀ a, a + numeroDeMuestras < size → song (a + numeroDeMuestras) = song a

theorem divisor_in_laps {size : Nat} (nonempty : 1 ≤ size) (divides : size ∣ 1000)
    (song : Nat → BitVec 8) : InLaps size song := by
  intro m
  have start : 1000 * (m / 1000 % (chunks size + 1)) % size = 0 :=
    Nat.mod_eq_zero_of_dvd (Nat.dvd_mul_right_of_dvd divides _)
  have same : index size m = m % size := by
    rw [index, start, Nat.zero_add, Nat.mod_mod_of_dvd m divides]
  rw [same]
  exact ⟨Nat.mod_lt m nonempty, rfl⟩

section Whole
variable {count : Nat} (positive : 1 ≤ count)
include positive

theorem index_whole (m : Nat) :
    index (1000 * count) m = 1000 * (m / 1000 % (count + 1) % count) + m % 1000 := by
  have covered : chunks (1000 * count) = count := by
    unfold chunks
    omega
  have offset : m % 1000 % (1000 * count) = m % 1000 := Nat.mod_eq_of_lt (by omega)
  rw [index, covered, offset, Nat.mul_mod_mul_left]

theorem index_whole_lt (m : Nat) : index (1000 * count) m < 1000 * count := by
  have chunk := Nat.mod_lt (m / 1000 % (count + 1)) positive
  rw [index_whole positive]
  omega

/-- The second lap starts a chunk late. -/
theorem index_second_lap {a : Nat} (inside : a < 1000 * count) :
    index (1000 * count) (1000 * count + (a + 1000)) = a := by
  have chunk : (1000 * count + (a + 1000)) / 1000 = a / 1000 + (count + 1) := by omega
  have inCycle : a / 1000 % (count + 1) = a / 1000 := Nat.mod_eq_of_lt (by omega)
  have inLap : a / 1000 % count = a / 1000 := Nat.mod_eq_of_lt (by omega)
  rw [index_whole positive, chunk, Nat.add_mod_right, inCycle, inLap]
  omega

theorem whole_repeats {song : Nat → BitVec 8} (inLaps : InLaps (1000 * count) song) :
    Repeats (1000 * count) song := by
  intro a inside
  change a + 1000 < 1000 * count at inside
  have late := (inLaps (1000 * count + (a + 1000))).2
  rw [index_second_lap positive (by omega), Nat.add_mod_left, Nat.mod_eq_of_lt inside] at late
  exact late.symm

end Whole

theorem repeats_first {size : Nat} {song : Nat → BitVec 8} (repeats : Repeats size song) (a : Nat)
    (inside : a < size) : song a = song (a % 1000) := by
  induction a using Nat.strong_induction_on with
  | h a ih =>
      by_cases first : a < 1000
      · rw [Nat.mod_eq_of_lt first]
      · obtain ⟨b, rfl⟩ := Nat.exists_eq_add_of_le' (Nat.le_of_not_lt first)
        have before := ih b (by omega) (by omega)
        rw [Nat.add_mod_right, ← before]
        exact repeats b inside

theorem repeats_in_laps {count : Nat} (positive : 1 ≤ count) {song : Nat → BitVec 8}
    (repeats : Repeats (1000 * count) song) : InLaps (1000 * count) song := by
  intro m
  have inside := index_whole_lt positive m
  have target : m % (1000 * count) < 1000 * count := Nat.mod_lt m (by omega)
  refine ⟨inside, ?_⟩
  -- both samples are the one of the first chunk at the same offset
  rw [repeats_first repeats _ inside, repeats_first repeats _ target, Nat.mod_mul_right_mod,
    index_whole positive, Nat.mul_add_mod, Nat.mod_mod]

theorem index_past {size : Nat} (nonempty : 1 ≤ size) (divides : ¬ size ∣ 1000)
    (whole : ¬ 1000 ∣ size) : ∃ m, size ≤ index size m := by
  rcases Nat.lt_or_ge size 1000 with short | long
  · -- the second chunk starts inside the song and reads all of its length
    have covered : chunks size = 1 := by
      unfold chunks
      omega
    have start : 1000 % size ≠ 0 := fun zero => divides (Nat.dvd_of_mod_eq_zero zero)
    refine ⟨1000 + (size - 1), ?_⟩
    have position : (1000 + (size - 1)) / 1000 = 1 ∧ (1000 + (size - 1)) % 1000 = size - 1 := by
      omega
    rw [index, covered, position.1, position.2, Nat.mod_eq_of_lt (Nat.sub_lt nonempty Nat.one_pos)]
    change size ≤ 1000 % size + (size - 1)
    omega
  · -- the chunk that holds the end of the song runs past it
    have covered : chunks size = size / 1000 + 1 := by
      unfold chunks
      omega
    refine ⟨1000 * (size / 1000) + 999, ?_⟩
    have position : (1000 * (size / 1000) + 999) / 1000 = size / 1000 ∧
        (1000 * (size / 1000) + 999) % 1000 = 999 := by
      omega
    have startInside : 1000 * (size / 1000) % size = 1000 * (size / 1000) :=
      Nat.mod_eq_of_lt (by omega)
    rw [index, covered, position.1, position.2, Nat.mod_eq_of_lt (by omega : size / 1000 < _),
      startInside, Nat.mod_eq_of_lt long]
    omega

/-- For every length and content of the song: the samples come in laps exactly when the length
divides that of a chunk, or is a multiple of it and all chunks are alike. -/
theorem cyclic_iff {sizeSong : Word} {flags : Nat → Flags} (plays : Plays flags)
    (song : Nat → BitVec 8) (nonempty : 1 ≤ sizeSong.toNat) (noOverflow : NoOverflow sizeSong) :
    Cyclic sizeSong flags song ↔ sizeSong.toNat ∣ numeroDeMuestras ∨
      numeroDeMuestras ∣ sizeSong.toNat ∧ Repeats sizeSong.toNat song := by
  rw [cyclic_iff_in_laps nonempty noOverflow plays]
  constructor
  · intro inLaps
    by_cases divides : sizeSong.toNat ∣ 1000
    · exact .inl divides
    · by_cases whole : 1000 ∣ sizeSong.toNat
      · refine .inr ⟨whole, ?_⟩
        obtain ⟨count, size⟩ := whole
        rw [size] at inLaps ⊢
        exact whole_repeats (by omega) inLaps
      · obtain ⟨m, past⟩ := index_past nonempty divides whole
        exact absurd (inLaps m).1 (Nat.not_lt_of_le past)
  · rintro (divides | ⟨⟨count, size⟩, repeats⟩)
    · exact divisor_in_laps nonempty divides song
    · change sizeSong.toNat = 1000 * count at size
      rw [size] at repeats ⊢
      exact repeats_in_laps (by omega) repeats

/-- All three flags are set: the first one counts. -/
theorem cyclic_four : Cyclic 4 (fun _ => ⟨1, 1, 1⟩) fun a => BitVec.ofNat 8 a :=
  (cyclic_iff (fun _ => rfl) _ (by decide) (no_overflow (by decide))).mpr (.inl (by decide))

/-- With 1500 samples the second chunk reads the byte behind the song. -/
theorem past_1500 : NoOverflow 1500 ∧ (played 1500 2).reads[1500]? = some 1500 ∧
    ∀ flags, Plays flags → ∀ song, ¬ Cyclic 1500 flags song := by
  have noOverflow : NoOverflow 1500 := no_overflow (by decide)
  have read : (played 1500 2).reads[1500]? = some 1500 := by
    rw [reads_eq (by decide) noOverflow, List.getElem?_map, List.getElem?_range (by decide)]
    rfl
  refine ⟨noOverflow, read, fun flags plays song cyclic => ?_⟩
  rw [← plays_played plays] at read
  exact Nat.lt_irrefl 1500 (cyclic.inBounds 2 1500 (List.mem_of_getElem? read))

end Cpen311.SongPlayer
