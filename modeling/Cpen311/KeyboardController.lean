import Cpen311.PrefixCode
import Cpen311.ScanCodeReader

/-! `Keyboard_Controller`: scan bytes are collected in a buffer of eight until
`ScanCodeToEvent` recognises them. The recogniser is a table of code words that
is prefix free, so codes are told apart without any delimiter; but a byte that
starts no code is not skipped. -/
namespace Cpen311.KeyboardController
open ClockedRun Debounce Reports PrefixCode ScanCodeReader

/-- The cases of `ScanCodeToEvent`, in the order of the source: the bytes before the don't-cares,
and the event as `scan_events.h` numbers it. -/
def scanCodes : List (List Byte × Byte) :=
  [ ([0x76], 0x81), ([0x05], 0x82), ([0x06], 0x83), ([0x04], 0x84), ([0x0C], 0x85), ([0x03], 0x86),
    ([0x0B], 0x87), ([0x83], 0x88), ([0x0A], 0x89), ([0x01], 0x8A), ([0x09], 0x8B), ([0x78], 0x8C),
    ([0x07], 0x8D), ([0xE0, 0x12, 0xE0, 0x7C], 0x8E), ([0x7E], 0x8F),
    ([0xE1, 0x14, 0x77, 0xE1, 0xF0, 0x14, 0xE0, 0x77], 0x80), ([0x0E], 0x90), ([0x16], 0x91),
    ([0x1E], 0x92), ([0x26], 0x93), ([0x25], 0x94), ([0x2E], 0x95), ([0x36], 0x96), ([0x3D], 0x97),
    ([0x3E], 0x98), ([0x46], 0x99), ([0x45], 0x9A), ([0x4E], 0x9B), ([0x55], 0x9C), ([0x66], 0x9D),
    ([0x0D], 0x9E), ([0x15], 0x9F), ([0x1D], 0xA0), ([0x24], 0xA1), ([0x2D], 0xA2), ([0x2C], 0xA3),
    ([0x35], 0xA4), ([0x3C], 0xA5), ([0x43], 0xA6), ([0x44], 0xA7), ([0x4D], 0xA8), ([0x54], 0xA9),
    ([0x5B], 0xAA), ([0x5D], 0xAB), ([0x58], 0xAC), ([0x1C], 0xAD), ([0x1B], 0xAE), ([0x23], 0xAF),
    ([0x2B], 0xB0), ([0x34], 0xB1), ([0x33], 0xB2), ([0x3B], 0xB3), ([0x42], 0xB4), ([0x4B], 0xB5),
    ([0x4C], 0xB6), ([0x52], 0xB7), ([0x5A], 0xB8), ([0x12], 0xB9), ([0x1A], 0xBA), ([0x22], 0xBB),
    ([0x21], 0xBC), ([0x2A], 0xBD), ([0x32], 0xBE), ([0x31], 0xBF), ([0x3A], 0xC0), ([0x41], 0xC1),
    ([0x49], 0xC2), ([0x4A], 0xC3), ([0x59], 0xC4), ([0x14], 0xC5), ([0xE0, 0x1F], 0xC6),
    ([0x11], 0xC7), ([0x29], 0xC8), ([0xE0, 0x11], 0xC9), ([0xE0, 0x27], 0xCA),
    ([0xE0, 0x2F], 0xCB), ([0xE0, 0x14], 0xCC), ([0xE0, 0x70], 0xCD), ([0xE0, 0x6C], 0xCE),
    ([0xE0, 0x7D], 0xCF), ([0xE0, 0x71], 0xD0), ([0xE0, 0x69], 0xD1), ([0xE0, 0x7A], 0xD2),
    ([0xE0, 0x75], 0xD3), ([0xE0, 0x6B], 0xD4), ([0xE0, 0x72], 0xD5), ([0xE0, 0x74], 0xD6),
    ([0x77], 0xD7), ([0xE0, 0x4A], 0xD8), ([0x7C], 0xD9), ([0x7B], 0xDA), ([0x6C], 0xDB),
    ([0x75], 0xDC), ([0x7D], 0xDD), ([0x79], 0xDE), ([0x6B], 0xDF), ([0x73], 0xE0), ([0x74], 0xE1),
    ([0x69], 0xE2), ([0x72], 0xE3), ([0x7A], 0xE4), ([0x70], 0xE5), ([0x71], 0xE6),
    ([0xE0, 0x5A], 0xE7),
    -- BREAK CODES
    ([0xF0, 0x76], 0x01), ([0xF0, 0x05], 0x02), ([0xF0, 0x06], 0x03), ([0xF0, 0x04], 0x04),
    ([0xF0, 0x0C], 0x05), ([0xF0, 0x03], 0x06), ([0xF0, 0x0B], 0x07), ([0xF0, 0x83], 0x08),
    ([0xF0, 0x0A], 0x09), ([0xF0, 0x01], 0x0A), ([0xF0, 0x09], 0x0B), ([0xF0, 0x78], 0x0C),
    ([0xF0, 0x07], 0x0D), ([0xE0, 0xF0, 0x7C, 0xE0, 0xF0, 0x12], 0x0E), ([0xF0, 0x7E], 0x0F),
    ([0xF0, 0x0E], 0x10), ([0xF0, 0x16], 0x11), ([0xF0, 0x1E], 0x12), ([0xF0, 0x26], 0x13),
    ([0xF0, 0x25], 0x14), ([0xF0, 0x2E], 0x15), ([0xF0, 0x36], 0x16), ([0xF0, 0x3D], 0x17),
    ([0xF0, 0x3E], 0x18), ([0xF0, 0x46], 0x19), ([0xF0, 0x45], 0x1A), ([0xF0, 0x4E], 0x1B),
    ([0xF0, 0x55], 0x1C), ([0xF0, 0x66], 0x1D), ([0xF0, 0x0D], 0x1E), ([0xF0, 0x15], 0x1F),
    ([0xF0, 0x1D], 0x20), ([0xF0, 0x24], 0x21), ([0xF0, 0x2D], 0x22), ([0xF0, 0x2C], 0x23),
    ([0xF0, 0x35], 0x24), ([0xF0, 0x3C], 0x25), ([0xF0, 0x43], 0x26), ([0xF0, 0x44], 0x27),
    ([0xF0, 0x4D], 0x28), ([0xF0, 0x54], 0x29), ([0xF0, 0x5B], 0x2A), ([0xF0, 0x5D], 0x2B),
    ([0xF0, 0x58], 0x2C), ([0xF0, 0x1C], 0x2D), ([0xF0, 0x1B], 0x2E), ([0xF0, 0x23], 0x2F),
    ([0xF0, 0x2B], 0x30), ([0xF0, 0x34], 0x31), ([0xF0, 0x33], 0x32), ([0xF0, 0x3B], 0x33),
    ([0xF0, 0x42], 0x34), ([0xF0, 0x4B], 0x35), ([0xF0, 0x4C], 0x36), ([0xF0, 0x52], 0x37),
    ([0xF0, 0x5A], 0x38), ([0xF0, 0x12], 0x39), ([0xF0, 0x1A], 0x3A), ([0xF0, 0x22], 0x3B),
    ([0xF0, 0x21], 0x3C), ([0xF0, 0x2A], 0x3D), ([0xF0, 0x32], 0x3E), ([0xF0, 0x31], 0x3F),
    ([0xF0, 0x3A], 0x40), ([0xF0, 0x41], 0x41), ([0xF0, 0x49], 0x42), ([0xF0, 0x4A], 0x43),
    ([0xF0, 0x59], 0x44), ([0xF0, 0x14], 0x45), ([0xE0, 0xF0, 0x1F], 0x46), ([0xF0, 0x11], 0x47),
    ([0xF0, 0x29], 0x48), ([0xE0, 0xF0, 0x11], 0x49), ([0xE0, 0xF0, 0x27], 0x4A),
    ([0xE0, 0xF0, 0x2F], 0x4B), ([0xE0, 0xF0, 0x14], 0x4C), ([0xE0, 0xF0, 0x70], 0x4D),
    ([0xE0, 0xF0, 0x6C], 0x4E), ([0xE0, 0xF0, 0x7D], 0x4F), ([0xE0, 0xF0, 0x71], 0x50),
    ([0xE0, 0xF0, 0x69], 0x51), ([0xE0, 0xF0, 0x7A], 0x52), ([0xE0, 0xF0, 0x75], 0x53),
    ([0xE0, 0xF0, 0x6B], 0x54), ([0xE0, 0xF0, 0x72], 0x55), ([0xE0, 0xF0, 0x74], 0x56),
    ([0xF0, 0x77], 0x57), ([0xE0, 0xF0, 0x4A], 0x58), ([0xF0, 0x7C], 0x59), ([0xF0, 0x7B], 0x5A),
    ([0xF0, 0x6C], 0x5B), ([0xF0, 0x75], 0x5C), ([0xF0, 0x7D], 0x5D), ([0xF0, 0x79], 0x5E),
    ([0xF0, 0x6B], 0x5F), ([0xF0, 0x73], 0x60), ([0xF0, 0x74], 0x61), ([0xF0, 0x69], 0x62),
    ([0xF0, 0x72], 0x63), ([0xF0, 0x7A], 0x64), ([0xF0, 0x70], 0x65), ([0xF0, 0x71], 0x66),
    ([0xE0, 0xF0, 0x5A], 0x67)]

def scNone : Byte := 0x00

structure Pins where
  ps2Clk : Bool
  ps2Dat : Bool
  reset : Bool

structure Keyboard where
  reader : Reader
  scanBytes : Vector Byte 8
  scanByteCntr : BitVec 3
  eventReady : Bool
  eventType : Byte

/-- `ScanCodeToEvent` on the concatenated bytes. -/
def scanCodeToEvent (scanBytes : Vector Byte 8) : Option Byte := lookup scanCodes scanBytes.toList

/-- `iRead` of the reader is its own `oScanReady`. -/
def readerPins (i : Pins) (s : Keyboard) : ScanCodeReader.Pins :=
  ⟨i.ps2Clk, i.ps2Dat, i.reset, s.reader.scanReady⟩

def noBytes : Vector Byte 8 := Vector.replicate 8 0

/-- One rising edge of `iCLK`. -/
def Keyboard.clock (i : Pins) (s : Keyboard) : Keyboard :=
  let event := scanCodeToEvent s.scanBytes
  let reader := s.reader.clock (readerPins i s)
  if i.reset then
    { reader, scanBytes := noBytes, scanByteCntr := 0, eventReady := false, eventType := 0 }
  else
    { reader
      eventReady := event.isSome
      eventType := event.getD scNone
      scanBytes :=
        if event.isSome then noBytes
        else if s.reader.scanReady then
          s.scanBytes.setIfInBounds s.scanByteCntr.toNat s.reader.scanByte
        else s.scanBytes
      scanByteCntr :=
        if event.isSome then 0
        else if s.reader.scanReady then s.scanByteCntr + 1
        else s.scanByteCntr }

/-- The event that the outputs show. -/
def shown (s : Keyboard) : Option Byte := if s.eventReady then some s.eventType else none

/-! The parser, byte by byte. -/
structure Buffer where
  bytes : Vector Byte 8
  cntr : BitVec 3

def Buffer.empty : Buffer := ⟨noBytes, 0⟩

def Buffer.store (x : Byte) (b : Buffer) : Buffer :=
  ⟨b.bytes.setIfInBounds b.cntr.toNat x, b.cntr + 1⟩

def Buffer.next (x : Byte) (b : Buffer) : Buffer :=
  if (scanCodeToEvent (b.store x).bytes).isSome then Buffer.empty else b.store x

def Buffer.after (b : Buffer) (xs : List Byte) : Buffer := xs.foldl (fun b x => b.next x) b

def Buffer.events : Buffer → List Byte → List Byte
  | _, [] => []
  | b, x :: xs => (scanCodeToEvent (b.store x).bytes).toList ++ (b.next x).events xs

theorem events_append (b : Buffer) (xs ys : List Byte) :
    b.events (xs ++ ys) = b.events xs ++ (b.after xs).events ys := by
  induction xs generalizing b with
  | nil => rfl
  | cons x xs ih => simp [Buffer.events, Buffer.after, ih, List.append_assoc]

theorem after_append (b : Buffer) (xs ys : List Byte) :
    b.after (xs ++ ys) = (b.after xs).after ys :=
  List.foldl_append

/-! The table as a whole. -/
theorem codes_free : PrefixFree 0 scanCodes where
  free := by
    have checked : ∀ row ∈ scanCodes, ∀ other ∈ scanCodes,
        row.1.isPrefixOf other.1 = true → row = other := by decide +kernel
    intro row member other listed early
    exact checked row member other listed (by simpa using early)
  unpadded := by decide +kernel
  nonempty := by decide +kernel

theorem codes_fit : ∀ row ∈ scanCodes, row.1.length ≤ 8 := by decide +kernel

theorem no_event_empty : scanCodeToEvent noBytes = none :=
  lookup_none fun row member matching => by
    have clean := @prefix_unpadded Byte 0 row.1 [] 8 (codes_free.unpadded row member)
      (by simpa [noBytes] using matching)
    exact codes_free.nonempty row member (List.prefix_nil.mp clean)

section Parser
variable {row : List Byte × Byte} (listed : row ∈ scanCodes)

theorem store_bytes {b : Buffer} {received : List Byte} {n : Nat}
    (held : b.bytes.toList = received ++ List.replicate (n + 1) 0)
    (filled : b.cntr.toNat = received.length) (x : Byte) :
    (b.store x).bytes.toList = (received ++ [x]) ++ List.replicate n 0 := by
  simp only [Buffer.store, Vector.toList_setIfInBounds, held, filled]
  simp [List.replicate_succ]

include listed

theorem rest_parsed {received rest : List Byte} (word : row.1 = received ++ rest) (more : rest ≠ [])
    {b : Buffer} (held : b.bytes.toList = received ++ List.replicate (8 - received.length) 0)
    (filled : b.cntr.toNat = received.length) :
    b.events rest = [row.2] ∧ b.after rest = Buffer.empty := by
  have fits := codes_fit row listed
  induction rest generalizing received b with
  | nil => exact absurd rfl more
  | cons x rest ih =>
      rw [word, List.length_append, List.length_cons] at fits
      have stored := store_bytes (n := 7 - received.length)
        (by rwa [show 7 - received.length + 1 = 8 - received.length by omega]) filled x
      cases rest with
      | nil =>
          have found : scanCodeToEvent (b.store x).bytes = some row.2 := by
            rw [scanCodeToEvent, stored, ← word]
            exact lookup_complete codes_free listed _
          simp [Buffer.events, Buffer.after, Buffer.next, found]
      | cons y rest =>
          have open_ : scanCodeToEvent (b.store x).bytes = none := by
            rw [scanCodeToEvent, stored]
            refine lookup_begun codes_free listed ⟨y :: rest, by simp [word]⟩ (fun full => ?_) _
            have lengths := congrArg List.length full
            simp [word] at lengths
          have next : b.next x = b.store x := by simp [Buffer.next, open_]
          have step := @ih (received ++ [x]) (by simp [word]) (by simp) (b.store x)
            (by rw [stored, List.length_append, List.length_singleton,
                  show 7 - received.length = 8 - (received.length + 1) by omega])
            (by
              rw [List.length_cons] at fits
              simp [Buffer.store, BitVec.toNat_add, filled]
              omega)
          rw [Buffer.events, open_, next, Buffer.after, List.foldl_cons, next]
          exact step

theorem code_parsed : Buffer.empty.events row.1 = [row.2] ∧ Buffer.empty.after row.1 = Buffer.empty :=
  @rest_parsed row listed [] row.1 rfl (codes_free.nonempty row listed) Buffer.empty
    (by simp [Buffer.empty, noBytes]) rfl

end Parser

theorem codes_parsed {sent : List (List Byte × Byte)} (listed : ∀ row ∈ sent, row ∈ scanCodes) :
    Buffer.empty.events (sent.flatMap Prod.fst) = sent.map Prod.snd ∧
      Buffer.empty.after (sent.flatMap Prod.fst) = Buffer.empty := by
  induction sent with
  | nil => exact ⟨rfl, rfl⟩
  | cons row sent ih =>
      obtain ⟨event, emptied⟩ := code_parsed (listed row List.mem_cons_self)
      obtain ⟨events, after⟩ := ih fun other member => listed other (List.mem_cons_of_mem row member)
      rw [List.flatMap_cons, events_append, after_append, emptied, event, events, after]
      exact ⟨rfl, rfl⟩

/-! A byte that starts no code stays at the front of the buffer until the counter wraps. -/
def Foreign (x : Byte) : Prop := ∀ row ∈ scanCodes, row.1.head? ≠ some x

instance (x : Byte) : Decidable (Foreign x) :=
  inferInstanceAs (Decidable (∀ row ∈ scanCodes, row.1.head? ≠ some x))

theorem foreign_front {x : Byte} (foreign : Foreign x) {bytes : Vector Byte 8}
    (front : bytes.toList.head? = some x) : scanCodeToEvent bytes = none :=
  lookup_none fun row listed matching => by
    obtain ⟨tail, whole⟩ := matching
    refine foreign row listed ?_
    rw [← front, ← whole, List.head?_append_of_ne_nil _ (codes_free.nonempty row listed)]

theorem foreign_jams {x : Byte} (foreign : Foreign x) {b : Buffer}
    (front : b.bytes.toList.head? = some x) {xs : List Byte} (started : b.cntr.toNat ≠ 0)
    (room : b.cntr.toNat + xs.length ≤ 8) :
    b.events xs = [] ∧ (b.after xs).cntr.toNat = (b.cntr.toNat + xs.length) % 8 := by
  induction xs generalizing b with
  | nil => exact ⟨rfl, (Nat.mod_eq_of_lt b.cntr.isLt).symm⟩
  | cons y ys ih =>
      have kept : (b.store y).bytes.toList.head? = some x := by
        rw [Buffer.store, Vector.toList_setIfInBounds, List.head?_eq_getElem?, List.getElem?_set_ne started,
          ← List.head?_eq_getElem?, front]
      have none_ := foreign_front foreign kept
      have next : b.next y = b.store y := by simp [Buffer.next, none_]
      have counted : (b.store y).cntr.toNat = (b.cntr.toNat + 1) % 8 := by
        simp [Buffer.store, BitVec.toNat_add]
      rw [List.length_cons] at room
      rw [Buffer.events, none_, Buffer.after, List.foldl_cons, next]
      cases ys with
      | nil => exact ⟨rfl, counted⟩
      | cons z zs =>
          rw [List.length_cons] at room
          obtain ⟨silent, count⟩ := ih kept (by omega) (by rw [List.length_cons]; omega)
          refine ⟨silent, count.trans ?_⟩
          simp only [List.length_cons]
          omega

/-- A key with a one-byte make code. -/
theorem single_found {row : List Byte × Byte} (listed : row ∈ scanCodes) {x : Byte}
    (single : row.1 = [x]) {b : Buffer} (wrapped : b.cntr = 0) :
    scanCodeToEvent (b.store x).bytes = some row.2 := by
  obtain ⟨tail, front⟩ : ∃ tail, (b.store x).bytes.toList = x :: tail := by
    have length := b.bytes.length_toList
    rw [Buffer.store, Vector.toList_setIfInBounds, wrapped]
    cases whole : b.bytes.toList with
    | nil => simp [whole] at length
    | cons y tail => exact ⟨tail, rfl⟩
  rw [scanCodeToEvent, front]
  refine lookup_only listed (by simp [single]) fun other member matching => ?_
  refine (codes_free.free row listed other member ?_).symm
  obtain ⟨y, word, shape⟩ := List.exists_cons_of_ne_nil (codes_free.nonempty other member)
  rw [shape, List.cons_prefix_cons] at matching
  rw [single, shape, matching.1]
  simp

/-- Eight presses of such a key bring the counter round, whatever the buffer holds. -/
theorem presses_resync {row : List Byte × Byte} (listed : row ∈ scanCodes) {x : Byte}
    (single : row.1 = [x]) {n : Nat} {b : Buffer} (enough : b.cntr = 0 ∧ 0 < n ∨ 9 ≤ b.cntr.toNat + n) :
    b.after (List.replicate n x) = Buffer.empty := by
  induction n generalizing b with
  | zero =>
      have := b.cntr.isLt
      omega
  | succ n ih =>
      rw [List.replicate_succ, Buffer.after, List.foldl_cons]
      by_cases recognised : (scanCodeToEvent (b.store x).bytes).isSome
      · rw [show b.next x = Buffer.empty by simp [Buffer.next, recognised]]
        cases n with
        | zero => rfl
        | succ n => exact ih (.inl ⟨rfl, Nat.succ_pos n⟩)
      · have started : b.cntr ≠ 0 := fun wrapped =>
          recognised (by rw [single_found listed single wrapped]; rfl)
        rw [show b.next x = b.store x by simp [Buffer.next, recognised]]
        refine ih ?_
        have counted : (b.store x).cntr.toNat = (b.cntr.toNat + 1) % 8 := by
          simp [Buffer.store, BitVec.toNat_add]
        have bound := enough.resolve_left fun wrapped => started wrapped.1
        have small := b.cntr.isLt
        have zero : (0 : BitVec 3).toNat = 0 := rfl
        rcases Nat.lt_or_ge b.cntr.toNat 7 with below | last
        · right
          omega
        · left
          rw [← BitVec.toNat_inj, counted, zero]
          omega

/-! The controller on the line. -/
def Keyboard.buffer (s : Keyboard) : Buffer := ⟨s.scanBytes, s.scanByteCntr⟩

/-- Between two scan bytes: nothing is on its way to the outputs. -/
structure Resting (s : Keyboard) : Prop where
  between : Between s.reader
  idle : scanCodeToEvent s.scanBytes = none
  quiet : s.eventReady = false

section Clock
variable {i : Pins} {s : Keyboard} (running : i.reset = false)
include running

theorem clock_waits (idle : scanCodeToEvent s.scanBytes = none) (unready : s.reader.scanReady = false) :
    (s.clock i).buffer = s.buffer ∧ (s.clock i).eventReady = false := by
  simp [Keyboard.clock, running, idle, unready, Keyboard.buffer]

theorem clock_stores (idle : scanCodeToEvent s.scanBytes = none) (ready : s.reader.scanReady = true) :
    (s.clock i).buffer = s.buffer.store s.reader.scanByte ∧ (s.clock i).eventReady = false := by
  simp [Keyboard.clock, running, idle, ready, Keyboard.buffer, Buffer.store]

theorem clock_recognises (unready : s.reader.scanReady = false) :
    (s.clock i).buffer = (if (scanCodeToEvent s.scanBytes).isSome then Buffer.empty else s.buffer) ∧
      shown (s.clock i) = scanCodeToEvent s.scanBytes := by
  cases event : scanCodeToEvent s.scanBytes with
  | none => simp [Keyboard.clock, running, event, unready, Keyboard.buffer, shown]
  | some e => simp [Keyboard.clock, running, event, Keyboard.buffer, Buffer.empty, shown]

end Clock

section Runs
variable {pins : Nat → Pins} {run : Nat → Keyboard} (isRun : ∀ t, run (t + 1) = (run t).clock (pins t))
  (running : ∀ t, (pins t).reset = false)
include isRun

theorem reader_run (t : Nat) :
    (run (t + 1)).reader = (run t).reader.clock (readerPins (pins t) (run t)) := by
  rw [isRun]
  unfold Keyboard.clock
  split <;> rfl

include running

theorem waits_along {a b : Nat} (idle : scanCodeToEvent (run a).scanBytes = none)
    (unready : ∀ t, a ≤ t → t < b → (run t).reader.scanReady = false)
    (quiet : (run a).eventReady = false) {t : Nat} (after : a ≤ t) (before : t ≤ b) :
    (run t).buffer = (run a).buffer ∧ (run t).eventReady = false := by
  induction t, after using Nat.le_induction with
  | base => exact ⟨rfl, quiet⟩
  | succ t after ih =>
      obtain ⟨same, -⟩ := ih (by omega)
      have idle' : scanCodeToEvent (run t).scanBytes = none :=
        (congrArg (fun b : Buffer => scanCodeToEvent b.bytes) same).trans idle
      rw [isRun, ← same]
      exact clock_waits (running t) idle' (unready t after before)

theorem frame_parsed {hold a c : Nat} (long : 13 ≤ hold) {frame : Frame} {rest : List Bool}
    (line : Carries 7 hold (fun t => (pins t).ps2Clk) (fun t => (pins t).ps2Dat) a
      (frame.bits ++ rest) c) (resting : Resting (run a)) :
    ∃ b, a ≤ b ∧
      Carries 7 hold (fun t => (pins t).ps2Clk) (fun t => (pins t).ps2Dat) b rest c ∧
      Resting (run b) ∧ (run b).buffer = (run a).buffer.next frame.byte ∧
      reported shown run a b =
        (scanCodeToEvent ((run a).buffer.store frame.byte).bytes).toList := by
  obtain ⟨b, later, line, between, u, delivered⟩ :=
    @frame_read (fun t => readerPins (pins t) (run t)) (fun t => (run t).reader) (reader_run isRun)
      (fun t => running t) hold a c 0 3 long (by decide) (fun t ready => ⟨0, Nat.le_refl 0, ready⟩)
      frame rest line resting.between
  have since := delivered.since
  have inside := delivered.inside
  have here := delivered.here
  simp only [taken, readerPins, Bool.and_self] at here
  obtain ⟨ready, byte⟩ : (run u).reader.scanReady = true ∧ (run u).reader.scanByte = frame.byte := by
    simpa using here
  have unready : ∀ t, a ≤ t → t < b → t ≠ u → (run t).reader.scanReady = false :=
    fun t after before other => by
      simpa [taken, readerPins] using delivered.elsewhere t after before other
  have before := fun t => @waits_along pins run isRun running a u resting.idle
    (fun t after early => unready t after (by omega) (by omega)) resting.quiet t
  -- the byte is stored, then its buffer is recognised, then the controller rests
  have same := (before u since (Nat.le_refl u)).1
  have idle : scanCodeToEvent (run u).scanBytes = none :=
    (congrArg (fun b : Buffer => scanCodeToEvent b.bytes) same).trans resting.idle
  have stores := clock_stores (running u) idle ready
  rw [← isRun, same, byte] at stores
  have recognises := clock_recognises (running (u + 1)) (unready (u + 1) (by omega) (by omega) (by omega))
  have bytes : (run (u + 1)).scanBytes = ((run a).buffer.store frame.byte).bytes :=
    congrArg Buffer.bytes stores.1
  rw [← isRun, stores.1, bytes] at recognises
  obtain ⟨buffer, event⟩ := recognises
  rw [show u + 1 + 1 = u + 2 by omega] at buffer event
  have idle' : scanCodeToEvent (run (u + 2)).buffer.bytes = none := by
    rw [buffer]
    split
    · exact no_event_empty
    · next absent => simpa using absent
  have waits := clock_waits (running (u + 2)) idle' (unready (u + 2) (by omega) (by omega) (by omega))
  rw [← isRun, show u + 2 + 1 = u + 3 by omega] at waits
  have behind := fun t => @waits_along pins run isRun running (u + 3) b
    ((congrArg (fun b : Buffer => scanCodeToEvent b.bytes) waits.1).trans idle')
    (fun t after early => unready t (by omega) early (by omega)) waits.2 t
  have silent : ∀ t, a ≤ t → t < b → t ≠ u + 2 → shown (run t) = none := by
    intro t after early other
    have off : (run t).eventReady = false := by
      rcases Nat.lt_trichotomy t (u + 1) with earlier | rfl | later
      · exact (before t after (by omega)).2
      · exact stores.2
      · exact (behind t (by omega) (by omega)).2
    simp [shown, off]
  obtain ⟨kept, off⟩ := behind b (by omega) (Nat.le_refl b)
  have final : (run b).buffer = (run a).buffer.next frame.byte := by
    rw [kept, waits.1, buffer]
    rfl
  refine ⟨b, later, line, ⟨between, ?_, off⟩, final, ?_⟩
  · exact (congrArg (fun b : Buffer => scanCodeToEvent b.bytes) (kept.trans waits.1)).trans idle'
  · cases found : scanCodeToEvent ((run a).buffer.store frame.byte).bytes with
    | none =>
        refine reported_nothing fun t after early => ?_
        by_cases now : t = u + 2
        · rw [now, event, found]
        · exact silent t after early now
    | some e => exact reported_once (by omega) (by omega) (event.trans found) silent

/-- The controller refines the parser, whatever the bytes are. -/
theorem frames_parsed {hold a c : Nat} (long : 13 ≤ hold) {frames : List Frame}
    (line : Carries 7 hold (fun t => (pins t).ps2Clk) (fun t => (pins t).ps2Dat) a
      (frames.flatMap Frame.bits) c) (resting : Resting (run a)) :
    a ≤ c ∧ Resting (run c) ∧
      (run c).buffer = (run a).buffer.after (frames.map Frame.byte) ∧
      reported shown run a c = (run a).buffer.events (frames.map Frame.byte) := by
  induction frames generalizing a with
  | nil =>
      cases line
      exact ⟨Nat.le_refl _, resting, rfl, reported_self _⟩
  | cons frame frames ih =>
      obtain ⟨b, later, line, resting, buffer, event⟩ := frame_parsed isRun running long line resting
      obtain ⟨after, resting, emptied, events⟩ := ih line resting
      refine ⟨Nat.le_trans later after, resting, ?_, ?_⟩
      · rw [emptied, buffer]
        rfl
      · rw [reported_append later after, event, events, buffer]
        rfl

/-- After a clock with `iRESET`, and at power-up, where all registers are zero. -/
structure Fresh (s : Keyboard) : Prop where
  cleared : Cleared s.reader
  emptied : s.buffer = Buffer.empty
  quiet : s.eventReady = false
  noEvent : s.eventType = scNone

theorem rest_parsing {hold s a : Nat} (long : 13 ≤ hold) (fresh : Fresh (run 0))
    (high : Phase 7 hold (fun t => (pins t).ps2Clk) true 0 s a)
    (idle : ∀ t < s + hold, (pins t).ps2Dat = true) :
    Resting (run a) ∧ (run a).buffer = Buffer.empty ∧ reported shown run 0 a = [] := by
  obtain ⟨between, unready⟩ :=
    @rest_between (fun t => readerPins (pins t) (run t)) (fun t => (run t).reader) (reader_run isRun)
      (fun t => running t) fresh.cleared hold s a (by omega) high idle
  have noEvent : ∀ t, (run t).buffer = Buffer.empty → scanCodeToEvent (run t).scanBytes = none :=
    fun t same => (congrArg (fun b : Buffer => scanCodeToEvent b.bytes) same).trans no_event_empty
  have waits := fun t => @waits_along pins run isRun running 0 a (noEvent 0 fresh.emptied)
    (fun t _ early => unready t (Nat.le_of_lt early)) fresh.quiet t (Nat.zero_le t)
  obtain ⟨same, off⟩ := waits a (Nat.le_refl a)
  refine ⟨⟨between, noEvent a (same.trans fresh.emptied), off⟩, same.trans fresh.emptied, ?_⟩
  exact reported_nothing fun t _ early => by
    simp [shown, (waits t (Nat.le_of_lt early)).2]

end Runs

def powerUp : Keyboard := ⟨⟨false, 0, 0, 0, false, false, false, 0⟩, noBytes, 0, false, 0⟩

theorem power_up_fresh : Fresh powerUp := ⟨⟨⟨rfl, rfl⟩, rfl, ⟨rfl, rfl⟩⟩, rfl, rfl, rfl⟩

theorem reset_fresh {i : Pins} (reset : i.reset = true) (s : Keyboard) : Fresh (s.clock i) := by
  rw [Keyboard.clock, if_pos reset]
  exact ⟨@reset_clears (readerPins i s) reset s.reader, rfl, rfl, rfl⟩

theorem sends_parsed {start : Keyboard} (fresh : Fresh start) {pins : Nat → Pins}
    (running : ∀ t, (pins t).reset = false) {hold c : Nat} (long : 13 ≤ hold) {frames : List Frame}
    (sends : Sends hold (fun t => (pins t).ps2Clk) (fun t => (pins t).ps2Dat) frames c) :
    Resting (drive Keyboard.clock pins start c) ∧
      (drive Keyboard.clock pins start c).buffer = Buffer.empty.after (frames.map Frame.byte) ∧
      reported shown (drive Keyboard.clock pins start) 0 c =
        Buffer.empty.events (frames.map Frame.byte) := by
  obtain ⟨s, a, high, idle, line⟩ := sends
  have isRun : ∀ t, drive Keyboard.clock pins start (t + 1) =
      (drive Keyboard.clock pins start t).clock (pins t) := fun t => rfl
  obtain ⟨resting, emptied, silent⟩ := rest_parsing isRun running long fresh high idle
  obtain ⟨later, resting, buffer, events⟩ := frames_parsed isRun running long line resting
  rw [emptied] at buffer events
  refine ⟨resting, buffer, ?_⟩
  rw [reported_append (Nat.zero_le a) later, silent, events]
  rfl

/-- Scan codes sent one after the other come out as their events, in order. -/
theorem events_in_order {start : Keyboard} (fresh : Fresh start) {pins : Nat → Pins}
    (running : ∀ t, (pins t).reset = false) {hold c : Nat} (long : 13 ≤ hold)
    {sent : List (List Byte × Byte)} (listed : ∀ row ∈ sent, row ∈ scanCodes) {frames : List Frame}
    (framed : frames.map Frame.byte = sent.flatMap Prod.fst)
    (sends : Sends hold (fun t => (pins t).ps2Clk) (fun t => (pins t).ps2Dat) frames c) :
    reported shown (drive Keyboard.clock pins start) 0 c = sent.map Prod.snd := by
  rw [(sends_parsed fresh running long sends).2.2, framed]
  exact (codes_parsed listed).1

/-- Ctrl pressed, the up arrow pressed and released, on a line with 40 clocks to each level. -/
theorem events_in_order_arrow :
    let frames := [⟨0x14, true, true⟩, ⟨0xE0, false, true⟩, ⟨0x75, false, true⟩,
      ⟨0xE0, false, true⟩, ⟨0xF0, true, true⟩, ⟨0x75, false, true⟩]
    let pins : Nat → Pins :=
      fun t => ⟨squareClk 40 t, squareDat 40 (frames.flatMap Frame.bits) t, false⟩
    reported shown (drive Keyboard.clock pins powerUp) 0 (40 * 133) = [0xC5, 0xD3, 0x53] := by
  intro frames pins
  exact @events_in_order _ power_up_fresh pins (fun _ => rfl) 40 (40 * 133) (by decide)
    [([0x14], 0xC5), ([0xE0, 0x75], 0xD3), ([0xE0, 0xF0, 0x75], 0x53)] (by decide +kernel) frames rfl
    (square_frames (by decide) frames []).1

/-- Between two codes, a byte that starts none swallows the next seven bytes, whatever they are; the
ninth is read. -/
theorem foreign_byte_swallows {start : Keyboard} (fresh : Fresh start) {pins : Nat → Pins}
    (running : ∀ t, (pins t).reset = false) {hold c : Nat} (long : 13 ≤ hold)
    {before : List (List Byte × Byte)} (read : ∀ row ∈ before, row ∈ scanCodes)
    {x : Byte} (foreign : Foreign x) {swallowed : List Byte} (seven : swallowed.length = 7)
    {row : List Byte × Byte} (known : row ∈ scanCodes) {y : Byte} (single : row.1 = [y])
    {sent : List (List Byte × Byte)} (listed : ∀ row ∈ sent, row ∈ scanCodes) {frames : List Frame}
    (framed : frames.map Frame.byte =
      before.flatMap Prod.fst ++ (x :: swallowed ++ y :: sent.flatMap Prod.fst))
    (sends : Sends hold (fun t => (pins t).ps2Clk) (fun t => (pins t).ps2Dat) frames c) :
    reported shown (drive Keyboard.clock pins start) 0 c =
      before.map Prod.snd ++ row.2 :: sent.map Prod.snd := by
  obtain ⟨events, emptied⟩ := codes_parsed read
  rw [(sends_parsed fresh running long sends).2.2, framed, events_append, events, emptied]
  have front : (Buffer.empty.store x).bytes.toList.head? = some x := by
    simp [Buffer.store, Buffer.empty, noBytes, List.replicate_succ]
  have none_ := foreign_front foreign front
  have next : Buffer.empty.next x = Buffer.empty.store x := by simp [Buffer.next, none_]
  have one : (Buffer.empty.store x).cntr.toNat = 1 := rfl
  obtain ⟨silent, wrapped⟩ :=
    @foreign_jams x foreign (Buffer.empty.store x) front swallowed (by rw [one]; decide) (by omega)
  have zero : ((Buffer.empty.store x).after swallowed).cntr = 0 := by
    rw [← BitVec.toNat_inj, wrapped, one, seven]
    rfl
  have found := single_found known single zero
  rw [List.cons_append, Buffer.events, none_, next, events_append, silent, Buffer.events, found,
    show ((Buffer.empty.store x).after swallowed).next y = Buffer.empty by simp [Buffer.next, found],
    (codes_parsed listed).1]
  rfl

/-- The up arrow, the report of a self test (`AA`), then the keys A and space. -/
theorem foreign_byte_swallows_self_test :
    let sent : List Byte :=
      [0xE0, 0x75, 0xAA, 0x1C, 0xF0, 0x1C, 0x29, 0xF0, 0x29, 0x1C, 0x29, 0xF0, 0x29]
    let frames := sent.map fun byte => ⟨byte, true, true⟩
    let pins : Nat → Pins :=
      fun t => ⟨squareClk 40 t, squareDat 40 (frames.flatMap Frame.bits) t, false⟩
    reported shown (drive Keyboard.clock pins powerUp) 0 (40 * 287) = [0xD3, 0xC8, 0x48] := by
  intro sent frames pins
  exact @foreign_byte_swallows _ power_up_fresh pins (fun _ => rfl) 40 (40 * 287) (by decide)
    [([0xE0, 0x75], 0xD3)] (by decide +kernel) 0xAA (by decide +kernel)
    [0x1C, 0xF0, 0x1C, 0x29, 0xF0, 0x29, 0x1C] rfl ([0x29], 0xC8) (by decide +kernel) 0x29 rfl
    [([0xF0, 0x29], 0x48)] (by decide +kernel) frames rfl
    (square_frames (by decide) frames []).1

/-- After any traffic at all, eight presses of a key with a one-byte code bring the controller
back: from then on every scan code is reported. -/
theorem presses_restore {start : Keyboard} (fresh : Fresh start) {pins : Nat → Pins}
    (running : ∀ t, (pins t).reset = false) {hold m c : Nat} (long : 13 ≤ hold)
    {row : List Byte × Byte} (known : row ∈ scanCodes) {y : Byte} (single : row.1 = [y])
    {history : List Byte} {earlier : List Frame}
    (presses : earlier.map Frame.byte = history ++ List.replicate 8 y)
    (sends : Sends hold (fun t => (pins t).ps2Clk) (fun t => (pins t).ps2Dat) earlier m)
    {sent : List (List Byte × Byte)} (listed : ∀ row ∈ sent, row ∈ scanCodes) {frames : List Frame}
    (framed : frames.map Frame.byte = sent.flatMap Prod.fst)
    (line : Carries 7 hold (fun t => (pins t).ps2Clk) (fun t => (pins t).ps2Dat) m
      (frames.flatMap Frame.bits) c) :
    reported shown (drive Keyboard.clock pins start) m c = sent.map Prod.snd := by
  have isRun : ∀ t, drive Keyboard.clock pins start (t + 1) =
      (drive Keyboard.clock pins start t).clock (pins t) := fun t => rfl
  obtain ⟨resting, buffer, -⟩ := @sends_parsed start fresh pins running hold m long earlier sends
  have resync := @presses_resync row known y single 8 (Buffer.empty.after history) (by
    by_cases wrapped : (Buffer.empty.after history).cntr = 0
    · exact .inl ⟨wrapped, by decide⟩
    · right
      have positive : (Buffer.empty.after history).cntr.toNat ≠ 0 := fun zero =>
        wrapped (BitVec.toNat_inj.mp zero)
      omega)
  rw [presses, after_append, resync] at buffer
  rw [(frames_parsed isRun running long line resting).2.2.2, buffer, framed]
  exact (codes_parsed listed).1

/-- After the self test and a key, eight times the space bar, then its release and the key A. -/
theorem presses_restore_space :
    let before : List Byte := [0xAA, 0x1C] ++ List.replicate 8 0x29
    let behind : List Byte := [0xF0, 0x29, 0x1C]
    let frame : Byte → Frame := fun byte => ⟨byte, true, true⟩
    let pins : Nat → Pins := fun t => ⟨squareClk 40 t,
      squareDat 40 ((before.map frame ++ behind.map frame).flatMap Frame.bits) t, false⟩
    reported shown (drive Keyboard.clock pins powerUp) (40 * 221) (40 * 287) = [0x48, 0xAD] := by
  intro before behind frame pins
  have line := @square_frames 40 (by decide) (before.map frame) (behind.map frame)
  exact @presses_restore _ power_up_fresh pins (fun _ => rfl) 40 (40 * 221) (40 * 287) (by decide)
    ([0x29], 0xC8) (by decide +kernel) 0x29 rfl [0xAA, 0x1C] (before.map frame) rfl line.1
    [([0xF0, 0x29], 0x48), ([0x1C], 0xAD)] (by decide +kernel) (behind.map frame) rfl line.2

end Cpen311.KeyboardController
