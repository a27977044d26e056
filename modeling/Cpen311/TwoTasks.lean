import Cpen311.SongPlayer
import Cpen311.TouchPanel

/-! The two tasks of lab5 together. `task1` has the higher priority, so one of its iterations
falls between any two statements of `task2`, also between the three writes by which the handler
of an icon sets the flags. No iteration sees more of that than a player whose icons act at once:
the click takes effect when its own flag is set, and an iteration that finds no flag set does
nothing. -/
namespace Cpen311.TwoTasks
open ClockedRun SongPlayer TouchPanel

/-- An assignment to the flag of an icon. -/
structure Write where
  flag : Icon
  value : BitVec 8

/-- The assignments at the end of the handler of an icon. -/
def writes : Icon → List Write
  | .play => [⟨.play, 1⟩, ⟨.pause, 0⟩, ⟨.stop, 0⟩]
  | .stop => [⟨.play, 0⟩, ⟨.pause, 0⟩, ⟨.stop, 1⟩]
  | .pause => [⟨.play, 0⟩, ⟨.pause, 1⟩, ⟨.stop, 0⟩]
  | .back | .ford => []

def write (flags : Flags) (w : Write) : Flags :=
  match w.flag with
  | .play => { flags with playSong := w.value }
  | .stop => { flags with stopSong := w.value }
  | .pause => { flags with pauseSong := w.value }
  | .back | .ford => flags

structure System where
  flags : Flags
  /-- What the handler under way has still to write. -/
  pending : List Write
  task1 : Task1

inductive Action
  | click (i : Icon)
  | write
  | iterate

/-- No click is looked at before the handler under way is through. -/
def step (sizeSong : Word) (action : Action) (s : System) : System :=
  match action with
  | .click i => if s.pending.isEmpty then { s with pending := writes i } else s
  | .write =>
      match s.pending with
      | [] => s
      | w :: rest => { s with flags := write s.flags w, pending := rest }
  | .iterate => { s with task1 := task1 sizeSong s.flags s.task1 }

def off : Flags := ⟨0, 0, 0⟩

def powerUp : System := ⟨off, [], start⟩

section Player

/-! The player without the flags. -/
inductive Event
  | press (i : Icon)
  | iterate
deriving DecidableEq

/-- `stop` goes back to the beginning at the next iteration that finds it, and without one before the
next click the song goes on where it was; the waits of the tasks, 10 and 100 ms, leave room for one. -/
structure Deck where
  pressed : Option Icon
  /-- The chunks that were played from each earlier beginning of the song. -/
  sessions : List Nat
  /-- The chunks played since. -/
  position : Nat

def Deck.iterate (d : Deck) : Deck :=
  match d.pressed with
  | some .play => { d with position := d.position + 1 }
  | some .stop => { d with sessions := d.sessions ++ [d.position], position := 0 }
  | _ => d

def Deck.apply (d : Deck) : Event → Deck
  | .press i => { d with pressed := some i }
  | .iterate => d.iterate

def deck (events : List Event) : Deck := events.foldl Deck.apply ⟨none, [], 0⟩

/-- Every session plays the song from its beginning. -/
def Deck.heard (sizeSong : Word) (d : Deck) : List Nat :=
  (d.sessions ++ [d.position]).flatMap fun n => (played sizeSong n).reads

def presses (events : List Event) : List Icon :=
  events.filterMap fun
    | .press i => some i
    | .iterate => none

end Player

/-- The icons whose flags are set by the writes. -/
def setting (pending : List Write) : List Icon :=
  pending.filterMap fun w => if w.value = 1 then some w.flag else none

/-- The flag that `task1` finds set. -/
def obeyed (flags : Flags) : Option Icon :=
  if flags.playSong = 1 then some .play
  else if flags.pauseSong = 1 then some .pause
  else if flags.stopSong = 1 then some .stop
  else none

/-- What the player takes notice of in a step. -/
def noticed (action : Action) (s : System) : List Event :=
  match action with
  | .click _ => []
  | .write => (setting (s.pending.take 1)).map .press
  | .iterate => if obeyed s.flags = none then [] else [.iterate]

/-- The click that a step accepts, if it has to do with a flag. -/
def accepted (action : Action) (s : System) : List Icon :=
  match action with
  | .click i => if s.pending.isEmpty ∧ i.hasFlag then [i] else []
  | _ => []

section Run
variable (sizeSong : Word) (schedule : Nat → Action)

def run (t : Nat) : System := drive (step sizeSong) schedule powerUp t

def history : Nat → List Event
  | 0 => []
  | t + 1 => history t ++ noticed (schedule t) (run sizeSong schedule t)

def clicks : Nat → List Icon
  | 0 => []
  | t + 1 => clicks t ++ accepted (schedule t) (run sizeSong schedule t)

/-- The flags between two clicks. -/
def settled : Option Icon → Flags
  | some i => (writes i).foldl write off
  | none => off

/-- The run up to `t` explained by a player whose icons act at once. -/
structure Explained (t : Nat) : Prop where
  /-- The same clicks, in the same order; one of which the flag is not yet set has no effect. -/
  same : presses (history sizeSong schedule t) ++ setting (run sizeSong schedule t).pending =
    clicks sizeSong schedule t
  /-- The same samples. -/
  heard : (run sizeSong schedule t).task1.reads =
    (deck (history sizeSong schedule t)).heard sizeSong
  /-- No iteration is left out once a click is through. -/
  counted : (run sizeSong schedule t).pending = [] → clicks sizeSong schedule t ≠ [] →
    noticed .iterate (run sizeSong schedule t) = [.iterate]

end Run

theorem setting_cons (w : Write) (rest : List Write) :
    setting (w :: rest) = setting [w] ++ setting rest :=
  List.filterMap_append (l := [w])

theorem setting_writes (i : Icon) : setting (writes i) = if i.hasFlag then [i] else [] := by
  cases i <;> rfl

theorem deck_append (first second : List Event) :
    deck (first ++ second) = second.foldl Deck.apply (deck first) :=
  List.foldl_append

theorem presses_press (pressed : List Icon) : presses (pressed.map .press) = pressed := by
  induction pressed with
  | nil => rfl
  | cons i rest ih => exact congrArg (i :: ·) ih

theorem task1_obeyed (sizeSong : Word) (flags : Flags) (s : Task1) :
    task1 sizeSong flags s =
      match obeyed flags with
      | some .play => task1 sizeSong playing s
      | some .stop => { s with addressCounter := 0 }
      | _ => s := by
  unfold task1 obeyed
  split
  · rfl
  · split
    · rfl
    · split <;> rfl

/-- Between its writes a handler leaves the flags as they were, or as it will leave them, or off,
in so far as `task1` can tell. -/
theorem obeyed_between (before : Option Icon) (i : Icon) :
    ∀ through ∈ (writes i).inits, obeyed (through.foldl write (settled before)) = none ∨
      obeyed (through.foldl write (settled before)) = (setting through).getLast?.or before := by
  cases i <;> rcases before with _ | (_ | _ | _ | _ | _) <;> decide

theorem settled_after (before : Option Icon) (i : Icon) :
    (writes i).foldl write (settled before) = settled ((setting (writes i)).getLast?.or before) := by
  cases i <;> rcases before with _ | (_ | _ | _ | _ | _) <;> rfl

/-- A handler has done a part of its writes. -/
structure During (s : System) (pressed before : Option Icon) (i : Icon) (through : List Write) :
    Prop where
  writes : writes i = through ++ s.pending
  flags : s.flags = through.foldl write (settled before)
  pressed : pressed = (setting through).getLast?.or before

theorem during_obeyed {s : System} {pressed before : Option Icon} {i : Icon}
    {through : List Write} (during : During s pressed before i through) :
    obeyed s.flags = none ∨ obeyed s.flags = pressed := by
  have inits : through ∈ (writes i).inits :=
    (List.mem_inits _ _).mpr ⟨s.pending, during.writes.symm⟩
  rw [during.flags, during.pressed]
  exact obeyed_between before i through inits

theorem during_settled {s : System} {pressed before : Option Icon} {i : Icon}
    {through : List Write} (during : During s pressed before i through)
    (quiet : s.pending = []) : s.flags = settled pressed := by
  have all : writes i = through := by rw [during.writes, quiet, List.append_nil]
  rw [during.flags, during.pressed, ← all, settled_after]

theorem during_click {s : System} {pressed before : Option Icon} {i : Icon}
    {through : List Write} (during : During s pressed before i through)
    (quiet : s.pending = []) (j : Icon) :
    During { s with pending := writes j } pressed pressed j [] :=
  have flags : s.flags = settled pressed := during_settled during quiet
  ⟨rfl, flags, rfl⟩

theorem during_write {s : System} {pressed before : Option Icon} {i : Icon}
    {through : List Write} (during : During s pressed before i through) {w : Write}
    {rest : List Write} (more : s.pending = w :: rest) :
    During { s with flags := write s.flags w, pending := rest }
      ((setting [w]).getLast?.or pressed) before i (through ++ [w]) where
  writes := by rw [during.writes, more, List.append_assoc, List.singleton_append]
  flags := by rw [List.foldl_append, ← during.flags]; rfl
  pressed := by
    have both : setting (through ++ [w]) = setting through ++ setting [w] :=
      List.filterMap_append
    rw [both, List.getLast?_append, Option.or_assoc, during.pressed]

/-- What the player has pressed and played explains the state. -/
structure Tracks (sizeSong : Word) (s : System) (d : Deck) : Prop where
  during : ∃ before i through, During s d.pressed before i through
  counter : s.task1.addressCounter = (played sizeSong d.position).addressCounter
  heard : s.task1.reads = d.heard sizeSong

theorem deck_press (d : Deck) (pressed : List Icon) :
    (pressed.map Event.press).foldl Deck.apply d =
      { d with pressed := pressed.getLast?.or d.pressed } := by
  induction pressed generalizing d with
  | nil => rfl
  | cons i rest ih =>
      rw [List.map_cons, List.foldl_cons, ih]
      cases rest with
      | nil => rfl
      | cons j rest => rfl

theorem heard_chunk (sizeSong : Word) (d : Deck) {s : Task1}
    (counter : s.addressCounter = (played sizeSong d.position).addressCounter)
    (heard : s.reads = d.heard sizeSong) :
    (task1 sizeSong playing s).reads =
      Deck.heard sizeSong { d with position := d.position + 1 } := by
  have chunk : (played sizeSong (d.position + 1)).reads = (played sizeSong d.position).reads ++
      sendAudioFifo sizeSong ((played sizeSong d.position).addressCounter % sizeSong).toNat := by
    rw [played_succ, task1_playing]
  rw [task1_playing, Deck.heard, List.flatMap_append, List.flatMap_singleton, chunk, counter, heard,
    Deck.heard, List.flatMap_append, List.flatMap_singleton, List.append_assoc]

theorem heard_rewind (sizeSong : Word) (d : Deck) :
    Deck.heard sizeSong { d with sessions := d.sessions ++ [d.position], position := 0 } =
      d.heard sizeSong := by
  simp [Deck.heard, played, drive, start]

theorem iterate_pressed (d : Deck) : d.iterate.pressed = d.pressed := by
  unfold Deck.iterate
  split <;> rfl

theorem iterate_play {d : Deck} (pressed : d.pressed = some .play) :
    d.iterate = { d with position := d.position + 1 } := by
  simp [Deck.iterate, pressed]

theorem iterate_stop {d : Deck} (pressed : d.pressed = some .stop) :
    d.iterate = { d with sessions := d.sessions ++ [d.position], position := 0 } := by
  simp [Deck.iterate, pressed]

theorem iterate_other {d : Deck} {i : Icon} (pressed : d.pressed = some i) (still : i ≠ .play)
    (kept : i ≠ .stop) : d.iterate = d := by
  cases i <;> first | contradiction | simp [Deck.iterate, pressed]

section Step
variable {sizeSong : Word} {s : System} {d : Deck} (tracks : Tracks sizeSong s d)
include tracks

theorem tracks_click (i : Icon) : Tracks sizeSong (step sizeSong (.click i) s) d := by
  obtain ⟨⟨before, j, through, during⟩, counter, heard⟩ := tracks
  cases pending : s.pending with
  | nil =>
      have taken : step sizeSong (.click i) s = { s with pending := writes i } := by
        simp [step, pending]
      rw [taken]
      exact ⟨⟨_, _, _, during_click during pending i⟩, counter, heard⟩
  | cons w rest =>
      have waits : step sizeSong (.click i) s = s := by simp [step, pending]
      rw [waits]
      exact ⟨⟨before, j, through, during⟩, counter, heard⟩

theorem tracks_write :
    Tracks sizeSong (step sizeSong .write s) ((noticed .write s).foldl Deck.apply d) := by
  obtain ⟨⟨before, i, through, during⟩, counter, heard⟩ := tracks
  rw [noticed, deck_press]
  cases pending : s.pending with
  | nil =>
      have through' : step sizeSong .write s = s := by simp [step, pending]
      rw [through']
      exact ⟨⟨before, i, through, during⟩, counter, heard⟩
  | cons w rest =>
      have written : step sizeSong .write s =
          { s with flags := write s.flags w, pending := rest } := by
        simp [step, pending]
      rw [written]
      exact ⟨⟨_, _, _, during_write during pending⟩, counter, heard⟩

theorem tracks_iterate :
    Tracks sizeSong (step sizeSong .iterate s) ((noticed .iterate s).foldl Deck.apply d) := by
  obtain ⟨⟨before, i, through, during⟩, counter, heard⟩ := tracks
  have acts := task1_obeyed sizeSong s.flags s.task1
  cases found : obeyed s.flags with
  | none =>
      rw [found] at acts
      have ignored : noticed .iterate s = [] := if_pos found
      have same : step sizeSong .iterate s = s := by simp only [step, acts]
      rw [ignored, same]
      exact ⟨⟨before, i, through, during⟩, counter, heard⟩
  | some j =>
      rw [found] at acts
      have taken : noticed .iterate s = [.iterate] := if_neg (by rw [found]; nofun)
      have pressed : d.pressed = some j := by
        rcases during_obeyed during with unset | same
        · rw [found] at unset
          cases unset
        · rw [← same, found]
      have still : During (step sizeSong .iterate s) d.iterate.pressed before i through :=
        ⟨during.writes, during.flags, by rw [iterate_pressed, during.pressed]⟩
      rw [taken]
      suffices played : (task1 sizeSong s.flags s.task1).addressCounter =
          (played sizeSong d.iterate.position).addressCounter ∧
            (task1 sizeSong s.flags s.task1).reads = d.iterate.heard sizeSong from
        ⟨⟨before, i, through, still⟩, played.1, played.2⟩
      rw [acts]
      cases j with
      | play =>
          rw [iterate_play pressed]
          refine ⟨?_, heard_chunk sizeSong d counter heard⟩
          rw [played_succ, task1_playing, task1_playing, counter]
      | stop =>
          rw [iterate_stop pressed]
          exact ⟨rfl, heard.trans (heard_rewind sizeSong d).symm⟩
      | pause | back | ford =>
          rw [iterate_other pressed nofun nofun]
          exact ⟨counter, heard⟩

end Step

section Run
variable (sizeSong : Word) (schedule : Nat → Action)

theorem run_succ (t : Nat) :
    run sizeSong schedule (t + 1) = step sizeSong (schedule t) (run sizeSong schedule t) := rfl

theorem tracks_run (t : Nat) :
    Tracks sizeSong (run sizeSong schedule t) (deck (history sizeSong schedule t)) := by
  induction t with
  | zero => exact ⟨⟨none, .back, [], rfl, rfl, rfl⟩, rfl, rfl⟩
  | succ t ih =>
      rw [history, deck_append, run_succ]
      cases schedule t with
      | click i => exact tracks_click ih i
      | write => exact tracks_write ih
      | iterate => exact tracks_iterate ih

theorem same_clicks (t : Nat) :
    presses (history sizeSong schedule t) ++ setting (run sizeSong schedule t).pending =
      clicks sizeSong schedule t := by
  induction t with
  | zero => rfl
  | succ t ih =>
      have both : presses (history sizeSong schedule (t + 1)) =
          presses (history sizeSong schedule t) ++
            presses (noticed (schedule t) (run sizeSong schedule t)) := List.filterMap_append
      rw [both, clicks, run_succ, ← ih, List.append_assoc, List.append_assoc]
      congr 1
      cases schedule t with
      | click i =>
          cases pending : (run sizeSong schedule t).pending with
          | nil =>
              have flags := setting_writes i
              have quiet : setting [] = [] := rfl
              simp [noticed, presses, step, accepted, pending, flags, quiet]
          | cons w rest => simp [noticed, presses, step, accepted, pending]
      | write =>
          rw [noticed, presses_press]
          cases pending : (run sizeSong schedule t).pending with
          | nil => simp [step, accepted, pending, setting]
          | cons w rest => simp [step, accepted, pending, setting_cons w rest]
      | iterate =>
          by_cases unset : obeyed (run sizeSong schedule t).flags = none <;>
            simp [noticed, presses, step, accepted, unset]

theorem clicks_flagged (t : Nat) : ∀ i ∈ clicks sizeSong schedule t, i.hasFlag := by
  induction t with
  | zero => nofun
  | succ t ih =>
      intro i member
      rcases List.mem_append.mp member with earlier | now
      · exact ih i earlier
      · cases action : schedule t with
        | click j =>
            rw [action, accepted] at now
            split at now
            · next taken =>
                rw [List.mem_singleton.mp now]
                exact taken.2
            · cases now
        | write | iterate =>
            rw [action] at now
            cases now

theorem deck_pressed (events : List Event) :
    (deck events).pressed = (presses events).getLast? := by
  induction events using List.reverseRecOn with
  | nil => rfl
  | append_singleton events event ih =>
      rw [deck_append, List.foldl_cons, List.foldl_nil, presses, List.filterMap_append]
      cases event with
      | press i => exact List.getLast?_concat.symm
      | iterate => 
          rw [Deck.apply, iterate_pressed, ih, presses]
          simp

theorem settled_obeyed {i : Icon} (has : i.hasFlag) : obeyed (settled (some i)) ≠ none := by
  cases i <;> first | contradiction | decide

theorem counted (t : Nat) (quiet : (run sizeSong schedule t).pending = [])
    (clicked : clicks sizeSong schedule t ≠ []) :
    noticed .iterate (run sizeSong schedule t) = [.iterate] := by
  obtain ⟨⟨before, i, through, during⟩, -, -⟩ := tracks_run sizeSong schedule t
  have flags := during_settled during quiet
  have same := same_clicks sizeSong schedule t
  rw [quiet, show setting [] = [] from rfl, List.append_nil] at same
  have last := List.getLast?_eq_some_getLast clicked
  rw [deck_pressed, same, last] at flags
  have has := clicks_flagged sizeSong schedule t _ (List.getLast_mem clicked)
  exact if_neg (by rw [flags]; exact settled_obeyed has)

/-- Under every interleaving of the two tasks. -/
theorem clicks_at_once (t : Nat) : Explained sizeSong schedule t where
  same := same_clicks sizeSong schedule t
  heard := (tracks_run sizeSong schedule t).heard
  counted := counted sizeSong schedule t

end Run

/-! The handler of an icon of the panel makes these writes. -/
def Panel.flags (s : Panel) : Flags := ⟨s.playSong, s.pauseSong, s.stopSong⟩

theorem icon_handler_flags (images : Images) (i : Icon) (s : Panel) :
    Panel.flags (iconHandler images i s) = (writes i).foldl write (Panel.flags s) := by
  cases i <;> rfl

end Cpen311.TwoTasks
