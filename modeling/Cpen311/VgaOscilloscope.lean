import Mathlib.Data.BitVec
import Mathlib.Tactic.Ring

/-! The oscilloscope that lab5 draws over the picture of the processor (`plot_graph.v` with
`hack_ltm_sincronization.v`): from the samples and the data enable of the picture to the pixels. -/
namespace Cpen311.VgaOscilloscope

abbrev Count := BitVec 11

abbrev Address := BitVec 10

abbrev Word := BitVec 10

abbrev Sample := BitVec 12

/-! The counters of `hack_ltm_sincronization`. -/
structure Counters where
  countX : Count
  countY : Count
  lineRdy : Bool

/-- A falling edge of `clk_lcd`; the falling edge of `line_rdy` clocks `count_y`. -/
def Counters.negedge (denLcd : Bool) (c : Counters) : Counters where
  countX := if denLcd then if c.countX < 800 then c.countX + 1 else 0 else 0
  countY :=
    if c.lineRdy && !denLcd then if c.countY < 599 then c.countY + 1 else 0 else c.countY
  lineRdy := denLcd

/-! `plot_graph`, and the values at its ports that are constants in `dds_and_nios_lab`. -/
def posX : Count := 0

def witdh : Count := 640

def height : Count := 2

def lineWidth : Count := 0

/-- `numwords_a` of `sdram1`; an address from here on has no word. -/
def numwords : Nat := 640

structure Scope where
  counters : Counters
  sdramAddWrite : Address
  difScroll : Address
  banderaScrollFx : Bool
  sdram : Address → Word
  /-- The registered read address of `sdram1`. -/
  rdaddress : Address
  sdramOut : Word
  sdramOutAnt : Word

def powerUp (sdram : Address → Word) : Scope where
  counters := ⟨0, 0, false⟩
  sdramAddWrite := 640
  difScroll := 0
  banderaScrollFx := false
  sdram := sdram
  rdaddress := 0
  sdramOut := 0
  sdramOutAnt := 0

def dataGraph (data : Sample) : BitVec 8 := ~~~data.extractLsb' 11 1 ++ data.extractLsb' 4 7

/-- A rising edge of `data_graph_rdy`. -/
def Scope.sample (data : BitVec 8) (scrollEn : Bool) (s : Scope) : Scope :=
  let last := s.sdramAddWrite.setWidth 11 ≥ witdh - 1
  { s with
    sdram := fun a =>
      if a = s.sdramAddWrite ∧ a.toNat < numwords then data.signExtend 10 else s.sdram a
    sdramAddWrite :=
      if last then if scrollEn then s.sdramAddWrite + 1 else 0 else s.sdramAddWrite + 1
    banderaScrollFx := if last then scrollEn else s.banderaScrollFx
    difScroll := if scrollEn then if s.banderaScrollFx then s.difScroll + 1 else 0 else 0 }

/-- A rising edge of `display_clk`. -/
def Scope.posedge (s : Scope) : Scope :=
  { s with
    rdaddress := s.counters.countX.setWidth 10 + s.difScroll - posX.setWidth 10
    sdramOut := s.sdram s.rdaddress
    sdramOutAnt := ~~~s.sdramOut }

/-- `Graph_on`, which the picture takes over at the falling edge, before the counters move. -/
def Scope.graphOn (posY : Count) (scrollEn : Bool) (s : Scope) : Bool :=
  let x := s.counters.countX
  let y := s.counters.countY
  let ant := (s.sdramOutAnt.setWidth 8).setWidth 11 / height + posY
  let out1 := ((~~~s.sdramOut).setWidth 8).setWidth 11 / height + posY
  let pendienteFX :=
    if y + lineWidth ≥ ant then y ≤ out1 && y + lineWidth ≥ ant
    else if y ≤ ant then y + lineWidth ≥ out1 && y ≤ ant
    else false
  let verticalLine :=
    if scrollEn = false then
      (x.setWidth 10).setWidth 11 + s.difScroll.setWidth 11 - posX = s.sdramAddWrite.setWidth 11 &&
        y ≥ posY && y ≤ 255 / height + posY
    else false
  verticalLine || pendienteFX && x ≥ posX && x ≤ witdh + posX && y ≤ 255 / height + posY

inductive Edge
  | sample (data : Sample) (scrollEn : Bool)
  /-- A period of the video clock, which begins with its rising edge. A sample within it comes after
  it, for the falling edge moves the counters alone. -/
  | display (denLcd : Bool)

def Scope.step (s : Scope) : Edge → Scope
  | .sample data scrollEn => s.sample (dataGraph data) scrollEn
  | .display denLcd => { s.posedge with counters := s.counters.negedge denLcd }

/-- The state after a history, which has its latest edge first. -/
def after (sdram : Address → Word) : List Edge → Scope
  | [] => powerUp sdram
  | e :: history => (after sdram history).step e

/-! What a history says of the picture and of the samples. -/
def column : List Edge → Nat
  | [] => 0
  | .sample _ _ :: history => column history
  | .display den :: history => if den then column history + 1 else 0

def inLine : List Edge → Bool
  | [] => false
  | .sample _ _ :: history => inLine history
  | .display den :: _ => den

/-- The lines that have ended. -/
def lines : List Edge → Nat
  | [] => 0
  | .sample _ _ :: history => lines history
  | .display den :: history =>
      if inLine history && !den then lines history + 1 else lines history

def samples : List Edge → List Sample
  | [] => []
  | .sample data _ :: history => data :: samples history
  | .display _ :: history => samples history

/-- The switch is in this position at the samples. -/
def Edge.Switch (scrollEn : Bool) : Edge → Prop
  | .sample _ on => on = scrollEn
  | .display _ => True

def Edge.IsSample : Edge → Prop
  | .sample _ _ => True
  | .display _ => False

/-- The edges up to a pixel: the last two periods of the picture before its own, and samples. -/
def upTo (latest middle earlier : List Edge) : List Edge :=
  latest ++ .display true :: (middle ++ .display true :: earlier)

def Scope.through (edges : List Edge) (s : Scope) : Scope :=
  edges.foldr (fun e before => before.step e) s

/-- The state at the falling edge of a pixel's own period, with the samples since its rising edge. -/
def Scope.falling (during : List Edge) (s : Scope) : Scope := s.posedge.through during

section Counters
variable (sdram : Address → Word) (history : List Edge)

theorem count_x : (after sdram history).counters.countX.toNat = column history % 801 := by
  induction history with
  | nil => rfl
  | cons e history ih =>
      cases e with
      | sample data on => exact ih
      | display den =>
          cases den with
          | false => rfl
          | true =>
              change (if (after sdram history).counters.countX < 800 then
                (after sdram history).counters.countX + 1 else 0).toNat = (column history + 1) % 801
              split <;> bv_omega

theorem line_rdy : (after sdram history).counters.lineRdy = inLine history := by
  induction history with
  | nil => rfl
  | cons e history ih =>
      cases e with
      | sample data on => exact ih
      | display den => rfl

theorem count_y : (after sdram history).counters.countY.toNat = lines history % 600 := by
  induction history with
  | nil => rfl
  | cons e history ih =>
      cases e with
      | sample data on => exact ih
      | display den =>
          change (if (after sdram history).counters.lineRdy && !den then
            if (after sdram history).counters.countY < 599 then
              (after sdram history).counters.countY + 1 else 0
            else (after sdram history).counters.countY).toNat = lines (.display den :: history) % 600
          rw [line_rdy, lines]
          split
          · split <;> bv_omega
          · exact ih

end Counters

/-! The row of a sample and the pixels between two of them. -/
def row (posY : Count) (data : Sample) : Int := posY.toNat + 63 - data.toInt / 32

/-- The part of a column between the samples of two neighbours. It begins at the row of the older
one on the way down the screen, and next to it on the way up. -/
def Segment (old new y : Int) : Prop :=
  if old ≤ new then old ≤ y ∧ y ≤ new else new ≤ y ∧ y < old

instance (old new y : Int) : Decidable (Segment old new y) :=
  inferInstanceAs (Decidable (ite _ _ _))

def stored (data : Sample) : Word := (dataGraph data).signExtend 10

theorem data_graph_value (data : Sample) :
    ((dataGraph data).toNat : Int) = (data.toInt + 2048) / 16 := by
  have bits : (dataGraph data).toNat =
      (1 - data.toNat / 2 ^ 11) * 2 ^ 7 + data.toNat / 2 ^ 4 % 2 ^ 7 := by
    rw [dataGraph, BitVec.toNat_append, BitVec.toNat_not, BitVec.extractLsb'_toNat,
      BitVec.extractLsb'_toNat, ← Nat.shiftLeft_add_eq_or_of_lt (by omega), Nat.shiftLeft_eq,
      Nat.shiftRight_eq_div_pow, Nat.shiftRight_eq_div_pow]
    omega
  rw [bits, BitVec.toInt_eq_toNat_cond]
  omega

theorem stored_inverted (data : Sample) :
    ((~~~stored data).setWidth 8).toNat = 255 - (dataGraph data).toNat := by
  have same : (~~~stored data).setWidth 8 = ~~~dataGraph data := by
    refine BitVec.eq_of_getLsbD_eq fun i inside => ?_
    rw [BitVec.getLsbD_setWidth, BitVec.getLsbD_not, stored, BitVec.getLsbD_signExtend,
      BitVec.getLsbD_not]
    simp [inside, show i < 10 by omega]
  rw [same, BitVec.toNat_not]

theorem level_row {posY : Count} (low : posY.toNat + 127 < 2 ^ 11) (data : Sample) :
    ((((~~~stored data).setWidth 8).setWidth 11 / height + posY).toNat : Int) = row posY data := by
  have value := data_graph_value data
  have half : (((~~~stored data).setWidth 8).setWidth 11 / height).toNat =
      (255 - (dataGraph data).toNat) / 2 := by
    rw [BitVec.toNat_udiv, BitVec.toNat_setWidth, stored_inverted]
    change (255 - (dataGraph data).toNat) % 2 ^ 11 / 2 = _
    omega
  rw [BitVec.toNat_add, half, row]
  omega

theorem row_range (posY : Count) (data : Sample) :
    posY.toNat ≤ row posY data ∧ row posY data ≤ posY.toNat + 127 := by
  have upper : data.toInt < 2 ^ 11 := BitVec.toInt_lt
  have lower : -2 ^ 11 ≤ data.toInt := BitVec.le_toInt data
  unfold row
  omega

/-- The address of the word that a column shows. -/
def Scope.place (s : Scope) (c : Nat) : Address := BitVec.ofNat 10 c + s.difScroll

/-- The marker of the column that the next sample goes to. -/
def Scope.Marked (posY : Count) (scrollEn : Bool) (s : Scope) (x y : Nat) : Prop :=
  scrollEn = false ∧ x + s.difScroll.toNat = s.sdramAddWrite.toNat ∧
    posY.toNat ≤ y ∧ y ≤ posY.toNat + 127

theorem slope_segment (ant out1 y : Count) :
    (if y + lineWidth ≥ ant then y ≤ out1 && y + lineWidth ≥ ant
      else if y ≤ ant then y + lineWidth ≥ out1 && y ≤ ant
      else false : Bool) = true ↔ Segment ant.toNat out1.toNat y.toNat := by
  have thin : y + lineWidth = y := BitVec.add_zero y
  rw [thin]
  unfold Segment
  by_cases below : y ≥ ant
  · rw [if_pos below, Bool.and_eq_true, decide_eq_true_eq, decide_eq_true_eq]
    split <;> bv_omega
  · have above : y ≤ ant := by bv_omega
    rw [if_neg below, if_pos above, Bool.and_eq_true, decide_eq_true_eq, decide_eq_true_eq]
    split <;> bv_omega

theorem marker_iff (scrollEn : Bool) {s : Scope} (posY : Count)
    (inside : s.counters.countX.toNat ≤ 640)
    (bottom : (255 / height + posY).toNat = posY.toNat + 127) :
    (if scrollEn = false then
      (s.counters.countX.setWidth 10).setWidth 11 + s.difScroll.setWidth 11 - posX =
          s.sdramAddWrite.setWidth 11 &&
        s.counters.countY ≥ posY && s.counters.countY ≤ 255 / height + posY
      else false : Bool) = true ↔
      s.Marked posY scrollEn s.counters.countX.toNat s.counters.countY.toNat := by
  have origin : posX = 0 := rfl
  unfold Scope.Marked
  cases scrollEn
  · simp only [if_true, Bool.and_eq_true, decide_eq_true_eq, true_and, origin]
    bv_omega
  · simp

theorem graph_on_iff {posY : Count} (low : posY.toNat + 127 < 2 ^ 11) (scrollEn : Bool) {s : Scope}
    {old new : Sample} (ant : s.sdramOutAnt = ~~~stored old) (out : s.sdramOut = stored new)
    (inside : s.counters.countX.toNat ≤ 640) :
    s.graphOn posY scrollEn = true ↔
      s.Marked posY scrollEn s.counters.countX.toNat s.counters.countY.toNat ∨
        Segment (row posY old) (row posY new) s.counters.countY.toNat := by
  have older := level_row low old
  have newer := level_row low new
  have bottom : (255 / height + posY).toNat = posY.toNat + 127 := by
    rw [BitVec.toNat_add]
    change (127 + posY.toNat) % 2 ^ 11 = _
    omega
  rw [Scope.graphOn, ant, out]
  simp only [Bool.or_eq_true, Bool.and_eq_true]
  rw [marker_iff scrollEn posY inside bottom, slope_segment, older, newer]
  refine or_congr_right ⟨fun drawn => drawn.1.1.1, fun drawn => ⟨⟨⟨drawn, ?_⟩, ?_⟩, ?_⟩⟩
  · exact decide_eq_true (BitVec.le_def.mpr (Nat.zero_le _))
  · exact decide_eq_true (BitVec.le_def.mpr inside)
  · rw [decide_eq_true_eq, BitVec.le_def, bottom]
    have oldRange := row_range posY old
    have newRange := row_range posY new
    unfold Segment at drawn
    split at drawn <;> omega

theorem after_append (sdram : Address → Word) (recent earlier : List Edge) :
    after sdram (recent ++ earlier) = (after sdram earlier).through recent := by
  induction recent with
  | nil => rfl
  | cons e recent ih => exact congrArg (fun s : Scope => s.step e) ih

/-- What the picture clock has read stays as it is while samples come in. -/
theorem samples_keep {between : List Edge} (sampling : ∀ e ∈ between, e.IsSample) (s : Scope) :
    ((s.through between).counters = s.counters ∧ (s.through between).rdaddress = s.rdaddress) ∧
      (s.through between).sdramOut = s.sdramOut ∧
      (s.through between).sdramOutAnt = s.sdramOutAnt := by
  induction between with
  | nil => exact ⟨⟨rfl, rfl⟩, rfl, rfl⟩
  | cons e between ih =>
      cases e with
      | sample data on => exact ih fun f member => sampling f (List.mem_cons_of_mem _ member)
      | display den => exact (sampling _ List.mem_cons_self).elim

theorem next_column {c : Counters} (short : c.countX.toNat < 800) :
    (c.negedge true).countX.toNat = c.countX.toNat + 1 := by
  change (if c.countX < 800 then c.countX + 1 else 0).toNat = _
  rw [if_pos (BitVec.lt_def.mpr short)]
  bv_omega

theorem address_read (s : Scope) : s.posedge.rdaddress = s.place s.counters.countX.toNat :=
  BitVec.sub_zero (s.counters.countX.setWidth 10 + s.difScroll)

section Pixel
variable {sdram : Address → Word} {latest middle earlier : List Edge}

theorem two_periods (sampling : ∀ e ∈ latest ++ middle, e.IsSample) :
    let s := after sdram earlier
    let u := after sdram (middle ++ .display true :: earlier)
    let v := after sdram (upTo latest middle earlier)
    (u.counters = s.counters.negedge true ∧ u.rdaddress = s.posedge.rdaddress) ∧
      v.counters = u.counters.negedge true ∧ v.rdaddress = u.posedge.rdaddress ∧
        v.sdramOut = u.posedge.sdramOut := by
  have first := samples_keep (fun e member => sampling e (List.mem_append_right latest member))
    (after sdram (.display true :: earlier))
  have second := samples_keep (fun e member => sampling e (List.mem_append_left middle member))
    (after sdram (.display true :: (middle ++ .display true :: earlier)))
  rw [← after_append] at first second
  exact ⟨first.1, second.1.1, second.1.2, second.2.1⟩

/-- The word of a column is read two edges after its address went in, the one of the next column at
the edge after. -/
theorem columns_read (sampling : ∀ e ∈ latest ++ middle, e.IsSample)
    (inside : (after sdram earlier).counters.countX.toNat < 639) :
    let s := after sdram earlier
    let u := after sdram (middle ++ .display true :: earlier)
    let v := after sdram (upTo latest middle earlier)
    v.counters.countX.toNat = s.counters.countX.toNat + 2 ∧
      v.posedge.sdramOutAnt = ~~~u.sdram (s.place s.counters.countX.toNat) ∧
      v.posedge.sdramOut = v.sdram (u.place (s.counters.countX.toNat + 1)) := by
  intro s u v
  obtain ⟨⟨uCount, uAddress⟩, vCount, vAddress, vOut⟩ := @two_periods sdram latest middle earlier sampling
  have first : u.counters.countX.toNat = s.counters.countX.toNat + 1 :=
    (congrArg (fun c : Counters => c.countX.toNat) uCount).trans (next_column (by omega))
  have short : u.counters.countX.toNat < 800 :=
    first ▸ (Nat.succ_lt_succ inside).trans (by decide)
  have second : v.counters.countX.toNat = u.counters.countX.toNat + 1 :=
    (congrArg (fun c : Counters => c.countX.toNat) vCount).trans (next_column short)
  refine ⟨by rw [second, first], ?_, ?_⟩
  · calc v.posedge.sdramOutAnt = ~~~u.sdram u.rdaddress := congrArg (~~~·) vOut
      _ = ~~~u.sdram (s.place s.counters.countX.toNat) :=
          congrArg (fun a => ~~~u.sdram a) (uAddress.trans (address_read s))
  · rw [← first]
    exact congrArg v.sdram (vAddress.trans (address_read u))

theorem lines_up_to (sampling : ∀ e ∈ latest ++ middle, e.IsSample) :
    (after sdram (upTo latest middle earlier)).counters.countY.toNat = lines earlier % 600 := by
  obtain ⟨⟨uCount, -⟩, vCount, -⟩ := @two_periods sdram latest middle earlier sampling
  have still (c : Counters) : (c.negedge true).countY = c.countY := by
    simp [Counters.negedge]
  rw [vCount, still, uCount, still, count_y]

theorem pixel_on {posY : Count} (low : posY.toNat + 127 < 2 ^ 11) (scrollEn : Bool)
    (sampling : ∀ e ∈ latest ++ middle, e.IsSample) {during : List Edge}
    (within : ∀ e ∈ during, e.IsSample) (inside : column earlier + 2 ≤ 640) {old new : Sample}
    (older : (after sdram (middle ++ .display true :: earlier)).sdram
      ((after sdram earlier).place (column earlier)) = stored old)
    (newer : (after sdram (upTo latest middle earlier)).sdram
      ((after sdram (middle ++ .display true :: earlier)).place (column earlier + 1)) = stored new) :
    ((after sdram (upTo latest middle earlier)).falling during).graphOn posY scrollEn = true ↔
      ((after sdram (upTo latest middle earlier)).falling during).Marked posY scrollEn
        (column earlier + 2) (lines earlier % 600) ∨
      Segment (row posY old) (row posY new) (lines earlier % 600 : Nat) := by
  have x := count_x sdram earlier
  rw [Nat.mod_eq_of_lt (by omega)] at x
  obtain ⟨shift, ant, out⟩ := @columns_read sdram latest middle earlier sampling (by omega)
  have y := @lines_up_to sdram latest middle earlier sampling
  obtain ⟨⟨still, -⟩, outStill, antStill⟩ :=
    samples_keep within (after sdram (upTo latest middle earlier)).posedge
  rw [x] at shift ant out
  rw [older, ← antStill] at ant
  rw [newer, ← outStill] at out
  change (after sdram (upTo latest middle earlier)).posedge.counters.countX.toNat = _ at shift
  change (after sdram (upTo latest middle earlier)).posedge.counters.countY.toNat = _ at y
  rw [← still] at shift y
  have on := graph_on_iff low scrollEn ant out (by omega)
  rw [shift, y] at on
  exact on

end Pixel

theorem samples_append (recent earlier : List Edge) :
    samples (recent ++ earlier) = samples recent ++ samples earlier := by
  induction recent with
  | nil => rfl
  | cons e recent ih =>
      cases e with
      | sample data on => exact congrArg (data :: ·) ih
      | display den => exact ih

/-- A period of the picture takes no sample. -/
theorem period_samples (between earlier : List Edge) :
    samples (between ++ .display true :: earlier) = samples (between ++ earlier) := by
  rw [samples_append, samples_append]
  rfl

theorem period_switch {scrollEn : Bool} {between earlier : List Edge}
    (all : ∀ e ∈ between ++ earlier, e.Switch scrollEn) :
    ∀ e ∈ between ++ .display true :: earlier, e.Switch scrollEn := by
  intro e member
  rcases List.mem_append.mp member with inside | behind
  · exact all e (List.mem_append_left earlier inside)
  · rcases List.mem_cons.mp behind with rfl | behind
    · trivial
    · exact all e (List.mem_append_right between behind)

theorem up_to_switch {scrollEn : Bool} {latest middle earlier : List Edge}
    (all : ∀ e ∈ latest ++ (middle ++ earlier), e.Switch scrollEn) :
    ∀ e ∈ upTo latest middle earlier, e.Switch scrollEn := by
  refine period_switch fun e member => ?_
  rcases List.mem_append.mp member with inLatest | behind
  · exact all e (List.mem_append_left _ inLatest)
  · exact period_switch (fun f inside => all f (List.mem_append_right latest inside)) e behind

theorem up_to_samples (latest middle earlier : List Edge) :
    samples (upTo latest middle earlier) = samples latest ++ samples (middle ++ earlier) := by
  rw [upTo, period_samples, samples_append, period_samples]

theorem up_to_append (latest middle earlier before : List Edge) :
    upTo latest middle (earlier ++ before) = upTo latest middle earlier ++ before := by
  simp [upTo]

section Scroll
variable {sdram : Address → Word} {before recent : List Edge}

/-- The column of the latest sample while the picture scrolls. -/
def Scope.newest (s : Scope) : Address := s.sdramAddWrite - s.difScroll - 1

/-- The words that can be read are those of the samples taken since `start`. The address and the
offset wrap at 1024 and go on together. -/
structure Scrolls (start : Scope) (taken : List Sample) (s : Scope) : Prop where
  flag : s.banderaScrollFx = true
  fixed : s.newest = start.newest
  shift : s.difScroll = start.difScroll + BitVec.ofNat 10 taken.length
  words : ∀ a : Address, a.toNat < numwords → ∀ data,
    taken[(s.sdramAddWrite - 1 - a).toNat]? = some data → s.sdram a = stored data

theorem scrolls_sample {start s : Scope} {taken : List Sample} (scrolls : Scrolls start taken s)
    (data : Sample) : Scrolls start (data :: taken) (s.sample (dataGraph data) true) := by
  have next : (s.sample (dataGraph data) true).sdramAddWrite = s.sdramAddWrite + 1 := by
    simp [Scope.sample]
  have moved : (s.sample (dataGraph data) true).difScroll = s.difScroll + 1 := by
    simp [Scope.sample, scrolls.flag]
  refine ⟨by simp [Scope.sample, scrolls.flag], ?_, ?_, fun a inside other shown => ?_⟩
  · rw [← scrolls.fixed, Scope.newest, next, moved, Scope.newest]
    ring
  · rw [moved, scrolls.shift, List.length_cons, BitVec.ofNat_add, ← add_assoc]
    rfl
  · rw [next] at shown
    -- The word that was written is of age 0, and every other one has aged by one sample.
    by_cases here : a = s.sdramAddWrite
    · have age : (s.sdramAddWrite + 1 - 1 - a).toNat = 0 := by bv_omega
      rw [age, List.getElem?_cons_zero, Option.some_inj] at shown
      rw [← shown]
      exact if_pos ⟨here, inside⟩
    · have age : (s.sdramAddWrite + 1 - 1 - a).toNat = (s.sdramAddWrite - 1 - a).toNat + 1 := by
        bv_omega
      rw [age, List.getElem?_cons_succ] at shown
      exact (if_neg fun written => here written.1).trans (scrolls.words a inside other shown)

theorem scrolls_run (flag : (after sdram before).banderaScrollFx = true)
    (on : ∀ e ∈ recent, e.Switch true) :
    Scrolls (after sdram before) (samples recent) (after sdram (recent ++ before)) := by
  induction recent with
  | nil => exact ⟨flag, rfl, by simp [samples], fun a _ data none => by simp [samples] at none⟩
  | cons e recent ih =>
      have scrolls := ih fun f member => on f (List.mem_cons_of_mem e member)
      cases e with
      | display den => exact ⟨scrolls.flag, scrolls.fixed, scrolls.shift, scrolls.words⟩
      | sample data switch =>
          obtain rfl : switch = true := on _ List.mem_cons_self
          exact scrolls_sample scrolls data

/-- A sample stays in its word until 1024 more have come. -/
theorem scrolls_shown {start s u : Scope} {taken added : List Sample} (scrolls : Scrolls start taken s)
    (later : Scrolls start (added ++ taken) u) {c : Nat}
    (inside : (start.difScroll + BitVec.ofNat 10 (c + taken.length)).toNat < numwords) {data : Sample}
    (aged : taken[(start.newest - BitVec.ofNat 10 c).toNat]? = some data)
    (few : (start.newest - BitVec.ofNat 10 c).toNat + added.length < 1024) :
    u.sdram (s.place c) = stored data := by
  have place : start.difScroll + BitVec.ofNat 10 (c + taken.length) = s.place c := by
    rw [Scope.place, scrolls.shift, BitVec.ofNat_add]
    ring
  rw [place] at inside
  refine later.words (s.place c) inside data ?_
  have moved : u.difScroll = s.difScroll + BitVec.ofNat 10 added.length := by
    rw [later.shift, scrolls.shift, List.length_append, BitVec.ofNat_add]
    ring
  have age : u.sdramAddWrite - 1 - s.place c =
      start.newest - BitVec.ofNat 10 c + BitVec.ofNat 10 added.length := by
    rw [← later.fixed, Scope.newest, Scope.place, moved]
    ring
  have older : (u.sdramAddWrite - 1 - s.place c).toNat =
      (start.newest - BitVec.ofNat 10 c).toNat + added.length := by
    rw [age, BitVec.toNat_add, BitVec.toNat_ofNat]
    omega
  rw [older, List.getElem?_append_right (Nat.le_add_left _ _), Nat.add_sub_cancel, aged]

/-- While the picture scrolls, every sample moves by one column with each further sample: a pixel of
a column is lit exactly between the rows of the samples of the two columns before, each at the moment
when its column was addressed. -/
theorem scrolling_pixels {posY : Count} (low : posY.toNat + 127 < 2 ^ 11)
    (flag : (after sdram before).banderaScrollFx = true) {latest middle : List Edge}
    (on : ∀ e ∈ latest ++ (middle ++ recent), e.Switch true)
    (sampling : ∀ e ∈ latest ++ middle, e.IsSample) {during : List Edge}
    (within : ∀ e ∈ during, e.IsSample) {c : Nat} (place : column (recent ++ before) = c) (inside : c + 2 ≤ 640) {old new : Sample}
    (older : (samples recent)[((after sdram before).newest - BitVec.ofNat 10 c).toNat]? = some old)
    (newer : (samples (middle ++ recent))[
      ((after sdram before).newest - BitVec.ofNat 10 (c + 1)).toNat]? = some new)
    (first : ((after sdram before).difScroll +
      BitVec.ofNat 10 (c + (samples recent).length)).toNat < numwords)
    (second : ((after sdram before).difScroll +
      BitVec.ofNat 10 (c + 1 + (samples (middle ++ recent)).length)).toNat < numwords)
    (few : ((after sdram before).newest - BitVec.ofNat 10 c).toNat + (samples middle).length < 1024)
    (few' : ((after sdram before).newest - BitVec.ofNat 10 (c + 1)).toNat +
      (samples latest).length < 1024) :
    ((after sdram (upTo latest middle (recent ++ before))).falling during).graphOn posY true = true ↔
      Segment (row posY old) (row posY new) (lines (recent ++ before) % 600 : Nat) := by
  subst place
  have onMiddle : ∀ e ∈ middle ++ recent, e.Switch true :=
    fun e member => on e (List.mem_append_right latest member)
  have atFirst := @scrolls_run sdram before recent flag
    fun e member => onMiddle e (List.mem_append_right middle member)
  have atSecond := @scrolls_run sdram before (middle ++ .display true :: recent) flag
    (period_switch onMiddle)
  have atThird := @scrolls_run sdram before (upTo latest middle recent) flag (up_to_switch on)
  have lit := @pixel_on sdram latest middle (recent ++ before) posY low true sampling during
    within inside old new
  rw [up_to_samples] at atThird
  rw [period_samples] at atSecond
  rw [up_to_append] at lit ⊢
  rw [List.append_assoc, List.cons_append] at atSecond
  rw [lit (scrolls_shown atFirst (samples_append middle recent ▸ atSecond) first older few)
    (scrolls_shown atSecond atThird second newer few')]
  exact or_iff_right fun marked => Bool.noConfusion marked.1

def scrolling : List Edge :=
  List.replicate 638 (.display true) ++ List.replicate 387 (.sample 0x7E0 true)

theorem scrolling_on : ∀ e ∈ [.sample 5 true] ++ ([.sample 6 true] ++ scrolling), e.Switch true := by
  intro e member
  rcases List.mem_append.mp member with latest | member
  · rw [List.mem_singleton.mp latest]
    rfl
  rcases List.mem_append.mp member with middle | member
  · rw [List.mem_singleton.mp middle]
    rfl
  rcases List.mem_append.mp member with shown | sampled
  · rw [List.eq_of_mem_replicate shown]
    trivial
  · rw [List.eq_of_mem_replicate sampled]
    rfl

/-- The switch is on from power-up, the address has wrapped around once, and a sample comes in each
of the two periods before the pixel and in its own. -/
theorem scrolled_line :
    ((after (fun _ => 0) (upTo [.sample 5 true] [.sample 6 true]
      (scrolling ++ [.sample 0 true]))).falling [.sample 4 true]).graphOn 0 true = true :=
  (@scrolling_pixels (fun _ => 0) [.sample 0 true] scrolling 0 (by decide) (by decide)
    [.sample 5 true] [.sample 6 true] scrolling_on
    (fun e member => by
      rcases List.mem_pair.mp member with rfl | rfl
      all_goals trivial)
    [.sample 4 true] (fun e member => by
      rw [List.mem_singleton.mp member]
      trivial)
    638 (by decide +kernel) (by decide) 0x7E0 0x7E0 (by decide +kernel) (by decide +kernel)
    (by decide +kernel) (by decide +kernel) (by decide +kernel) (by decide +kernel)).mpr
      (by decide +kernel)

end Scroll

section Overpaint
variable {sdram : Address → Word} {past recent : List Edge}

/-- The samples since the one that a column holds while the picture is painted over. -/
def Scope.age (s : Scope) (c : Nat) : Nat := (s.sdramAddWrite.toNat + 639 - c) % 640

structure Sweeps (taken : List Sample) (s : Scope) : Prop where
  still : s.difScroll = 0
  inside : s.sdramAddWrite.toNat < 640
  words : ∀ c < 640, ∀ data, taken[s.age c]? = some data →
    s.sdram (BitVec.ofNat 10 c) = stored data

theorem address_off (s : Scope) (data : BitVec 8) : (s.sample data false).sdramAddWrite.toNat =
    if s.sdramAddWrite.toNat < 639 then s.sdramAddWrite.toNat + 1 else 0 := by
  have last : witdh - 1 = 639 := rfl
  change (if s.sdramAddWrite.setWidth 11 ≥ witdh - 1 then 0 else s.sdramAddWrite + 1).toNat = _
  rw [last]
  by_cases short : s.sdramAddWrite.toNat < 639
  · have before : ¬ s.sdramAddWrite.setWidth 11 ≥ 639 := by bv_omega
    rw [if_neg before, if_pos short]
    bv_omega
  · have behind : s.sdramAddWrite.setWidth 11 ≥ 639 := by bv_omega
    rw [if_pos behind, if_neg short]
    rfl

/-- Wherever the address was, the first sample with the switch off brings it back. -/
theorem sweeps_first (s : Scope) (data : BitVec 8) : Sweeps [] (s.sample data false) := by
  refine ⟨rfl, ?_, fun c _ data none => by simp at none⟩
  rw [address_off]
  split <;> omega

theorem sweeps_sample {s : Scope} {taken : List Sample} (sweeps : Sweeps taken s) (data : Sample) :
    Sweeps (data :: taken) (s.sample (dataGraph data) false) := by
  have inside := sweeps.inside
  have next : (s.sample (dataGraph data) false).sdramAddWrite.toNat =
      (s.sdramAddWrite.toNat + 1) % 640 := by
    rw [address_off]
    split <;> omega
  refine ⟨rfl, (sweeps_first s (dataGraph data)).inside, fun c width other shown => ?_⟩
  rw [Scope.age, next] at shown
  have address : (BitVec.ofNat 10 c).toNat = c := by
    rw [BitVec.toNat_ofNat]
    omega
  by_cases here : c = s.sdramAddWrite.toNat
  · have age : ((s.sdramAddWrite.toNat + 1) % 640 + 639 - c) % 640 = 0 := by omega
    rw [age, List.getElem?_cons_zero, Option.some_inj] at shown
    rw [← shown]
    refine if_pos ⟨BitVec.eq_of_toNat_eq (address.trans here), ?_⟩
    rw [address]
    exact width
  · have age : ((s.sdramAddWrite.toNat + 1) % 640 + 639 - c) % 640 = s.age c + 1 := by
      unfold Scope.age
      omega
    rw [age, List.getElem?_cons_succ] at shown
    refine (if_neg fun written => here ?_).trans (sweeps.words c width other shown)
    rw [← written.1, address]

theorem sweeps_run {first : Sample} (off : ∀ e ∈ recent, e.Switch false) :
    Sweeps (samples recent) (after sdram (recent ++ .sample first false :: past)) := by
  induction recent with
  | nil => exact sweeps_first (after sdram past) (dataGraph first)
  | cons e recent ih =>
      have sweeps := ih fun f member => off f (List.mem_cons_of_mem e member)
      cases e with
      | display den => exact ⟨sweeps.still, sweeps.inside, sweeps.words⟩
      | sample data switch =>
          obtain rfl : switch = false := off _ List.mem_cons_self
          exact sweeps_sample sweeps data

theorem sweeps_shown {s u : Scope} {taken taken' : List Sample} (sweeps : Sweeps taken s)
    (later : Sweeps taken' u) {c : Nat} (inside : c < 640) {data : Sample}
    (aged : taken'[u.age c]? = some data) : u.sdram (s.place c) = stored data := by
  rw [Scope.place, sweeps.still, add_zero]
  exact later.words c inside data aged

/-- Samples of the pixel's own period move the marker and nothing else that it shows. -/
theorem falling_still {during : List Edge} (off : ∀ e ∈ during, e.Switch false) {s : Scope}
    (still : s.difScroll = 0) : (s.falling during).difScroll = 0 := by
  induction during with
  | nil => exact still
  | cons e during ih =>
      cases e with
      | display den => exact ih fun f member => off f (List.mem_cons_of_mem _ member)
      | sample data switch =>
          obtain rfl : switch = false := off _ List.mem_cons_self
          rfl

/-- With the switch off, the samples are painted over from left to right: a pixel of a column is lit
exactly between the rows of the latest samples for the two columns before, each at the moment when
its word was read, or by the marker. -/
theorem overpainted_pixels {posY : Count} (low : posY.toNat + 127 < 2 ^ 11) {first : Sample}
    {latest middle : List Edge} (off : ∀ e ∈ latest ++ (middle ++ recent), e.Switch false)
    (sampling : ∀ e ∈ latest ++ middle, e.IsSample) {during : List Edge}
    (within : ∀ e ∈ during, e.IsSample) (off' : ∀ e ∈ during, e.Switch false) {c : Nat}
    {u v w : Scope}
    (before : after sdram (middle ++ .display true :: (recent ++ .sample first false :: past)) = u)
    (now : after sdram (upTo latest middle (recent ++ .sample first false :: past)) = v)
    (shown : v.falling during = w)
    (place : column (recent ++ .sample first false :: past) = c) (inside : c + 2 ≤ 640)
    {old new : Sample} (older : (samples (middle ++ recent))[u.age c]? = some old)
    (newer : (samples (latest ++ (middle ++ recent)))[v.age (c + 1)]? = some new) {y : Nat}
    (line : lines (recent ++ .sample first false :: past) % 600 = y) :
    w.graphOn posY false = true ↔
      (c + 2 = w.sdramAddWrite.toNat ∧ posY.toNat ≤ y ∧ y ≤ posY.toNat + 127) ∨
        Segment (row posY old) (row posY new) y := by
  subst before now shown place line
  have offMiddle : ∀ e ∈ middle ++ recent, e.Switch false :=
    fun e member => off e (List.mem_append_right latest member)
  have atFirst := @sweeps_run sdram past recent first
    fun e member => offMiddle e (List.mem_append_right middle member)
  have atSecond := @sweeps_run sdram past (middle ++ .display true :: recent) first
    (period_switch offMiddle)
  have atThird := @sweeps_run sdram past (upTo latest middle recent) first (up_to_switch off)
  have lit := @pixel_on sdram latest middle (recent ++ .sample first false :: past) posY low false
    sampling during within inside old new
  rw [up_to_samples, ← samples_append] at atThird
  rw [period_samples, List.append_assoc, List.cons_append] at atSecond
  rw [up_to_append] at lit newer ⊢
  rw [lit (sweeps_shown atFirst atSecond (by omega) older)
    (sweeps_shown atSecond atThird (by omega) newer)]
  refine or_congr_left ?_
  rw [Scope.Marked, falling_still off' atThird.still]
  simp

/-- A sample comes in in each of the two periods before the pixel and in its own. -/
theorem overpainted_line :
    ((after (fun _ => 0) (upTo [.sample 5 false] [.sample 6 false]
      (List.replicate 5 (.sample 0x7E0 false) ++ [.sample 0 false]))).falling
        [.sample 4 false]).graphOn 0 false = true :=
  (@overpainted_pixels (fun _ => 0) [] (List.replicate 5 (.sample 0x7E0 false)) 0 (by decide) 0
    [.sample 5 false] [.sample 6 false] (by simp [Edge.Switch])
    (fun e member => by
      rcases List.mem_pair.mp member with rfl | rfl
      all_goals trivial)
    [.sample 4 false]
    (fun e member => by
      rw [List.mem_singleton.mp member]
      trivial)
    (by simp [Edge.Switch])
    0 _ _ _ rfl rfl rfl rfl (by decide) 0x7E0 0x7E0 (by decide +kernel) (by decide +kernel) 0 rfl).mpr
      (by decide +kernel)

end Overpaint

end Cpen311.VgaOscilloscope
