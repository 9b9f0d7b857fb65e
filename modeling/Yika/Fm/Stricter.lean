import Mathlib.Data.Nat.Dist
import Yika.Fm.Termination

/-! Two seeks on one chip that differ in the threshold alone: the stricter one accepts no more
frequencies, finds none that is nearer and lists no more. -/

namespace Yika.Fm
open Program

/-! The inner test. -/

section
variable {ans : UINT16 → UINT8 → UINT8} {g : Globals} {db db' : UINT8}

theorem rssiAbove_looser {rssi minrssi : UINT8} {margin : Nat} (looser : db ≤ db')
    (strong : rssiAbove rssi minrssi margin db' = true) : rssiAbove rssi minrssi margin db = true := by
  have le : db.toNat ≤ db'.toNat := looser
  simp only [rssiAbove, decide_eq_true_eq] at strong ⊢
  omega

theorem acceptable_looser (looser : db ≤ db') (f : UINT16)
    (accepted : acceptable ans g db' f = true) : acceptable ans g db f = true := by
  simp only [acceptable, Bool.and_eq_true, Bool.or_eq_true] at accepted ⊢
  obtain ⟨⟨⟨strong, inTime⟩, counted⟩, judged⟩ := accepted
  refine ⟨⟨⟨rssiAbove_looser looser strong, inTime⟩, counted⟩, ?_⟩
  rcases judged with (loud | pilot) | clear
  · exact .inl (.inl (rssiAbove_looser looser loud))
  · exact .inl (.inr pilot)
  · exact .inr clear

end

/-! The grid. -/

theorem grid_farther (start stop leap : Nat) :
    (grid start stop leap).Pairwise fun f g => f.dist start ≤ g.dist start := by
  have indices (n : Nat) : (List.range n).Pairwise (· < ·) := List.pairwise_lt_range
  unfold grid
  split
  next up =>
    rw [List.pairwise_map]
    apply (indices _).imp
    intro i j before
    have farther : i * leap ≤ j * leap := Nat.mul_le_mul_right leap before.le
    unfold Nat.dist
    omega
  next down =>
    rw [List.pairwise_map]
    apply (indices _).imp
    intro i j before
    have farther : i * leap ≤ j * leap := Nat.mul_le_mul_right leap before.le
    unfold Nat.dist
    omega

section
variable {start stop : UINT16} {leap : Nat}

theorem gridPoints_farther : ((grid start.toNat stop.toNat leap).map (BitVec.ofNat 16)).Pairwise
    fun f g => f.toNat.dist start.toNat ≤ g.toNat.dist start.toNat := by
  rw [List.pairwise_map]
  apply (grid_farther start.toNat stop.toNat leap).imp_of_mem
  intro f g first second farther
  rwa [toNat_gridPoint first, toNat_gridPoint second]

end

/-! The seeks. -/

theorem InBand.ne_zero {f : UINT16} (inBand : InBand f) : f ≠ 0 := by
  rintro rfl
  exact absurd inBand.1 (by decide)

section
variable {κ : Type} {b : Board κ} {w w₁ : Machine κ} {ans : UINT16 → UINT8 → UINT8}
  {start stop : UINT16} {step db db' skip : UINT8}

theorem achieves_seekFrom (answers : AnswersByFreq b ans) (index : step.toNat < 3)
    (room : Room (qndStepTbl step.toNat) stop) :
    Achieves b.env (seekFrom start stop step db) (fun found _ =>
      found = (((grid start.toNat stop.toNat (qndStepTbl step.toNat).toNat).map
        (BitVec.ofNat 16)).find? (acceptable ans w.globals db)).getD 0) w := by
  simp only [seekFrom, achieves_bind, achieves_stepTbl, stepValue_inside b index]
  apply (achieves_seekLoop answers step db (walk_grid room start) within_start).mono
  intro found w₁ sought
  have tunes : Achieves b.env (qndTuneToCH (if found = 0 then stop else found))
      (fun _ _ => True) w₁ := by
    simp [qndTuneToCH, qnfRXInit, qnfSetRegBit, qnfSetMute, qnfSetCh]
  rw [achieves_load8, achieves_when]
  refine ⟨fun _ => tunes.mono ?_, fun _ => achieves_pure.mpr sought.2⟩
  intro _ w₂ _
  exact achieves_pure.mpr sought.2

/-- The walk of a scan whose direction is that of its own limits. -/
theorem walk_scan {leap : UINT8} {up : Bool} (room : Room leap stop) (here : Within up stop start) :
    Walk (advance up leap) (Within up stop) start
      ((grid start.toNat stop.toNat leap.toNat).map (BitVec.ofNat 16)) := by
  by_cases same : start = stop
  · subst same
    have point : (grid start.toNat start.toNat leap.toNat).map (BitVec.ofNat 16) = [start] := by
      simp [grid]
    rw [point]
    exact walk_stop room up
  · have direction : up = decide (start < stop) := by
      have apart : start.toNat ≠ stop.toNat := fun equal => same (BitVec.eq_of_toNat_eq equal)
      cases up with
      | true => exact (decide_eq_true (show start < stop from Nat.lt_of_le_of_ne here apart)).symm
      | false => exact (decide_eq_false (BitVec.not_lt.mpr here)).symm
    rw [direction]
    exact walk_grid room start

/-- A scan upwards whose start is beyond the driver's range tries the channels down to its end
once, for it does not come back below it. -/
theorem achieves_seekAllLoop_beyond (answers : AnswersByFreq b ans) (db : UINT8)
    (index : step.toNat < 3) (room : Room (qndStepTbl step.toNat) stop) (high : start.toNat + 20 < 65536)
    (beyond : stop < start) (all : w.globals.byte .qndAutoScanAll = 1) (fresh : w.globals.channels = []) :
    Achieves b.env (Prog.doWhile (seekAllRound stop step db 1 (qndStepTbl step.toNat)) start)
      (fun _ w' => w'.globals.channels =
        (((grid start.toNat stop.toNat (qndStepTbl step.toNat).toNat).map
          (BitVec.ofNat 16)).filter (acceptable ans w.globals db)).take 1) w := by
  have walk := walk_grid room start
  have scanning : Scanning w.globals w := ⟨all, rfl⟩
  obtain ⟨moves, small⟩ := stepTbl_bounds step.toNat
  have above : stop.toNat < start.toNat := beyond
  apply Achieves.doWhile
  cases found : ((grid start.toNat stop.toNat (qndStepTbl step.toNat).toNat).map
      (BitVec.ofNat 16)).find? (acceptable ans w.globals db) with
  | none =>
    have nothing := List.filter_eq_nil_iff.mpr (List.find?_eq_none.mp found)
    apply (achieves_seekAllRound_miss answers db room index rfl walk scanning found).mono
    intro next w₁ turned
    obtain ⟨_, listed, rfl⟩ := turned
    rw [nothing]
    exact listed.trans fresh
  | some y =>
    have member := List.mem_of_find?_eq_some found
    have startHigh : start ≠ 0 := by
      intro zero
      rw [zero] at above
      exact Nat.not_lt_zero _ above
    have stopHigh : stop ≠ 0 := by
      intro zero
      have low := room.below
      rw [zero] at low
      change (qndStepTbl step.toNat).toNat ≤ 0 at low
      omega
    have nonzero := gridPoint_ne_zero startHigh stopHigh member
    have free : w.globals.channels.length < QN_CCA_MAX_CH := by
      rw [fresh]
      decide
    have turn : decide ((1 : UINT8) ≠ 0) = true := by decide
    apply (achieves_seekAllRound_hit answers db index rfl turn walk scanning free found nonzero).mono
    intro next w₁ turned
    obtain ⟨_, listed, _, out⟩ := turned
    have outside : ¬Within true stop (advance true (qndStepTbl step.toNat) y) := by
      obtain ⟨f, inGrid, rfl⟩ := List.mem_map.mp member
      have bounds := mem_grid_bounds inGrid
      have value := toNat_gridPoint inGrid
      have next := @toNat_advance_up (qndStepTbl step.toNat) (BitVec.ofNat 16 f) (by omega)
      change ¬(advance true (qndStepTbl step.toNat) (BitVec.ofNat 16 f)).toNat ≤ stop.toNat
      omega
    obtain rfl := out fun go => outside go.1
    obtain ⟨rest, _, _, split⟩ := walk.find found
    rw [split]
    change w₁.globals.channels = _
    rw [listed, fresh]
    rfl

/-- The end of a scan: `stop`, or the end of the driver's range before it. -/
def Globals.clamp (g : Globals) (stop : UINT16) : UINT16 :=
  if g.half .qndCHSTOP < stop then g.half .qndCHSTOP else stop

theorem achieves_stopInRange_clamp :
    Achieves b.env (stopInRange stop) (fun pStop w' => w' = w ∧ pStop = w.globals.clamp stop) w := by
  simp only [stopInRange, Globals.clamp, achieves_bind, achieves_load16]
  split
  next => exact achieves_load16.mpr ⟨rfl, rfl⟩
  next => exact achieves_pure.mpr ⟨rfl, rfl⟩

theorem clamp_le : w.globals.clamp stop ≤ stop := by
  unfold Globals.clamp
  split
  next beyond => exact BitVec.le_of_lt beyond
  next => exact BitVec.le_refl stop

theorem clamp_inBand (country : w.globals.range ∈ countryRanges) (stopIn : InBand stop) :
    InBand (w.globals.clamp stop) := by
  have ranges : ∀ r ∈ countryRanges, InBand r.stop := by
    unfold InBand
    decide
  unfold Globals.clamp
  split
  next => exact ranges _ country
  next => exact stopIn

/-- The channels a scan counts: all that it lists, or one if its start is beyond the range. -/
theorem achieves_qndRXSeekCHAll_count (answers : AnswersByFreq b ans) (db skip : UINT8)
    (country : w.globals.range ∈ countryRanges) (startIn : InBand start) (stopIn : InBand stop)
    (index : step.toNat < 3) {stepvalue : UINT8}
    (prepared : Runs b.env (seekAllPrepare step) w stepvalue w₁) :
    Achieves b.env (qndRXSeekCHAll start stop step db skip) (fun count _ => count.toNat =
      (((grid start.toNat (w.globals.clamp stop).toNat (qndStepTbl step.toNat).toNat).map
        (BitVec.ofNat 16)).filter (acceptable ans w₁.globals db) |>.take
          (if start < stop ∧ w.globals.clamp stop < start then 1 else QN_CCA_MAX_CH)).length) w := by
  obtain ⟨leapIs, all, _⟩ := seekAllPrepare_ready step stepvalue w₁ prepared
  rw [stepValue_inside b index] at leapIs
  obtain ⟨moves, small⟩ := stepTbl_bounds step.toNat
  obtain ⟨low, high⟩ := clamp_inBand country stopIn
  have room : Room (qndStepTbl step.toNat) (w.globals.clamp stop) := ⟨moves, by omega, by omega⟩
  have fresh := seekAllPrepare_empties prepared
  have startHigh := startIn.ne_zero
  have stopHigh := (clamp_inBand country stopIn).ne_zero
  rw [qndRXSeekCHAll, achieves_bind]
  apply achieves_stopInRange_clamp.mono
  intro pStop w' clamped
  obtain ⟨rfl, rfl⟩ := clamped
  apply prepared.then_achieves
  rw [leapIs, achieves_bind]
  by_cases beyond : start < stop ∧ w'.globals.clamp stop < start
  · have bound : start.toNat + 20 < 65536 := by
      have top := startIn.2
      omega
    rw [if_pos beyond, if_pos beyond.1]
    apply (achieves_seekAllLoop_beyond answers db index room bound beyond.2 all fresh).mono
    intro _ w₂ scanned
    exact (achieves_finish scanned).mono fun _ _ done => done.counted
  · rw [if_neg beyond]
    have here : Within (decide (start < stop)) (w'.globals.clamp stop) start := by
      by_cases up : start < stop
      · rw [decide_eq_true up]
        exact BitVec.not_lt.mp fun past => beyond ⟨up, past⟩
      · rw [decide_eq_false up]
        exact BitVec.le_trans clamp_le (BitVec.not_lt.mp up)
    apply (achieves_seekAllLoop answers db room index rfl (turn_iff start stop) (walk_scan room here) here
      (fun _ member => gridPoint_ne_zero startHigh stopHigh member) all fresh).mono
    intro _ w₂ scanned
    exact (achieves_finish scanned).mono fun _ _ done => done.counted

theorem seekTest_looser (answers : AnswersByFreq b ans) (looser : db ≤ db') (f : UINT16) :
    Ensures b.env (seekTest f step db') (fun accepted _ => accepted = true →
      Achieves b.env (seekTest f step db) (fun accepted _ => accepted = true) w) w := by
  intro accepted w' run strict
  have tested := (achieves_seekTest answers step db').ensures accepted w' run
  rw [tested.2] at strict
  apply (achieves_seekTest answers step db).mono
  intro accepted _ loose
  rw [loose.2]
  exact acceptable_looser looser f strict

theorem qndRXSeekCH_looser (answers : AnswersByFreq b ans) (looser : db ≤ db') (startIn : InBand start)
    (stopIn : InBand stop) (index : step.toNat < 3) :
    Ensures b.env (qndRXSeekCH start stop step db' skip) (fun found' _ => found' ≠ 0 →
      Achieves b.env (qndRXSeekCH start stop step db skip) (fun found _ => found ≠ 0 ∧
        found.toNat.dist start.toNat ≤ found'.toNat.dist start.toNat) w) w := by
  intro found' w' run nonzero
  obtain ⟨moves, small⟩ := stepTbl_bounds step.toNat
  have low := stopIn.1
  have high := stopIn.2
  have room : Room (qndStepTbl step.toNat) stop := ⟨moves, by omega, by omega⟩
  rw [qndRXSeekCH_eq] at run ⊢
  obtain ⟨all, w₁, loaded, run⟩ := runs_bind.mp run
  obtain ⟨_, w₂, prepared, run⟩ := runs_bind.mp run
  refine loaded.then_achieves (prepared.then_achieves ?_)
  have strict := (achieves_seekFrom answers index room).ensures found' w' run
  cases hit : ((grid start.toNat stop.toNat (qndStepTbl step.toNat).toNat).map
      (BitVec.ofNat 16)).find? (acceptable ans w₂.globals db') with
  | none =>
    rw [hit] at strict
    exact absurd strict nonzero
  | some y =>
    rw [hit, Option.getD_some] at strict
    obtain ⟨x, loose, nearer⟩ := find?_looser gridPoints_farther (acceptable_looser looser) hit
    apply (achieves_seekFrom answers index room).mono
    intro found _ sought
    rw [loose, Option.getD_some] at sought
    rw [sought, strict]
    constructor
    · exact gridPoint_ne_zero startIn.ne_zero stopIn.ne_zero (List.mem_of_find?_eq_some loose)
    · rcases nearer with rfl | nearer
      · exact le_rfl
      · exact nearer

theorem qndRXSeekCHAll_looser (answers : AnswersByFreq b ans) (looser : db ≤ db')
    (country : w.globals.range ∈ countryRanges) (startIn : InBand start) (stopIn : InBand stop)
    (index : step.toNat < 3) :
    Ensures b.env (qndRXSeekCHAll start stop step db' skip) (fun count' _ =>
      Achieves b.env (qndRXSeekCHAll start stop step db skip) (fun count _ => count' ≤ count) w) w := by
  intro count' w' run
  obtain ⟨_, w₁, clamped, rest⟩ := runs_bind.mp run
  obtain ⟨rfl, rfl⟩ := achieves_stopInRange_clamp.ensures _ w₁ clamped
  obtain ⟨stepvalue, w₂, prepared, _⟩ := runs_bind.mp rest
  have strict := (achieves_qndRXSeekCHAll_count answers db' skip country startIn stopIn index
    prepared).ensures count' w' run
  apply (achieves_qndRXSeekCHAll_count answers db skip country startIn stopIn index prepared).mono
  intro count _ loose
  change count'.toNat ≤ count.toNat
  rw [strict, loose, List.length_take, List.length_take]
  have fewer (points : List UINT16) : (points.filter (acceptable ans w₂.globals db')).length ≤
      (points.filter (acceptable ans w₂.globals db)).length :=
    (List.monotone_filter_right points (acceptable_looser looser)).length_le
  exact min_le_min_left _ (fewer _)

/-- A stricter threshold never finds more: what it accepts is accepted with the looser one, what
it finds is found, or something as near, and it counts no more channels. -/
theorem stricter_finds_less (answers : AnswersByFreq b ans) (looser : db ≤ db')
    (startIn : InBand start) (stopIn : InBand stop) (index : step.toNat < 3) :
    (∀ f, Ensures b.env (seekTest f step db') (fun accepted _ => accepted = true →
      Achieves b.env (seekTest f step db) (fun accepted _ => accepted = true) w) w) ∧
    Ensures b.env (qndRXSeekCH start stop step db' skip) (fun found' _ => found' ≠ 0 →
      Achieves b.env (qndRXSeekCH start stop step db skip) (fun found _ => found ≠ 0 ∧
        found.toNat.dist start.toNat ≤ found'.toNat.dist start.toNat) w) w ∧
    (w.globals.range ∈ countryRanges →
      Ensures b.env (qndRXSeekCHAll start stop step db' skip) (fun count' _ =>
        Achieves b.env (qndRXSeekCHAll start stop step db skip) (fun count _ => count' ≤ count) w)
          w) := by
  refine ⟨seekTest_looser answers looser, ?_, ?_⟩
  · exact qndRXSeekCH_looser answers looser startIn stopIn index
  · intro country
    exact qndRXSeekCHAll_looser answers looser country startIn stopIn index

end

/-- The station at 76.4 MHz is found with 20 dB, and so it is, or a nearer one, with none. -/
theorem station_looser : Achieves stationChip.env (qndRXSeekCH 7600 7700 1 0 0)
    (fun found _ => found ≠ 0 ∧ found.toNat.dist 7600 ≤ 40) ⟨Globals.initial, 0⟩ := by
  have done : (exec stationChip.env 6 (qndRXSeekCH 7600 7700 1 20 0) ⟨Globals.initial, 0⟩).map
      (fun r => r.1) = some 7640 := by decide +kernel
  obtain ⟨found, w', run, rfl⟩ := exec_observe 6 _ done
  have looser : (0 : UINT8) ≤ 20 := by decide
  have startIn : InBand 7600 := ⟨by decide, by decide⟩
  have stopIn : InBand 7700 := ⟨by decide, by decide⟩
  exact (stricter_finds_less stationChip_answers looser startIn stopIn (by decide)).2.1 _ w' run
    (by decide)

end Yika.Fm
