import Yika.Fm.FloorUpdate
import Yika.Fm.Stricter

/-! Where the channels of a scan lie, and in which order it lists them, whatever the chip answers.
The direction is that from `start` to `stop`, the end is cut to the driver's range, and each seek
takes its direction anew. -/

namespace Yika.Fm
open Program

/-- The first frequency is met strictly before the second. -/
def Before (up : Bool) (f g : UINT16) : Prop := if up then f < g else g < f

/-- The channels lie between the limits of the scan and inside the driver's range, and come in the
order from `start` to `stop`. -/
structure InOrder (start stop limit : UINT16) (channels : List UINT16) : Prop where
  between : ∀ f ∈ channels, (start ≤ f ∧ f ≤ stop) ∨ (stop ≤ f ∧ f ≤ start)
  inRange : ∀ f ∈ channels, f ≤ limit
  monotone : channels.Pairwise (Before (decide (start < stop)))

/-- What a scan from `start` has listed when it goes on at `x`. -/
structure Listing (up : Bool) (leap : UINT8) (start stop x : UINT16) (channels : List UINT16) :
    Prop where
  ahead : Within up stop x
  begun : Within up x start
  fits : Fits (decide (x < stop)) leap stop
  room : channels.length < QN_CCA_MAX_CH
  between : ∀ f ∈ channels, Within up f start ∧ Within up stop f
  behind : ∀ f ∈ channels, Before up f x
  monotone : channels.Pairwise (Before up)

section
variable {κ α : Type} {b : Board κ} {w w' : Machine κ} {up : Bool} {leap : UINT8}
  {start stop x f : UINT16}

/-! One turn. -/

theorem channels_kept {p : Drv α} {out : α} {regs : List UINT8} {bytes : Set Var8} {halves : Set Var16}
    (uses : Uses (Writes regs bytes halves) p) (run : Runs b.env p w out w')
    (count : Var8.qndChCount ∉ bytes) (list : ∀ i, Var16.qndChList i ∉ halves) :
    w'.globals.channels = w.globals.channels := by
  unfold Globals.channels
  rw [byte_kept uses run count]
  apply List.map_congr_left
  intro i _
  exact half_kept uses run (list i)

theorem outside_advance (fits : Fits up leap stop) : ¬Within up stop (advance up leap stop) := by
  intro further
  have closer := (advance_closer fits (within_refl stop) further).2
  have arrived : gap up stop stop = 0 := by
    unfold gap
    split
    next => omega
    next => omega
  omega

theorem before_advance (fits : Fits up leap stop) (here : Within up stop x)
    (further : Within up stop (advance up leap x)) : Before up x (advance up leap x) := by
  obtain ⟨onward, closer⟩ := advance_closer fits here further
  cases up with
  | true =>
    have le : x.toNat ≤ (advance true leap x).toNat := onward
    have less : stop.toNat - (advance true leap x).toNat < stop.toNat - x.toNat := closer
    show x.toNat < (advance true leap x).toNat
    omega
  | false =>
    have le : (advance false leap x).toNat ≤ x.toNat := onward
    have less : (advance false leap x).toNat - stop.toNat < x.toNat - stop.toNat := closer
    show (advance false leap x).toNat < x.toNat
    omega

/-- What a seek finds on its own way is on the way of the scan that called it. -/
theorem within_inner (here : Within up stop x) (ahead : Within (decide (x < stop)) stop f)
    (after : Within (decide (x < stop)) f x) : Within up stop f ∧ Within up f x := by
  cases up with
  | false =>
    have behind : ¬x < stop := BitVec.not_lt.mpr here
    rw [decide_eq_false behind] at ahead after
    exact ⟨ahead, after⟩
  | true =>
    by_cases before : x < stop
    · rw [decide_eq_true before] at ahead after
      exact ⟨ahead, after⟩
    · rw [decide_eq_false before] at ahead after
      have arrived : x = stop := BitVec.le_antisymm here (BitVec.not_lt.mp before)
      have same : f = stop := BitVec.le_antisymm (arrived ▸ after) ahead
      rw [same, arrived]
      exact ⟨within_refl stop, within_refl stop⟩

theorem within_of_before {g : UINT16} (before : Before up f g) : Within up g f := by
  cases up with
  | true => exact BitVec.le_of_lt before
  | false => exact BitVec.le_of_lt before

theorem before_of_within {g : UINT16} (before : Before up f x) (after : Within up g x) :
    Before up f g := by
  cases up with
  | true => exact Nat.lt_of_lt_of_le before after
  | false => exact Nat.lt_of_le_of_lt after before

/-- The seek after a step has room behind `stop` too, whichever its direction. -/
theorem fits_inner (fits : Fits up leap stop) (here : Within up stop f)
    (further : Within up stop (advance up leap f)) :
    Fits (decide (advance up leap f < stop)) leap stop := by
  cases up with
  | false =>
    have behind : ¬advance false leap f < stop := BitVec.not_lt.mpr further
    rw [decide_eq_false behind]
    exact fits
  | true =>
    by_cases before : advance true leap f < stop
    · rw [decide_eq_true before]
      exact fits
    · have above : stop.toNat + leap.toNat < 65536 := fits.2
      have low : f.toNat ≤ stop.toNat := here
      have next := @toNat_advance_up leap f (by omega)
      have high : (advance true leap f).toNat ≤ stop.toNat := further
      rw [decide_eq_false before]
      refine ⟨fits.1, show leap.toNat ≤ stop.toNat by omega⟩

def Listed (up : Bool) (start stop : UINT16) (channels : List UINT16) : Prop :=
  (∀ f ∈ channels, Within up f start ∧ Within up stop f) ∧ channels.Pairwise (Before up)

theorem Listing.listed {channels : List UINT16} (listing : Listing up leap start stop x channels) :
    Listed up start stop channels := ⟨listing.between, listing.monotone⟩

theorem Listing.append {channels : List UINT16} (listing : Listing up leap start stop x channels)
    (ahead : Within up stop f) (after : Within up f x) : Listed up start stop (channels ++ [f]) := by
  constructor
  · intro g member
    rcases List.mem_append.mp member with old | new
    · exact listing.between g old
    · obtain rfl := List.mem_singleton.mp new
      exact ⟨within_trans listing.begun after, ahead⟩
  · refine List.pairwise_append.mpr ⟨listing.monotone, List.pairwise_singleton _ _, ?_⟩
    intro g old f' new
    obtain rfl := List.mem_singleton.mp new
    exact before_of_within (listing.behind g old) after

/-- A turn of a scan keeps the order, whatever its seek finds. -/
theorem seekAllRound_lists {step db upByte : UINT8} (turn : decide (upByte ≠ 0) = up)
    (fits : Fits up (b.stepValue step) stop)
    (listing : Listing up (b.stepValue step) start stop x w.globals.channels) :
    Ensures b.env (seekAllRound stop step db upByte (b.stepValue step) x) (Sum.elim
      (fun y w' => Listing up (b.stepValue step) start stop y w'.globals.channels)
      fun _ w' => Listed up start stop w'.globals.channels) w := by
  subst turn
  rw [seekAllRound_eq, ensures_bind]
  intro temp w₁ seek
  have same : w₁.globals.channels = w.globals.channels :=
    channels_kept (qndRXSeekCH_writes x stop step db upByte) seek (by simp [updateBytes, floorBytes])
      (by simp)
  have between := qndRXSeekCH_between listing.fits temp w₁ seek
  rw [← same] at listing
  by_cases found : temp = 0
  · subst found
    intro next w' turned
    obtain ⟨rfl, rfl⟩ := achieves_seekAllNext_none.ensures next w' turned
    rw [scanFrom, if_neg fun go => outside_advance fits go.1]
    exact listing.listed
  · obtain ⟨ahead, after⟩ := within_inner listing.ahead (between found).1 (between found).2
    intro next w' turned
    obtain ⟨listed, _, _, _, rfl⟩ := (achieves_seekAllNext_found found listing.room).ensures next w' turned
    have appended := listing.append ahead after
    rw [← listed] at appended
    by_cases go : Within (decide (upByte ≠ 0)) stop
        (advance (decide (upByte ≠ 0)) (b.stepValue step) temp) ∧
        w'.globals.channels.length < QN_CCA_MAX_CH
    · have next := before_advance fits ahead go.1
      rw [scanFrom, if_pos go]
      refine ⟨go.1, ?_, fits_inner fits ahead go.1, go.2, appended.1, ?_, appended.2⟩
      · exact within_trans (within_trans listing.begun after) (within_of_before next)
      · intro f member
        rw [listed] at member
        rcases List.mem_append.mp member with old | new
        · have before := listing.behind f old
          exact before_of_within (before_of_within before after) (within_of_before next)
        · obtain rfl := List.mem_singleton.mp new
          exact next
    · rw [scanFrom, if_neg go]
      exact appended

/-! The whole scan. -/

/-- What `QND_RXSeekCHAll` does after its loop. -/
def seekAllFinish (pStop : UINT16) : Drv UINT8 := do
  let ch ← firstChannel pStop
  qndTuneToCH ch
  store8 .qndAutoScanAll 0
  qnfSetMute false
  load8 .qndChCount

theorem qndRXSeekCHAll_eq (start stop : UINT16) (step db skip : UINT8) :
    qndRXSeekCHAll start stop step db skip = (do
      let pStop ← stopInRange stop
      let stepvalue ← seekAllPrepare step
      Prog.doWhile (seekAllRound pStop step db (if start < stop then 1 else 0) stepvalue) start
      seekAllFinish pStop) := rfl

theorem seekAllFinish_writes (pStop : UINT16) :
    Uses (Writes tuneRegs {.qndAutoScanAll} ∅) (seekAllFinish pStop) := by
  refine uses_bind (by simp [firstChannel, Writes]) fun ch => ?_
  refine uses_bind (growRegs (qndTuneToCH_writes ch) (List.Subset.refl _)) fun _ => ?_
  simp [qnfSetMute, qnfSetRegBit, Writes, tuneRegs]

/-- With a start inside the range and, downwards, a step of room below `stop`, there is room for
the scan and for the first of its seeks. -/
theorem scan_fits {step : UINT8} {limit pStop : UINT16} (low : 20 ≤ limit.toNat)
    (high : limit.toNat + 20 < 65536) (cut : pStop = if limit < stop then limit else stop)
    (inRange : start ≤ limit)
    (ends : start < stop ∨ (qndStepTbl step.toNat).toNat ≤ stop.toNat) :
    Within (decide (start < stop)) pStop start ∧
      Fits (decide (start < stop)) (qndStepTbl step.toNat) pStop ∧
      Fits (decide (start < pStop)) (qndStepTbl step.toNat) pStop := by
  obtain ⟨moves, small⟩ := stepTbl_bounds step.toNat
  have reached : start.toNat ≤ limit.toNat := inRange
  by_cases up : start < stop
  · have upNat : start.toNat < stop.toNat := up
    have clamped : pStop.toNat ≤ limit.toNat ∧ start.toNat ≤ pStop.toNat ∧
        (pStop.toNat ≤ start.toNat → pStop = limit) := by
      rw [cut]
      split
      next => exact ⟨le_rfl, reached, fun _ => rfl⟩
      next inside =>
        have le : stop.toNat ≤ limit.toNat := BitVec.not_lt.mp inside
        exact ⟨le, upNat.le, fun back => absurd upNat (by omega)⟩
    obtain ⟨below, above, met⟩ := clamped
    rw [decide_eq_true up]
    refine ⟨above, ⟨moves, show _ + _ < _ by omega⟩, moves, ?_⟩
    by_cases before : start < pStop
    · rw [decide_eq_true before]
      show pStop.toNat + (qndStepTbl step.toNat).toNat < 65536
      omega
    · rw [decide_eq_false before]
      have arrived := met (BitVec.not_lt.mp before)
      show (qndStepTbl step.toNat).toNat ≤ pStop.toNat
      rw [arrived]
      omega
  · have down : stop.toNat ≤ start.toNat := BitVec.not_lt.mp up
    have whole : pStop = stop := by
      rw [cut, if_neg]
      exact BitVec.not_lt.mpr (show stop.toNat ≤ limit.toNat by omega)
    have room : (qndStepTbl step.toNat).toNat ≤ stop.toNat := ends.resolve_left up
    rw [whole, decide_eq_false up]
    exact ⟨down, ⟨moves, room⟩, ⟨moves, room⟩⟩

theorem Listed.inOrder {limit pStop : UINT16} {channels : List UINT16}
    (listed : Listed (decide (start < stop)) start pStop channels) (cut : pStop ≤ stop)
    (inRange : start ≤ limit) (clamped : pStop ≤ limit) (whole : ¬start < stop → pStop = stop) :
    InOrder start stop limit channels := by
  refine ⟨fun f member => ?_, fun f member => ?_, listed.2⟩
  · have way := listed.1 f member
    by_cases up : start < stop
    · rw [decide_eq_true up] at way
      exact .inl ⟨way.1, BitVec.le_trans way.2 cut⟩
    · rw [decide_eq_false up, whole up] at way
      exact .inr ⟨way.2, way.1⟩
  · have way := listed.1 f member
    by_cases up : start < stop
    · rw [decide_eq_true up] at way
      exact BitVec.le_trans way.2 clamped
    · rw [decide_eq_false up] at way
      exact BitVec.le_trans way.1 inRange

/-- A scan that starts inside the range lists its channels in order, on any chip. -/
theorem qndRXSeekCHAll_inOrder {step db skip : UINT8} (low : 20 ≤ (w.globals.half .qndCHSTOP).toNat)
    (high : (w.globals.half .qndCHSTOP).toNat + 20 < 65536) (index : step.toNat < 3)
    (inRange : start ≤ w.globals.half .qndCHSTOP)
    (ends : start < stop ∨ (qndStepTbl step.toNat).toNat ≤ stop.toNat) :
    Ensures b.env (qndRXSeekCHAll start stop step db skip) (fun _ w' =>
      InOrder start stop (w.globals.half .qndCHSTOP) w'.globals.channels) w := by
  rw [qndRXSeekCHAll_eq, ensures_bind]
  intro pStop w₁ clamped
  obtain ⟨rfl, cut⟩ := achieves_stopInRange_clamp.ensures pStop w₁ clamped
  obtain ⟨here, fits, first⟩ := scan_fits low high cut inRange ends
  rw [ensures_bind]
  intro stepvalue w₂ prepared
  obtain ⟨leapIs, _, _⟩ := seekAllPrepare_ready step stepvalue w₂ prepared
  have fresh := seekAllPrepare_empties prepared
  have tbl := stepValue_inside b index
  rw [← tbl] at fits first
  rw [leapIs, ensures_bind]
  have listing : Listing (decide (start < stop)) (b.stepValue step) start pStop start
      w₂.globals.channels := by
    rw [fresh]
    exact ⟨here, within_refl start, first, by decide, by simp, by simp, .nil⟩
  refine (ensures_doWhile (fun x w => Listing (decide (start < stop)) (b.stepValue step) start pStop x
    w.globals.channels) (fun x w => seekAllRound_lists (turn_iff start stop) fits) listing).mono ?_
  intro _ w₃ listed count w₄ finish
  rw [channels_kept (seekAllFinish_writes pStop) finish (by simp) (by simp)]
  have bounds : pStop ≤ stop ∧ pStop ≤ w₁.globals.half .qndCHSTOP := by
    rw [cut]
    refine ⟨clamp_le, ?_⟩
    unfold Globals.clamp
    split
    next => exact BitVec.le_refl _
    next inside => exact BitVec.not_lt.mp inside
  refine listed.inOrder bounds.1 inRange bounds.2 fun down => ?_
  rw [cut, Globals.clamp, if_neg]
  exact BitVec.not_lt.mpr (BitVec.le_trans (BitVec.not_lt.mp down) inRange)

end

/-! A chip that leaves the range. -/

/-- It hears nothing at its first `quiet` looks, and a station at every later one. -/
def lateChip (quiet : Nat) : Board Nat where
  respond
    | .readReg adr, k =>
      (if adr = RSSISIG then (if k < quiet then 0 else 255) else if adr = CCA5 then 8 else 0,
        if adr = RSSISIG then k + 1 else k)
    | .writeReg _ _, k => ((), k)
    | .copyFromUser, k => (true, k)
    | .copyToUser, k => (true, k)
    | .peek _, k => (0, k)
    | .callBack _ _, k => ((), k)
    | .gpioMode _ _, k => ((), k)
    | .gpioDir _ _, k => ((), k)
    | .gpioOut _ _, k => ((), k)
    | .hwPower _, k => ((), k)
    | .poke _ _, k => ((), k)
    | .getIntArrayRegion _ _ _, k => ((), k)
  beyond _ := 0

/-- A scan is on, with a noise floor of 0. -/
structure Hushed (w : Machine Nat) : Prop where
  all : w.globals.byte .qndAutoScanAll = 1
  floor : ∀ f, w.globals.minRSSI f = 0

section
variable {quiet : Nat} {w : Machine Nat} {f start stop x : UINT16} {step db skip : UINT8}

/-- The operation is no look at the signal and stores nothing in the driver. -/
def Silent : FmOp → Prop
  | .ext (.readReg adr) => adr ≠ RSSISIG
  | .store8 _ _ => False
  | .store16 _ _ => False
  | _ => True

theorem lateChip_kept {α : Type} {p : Drv α} (uses : Uses Silent p)
    (returns : Achieves (lateChip quiet).env p (fun _ _ => True) w) :
    Achieves (lateChip quiet).env p (fun _ w' => w' = w) w := by
  obtain ⟨out, w', run, _⟩ := returns
  refine ⟨out, w', run, uses.frame id ?_ run⟩
  intro o w silent
  cases o with
  | ext e =>
    cases e with
    | readReg adr =>
      have other : adr ≠ RSSISIG := silent
      show w.after (lateChip quiet) (.readReg adr) = w
      simp [Machine.after, lateChip, other]
    | _ => rfl
  | store8 => exact absurd silent id
  | store16 => exact absurd silent id
  | _ => rfl

theorem lateChip_qnfSetRegBit {reg mask value : UINT8} (other : reg ≠ RSSISIG) :
    Achieves (lateChip quiet).env (qnfSetRegBit reg mask value) (fun _ w' => w' = w) w :=
  lateChip_kept (by simp [qnfSetRegBit, Silent, other]) (by simp [qnfSetRegBit])

theorem lateChip_qnfSetCh : Achieves (lateChip quiet).env (qnfSetCh f) (fun _ w' => w' = w) w :=
  lateChip_kept (by simp [qnfSetCh, Silent, CH_STEP, RSSISIG]) (by simp [qnfSetCh])

theorem lateChip_checkChannel : Achieves (lateChip quiet).env (checkChannel f step 0 0 255)
    (fun accepted w' => w' = w ∧ accepted = true) w := by
  have read {adr : UINT8} (other : adr ≠ RSSISIG) : w.after (lateChip quiet) (.readReg adr) = w := by
    simp [Machine.after, lateChip, other]
  have prepared : Achieves (lateChip quiet).env (do
      qnfConfigScan f f step
      writeReg CCA (0 - 22 + 0)
      qnfSetRegBit SYSTEM1 0xA1 0xA0) (fun _ w' => w' = w) w :=
    lateChip_kept (by simp [qnfConfigScan, qnfSetRegBit, Silent, SYSTEM1, RSSISIG])
      (by simp [qnfConfigScan, qnfSetRegBit])
  have polled : Achieves (lateChip quiet).env (Prog.doWhile pollScan 0)
      (fun timeout w' => w' = w ∧ timeout = 1) w := by
    have answer : ((lateChip quiet).respond (.readReg SYSTEM1) w.world).1 = (0 : UINT8) := rfl
    have ended : (0 : UINT8) &&& CHSC = 0 := by decide
    apply Achieves.doWhile
    simp only [pollScan, qndDelay_eq, pure_bind, achieves_bind, achieves_readReg, answer, ended,
      @read SYSTEM1 (by decide)]
    rw [if_neg (fun more => more.1 rfl), achieves_pure]
    exact ⟨rfl, rfl⟩
  have judged : Achieves (lateChip quiet).env (judgeChannel 0 0 255 1)
      (fun accepted w' => w' = w ∧ accepted = true) w := by
    have high : ((lateChip quiet).respond (.readReg CCA5) w.world).1 = (8 : UINT8) := rfl
    have low : ((lateChip quiet).respond (.readReg CCA4) w.world).1 = (0 : UINT8) := rfl
    rw [judgeChannel, if_pos (by decide)]
    simp only [achieves_bind, achieves_readReg, high, low, @read CCA5 (by decide),
      @read CCA4 (by decide)]
    rw [if_pos (by decide), if_pos (by decide), achieves_pure]
    exact ⟨rfl, rfl⟩
  obtain ⟨_, w₁, run, rfl⟩ := prepared
  have check : checkChannel f step 0 0 255 = (do
      (do
        qnfConfigScan f f step
        writeReg CCA (0 - 22 + 0)
        qnfSetRegBit SYSTEM1 0xA1 0xA0)
      let timeout ← Prog.doWhile pollScan 0
      judgeChannel 0 0 255 timeout) := by
    simp only [checkChannel, bind_assoc]
  rw [check]
  apply run.then_achieves
  rw [achieves_bind]
  apply polled.mono
  intro timeout w₂ ended
  obtain ⟨rfl, rfl⟩ := ended
  exact judged

/-- One look per frequency, which is accepted once the chip is no longer quiet. -/
theorem lateChip_seekTest (hushed : Hushed w) : Achieves (lateChip quiet).env (seekTest f step 0)
    (fun accepted w' => w'.globals = w.globals ∧ w'.world = w.world + 1 ∧
      accepted = decide (quiet ≤ w.world)) w := by
  simp only [seekTest, qndDelay_eq, pure_bind, achieves_bind]
  apply achieves_qnfGetRSSIn.mono
  intro minrssi w₁ looked
  obtain ⟨rfl, rfl⟩ := looked
  rw [hushed.floor]
  apply lateChip_qnfSetCh.mono
  intro _ w₂ same
  subst same
  have image : Achieves (lateChip quiet).env (if imageChannel f then qnfSetRegBit TXAGC_GAIN IMR IMR
      else qnfSetRegBit TXAGC_GAIN IMR 0) (fun _ w' => w' = w₂) w₂ := by
    split
    next => exact lateChip_qnfSetRegBit (by decide)
    next => exact lateChip_qnfSetRegBit (by decide)
  apply image.mono
  intro _ w₃ same
  subst same
  apply (lateChip_qnfSetRegBit (by decide)).mono
  intro _ w₄ same
  subst same
  rw [achieves_readReg]
  by_cases early : w₄.world < quiet
  · have low : ((lateChip quiet).respond (.readReg RSSISIG) w₄.world).1 = 0 := if_pos early
    rw [low, if_neg (by decide), achieves_pure]
    refine ⟨rfl, rfl, (decide_eq_false (Nat.not_le.mpr early)).symm⟩
  · have high : ((lateChip quiet).respond (.readReg RSSISIG) w₄.world).1 = 255 := if_neg early
    rw [high, if_pos (by decide)]
    apply lateChip_checkChannel.mono
    intro accepted w₅ checked
    obtain ⟨rfl, rfl⟩ := checked
    refine ⟨rfl, rfl, (decide_eq_true (Nat.not_lt.mp early)).symm⟩

theorem lateChip_seekRound {up : Bool} {leap : UINT8} (hushed : Hushed w) :
    Achieves (lateChip quiet).env (seekRound stop step 0 up leap x) (fun next w' =>
      w'.globals = w.globals ∧ w'.world = w.world + 1 ∧ (quiet ≤ w.world → next = .inr x) ∧
      (w.world < quiet → next = if Within up stop (advance up leap x) then
        .inl (advance up leap x) else .inr 0)) w := by
  rw [seekRound, achieves_bind]
  apply (lateChip_seekTest hushed).mono
  intro accepted w₁ tested
  obtain ⟨same, looked, rfl⟩ := tested
  by_cases loud : quiet ≤ w.world
  · have soon : ¬w.world < quiet := Nat.not_lt.mpr loud
    rw [decide_eq_true loud]
    have leaves : Achieves (lateChip quiet).env (seekNext stop up leap x true)
        (fun next w' => w' = w₁ ∧ next = .inr x) w₁ := by
      simp only [seekNext, if_true, achieves_bind, achieves_load8, achieves_when, achieves_act,
        achieves_pure]
      exact ⟨fun _ => ⟨rfl, trivial⟩, fun _ => ⟨trivial, trivial⟩⟩
    apply leaves.mono
    intro next w₂ left
    obtain ⟨rfl, rfl⟩ := left
    exact ⟨same, looked, fun _ => rfl, fun early => absurd early soon⟩
  · rw [decide_eq_false loud, seekNext_refused]
    by_cases further : Within up stop (advance up leap x)
    · rw [if_pos further, achieves_pure, if_pos further]
      exact ⟨same, looked, fun now => absurd now loud, fun _ => rfl⟩
    · rw [if_neg further, achieves_pure, if_neg further]
      exact ⟨same, looked, fun now => absurd now loud, fun _ => rfl⟩

/-- A step from `stop` that does not leave the scan has wrapped, and not to 0. -/
theorem advance_ne_zero {up : Bool} {leap : UINT8} (moves : 0 < leap.toNat)
    (above : stop.toNat + leap.toNat < 65536) (further : Within up stop (advance up leap stop)) :
    advance up leap stop ≠ 0 := by
  cases up with
  | true => exact absurd further (outside_advance ⟨moves, above⟩)
  | false =>
    intro zero
    rw [zero] at further
    have bottom : stop = 0 := BitVec.le_antisymm further (Nat.zero_le _)
    have byte := leap.isLt
    have none : (advance false leap stop).toNat = 0 := by rw [zero]; rfl
    rw [bottom, advance, if_neg Bool.false_ne_true, BitVec.toNat_sub, BitVec.toNat_setWidth] at none
    change (65536 - leap.toNat % 65536 + 0) % 65536 = 0 at none
    omega

/-- Once it has been heard, every seek finds the frequency it starts at. -/
theorem lateChip_found (hushed : Hushed w) (loud : quiet ≤ w.world) :
    Achieves (lateChip quiet).env (qndRXSeekCH x stop step 0 skip) (fun found w' =>
      w'.globals = w.globals ∧ found = x ∧ quiet ≤ w'.world) w := by
  apply achieves_qndRXSeekCH_loop hushed.all
  apply Achieves.doWhile
  apply (lateChip_seekRound hushed).mono
  intro next w₁ turned
  obtain ⟨same, looked, found, _⟩ := turned
  obtain rfl := found loud
  exact ⟨same, rfl, by omega⟩

theorem Hushed.appended {w' : Machine Nat} (hushed : Hushed w)
    (flag : w'.globals.byte .qndAutoScanAll = w.globals.byte .qndAutoScanAll)
    (floor : w'.globals.minRSSI = w.globals.minRSSI) : Hushed w' :=
  ⟨flag.trans hushed.all, fun f => (congrFun floor f).trans (hushed.floor f)⟩

/-- A scan that has gone beyond the range once has a channel there, and ends, at the latest when
its list is full. -/
theorem lateChip_beyond {upByte leap : UINT8} {limit : UINT16} (moves : 0 < leap.toNat)
    (above : stop.toNat + leap.toNat < 65536) (hushed : Hushed w) (loud : quiet ≤ w.world)
    (room : w.globals.channels.length < QN_CCA_MAX_CH)
    (beyond : limit < x ∨ ∃ f ∈ w.globals.channels, limit < f) :
    Achieves (lateChip quiet).env (Prog.doWhile (seekAllRound stop step 0 upByte leap) x)
      (fun _ w' => ∃ f ∈ w'.globals.channels, limit < f) w := by
  refine achieves_doWhile (fun x w => Hushed w ∧ quiet ≤ w.world ∧
    w.globals.channels.length < QN_CCA_MAX_CH ∧ (limit < x ∨ ∃ f ∈ w.globals.channels, limit < f))
    (fun x w => 2 * (QN_CCA_MAX_CH - w.globals.channels.length) + if x = 0 then 1 else 0) ?_
    ⟨hushed, loud, room, beyond⟩
  intro x w given
  obtain ⟨hushed, loud, room, beyond⟩ := given
  rw [seekAllRound_eq, achieves_bind]
  apply (lateChip_found hushed loud).mono
  intro temp w₁ sought
  obtain ⟨same, rfl, loud₁⟩ := sought
  rw [← same] at room beyond
  have hushed₁ : Hushed w₁ := ⟨same ▸ hushed.all, same ▸ hushed.floor⟩
  have last (y : UINT16) : (if y = 0 then 1 else 0) ≤ 1 := by
    split
    next => decide
    next => decide
  by_cases zero : temp = 0
  · have listed : ∃ f ∈ w₁.globals.channels, limit < f := by
      apply beyond.resolve_left
      rw [zero]
      exact Nat.not_lt_zero _
    subst zero
    apply achieves_seekAllNext_none.mono
    intro next w' turned
    obtain ⟨rfl, rfl⟩ := turned
    by_cases go : Within (decide (upByte ≠ 0)) stop (advance (decide (upByte ≠ 0)) leap stop) ∧
        w'.globals.channels.length < QN_CCA_MAX_CH
    · have nonzero := advance_ne_zero moves above go.1
      rw [scanFrom, if_pos go]
      refine ⟨⟨hushed₁, loud₁, room, .inr listed⟩, ?_⟩
      rw [same, if_pos rfl, if_neg nonzero]
      omega
    · rw [scanFrom, if_neg go]
      exact listed
  · apply (achieves_seekAllNext_found zero room).mono
    intro next w' turned
    obtain ⟨listed, flag, floor, world, rfl⟩ := turned
    have found : ∃ f ∈ w'.globals.channels, limit < f := by
      rw [listed]
      rcases beyond with here | ⟨f, member, past⟩
      · exact ⟨temp, List.mem_append_right _ (List.mem_singleton_self temp), here⟩
      · exact ⟨f, List.mem_append_left _ member, past⟩
    have grown : w'.globals.channels.length = w₁.globals.channels.length + 1 := by
      rw [listed, List.length_append, List.length_singleton]
    by_cases go : Within (decide (upByte ≠ 0)) stop (advance (decide (upByte ≠ 0)) leap temp) ∧
        w'.globals.channels.length < QN_CCA_MAX_CH
    · rw [scanFrom, if_pos go, ← same]
      refine ⟨⟨hushed₁.appended flag floor, world ▸ loud₁, go.2, .inr found⟩, ?_⟩
      have small := last (advance (decide (upByte ≠ 0)) leap temp)
      rw [grown]
      omega
    · rw [scanFrom, if_neg go]
      exact found

theorem advance_wraps {leap : UINT8} (short : x.toNat < leap.toNat) :
    (advance false leap x).toNat = 65536 - leap.toNat + x.toNat := by
  have byte := leap.isLt
  rw [advance, if_neg Bool.false_ne_true, BitVec.toNat_sub, BitVec.toNat_setWidth]
  change (65536 - leap.toNat % 65536 + x.toNat) % 65536 = _
  omega

/-- A chip that stays quiet down to the stop: the first seek ends there with nothing, or has wrapped
and finds something beyond the range. -/
theorem lateChip_first {limit : UINT16} (hushed : Hushed w) (index : step.toNat < 3)
    (down : stop ≤ start) (inRange : start ≤ limit) (high : limit.toNat < 65516)
    (looked : w.world = 1)
    (later : quiet = (start.toNat - stop.toNat) / (qndStepTbl step.toNat).toNat + 2) :
    Achieves (lateChip quiet).env (qndRXSeekCH start stop step 0 skip) (fun found w' =>
      w'.globals = w.globals ∧ quiet ≤ w'.world ∧ (found = 0 ∨ limit < found)) w := by
  obtain ⟨moves, small⟩ := stepTbl_bounds step.toNat
  have downNat : stop.toNat ≤ start.toNat := down
  have startIn : start.toNat ≤ limit.toNat := inRange
  have direction : decide (start < stop) = false := decide_eq_false (BitVec.not_lt.mpr down)
  apply achieves_qndRXSeekCH_loop hushed.all
  rw [stepValue_inside _ index, direction]
  generalize leapIs : qndStepTbl step.toNat = leap at *
  refine achieves_doWhile (fun x w₁ => w₁.globals = w.globals ∧
    (stop ≤ x ∧ x ≤ start ∧ w₁.world + (x.toNat - stop.toNat) / leap.toNat + 1 = quiet ∨
      limit < x ∧ quiet ≤ w₁.world)) (fun x _ => if limit < x then 0 else x.toNat + 1) ?_
    ⟨rfl, .inl ⟨down, BitVec.le_refl start, by omega⟩⟩
  intro x w₁ given
  obtain ⟨same, place⟩ := given
  have hushed₁ : Hushed w₁ := ⟨same ▸ hushed.all, same ▸ hushed.floor⟩
  apply (lateChip_seekRound hushed₁).mono
  intro next w₂ turned
  obtain ⟨same₂, count, found, missed⟩ := turned
  have same₂ := same₂.trans same
  rcases place with ⟨low, start, due⟩ | ⟨past, loud⟩
  case inr =>
    obtain rfl := found loud
    exact ⟨same₂, by omega, .inr past⟩
  case inl =>
    have lowNat : stop.toNat ≤ x.toNat := low
    have startNat : x.toNat ≤ _ := start
    have inside : ¬limit < x := BitVec.not_lt.mpr (BitVec.le_trans start inRange)
    have early : w₁.world < quiet := by
      rw [← due]
      exact Nat.lt_succ_of_le (Nat.le_add_right _ _)
    obtain rfl := missed early
    by_cases further : Within false stop (advance false leap x)
    · have closer : stop.toNat ≤ (advance false leap x).toNat := further
      rw [if_pos further]
      dsimp only [Sum.elim_inl]
      rw [if_neg inside]
      by_cases wraps : x.toNat < leap.toNat
      · have next := advance_wraps wraps
        have past : limit < advance false leap x := by
          show limit.toNat < (advance false leap x).toNat
          omega
        have last : (x.toNat - stop.toNat) / leap.toNat = 0 := Nat.div_eq_of_lt (by omega)
        rw [if_pos past]
        exact ⟨⟨same₂, .inr ⟨past, by omega⟩⟩, Nat.succ_pos _⟩
      · have next := @toNat_advance_down leap x (by omega)
        have division := Nat.div_eq_sub_div moves (show leap.toNat ≤ x.toNat - stop.toNat by omega)
        have stays : advance false leap x ≤ x := by
          show (advance false leap x).toNat ≤ x.toNat
          omega
        have within : ¬limit < advance false leap x :=
          BitVec.not_lt.mpr (BitVec.le_trans stays (BitVec.not_lt.mp inside))
        rw [if_neg within]
        refine ⟨⟨same₂, .inl ⟨further, BitVec.le_trans stays start, ?_⟩⟩, by omega⟩
        rw [next, count, show x.toNat - leap.toNat - stop.toNat = x.toNat - stop.toNat - leap.toNat by omega]
        omega
    · rw [if_neg further]
      have out : ¬stop.toNat ≤ (advance false leap x).toNat := further
      have short : ¬x.toNat < leap.toNat := by
        intro wraps
        have next := advance_wraps wraps
        omega
      have next := @toNat_advance_down leap x (by omega)
      have last : (x.toNat - stop.toNat) / leap.toNat = 0 := Nat.div_eq_of_lt (by omega)
      exact ⟨same₂, by omega, .inl rfl⟩

/-- The update of the noise floor looks once, and finds a clear channel as quiet as it was. -/
theorem lateChip_update (rescanned : w.globals.byte .qndFirstScan = 0)
    (floor : w.globals.byte .qndRSSIns = 0) (silent : w.world < quiet) :
    Achieves (lateChip quiet).env (qndUpdateRSSIn 0) (fun _ w' => w'.world = w.world + 1 ∧
      w'.globals = w.globals.set8 .qndClearScanFlag 0) w := by
  have tuned (ch : UINT16) : Achieves (lateChip quiet).env (do
      qndSetSysMode 0x8000
      qnfSetCh ch
      qnfSetRegBit SYSTEM1 CCA_CH_DIS CCA_CH_DIS) (fun _ w' => w' = w) w := by
    apply lateChip_kept
    · simp [qndSetSysMode, setWorkingMode, qnfSetMute, qnfSetRegBit, qnfSetCh, Silent, SYSTEM1,
        CH_STEP, RSSISIG, REG_PD2]
    · simp [qndSetSysMode, setWorkingMode, qnfSetMute, qnfSetRegBit, qnfSetCh]
  have look (ch : UINT16) : Achieves (lateChip quiet).env (qndGetRSSI ch) (fun rssi w' => rssi = 0 ∧
      w'.globals = w.globals ∧ w'.world = w.world + 1) w := by
    obtain ⟨_, w₁, run, rfl⟩ := tuned ch
    have parts : qndGetRSSI ch = (do
        (do
          qndSetSysMode 0x8000
          qnfSetCh ch
          qnfSetRegBit SYSTEM1 CCA_CH_DIS CCA_CH_DIS)
        readReg RSSISIG) := by
      simp only [qndGetRSSI, qndDelay_eq, pure_bind, bind_assoc]
    rw [parts]
    apply run.then_achieves
    exact achieves_readReg.mpr ⟨if_pos silent, rfl, rfl⟩
  have checked : Achieves (lateChip quiet).env checkClearChannel (fun _ w' =>
      w'.world = w.world + 1 ∧ w'.globals = w.globals.set8 .qndClearScanFlag 0) w := by
    simp only [checkClearChannel, achieves_bind, achieves_load16]
    apply (look _).mono
    intro temp w₁ heard
    obtain ⟨rfl, same, count⟩ := heard
    simp only [achieves_load8, same, floor]
    rw [if_pos (by decide), achieves_store8, same]
    exact ⟨count, rfl⟩
  rw [qndUpdateRSSIn, achieves_bind, achieves_load8, achieves_bind, achieves_when]
  refine ⟨fun _ => ?_, fun first => absurd rescanned first⟩
  apply checked.mono
  intro _ w₁ found
  obtain ⟨count, same⟩ := found
  have flag : w₁.globals.byte .qndClearScanFlag = 0 := by
    rw [same]
    simp
  have first : w₁.globals.byte .qndFirstScan = 0 := by
    rw [same]
    simpa using rescanned
  rw [rescanIfWanted, achieves_bind, achieves_load8, flag, achieves_bind, if_neg (by decide),
    achieves_load8, first, achieves_when]
  exact ⟨fun wanted => absurd wanted (by decide), fun _ => ⟨count, same⟩⟩

def quietIn (r : Range) : Globals :=
  ((quietFloor.set16 .qndCHSTART r.start).set16 .qndCHSTOP r.stop).set8 .qndCHSTEP r.step

theorem lateChip_prepare (r : Range) (silent : 0 < quiet) :
    Achieves (lateChip quiet).env (seekAllPrepare step) (fun _ w' => Hushed w' ∧ w'.world = 1)
      ⟨quietIn r, 0⟩ := by
  rw [seekAllPrepare, achieves_bind]
  apply (lateChip_qnfSetRegBit (by decide)).mono
  intro _ w₁ same
  subst same
  rw [achieves_bind, achieves_store8, achieves_bind, achieves_stepTbl, achieves_bind]
  apply (lateChip_qnfSetRegBit (by decide)).mono
  intro _ w₂ same
  subst same
  rw [achieves_bind]
  apply (lateChip_update rfl rfl silent).mono
  intro _ w₃ updated
  obtain ⟨count, same⟩ := updated
  rw [achieves_bind, achieves_store8, achieves_pure]
  refine ⟨⟨?_, fun f => ?_⟩, count⟩
  · rw [same]
    rfl
  · rw [same]
    rfl

/-- A scan down to a stop less than a step above 0, on a chip that stays quiet down to it: the scan
goes on beyond the range. -/
theorem lateChip_wraps {limit : UINT16} (hushed : Hushed w) (index : step.toNat < 3)
    (down : stop ≤ start) (inRange : start ≤ limit) (high : limit.toNat < 65516)
    (short : stop.toNat < (qndStepTbl step.toNat).toNat) (looked : w.world = 1)
    (fresh : w.globals.channels = [])
    (later : quiet = (start.toNat - stop.toNat) / (qndStepTbl step.toNat).toNat + 2) :
    Achieves (lateChip quiet).env
      (Prog.doWhile (seekAllRound stop step 0 0 (qndStepTbl step.toNat)) start)
      (fun _ w' => ∃ f ∈ w'.globals.channels, limit < f) w := by
  obtain ⟨moves, small⟩ := stepTbl_bounds step.toNat
  have above : stop.toNat + (qndStepTbl step.toNat).toNat < 65536 := by omega
  apply Achieves.doWhile
  rw [seekAllRound_eq, achieves_bind]
  apply (lateChip_first hushed index down inRange high looked later).mono
  intro temp w₁ sought
  obtain ⟨same, loud, ends⟩ := sought
  have hushed₁ : Hushed w₁ := ⟨same ▸ hushed.all, same ▸ hushed.floor⟩
  have room : w₁.globals.channels.length < QN_CCA_MAX_CH := by
    rw [same, fresh]
    decide
  by_cases zero : temp = 0
  · have wrapped := advance_wraps short
    have further : Within (decide ((0 : UINT8) ≠ 0)) stop
        (advance (decide ((0 : UINT8) ≠ 0)) (qndStepTbl step.toNat) stop) := by
      show stop.toNat ≤ (advance false (qndStepTbl step.toNat) stop).toNat
      omega
    have past : limit < advance false (qndStepTbl step.toNat) stop := by
      show limit.toNat < (advance false (qndStepTbl step.toNat) stop).toNat
      omega
    subst zero
    apply achieves_seekAllNext_none.mono
    intro next w' turned
    obtain ⟨rfl, rfl⟩ := turned
    rw [scanFrom, if_pos ⟨further, room⟩]
    exact lateChip_beyond moves above hushed₁ loud room (.inl past)
  · have past := ends.resolve_left zero
    apply (achieves_seekAllNext_found zero room).mono
    intro next w' turned
    obtain ⟨listed, flag, floor, world, rfl⟩ := turned
    have found : ∃ f ∈ w'.globals.channels, limit < f := by
      rw [listed]
      exact ⟨temp, List.mem_append_right _ (List.mem_singleton_self temp), past⟩
    by_cases go : Within (decide ((0 : UINT8) ≠ 0)) stop
        (advance (decide ((0 : UINT8) ≠ 0)) (qndStepTbl step.toNat) temp) ∧
        w'.globals.channels.length < QN_CCA_MAX_CH
    · rw [scanFrom, if_pos go]
      exact lateChip_beyond moves above (hushed₁.appended flag floor) (world ▸ loud) go.2 (.inr found)
    · rw [scanFrom, if_neg go]
      exact found

theorem lateChip_finish {limit pStop : UINT16} (beyond : ∃ f ∈ w.globals.channels, limit < f) :
    Achieves (lateChip quiet).env (seekAllFinish pStop)
      (fun _ w' => ∃ f ∈ w'.globals.channels, limit < f) w := by
  refine (@achieves_finish _ (lateChip quiet) w pStop _ rfl).mono ?_
  intro count w' done
  rw [done.listed]
  exact beyond

/-- A start beyond the range, or a stop less than a step above 0 with the walk leading down to it:
some chip makes the scan list a channel beyond the range. -/
theorem lateChip_scan {r : Range} (country : r ∈ countryRanges) (index : step.toNat < 3)
    (leaves : ¬(start ≤ r.stop ∧ (start < stop ∨ (qndStepTbl step.toNat).toNat ≤ stop.toNat))) :
    ∃ quiet, Achieves (lateChip quiet).env (qndRXSeekCHAll start stop step 0 skip)
      (fun _ w' => ∃ f ∈ w'.globals.channels, r.stop < f) ⟨quietIn r, 0⟩ := by
  obtain ⟨moves, small⟩ := stepTbl_bounds step.toNat
  have limits : ∀ r ∈ countryRanges, r.stop.toNat ≤ 10800 := by decide
  have high := limits r country
  have cut : (quietIn r).clamp stop = if r.stop < stop then r.stop else stop := rfl
  have whole (quiet : Nat) (silent : 0 < quiet)
      (loop : ∀ w : Machine Nat, Hushed w → w.world = 1 → w.globals.channels = [] →
        Achieves (lateChip quiet).env (Prog.doWhile (seekAllRound ((quietIn r).clamp stop) step 0
          (if start < stop then 1 else 0) (qndStepTbl step.toNat)) start)
          (fun _ w' => ∃ f ∈ w'.globals.channels, r.stop < f) w) :
      Achieves (lateChip quiet).env (qndRXSeekCHAll start stop step 0 skip)
        (fun _ w' => ∃ f ∈ w'.globals.channels, r.stop < f) ⟨quietIn r, 0⟩ := by
    rw [qndRXSeekCHAll_eq, achieves_bind]
    apply achieves_stopInRange_clamp.mono
    intro pStop w₁ clamped
    obtain ⟨rfl, rfl⟩ := clamped
    obtain ⟨stepvalue, w₂, prepared, hushed, looked⟩ := @lateChip_prepare _ step r silent
    apply prepared.then_achieves
    obtain ⟨rfl, _, _⟩ := seekAllPrepare_ready step stepvalue w₂ prepared
    rw [stepValue_inside _ index, achieves_bind]
    apply (loop w₂ hushed looked (seekAllPrepare_empties prepared)).mono
    intro _ w₃ beyond
    exact lateChip_finish beyond
  by_cases inRange : start ≤ r.stop
  · have startIn : start.toNat ≤ r.stop.toNat := inRange
    have down : ¬start < stop := fun up => leaves ⟨inRange, .inl up⟩
    have downNat : stop.toNat ≤ start.toNat := BitVec.not_lt.mp down
    have short : stop.toNat < (qndStepTbl step.toNat).toNat := by
      by_contra room
      exact leaves ⟨inRange, .inr (Nat.not_lt.mp room)⟩
    have kept : (quietIn r).clamp stop = stop := by
      rw [cut, if_neg]
      exact BitVec.not_lt.mpr (show stop.toNat ≤ r.stop.toNat by omega)
    refine ⟨(start.toNat - stop.toNat) / (qndStepTbl step.toNat).toNat + 2,
      whole _ (Nat.succ_pos _) ?_⟩
    intro w hushed looked fresh
    rw [kept, if_neg down]
    exact lateChip_wraps hushed index downNat inRange (by omega) short looked fresh rfl
  · have clamped : ((quietIn r).clamp stop).toNat ≤ 10800 := by
      rw [cut]
      split
      next => exact high
      next inside =>
        have le : stop.toNat ≤ r.stop.toNat := BitVec.not_lt.mp inside
        omega
    refine ⟨1, whole 1 Nat.one_pos ?_⟩
    intro w hushed looked fresh
    have free : w.globals.channels.length < QN_CCA_MAX_CH := by
      rw [fresh]
      decide
    exact lateChip_beyond moves (by omega) hushed looked.ge free (.inl (BitVec.not_le.mp inRange))

/-- Whatever the chip answers, a scan lists its channels inside its limits and the driver's range,
strictly in the order from `start` to `stop`, exactly when its start is inside the range and, if
it leads downwards, its stop is a step above 0. -/
theorem in_order_everywhere_iff {r : Range} (country : r ∈ countryRanges) (index : step.toNat < 3) :
    (∀ (κ : Type) (b : Board κ) (w : Machine κ) (db skip : UINT8), w.globals.range = r →
      Ensures b.env (qndRXSeekCHAll start stop step db skip)
        (fun _ w' => InOrder start stop r.stop w'.globals.channels) w) ↔
      start ≤ r.stop ∧ (start < stop ∨ (qndStepTbl step.toNat).toNat ≤ stop.toNat) := by
  have limits : ∀ r ∈ countryRanges, 20 ≤ r.stop.toNat ∧ r.stop.toNat + 20 < 65536 := by decide
  constructor
  · intro ordered
    by_contra leaves
    obtain ⟨quiet, count, w', run, f, member, beyond⟩ :=
      @lateChip_scan start stop step 0 r country index leaves
    have listed := ordered Nat (lateChip quiet) ⟨quietIn r, 0⟩ 0 0 rfl count w' run
    exact absurd (listed.inRange f member) (BitVec.not_le.mpr beyond)
  · intro inside κ b w db skip same
    have stop : w.globals.half .qndCHSTOP = r.stop := congrArg Range.stop same
    have bounds := limits r country
    rw [← stop] at inside bounds ⊢
    exact qndRXSeekCHAll_inOrder bounds.1 bounds.2 index inside.1 inside.2

end

end Yika.Fm
