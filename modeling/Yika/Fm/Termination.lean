import Yika.Fm.Polling
import Yika.Fm.Seek
import Yika.Fm.Tables

/-! The loops of the seeks, which step through the frequencies and end, and from them what each
ioctl waits for. -/

namespace Yika.Fm
open Program

/-! A single seek. -/

def gap (up : Bool) (stop f : UINT16) : Nat :=
  if up then stop.toNat - f.toNat else f.toNat - stop.toNat

section
variable {κ : Type} {b : Board κ} {μ : Machine κ → Nat} {w : Machine κ} {leap : UINT8} {up : Bool}
  {start stop x : UINT16}

/-- There is a step of room behind `stop`. -/
def Fits (up : Bool) (leap : UINT8) (stop : UINT16) : Prop :=
  0 < leap.toNat ∧ if up then stop.toNat + leap.toNat < 65536 else leap.toNat ≤ stop.toNat

theorem Room.fits (room : Room leap stop) (up : Bool) : Fits up leap stop := by
  cases up with
  | true => exact ⟨room.moves, room.above⟩
  | false => exact ⟨room.moves, room.below⟩

theorem advance_closer (fits : Fits up leap stop) (here : Within up stop x)
    (further : Within up stop (advance up leap x)) :
    Within up (advance up leap x) x ∧ gap up stop (advance up leap x) < gap up stop x := by
  obtain ⟨moves, behind⟩ := fits
  cases up with
  | true =>
    have above : stop.toNat + leap.toNat < 65536 := behind
    have low : x.toNat ≤ stop.toNat := here
    have next := @toNat_advance_up leap x (by omega)
    have high : (advance true leap x).toNat ≤ stop.toNat := further
    refine ⟨show x.toNat ≤ (advance true leap x).toNat by omega, ?_⟩
    show stop.toNat - (advance true leap x).toNat < stop.toNat - x.toNat
    omega
  | false =>
    have below : leap.toNat ≤ stop.toNat := behind
    have low : stop.toNat ≤ x.toNat := here
    have next := @toNat_advance_down leap x (by omega)
    have high : stop.toNat ≤ (advance false leap x).toNat := further
    refine ⟨show (advance false leap x).toNat ≤ x.toNat by omega, ?_⟩
    show (advance false leap x).toNat - stop.toNat < x.toNat - stop.toNat
    omega

@[simp] theorem bounded_bandIndexFrom {chfreq : UINT16} {left i : Nat} :
    Bounded b.env μ (bandIndexFrom chfreq left i) w := by
  induction left generalizing i with
  | zero => exact bounded_pure
  | succ left ih => simp [bandIndexFrom, ih]

@[simp] theorem bounded_qnfGetRSSIn {chFreq : UINT16} : Bounded b.env μ (qnfGetRSSIn chFreq) w := by
  simp [qnfGetRSSIn, qnfGetRSSInBandIndex, ensures_anything]

/-- The poll of a channel check counts its looks. -/
theorem bounded_pollScan : Bounded b.env μ (Prog.doWhile pollScan 0) w := by
  refine Bounded.loop (fun timeout _ => timeout.toNat < 200) (fun timeout => 200 - timeout.toNat) ?_
    (by decide)
  intro timeout w₁ small
  refine ⟨by simp [pollScan], ?_⟩
  simp only [pollScan, qndDelay_eq, pure_bind, ensures_bind, ensures_readReg, ensures_ite, ensures_pure]
  refine ⟨fun again => ?_, fun _ => trivial⟩
  have next := toNat_timeout (show timeout < 200 from small)
  have limit : (timeout + 1).toNat < 200 := again.2
  exact ⟨limit, by omega⟩

@[simp] theorem bounded_judgeChannel {db minrssi rssi timeout : UINT8} :
    Bounded b.env μ (judgeChannel db minrssi rssi timeout) w := by
  simp [judgeChannel]

@[simp] theorem bounded_checkChannel {step db minrssi rssi : UINT8} :
    Bounded b.env μ (checkChannel start step db minrssi rssi) w := by
  simp only [checkChannel, bounded_bind, bounded_qnfConfigScan, bounded_writeReg,
    bounded_qnfSetRegBit, bounded_pollScan, bounded_judgeChannel, ensures_anything, and_true]

@[simp] theorem bounded_seekTest {step db : UINT8} : Bounded b.env μ (seekTest start step db) w := by
  simp [seekTest, ensures_anything]

@[simp] theorem bounded_seekRound {step db : UINT8} :
    Bounded b.env μ (seekRound stop step db up leap x) w := by
  simp [seekRound, seekNext, ensures_anything]

/-- A turn of the seek ends it with its frequency or with 0, or goes one step further. -/
theorem seekRound_moves (step db : UINT8) : Ensures b.env (seekRound stop step db up leap x)
    (fun next _ => next = .inr x ∨ next = .inr 0 ∨
      next = .inl (advance up leap x) ∧ Within up stop (advance up leap x)) w := by
  rw [seekRound, ensures_bind]
  intro accepted w₁ _
  cases accepted with
  | true => simp [seekNext]
  | false =>
    rw [seekNext_refused]
    by_cases further : Within up stop (advance up leap x)
    · rw [if_pos further, ensures_pure]
      exact Or.inr (Or.inr ⟨rfl, further⟩)
    · rw [if_neg further, ensures_pure]
      exact Or.inr (Or.inl rfl)

theorem bounded_seekLoop (room : Room leap stop) (step db : UINT8) (here : Within up stop x) :
    Bounded b.env μ (Prog.doWhile (seekRound stop step db up leap) x) w := by
  refine Bounded.loop (fun x _ => Within up stop x) (gap up stop) ?_ here
  intro x w₁ here
  refine ⟨bounded_seekRound, (seekRound_moves step db).mono ?_⟩
  intro next _ moved
  rcases moved with rfl | rfl | ⟨rfl, further⟩
  · trivial
  · trivial
  · exact ⟨further, (advance_closer (room.fits up) here further).2⟩

/-- What a seek finds lies between where it starts and where it stops. -/
theorem seekLoop_between (fits : Fits up leap stop) (step db : UINT8) (here : Within up stop start) :
    Ensures b.env (Prog.doWhile (seekRound stop step db up leap) start)
      (fun found _ => found ≠ 0 → Within up stop found ∧ Within up found start) w := by
  refine ensures_doWhile (fun x _ => Within up stop x ∧ Within up x start) ?_
    ⟨here, within_refl start⟩
  intro x w₁ between
  refine (seekRound_moves step db).mono ?_
  intro next _ moved
  rcases moved with rfl | rfl | ⟨rfl, further⟩
  · exact fun _ => between
  · exact fun nonzero => absurd rfl nonzero
  · exact ⟨further, within_trans between.2 (advance_closer fits between.1 further).1⟩

theorem bounded_seekFrom {step db : UINT8} (room : Room (b.stepValue step) stop) :
    Bounded b.env μ (seekFrom start stop step db) w := by
  have loop (w₁ : Machine κ) : Bounded b.env μ
      (Prog.doWhile (seekRound stop step db (decide (start < stop)) (b.stepValue step)) start) w₁ :=
    bounded_seekLoop room step db within_start
  simp [seekFrom, loop, ensures_anything]

theorem bounded_qndRXSeekCH (scanning : w.globals.byte .qndAutoScanAll ≠ 0) {step db skip : UINT8}
    (room : Room (b.stepValue step) stop) :
    Bounded b.env μ (qndRXSeekCH start stop step db skip) w := by
  rw [qndRXSeekCH_eq, bounded_bind, ensures_load8, bounded_bind, bounded_when]
  refine ⟨bounded_load8, fun idle => absurd idle scanning, ?_⟩
  intro _ w₁ _
  exact bounded_seekFrom room

theorem qndRXSeekCH_between {step db skip : UINT8}
    (fits : Fits (decide (start < stop)) (b.stepValue step) stop) :
    Ensures b.env (qndRXSeekCH start stop step db skip) (fun found _ => found ≠ 0 →
      Within (decide (start < stop)) stop found ∧ Within (decide (start < stop)) found start) w := by
  rw [qndRXSeekCH_eq, ensures_bind, ensures_load8, ensures_bind]
  intro _ w₁ _
  simp only [seekFrom, ensures_bind, ensures_stepTbl]
  refine (seekLoop_between fits step db within_start).mono ?_
  intro found w₂ between
  simp only [ensures_load8, ensures_pure]
  intro _ w₃ _
  exact between

/-! The scan of all channels. -/

def Startable (up : Bool) (leap : UINT8) (stop f : UINT16) : Prop :=
  if up then f.toNat + leap.toNat < 65536 else stop ≤ f

theorem scan_closer (room : Room leap stop) {f : UINT16} (ready : Startable up leap stop x)
    (ahead : Within (decide (x < stop)) stop f) (after : Within (decide (x < stop)) f x)
    (further : Within up stop (advance up leap f)) :
    Startable up leap stop (advance up leap f) ∧ gap up stop (advance up leap f) < gap up stop x := by
  have moves := room.moves
  have below := room.below
  have above := room.above
  cases up with
  | true =>
    have fits : x.toNat + leap.toNat < 65536 := ready
    have high : (advance true leap f).toNat ≤ stop.toNat := further
    by_cases before : x < stop
    · rw [decide_eq_true before] at ahead after
      have ahead : f.toNat ≤ stop.toNat := ahead
      have after : x.toNat ≤ f.toNat := after
      have next := @toNat_advance_up leap f (by omega)
      refine ⟨show (advance true leap f).toNat + leap.toNat < 65536 by omega, ?_⟩
      show stop.toNat - (advance true leap f).toNat < stop.toNat - x.toNat
      omega
    · rw [decide_eq_false before] at ahead after
      have ahead : stop.toNat ≤ f.toNat := ahead
      have after : f.toNat ≤ x.toNat := after
      have next := @toNat_advance_up leap f (by omega)
      omega
  | false =>
    have here : stop ≤ x := ready
    rw [decide_eq_false (BitVec.not_lt.mpr here)] at ahead after
    have ahead : stop.toNat ≤ f.toNat := ahead
    have after : f.toNat ≤ x.toNat := after
    have next := @toNat_advance_down leap f (by omega)
    have low : stop.toNat ≤ (advance false leap f).toNat := further
    refine ⟨low, ?_⟩
    show (advance false leap f).toNat - stop.toNat < x.toNat - stop.toNat
    omega

theorem seekAllNext_moves (temp : UINT16) : Ensures b.env (seekAllNext stop up leap temp)
    (fun next w' => w'.globals.byte .qndAutoScanAll = w.globals.byte .qndAutoScanAll ∧
      (next = .inr () ∨ next = .inl (advance up leap (if temp ≠ 0 then temp else stop)) ∧
        Within up stop (advance up leap (if temp ≠ 0 then temp else stop)))) w := by
  have append : Ensures b.env (Prog.when (temp ≠ 0) (appendChannel temp))
      (fun _ w₁ => w₁.globals.byte .qndAutoScanAll = w.globals.byte .qndAutoScanAll) w := by
    simp [appendChannel]
  rw [seekAllNext, ensures_bind]
  intro _ w₁ appended next w' turned
  obtain ⟨rfl, rfl⟩ := achieves_scanFrom.ensures next w' turned
  refine ⟨append _ w' appended, ?_⟩
  rw [scanFrom]
  by_cases go : Within up stop (advance up leap (if temp ≠ 0 then temp else stop)) ∧
      w'.globals.channels.length < QN_CCA_MAX_CH
  · rw [if_pos go]
    exact .inr ⟨rfl, go.1⟩
  · rw [if_neg go]
    exact .inl rfl

theorem seekAllRound_moves {step db upByte : UINT8} (room : Room (b.stepValue step) stop)
    (scanning : w.globals.byte .qndAutoScanAll ≠ 0)
    (ready : Startable (decide (upByte ≠ 0)) (b.stepValue step) stop x) :
    Bounded b.env μ (seekAllRound stop step db upByte (b.stepValue step) x) w ∧
      Ensures b.env (seekAllRound stop step db upByte (b.stepValue step) x)
        (Sum.elim (fun y w' => (w'.globals.byte .qndAutoScanAll ≠ 0 ∧
          Startable (decide (upByte ≠ 0)) (b.stepValue step) stop y) ∧
          gap (decide (upByte ≠ 0)) stop y < gap (decide (upByte ≠ 0)) stop x) fun _ _ => True) w := by
  rw [seekAllRound_eq]
  constructor
  · simp [bounded_qndRXSeekCH scanning room, seekAllNext, appendChannel, ensures_anything]
  · rw [ensures_bind]
    intro temp w₁ seek
    have between := qndRXSeekCH_between (room.fits _) temp w₁ seek
    have landed : Within (decide (x < stop)) stop (if temp ≠ 0 then temp else stop) ∧
        Within (decide (x < stop)) (if temp ≠ 0 then temp else stop) x := by
      by_cases found : temp ≠ 0
      · rw [if_pos found]
        exact between found
      · rw [if_neg found]
        exact ⟨within_refl stop, within_start⟩
    have kept := byte_kept (qndRXSeekCH_writes x stop step db upByte) seek (v := .qndAutoScanAll)
      (by simp [updateBytes, floorBytes])
    intro next w₂ turned
    obtain ⟨same, rfl | ⟨rfl, further⟩⟩ := seekAllNext_moves temp next w₂ turned
    · trivial
    · have scanning₂ : w₂.globals.byte .qndAutoScanAll ≠ 0 := by rwa [same, kept]
      obtain ⟨startable, closer⟩ := scan_closer room ready landed.1 landed.2 further
      exact ⟨⟨scanning₂, startable⟩, closer⟩

theorem bounded_seekAllLoop {step db upByte : UINT8} (room : Room (b.stepValue step) stop)
    (scanning : w.globals.byte .qndAutoScanAll ≠ 0)
    (ready : Startable (decide (upByte ≠ 0)) (b.stepValue step) stop x) :
    Bounded b.env μ (Prog.doWhile (seekAllRound stop step db upByte (b.stepValue step)) x) w := by
  refine Bounded.loop (fun x w => w.globals.byte .qndAutoScanAll ≠ 0 ∧
    Startable (decide (upByte ≠ 0)) (b.stepValue step) stop x) (gap (decide (upByte ≠ 0)) stop) ?_
    ⟨scanning, ready⟩
  intro y w₁ here
  exact seekAllRound_moves room here.1 here.2

end

/-! The ioctls. -/

section
variable {a : Answers} {w : Machine Bus}

theorem seekPrelude_finishes_iff :
    Finishes a seekPrelude w ↔ a.UpdateEnds w.globals (w.world.reads + 2) := by
  simp only [Finishes, seekPrelude, qnfSetMute, if_true, qnfSetRegBit, bounded_bind, bounded_readReg,
    bounded_writeReg, ensures_bind, ensures_readReg, ensures_writeReg, true_and]
  exact qndUpdateRSSIn_finishes_iff

theorem qndRXSeekCH_finishes_iff {start stop : UINT16} {step db skip : UINT8}
    (room : Room (a.board.stepValue step) stop) :
    Finishes a (qndRXSeekCH start stop step db skip) w ↔
      (w.globals.byte .qndAutoScanAll = 0 → a.UpdateEnds w.globals (w.world.reads + 2)) := by
  rw [← seekPrelude_finishes_iff, qndRXSeekCH_eq, Finishes, bounded_bind, ensures_load8, bounded_bind,
    bounded_when]
  have rest : Ensures a.board.env (Prog.when (w.globals.byte .qndAutoScanAll = 0) seekPrelude)
      (fun _ w₁ => Finishes a (seekFrom start stop step db) w₁) w :=
    fun _ _ _ => bounded_seekFrom room
  exact (and_iff_right bounded_load8).trans (and_iff_left rest)

theorem updateEnds_scanning (g : Globals) (value : UINT8) (p : Nat) :
    a.UpdateEnds (g.set8 .qndAutoScanAll value) p ↔ a.UpdateEnds g p := by
  simp [Answers.UpdateEnds, Globals.floorMoved]

theorem seekAllPrepare_finishes_iff (step : UINT8) :
    Finishes a (seekAllPrepare step) w ↔ a.UpdateEnds w.globals (w.world.reads + 2) := by
  rw [← updateEnds_scanning w.globals 1]
  simp only [Finishes, seekAllPrepare, qnfSetMute, if_true, qnfSetRegBit, bounded_bind, bounded_readReg,
    bounded_writeReg, bounded_store8, bounded_stepTbl, bounded_pure, ensures_bind, ensures_readReg,
    ensures_writeReg, ensures_store8, ensures_stepTbl, ensures_anything, true_and, and_true]
  exact qndUpdateRSSIn_finishes_iff

def InBand (f : UINT16) : Prop := 7600 ≤ f.toNat ∧ f.toNat ≤ 10800

theorem step_room {stop : UINT16} (low : 20 ≤ stop.toNat) (high : stop.toNat ≤ 10800) {step : UINT8}
    (index : step.toNat < 3) : Room (a.board.stepValue step) stop := by
  rw [stepValue_inside _ index]
  obtain ⟨moves, small⟩ := stepTbl_bounds step.toNat
  exact ⟨moves, by omega, by omega⟩

theorem InBand.room {stop : UINT16} (band : InBand stop) {step : UINT8} (index : step.toNat < 3) :
    Room (a.board.stepValue step) stop := by
  obtain ⟨low, high⟩ := band
  exact step_room (by omega) high index

theorem stopInRange_limits {stop : UINT16} (band : InBand stop)
    (limit : 20 ≤ (w.globals.half .qndCHSTOP).toNat) :
    Achieves a.board.env (stopInRange stop)
      (fun pStop w' => w' = w ∧ 20 ≤ pStop.toNat ∧ pStop ≤ stop) w := by
  simp only [stopInRange, achieves_bind, achieves_load16, achieves_ite, achieves_pure]
  constructor
  · intro cut
    exact ⟨trivial, limit, BitVec.le_of_lt cut⟩
  · intro _
    have low := band.1
    exact ⟨trivial, by omega, BitVec.le_refl stop⟩

theorem qndRXSeekCHAll_finishes_iff {start stop : UINT16} {step db skip : UINT8}
    (index : step.toNat < 3) (low : InBand start) (high : InBand stop)
    (limit : 20 ≤ (w.globals.half .qndCHSTOP).toNat) :
    Finishes a (qndRXSeekCHAll start stop step db skip) w ↔
      a.UpdateEnds w.globals (w.world.reads + 2) := by
  rw [← seekAllPrepare_finishes_iff step, Finishes, qndRXSeekCHAll, bounded_bind]
  apply (and_iff_right (stopInRange_limits high limit).bounded).trans
  apply (stopInRange_limits high limit).ensures_iff
  intro pStop w₁ cut
  obtain ⟨rfl, above, within⟩ := cut
  have below : pStop.toNat ≤ 10800 := Nat.le_trans within high.2
  have room : Room (a.board.stepValue step) pStop := step_room above below index
  rw [bounded_bind]
  apply and_iff_left
  intro stepvalue w₂ prepared
  obtain ⟨rfl, scanning, _⟩ := seekAllPrepare_ready step stepvalue w₂ prepared
  have flagged : w₂.globals.byte .qndAutoScanAll ≠ 0 := by
    rw [scanning]
    decide
  have ready : Startable (decide ((if start < stop then 1 else 0 : UINT8) ≠ 0))
      (a.board.stepValue step) pStop start := by
    by_cases before : start < stop
    · rw [if_pos before, stepValue_inside _ index]
      have small := (stepTbl_bounds step.toNat).2
      have band := low.2
      show start.toNat + (qndStepTbl step.toNat).toNat < 65536
      omega
    · rw [if_neg before]
      exact BitVec.le_trans within (BitVec.not_lt.mp before)
  rw [bounded_bind]
  refine ⟨bounded_seekAllLoop room flagged ready, ?_⟩
  intro _ w₃ _
  simp [firstChannel, ensures_anything]

theorem qndRDSCheckBufferReady_finishes_iff :
    Finishes a qndRDSCheckBufferReady w ↔ a.BufferEnds w.world.reads := by
  simp only [Finishes, qndRDSCheckBufferReady, bounded_bind, bounded_readReg, ensures_readReg,
    bounded_ite, bounded_writeReg, bounded_pure, ensures_anything, true_and, and_true, implies_true]
  exact (imp_congr_right fun _ => (pollRDSUpdate_polls _).finishes_iff).trans
    or_iff_not_imp_left.symm

/-- The frequencies and the step of a command are those the driver is made for; the scan of all
channels also stops at the end of the driver's own range, which is not below the longest step. -/
def Ioctl.InBand (g : Globals) : Ioctl → Prop
  | .rxseekch rsc => Fm.InBand (ushort rsc.start) ∧ Fm.InBand (ushort rsc.stop) ∧
      (uchar rsc.step).toNat < 3
  | .rxseekchall rscall => Fm.InBand (ushort rscall.start) ∧ Fm.InBand (ushort rscall.stop) ∧
      (uchar rscall.step).toNat < 3 ∧ 20 ≤ (g.half .qndCHSTOP).toNat
  | _ => True

/-- The driver's range does so in every state after boot. -/
theorem session_limit {κ : Type} {b : Board κ} {w w' : Machine κ} {cmds : List Ioctl}
    (booted : w.globals = Globals.initial) (path : Path (IoctlStep b) w cmds w') :
    20 ≤ (w'.globals.half .qndCHSTOP).toNat := by
  have country : w.globals.range ∈ countryRanges := by
    rw [booted]
    decide
  have ranges : ∀ r ∈ countryRanges, 20 ≤ r.stop.toNat := by decide
  exact ranges _ (country_session path country)

def Answers.Ends (a : Answers) (w : Machine Bus) : Ioctl → Prop
  | .rxseekch _ => a.user .copyFromUser = true → w.globals.byte .qndAutoScanAll = 0 →
      a.UpdateEnds w.globals (w.world.reads + 2)
  | .rxseekchall _ => a.user .copyFromUser = true → a.UpdateEnds w.globals (w.world.reads + 2)
  | .txclearchscan _ => a.user .copyFromUser = true →
      ∃ n, w.world.reads + 2 ≤ n ∧ a.stream n &&& CHSC = 0
  | .getIsbufready => a.BufferEnds w.world.reads
  | _ => True

theorem fromUser_finishes_iff {command : Drv Reply} : Finishes a (fromUser command) w ↔
    (a.user .copyFromUser = true → Finishes a command w) := by
  simp only [Finishes, fromUser, bounded_bind, bounded_copyFromUser, bounded_ite, bounded_pure,
    ensures_copyFromUser, implies_true, and_true, true_and]
  exact Iff.rfl

/-- A command that copies its result to the user is done with the bus before. -/
theorem toUser_finishes_iff {α : Type} {command : Drv α} {reply : α → Reply} :
    Finishes a (do
      let value ← command
      toUser (reply value)) w ↔ Finishes a command w := by
  simp [Finishes, toUser, ensures_anything]

theorem finishes_fromUser {command : Drv Reply} (finishes : Finishes a command w) :
    Finishes a (fromUser command) w := fromUser_finishes_iff.mpr fun _ => finishes

/-- An ioctl finishes exactly when what it waits for comes. -/
theorem ioctl_finishes_iff (a : Answers) (stackPower : INT) {cmd : Ioctl} {w : Machine Bus}
    (band : cmd.InBand w.globals) :
    Finishes a (qn8006UnlockedIoctl stackPower cmd) w ↔ a.Ends w cmd := by
  cases cmd with
  | rxseekch rsc =>
    obtain ⟨_, high, index⟩ := band
    exact fromUser_finishes_iff.trans (imp_congr_right fun _ =>
      toUser_finishes_iff.trans (qndRXSeekCH_finishes_iff (high.room index)))
  | rxseekchall rscall =>
    obtain ⟨low, high, index, limit⟩ := band
    exact fromUser_finishes_iff.trans (imp_congr_right fun _ =>
      toUser_finishes_iff.trans (qndRXSeekCHAll_finishes_iff index low high limit))
  | txclearchscan clCHscan =>
    refine fromUser_finishes_iff.trans (imp_congr_right fun _ => ?_)
    refine toUser_finishes_iff.trans ((clearScan_finishes_iff _ _ _ _).trans ?_)
    simp only [exists_scanEnds, not_not, ne_eq]
  | getIsbufready => exact toUser_finishes_iff.trans qndRDSCheckBufferReady_finishes_iff
  | setFq frequency => exact iff_of_true (finishes_fromUser (by simp [Finishes])) trivial
  | getFq => exact iff_of_true (toUser_finishes_iff.mpr bounded_qnfGetCh) trivial
  | transmit => exact iff_of_true bounded_pure trivial
  | setPower power =>
    exact iff_of_true (finishes_fromUser (by simp [Finishes, qndTXSetPower])) trivial
  | getPower => exact iff_of_true (by simp [Finishes, qn8006UnlockedIoctl, toUser]) trivial
  | audioMode audioPath => exact iff_of_true (finishes_fromUser (by simp [Finishes, setPin])) trivial
  | audioConfig cfgAud =>
    exact iff_of_true (finishes_fromUser (by simp [Finishes, qndRXConfigAudio, qndTXConfigAudio,
      qnfSetAudioMono, ensures_anything])) trivial
  | setsysMode sysMode => exact iff_of_true (finishes_fromUser (by simp [Finishes])) trivial
  | init => exact iff_of_true (by simp [Finishes, qn8006UnlockedIoctl]) trivial
  | setCspin cspin => exact iff_of_true (finishes_fromUser (by simp [Finishes, setPin])) trivial
  | getRssi rssi =>
    exact iff_of_true (finishes_fromUser (toUser_finishes_iff.mpr bounded_qndGetRSSI)) trivial
  | rdsenable rdsen =>
    exact iff_of_true (finishes_fromUser (by simp [Finishes, qndRDSEnable, ensures_anything])) trivial
  | getRdssignal => exact iff_of_true (toUser_finishes_iff.mpr bounded_readReg) trivial
  | rdsloaddata rdsld =>
    exact iff_of_true (finishes_fromUser (by simp [Finishes, qndRDSLoadData])) trivial
  | setCountry country =>
    exact iff_of_true (finishes_fromUser (by simp [Finishes, qndSetCountry])) trivial
  | cfgfmmod cfgFMod =>
    exact iff_of_true (finishes_fromUser (by simp [Finishes, qndConfigFMModule])) trivial
  | loaddftsetting country =>
    exact iff_of_true (finishes_fromUser (by simp [Finishes, qndLoadDefalutSetting, qndConfigFMModule,
      qndTXConfigAudio, qnfSetAudioMono, ensures_anything])) trivial
  | powerEnable poweren => exact iff_of_true (finishes_fromUser (by simp [Finishes])) trivial

/-- A chip without power, which answers every read alike; the user side works. -/
def unpowered (value : UINT8) : Answers where
  stream _ := value
  user
    | .readReg _ => value
    | .writeReg _ _ => ()
    | .callBack _ _ => ()
    | .gpioMode _ _ => ()
    | .gpioDir _ _ => ()
    | .gpioOut _ _ => ()
    | .hwPower _ => ()
    | .copyFromUser => true
    | .copyToUser => true
    | .peek _ => 0
    | .poke _ _ => ()
    | .getIntArrayRegion _ _ _ => ()
  beyond _ := 0

theorem unpowered_bandsEnd (left p : Nat) : (unpowered 0).BandsEnd left p := by
  induction left generalizing p with
  | zero => trivial
  | succ left ih =>
    have ends : (unpowered 0).ScanEnds (p + 2) (p + 2) := by
      refine ⟨Nat.le_refl _, show (0 : UINT8) &&& CHSC = 0 by decide, ?_⟩
      intro m after before
      omega
    exact ⟨p + 2, ends, ih _⟩

/-- The first seek on a chip that reads 0 for ever. -/
theorem seek_finishes : Finishes (unpowered 0) (qn8006UnlockedIoctl 0
    (.rxseekch ⟨7600, 7700, 1, 0, 0, 0⟩)) ⟨Globals.initial, ⟨0, 0⟩⟩ := by
  refine (ioctl_finishes_iff (unpowered 0) 0 ?_).mpr ?_
  · exact ⟨⟨by decide, by decide⟩, ⟨by decide, by decide⟩, by decide⟩
  · intro _ _
    exact unpowered_bandsEnd 6 3

/-- Reading 0xFF for ever the scan for a clear channel does not end, and reading 0 for ever the
wait for the RDS buffer does not. -/
theorem unpowered_waits :
    ¬Finishes (unpowered 0xFF) (qn8006UnlockedIoctl 0 (.txclearchscan ⟨7600, 7700, 1, 0, 0, 0⟩))
      ⟨Globals.initial, ⟨0, 0⟩⟩ ∧
    ¬Finishes (unpowered 0) (qn8006UnlockedIoctl 0 .getIsbufready) ⟨Globals.initial, ⟨0, 0⟩⟩ := by
  constructor
  · intro finishes
    have scan := toUser_finishes_iff.mp (fromUser_finishes_iff.mp finishes rfl)
    obtain ⟨n, ends⟩ := (clearScan_finishes_iff _ _ _ _).mp scan
    exact absurd ends.clear (show ¬(0xFF : UINT8) &&& CHSC = 0 by decide)
  · intro finishes
    have ready := qndRDSCheckBufferReady_finishes_iff.mp (toUser_finishes_iff.mp finishes)
    rcases ready with transmitting | ⟨n, _, updated⟩
    · exact transmitting (show (0 : UINT8) &&& TXREQ = 0 by decide)
    · exact updated (show ((0 : UINT8) ^^^ 0) &&& RDS_RXUPD = 0 by decide)

end

end Yika.Fm
