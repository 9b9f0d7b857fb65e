import Yika.Fm.RssiBands
import Yika.Program.Guard

/-! The indices into the driver's tables: which are always inside, and what the commands that
search do with a step that is none. -/

namespace Yika.Fm
open Program

def Var8.InBounds : Var8 → Prop
  | .qndRSSIn i => i < 6
  | _ => True

def Var16.InBounds : Var16 → Prop
  | .qndRSSInBB i => i < 7
  | .qndChList i => i < 50
  | _ => True

/-- Whichever table the operation looks into or stores into, the index is inside. -/
def InTables : FmOp → Prop
  | .ext _ => True
  | .load8 v => v.InBounds
  | .store8 v _ => v.InBounds
  | .load16 v => v.InBounds
  | .store16 v _ => v.InBounds
  | .stepTbl i => i.toNat < 3

def Inside {κ : Type} (o : FmOp) (_ : Machine κ) : Prop := InTables o

section
variable {κ α : Type} {b : Board κ} {w w' : Machine κ}

/-! What looks into no table, or with indices of its own. -/

theorem qnfSetRegBit_tables (reg bitMask dataVal : UINT8) :
    Uses InTables (qnfSetRegBit reg bitMask dataVal) := by
  simp [qnfSetRegBit, InTables]

theorem qnfSetMute_inside (on : Bool) : Uses InTables (qnfSetMute on) := by
  simp [qnfSetMute, qnfSetRegBit, InTables]

theorem qndSetSysMode_inside (mode : UINT16) : Uses InTables (qndSetSysMode mode) := by
  simp [qndSetSysMode, setWorkingMode, qnfSetMute, qnfSetRegBit, InTables, Var8.InBounds]

theorem qnfSetCh_inside (freq : UINT16) : Uses InTables (qnfSetCh freq) := by
  simp [qnfSetCh, InTables]

theorem qndGetRSSI_inside (ch : UINT16) : Uses InTables (qndGetRSSI ch) := by
  refine uses_bind (qndSetSysMode_inside _) fun _ => uses_bind (qnfSetCh_inside ch) fun _ => ?_
  simp [qnfSetRegBit, InTables]

theorem qndTXClearChannelScan_inside (start stop : UINT16) (step db : UINT8) :
    Uses InTables (qndTXClearChannelScan start stop step db) := by
  simp [qndTXClearChannelScan, qnfConfigScan, qnfSetRegBit, pollClearChannel, qnfGetCh, InTables]

theorem checkClearChannel_inside : Uses InTables checkClearChannel := by
  simp only [checkClearChannel, uses_load16_bind, InTables, Var16.InBounds, true_and]
  intro clear
  apply uses_bind (qndGetRSSI_inside clear)
  intro temp
  simp [InTables, Var8.InBounds]

theorem qndTuneToCH_inside (ch : UINT16) : Uses InTables (qndTuneToCH ch) := by
  simp [qndTuneToCH, qnfRXInit, qnfSetRegBit, qnfSetCh, qnfSetMute, InTables]

theorem checkChannel_inside (start : UINT16) (step db minrssi rssi : UINT8) :
    Uses InTables (checkChannel start step db minrssi rssi) := by
  simp [checkChannel, judgeChannel, qnfConfigScan, qnfSetRegBit, pollScan, InTables]

theorem bandIndexFrom_inside (chfreq : UINT16) (left i : Nat) (last : i + left ≤ 6) :
    Uses InTables (bandIndexFrom chfreq left i) := by
  induction left generalizing i with
  | zero => exact uses_pure _
  | succ left ih =>
    have edge : InTables (.load16 (.qndRSSInBB (i + 1))) := by
      show i + 1 < 7
      omega
    simp [bandIndexFrom, edge, ih (i + 1) (by omega)]

theorem bandIndexFrom_band (chfreq : UINT16) (left i : Nat) (last : i + left ≤ 6) :
    Ensures b.env (bandIndexFrom chfreq left i) (fun idx _ => idx.toNat < 6) w := by
  induction left generalizing i with
  | zero => exact ensures_pure.mpr (by decide)
  | succ left ih =>
    simp only [bandIndexFrom, ensures_bind, ensures_load16, ensures_ite, ensures_pure]
    refine ⟨fun _ => ?_, fun _ => ih (i + 1) (by omega)⟩
    rw [BitVec.toNat_ofNat]
    omega

theorem qnfGetRSSIn_inside (chFreq : UINT16) : Safe b.env Inside (qnfGetRSSIn chFreq) w := by
  refine safe_bind.mpr ⟨(bandIndexFrom_inside chFreq _ 0 (by decide)).safe, ?_⟩
  exact (bandIndexFrom_band chFreq _ 0 (by decide)).mono fun idx _ band => safe_perform.mpr band

theorem qnfInitRSSInBB_inside (index : (w.globals.byte .qndCHSTEP).toNat < 3) :
    Safe b.env Inside qnfInitRSSInBB w := by
  refine safe_bind.mpr ⟨safe_perform.mpr trivial, ?_⟩
  rw [ensures_load8, safe_bind]
  refine ⟨safe_perform.mpr index, ?_⟩
  intro step w₁ _
  apply Uses.safe
  simp [initRSSInBBEdge, InTables, Var16.InBounds]

/-! The noise floor. -/

def Indexed (w : Machine κ) : Prop := (w.globals.byte .qndCHSTEP).toNat < 3

theorem Indexed.kept {p : Drv α} {regs : List UINT8} {bytes : Set Var8} {halves : Set Var16}
    (indexed : Indexed w) (uses : Uses (Writes regs bytes halves) p) (outside : Var8.qndCHSTEP ∉ bytes) :
    Ensures b.env p (fun _ w' => Indexed w') w := by
  intro out w' run
  unfold Indexed
  rw [byte_kept uses run outside]
  exact indexed

theorem scanBand_inside (indexed : Indexed w) {i : Nat} (band : i < 6) :
    Safe b.env Inside (scanBand i) w := by
  have low : InTables (.load16 (.qndRSSInBB i)) := (by omega : i < 7)
  have high : InTables (.load16 (.qndRSSInBB (i + 1))) := (by omega : i + 1 < 7)
  have here (rssi : UINT8) : InTables (.store8 (.qndRSSIn i) rssi) := band
  unfold scanBand
  rw [safe_bind, ensures_load16, safe_bind, ensures_load16, safe_bind, ensures_load8, safe_bind]
  refine ⟨safe_perform.mpr low, safe_perform.mpr high, safe_perform.mpr trivial, ?_⟩
  refine ⟨safe_perform.mpr indexed, ?_⟩
  intro leap w₁ _
  apply Uses.safe
  simp only [uses_load8_bind, InTables, Var8.InBounds, true_and]
  intro step
  apply uses_bind (qndTXClearChannelScan_inside _ _ _ _)
  intro ch
  apply uses_bind (qndGetRSSI_inside ch)
  intro rssi
  simp [here]

theorem rescanBands_inside (left i : Nat) (last : i + left ≤ 6) (indexed : Indexed w) :
    Safe b.env Inside (rescanBands left i) w := by
  induction left generalizing i w with
  | zero => exact safe_pure
  | succ left ih =>
    have here : i < 6 := by omega
    have rest (scanned : UINT16 × UINT8) : Uses InTables (do
        let floor ← load8 .qndRSSIns
        let rssi ← load8 (.qndRSSIn i)
        Prog.when (rssi < floor) do
          let rssi ← load8 (.qndRSSIn i)
          store8 .qndRSSIns rssi
          store16 .qndClearChannel scanned.1
        pure scanned) := by
      simp [InTables, Var8.InBounds, Var16.InBounds, here]
    have band : Safe b.env Inside (rescanBand i) w := by
      refine safe_bind.mpr ⟨scanBand_inside indexed here, ?_⟩
      intro scanned w₁ _
      exact (rest scanned).safe
    refine safe_bind.mpr ⟨band, ?_⟩
    refine (indexed.kept (rescanBand_writes i) (by simp)).mono fun _ w₁ indexed₁ => ?_
    refine safe_bind.mpr ⟨ih (i + 1) (by omega) indexed₁, ?_⟩
    intro _ w₂ _
    exact safe_pure

theorem rescan_inside (indexed : Indexed w) : Safe b.env Inside rescan w := by
  refine safe_bind.mpr ⟨safe_perform.mpr trivial, ?_⟩
  rw [ensures_readReg]
  refine safe_bind.mpr ⟨rescanBands_inside QND_BAND_NUM 0 (by decide) indexed, ?_⟩
  intro measured w₁ _
  apply Uses.safe
  simp [InTables]

theorem qnfUpdateRSSIn_inside (indexed : Indexed w) (chFreq : UINT16) :
    Safe b.env Inside (qnfUpdateRSSIn chFreq) w := by
  refine safe_ite.mpr ⟨fun _ => ?_, fun _ => ?_⟩
  · refine safe_bind.mpr ⟨rescan_inside indexed, ?_⟩
    intro _ w₁ _
    exact safe_pure
  · refine safe_bind.mpr ⟨safe_perform.mpr trivial, ?_⟩
    rw [ensures_readReg]
    refine safe_bind.mpr ⟨(bandIndexFrom_inside chFreq _ 0 (by decide)).safe, ?_⟩
    intro i w₁ looked
    have indexed₁ : Indexed w₁ := by
      unfold Indexed
      rw [globals_kept (bandIndexFrom_writes chFreq _ 0) looked]
      exact indexed
    have band := bandIndexFrom_band chFreq _ 0 (by decide) _ _ looked
    refine safe_bind.mpr ⟨scanBand_inside indexed₁ band, ?_⟩
    intro _ w₂ _
    exact safe_perform.mpr trivial

theorem rescanIfWanted_inside (indexed : Indexed w) (ch : UINT16) :
    Safe b.env Inside (rescanIfWanted ch) w := by
  refine safe_bind.mpr ⟨safe_perform.mpr trivial, ?_⟩
  rw [ensures_load8]
  have want (flag : UINT8) : Uses InTables (if flag ≠ 0 then (pure flag : Drv UINT8)
      else load8 .qndFirstScan) := by
    simp [InTables, Var8.InBounds]
  have quiet (flag : UINT8) : Uses (WritesRegs []) (if flag ≠ 0 then (pure flag : Drv UINT8)
      else load8 .qndFirstScan) := by
    simp [Writes]
  refine safe_bind.mpr ⟨(want _).safe, ?_⟩
  refine (indexed.kept (quiet _) (by simp)).mono fun wanted w₁ indexed₁ => ?_
  refine safe_when.mpr fun _ => safe_bind.mpr ⟨qnfUpdateRSSIn_inside indexed₁ ch, ?_⟩
  intro _ w₂ _
  exact safe_perform.mpr trivial

theorem qndUpdateRSSIn_inside (indexed : Indexed w) (ch : UINT16) :
    Safe b.env Inside (qndUpdateRSSIn ch) w := by
  refine safe_bind.mpr ⟨safe_perform.mpr trivial, ?_⟩
  rw [ensures_load8]
  have check : Uses (Writes scanRegs {.qndClearScanFlag} ∅)
      (Prog.when (w.globals.byte .qndFirstScan = 0) checkClearChannel) :=
    uses_when.mpr fun _ => checkClearChannel_writes
  refine safe_bind.mpr ⟨safe_when.mpr fun _ => checkClearChannel_inside.safe, ?_⟩
  refine (indexed.kept check (by simp)).mono fun _ w₁ indexed₁ => ?_
  exact rescanIfWanted_inside indexed₁ ch

/-! Seeking. -/

theorem seekTest_inside (start : UINT16) (step db : UINT8) :
    Safe b.env Inside (seekTest start step db) w := by
  refine safe_bind.mpr ⟨qnfGetRSSIn_inside start, ?_⟩
  intro minrssi w₁ _
  apply Uses.safe
  apply uses_bind (qnfSetCh_inside start)
  intro _
  simp [qnfSetRegBit, InTables, checkChannel_inside]

theorem seekRound_inside (stop : UINT16) (step db : UINT8) (up : Bool) (stepvalue : UINT8)
    (start : UINT16) : Safe b.env Inside (seekRound stop step db up stepvalue start) w := by
  refine safe_bind.mpr ⟨seekTest_inside start step db, ?_⟩
  intro accepted w₁ _
  apply Uses.safe
  simp [seekNext, InTables, Var8.InBounds]

/-- What `QND_RXSeekCH` does before it looks its step up. -/
def seekPrelude : Drv Unit := do
  qnfSetMute true
  qnfSetRegBit GAIN_SEL 0x38 0x38
  qndUpdateRSSIn 0

theorem seekPrelude_inside (indexed : Indexed w) : Safe b.env Inside seekPrelude w := by
  refine safe_bind.mpr ⟨(qnfSetMute_inside true).safe, ?_⟩
  refine (indexed.kept (qnfSetMute_writes true) (by simp)).mono fun _ w₁ indexed₁ => ?_
  refine safe_bind.mpr ⟨(qnfSetRegBit_tables _ _ _).safe, ?_⟩
  refine (indexed₁.kept (qnfSetRegBit_writes _ _ _) (by simp)).mono fun _ w₂ indexed₂ => ?_
  exact qndUpdateRSSIn_inside indexed₂ 0

/-- What it does from there on. -/
def seekFrom (start stop : UINT16) (step db : UINT8) : Drv UINT16 := do
  let stepvalue ← stepTbl step
  let chfreq ← Prog.doWhile (seekRound stop step db (decide (start < stop)) stepvalue) start
  let all ← load8 .qndAutoScanAll
  Prog.when (all = 0) (qndTuneToCH (if chfreq = 0 then stop else chfreq))
  pure chfreq

theorem qndRXSeekCH_eq (start stop : UINT16) (step db up : UINT8) :
    qndRXSeekCH start stop step db up = (do
      let all ← load8 .qndAutoScanAll
      Prog.when (all = 0) seekPrelude
      seekFrom start stop step db) := rfl

theorem seekFrom_inside (start stop : UINT16) {step : UINT8} (inside : step.toNat < 3) (db : UINT8) :
    Safe b.env Inside (seekFrom start stop step db) w := by
  refine safe_bind.mpr ⟨safe_perform.mpr inside, ?_⟩
  intro stepvalue w₁ _
  refine safe_bind.mpr ⟨?_, ?_⟩
  · refine Safe.loop (fun _ _ => True) (fun x w₂ _ => ?_) trivial
    refine ⟨seekRound_inside stop step db _ stepvalue x, ?_⟩
    intro next w₃ _
    cases next with
    | inl _ => trivial
    | inr _ => trivial
  · intro chfreq w₂ _
    apply Uses.safe
    simp [InTables, Var8.InBounds, qndTuneToCH_inside]

theorem qndRXSeekCH_inside (indexed : Indexed w) (start stop : UINT16) {step : UINT8}
    (inside : (∃ w₁, Runs b.env seekPrelude w () w₁) → step.toNat < 3)
    (idle : w.globals.byte .qndAutoScanAll = 0 ∨ step.toNat < 3) (db up : UINT8) :
    Safe b.env Inside (qndRXSeekCH start stop step db up) w := by
  rw [qndRXSeekCH_eq]
  refine safe_bind.mpr ⟨safe_perform.mpr trivial, ?_⟩
  rw [ensures_load8]
  refine safe_bind.mpr ⟨safe_when.mpr fun _ => seekPrelude_inside indexed, ?_⟩
  intro _ w₁ prelude
  apply seekFrom_inside
  rw [runs_when] at prelude
  rcases idle with idle | small
  · rw [if_pos idle] at prelude
    exact inside ⟨w₁, prelude⟩
  · exact small

/-- The list of channels has room for one more, and the index into the step table is one. -/
structure RoomLeft (w : Machine κ) : Prop where
  indexed : Indexed w
  room : (w.globals.byte .qndChCount).toNat < 50

theorem seekAllPrepare_inside (indexed : Indexed w) {step : UINT8} (inside : step.toNat < 3) :
    Safe b.env Inside (seekAllPrepare step) w := by
  refine safe_bind.mpr ⟨(qnfSetMute_inside true).safe, ?_⟩
  refine (indexed.kept (qnfSetMute_writes true) (by simp)).mono fun _ w₁ indexed₁ => ?_
  refine safe_bind.mpr ⟨safe_perform.mpr trivial, ?_⟩
  rw [ensures_store8]
  refine safe_bind.mpr ⟨safe_perform.mpr inside, ?_⟩
  rw [ensures_stepTbl]
  refine safe_bind.mpr ⟨(qnfSetRegBit_tables _ _ _).safe, ?_⟩
  have indexed₂ : Indexed { w₁ with globals := w₁.globals.set8 .qndAutoScanAll 1 } := indexed₁
  refine (indexed₂.kept (qnfSetRegBit_writes _ _ _) (by simp)).mono fun _ w₃ indexed₃ => ?_
  refine safe_bind.mpr ⟨qndUpdateRSSIn_inside indexed₃ 0, ?_⟩
  intro _ w₄ _
  apply Uses.safe
  simp [InTables, Var8.InBounds]

theorem seekAllPrepare_room (indexed : Indexed w) (step : UINT8) :
    Ensures b.env (seekAllPrepare step) (fun _ w' => RoomLeft w') w := by
  have count : Ensures b.env (seekAllPrepare step) (fun _ w' => w'.globals.byte .qndChCount = 0) w := by
    simp only [seekAllPrepare, ensures_bind, ensures_store8, ensures_pure]
    intro _ w₁ _ _ w₂ _ _ w₃ _ _ w₄ _
    rw [set8_byte, if_pos rfl]
  intro stepvalue w' run
  have outside : Var8.qndCHSTEP ∉ scanAllBytes := by simp [scanAllBytes, updateBytes, floorBytes]
  refine ⟨indexed.kept (seekAllPrepare_writes step) outside stepvalue w' run, ?_⟩
  rw [count stepvalue w' run]
  decide

/-- A channel is stored at the index that the loop has checked on the turn before. -/
theorem appendChannel_inside (left : RoomLeft w) (temp : UINT16) :
    Safe b.env Inside (appendChannel temp) w := by
  refine safe_bind.mpr ⟨safe_perform.mpr trivial, ?_⟩
  rw [ensures_load8]
  refine safe_bind.mpr ⟨safe_perform.mpr left.room, ?_⟩
  rw [ensures_store16]
  exact safe_perform.mpr trivial

theorem seekAllRound_inside (left : RoomLeft w) (pStop : UINT16) {step : UINT8}
    (inside : step.toNat < 3) (db up stepvalue : UINT8) (pStart : UINT16) :
    Safe b.env Inside (seekAllRound pStop step db up stepvalue pStart) w ∧
      Ensures b.env (seekAllRound pStop step db up stepvalue pStart)
        (Sum.elim (fun _ w' => RoomLeft w') fun _ _ => True) w := by
  have seek := qndRXSeekCH_writes pStart pStop step db up
  have index : Var8.qndCHSTEP ∉ updateBytes := by simp [updateBytes, floorBytes]
  have counter : Var8.qndChCount ∉ updateBytes := by simp [updateBytes, floorBytes]
  have stays : Ensures b.env (qndRXSeekCH pStart pStop step db up) (fun _ w' => RoomLeft w') w := by
    intro temp w₁ run
    refine ⟨left.indexed.kept seek index temp w₁ run, ?_⟩
    rw [byte_kept seek run counter]
    exact left.room
  constructor
  · refine safe_bind.mpr ⟨?_, stays.mono fun temp w₁ left₁ => ?_⟩
    · exact qndRXSeekCH_inside left.indexed pStart pStop (fun _ => inside) (.inr inside) db up
    refine safe_bind.mpr ⟨safe_when.mpr fun _ => appendChannel_inside left₁ temp, ?_⟩
    intro _ w₂ _
    apply Uses.safe
    simp [InTables, Var8.InBounds]
  · simp only [seekAllRound, ensures_bind]
    refine stays.mono fun temp w₁ left₁ => ?_
    have append : Ensures b.env (Prog.when (temp ≠ 0) (appendChannel temp))
        (fun _ w' => Indexed w') w₁ := by
      rw [ensures_when]
      refine ⟨fun _ => ?_, fun _ => left₁.indexed⟩
      simp only [appendChannel, ensures_bind, ensures_load8, ensures_store16, ensures_store8]
      exact left₁.indexed
    refine append.mono fun _ w₂ indexed₂ => ?_
    simp only [ensures_ite, ensures_bind, ensures_load8, ensures_pure]
    refine ⟨fun _ => ⟨fun room => ⟨indexed₂, room⟩, fun _ => trivial⟩, fun _ => trivial⟩

theorem qndRXSeekCHAll_inside (indexed : Indexed w) (start stop : UINT16) {step : UINT8}
    (inside : step.toNat < 3) (db up : UINT8) :
    Safe b.env Inside (qndRXSeekCHAll start stop step db up) w := by
  have limit : Uses InTables (stopInRange stop) := by
    simp [stopInRange, InTables, Var16.InBounds]
  have quiet : Uses (WritesRegs []) (stopInRange stop) := by
    simp [stopInRange, Writes]
  refine safe_bind.mpr ⟨limit.safe, ?_⟩
  refine (indexed.kept quiet (by simp)).mono fun pStop w₁ indexed₁ => ?_
  refine safe_bind.mpr ⟨seekAllPrepare_inside indexed₁ inside, ?_⟩
  refine (seekAllPrepare_room indexed₁ step).mono fun stepvalue w₂ left₂ => ?_
  refine safe_bind.mpr ⟨?_, ?_⟩
  · exact Safe.loop (fun _ => RoomLeft)
      (fun x w₃ left₃ => seekAllRound_inside left₃ pStop inside db _ stepvalue x) left₂
  · intro _ w₃ _
    apply Uses.safe
    apply uses_bind (by simp [firstChannel, InTables, Var8.InBounds, Var16.InBounds])
    intro ch
    apply uses_bind (qndTuneToCH_inside ch)
    intro _
    simp [qnfSetMute, qnfSetRegBit, InTables, Var8.InBounds]

/-! A step that is no index is used as one all the same. -/

theorem seekAllPrepare_looks {step : UINT8} (safe : Safe b.env Inside (seekAllPrepare step) w) :
    step.toNat < 3 := by
  simp only [seekAllPrepare, qnfSetMute, if_true, qnfSetRegBit, safe_bind, ensures_bind, ensures_readReg,
    ensures_writeReg, ensures_store8] at safe
  obtain ⟨_, _, look, _⟩ := safe
  exact safe_perform.mp look

theorem qndRXSeekCHAll_looks {start stop : UINT16} {step db up : UINT8}
    (safe : Safe b.env Inside (qndRXSeekCHAll start stop step db up) w) : step.toNat < 3 := by
  obtain ⟨_, rest⟩ := safe_bind.mp safe
  simp only [stopInRange, ensures_bind, ensures_load16, ensures_ite, ensures_pure] at rest
  by_cases beyond : w.globals.half .qndCHSTOP < stop
  · exact seekAllPrepare_looks (safe_bind.mp (rest.1 beyond)).1
  · exact seekAllPrepare_looks (safe_bind.mp (rest.2 beyond)).1

theorem qndRXSeekCH_looks (idle : w.globals.byte .qndAutoScanAll = 0) {start stop : UINT16}
    {step db up : UINT8} (safe : Safe b.env Inside (qndRXSeekCH start stop step db up) w)
    (updates : ∃ w₁, Runs b.env seekPrelude w () w₁) : step.toNat < 3 := by
  obtain ⟨w₁, prelude⟩ := updates
  rw [qndRXSeekCH_eq, safe_bind, ensures_load8, safe_bind] at safe
  have whole : Runs b.env (Prog.when (w.globals.byte .qndAutoScanAll = 0) seekPrelude) w () w₁ := by
    rw [runs_when, if_pos idle]
    exact prelude
  exact safe_perform.mp (safe_bind.mp (safe.2.2 () w₁ whole)).1

/-! The commands. -/

theorem fromUser_inside {command : Drv Reply} :
    Safe b.env Inside (fromUser command) w ↔ ((b.respond .copyFromUser w.world).1 = true →
      Safe b.env Inside command (w.after b .copyFromUser)) := by
  have copy : Safe b.env Inside copyFromUser w := safe_perform.mpr trivial
  rw [fromUser, safe_bind, ensures_copyFromUser, safe_ite, and_iff_right copy]
  exact and_iff_left fun _ => safe_pure

theorem toUser_inside (reply : Reply) : Uses InTables (toUser reply) := by
  simp [toUser, InTables]

/-- The step of a seek is an index into the step table, if the seek gets as far as looking it
up: the argument is copied, and for one channel the noise floor is updated. -/
def StepInTable (b : Board κ) (w : Machine κ) : Ioctl → Prop
  | .rxseekchall rscall =>
    (b.respond .copyFromUser w.world).1 = true → (uchar rscall.step).toNat < 3
  | .rxseekch rsc => (b.respond .copyFromUser w.world).1 = true →
    (∃ w₁, Runs b.env seekPrelude (w.after b .copyFromUser) () w₁) → (uchar rsc.step).toNat < 3
  | _ => True

theorem ioctl_inside (indexed : Indexed w) (idle : w.globals.byte .qndAutoScanAll = 0)
    (stackPower : INT) (cmd : Ioctl) :
    Safe b.env Inside (qn8006UnlockedIoctl stackPower cmd) w ↔ StepInTable b w cmd := by
  have copied : Indexed (w.after b .copyFromUser) := indexed
  cases cmd with
  | rxseekchall rscall =>
    refine fromUser_inside.trans (imp_congr_right fun _ => ?_)
    refine ⟨fun safe => qndRXSeekCHAll_looks (safe_bind.mp safe).1, fun inside => ?_⟩
    refine safe_bind.mpr ⟨qndRXSeekCHAll_inside copied _ _ inside _ _, ?_⟩
    intro ret w₁ _
    exact (toUser_inside _).safe
  | rxseekch rsc =>
    refine fromUser_inside.trans (imp_congr_right fun _ => ?_)
    have still : (w.after b .copyFromUser).globals.byte .qndAutoScanAll = 0 := idle
    refine ⟨fun safe => qndRXSeekCH_looks still (safe_bind.mp safe).1, fun inside => ?_⟩
    refine safe_bind.mpr ⟨qndRXSeekCH_inside copied _ _ inside (.inl still) _ _, ?_⟩
    intro ret w₁ _
    exact (toUser_inside _).safe
  | init =>
    refine iff_of_true (safe_bind.mpr ⟨?_, fun _ _ _ => safe_pure⟩) trivial
    have chip : Uses InTables qnChipInitialization := by
      simp [qnChipInitialization, qnfSetRegBit, InTables]
    refine safe_bind.mpr ⟨chip.safe, ?_⟩
    refine (indexed.kept qnChipInitialization_writes (by simp)).mono fun _ w₁ indexed₁ => ?_
    refine safe_bind.mpr ⟨(qnfSetMute_inside true).safe, ?_⟩
    refine (indexed₁.kept (qnfSetMute_writes true) (by simp)).mono fun _ w₂ indexed₂ => ?_
    refine safe_bind.mpr ⟨qnfInitRSSInBB_inside indexed₂, ?_⟩
    intro _ w₃ _
    apply Uses.safe
    simp [qnfSetMute, qnfSetRegBit, InTables]
  | getRssi rssi =>
    refine iff_of_true (fromUser_inside.mpr fun _ => Uses.safe ?_) trivial
    exact uses_bind (qndGetRSSI_inside _) (fun value => toUser_inside _)
  | txclearchscan clCHscan =>
    refine iff_of_true (fromUser_inside.mpr fun _ => Uses.safe ?_) trivial
    exact uses_bind (qndTXClearChannelScan_inside _ _ _ _) (fun ret => toUser_inside _)
  | setFq | getFq | transmit | setPower | getPower | audioMode | audioConfig | setsysMode | setCspin
  | rdsenable | getRdssignal | getIsbufready | rdsloaddata | setCountry | cfgfmmod | loaddftsetting
  | powerEnable =>
    refine iff_of_true (Uses.safe ?_) trivial
    simp [qn8006UnlockedIoctl, fromUser, toUser_inside, qndTuneToCH_inside, qnfGetCh, qndTXSetPower, setPin,
      qndRXConfigAudio, qndTXConfigAudio, qnfSetAudioMono, qnfSetMute, qnfSetRegBit, qndSetSysMode_inside,
      qndRDSEnable, qndRDSDetectSignal, qndRDSCheckBufferReady, pollRDSUpdate, qndRDSLoadData,
      qndSetCountry, qndConfigFMModule, qndLoadDefalutSetting, InTables, Var8.InBounds, Var16.InBounds]

theorem country_indexed (country : w.globals.range ∈ countryRanges) : Indexed w := by
  have index : ∀ r ∈ countryRanges, r.step.toNat < 3 := by decide
  exact index _ country

/-- After any commands from boot, a command uses an index outside a table exactly when it is a
seek whose step is no index into the step table. -/
theorem indices_in_tables_iff {cmd : Ioctl} {cmds : List Ioctl} (booted : w.globals = Globals.initial)
    (path : Path (IoctlStep b) w cmds w') (stackPower : INT) :
    (∀ o w₁, Visits b.env (qn8006UnlockedIoctl stackPower cmd) w' o w₁ → InTables o) ↔
      StepInTable b w' cmd := by
  have country : w.globals.range ∈ countryRanges := by
    rw [booted]
    decide
  have idle : w.globals.byte .qndAutoScanAll = 0 := by
    rw [booted]
    rfl
  have idle' : w'.globals.byte .qndAutoScanAll = 0 :=
    path.invariant (fun _ _ _ before step => step.idle before) idle
  exact ioctl_inside (country_indexed (country_session path country)) idle' stackPower cmd

end

/-- A scan of all channels with step 2, after INIT. -/
theorem step_two_inside :
    Path (IoctlStep system1Chip) ⟨Globals.initial, 0⟩ [.init] ⟨tableOfChina, 0x01⟩ ∧
      ∀ o w₁, Visits system1Chip.env (qn8006UnlockedIoctl 0
        (.rxseekchall ⟨8810, 10790, 2, 0, 0, 0⟩)) ⟨tableOfChina, 0x01⟩ o w₁ → InTables o := by
  have path : Path (IoctlStep system1Chip) ⟨Globals.initial, 0⟩ [.init] ⟨tableOfChina, 0x01⟩ :=
    .cons ⟨0, _, init_china⟩ (.nil _)
  exact ⟨path, (indices_in_tables_iff rfl path 0).mpr fun _ => by decide⟩

/-- A scan of all channels with step 3, right after boot. -/
theorem step_three_outside : ∃ o w₁, Visits system1Chip.env
    (qn8006UnlockedIoctl 0 (.rxseekchall ⟨8810, 10790, 3, 0, 0, 0⟩)) ⟨Globals.initial, 0⟩ o w₁ ∧
      ¬InTables o :=
  ⟨.stepTbl 3, _, .op (.op (.op (.op (.op .here)))), by unfold InTables; decide⟩

end Yika.Fm
