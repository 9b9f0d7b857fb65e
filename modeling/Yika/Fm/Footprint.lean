import Mathlib.Data.Set.Insert
import Yika.Fm.Ioctl

/-! What each driver function may write: which registers, and which globals. Every frame
fact about the driver is read off these footprints. -/

namespace Yika.Fm
open Program

/-- The operation writes no register outside `regs` and no global outside `bytes`, `halves`. -/
def Writes (regs : List UINT8) (bytes : Set Var8) (halves : Set Var16) : FmOp → Prop
  | .ext (.writeReg adr _) => adr ∈ regs
  | .store8 v _ => v ∈ bytes
  | .store16 v _ => v ∈ halves
  | _ => True

abbrev WritesRegs (regs : List UINT8) : FmOp → Prop := Writes regs ∅ ∅

theorem Writes.mono {regs regs' : List UINT8} {bytes bytes' : Set Var8} {halves halves' : Set Var16}
    (hr : regs ⊆ regs') (hb : bytes ⊆ bytes') (hh : halves ⊆ halves') (o : FmOp)
    (writes : Writes regs bytes halves o) : Writes regs' bytes' halves' o := by
  cases o with
  | ext e =>
    cases e with
    | writeReg adr value => exact hr writes
    | _ => trivial
  | store8 v value => exact hb writes
  | store16 v value => exact hh writes
  | _ => trivial

section
variable {regs : List UINT8} {bytes : Set Var8} {halves : Set Var16} {α : Type} {p : Drv α}

theorem grow {regs' : List UINT8} {bytes' : Set Var8} {halves' : Set Var16}
    (uses : Uses (Writes regs bytes halves) p) (hr : regs ⊆ regs') (hb : bytes ⊆ bytes')
    (hh : halves ⊆ halves') : Uses (Writes regs' bytes' halves') p :=
  uses.mono (Writes.mono hr hb hh)

theorem growRegs {regs' : List UINT8} {bytes' : Set Var8} {halves' : Set Var16}
    (uses : Uses (WritesRegs regs) p) (hr : regs ⊆ regs') :
    Uses (Writes regs' bytes' halves') p :=
  grow uses hr (Set.empty_subset _) (Set.empty_subset _)

variable {κ : Type} {b : Board κ} {w w' : Machine κ} {out : α}

theorem Writes.byte_kept {o : FmOp} (writes : Writes regs bytes halves o) {v : Var8}
    (outside : v ∉ bytes) : (b.env o w).2.globals.byte v = w.globals.byte v := by
  cases o with
  | store8 v' value =>
    have different : v ≠ v' := fun same => outside (same ▸ writes)
    simp [Board.env, different]
  | _ => simp [Board.env]

theorem Writes.half_kept {o : FmOp} (writes : Writes regs bytes halves o) {v : Var16}
    (outside : v ∉ halves) : (b.env o w).2.globals.half v = w.globals.half v := by
  cases o with
  | store16 v' value =>
    have different : v ≠ v' := fun same => outside (same ▸ writes)
    simp [Board.env, different]
  | _ => simp [Board.env]

theorem byte_kept (uses : Uses (Writes regs bytes halves) p) (run : Runs b.env p w out w')
    {v : Var8} (outside : v ∉ bytes) : w'.globals.byte v = w.globals.byte v :=
  uses.frame (fun w => w.globals.byte v) (fun _ _ writes => writes.byte_kept outside) run

theorem half_kept (uses : Uses (Writes regs bytes halves) p) (run : Runs b.env p w out w')
    {v : Var16} (outside : v ∉ halves) : w'.globals.half v = w.globals.half v :=
  uses.frame (fun w => w.globals.half v) (fun _ _ writes => writes.half_kept outside) run

/-- A global outside the footprint has its value whenever an operation of the function is performed. -/
theorem byte_visited {o : FmOp} (uses : Uses (Writes regs bytes halves) p)
    (visit : Visits b.env p w o w') {v : Var8} (outside : v ∉ bytes) :
    w'.globals.byte v = w.globals.byte v := by
  have keeps : ∀ o (w₁ : Machine κ), Writes regs bytes halves o →
      w₁.globals.byte v = w.globals.byte v → (b.env o w₁).2.globals.byte v = w.globals.byte v :=
    fun _ _ writes same => (writes.byte_kept outside).trans same
  exact (uses.visits keeps visit rfl).2

theorem half_visited {o : FmOp} (uses : Uses (Writes regs bytes halves) p)
    (visit : Visits b.env p w o w') {v : Var16} (outside : v ∉ halves) :
    w'.globals.half v = w.globals.half v := by
  have keeps : ∀ o (w₁ : Machine κ), Writes regs bytes halves o →
      w₁.globals.half v = w.globals.half v → (b.env o w₁).2.globals.half v = w.globals.half v :=
    fun _ _ writes same => (writes.half_kept outside).trans same
  exact (uses.visits keeps visit rfl).2

theorem globals_kept (uses : Uses (WritesRegs regs) p) (run : Runs b.env p w out w') :
    w'.globals = w.globals := by
  have keeps : ∀ o (w : Machine κ), WritesRegs regs o → (b.env o w).2.globals = w.globals := by
    intro o w writes
    cases o with
    | store8 v value => exact False.elim writes
    | store16 v value => exact False.elim writes
    | _ => rfl
  exact uses.frame (fun w => w.globals) keeps run

end

/-! The functions of `qndriver.c`. -/

@[simp] theorem qndDelay_eq (ms : UINT16) : qndDelay ms = pure () := rfl

theorem qnfSetRegBit_writes (reg bitMask dataVal : UINT8) :
    Uses (WritesRegs [reg]) (qnfSetRegBit reg bitMask dataVal) := by
  simp [qnfSetRegBit, Writes]

theorem qnfRXInit_writes : Uses (WritesRegs [77, 40, 64, 66, 65]) qnfRXInit := by
  simp [qnfRXInit, qnfSetRegBit, Writes]

theorem qnfSetMute_writes (on : Bool) : Uses (WritesRegs [REG_PD2]) (qnfSetMute on) := by
  simp [qnfSetMute, qnfSetRegBit, Writes]

theorem qnfInitRSSInBB_writes :
    Uses (Writes [] ∅ {v | ∃ i, v = .qndRSSInBB i}) qnfInitRSSInBB := by
  simp [qnfInitRSSInBB, initRSSInBBEdge, Writes]

theorem bandIndexFrom_writes (chfreq : UINT16) (left i : Nat) :
    Uses (WritesRegs []) (bandIndexFrom chfreq left i) := by
  induction left generalizing i with
  | zero => exact uses_pure _
  | succ left ih => simp [bandIndexFrom, Writes, ih]

theorem qnfGetRSSIn_writes (chFreq : UINT16) : Uses (WritesRegs []) (qnfGetRSSIn chFreq) :=
  uses_bind (bandIndexFrom_writes chFreq _ _) (by simp [Writes])

theorem qnfGetCh_writes : Uses (WritesRegs []) qnfGetCh := by
  simp [qnfGetCh, Writes]

theorem qnfSetCh_writes (freq : UINT16) : Uses (WritesRegs [CH, CH_STEP]) (qnfSetCh freq) := by
  simp [qnfSetCh, Writes]

theorem qnfConfigScan_writes (start stop : UINT16) (step : UINT8) :
    Uses (WritesRegs [CH_START, CH_STOP, CH_STEP]) (qnfConfigScan start stop step) := by
  simp [qnfConfigScan, Writes]

/-- Only SLEEP stores a global. -/
theorem qndSetSysMode_writes (mode : UINT16) :
    Uses (Writes [SYSTEM1, SYSTEM2, 73, REG_PD2] {v | mode = 0 ∧ v = .qndPrevMode} ∅)
      (qndSetSysMode mode) := by
  simp +contextual [qndSetSysMode, setWorkingMode, qnfSetMute, qnfSetRegBit, Writes]

theorem qndGetRSSI_writes (ch : UINT16) :
    Uses (WritesRegs [SYSTEM1, SYSTEM2, 73, REG_PD2, CH, CH_STEP]) (qndGetRSSI ch) := by
  simp +contextual [qndGetRSSI, qndSetSysMode, setWorkingMode, qnfSetMute, qnfSetRegBit, qnfSetCh, Writes]

theorem qnChipInitialization_writes :
    Uses (WritesRegs [0x01, 0x50, 0x3C, 0x49, 0x4a, 0x5c, 0x52, 49, 0x38, 0x39, 0x00, 0x57, 31,
      HYSTERSIS, MPSTART, 58]) qnChipInitialization := by
  simp [qnChipInitialization, qnfSetRegBit, Writes]

theorem qndTXClearChannelScan_writes (start stop : UINT16) (step db : UINT8) :
    Uses (WritesRegs [CH_START, CH_STOP, CH_STEP, CCA, SYSTEM1])
      (qndTXClearChannelScan start stop step db) := by
  simp [qndTXClearChannelScan, qnfConfigScan, qnfSetRegBit, pollClearChannel, qnfGetCh, Writes]

def scanRegs : List UINT8 :=
  [SYSTEM1, SYSTEM2, 73, REG_PD2, CH, CH_START, CH_STOP, CH_STEP, CCA]

def tuneRegs : List UINT8 :=
  [77, 40, 64, 66, 65, SYSTEM1, CH, CH_STEP, REG_PD2, TXAGC_GAIN, GAIN_SEL]

def seekRegs : List UINT8 := scanRegs ++ tuneRegs

def floorBytes : Set Var8 := {v | v = .qndRSSIns ∨ ∃ i, v = .qndRSSIn i}

theorem scanBand_writes (i : Nat) : Uses (Writes scanRegs {.qndRSSIn i} ∅) (scanBand i) := by
  simp only [scanBand, uses_load16_bind, uses_load8_bind, uses_stepTbl_bind, Writes, true_and]
  intro low high index leap step
  refine uses_bind (growRegs (qndTXClearChannelScan_writes _ _ _ _) (by decide)) fun ch => ?_
  refine uses_bind (growRegs (qndGetRSSI_writes ch) (by decide)) fun rssi => ?_
  simp [Writes]

theorem rescanBand_writes (i : Nat) :
    Uses (Writes scanRegs {.qndRSSIn i, .qndRSSIns} {.qndClearChannel}) (rescanBand i) := by
  refine uses_bind (grow (scanBand_writes i) (List.Subset.refl _) (by simp) (by simp)) ?_
  intro scanned
  simp [Writes]

theorem rescanBands_writes (left i : Nat) :
    Uses (Writes scanRegs floorBytes {.qndClearChannel}) (rescanBands left i) := by
  induction left generalizing i with
  | zero => exact uses_pure _
  | succ left ih =>
    have band : ({.qndRSSIn i, .qndRSSIns} : Set Var8) ⊆ floorBytes := by
      intro v inBand
      rcases inBand with rfl | rfl
      · exact .inr ⟨i, rfl⟩
      · exact .inl rfl
    refine uses_bind (grow (rescanBand_writes i) (List.Subset.refl _) band subset_rfl) ?_
    intro scanned
    exact uses_bind (ih (i + 1)) (fun rest => uses_pure _)

theorem rescan_writes : Uses (Writes scanRegs floorBytes {.qndClearChannel}) rescan := by
  simp only [rescan, uses_readReg_bind, Writes, true_and]
  intro r0
  refine uses_bind (rescanBands_writes _ _) fun measured => ?_
  simp [Writes, scanRegs]

theorem qnfUpdateRSSIn_writes (chFreq : UINT16) :
    Uses (Writes scanRegs floorBytes {.qndClearChannel}) (qnfUpdateRSSIn chFreq) := by
  refine uses_ite.mpr ⟨fun _ => ?_, fun _ => ?_⟩
  · exact uses_bind rescan_writes (fun _ => uses_pure _)
  · simp only [uses_readReg_bind, Writes, true_and]
    intro r0
    refine uses_bind (growRegs (bandIndexFrom_writes chFreq _ _) (by simp)) fun i => ?_
    have band : ({.qndRSSIn i.toNat} : Set Var8) ⊆ floorBytes := by simp [floorBytes]
    refine uses_bind (grow (scanBand_writes _) (List.Subset.refl _) band (by simp)) fun _ => ?_
    simp [Writes, scanRegs]

theorem checkClearChannel_writes :
    Uses (Writes scanRegs {.qndClearScanFlag} ∅) checkClearChannel := by
  simp only [checkClearChannel, uses_load16_bind, Writes, true_and]
  intro clear
  refine uses_bind (growRegs (qndGetRSSI_writes clear) (by decide)) fun temp => ?_
  simp [Writes]

def updateBytes : Set Var8 := floorBytes ∪ {.qndClearScanFlag, .qndFirstScan}

theorem rescanIfWanted_writes (ch : UINT16) :
    Uses (Writes scanRegs updateBytes {.qndClearChannel}) (rescanIfWanted ch) := by
  simp only [rescanIfWanted, uses_load8_bind, Writes, true_and]
  intro flag
  refine uses_bind (by simp [Writes]) fun wanted => uses_when.mpr fun _ => ?_
  refine uses_bind (grow (qnfUpdateRSSIn_writes ch) (List.Subset.refl _) ?_ subset_rfl) ?_
  · exact Set.subset_union_left
  · simp [Writes, updateBytes]

theorem qndUpdateRSSIn_writes (ch : UINT16) :
    Uses (Writes scanRegs updateBytes {.qndClearChannel}) (qndUpdateRSSIn ch) := by
  simp only [qndUpdateRSSIn, uses_load8_bind, Writes, true_and]
  intro first
  refine uses_bind (uses_when.mpr fun _ => ?_) (fun _ => rescanIfWanted_writes ch)
  have flag : ({.qndClearScanFlag} : Set Var8) ⊆ updateBytes := by simp [updateBytes]
  exact grow checkClearChannel_writes (List.Subset.refl _) flag (by simp)

theorem qndTuneToCH_writes (ch : UINT16) : Uses (WritesRegs tuneRegs) (qndTuneToCH ch) := by
  simp only [qndTuneToCH]
  refine uses_bind (growRegs qnfRXInit_writes (by decide)) fun _ => ?_
  simp [qnfSetRegBit, qnfSetCh, qnfSetMute, Writes, tuneRegs]

theorem qndSetCountry_writes (country : UINT8) :
    Uses (Writes [] {.qndCountry, .qndCHSTEP} {.qndCHSTART, .qndCHSTOP}) (qndSetCountry country) := by
  simp [qndSetCountry, Writes]

theorem qndConfigFMModule_writes (optiontype option : UINT8) :
    Uses (WritesRegs [0x0e, 0x0f, 0x18]) (qndConfigFMModule optiontype option) := by
  simp [qndConfigFMModule, qnfSetRegBit, Writes]

theorem judgeChannel_writes (db minrssi rssi timeout : UINT8) :
    Uses (WritesRegs []) (judgeChannel db minrssi rssi timeout) := by
  simp [judgeChannel, Writes]

theorem checkChannel_writes (start : UINT16) (step db minrssi rssi : UINT8) :
    Uses (WritesRegs [CH_START, CH_STOP, CH_STEP, CCA, SYSTEM1])
      (checkChannel start step db minrssi rssi) := by
  simp [checkChannel, judgeChannel, qnfConfigScan, qnfSetRegBit, pollScan, Writes]

theorem seekTest_writes (start : UINT16) (step db : UINT8) :
    Uses (WritesRegs seekRegs) (seekTest start step db) := by
  refine uses_bind (growRegs (qnfGetRSSIn_writes start) (by simp)) fun minrssi => ?_
  have check : ∀ rssi, Uses (WritesRegs seekRegs) (checkChannel start step db minrssi rssi) :=
    fun rssi => growRegs (checkChannel_writes start step db minrssi rssi) (by decide)
  have inside : CH ∈ seekRegs ∧ CH_STEP ∈ seekRegs ∧ TXAGC_GAIN ∈ seekRegs ∧ SYSTEM1 ∈ seekRegs := by
    decide
  simp [qnfSetCh, qnfSetRegBit, Writes, check, inside]

theorem seekNext_writes (stop : UINT16) (up : Bool) (stepvalue : UINT8) (start : UINT16)
    (accepted : Bool) : Uses (WritesRegs []) (seekNext stop up stepvalue start accepted) := by
  simp [seekNext, Writes]

theorem seekRound_writes (stop : UINT16) (step db : UINT8) (up : Bool) (stepvalue : UINT8)
    (start : UINT16) : Uses (WritesRegs seekRegs) (seekRound stop step db up stepvalue start) :=
  uses_bind (seekTest_writes start step db)
    (fun accepted => growRegs (seekNext_writes stop up stepvalue start accepted) (by simp))

theorem qndRXSeekCH_writes (start stop : UINT16) (step db up : UINT8) :
    Uses (Writes seekRegs updateBytes {.qndClearChannel}) (qndRXSeekCH start stop step db up) := by
  have update (ch : UINT16) :
      Uses (Writes seekRegs updateBytes {.qndClearChannel}) (qndUpdateRSSIn ch) :=
    grow (qndUpdateRSSIn_writes ch) (by decide) subset_rfl subset_rfl
  have tune (ch : UINT16) :
      Uses (Writes seekRegs updateBytes {.qndClearChannel}) (qndTuneToCH ch) :=
    growRegs (qndTuneToCH_writes ch) (by decide)
  have round (up : Bool) (stepvalue : UINT8) (y : UINT16) :
      Uses (Writes seekRegs updateBytes {.qndClearChannel})
        (seekRound stop step db up stepvalue y) :=
    growRegs (seekRound_writes stop step db up stepvalue y) (List.Subset.refl _)
  have inside : REG_PD2 ∈ seekRegs ∧ GAIN_SEL ∈ seekRegs := by decide
  simp only [qndRXSeekCH, uses_load8_bind, Writes, true_and]
  intro all
  refine uses_bind (uses_when.mpr fun _ => ?_) fun _ => ?_
  · simp [qnfSetMute, qnfSetRegBit, Writes, inside, update]
  · simp [Writes, round, tune]

def scanAllBytes : Set Var8 := updateBytes ∪ {.qndAutoScanAll, .qndChCount}
def scanAllHalves : Set Var16 := {v | v = .qndClearChannel ∨ ∃ i, v = .qndChList i}

theorem seekAllPrepare_writes (step : UINT8) :
    Uses (Writes seekRegs scanAllBytes {.qndClearChannel}) (seekAllPrepare step) := by
  refine uses_bind (growRegs (qnfSetMute_writes true) (by decide)) fun _ => ?_
  refine uses_bind (by simp [Writes, scanAllBytes]) fun _ => ?_
  refine uses_bind (by simp [Writes]) fun stepvalue => ?_
  refine uses_bind (growRegs (qnfSetRegBit_writes _ _ _) (by decide)) fun _ => ?_
  refine uses_bind (grow (qndUpdateRSSIn_writes 0) (by decide) ?_ subset_rfl) fun _ => ?_
  · exact Set.subset_union_left
  · simp [Writes, scanAllBytes]

theorem seekAllRound_writes (pStop : UINT16) (step db up stepvalue : UINT8) (pStart : UINT16) :
    Uses (Writes seekRegs scanAllBytes scanAllHalves)
      (seekAllRound pStop step db up stepvalue pStart) := by
  have seek := grow (qndRXSeekCH_writes pStart pStop step db up) (List.Subset.refl _)
    (Set.subset_union_left : updateBytes ⊆ scanAllBytes)
    (fun v same => .inl same : {.qndClearChannel} ⊆ scanAllHalves)
  refine uses_bind seek fun temp => ?_
  simp [appendChannel, Writes, scanAllBytes, scanAllHalves]

theorem qndRXSeekCHAll_writes (start stop : UINT16) (step db up : UINT8) :
    Uses (Writes seekRegs scanAllBytes scanAllHalves) (qndRXSeekCHAll start stop step db up) := by
  have clear : ({.qndClearChannel} : Set Var16) ⊆ scanAllHalves := fun v same => .inl same
  apply uses_bind (by simp [stopInRange, Writes])
  intro pStop
  apply uses_bind (grow (seekAllPrepare_writes step) (List.Subset.refl _) subset_rfl clear)
  intro stepvalue
  apply uses_bind (uses_doWhile.mpr (seekAllRound_writes pStop step db _ stepvalue))
  intro _
  apply uses_bind (by simp [firstChannel, Writes])
  intro ch
  apply uses_bind (growRegs (qndTuneToCH_writes ch) (by decide))
  intro _
  apply uses_bind (by simp [Writes, scanAllBytes])
  intro _
  apply uses_bind (growRegs (qnfSetMute_writes false) (by decide))
  intro _
  simp [Writes]

theorem qndRXConfigAudio_writes (optiontype option : UINT8) :
    Uses (WritesRegs [TX_FDEV, SYSTEM2, REG_PD2]) (qndRXConfigAudio optiontype option) := by
  simp [qndRXConfigAudio, qnfSetAudioMono, qnfSetMute, qnfSetRegBit, Writes]

theorem qndTXConfigAudio_writes (optiontype option : UINT8) :
    Uses (WritesRegs [TX_FDEV, SYSTEM2, 0x28, TXAGC_GAIN]) (qndTXConfigAudio optiontype option) := by
  simp [qndTXConfigAudio, qnfSetAudioMono, qnfSetRegBit, Writes]

theorem qndLoadDefalutSetting_writes (country : UINT8) :
    Uses (WritesRegs [0x0e, 0x0f, 0x18, 0x01, 0x04, TX_FDEV, SYSTEM2, 0x28, TXAGC_GAIN])
      (qndLoadDefalutSetting country) := by
  apply uses_when.mpr
  intro _
  apply uses_bind (growRegs (qndConfigFMModule_writes _ _) (by decide))
  intro _
  apply uses_bind (growRegs (qndConfigFMModule_writes _ _) (by decide))
  intro _
  apply uses_bind (growRegs (qndConfigFMModule_writes _ _) (by decide))
  intro _
  apply uses_bind (growRegs (qnfSetRegBit_writes _ _ _) (by decide))
  intro _
  apply uses_bind (growRegs (qnfSetRegBit_writes _ _ _) (by decide))
  intro _
  exact growRegs (qndTXConfigAudio_writes _ _) (by decide)

theorem qndRDSEnable_writes (on : UINT8) :
    Uses (WritesRegs [GAIN_SEL, SYSTEM1]) (qndRDSEnable on) := by
  simp [qndRDSEnable, qnfSetRegBit, Writes]

theorem qndRDSCheckBufferReady_writes : Uses (WritesRegs [SYSTEM2]) qndRDSCheckBufferReady := by
  simp [qndRDSCheckBufferReady, pollRDSUpdate, Writes]

theorem qndRDSLoadData_writes (rdsRawData : INT) (upload : UINT8) :
    Uses (WritesRegs [0x10, 0x11, 0x12, 0x13, 0x14, 0x15, 0x16, 0x17])
      (qndRDSLoadData rdsRawData upload) := by
  have data : ∀ i : Nat, i < 8 → RDSD0 + BitVec.ofNat 8 i ∈
      ([0x10, 0x11, 0x12, 0x13, 0x14, 0x15, 0x16, 0x17] : List UINT8) := by decide
  refine uses_ite.mpr ⟨fun _ => uses_forRange ?_, fun _ => uses_forRange ?_⟩
  · intro i _ inside
    simpa [Writes] using data i (by omega)
  · intro i _ _
    simp [Writes]

def initRegs : List UINT8 :=
  [0x01, 0x50, 0x3C, 0x49, 0x4a, 0x5c, 0x52, 49, 0x38, 0x39, 0x00, 0x57, 31, HYSTERSIS, MPSTART, 58]

theorem qndInit_writes : Uses (Writes initRegs ∅ {v | ∃ i, v = .qndRSSInBB i}) qndInit := by
  apply uses_bind (growRegs qnChipInitialization_writes (by decide))
  intro _
  apply uses_bind (growRegs (qnfSetMute_writes true) (by decide))
  intro _
  apply uses_bind (grow qnfInitRSSInBB_writes (by decide) subset_rfl subset_rfl)
  intro _
  apply uses_bind (by simp [Writes, initRegs])
  intro _
  apply uses_bind (growRegs (qnfSetMute_writes false) (by decide))
  intro _
  exact uses_pure _

/-! The commands. -/

def Ioctl.regs : Ioctl → List UINT8
  | .setFq _ => tuneRegs
  | .setPower _ => [PAG_CAL]
  | .audioConfig _ => [TX_FDEV, SYSTEM2, REG_PD2, 0x28, TXAGC_GAIN]
  | .setsysMode _ => [SYSTEM1, SYSTEM2, 73, REG_PD2]
  | .init => initRegs
  | .getRssi _ => [SYSTEM1, SYSTEM2, 73, REG_PD2, CH, CH_STEP]
  | .rxseekchall _ => seekRegs
  | .rxseekch _ => seekRegs
  | .rdsenable _ => [GAIN_SEL, SYSTEM1]
  | .getIsbufready => [SYSTEM2]
  | .rdsloaddata _ => [0x10, 0x11, 0x12, 0x13, 0x14, 0x15, 0x16, 0x17]
  | .cfgfmmod _ => [0x0e, 0x0f, 0x18]
  | .loaddftsetting _ => [0x0e, 0x0f, 0x18, 0x01, 0x04, TX_FDEV, SYSTEM2, 0x28, TXAGC_GAIN]
  | .txclearchscan _ => [CH_START, CH_STOP, CH_STEP, CCA, SYSTEM1]
  | .getFq | .transmit | .getPower | .audioMode _ | .setCspin _ | .getRdssignal | .setCountry _
  | .powerEnable _ => []

def Ioctl.bytes : Ioctl → Set Var8
  | .setsysMode sysMode => {v | ushort sysMode = 0 ∧ v = .qndPrevMode}
  | .rxseekchall _ => scanAllBytes
  | .rxseekch _ => updateBytes
  | .setCountry _ => {.qndCountry, .qndCHSTEP}
  | .setFq _ | .getFq | .transmit | .setPower _ | .getPower | .audioMode _ | .audioConfig _
  | .init | .setCspin _ | .getRssi _ | .rdsenable _ | .getRdssignal | .getIsbufready
  | .rdsloaddata _ | .cfgfmmod _ | .loaddftsetting _ | .txclearchscan _ | .powerEnable _ => ∅

def Ioctl.halves : Ioctl → Set Var16
  | .init => {v | ∃ i, v = .qndRSSInBB i}
  | .rxseekchall _ => scanAllHalves
  | .rxseekch _ => {.qndClearChannel}
  | .setCountry _ => {.qndCHSTART, .qndCHSTOP}
  | .setFq _ | .getFq | .transmit | .setPower _ | .getPower | .audioMode _ | .audioConfig _
  | .setsysMode _ | .setCspin _ | .getRssi _ | .rdsenable _ | .getRdssignal | .getIsbufready
  | .rdsloaddata _ | .cfgfmmod _ | .loaddftsetting _ | .txclearchscan _ | .powerEnable _ => ∅

theorem fromUser_writes {regs : List UINT8} {bytes : Set Var8} {halves : Set Var16}
    {command : Drv Reply} (uses : Uses (Writes regs bytes halves) command) :
    Uses (Writes regs bytes halves) (fromUser command) := by
  simp [fromUser, Writes, uses]

theorem toUser_writes {regs : List UINT8} {bytes : Set Var8} {halves : Set Var16}
    (reply : Reply) : Uses (Writes regs bytes halves) (toUser reply) := by
  simp [toUser, Writes]

theorem toUser_quiet (reply : Reply) : Uses (WritesRegs []) (toUser reply) := toUser_writes reply

/-- The footprint of a command: every frame fact about a session follows from it. -/
theorem qn8006UnlockedIoctl_writes (stackPower : INT) (cmd : Ioctl) :
    Uses (Writes cmd.regs cmd.bytes cmd.halves) (qn8006UnlockedIoctl stackPower cmd) := by
  cases cmd with
  | setFq => exact fromUser_writes (uses_bind (qndTuneToCH_writes _) fun _ => uses_pure _)
  | getFq => exact uses_bind qnfGetCh_writes (fun _ => toUser_writes _)
  | transmit => exact uses_pure _
  | setPower => exact fromUser_writes (by simp [qndTXSetPower, Writes, Ioctl.regs])
  | getPower => exact toUser_writes _
  | audioMode => exact fromUser_writes (by simp [setPin, Writes])
  | audioConfig cfgAud =>
    refine fromUser_writes (uses_bind (uses_ite.mpr ⟨fun _ => ?_, fun _ => ?_⟩) fun _ => uses_pure _)
    · exact growRegs (qndRXConfigAudio_writes _ _) (by simp [Ioctl.regs])
    · exact growRegs (qndTXConfigAudio_writes _ _) (by simp [Ioctl.regs])
  | setsysMode => exact fromUser_writes (uses_bind (qndSetSysMode_writes _) fun _ => uses_pure _)
  | init => exact uses_bind qndInit_writes (fun _ => uses_pure _)
  | setCspin => exact fromUser_writes (by simp [setPin, Writes])
  | getRssi => exact fromUser_writes (uses_bind (qndGetRSSI_writes _) fun _ => toUser_writes _)
  | rxseekchall =>
    exact fromUser_writes (uses_bind (qndRXSeekCHAll_writes _ _ _ _ _) fun _ => toUser_writes _)
  | rxseekch =>
    exact fromUser_writes (uses_bind (qndRXSeekCH_writes _ _ _ _ _) fun _ => toUser_writes _)
  | rdsenable => exact fromUser_writes (uses_bind (qndRDSEnable_writes _) fun _ => uses_pure _)
  | getRdssignal => exact uses_bind (by simp [qndRDSDetectSignal, Writes]) (fun _ => toUser_writes _)
  | getIsbufready => exact uses_bind qndRDSCheckBufferReady_writes (fun _ => toUser_writes _)
  | rdsloaddata => exact fromUser_writes (uses_bind (qndRDSLoadData_writes _ _) fun _ => uses_pure _)
  | setCountry => exact fromUser_writes (uses_bind (qndSetCountry_writes _) fun _ => uses_pure _)
  | cfgfmmod => exact fromUser_writes (uses_bind (qndConfigFMModule_writes _ _) fun _ => uses_pure _)
  | loaddftsetting =>
    exact fromUser_writes (uses_bind (qndLoadDefalutSetting_writes _) fun _ => uses_pure _)
  | txclearchscan =>
    exact fromUser_writes (uses_bind (qndTXClearChannelScan_writes _ _ _ _) fun _ => toUser_writes _)
  | powerEnable => exact fromUser_writes (by simp [Writes])

section
variable {κ : Type} {b : Board κ} {w w' : Machine κ} {cmd : Ioctl}

theorem IoctlStep.byte_kept (step : IoctlStep b w cmd w') {v : Var8} (outside : v ∉ cmd.bytes) :
    w'.globals.byte v = w.globals.byte v := by
  obtain ⟨stackPower, reply, run⟩ := step
  exact Fm.byte_kept (qn8006UnlockedIoctl_writes stackPower cmd) run outside

theorem IoctlStep.half_kept (step : IoctlStep b w cmd w') {v : Var16} (outside : v ∉ cmd.halves) :
    w'.globals.half v = w.globals.half v := by
  obtain ⟨stackPower, reply, run⟩ := step
  exact Fm.half_kept (qn8006UnlockedIoctl_writes stackPower cmd) run outside

/-- A scan of all channels ends with the flag clear that it has set. -/
theorem qndRXSeekCHAll_ends (start stop : UINT16) (step db up : UINT8) :
    Ensures b.env (qndRXSeekCHAll start stop step db up)
      (fun _ w' => w'.globals.byte .qndAutoScanAll = 0) w := by
  simp only [qndRXSeekCHAll, ensures_bind]
  intro pStop w₁ _ stepvalue w₂ _ _ w₃ _ ch w₄ _ _ w₅ _
  rw [ensures_store8]
  intro _ w₆ mute
  rw [ensures_load8, Fm.globals_kept (qnfSetMute_writes false) mute, set8_byte, if_pos rfl]

theorem IoctlStep.idle (step : IoctlStep b w cmd w') (idle : w.globals.byte .qndAutoScanAll = 0) :
    w'.globals.byte .qndAutoScanAll = 0 := by
  by_cases outside : Var8.qndAutoScanAll ∈ cmd.bytes
  · obtain ⟨stackPower, reply, run⟩ := step
    cases cmd with
    | rxseekchall rscall =>
      have whole : Ensures b.env (qn8006UnlockedIoctl stackPower (.rxseekchall rscall))
          (fun _ w' => w'.globals.byte .qndAutoScanAll = 0) w := by
        simp only [qn8006UnlockedIoctl, ensures_fromUser]
        split
        next =>
          rw [ensures_bind]
          refine (qndRXSeekCHAll_ends _ _ _ _ _).mono ?_
          intro ret w₁ ended _ w₂ reply
          rw [Fm.globals_kept (toUser_quiet _) reply, ended]
        next => exact idle
      exact whole reply w' run
    | rxseekch => simp [Ioctl.bytes, updateBytes, floorBytes] at outside
    | _ => simp [Ioctl.bytes] at outside
  · rw [step.byte_kept outside, idle]

end

end Yika.Fm
