import Yika.Fm.Concurrency
import Yika.Fm.Footprint

/-! What each driver function may read: which registers, and which globals. With what it may write
these are the cells that a request shares with another one. -/

namespace Yika.Fm
open Program

/-- The operation reads no register outside `regs` and no global outside `bytes`, `halves`, and
goes to the memory of the caller only if `user`. -/
def Reads (user : Prop) (regs : List UINT8) (bytes : Set Var8) (halves : Set Var16) : FmOp → Prop
  | .ext (.readReg adr) => adr ∈ regs
  | .ext (.peek _) => user
  | .ext (.poke _ _) => user
  | .load8 v => v ∈ bytes
  | .load16 v => v ∈ halves
  | _ => True

abbrev ReadsRegs (regs : List UINT8) : FmOp → Prop := Reads False regs ∅ ∅

/-- Reads these registers, and any global. -/
abbrev ReadsGlobals (regs : List UINT8) : FmOp → Prop := Reads False regs Set.univ Set.univ

theorem Reads.mono {user : Prop} {regs regs' : List UINT8} {bytes bytes' : Set Var8} {halves halves' : Set Var16}
    (hr : regs ⊆ regs') (hb : bytes ⊆ bytes') (hh : halves ⊆ halves') (o : FmOp)
    (reads : Reads user regs bytes halves o) : Reads user regs' bytes' halves' o := by
  cases o with
  | ext e =>
    cases e with
    | readReg adr => exact hr reads
    | peek address => exact reads
    | poke address value => exact reads
    | _ => trivial
  | load8 v => exact hb reads
  | load16 v => exact hh reads
  | _ => trivial

section
variable {α : Type} {p : Drv α} {regs regs' : List UINT8} {bytes : Set Var8} {halves : Set Var16}

theorem widen (uses : Uses (ReadsRegs regs) p) (hr : regs ⊆ regs') : Uses (Reads False regs' bytes halves) p :=
  uses.mono (Reads.mono hr (Set.empty_subset _) (Set.empty_subset _))

theorem widenGlobals (uses : Uses (ReadsGlobals regs) p) (hr : regs ⊆ regs') : Uses (ReadsGlobals regs') p :=
  uses.mono (Reads.mono hr subset_rfl subset_rfl)

end

/-! The functions of `qndriver.c`. -/

theorem qnfSetRegBit_reads (reg bitMask dataVal : UINT8) :
    Uses (ReadsRegs [reg]) (qnfSetRegBit reg bitMask dataVal) := by
  simp [qnfSetRegBit, Reads]

theorem qnfRXInit_reads : Uses (ReadsRegs [77, 40, 64, 66, 65]) qnfRXInit := by
  simp [qnfRXInit, qnfSetRegBit, Reads]

theorem qnfSetMute_reads (on : Bool) : Uses (ReadsRegs [REG_PD2]) (qnfSetMute on) := by
  simp [qnfSetMute, qnfSetRegBit, Reads]

theorem qnfInitRSSInBB_reads : Uses (ReadsGlobals []) qnfInitRSSInBB := by
  simp [qnfInitRSSInBB, initRSSInBBEdge, Reads]

theorem bandIndexFrom_reads (chfreq : UINT16) (left i : Nat) :
    Uses (ReadsGlobals []) (bandIndexFrom chfreq left i) := by
  induction left generalizing i with
  | zero => exact uses_pure _
  | succ left ih => simp [bandIndexFrom, Reads, ih]

theorem qnfGetRSSIn_reads (chFreq : UINT16) : Uses (ReadsGlobals []) (qnfGetRSSIn chFreq) :=
  uses_bind (bandIndexFrom_reads chFreq _ _) (by simp [Reads])

theorem qnfGetCh_reads_regs : Uses (ReadsRegs [CH_STEP, CH]) qnfGetCh := by
  simp [qnfGetCh, Reads]

def sysModeRegs (mode : UINT16) : List UINT8 :=
  if mode = 0 ∨ mode = 1 then [SYSTEM1] else if mode = 2 then [SYSTEM2] else [73, SYSTEM1, REG_PD2]

/-- Only WAKEUP loads a global. -/
theorem qndSetSysMode_reads (mode : UINT16) :
    Uses (Reads False (sysModeRegs mode) {v | mode = 1 ∧ v = .qndPrevMode} ∅) (qndSetSysMode mode) := by
  simp +contextual [qndSetSysMode, setWorkingMode, qnfSetMute, qnfSetRegBit, Reads, sysModeRegs]

theorem qndSetSysMode_touches (mode : UINT16) :
    Uses (Writes (sysModeRegs mode) {v | mode = 0 ∧ v = .qndPrevMode} ∅) (qndSetSysMode mode) := by
  simp +contextual [qndSetSysMode, setWorkingMode, qnfSetMute, qnfSetRegBit, Writes, sysModeRegs]

theorem qndGetRSSI_reads (ch : UINT16) :
    Uses (ReadsRegs [SYSTEM1, REG_PD2, CH_STEP, RSSISIG]) (qndGetRSSI ch) := by
  simp +contextual [qndGetRSSI, qndSetSysMode, setWorkingMode, qnfSetMute, qnfSetRegBit, qnfSetCh, Reads]

theorem qnChipInitialization_reads : Uses (ReadsRegs [0x49, 49, 31, 58]) qnChipInitialization := by
  simp [qnChipInitialization, qnfSetRegBit, Reads]

theorem qndTXClearChannelScan_reads (start stop : UINT16) (step db : UINT8) :
    Uses (ReadsRegs [CCA, SYSTEM1, CH_STEP, CH]) (qndTXClearChannelScan start stop step db) := by
  simp [qndTXClearChannelScan, qnfConfigScan, qnfSetRegBit, pollClearChannel, qnfGetCh, Reads]

def scanReads : List UINT8 := [SYSTEM1, REG_PD2, CH, CH_STEP, CCA, RSSISIG]

def tuneReads : List UINT8 :=
  [77, 40, 64, 66, 65, SYSTEM1, SYSTEM2, CH_STEP, REG_PD2, TXAGC_GAIN, GAIN_SEL]

def seekReads : List UINT8 := scanReads ++ tuneReads ++ [CCA5, CCA4, STATUS1, SNR]

theorem scanBand_reads (i : Nat) : Uses (ReadsGlobals scanReads) (scanBand i) := by
  simp only [scanBand, uses_load16_bind, uses_load8_bind, uses_stepTbl_bind, Reads, Set.mem_univ, true_and]
  intro low high index leap step
  refine uses_bind (widen (qndTXClearChannelScan_reads _ _ _ _) (by decide)) fun ch => ?_
  refine uses_bind (widen (qndGetRSSI_reads ch) (by decide)) fun rssi => ?_
  simp [Reads]

theorem rescanBand_reads (i : Nat) : Uses (ReadsGlobals scanReads) (rescanBand i) := by
  refine uses_bind (scanBand_reads i) fun scanned => ?_
  simp [Reads]

theorem rescanBands_reads (left i : Nat) : Uses (ReadsGlobals scanReads) (rescanBands left i) := by
  induction left generalizing i with
  | zero => exact uses_pure _
  | succ left ih => exact uses_bind (rescanBand_reads i) fun _ => uses_bind (ih (i + 1)) fun _ => uses_pure _

theorem rescan_reads : Uses (ReadsGlobals scanReads) rescan := by
  have inside : SYSTEM1 ∈ scanReads := by decide
  simp only [rescan, uses_readReg_bind, Reads, inside, true_and]
  intro r0
  refine uses_bind (rescanBands_reads _ _) fun measured => ?_
  simp [Reads]

theorem qnfUpdateRSSIn_reads (chFreq : UINT16) : Uses (ReadsGlobals scanReads) (qnfUpdateRSSIn chFreq) := by
  have inside : SYSTEM1 ∈ scanReads := by decide
  refine uses_ite.mpr ⟨fun _ => ?_, fun _ => ?_⟩
  · exact uses_bind rescan_reads fun _ => uses_pure _
  · simp only [uses_readReg_bind, Reads, inside, true_and]
    intro r0
    refine uses_bind (widenGlobals (bandIndexFrom_reads chFreq _ _) (by simp)) fun i => ?_
    refine uses_bind (scanBand_reads _) fun _ => ?_
    simp [Reads]

theorem checkClearChannel_reads : Uses (ReadsGlobals scanReads) checkClearChannel := by
  simp only [checkClearChannel, uses_load16_bind, Reads, Set.mem_univ, true_and]
  intro clear
  refine uses_bind (widen (qndGetRSSI_reads clear) (by decide)) fun temp => ?_
  simp [Reads]

theorem rescanIfWanted_reads (ch : UINT16) : Uses (ReadsGlobals scanReads) (rescanIfWanted ch) := by
  simp only [rescanIfWanted, uses_load8_bind, Reads, Set.mem_univ, true_and]
  intro flag
  refine uses_bind (by simp [Reads]) fun wanted => uses_when.mpr fun _ => ?_
  refine uses_bind (qnfUpdateRSSIn_reads ch) fun _ => ?_
  simp [Reads]

theorem qndUpdateRSSIn_reads (ch : UINT16) : Uses (ReadsGlobals scanReads) (qndUpdateRSSIn ch) := by
  simp only [qndUpdateRSSIn, uses_load8_bind, Reads, Set.mem_univ, true_and]
  intro first
  exact uses_bind (uses_when.mpr fun _ => checkClearChannel_reads) fun _ => rescanIfWanted_reads ch

theorem qndTuneToCH_reads (ch : UINT16) : Uses (ReadsRegs tuneReads) (qndTuneToCH ch) := by
  simp only [qndTuneToCH]
  refine uses_bind (widen qnfRXInit_reads (by decide)) fun _ => ?_
  simp [qnfSetRegBit, qnfSetCh, qnfSetMute, Reads, tuneReads]

theorem qndSetCountry_reads (country : UINT8) : Uses (ReadsRegs []) (qndSetCountry country) := by
  simp [qndSetCountry, Reads]

theorem checkChannel_reads (start : UINT16) (step db minrssi rssi : UINT8) :
    Uses (ReadsRegs [SYSTEM1, CCA5, CCA4, STATUS1, SNR]) (checkChannel start step db minrssi rssi) := by
  simp [checkChannel, judgeChannel, qnfConfigScan, qnfSetRegBit, pollScan, Reads]

theorem seekTest_reads (start : UINT16) (step db : UINT8) :
    Uses (ReadsGlobals seekReads) (seekTest start step db) := by
  refine uses_bind (widenGlobals (qnfGetRSSIn_reads start) (by simp)) fun minrssi => ?_
  have check : ∀ rssi, Uses (ReadsGlobals seekReads) (checkChannel start step db minrssi rssi) :=
    fun rssi => widen (checkChannel_reads start step db minrssi rssi) (by decide)
  have inside : CH_STEP ∈ seekReads ∧ TXAGC_GAIN ∈ seekReads ∧ SYSTEM1 ∈ seekReads ∧ RSSISIG ∈ seekReads := by
    decide
  simp [qnfSetCh, qnfSetRegBit, Reads, check, inside]

theorem seekNext_reads (stop : UINT16) (up : Bool) (stepvalue : UINT8) (start : UINT16) (accepted : Bool) :
    Uses (ReadsGlobals []) (seekNext stop up stepvalue start accepted) := by
  simp [seekNext, Reads]

theorem seekRound_reads (stop : UINT16) (step db : UINT8) (up : Bool) (stepvalue : UINT8) (start : UINT16) :
    Uses (ReadsGlobals seekReads) (seekRound stop step db up stepvalue start) :=
  uses_bind (seekTest_reads start step db) fun accepted =>
    widenGlobals (seekNext_reads stop up stepvalue start accepted) (by simp)

theorem qndRXSeekCH_reads (start stop : UINT16) (step db up : UINT8) :
    Uses (ReadsGlobals seekReads) (qndRXSeekCH start stop step db up) := by
  have update (ch : UINT16) : Uses (ReadsGlobals seekReads) (qndUpdateRSSIn ch) :=
    widenGlobals (qndUpdateRSSIn_reads ch) (by decide)
  have tune (ch : UINT16) : Uses (ReadsGlobals seekReads) (qndTuneToCH ch) :=
    widen (qndTuneToCH_reads ch) (by decide)
  have inside : REG_PD2 ∈ seekReads ∧ GAIN_SEL ∈ seekReads := by decide
  simp only [qndRXSeekCH, uses_load8_bind, Reads, Set.mem_univ, true_and]
  intro all
  refine uses_bind (uses_when.mpr fun _ => ?_) fun _ => ?_
  · simp [qnfSetMute, qnfSetRegBit, Reads, inside, update]
  · simp [Reads, seekRound_reads, tune]

theorem seekAllPrepare_reads (step : UINT8) : Uses (ReadsGlobals seekReads) (seekAllPrepare step) := by
  refine uses_bind (widen (qnfSetMute_reads true) (by decide)) fun _ => ?_
  refine uses_bind (by simp [Reads]) fun _ => ?_
  refine uses_bind (by simp [Reads]) fun stepvalue => ?_
  refine uses_bind (widen (qnfSetRegBit_reads _ _ _) (by decide)) fun _ => ?_
  refine uses_bind (widenGlobals (qndUpdateRSSIn_reads 0) (by decide)) fun _ => ?_
  simp [Reads]

theorem qndRXSeekCHAll_reads (start stop : UINT16) (step db up : UINT8) :
    Uses (ReadsGlobals seekReads) (qndRXSeekCHAll start stop step db up) := by
  apply uses_bind (by simp [stopInRange, Reads])
  intro pStop
  apply uses_bind (seekAllPrepare_reads step)
  intro stepvalue
  apply uses_bind
  · refine uses_doWhile.mpr fun pStart => uses_bind (qndRXSeekCH_reads pStart pStop step db _) fun temp => ?_
    simp [appendChannel, Reads]
  intro _
  apply uses_bind (by simp [firstChannel, Reads])
  intro ch
  apply uses_bind (widen (qndTuneToCH_reads ch) (by decide))
  intro _
  apply uses_bind (by simp [Reads])
  intro _
  apply uses_bind (widen (qnfSetMute_reads false) (by decide))
  intro _
  simp [Reads]

theorem qndConfigFMModule_reads (optiontype option : UINT8) :
    Uses (ReadsRegs [0x0f, 0x18]) (qndConfigFMModule optiontype option) := by
  simp [qndConfigFMModule, qnfSetRegBit, Reads]

theorem qndRXConfigAudio_reads (optiontype option : UINT8) :
    Uses (ReadsRegs [SYSTEM2, REG_PD2]) (qndRXConfigAudio optiontype option) := by
  simp [qndRXConfigAudio, qnfSetAudioMono, qnfSetMute, qnfSetRegBit, Reads]

theorem qndTXConfigAudio_reads (optiontype option : UINT8) :
    Uses (ReadsRegs [SYSTEM2, 0x28, TXAGC_GAIN]) (qndTXConfigAudio optiontype option) := by
  simp [qndTXConfigAudio, qnfSetAudioMono, qnfSetRegBit, Reads]

theorem qndLoadDefalutSetting_reads (country : UINT8) :
    Uses (ReadsRegs [0x0f, 0x18, 0x01, 0x04, 0x28, TXAGC_GAIN]) (qndLoadDefalutSetting country) := by
  apply uses_when.mpr
  intro _
  apply uses_bind (widen (qndConfigFMModule_reads _ _) (by decide))
  intro _
  apply uses_bind (widen (qndConfigFMModule_reads _ _) (by decide))
  intro _
  apply uses_bind (widen (qndConfigFMModule_reads _ _) (by decide))
  intro _
  apply uses_bind (widen (qnfSetRegBit_reads _ _ _) (by decide))
  intro _
  apply uses_bind (widen (qnfSetRegBit_reads _ _ _) (by decide))
  intro _
  exact widen (qndTXConfigAudio_reads _ _) (by decide)

theorem qndRDSEnable_reads (on : UINT8) : Uses (ReadsRegs [GAIN_SEL, SYSTEM1]) (qndRDSEnable on) := by
  simp [qndRDSEnable, qnfSetRegBit, Reads]

theorem qndRDSCheckBufferReady_reads :
    Uses (ReadsRegs [STATUS3, SYSTEM1, SYSTEM2]) qndRDSCheckBufferReady := by
  simp [qndRDSCheckBufferReady, pollRDSUpdate, Reads]

/-- The one function that goes to the memory of the caller. -/
theorem qndRDSLoadData_reads (rdsRawData : INT) (upload : UINT8) :
    Uses (Reads True [0x10, 0x11, 0x12, 0x13, 0x14, 0x15, 0x16, 0x17] ∅ ∅)
      (qndRDSLoadData rdsRawData upload) := by
  have data : ∀ i : Nat, i < 8 → RDSD0 + BitVec.ofNat 8 i ∈
      ([0x10, 0x11, 0x12, 0x13, 0x14, 0x15, 0x16, 0x17] : List UINT8) := by decide
  refine uses_ite.mpr ⟨fun _ => uses_forRange ?_, fun _ => uses_forRange ?_⟩
  · intro i _ _
    simp [Reads]
  · intro i _ inside
    simpa [Reads] using data i (by omega)

theorem qndInit_reads : Uses (ReadsGlobals initRegs) qndInit := by
  apply uses_bind (widen qnChipInitialization_reads (by decide))
  intro _
  apply uses_bind (widen (qnfSetMute_reads true) (by decide))
  intro _
  apply uses_bind (widenGlobals qnfInitRSSInBB_reads (by decide))
  intro _
  apply uses_bind (by simp [Reads])
  intro _
  apply uses_bind (widen (qnfSetMute_reads false) (by decide))
  intro _
  exact uses_pure _

/-! The commands. -/

def Ioctl.readRegs : Ioctl → List UINT8
  | .setFq _ => tuneReads
  | .getFq => [CH_STEP, CH]
  | .audioConfig _ => [SYSTEM2, REG_PD2, 0x28, TXAGC_GAIN]
  | .setsysMode sysMode => sysModeRegs (ushort sysMode)
  | .init => initRegs
  | .getRssi _ => [SYSTEM1, REG_PD2, CH_STEP, RSSISIG]
  | .rxseekchall _ | .rxseekch _ => seekReads
  | .rdsenable _ => [GAIN_SEL, SYSTEM1]
  | .getRdssignal => [STATUS3]
  | .getIsbufready => [STATUS3, SYSTEM1, SYSTEM2]
  | .rdsloaddata _ => [0x10, 0x11, 0x12, 0x13, 0x14, 0x15, 0x16, 0x17]
  | .cfgfmmod _ => [0x0f, 0x18]
  | .loaddftsetting _ => [0x0f, 0x18, 0x01, 0x04, 0x28, TXAGC_GAIN]
  | .txclearchscan _ => [CCA, SYSTEM1, CH_STEP, CH]
  | .transmit | .setPower _ | .getPower | .audioMode _ | .setCspin _ | .setCountry _ | .powerEnable _ => []

def Ioctl.readBytes : Ioctl → Set Var8
  | .init | .rxseekchall _ | .rxseekch _ => Set.univ
  | .setsysMode sysMode => {v | ushort sysMode = 1 ∧ v = .qndPrevMode}
  | _ => ∅

def Ioctl.readHalves : Ioctl → Set Var16
  | .init | .rxseekchall _ | .rxseekch _ => Set.univ
  | _ => ∅

def Ioctl.Derefs : Ioctl → Prop
  | .rdsloaddata _ => True
  | _ => False

theorem fromUser_reads {user : Prop} {regs : List UINT8} {bytes : Set Var8} {halves : Set Var16}
    {command : Drv Reply} (uses : Uses (Reads user regs bytes halves) command) :
    Uses (Reads user regs bytes halves) (fromUser command) := by
  simp [fromUser, Reads, uses]

theorem toUser_reads {user : Prop} {regs : List UINT8} {bytes : Set Var8} {halves : Set Var16} (reply : Reply) :
    Uses (Reads user regs bytes halves) (toUser reply) := by
  simp [toUser, Reads]

theorem qn8006UnlockedIoctl_reads (stackPower : INT) (cmd : Ioctl) :
    Uses (Reads cmd.Derefs cmd.readRegs cmd.readBytes cmd.readHalves) (qn8006UnlockedIoctl stackPower cmd) := by
  cases cmd with
  | setFq => exact fromUser_reads (uses_bind (qndTuneToCH_reads _) fun _ => uses_pure _)
  | getFq => exact uses_bind qnfGetCh_reads_regs fun _ => toUser_reads _
  | transmit => exact uses_pure _
  | setPower => exact fromUser_reads (by simp [qndTXSetPower, Reads])
  | getPower => exact toUser_reads _
  | audioMode => exact fromUser_reads (by simp [setPin, Reads])
  | audioConfig cfgAud =>
    refine fromUser_reads (uses_bind (uses_ite.mpr ⟨fun _ => ?_, fun _ => ?_⟩) fun _ => uses_pure _)
    · exact widen (qndRXConfigAudio_reads _ _) (by simp [Ioctl.readRegs])
    · exact widen (qndTXConfigAudio_reads _ _) (by simp [Ioctl.readRegs])
  | setsysMode => exact fromUser_reads (uses_bind (qndSetSysMode_reads _) fun _ => uses_pure _)
  | init => exact uses_bind qndInit_reads fun _ => uses_pure _
  | setCspin => exact fromUser_reads (by simp [setPin, Reads])
  | getRssi => exact fromUser_reads (uses_bind (qndGetRSSI_reads _) fun _ => toUser_reads _)
  | rxseekchall => exact fromUser_reads (uses_bind (qndRXSeekCHAll_reads _ _ _ _ _) fun _ => toUser_reads _)
  | rxseekch => exact fromUser_reads (uses_bind (qndRXSeekCH_reads _ _ _ _ _) fun _ => toUser_reads _)
  | rdsenable => exact fromUser_reads (uses_bind (qndRDSEnable_reads _) fun _ => uses_pure _)
  | getRdssignal =>
    exact uses_bind (by simp [qndRDSDetectSignal, Reads, Ioctl.readRegs]) fun _ => toUser_reads _
  | getIsbufready => exact uses_bind qndRDSCheckBufferReady_reads fun _ => toUser_reads _
  | rdsloaddata => exact fromUser_reads (uses_bind (qndRDSLoadData_reads _ _) fun _ => uses_pure _)
  | setCountry => exact fromUser_reads (uses_bind (qndSetCountry_reads _) fun _ => uses_pure _)
  | cfgfmmod => exact fromUser_reads (uses_bind (qndConfigFMModule_reads _ _) fun _ => uses_pure _)
  | loaddftsetting => exact fromUser_reads (uses_bind (qndLoadDefalutSetting_reads _) fun _ => uses_pure _)
  | txclearchscan =>
    exact fromUser_reads (uses_bind (qndTXClearChannelScan_reads _ _ _ _) fun _ => toUser_reads _)
  | powerEnable => exact fromUser_reads (by simp [Reads])

/-- The registers a command may write, its argument considered. -/
def Ioctl.writtenRegs : Ioctl → List UINT8
  | .setsysMode sysMode => sysModeRegs (ushort sysMode)
  | cmd => cmd.regs

theorem qn8006UnlockedIoctl_alters (stackPower : INT) (cmd : Ioctl) :
    Uses (Writes cmd.writtenRegs cmd.bytes cmd.halves) (qn8006UnlockedIoctl stackPower cmd) := by
  have listed := qn8006UnlockedIoctl_writes stackPower cmd
  cases cmd with
  | setsysMode => exact fromUser_writes (uses_bind (qndSetSysMode_touches _) fun _ => uses_pure _)
  | _ => exact listed

end Yika.Fm
