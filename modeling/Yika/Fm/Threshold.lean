import Yika.Fm.Seek
import Yika.Fm.Tuning

/-! The threshold of a channel check: `QNM_SetRxThreshold` writes an `int` over a register with
two fields. -/

namespace Yika.Fm
open Program

def TXCCAA : UINT8 := 0xe0
def RXCCAA : UINT8 := 0x1f

/-- The threshold field is the number meant, and the other field of CCA is as before. -/
structure ThresholdExact (minrssi db before after : UINT8) : Prop where
  rx : ((after &&& RXCCAA).toNat : Int) = minrssi.toNat - 22 + db.toNat
  tx : after &&& TXCCAA = before &&& TXCCAA

theorem and_rxccaa (value : UINT8) : (value &&& RXCCAA).toNat = value.toNat % 32 := by
  rw [BitVec.toNat_and]
  exact Nat.and_two_pow_sub_one_eq_mod _ 5

theorem and_txccaa {value : UINT8} (small : value.toNat < 32) : value &&& TXCCAA = 0 := by
  have all : ∀ value : UINT8, value.toNat < 32 → value &&& TXCCAA = 0 := by decide +kernel
  exact all value small

theorem thresholdExact_iff {minrssi db before : UINT8} :
    ThresholdExact minrssi db before (minrssi - 22 + db) ↔
      22 ≤ minrssi.toNat + db.toNat ∧ minrssi.toNat + db.toNat ≤ 53 ∧ before &&& TXCCAA = 0 := by
  have noise := minrssi.isLt
  have margin := db.isLt
  have value : (minrssi - 22 + db).toNat = (minrssi.toNat + 234 + db.toNat) % 256 := by
    rw [BitVec.toNat_add, BitVec.toNat_sub]
    change ((256 - 22 + minrssi.toNat) % 256 + db.toNat) % 256 = _
    omega
  have field : ((minrssi - 22 + db) &&& RXCCAA).toNat = (minrssi.toNat + 234 + db.toNat) % 256 % 32 := by
    rw [and_rxccaa, value]
  constructor
  · intro meant
    have rx := meant.rx
    rw [field] at rx
    have small : (minrssi - 22 + db).toNat < 32 := by
      rw [value]
      omega
    have tx := meant.tx
    rw [and_txccaa small] at tx
    exact ⟨by omega, by omega, tx.symm⟩
  · intro bounds
    obtain ⟨low, high, clear⟩ := bounds
    have small : (minrssi - 22 + db).toNat < 32 := by
      rw [value]
      omega
    constructor
    · rw [field]
      omega
    · rw [and_txccaa small, clear]

/-! The check in a seek. -/

def StartsScan : FmOp → Prop
  | .ext (.writeReg adr value) => adr = SYSTEM1 ∧ value &&& CHSC ≠ 0
  | _ => False

/-- The part of `seekTest` before the decision to check the channel. -/
def measureChannel (start : UINT16) : Drv (UINT8 × UINT8) := do
  let minrssi ← qnfGetRSSIn start
  qnfSetCh start
  (if imageChannel start then qnfSetRegBit TXAGC_GAIN IMR IMR else qnfSetRegBit TXAGC_GAIN IMR 0)
  qnfSetRegBit SYSTEM1 0xA1 0x81
  qndDelay 10
  let rssi ← readReg RSSISIG
  pure (minrssi, rssi)

theorem seekTest_eq (start : UINT16) (step db : UINT8) :
    seekTest start step db = (do
      let measured ← measureChannel start
      if rssiAbove measured.2 measured.1 6 db then checkChannel start step db measured.1 measured.2
      else pure false) := by
  simp only [seekTest, measureChannel, bind_assoc, pure_bind]

/-- The part of `checkChannel` before the scan is started. -/
def programCheck (start : UINT16) (step db minrssi : UINT8) : Drv UINT8 := do
  qnfConfigScan start start step
  writeReg CCA (minrssi - 22 + db)
  readReg SYSTEM1

def scanBits (temp : UINT8) : UINT8 := (temp &&& ~~~0xA1) ||| (0xA0 &&& 0xA1)

theorem scanBits_scan (temp : UINT8) : scanBits temp &&& CHSC ≠ 0 := by
  revert temp
  decide +kernel

theorem checkChannel_eq (start : UINT16) (step db minrssi rssi : UINT8) :
    checkChannel start step db minrssi rssi = (do
      let temp ← programCheck start step db minrssi
      writeReg SYSTEM1 (scanBits temp)
      let timeout ← Prog.doWhile pollScan 0
      judgeChannel db minrssi rssi timeout) := by
  simp only [checkChannel, programCheck, qnfSetRegBit, bind_assoc]
  rfl

section
variable {κ α : Type} {b : Board κ} {cca : κ → UINT8} {w w₁ : Machine κ} {start : UINT16}
  {step db minrssi rssi : UINT8} {o : FmOp}

theorem no_scan {p : Drv α} {written : List UINT8} {bytes : Set Var8} {halves : Set Var16}
    (uses : Uses (Writes written bytes halves) p) (other : SYSTEM1 ∉ written)
    (visit : Visits b.env p w o w₁) : ¬StartsScan o := by
  have writes := uses.visits_allowed visit
  intro starts
  cases o with
  | ext e =>
    cases e with
    | writeReg adr value =>
      rw [starts.1] at writes
      exact other writes
    | _ => cases starts
  | _ => cases starts

theorem measureChannel_no_scan (visit : Visits b.env (measureChannel start) w o w₁) :
    ¬StartsScan o := by
  have image : Uses (WritesRegs [TXAGC_GAIN]) (if imageChannel start
      then qnfSetRegBit TXAGC_GAIN IMR IMR else qnfSetRegBit TXAGC_GAIN IMR 0) := by
    simp [qnfSetRegBit, Writes]
  have last : ∀ minrssi : UINT8, Uses (WritesRegs []) (do
      let rssi ← readReg RSSISIG
      pure (minrssi, rssi)) := by
    simp [Writes]
  rcases visits_bind.mp visit with early | ⟨minrssi, w₂, _, visit⟩
  · exact no_scan (qnfGetRSSIn_writes start) (by decide) early
  rcases visits_bind.mp visit with early | ⟨_, w₃, _, visit⟩
  · exact no_scan (qnfSetCh_writes start) (by decide) early
  rcases visits_bind.mp visit with early | ⟨_, w₄, _, visit⟩
  · exact no_scan image (by decide) early
  rcases visits_bind.mp visit with early | ⟨_, w₅, _, visit⟩
  · have cleared : ∀ temp : UINT8, ((temp &&& ~~~0xA1) ||| (0x81 &&& 0xA1)) &&& CHSC = 0 := by
      decide +kernel
    cases early with
    | here => exact id
    | op early =>
      cases early with
      | here => exact fun starts => starts.2 (cleared _)
      | op early => cases early
  · exact no_scan (last minrssi) (by decide) visit

theorem checkChannel_starts
    (visit : Visits b.env (checkChannel start step db minrssi rssi) w o w₁) (starts : StartsScan o) :
    ∃ temp, Runs b.env (programCheck start step db minrssi) w temp w₁ ∧
      o = .ext (.writeReg SYSTEM1 (scanBits temp)) := by
  have before : Uses (WritesRegs [CH_START, CH_STOP, CH_STEP, CCA])
      (programCheck start step db minrssi) := by
    simp [programCheck, qnfConfigScan, Writes]
  have poll : Uses (WritesRegs []) (Prog.doWhile pollScan 0) := by simp [pollScan, Writes]
  rw [checkChannel_eq] at visit
  rcases visits_bind.mp visit with early | ⟨temp, w₂, programmed, visit⟩
  · exact absurd starts (no_scan before (by decide) early)
  rcases visits_bind.mp visit with early | ⟨_, w₃, _, visit⟩
  · cases early with
    | here => exact ⟨temp, programmed, rfl⟩
    | op early => cases early
  rcases visits_bind.mp visit with early | ⟨timeout, w₄, _, visit⟩
  · exact absurd starts (no_scan poll (by decide) early)
  · exact absurd starts (no_scan (judgeChannel_writes db minrssi rssi timeout) (by decide) visit)

/-- A test starts a scan when it measures a signal above the noise floor, once the check is
programmed. -/
theorem seekTest_starts_iff : Visits b.env (seekTest start step db) w o w₁ ∧ StartsScan o ↔
    ∃ measured w₂ temp, Runs b.env (measureChannel start) w measured w₂ ∧
      rssiAbove measured.2 measured.1 6 db = true ∧
      Runs b.env (programCheck start step db measured.1) w₂ temp w₁ ∧
      o = .ext (.writeReg SYSTEM1 (scanBits temp)) := by
  rw [seekTest_eq]
  constructor
  · intro given
    obtain ⟨visit, starts⟩ := given
    rcases visits_bind.mp visit with early | ⟨measured, w₂, run, visit⟩
    · exact absurd starts (measureChannel_no_scan early)
    · split at visit
      next strong =>
        obtain ⟨temp, programmed, started⟩ := checkChannel_starts visit starts
        exact ⟨measured, w₂, temp, run, strong, programmed, started⟩
      next => cases visit
  · intro given
    obtain ⟨measured, w₂, temp, run, strong, programmed, rfl⟩ := given
    refine ⟨run.visits ?_, rfl, scanBits_scan temp⟩
    rw [if_pos strong, checkChannel_eq]
    exact programmed.visits .here

theorem seekTest_threshold (chip : HoldsRegister b CCA cca)
    (visit : Visits b.env (seekTest start step db) w o w₁) (starts : StartsScan o) :
    cca w₁.world = w.globals.minRSSI start - 22 + db := by
  obtain ⟨measured, w₂, temp, run, _, programmed, _⟩ := seekTest_starts_iff.mp ⟨visit, starts⟩
  have floor : Ensures b.env (measureChannel start)
      (fun measured _ => measured.1 = w.globals.minRSSI start) w := by
    simp only [measureChannel, ensures_bind, ensures_pure]
    intro minrssi w₁ looked
    obtain ⟨_, found⟩ := achieves_qnfGetRSSIn.ensures minrssi w₁ looked
    intro _ _ _ _ _ _ _ _ _ _ _ _ _ _ _
    exact found
  have threshold : Ensures b.env (programCheck start step db measured.1)
      (fun _ w' => cca w'.world = measured.1 - 22 + db) w₂ := by
    simp only [programCheck, ensures_bind, ensures_writeReg, ensures_readReg]
    intro _ w₃ _
    have kept := fun k => chip.keep (.readReg SYSTEM1) k fun _ => Ext.noConfusion
    exact (kept _).trans (cell_written chip _)
  rw [threshold temp w₁ programmed, floor measured w₂ run]

/-- Whenever a seek starts a channel check, the threshold is exact if and only if the number fits
the field and the other field has been 0. -/
theorem threshold_exact_iff (chip : HoldsRegister b CCA cca)
    (visit : Visits b.env (seekTest start step db) w o w₁) (starts : StartsScan o) :
    ThresholdExact (w.globals.minRSSI start) db (cca w.world) (cca w₁.world) ↔
      22 ≤ (w.globals.minRSSI start).toNat + db.toNat ∧
        (w.globals.minRSSI start).toNat + db.toNat ≤ 53 ∧ cca w.world &&& TXCCAA = 0 := by
  rw [seekTest_threshold chip visit starts]
  exact thresholdExact_iff

theorem check_starts {measured : UINT8 × UINT8} {w₂ : Machine κ}
    (run : Runs b.env (measureChannel start) w measured w₂)
    (strong : rssiAbove measured.2 measured.1 6 db = true) :
    ∃ o w₁, Visits b.env (seekTest start step db) w o w₁ ∧ StartsScan o := by
  have programs : Achieves b.env (programCheck start step db measured.1) (fun _ _ => True) w₂ := by
    simp [programCheck, qnfConfigScan]
  obtain ⟨temp, w₁, programmed, _⟩ := programs
  exact ⟨_, w₁, seekTest_starts_iff.mpr ⟨measured, w₂, temp, run, strong, programmed, rfl⟩⟩

end

/-- A chip with this RSSI, its registers otherwise 0. -/
def loudChip (rssi : UINT8) : Machine Regs := ⟨Globals.initial, Function.update (fun _ => 0) RSSISIG rssi⟩

theorem loudChip_checks : ∃ w₂, Runs memoryChip.env (measureChannel 8800) (loudChip 60) (0, 60) w₂ := by
  have done : (exec memoryChip.env 1 (measureChannel 8800) (loudChip 60)).map (fun r => r.1) =
      some (0, 60) := by decide +kernel
  obtain ⟨measured, w₂, run, rfl⟩ := exec_observe 1 _ done
  exact ⟨w₂, run⟩

/-- A threshold of 8 over a noise floor of 0. -/
theorem threshold_fits : ∃ o w₁, Visits memoryChip.env (seekTest 8800 1 30) (loudChip 60) o w₁ ∧
    ThresholdExact 0 30 0 (w₁.world CCA) := by
  obtain ⟨w₂, run⟩ := loudChip_checks
  obtain ⟨o, w₁, visit, starts⟩ := @check_starts _ _ _ 8800 1 30 _ _ run (by decide)
  have chip : HoldsRegister memoryChip CCA fun k => k CCA := (registerFile_holds _ _).register CCA
  exact ⟨o, w₁, visit, (threshold_exact_iff chip visit starts).mpr (by decide)⟩

/-- A threshold of -22 becomes 10, and spoils the field of the transmitter. -/
theorem threshold_wraps : ∃ o w₁, Visits memoryChip.env (seekTest 8800 1 0) (loudChip 60) o w₁ ∧
    StartsScan o ∧ w₁.world CCA = 234 ∧ ¬ThresholdExact 0 0 0 (w₁.world CCA) := by
  obtain ⟨w₂, run⟩ := loudChip_checks
  obtain ⟨o, w₁, visit, starts⟩ := @check_starts _ _ _ 8800 1 0 _ _ run (by decide)
  have chip : HoldsRegister memoryChip CCA fun k => k CCA := (registerFile_holds _ _).register CCA
  have written : w₁.world CCA = 234 := seekTest_threshold chip visit starts
  refine ⟨o, w₁, visit, starts, written, ?_⟩
  intro meant
  have rx := meant.rx
  rw [written] at rx
  revert rx
  decide

end Yika.Fm
