import Yika.Fm.WorkingMode

/-! The working mode across an update of the noise floor: the rescan puts SYSTEM1 back, but the
look at the clear channel that comes before it has already switched to reception. -/

namespace Yika.Fm
open Program

section
variable {κ : Type} {b : Board κ} {clears : UINT8} {sys1 : κ → UINT8} {w : Machine κ}

/-- RXREQ, TXREQ and STNBY of SYSTEM1. -/
def modeBits (sys1 : κ → UINT8) (w : Machine κ) : UINT8 := sys1 w.world &&& R_TXRX_MASK

theorem modeBits_of_held (apart : clears &&& R_TXRX_MASK = 0) {s : UINT8}
    (same : held clears sys1 w = s &&& ~~~clears) : modeBits sys1 w = s &&& R_TXRX_MASK := by
  calc modeBits sys1 w
      = held clears sys1 w &&& R_TXRX_MASK := (keep_mask apart _).symm
    _ = s &&& ~~~clears &&& R_TXRX_MASK := by rw [same]
    _ = s &&& R_TXRX_MASK := keep_mask apart s

/-! The rescan. -/

theorem rescan_held (chip : HoldsSystem1 b clears sys1) : Keeps b.env (held clears sys1) rescan := by
  intro w
  simp only [rescan, ensures_bind, ensures_readReg, chip.read]
  intro measured w₁ _
  simp only [ensures_writeReg, ensures_pure, held_write chip]
  rfl

theorem qnfUpdateRSSIn_held (chip : HoldsSystem1 b clears sys1) (chFreq : UINT16) :
    Keeps b.env (held clears sys1) (qnfUpdateRSSIn chFreq) := by
  intro w
  rw [qnfUpdateRSSIn, ensures_ite]
  constructor
  · intro _
    simp only [ensures_bind, ensures_pure]
    exact rescan_held chip w
  · intro _
    simp only [ensures_bind, ensures_readReg, chip.read]
    intro i w₁ _ scanned w₂ _
    simp only [ensures_writeReg, held_write chip]
    rfl

theorem rescanIfWanted_held (chip : HoldsSystem1 b clears sys1) (ch : UINT16) :
    Keeps b.env (held clears sys1) (rescanIfWanted ch) := by
  intro w
  simp only [rescanIfWanted, ensures_bind, ensures_load8, ensures_ite, ensures_pure, ensures_when,
    ensures_store8, implies_true, and_true]
  have scan := qnfUpdateRSSIn_held chip ch w
  exact ⟨fun _ _ => scan, fun _ _ => scan⟩

/-! The look at the clear channel. -/

theorem workingMode_bits (val s : UINT8) :
    workingMode val s &&& R_TXRX_MASK = val &&& R_TXRX_MASK := by
  have reserved : (0x08 : UINT8) &&& R_TXRX_MASK = 0 := by decide
  rw [workingMode, keep_mask reserved]
  split
  next same => rw [← same, BitVec.and_assoc, BitVec.and_self]
  next => exact mask_inside (BitVec.and_self) s val

theorem qndGetRSSI_receives (chip : HoldsSystem1 b clears sys1) (apart : clears &&& R_TXRX_MASK = 0)
    (ch : UINT16) : Ensures b.env (qndGetRSSI ch) (fun _ w' => modeBits sys1 w' = RXREQ) w := by
  simp only [qndGetRSSI, ensures_bind]
  intro _ w₁ run₁ _ w₂ run₂ _ w₃ run₃
  obtain ⟨_, mode⟩ := qndSetSysMode_refines chip apart 0x8000 () w₁ run₁
  rw [modeStep_working (by decide) (by decide) (by decide)] at mode
  have tuned := held_kept chip (qnfSetCh_writes ch) (by decide) run₂
  obtain ⟨_, idle⟩ := qnfSetRegBit_system1 chip CCA_CH_DIS CCA_CH_DIS () w₃ run₃
  have disabled : CCA_CH_DIS &&& R_TXRX_MASK = 0 := by decide
  have bits : modeBits sys1 w₃ = RXREQ := by
    calc modeBits sys1 w₃
        = held clears sys1 w₂ &&& R_TXRX_MASK :=
          (modeBits_of_held apart idle).trans (mask_outside disabled _ _)
      _ = modeBits sys1 w₁ := by
          rw [tuned]
          exact keep_mask apart _
      _ = RXREQ := (modeBits_of_held apart mode).trans (workingMode_bits _ _)
  simp only [qndDelay_eq, ensures_pure, ensures_readReg]
  have read : held clears sys1 (w₃.after b (.readReg RSSISIG)) = sys1 w₃.world &&& ~~~clears :=
    held_readReg chip RSSISIG
  exact (modeBits_of_held apart read).trans bits

theorem checkClearChannel_receives (chip : HoldsSystem1 b clears sys1)
    (apart : clears &&& R_TXRX_MASK = 0) :
    Ensures b.env checkClearChannel (fun _ w' => modeBits sys1 w' = RXREQ) w := by
  simp only [checkClearChannel, ensures_bind, ensures_load16]
  intro temp w₁ run₁
  have received := qndGetRSSI_receives chip apart _ temp w₁ run₁
  simp only [ensures_load8, ensures_ite, ensures_store8]
  exact ⟨fun _ => received, fun _ => received⟩

theorem qndUpdateRSSIn_modeBits (chip : HoldsSystem1 b clears sys1)
    (apart : clears &&& R_TXRX_MASK = 0) (ch : UINT16) :
    Ensures b.env (qndUpdateRSSIn ch) (fun _ w' => modeBits sys1 w' =
      if w.globals.byte .qndFirstScan = 0 then RXREQ else modeBits sys1 w) w := by
  have kept {w₁ w₂ : Machine κ} (run : Runs b.env (rescanIfWanted ch) w₁ () w₂) :
      modeBits sys1 w₂ = modeBits sys1 w₁ :=
    modeBits_of_held apart (rescanIfWanted_held chip ch w₁ () w₂ run)
  simp only [qndUpdateRSSIn, ensures_bind, ensures_load8, ensures_when]
  constructor
  · intro again _ w₁ run₁ _ w₂ run₂
    rw [if_pos again, kept run₂]
    exact checkClearChannel_receives chip apart () w₁ run₁
  · intro first _ w' run
    rw [if_neg first]
    exact kept run

/-- An update of the noise floor leaves the working mode as it was exactly when it is the first
one, or the chip was receiving. -/
theorem update_keeps_mode_iff (chip : HoldsSystem1 b clears sys1) (apart : clears &&& R_TXRX_MASK = 0) :
    Ensures b.env (qndUpdateRSSIn 0) (fun _ w' => modeBits sys1 w' = modeBits sys1 w ↔
      w.globals.byte .qndFirstScan ≠ 0 ∨ modeBits sys1 w = RXREQ) w := by
  intro _ w' run
  rw [qndUpdateRSSIn_modeBits chip apart 0 () w' run]
  by_cases first : w.globals.byte .qndFirstScan = 0
  · rw [if_pos first, or_iff_right (not_not.mpr first)]
    exact eq_comm
  · rw [if_neg first]
    exact iff_of_true rfl (.inl first)

end

/-- A clear channel as quiet as it was last found. -/
def quietFloor : Globals := (Globals.initial.set8 .qndFirstScan 0).set8 .qndRSSIns 0

theorem receiving_kept : ∃ w', Runs system1Chip.env (qndUpdateRSSIn 0) ⟨quietFloor, RXREQ⟩ () w' ∧
    (modeBits id w' = RXREQ ↔ quietFloor.byte .qndFirstScan ≠ 0 ∨ RXREQ = RXREQ) := by
  have done : (exec system1Chip.env 1 (qndUpdateRSSIn 0) ⟨quietFloor, RXREQ⟩).map (fun r => r.1) =
      some () := by decide +kernel
  obtain ⟨_, w', run, _⟩ := exec_observe 1 _ done
  exact ⟨w', run, update_keeps_mode_iff system1Chip_holds (by decide) () w' run⟩

/-- The look at the clear channel ends the transmission, and no rescan is wanted. -/
theorem transmission_ended : ∃ w', Runs system1Chip.env (qndUpdateRSSIn 0) ⟨quietFloor, TXREQ⟩ () w' ∧
    modeBits id w' = RXREQ ∧ modeBits id (⟨quietFloor, TXREQ⟩ : Machine UINT8) = TXREQ := by
  have done : (exec system1Chip.env 1 (qndUpdateRSSIn 0) ⟨quietFloor, TXREQ⟩).map
      (fun r => modeBits id r.2) = some RXREQ := by decide +kernel
  obtain ⟨_, w', run, received⟩ := exec_observe 1 _ done
  exact ⟨w', run, received, rfl⟩

end Yika.Fm
