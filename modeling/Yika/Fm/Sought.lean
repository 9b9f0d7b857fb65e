import Yika.Fm.ScanOrder
import Yika.Fm.SingleSeek
import Yika.Fm.Tuning

/-! What the receiver is tuned to after a seek and after a scan, on a chip of which only CH and
CH_STEP are known: they hold what is written to them. -/

namespace Yika.Fm
open Program

/-- The channel stays in the chip as it was written. -/
structure HoldsChannel {κ : Type} (b : Board κ) (low high : κ → UINT8) : Prop where
  low : HoldsRegister b CH low
  high : HoldsRegister b CH_STEP high

/-- The frequency of the ten bits that CH and CH_STEP have for a channel. -/
def reported (freq : UINT16) : UINT16 := chreg2freq (freq2chreg freq &&& 0x3ff)

theorem reported_grid {freq : UINT16} (low : 7600 ≤ freq.toNat) (high : freq.toNat ≤ 10800)
    (grid : freq.toNat % 5 = 0) : reported freq = freq := by
  have channel := freq2chreg_grid low grid
  have small : freq2chreg freq &&& 0x3ff = freq2chreg freq := by
    apply BitVec.eq_of_toNat_eq
    rw [BitVec.toNat_and]
    exact (Nat.and_two_pow_sub_one_eq_mod _ 10).trans (Nat.mod_eq_of_lt (by omega))
  rw [reported, small]
  apply BitVec.eq_of_toNat_eq
  rw [chreg2freq, BitVec.toNat_add, BitVec.toNat_mul, channel]
  change ((freq.toNat - 7600) / 5 * 5 % 65536 + 7600) % 65536 = freq.toNat
  omega

section
variable {κ : Type} {b : Board κ} {low high : κ → UINT8} {w w' w₁ w₂ : Machine κ} {α : Type}

/-- The channel as `QNF_GetCh` reads it. -/
def channelOf (low high : κ → UINT8) (w : Machine κ) : UINT16 :=
  chreg2freq ((((high w.world &&& CH_CH).setWidth 16) <<< 8) + (low w.world).setWidth 16)

theorem channel_parts (c : UINT16) :
    (((c >>> 8).setWidth 8 &&& CH_CH).setWidth 16 <<< 8) + (c.setWidth 8).setWidth 16 = c &&& 0x3ff := by
  apply BitVec.eq_of_toNat_eq
  have two : ((c >>> 8).setWidth 8 &&& CH_CH).toNat = c.toNat / 256 % 256 % 4 := by
    rw [BitVec.toNat_and, BitVec.toNat_setWidth, BitVec.toNat_ushiftRight, Nat.shiftRight_eq_div_pow]
    exact Nat.and_two_pow_sub_one_eq_mod _ 2
  have ten : (c &&& 0x3ff).toNat = c.toNat % 1024 := Nat.and_two_pow_sub_one_eq_mod _ 10
  rw [ten, BitVec.toNat_add, BitVec.toNat_shiftLeft, BitVec.toNat_setWidth, two, BitVec.toNat_setWidth,
    BitVec.toNat_setWidth, Nat.shiftLeft_eq]
  omega

theorem qnfSetCh_channel (chip : HoldsChannel b low high) (freq : UINT16) :
    Ensures b.env (qnfSetCh freq) (fun _ w' => channelOf low high w' = reported freq) w := by
  have apart : ∀ old value : UINT8, ((old &&& ~~~CH_CH) ||| (value &&& CH_CH)) &&& CH_CH = value &&& CH_CH :=
    mask_inside (by decide)
  simp only [qnfSetCh, ensures_bind, ensures_writeReg, ensures_readReg]
  have written : low (w.after b (.writeReg CH ((freq2chreg freq).setWidth 8))).world =
      (freq2chreg freq).setWidth 8 := cell_written chip.low _
  have read (w : Machine κ) : low (w.after b (.readReg CH_STEP)).world = low w.world :=
    chip.low.keep _ w.world fun _ => Ext.noConfusion
  have stepped (w : Machine κ) (value : UINT8) : low (w.after b (.writeReg CH_STEP value)).world = low w.world := by
    refine chip.low.keep _ w.world fun _ same => ?_
    have register := (Ext.writeReg.inj same).1
    exact absurd register (by decide)
  rw [channelOf, stepped, read, written, cell_written chip.high, apart, channel_parts, reported]

theorem channel_kept (chip : HoldsChannel b low high) {p : Drv α} {regs : List UINT8} {bytes : Set Var8}
    {halves : Set Var16} (uses : Uses (Writes regs bytes halves) p) (outside : CH ∉ regs ∧ CH_STEP ∉ regs) :
    Keeps b.env (channelOf low high) p := by
  intro w out w' run
  have lowKept := cell_kept chip.low uses outside.1 w out w' run
  have highKept := cell_kept chip.high uses outside.2 w out w' run
  dsimp only at lowKept highKept
  rw [channelOf, lowKept, highKept]
  rfl

theorem qndTuneToCH_channel (chip : HoldsChannel b low high) (freq : UINT16) :
    Ensures b.env (qndTuneToCH freq) (fun _ w' => channelOf low high w' = reported freq) w := by
  have kept {p : Drv Unit} {regs : List UINT8} (uses : Uses (WritesRegs regs) p)
      (outside : CH ∉ regs ∧ CH_STEP ∉ regs) {w : Machine κ} (tuned : channelOf low high w = reported freq) :
      Ensures b.env p (fun _ w' => channelOf low high w' = reported freq) w :=
    (channel_kept chip uses outside w).mono fun _ _ same => same.trans tuned
  have finish {w : Machine κ} (tuned : channelOf low high w = reported freq) : Ensures b.env (do
      qnfSetRegBit SYSTEM1 CCA_CH_DIS CCA_CH_DIS
      let sys2 ← readReg SYSTEM2
      qnfSetRegBit GAIN_SEL 0x38 (if sys2 &&& 0x20 ≠ 0 then 0x00 else 0x28)
      qnfSetMute false) (fun _ w' => channelOf low high w' = reported freq) w := by
    have uses : Uses (WritesRegs [SYSTEM1, GAIN_SEL, REG_PD2]) (do
        qnfSetRegBit SYSTEM1 CCA_CH_DIS CCA_CH_DIS
        let sys2 ← readReg SYSTEM2
        qnfSetRegBit GAIN_SEL 0x38 (if sys2 &&& 0x20 ≠ 0 then 0x00 else 0x28)
        qnfSetMute false) := by
      simp [qnfSetMute, qnfSetRegBit, Writes]
    exact kept uses (by decide) tuned
  simp only [qndTuneToCH, ensures_bind, ensures_readReg]
  intro _ w₁ _
  rw [ensures_ite]
  refine ⟨fun _ => ?_, fun _ => ?_⟩
  · rw [ensures_bind]
    intro _ w₂ _
    exact qnfSetCh_channel chip freq
  · rw [ensures_bind]
    intro _ w₂ _
    rw [ensures_bind]
    intro _ w₃ _
    rw [ensures_bind]
    exact (qnfSetCh_channel chip freq).mono fun _ _ tuned => finish tuned

/-! GET_FQ. -/

theorem qnfGetCh_channel (chip : HoldsChannel b low high) :
    Achieves b.env qnfGetCh (fun f _ => f = channelOf low high w) w := by
  have stepped : low (w.after b (.readReg CH_STEP)).world = low w.world :=
    chip.low.keep _ w.world fun _ => Ext.noConfusion
  simp only [qnfGetCh, achieves_bind, achieves_readReg, achieves_pure]
  rw [chip.high.read, chip.low.read, stepped, channelOf]

theorem getFq_channel (chip : HoldsChannel b low high) (stackPower : INT) :
    Achieves b.env (qn8006UnlockedIoctl stackPower .getFq) (fun reply _ =>
      reply = if fqCopied b w then .int ((channelOf low high w).setWidth 32) else .fault) w :=
  (achieves_getFq (qnfGetCh_channel chip) stackPower).mono fun _ _ => And.left

theorem unrelated_channel (chip : HoldsChannel b low high) {cmds : List Ioctl}
    (path : Path (IoctlStep b) w cmds w') (unrelated : ∀ cmd ∈ cmds, Unrelated cmd) :
    channelOf low high w' = channelOf low high w := by
  induction path with
  | nil => rfl
  | cons first _ ih =>
    rw [List.forall_mem_cons] at unrelated
    obtain ⟨stackPower, reply, run⟩ := first
    exact (ih unrelated.2).trans (channel_kept chip (qn8006UnlockedIoctl_writes stackPower _)
      unrelated.1.outside _ _ _ run)

/-! A seek and a scan. -/

theorem qndRXSeekCH_channel (chip : HoldsChannel b low high) (idle : w.globals.byte .qndAutoScanAll = 0)
    (start stop : UINT16) (step db up : UINT8) :
    Ensures b.env (qndRXSeekCH start stop step db up) (fun found w' =>
      channelOf low high w' = reported (if found = 0 then stop else found)) w := by
  intro found w' run
  obtain ⟨w₁, w₂, _, _, tuned⟩ := qndRXSeekCH_parts run
  rw [Prog.when, if_pos idle] at tuned
  exact qndTuneToCH_channel chip _ _ _ tuned

theorem toUser_channel (chip : HoldsChannel b low high) (reply : Reply) :
    Ensures b.env (toUser reply) (fun out w' => (out = reply ∨ out = .fault) ∧
      channelOf low high w' = channelOf low high w) w := by
  have outside : CH ∉ ([] : List UINT8) ∧ CH_STEP ∉ ([] : List UINT8) := by simp
  intro out w' run
  refine ⟨?_, channel_kept chip (toUser_quiet reply) outside w out w' run⟩
  obtain ⟨copied, w₁, _, last⟩ := runs_bind.mp run
  cases copied with
  | true => exact .inl (runs_pure.mp last).1
  | false => exact .inr (runs_pure.mp last).1

theorem ushort_setWidth (x : UINT16) : ushort (x.setWidth 32) = x := by
  apply BitVec.eq_of_toNat_eq
  have bound := x.isLt
  rw [ushort, BitVec.toNat_setWidth, BitVec.toNat_setWidth]
  omega

theorem rxseekch_channel (chip : HoldsChannel b low high) (idle : w.globals.byte .qndAutoScanAll = 0)
    (stackPower : INT) (rsc : Qn8006RxSeekCH) :
    Ensures b.env (qn8006UnlockedIoctl stackPower (.rxseekch rsc)) (fun reply w' => ∀ r, reply = .seek r →
      channelOf low high w' = reported (if ushort r.ret = 0 then ushort rsc.stop else ushort r.ret)) w := by
  have command : qn8006UnlockedIoctl stackPower (.rxseekch rsc) = fromUser (do
      let ret ← qndRXSeekCH (ushort rsc.start) (ushort rsc.stop) (uchar rsc.step) (uchar rsc.db) (uchar rsc.up)
      toUser (.seek { rsc with ret := ret.setWidth 32 })) := rfl
  have idle' : (w.after b .copyFromUser).globals.byte .qndAutoScanAll = 0 := idle
  rw [command, ensures_fromUser]
  split
  next =>
    rw [ensures_bind]
    intro found w₁ sought reply w' copied r same
    have tuned := qndRXSeekCH_channel chip idle' _ _ _ _ _ found w₁ sought
    obtain ⟨answer, kept⟩ := toUser_channel chip _ reply w' copied
    subst same
    rcases answer with answer | fault
    · cases answer
      dsimp only
      rw [kept, tuned, ushort_setWidth]
    · cases fault
  next => exact fun r other => Reply.noConfusion other

/-- The first channel of the list is tuned to, or where the scan stops if there is none. -/
theorem qndRXSeekCHAll_channel (chip : HoldsChannel b low high) (start stop : UINT16) (step db up : UINT8) :
    Ensures b.env (qndRXSeekCHAll start stop step db up) (fun count w' =>
      count.toNat = w'.globals.channels.length ∧
      channelOf low high w' = reported (w'.globals.channels.headD (w.globals.clamp stop))) w := by
  rw [qndRXSeekCHAll_eq, ensures_bind]
  intro pStop w₁ clamped
  obtain ⟨rfl, rfl⟩ := achieves_stopInRange_clamp.ensures pStop w₁ clamped
  rw [ensures_bind]
  intro stepvalue w₂ _
  rw [ensures_bind]
  intro _ w₃ _
  unfold seekAllFinish
  rw [ensures_bind]
  intro ch w₄ first
  obtain ⟨rfl, rfl⟩ := achieves_firstChannel.ensures ch w₄ first
  rw [ensures_bind]
  intro _ w₅ tune
  have tuned := qndTuneToCH_channel chip _ _ _ tune
  have same₅ := globals_kept (qndTuneToCH_writes _) tune
  rw [ensures_bind, ensures_store8, ensures_bind]
  intro _ w₆ unmute
  have same₆ := globals_kept (qnfSetMute_writes false) unmute
  have kept := channel_kept chip (qnfSetMute_writes false) (by decide) _ _ _ unmute
  have channels₆ : w₆.globals.channels = w₄.globals.channels := by
    rw [same₆]
    change (w₅.globals.set8 .qndAutoScanAll 0).channels = _
    rw [same₅]
    simp [Globals.channels]
  rw [ensures_load8, channels₆, kept]
  exact ⟨by rw [← channels₆, length_channels], tuned⟩

theorem rxseekchall_channel (chip : HoldsChannel b low high) (stackPower : INT) (rscall : Qn8006RxSeekCH) :
    Ensures b.env (qn8006UnlockedIoctl stackPower (.rxseekchall rscall)) (fun reply w' =>
      ∀ r, reply = .seek r → (ushort r.ret).toNat = w'.globals.channels.length ∧
        channelOf low high w' =
          reported (w'.globals.channels.headD (w.globals.clamp (ushort rscall.stop)))) w := by
  have command : qn8006UnlockedIoctl stackPower (.rxseekchall rscall) = fromUser (do
      let ret ← qndRXSeekCHAll (ushort rscall.start) (ushort rscall.stop) (uchar rscall.step)
        (uchar rscall.db) (uchar rscall.up)
      toUser (.seek { rscall with ret := ret.setWidth 32 })) := rfl
  rw [command, ensures_fromUser]
  split
  next =>
    rw [ensures_bind]
    intro count w₁ scanned reply w' copied r same
    have found := qndRXSeekCHAll_channel chip _ _ _ _ _ count w₁ scanned
    obtain ⟨answer, kept⟩ := toUser_channel chip _ reply w' copied
    have list := globals_kept (toUser_quiet _) copied
    subst same
    rcases answer with answer | fault
    · cases answer
      have wide : (ushort (count.setWidth 32)).toNat = count.toNat := by
        have bound := count.isLt
        rw [ushort, BitVec.toNat_setWidth, BitVec.toNat_setWidth]
        omega
      rw [kept, list, wide]
      exact found
    · cases fault
  next => exact fun r other => Reply.noConfusion other

/-! The grid of 50 kHz. -/

/-- A frequency of the band that a channel stands for. -/
def OnGrid (f : UINT16) : Prop := InBand f ∧ f.toNat % 5 = 0

theorem OnGrid.exact {f : UINT16} (grid : OnGrid f) : reported f = f := reported_grid grid.1.1 grid.1.2 grid.2

theorem stepTbl_grid (i : Nat) : (qndStepTbl i).toNat % 5 = 0 := by
  unfold qndStepTbl
  split_ifs <;> rfl

theorem OnGrid.advance {up : Bool} {leap : UINT8} {stop f : UINT16} (grid : OnGrid f) (band : InBand stop)
    (short : leap.toNat ≤ 20) (five : leap.toNat % 5 = 0) (further : Within up stop (Fm.advance up leap f)) :
    OnGrid (Fm.advance up leap f) := by
  obtain ⟨⟨bottom, top⟩, multiple⟩ := grid
  obtain ⟨bottom', top'⟩ := band
  cases up with
  | true =>
    have next := @toNat_advance_up leap f (by omega)
    have below : (Fm.advance true leap f).toNat ≤ stop.toNat := further
    exact ⟨⟨by omega, by omega⟩, by omega⟩
  | false =>
    have next := @toNat_advance_down leap f (by omega)
    have above : stop.toNat ≤ (Fm.advance false leap f).toNat := further
    exact ⟨⟨by omega, by omega⟩, by omega⟩

theorem qndRXSeekCH_grid {start stop : UINT16} (grid : OnGrid start) (band : InBand stop) {step : UINT8}
    (index : step.toNat < 3) (db up : UINT8) : Ensures b.env (qndRXSeekCH start stop step db up)
      (fun found _ => found ≠ 0 → OnGrid found) w := by
  intro found w' run
  obtain ⟨w₁, w₂, _, loop, _⟩ := qndRXSeekCH_parts run
  have leap : b.stepValue step = qndStepTbl step.toNat := stepValue_inside b index
  have looks : Ensures b.env (Prog.doWhile (seekRound stop step db (decide (start < stop)) (b.stepValue step)) start)
      (fun found _ => found ≠ 0 → OnGrid found) w₁ := by
    refine ensures_doWhile (fun x _ => OnGrid x) ?_ grid
    intro x w₃ here
    refine (seekRound_moves step db).mono ?_
    intro next _ moved
    rcases moved with rfl | rfl | ⟨rfl, further⟩
    · exact fun _ => here
    · exact fun nonzero => absurd rfl nonzero
    · refine here.advance band ?_ ?_ further
      · rw [leap]
        exact (stepTbl_bounds _).2
      · rw [leap]
        exact stepTbl_grid _
  exact looks found w₂ loop

/-! What GET_FQ tells. -/

theorem rxseekch_grid {rsc : Qn8006RxSeekCH} (start : OnGrid (ushort rsc.start)) (stop : OnGrid (ushort rsc.stop))
    (index : (uchar rsc.step).toNat < 3) (stackPower : INT) :
    Ensures b.env (qn8006UnlockedIoctl stackPower (.rxseekch rsc)) (fun reply _ => ∀ r, reply = .seek r →
      r.ret = (ushort r.ret).setWidth 32 ∧ (ushort r.ret ≠ 0 → OnGrid (ushort r.ret))) w := by
  have command : qn8006UnlockedIoctl stackPower (.rxseekch rsc) = fromUser (do
      let ret ← qndRXSeekCH (ushort rsc.start) (ushort rsc.stop) (uchar rsc.step) (uchar rsc.db) (uchar rsc.up)
      toUser (.seek { rsc with ret := ret.setWidth 32 })) := rfl
  rw [command, ensures_fromUser]
  split
  next =>
    rw [ensures_bind]
    intro found w₁ sought reply w' copied r same
    have grid := qndRXSeekCH_grid start stop.1 index _ _ found w₁ sought
    obtain ⟨flag, w₂, _, last⟩ := runs_bind.mp copied
    subst same
    cases flag with
    | true =>
      cases (runs_pure.mp last).1
      rw [ushort_setWidth]
      exact ⟨rfl, grid⟩
    | false => cases (runs_pure.mp last).1
  next => exact fun r other => Reply.noConfusion other

/-- After a seek from one frequency of the grid to another, and any requests that have nothing to do
with the channel, GET_FQ tells the frequency that was found, or else the one where the seek stopped,
unless it cannot be copied to the user. -/
theorem sought_reported (chip : HoldsChannel b low high) (idle : w.globals.byte .qndAutoScanAll = 0)
    {rsc r : Qn8006RxSeekCH} (start : OnGrid (ushort rsc.start)) (stop : OnGrid (ushort rsc.stop))
    (index : (uchar rsc.step).toNat < 3) {stackPower stackPower' : INT}
    (seek : Runs b.env (qn8006UnlockedIoctl stackPower (.rxseekch rsc)) w (.seek r) w₁)
    {cmds : List Ioctl} (path : Path (IoctlStep b) w₁ cmds w₂) (unrelated : ∀ cmd ∈ cmds, Unrelated cmd) :
    Achieves b.env (qn8006UnlockedIoctl stackPower' .getFq) (fun reply _ => reply = if fqCopied b w₂ then
      .int (if r.ret = 0 then (ushort rsc.stop).setWidth 32 else r.ret) else .fault) w₂ := by
  obtain ⟨same, grid⟩ := rxseekch_grid start stop index stackPower _ w₁ seek r rfl
  have tuned := rxseekch_channel chip idle stackPower rsc _ w₁ seek r rfl
  have told := getFq_channel (w := w₂) chip stackPower'
  rw [unrelated_channel chip path unrelated, tuned] at told
  by_cases none : ushort r.ret = 0
  · have zero : r.ret = 0 := by rw [same, none]; rfl
    rw [if_pos none, stop.exact] at told
    rwa [if_pos zero]
  · have nonzero : r.ret ≠ 0 := fun zero => none (by rw [zero]; rfl)
    rw [if_neg none, (grid none).exact, ← same] at told
    rwa [if_neg nonzero]

/-- After a scan of all channels GET_FQ tells the first one that is listed, or else where the scan
stopped, and the result of the scan is how many are listed. -/
theorem scanned_reported (chip : HoldsChannel b low high) {stackPower stackPower' : INT}
    {rscall r : Qn8006RxSeekCH}
    (scan : Runs b.env (qn8006UnlockedIoctl stackPower (.rxseekchall rscall)) w (.seek r) w₁)
    {cmds : List Ioctl} (path : Path (IoctlStep b) w₁ cmds w₂) (unrelated : ∀ cmd ∈ cmds, Unrelated cmd) :
    (ushort r.ret).toNat = w₁.globals.channels.length ∧
      Achieves b.env (qn8006UnlockedIoctl stackPower' .getFq) (fun reply _ => reply = if fqCopied b w₂ then
        .int ((reported (w₁.globals.channels.headD (w.globals.clamp (ushort rscall.stop)))).setWidth 32)
        else .fault) w₂ := by
  obtain ⟨count, tuned⟩ := rxseekchall_channel chip stackPower rscall _ w₁ scan r rfl
  have told := getFq_channel (w := w₂) chip stackPower'
  rw [unrelated_channel chip path unrelated, tuned] at told
  exact ⟨count, told⟩

end

def stationedChip : Board (UINT8 × UINT8) where
  respond
    | .readReg adr, k =>
      (if adr = CH then k.1 else if adr = CH_STEP then k.2 else if adr = RSSISIG then 60
        else if adr = CCA5 then 7 else if adr = CCA4 then 0xD0 else 0, k)
    | .writeReg adr value, k =>
      ((), if adr = CH then (value, k.2) else if adr = CH_STEP then (k.1, value) else k)
    | e, k => (granted e, k)
  beyond _ := 0

theorem stationedChip_channel : HoldsChannel stationedChip Prod.fst Prod.snd where
  low := {
    read _ := rfl
    write _ _ := rfl
    keep e k other := by
      cases e with
      | writeReg adr value =>
        have apart : adr ≠ CH := fun same => other value (by rw [same])
        change (if adr = CH then (value, k.2) else if adr = CH_STEP then (k.1, value) else k).1 = k.1
        rw [if_neg apart]
        split_ifs <;> rfl
      | _ => rfl }
  high := {
    read _ := rfl
    write _ _ := rfl
    keep e k other := by
      cases e with
      | writeReg adr value =>
        have apart : adr ≠ CH_STEP := fun same => other value (by rw [same])
        change (if adr = CH then (value, k.2) else if adr = CH_STEP then (k.1, value) else k).2 = k.2
        rw [if_neg apart]
        split_ifs <;> rfl
      | _ => rfl }

/-- The noise floor has been measured and is still there. -/
def measured : Globals := (Globals.initial.set8 .qndFirstScan 0).set8 .qndRSSIns 60

/-- A seek from 8810 finds it at once. -/
theorem station_reported : ∃ w₁ r, r.ret = 8810 ∧
    Runs stationedChip.env (qn8006UnlockedIoctl 0 (.rxseekch ⟨8810, 10790, 2, 0, 0, 0⟩)) ⟨measured, (0, 0)⟩ (.seek r) w₁ ∧
    Achieves stationedChip.env (qn8006UnlockedIoctl 0 .getFq) (fun reply _ => reply = .int 8810) w₁ := by
  have done : (exec stationedChip.env 3 (qn8006UnlockedIoctl 0 (.rxseekch ⟨8810, 10790, 2, 0, 0, 0⟩))
      ⟨measured, (0, 0)⟩).map (fun r => r.1) = some (.seek ⟨8810, 10790, 2, 0, 0, 8810⟩) := by decide +kernel
  obtain ⟨reply, w₁, seek, same⟩ := exec_observe 3 _ done
  dsimp only at same
  subst same
  have start : OnGrid (ushort 8810) := ⟨⟨by decide, by decide⟩, by decide⟩
  have stop : OnGrid (ushort 10790) := ⟨⟨by decide, by decide⟩, by decide⟩
  refine ⟨w₁, _, rfl, seek, ?_⟩
  exact sought_reported stationedChip_channel rfl start stop (by decide) seek (.nil w₁) (by simp)

/-- A scan of a short range lists what it hears. -/
theorem stations_reported : ∃ w₁ r, Runs stationedChip.env
      (qn8006UnlockedIoctl 0 (.rxseekchall ⟨8810, 8850, 2, 0, 0, 0⟩)) ⟨measured, (0, 0)⟩ (.seek r) w₁ ∧
    (ushort r.ret).toNat = 3 ∧ (ushort r.ret).toNat = w₁.globals.channels.length ∧
    Achieves stationedChip.env (qn8006UnlockedIoctl 0 .getFq) (fun reply _ => reply = .int 8810) w₁ := by
  have done : (exec stationedChip.env 9 (qn8006UnlockedIoctl 0 (.rxseekchall ⟨8810, 8850, 2, 0, 0, 0⟩))
      ⟨measured, (0, 0)⟩).map (fun r => (r.1, r.2.globals.channels)) =
      some (.seek ⟨8810, 8850, 2, 0, 0, 3⟩, [8810, 8830, 8850]) := by decide +kernel
  obtain ⟨reply, w₁, scan, seen⟩ := exec_observe 9 _ done
  obtain ⟨same, listed⟩ := Prod.mk.inj seen
  subst same
  have reports : _ ∧ Achieves stationedChip.env (qn8006UnlockedIoctl 0 .getFq) _ w₁ :=
    scanned_reported stationedChip_channel scan (.nil w₁) (by simp)
  obtain ⟨count, told⟩ := reports
  rw [listed] at told
  exact ⟨w₁, _, scan, by decide, count, told⟩

end Yika.Fm
