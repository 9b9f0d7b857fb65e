import Yika.Fm.FloorUpdate

/-! The receive and the transmit request of SYSTEM1. Every command acts on the pair of
request bits as a function of its argument, of the pair before it, of `qnd_PrevMode` and of
`qnd_FirstScan`; the commands that can leave both bits set are read off that function. -/

namespace Yika.Fm
open Program

def requestMask : UINT8 := RXREQ ||| TXREQ

section
variable {κ : Type} {b : Board κ} {sys1 : κ → UINT8} {w w' : Machine κ}

def requests (sys1 : κ → UINT8) (w : Machine κ) : UINT8 := sys1 w.world &&& requestMask

theorem requests_held : requests sys1 w = held CHSC sys1 w &&& requestMask :=
  (keep_mask (by decide) _).symm

theorem requests_of_held {s : UINT8} (same : held CHSC sys1 w = s &&& ~~~CHSC) :
    requests sys1 w = s &&& requestMask := by
  rw [requests_held, same]
  exact keep_mask (by decide) s

theorem requests_write (chip : HoldsSystem1 b CHSC sys1) (value : UINT8) :
    requests sys1 (w.after b (.writeReg SYSTEM1 value)) = value &&& requestMask :=
  requests_of_held (held_write chip value)

theorem requests_after (chip : HoldsSystem1 b CHSC sys1) {e : Ext}
    (other : ∀ value, e ≠ .writeReg SYSTEM1 value) :
    requests sys1 (w.after b e) = requests sys1 w := by
  rw [requests_held, held_after chip other, ← requests_held]

theorem requests_readReg (chip : HoldsSystem1 b CHSC sys1) (adr : UINT8) :
    requests sys1 (w.after b (.readReg adr)) = requests sys1 w :=
  requests_after chip (fun _ same => by cases same)

theorem requests_writeReg (chip : HoldsSystem1 b CHSC sys1) {adr value : UINT8}
    (other : adr ≠ SYSTEM1) : requests sys1 (w.after b (.writeReg adr value)) = requests sys1 w :=
  requests_after chip (fun _ same => by cases same; exact other rfl)

theorem requests_kept (chip : HoldsSystem1 b CHSC sys1) {regs : List UINT8} {bytes : Set Var8}
    {halves : Set Var16} {α : Type} {p : Drv α} (uses : Uses (Writes regs bytes halves) p)
    (other : SYSTEM1 ∉ regs) : Keeps b.env (requests sys1) p := by
  intro w _ w' run
  rw [requests_held, held_kept chip uses other run, ← requests_held]

theorem requests_transmit : requests sys1 w &&& TXREQ = sys1 w.world &&& TXREQ := by
  rw [requests, BitVec.and_assoc]
  rfl

theorem qnfSetRegBit_requests (chip : HoldsSystem1 b CHSC sys1) (bitMask dataVal : UINT8) :
    Ensures b.env (qnfSetRegBit SYSTEM1 bitMask dataVal) (fun _ w' =>
      requests sys1 w' =
        ((requests sys1 w &&& ~~~bitMask) ||| (dataVal &&& bitMask)) &&& requestMask) w := by
  simp only [qnfSetRegBit, ensures_bind, ensures_readReg, ensures_writeReg, chip.read,
    requests_write chip]
  exact (mask_read _ _ _ _).symm

theorem qnfSetRegBit_apart (chip : HoldsSystem1 b CHSC sys1) {bitMask : UINT8} (dataVal : UINT8)
    (apart : bitMask &&& requestMask = 0) :
    Keeps b.env (requests sys1) (qnfSetRegBit SYSTEM1 bitMask dataVal) := by
  intro w
  refine (qnfSetRegBit_requests chip bitMask dataVal).mono ?_
  intro _ w' same
  rw [same, mask_outside apart, requests, BitVec.and_assoc, BitVec.and_self]

theorem qnfSetRegBit_inside (chip : HoldsSystem1 b CHSC sys1) {bitMask : UINT8} (dataVal : UINT8)
    (inside : bitMask &&& requestMask = requestMask) :
    Ensures b.env (qnfSetRegBit SYSTEM1 bitMask dataVal) (fun _ w' =>
      requests sys1 w' = dataVal &&& requestMask) w := by
  refine (qnfSetRegBit_requests chip bitMask dataVal).mono ?_
  intro _ w' same
  rw [same, mask_inside inside]

theorem qnfSetRegBit_receive (chip : HoldsSystem1 b CHSC sys1) {dataVal : UINT8}
    (seek : dataVal = 0x81 ∨ dataVal = 0xA0) :
    Ensures b.env (qnfSetRegBit SYSTEM1 0xA1 dataVal) (fun _ w' =>
      requests sys1 w' = RXREQ ||| (requests sys1 w &&& TXREQ)) w := by
  have bits : ∀ d : UINT8,
      ((d &&& ~~~0xA1) ||| (0x81 &&& 0xA1)) &&& requestMask = RXREQ ||| (d &&& TXREQ) ∧
      ((d &&& ~~~0xA1) ||| (0xA0 &&& 0xA1)) &&& requestMask = RXREQ ||| (d &&& TXREQ) := by
    decide +kernel
  refine (qnfSetRegBit_requests chip 0xA1 dataVal).mono ?_
  intro _ w' same
  rw [same]
  rcases seek with rfl | rfl
  · exact (bits _).1
  · exact (bits _).2

/-! The functions that change the working mode or scan. -/

theorem workingMode_requests (val s : UINT8) :
    workingMode val s &&& requestMask = val &&& requestMask := by
  have inside (x : UINT8) : x &&& R_TXRX_MASK &&& requestMask = x &&& requestMask := by
    rw [BitVec.and_assoc]
    rfl
  calc workingMode val s &&& requestMask
      = workingMode val s &&& R_TXRX_MASK &&& requestMask := (inside _).symm
    _ = val &&& R_TXRX_MASK &&& requestMask := by rw [workingMode_bits]
    _ = val &&& requestMask := inside val

theorem qndSetSysMode_requests (chip : HoldsSystem1 b CHSC sys1) (mode : UINT16) :
    Ensures b.env (qndSetSysMode mode) (fun _ w' =>
      w'.globals.byte .qndPrevMode = (modeStep mode (modeState sys1 w)).prevMode ∧
      requests sys1 w' = (modeStep mode (modeState sys1 w)).sys1 &&& requestMask) w := by
  refine (qndSetSysMode_refines chip (by decide) mode).mono ?_
  intro _ w' given
  obtain ⟨prev, sys⟩ := given
  exact ⟨prev, requests_of_held sys⟩

theorem requests_modeBits : requests sys1 w = modeBits sys1 w &&& requestMask := by
  rw [requests, modeBits, BitVec.and_assoc]
  rfl

theorem qndGetRSSI_requests (chip : HoldsSystem1 b CHSC sys1) (ch : UINT16) :
    Ensures b.env (qndGetRSSI ch) (fun _ w' => requests sys1 w' = RXREQ) w := by
  intro _ w' run
  rw [requests_modeBits, qndGetRSSI_receives chip (by decide) ch _ w' run]
  rfl

theorem qndTXClearChannelScan_requests (chip : HoldsSystem1 b CHSC sys1) (start stop : UINT16)
    (step db : UINT8) :
    Ensures b.env (qndTXClearChannelScan start stop step db) (fun _ w' =>
      requests sys1 w' = TXREQ) w := by
  have poll : Uses (WritesRegs []) (Prog.doWhile pollClearChannel ()) := by
    simp [pollClearChannel, Writes]
  simp only [qndTXClearChannelScan, ensures_bind]
  intro _ w₁ _ _ w₂ _ _ w₃ run₃ _ w₄ run₄ _ w₅ run₅
  have scan := qnfSetRegBit_inside chip 0x60 (by decide) () w₃ run₃
  have polled := requests_kept chip poll (by decide) w₃ _ w₄ run₄
  have read := requests_kept chip qnfGetCh_writes (by decide) w₄ _ w₅ run₅
  rw [read, polled, scan]
  rfl

/-- What the noise-floor update makes of the requests: the look at the clear channel, which
all but the first update take, leaves the chip receiving. -/
def updated (first d : UINT8) : UINT8 := if first = 0 then RXREQ else d

theorem qndUpdateRSSIn_requests (chip : HoldsSystem1 b CHSC sys1) (ch : UINT16) :
    Ensures b.env (qndUpdateRSSIn ch) (fun _ w' =>
      requests sys1 w' = updated (w.globals.byte .qndFirstScan) (requests sys1 w)) w := by
  intro _ w' run
  rw [requests_modeBits, qndUpdateRSSIn_modeBits chip (by decide) ch () w' run, updated]
  split
  next => rfl
  next => exact requests_modeBits.symm

theorem qndTuneToCH_requests (chip : HoldsSystem1 b CHSC sys1) (ch : UINT16) :
    Keeps b.env (requests sys1) (qndTuneToCH ch) := by
  have set (reg bitMask dataVal : UINT8) (other : SYSTEM1 ∉ [reg]) :
      Keeps b.env (requests sys1) (qnfSetRegBit reg bitMask dataVal) :=
    requests_kept chip (qnfSetRegBit_writes reg bitMask dataVal) other
  have read (adr : UINT8) : Keeps b.env (requests sys1) (readReg adr) :=
    fun w => ensures_readReg.mpr (requests_readReg chip adr)
  have mute (on : Bool) : Keeps b.env (requests sys1) (qnfSetMute on) :=
    requests_kept chip (qnfSetMute_writes on) (by decide)
  have tune : Keeps b.env (requests sys1) (qnfSetCh ch) :=
    requests_kept chip (qnfSetCh_writes ch) (by decide)
  have idle : Keeps b.env (requests sys1) (qnfSetRegBit SYSTEM1 CCA_CH_DIS CCA_CH_DIS) :=
    qnfSetRegBit_apart chip CCA_CH_DIS (by decide)
  apply (requests_kept chip qnfRXInit_writes (by decide)).bind
  intro _
  refine (read SYSTEM1).bind fun sys => keeps_ite (idle.bind fun _ => tune) ?_
  refine (mute true).bind fun _ => ?_
  apply (keeps_ite (set _ _ _ (by decide)) (set _ _ _ (by decide))).bind
  intro _
  refine tune.bind fun _ => idle.bind fun _ => (read SYSTEM2).bind fun sys2 => ?_
  exact (set _ _ _ (by decide)).bind fun _ => mute false

theorem received_transmit (d : UINT8) : (RXREQ ||| (d &&& TXREQ)) &&& TXREQ = d &&& TXREQ := by
  revert d
  decide +kernel

theorem checkChannel_requests (chip : HoldsSystem1 b CHSC sys1) (start : UINT16)
    (step db minrssi rssi : UINT8) :
    Ensures b.env (checkChannel start step db minrssi rssi) (fun _ w' =>
      requests sys1 w' = RXREQ ||| (requests sys1 w &&& TXREQ)) w := by
  have scan := requests_kept (b := b) chip (qnfConfigScan_writes start start step) (by decide)
  have wait : Keeps b.env (requests sys1) (Prog.doWhile pollScan 0) := by
    refine keeps_doWhile (fun timeout => ?_) 0
    have poll : Uses (WritesRegs []) (pollScan timeout) := by simp [pollScan, Writes]
    exact requests_kept chip poll (by decide)
  simp only [checkChannel, ensures_bind, ensures_writeReg]
  intro _ w₁ run₁ _ w₂ run₂ timeout w₃ run₃ _ w' run
  have set := qnfSetRegBit_receive chip (.inr rfl) () w₂ run₂
  rw [requests_writeReg chip (by decide), scan w () w₁ run₁] at set
  have judged := requests_kept chip (judgeChannel_writes db minrssi rssi timeout) (by decide)
  rw [judged w₃ _ w' run, wait w₂ timeout w₃ run₃, set]

theorem seekTest_requests (chip : HoldsSystem1 b CHSC sys1) (start : UINT16) (step db : UINT8) :
    Ensures b.env (seekTest start step db) (fun _ w' =>
      requests sys1 w' = RXREQ ||| (requests sys1 w &&& TXREQ)) w := by
  have image : Keeps b.env (requests sys1) (if imageChannel start
      then qnfSetRegBit TXAGC_GAIN IMR IMR else qnfSetRegBit TXAGC_GAIN IMR 0) :=
    keeps_ite (requests_kept chip (qnfSetRegBit_writes _ _ _) (by decide))
      (requests_kept chip (qnfSetRegBit_writes _ _ _) (by decide))
  have before : Keeps b.env (requests sys1) (qnfGetRSSIn start) :=
    requests_kept chip (qnfGetRSSIn_writes start) (by decide)
  have tune : Keeps b.env (requests sys1) (qnfSetCh start) :=
    requests_kept chip (qnfSetCh_writes start) (by decide)
  simp only [seekTest, ensures_bind]
  intro minrssi w₁ run₁ _ w₂ run₂ _ w₃ run₃ _ w₄ run₄
  have received := qnfSetRegBit_receive chip (.inl rfl) () w₄ run₄
  rw [image w₂ () w₃ run₃, tune w₁ () w₂ run₂, before w minrssi w₁ run₁] at received
  simp only [qndDelay_eq, ensures_pure, ensures_readReg, ensures_ite]
  constructor
  · intro _
    refine (checkChannel_requests chip start step db minrssi _).mono ?_
    intro _ w' checked
    rw [checked, requests_readReg chip, received, received_transmit]
  · intro _
    rw [requests_readReg chip, received]

theorem seekRound_requests (chip : HoldsSystem1 b CHSC sys1) (stop : UINT16) (step db : UINT8)
    (up : Bool) (stepvalue : UINT8) (start : UINT16) :
    Ensures b.env (seekRound stop step db up stepvalue start) (fun _ w' =>
      requests sys1 w' = RXREQ ||| (requests sys1 w &&& TXREQ)) w := by
  simp only [seekRound, ensures_bind]
  intro accepted w₁ run₁ out w' run
  have next := requests_kept chip (seekNext_writes stop up stepvalue start accepted) (by decide)
  rw [next w₁ out w' run, seekTest_requests chip start step db accepted w₁ run₁]

theorem seekLoop_requests (chip : HoldsSystem1 b CHSC sys1) (stop : UINT16) (step db : UINT8)
    (up : Bool) (stepvalue : UINT8) (start : UINT16) :
    Ensures b.env (Prog.doWhile (seekRound stop step db up stepvalue) start) (fun _ w' =>
      requests sys1 w' = RXREQ ||| (requests sys1 w &&& TXREQ)) w := by
  -- TXREQ is what every turn keeps, and each turn sets RXREQ
  refine ensures_doWhile (fun _ w₁ => requests sys1 w₁ &&& TXREQ = requests sys1 w &&& TXREQ) ?_ rfl
  intro x w₁ same turn w' run
  have received := seekRound_requests chip stop step db up stepvalue x turn w' run
  rw [same] at received
  cases turn with
  | inl y =>
    rw [Sum.elim_inl, received, received_transmit]
  | inr out => exact received

/-- What a seek makes of the requests, from `qnd_AutoScanAll` and `qnd_FirstScan`. -/
def sought (all first d : UINT8) : UINT8 :=
  RXREQ ||| ((if all = 0 then updated first d else d) &&& TXREQ)

theorem gain_requests (chip : HoldsSystem1 b CHSC sys1) :
    Keeps b.env (requests sys1) (qnfSetRegBit GAIN_SEL 0x38 0x38) :=
  requests_kept chip (qnfSetRegBit_writes GAIN_SEL 0x38 0x38) (by decide)

theorem mute_requests (chip : HoldsSystem1 b CHSC sys1) (on : Bool) :
    Keeps b.env (requests sys1) (qnfSetMute on) :=
  requests_kept chip (qnfSetMute_writes on) (by decide)

theorem qndRXSeekCH_requests (chip : HoldsSystem1 b CHSC sys1) (start stop : UINT16)
    (step db up : UINT8) :
    Ensures b.env (qndRXSeekCH start stop step db up) (fun _ w' => requests sys1 w' =
      sought (w.globals.byte .qndAutoScanAll) (w.globals.byte .qndFirstScan)
        (requests sys1 w)) w := by
  have table (i : UINT8) : Keeps b.env (requests sys1) (stepTbl i) :=
    fun w => ensures_stepTbl.mpr rfl
  have update : Ensures b.env (do
      qnfSetMute true
      qnfSetRegBit GAIN_SEL 0x38 0x38
      qndUpdateRSSIn 0)
      (fun _ w' => requests sys1 w' = updated (w.globals.byte .qndFirstScan) (requests sys1 w)) w := by
    simp only [ensures_bind]
    intro _ w₁ muted _ w₂ gained
    refine (qndUpdateRSSIn_requests chip 0).mono ?_
    intro _ w' updates
    rw [updates, gain_requests chip w₁ () w₂ gained, mute_requests chip true w () w₁ muted,
      globals_kept (qnfSetRegBit_writes _ _ _) gained, globals_kept (qnfSetMute_writes _) muted]
  simp only [qndRXSeekCH, ensures_bind, ensures_load8, ensures_pure]
  intro _ w₁ prepared stepvalue w₂ run₂ chfreq w₃ sweep
  have floor : requests sys1 w₁ = if w.globals.byte .qndAutoScanAll = 0
      then updated (w.globals.byte .qndFirstScan) (requests sys1 w) else requests sys1 w := by
    rw [runs_when] at prepared
    by_cases single : w.globals.byte .qndAutoScanAll = 0
    · rw [if_pos single] at prepared ⊢
      exact update () w₁ prepared
    · rw [if_neg single] at prepared ⊢
      rw [prepared]
  have found : requests sys1 w₃ = sought (w.globals.byte .qndAutoScanAll)
      (w.globals.byte .qndFirstScan) (requests sys1 w) := by
    rw [seekLoop_requests chip stop step db _ stepvalue start chfreq w₃ sweep,
      table step w₁ stepvalue w₂ run₂, floor]
    rfl
  intro _ w' tuned
  have final : Keeps b.env (requests sys1) (Prog.when (w₃.globals.byte .qndAutoScanAll = 0)
      (qndTuneToCH (if chfreq = 0 then stop else chfreq))) :=
    keeps_when (qndTuneToCH_requests chip _)
  rw [final w₃ () w' tuned, found]

theorem seekAllPrepare_requests (chip : HoldsSystem1 b CHSC sys1) (step : UINT8) :
    Ensures b.env (seekAllPrepare step) (fun _ w' =>
      w'.globals.byte .qndAutoScanAll = 1 ∧
      requests sys1 w' = updated (w.globals.byte .qndFirstScan) (requests sys1 w)) w := by
  simp only [seekAllPrepare, ensures_bind, ensures_store8, ensures_stepTbl, ensures_pure]
  intro _ w₁ muted _ w₂ gained _ w₃ updates
  have globals₁ := globals_kept (qnfSetMute_writes true) muted
  have globals₂ := globals_kept (qnfSetRegBit_writes GAIN_SEL 0x38 0x38) gained
  have floor := qndUpdateRSSIn_requests chip 0 () w₃ updates
  have scanning : w₃.globals.byte .qndAutoScanAll = 1 := by
    have outside : Var8.qndAutoScanAll ∉ updateBytes := by simp [updateBytes, floorBytes]
    rw [byte_kept (qndUpdateRSSIn_writes 0) updates outside, globals₂]
    simp
  have first : w₂.globals.byte .qndFirstScan = w.globals.byte .qndFirstScan := by
    rw [globals₂]
    simp [globals₁]
  have before : requests sys1 w₂ = requests sys1 w := by
    rw [gain_requests chip _ () w₂ gained]
    exact mute_requests chip true w () w₁ muted
  rw [first, before] at floor
  exact ⟨by simpa using scanning, floor⟩

theorem seekAllRound_requests (chip : HoldsSystem1 b CHSC sys1) (pStop : UINT16)
    (step db up stepvalue : UINT8) (pStart : UINT16)
    (scanning : w.globals.byte .qndAutoScanAll = 1) :
    Ensures b.env (seekAllRound pStop step db up stepvalue pStart) (fun _ w' =>
      w'.globals.byte .qndAutoScanAll = 1 ∧
      requests sys1 w' = RXREQ ||| (requests sys1 w &&& TXREQ)) w := by
  have outside : Var8.qndAutoScanAll ∉ updateBytes := by simp [updateBytes, floorBytes]
  have append : ∀ temp, Uses (Writes [] {.qndChCount} {v | ∃ i, v = .qndChList i})
      (Prog.when (temp ≠ 0) (appendChannel temp)) := by
    simp [appendChannel, Writes]
  simp only [seekAllRound, ensures_bind]
  intro temp w₁ seek _ w₂ appended
  have sought₁ := qndRXSeekCH_requests chip pStart pStop step db up temp w₁ seek
  have kept := requests_kept chip (append temp) (by decide) w₁ () w₂ appended
  have scanning₂ : w₂.globals.byte .qndAutoScanAll = 1 := by
    rw [byte_kept (append temp) appended (by simp),
      byte_kept (qndRXSeekCH_writes _ _ _ _ _) seek outside, scanning]
  have receiving : requests sys1 w₂ = RXREQ ||| (requests sys1 w &&& TXREQ) := by
    rw [kept, sought₁, scanning]
    rfl
  simp only [ensures_ite, ensures_bind, ensures_load8, ensures_pure]
  exact ⟨fun _ => ⟨fun _ => ⟨scanning₂, receiving⟩, fun _ => ⟨scanning₂, receiving⟩⟩,
    fun _ => ⟨scanning₂, receiving⟩⟩

theorem qndRXSeekCHAll_requests (chip : HoldsSystem1 b CHSC sys1) (start stop : UINT16)
    (step db up : UINT8) :
    Ensures b.env (qndRXSeekCHAll start stop step db up) (fun _ w' =>
      w'.globals.byte .qndAutoScanAll = 0 ∧
      requests sys1 w' = sought 0 (w.globals.byte .qndFirstScan) (requests sys1 w)) w := by
  have limit : Uses (WritesRegs []) (stopInRange stop) := by simp [stopInRange, Writes]
  have head (pStop : UINT16) : Uses (WritesRegs []) (firstChannel pStop) := by
    simp [firstChannel, Writes]
  simp only [qndRXSeekCHAll, ensures_bind]
  intro pStop w₁ run₁ stepvalue w₂ prepared _ w₃ sweep ch w₄ run₄ _ w₅ tuned
  obtain ⟨scanning, floor⟩ := seekAllPrepare_requests chip step stepvalue w₂ prepared
  have swept : Ensures b.env
      (Prog.doWhile (seekAllRound pStop step db (if start < stop then 1 else 0) stepvalue) start)
      (fun _ w' => requests sys1 w' = RXREQ ||| (requests sys1 w₂ &&& TXREQ)) w₂ := by
    refine ensures_doWhile (fun _ w => w.globals.byte .qndAutoScanAll = 1 ∧
      requests sys1 w &&& TXREQ = requests sys1 w₂ &&& TXREQ) ?_ ⟨scanning, rfl⟩
    intro x w given turn w' run
    obtain ⟨scanning, same⟩ := given
    obtain ⟨scanning', received⟩ :=
      seekAllRound_requests chip pStop step db _ stepvalue x scanning turn w' run
    rw [same] at received
    cases turn with
    | inl y => exact ⟨scanning', by rw [received, received_transmit]⟩
    | inr out => exact received
  simp only [ensures_store8]
  intro _ w₆ unmuted
  simp only [ensures_load8]
  constructor
  · rw [globals_kept (qnfSetMute_writes false) unmuted]
    simp
  · rw [mute_requests chip false _ () w₆ unmuted]
    have same : requests sys1 w₅ = RXREQ ||| (requests sys1 w₂ &&& TXREQ) := by
      rw [qndTuneToCH_requests chip ch w₄ () w₅ tuned,
        requests_kept chip (head pStop) (by decide) w₃ ch w₄ run₄, swept () w₃ sweep]
    have first : w₁.globals.byte .qndFirstScan = w.globals.byte .qndFirstScan := by
      rw [globals_kept limit run₁]
    rw [first, requests_kept chip limit (by decide) w pStop w₁ run₁] at floor
    change requests sys1 w₅ = _
    rw [same, floor]
    rfl

theorem qndRDSEnable_requests (chip : HoldsSystem1 b CHSC sys1) (on : UINT8) :
    Keeps b.env (requests sys1) (qndRDSEnable on) := by
  have rds (s : UINT8) : (s ||| RDSEN) &&& requestMask = s &&& requestMask ∧
      (s &&& ~~~RDSEN) &&& requestMask = s &&& requestMask := by
    revert s
    decide +kernel
  intro w
  simp only [qndRDSEnable, ensures_bind, ensures_readReg, chip.read, ensures_ite, ensures_writeReg,
    ensures_pure]
  refine ⟨fun _ => ?_, fun _ => ⟨fun _ => ?_, fun _ => requests_readReg chip SYSTEM1⟩⟩
  · intro _ w₁ _
    rw [requests_write chip]
    exact (rds (sys1 w.world)).1
  · intro _ w₁ _
    rw [requests_write chip]
    exact (rds (sys1 w.world)).2

theorem qndInit_requests (chip : HoldsSystem1 b CHSC sys1) :
    Ensures b.env qndInit (fun _ w' => requests sys1 w' = 0) w := by
  simp only [qndInit, ensures_bind]
  intro _ w₁ _ _ w₂ _ _ w₃ _
  simp only [ensures_writeReg]
  intro _ w₄ muted
  simp only [ensures_pure]
  rw [mute_requests chip false _ () w₄ muted]
  exact requests_write chip 0x01

end

/-! The commands. -/

/-- What a command makes of the requests `d`, from `qnd_PrevMode` and `qnd_FirstScan`, when
no scan of all channels is under way. -/
def Ioctl.requests (prev first d : UINT8) : Ioctl → UINT8
  | .setsysMode sysMode =>
    let mode := ushort sysMode
    if mode = 0 then 0
    else if mode = 1 then prev &&& requestMask
    else if mode = 2 ∨ mode >>> 8 = 0 then d
    else (mode >>> 8).setWidth 8 &&& requestMask
  | .init => 0
  | .getRssi _ => RXREQ
  | .rxseekchall _ | .rxseekch _ => sought 0 first d
  | .txclearchscan _ => TXREQ
  | .setFq _ | .getFq | .transmit | .setPower _ | .getPower | .audioMode _ | .audioConfig _
  | .setCspin _ | .rdsenable _ | .getRdssignal | .getIsbufready | .rdsloaddata _
  | .setCountry _ | .cfgfmmod _ | .loaddftsetting _ | .powerEnable _ => d

section
variable {κ : Type} {b : Board κ} {sys1 : κ → UINT8} {w w' : Machine κ}

def copied (b : Board κ) (w : Machine κ) : Ioctl → Bool
  | .init | .getFq | .transmit | .getPower | .getRdssignal | .getIsbufready => true
  | .setFq _ | .setPower _ | .audioMode _ | .audioConfig _ | .setsysMode _ | .setCspin _
  | .getRssi _ | .rxseekchall _ | .rxseekch _ | .rdsenable _ | .rdsloaddata _ | .setCountry _
  | .cfgfmmod _ | .loaddftsetting _ | .txclearchscan _ | .powerEnable _ =>
    (b.respond .copyFromUser w.world).1

theorem copyFromUser_requests (chip : HoldsSystem1 b CHSC sys1) :
    requests sys1 (w.after b .copyFromUser) = requests sys1 w :=
  requests_after chip (fun _ same => by cases same)

theorem toUser_requests (chip : HoldsSystem1 b CHSC sys1) (reply : Reply) :
    Keeps b.env (requests sys1) (toUser reply) :=
  requests_kept chip (toUser_quiet reply) (by decide)

theorem fromUser_requests (chip : HoldsSystem1 b CHSC sys1) {command : Drv Reply} {d : UINT8}
    (body : ∀ w₁ : Machine κ, w₁.globals = w.globals → requests sys1 w₁ = requests sys1 w →
      Ensures b.env command (fun _ w' => requests sys1 w' = d) w₁) :
    Ensures b.env (fromUser command) (fun _ w' => requests sys1 w' =
      if (b.respond .copyFromUser w.world).1 then d else requests sys1 w) w := by
  rw [ensures_fromUser]
  split
  next => exact body _ rfl (copyFromUser_requests chip)
  next => exact copyFromUser_requests chip

theorem setsysMode_requests (chip : HoldsSystem1 b CHSC sys1) (sysMode : INT) :
    Ensures b.env (qndSetSysMode (ushort sysMode)) (fun _ w' => requests sys1 w' =
      (Ioctl.setsysMode sysMode).requests (w.globals.byte .qndPrevMode)
        (w.globals.byte .qndFirstScan) (requests sys1 w)) w := by
  refine (qndSetSysMode_requests chip (ushort sysMode)).mono ?_
  intro _ w' given
  obtain ⟨_, same⟩ := given
  rw [same]
  simp only [Ioctl.requests, modeStep]
  split
  next => exact mask_inside (by decide) (sys1 w.world) STNBY
  next =>
    split
    next => rfl
    next =>
      split
      next => rfl
      next => exact workingMode_requests _ _

theorem ioctl_requests (chip : HoldsSystem1 b CHSC sys1)
    (idle : w.globals.byte .qndAutoScanAll = 0) (stackPower : INT) (cmd : Ioctl) :
    Ensures b.env (qn8006UnlockedIoctl stackPower cmd) (fun _ w' => requests sys1 w' =
      if copied b w cmd then
        cmd.requests (w.globals.byte .qndPrevMode) (w.globals.byte .qndFirstScan) (requests sys1 w)
      else requests sys1 w) w := by
  have others (other : SYSTEM1 ∉ cmd.regs) (same : ∀ prev first d, cmd.requests prev first d = d) :
      Ensures b.env (qn8006UnlockedIoctl stackPower cmd) (fun _ w' => requests sys1 w' =
        if copied b w cmd then cmd.requests (w.globals.byte .qndPrevMode)
          (w.globals.byte .qndFirstScan) (requests sys1 w)
        else requests sys1 w) w := by
    rw [same, ite_self]
    exact requests_kept chip (qn8006UnlockedIoctl_writes stackPower cmd) other w
  cases cmd with
  | setFq frequency =>
    apply fromUser_requests chip
    intro w₁ _ same
    simp only [ensures_bind, ensures_pure]
    exact (qndTuneToCH_requests chip _ w₁).mono (fun _ _ kept => kept.trans same)
  | setsysMode sysMode =>
    apply fromUser_requests chip
    intro w₁ globals₁ same
    simp only [ensures_bind, ensures_pure]
    rw [← globals₁, ← same]
    exact setsysMode_requests chip sysMode
  | init =>
    simp only [qn8006UnlockedIoctl, ensures_bind, ensures_pure]
    exact qndInit_requests chip
  | getRssi rssi =>
    apply fromUser_requests chip
    intro w₁ _ _
    simp only [ensures_bind]
    refine (qndGetRSSI_requests chip _).mono fun value w₂ received => ?_
    exact (toUser_requests chip _ w₂).mono (fun _ _ kept => kept.trans received)
  | rxseekchall rscall =>
    apply fromUser_requests chip
    intro w₁ globals₁ same
    rw [← globals₁, ← same]
    simp only [ensures_bind]
    refine (qndRXSeekCHAll_requests chip _ _ _ _ _).mono fun ret w₂ found => ?_
    exact (toUser_requests chip _ w₂).mono (fun _ _ kept => kept.trans found.2)
  | rxseekch rsc =>
    apply fromUser_requests chip
    intro w₁ globals₁ same
    rw [← globals₁] at idle ⊢
    rw [← same]
    simp only [ensures_bind]
    refine (qndRXSeekCH_requests chip _ _ _ _ _).mono fun ret w₂ found => ?_
    rw [idle] at found
    exact (toUser_requests chip _ w₂).mono (fun _ _ kept => kept.trans found)
  | rdsenable rdsen =>
    apply fromUser_requests chip
    intro w₁ _ same
    simp only [ensures_bind, ensures_pure]
    exact (qndRDSEnable_requests chip _ w₁).mono (fun _ _ kept => kept.trans same)
  | txclearchscan clCHscan =>
    apply fromUser_requests chip
    intro w₁ _ _
    simp only [ensures_bind]
    refine (qndTXClearChannelScan_requests chip _ _ _ _).mono fun ret w₂ found => ?_
    exact (toUser_requests chip _ w₂).mono (fun _ _ kept => kept.trans found)
  | getFq | transmit | setPower | getPower | audioMode | audioConfig | setCspin | getRdssignal
  | getIsbufready | rdsloaddata | setCountry | cfgfmmod | loaddftsetting | powerEnable =>
    exact others (by simp only [Ioctl.regs]; decide) (fun _ _ _ => rfl)

end

/-- A chip with the one register SYSTEM1, which ends a scan once it has been seen running. -/
def scanningChip : Board UINT8 where
  respond
    | .readReg adr, s => if adr = SYSTEM1 then (s, s &&& ~~~CHSC) else (0, s)
    | .writeReg adr value, s => ((), if adr = SYSTEM1 then value else s)
    | .copyFromUser, s => (true, s)
    | .copyToUser, s => (true, s)
    | .peek _, s => (0, s)
    | .callBack _ _, s => ((), s)
    | .gpioMode _ _, s => ((), s)
    | .gpioDir _ _, s => ((), s)
    | .gpioOut _ _, s => ((), s)
    | .hwPower _, s => ((), s)
    | .poke _ _, s => ((), s)
    | .getIntArrayRegion _ _ _, s => ((), s)
  beyond _ := 0

theorem scanningChip_holds : HoldsSystem1 scanningChip CHSC id where
  read _ := rfl
  write _ _ := .inl rfl
  keep e k other := by
    cases e with
    | readReg adr =>
      by_cases system : adr = SYSTEM1
      · subst system
        exact .inr rfl
      · left
        simp [scanningChip, system]
    | writeReg adr value =>
      have different : adr ≠ SYSTEM1 := fun same => other value (by rw [same])
      exact .inl (if_neg different)
    | _ => exact .inl rfl

/-! Sessions. -/

def Exclusive (s : UINT8) : Prop := ¬(s &&& RXREQ = RXREQ ∧ s &&& TXREQ = TXREQ)
deriving Decidable

theorem exclusive_requests (s : UINT8) : Exclusive s ↔ Exclusive (s &&& requestMask) := by
  revert s
  decide +kernel

/-- SLEEP, WAKEUP, DEFAULT, RX|FM and TX|FM. -/
def Documented : Ioctl → Prop
  | .setsysMode sysMode => ushort sysMode ∈ ([0, 1, 2, 0x8000, 0x4000] : List UINT16)
  | _ => True

section
variable {κ : Type} {b : Board κ} {sys1 : κ → UINT8} {w w' : Machine κ} {cmd : Ioctl}

/-- A seek that runs is not the first scan, or TXREQ is clear when it is issued. -/
def SeekReady (b : Board κ) (sys1 : κ → UINT8) (w : Machine κ) : Ioctl → Prop
  | .rxseekchall _ | .rxseekch _ => (b.respond .copyFromUser w.world).1 = true →
    w.globals.byte .qndFirstScan = 0 ∨ sys1 w.world &&& TXREQ = 0
  | _ => True

/-- Between two commands: the requests are exclusive, in SYSTEM1 and in the mode that SLEEP
saved, and no scan of all channels is under way. -/
structure Resting (sys1 : κ → UINT8) (w : Machine κ) : Prop where
  exclusive : Exclusive (sys1 w.world)
  saved : Exclusive (w.globals.byte .qndPrevMode)
  idle : w.globals.byte .qndAutoScanAll = 0

theorem IoctlStep.requests_eq (step : IoctlStep b w cmd w') (chip : HoldsSystem1 b CHSC sys1)
    (idle : w.globals.byte .qndAutoScanAll = 0) :
    requests sys1 w' = if copied b w cmd then cmd.requests (w.globals.byte .qndPrevMode)
      (w.globals.byte .qndFirstScan) (requests sys1 w) else requests sys1 w := by
  obtain ⟨stackPower, reply, run⟩ := step
  exact ioctl_requests chip idle stackPower cmd reply w' run

/-- SLEEP saves the working mode, and nothing else touches the saved mode. -/
theorem IoctlStep.saved (step : IoctlStep b w cmd w') (chip : HoldsSystem1 b CHSC sys1)
    (resting : Resting sys1 w) : Exclusive (w'.globals.byte .qndPrevMode) := by
  by_cases outside : Var8.qndPrevMode ∈ cmd.bytes
  · obtain ⟨stackPower, reply, run⟩ := step
    cases cmd with
    | setsysMode sysMode =>
      have sleep : ushort sysMode = 0 := outside.1
      have whole : Ensures b.env (qn8006UnlockedIoctl stackPower (.setsysMode sysMode))
          (fun _ w' => Exclusive (w'.globals.byte .qndPrevMode)) w := by
        simp only [qn8006UnlockedIoctl, ensures_fromUser]
        split
        next =>
          simp only [ensures_bind, ensures_pure]
          refine (qndSetSysMode_requests chip _).mono ?_
          intro _ w₁ given
          obtain ⟨prev, _⟩ := given
          rw [prev, sleep, modeStep_sleep, modeState, exclusive_requests]
          change Exclusive (requests sys1 (w.after b .copyFromUser))
          rw [copyFromUser_requests chip]
          exact (exclusive_requests _).mp resting.exclusive
        next => exact resting.saved
      exact whole reply w' run
    | rxseekch => simp [Ioctl.bytes, updateBytes, floorBytes] at outside
    | rxseekchall => simp [Ioctl.bytes, scanAllBytes, updateBytes, floorBytes] at outside
    | _ => simp [Ioctl.bytes] at outside
  · rw [step.byte_kept outside]
    exact resting.saved

theorem sought_exclusive (first d : UINT8) :
    Exclusive (sought 0 first d) ↔ first = 0 ∨ d &&& TXREQ = 0 := by
  have bits : ∀ d : UINT8, Exclusive (RXREQ ||| (d &&& TXREQ)) ↔ d &&& TXREQ = 0 := by
    decide +kernel
  rw [sought, if_pos rfl, updated, bits]
  by_cases again : first = 0
  · rw [if_pos again]
    exact ⟨fun _ => .inl again, fun _ => by decide⟩
  · rw [if_neg again]
    exact ⟨.inr, fun ready => ready.resolve_left again⟩

theorem setsysMode_exclusive {sysMode : INT} (documented : Documented (.setsysMode sysMode))
    {prev first d : UINT8} (saved : Exclusive prev) (now : Exclusive d) :
    Exclusive ((Ioctl.setsysMode sysMode).requests prev first d) := by
  simp only [Documented, List.mem_cons, List.not_mem_nil, or_false] at documented
  simp only [Ioctl.requests]
  rcases documented with mode | mode | mode | mode | mode
  · rw [mode]
    exact (by decide : Exclusive 0)
  · rw [mode]
    exact (exclusive_requests prev).mp saved
  · rw [mode]
    exact now
  · rw [mode]
    exact (by decide : Exclusive 0x80)
  · rw [mode]
    exact (by decide : Exclusive 0x40)

/-- A documented command, in a resting state, leaves the requests exclusive exactly when it
is not a first seek in transmit mode. -/
theorem exclusive_iff_ready (chip : HoldsSystem1 b CHSC sys1) (resting : Resting sys1 w)
    (step : IoctlStep b w cmd w') (documented : Documented cmd) :
    Exclusive (sys1 w'.world) ↔ SeekReady b sys1 w cmd := by
  have after := step.requests_eq chip resting.idle
  have now : Exclusive (requests sys1 w) := (exclusive_requests _).mp resting.exclusive
  have seek : Exclusive (if (b.respond .copyFromUser w.world).1 = true
      then sought 0 (w.globals.byte .qndFirstScan) (requests sys1 w) else requests sys1 w) ↔
      ((b.respond .copyFromUser w.world).1 = true →
        w.globals.byte .qndFirstScan = 0 ∨ sys1 w.world &&& TXREQ = 0) := by
    rw [← requests_transmit, ← sought_exclusive]
    split
    next ok => simp [ok]
    next failed => simp [failed, now]
  rw [exclusive_requests]
  change Exclusive (requests sys1 w') ↔ _
  rw [after]
  cases cmd with
  | rxseekchall => exact seek
  | rxseekch => exact seek
  | setsysMode =>
    refine iff_of_true ?_ trivial
    split
    next => exact setsysMode_exclusive documented resting.saved now
    next => exact now
  | init => exact iff_of_true (by decide : Exclusive 0) trivial
  | getRssi =>
    refine iff_of_true ?_ trivial
    split
    next => exact (by decide : Exclusive RXREQ)
    next => exact now
  | txclearchscan =>
    refine iff_of_true ?_ trivial
    split
    next => exact (by decide : Exclusive TXREQ)
    next => exact now
  | _ =>
    refine iff_of_true ?_ trivial
    split
    next => exact now
    next => exact now

theorem IoctlStep.resting (step : IoctlStep b w cmd w') (chip : HoldsSystem1 b CHSC sys1)
    (resting : Resting sys1 w) (exclusive : Exclusive (sys1 w'.world)) : Resting sys1 w' where
  exclusive := exclusive
  saved := step.saved chip resting
  idle := step.idle resting.idle

theorem IoctlStep.init_requests (step : IoctlStep b w .init w') (chip : HoldsSystem1 b CHSC sys1) :
    requests sys1 w' = 0 := by
  obtain ⟨stackPower, reply, run⟩ := step
  obtain ⟨_, w₁, ran, last⟩ := runs_bind.mp run
  obtain ⟨_, rfl⟩ := runs_pure.mp last
  exact qndInit_requests chip _ w' ran

theorem IoctlStep.init_resting (step : IoctlStep b w .init w') (chip : HoldsSystem1 b CHSC sys1)
    (booted : w.globals = Globals.initial) : Resting sys1 w' := by
  have idle : w.globals.byte .qndAutoScanAll = 0 := by rw [booted]; rfl
  constructor
  case exclusive =>
    rw [exclusive_requests]
    change Exclusive (requests sys1 w')
    rw [step.init_requests chip]
    decide
  case saved =>
    rw [step.byte_kept (by simp [Ioctl.bytes]), booted]
    exact (by decide : Exclusive 0)
  case idle => exact step.idle idle

def DocumentedStep (b : Board κ) (w : Machine κ) (cmd : Ioctl) (w' : Machine κ) : Prop :=
  IoctlStep b w cmd w' ∧ Documented cmd

/-- A run of documented commands from the boot of the driver, INIT first, keeps RXREQ and
TXREQ apart in every state it reaches exactly when none of its seeks is a first scan issued
in transmit mode. -/
theorem exclusive_session_iff (chip : HoldsSystem1 b CHSC sys1)
    (booted : w.globals = Globals.initial) {cmds : List Ioctl} :
    Path (fun w cmd w' => DocumentedStep b w cmd w' ∧ Exclusive (sys1 w'.world))
        w (.init :: cmds) w' ↔
      Path (fun w cmd w' => DocumentedStep b w cmd w' ∧ SeekReady b sys1 w cmd)
        w (.init :: cmds) w' := by
  have rest {w₁ : Machine κ} (resting : Resting sys1 w₁) :
      Path (fun w cmd w' => DocumentedStep b w cmd w' ∧ Exclusive (sys1 w'.world)) w₁ cmds w' ↔
        Path (fun w cmd w' => DocumentedStep b w cmd w' ∧ SeekReady b sys1 w cmd) w₁ cmds w' :=
    path_congr (fun _ _ _ resting step => exclusive_iff_ready chip resting step.1 step.2)
      (fun _ _ _ resting step exclusive => step.1.resting chip resting exclusive) resting
  simp only [path_cons]
  constructor
  · intro given
    obtain ⟨w₁, ⟨step, _⟩, later⟩ := given
    exact ⟨w₁, ⟨step, trivial⟩, (rest (step.1.init_resting chip booted)).mp later⟩
  · intro given
    obtain ⟨w₁, ⟨step, _⟩, later⟩ := given
    have resting := step.1.init_resting chip booted
    exact ⟨w₁, ⟨step, resting.exclusive⟩, (rest resting).mpr later⟩

end

/-- A first seek straight after INIT. -/
theorem exclusive_session_seek : ∃ w', Path (fun w cmd w' =>
    DocumentedStep scanningChip w cmd w' ∧ Exclusive w'.world) ⟨Globals.initial, 0⟩
    [.init, .rxseekch ⟨7600, 7600, 0, 0, 0, 0⟩] w' := by
  have done : (exec scanningChip.env 4 (session [.init, .rxseekch ⟨7600, 7600, 0, 0, 0, 0⟩])
      ⟨Globals.initial, 0⟩).map (fun r => r.2.world) = some 0x81 := by decide +kernel
  obtain ⟨_, w', run, _⟩ := exec_observe 4 _ done
  obtain ⟨w₁, start, seek⟩ := path_cons.mp (session_path run)
  obtain ⟨w₂, sought, last⟩ := path_cons.mp seek
  have receiving : w₁.world &&& TXREQ = 0 := by
    have clear := start.init_requests scanningChip_holds
    rw [← id_eq w₁.world, ← requests_transmit, clear]
    decide
  obtain rfl := path_nil.mp last
  have ready : Path (fun w cmd w' => DocumentedStep scanningChip w cmd w' ∧
      SeekReady scanningChip id w cmd) ⟨Globals.initial, 0⟩
      [.init, .rxseekch ⟨7600, 7600, 0, 0, 0, 0⟩] w' :=
    .cons ⟨⟨start, trivial⟩, trivial⟩
      (.cons ⟨⟨sought, trivial⟩, fun _ => .inr receiving⟩ (.nil _))
  exact ⟨w', (exclusive_session_iff scanningChip_holds rfl).mpr ready⟩

/-- INIT, transmit mode, seek: the seek requests reception and leaves the transmit request
in place. -/
theorem both_requested : ∃ w', Path (DocumentedStep scanningChip) ⟨Globals.initial, 0⟩
    [.init, .setsysMode 0x4000, .rxseekch ⟨7600, 7600, 0, 0, 0, 0⟩] w' ∧
    w'.world &&& RXREQ = RXREQ ∧ w'.world &&& TXREQ = TXREQ := by
  have done : (exec scanningChip.env 4
      (session [.init, .setsysMode 0x4000, .rxseekch ⟨7600, 7600, 0, 0, 0, 0⟩])
      ⟨Globals.initial, 0⟩).map (fun r => r.2.world) = some 0xC1 := by decide +kernel
  obtain ⟨_, w', run, both⟩ := exec_observe 4 _ done
  have documented : ∀ cmd ∈ ([.init, .setsysMode 0x4000, .rxseekch ⟨7600, 7600, 0, 0, 0, 0⟩] :
      List Ioctl), Documented cmd := by
    simp only [List.mem_cons, List.not_mem_nil, or_false]
    intro _ given
    rcases given with rfl | rfl | rfl
    · trivial
    · exact (by decide : (0x4000 : UINT16) ∈ ([0, 1, 2, 0x8000, 0x4000] : List UINT16))
    · trivial
  refine ⟨w', (session_path run).with_labels documented, ?_⟩
  change w'.world = 0xC1 at both
  rw [both]
  decide

end Yika.Fm
