import Yika.Fm.Registers
import Yika.Fm.Requests

/-! What tuning leaves in the registers: the channel, which the commands that do not tune leave
alone, and the channel filter, which RDSENABLE sets as well. -/

namespace Yika.Fm
open Program

section
variable {r : Regs} {adr reg bitMask dataVal : UINT8} {on : Bool} {freq : UINT16}

theorem setBits_other (other : adr ≠ reg) : setBits reg bitMask dataVal r adr = r adr :=
  Function.update_of_ne other _ _

theorem setBits_same :
    setBits reg bitMask dataVal r reg = (r reg &&& ~~~bitMask) ||| (dataVal &&& bitMask) :=
  Function.update_self _ _ _

theorem mute_other (other : adr ≠ REG_PD2) : mute on r adr = r adr := setBits_other other

theorem rxInit_other (other : adr ∉ ([77, 40, 64, 66, 65] : List UINT8)) : rxInit r adr = r adr := by
  simp only [List.mem_cons, List.not_mem_nil, or_false, not_or] at other
  unfold rxInit
  rw [setBits_other other.2.2.2.2, setBits_other other.2.2.2.1, setBits_other other.2.2.1,
    setBits_other other.2.1, setBits_other other.1]

theorem setCh_other (ch : adr ≠ CH) (step : adr ≠ CH_STEP) : setCh freq r adr = r adr := by
  unfold setCh
  rw [setBits_other step, Function.update_of_ne ch]

theorem setCh_low : setCh freq r CH = (freq2chreg freq).setWidth 8 := by
  unfold setCh
  rw [setBits_other (by decide), Function.update_self]

theorem setCh_high : setCh freq r CH_STEP =
    (r CH_STEP &&& ~~~CH_CH) ||| ((freq2chreg freq >>> 8).setWidth 8 &&& CH_CH) := by
  unfold setCh
  rw [setBits_same, Function.update_of_ne (by decide)]

/-! The channel. -/

/-- The channel as `QNF_GetCh` puts it together. -/
def getCh (r : Regs) : UINT16 :=
  chreg2freq ((((r CH_STEP &&& CH_CH).setWidth 16) <<< 8) + (r CH).setWidth 16)

theorem freq2chreg_grid (low : 7600 ≤ freq.toNat) (grid : freq.toNat % 5 = 0) :
    (freq2chreg freq).toNat = (freq.toNat - 7600) / 5 := by
  have exact : ((freq.toNat : Int) - 7600).tdiv 5 = ((freq.toNat - 7600) / 5 : Nat) := by
    rw [Int.tdiv_eq_ediv_of_nonneg (by omega)]
    omega
  have bound := freq.isLt
  rw [freq2chreg, exact, BitVec.ofInt_natCast, BitVec.toNat_ofNat]
  omega

theorem channel_joined {c : UINT16} (small : c.toNat < 1024) :
    (((c >>> 8).setWidth 8 &&& CH_CH).setWidth 16 <<< 8) + (c.setWidth 8).setWidth 16 = c := by
  apply BitVec.eq_of_toNat_eq
  have two : ((c >>> 8).setWidth 8 &&& CH_CH).toNat = c.toNat / 256 % 256 % 4 := by
    rw [BitVec.toNat_and, BitVec.toNat_setWidth, BitVec.toNat_ushiftRight, Nat.shiftRight_eq_div_pow]
    exact Nat.and_two_pow_sub_one_eq_mod _ 2
  rw [BitVec.toNat_add, BitVec.toNat_shiftLeft, BitVec.toNat_setWidth, two, BitVec.toNat_setWidth,
    BitVec.toNat_setWidth, Nat.shiftLeft_eq]
  omega

theorem getCh_setCh (low : 7600 ≤ freq.toNat) (high : freq.toNat ≤ 10800) (grid : freq.toNat % 5 = 0) :
    getCh (setCh freq r) = freq := by
  have channel := freq2chreg_grid low grid
  have inside : CH_CH &&& CH_CH = CH_CH := by decide
  rw [getCh, setCh_high, setCh_low, mask_inside inside, channel_joined (by omega)]
  apply BitVec.eq_of_toNat_eq
  rw [chreg2freq, BitVec.toNat_add, BitVec.toNat_mul, channel]
  change ((freq.toNat - 7600) / 5 * 5 % 65536 + 7600) % 65536 = freq.toNat
  omega

/-- Either way of tuning leaves the channel in CH and CH_STEP. -/
theorem tune_channel (ch : UINT16) : ∃ r₁ : Regs, r₁ CH_STEP = r CH_STEP ∧
    tune ch r CH = setCh ch r₁ CH ∧ tune ch r CH_STEP = setCh ch r₁ CH_STEP := by
  unfold tune
  dsimp only
  split
  next =>
    refine ⟨setBits SYSTEM1 CCA_CH_DIS CCA_CH_DIS (rxInit r), ?_, rfl, rfl⟩
    rw [setBits_other (by decide), rxInit_other (by decide)]
  next =>
    unfold tuneFilter
    refine ⟨setBits TXAGC_GAIN IMR (if imageChannel ch then IMR else 0x00) (mute true (rxInit r)), ?_, ?_, ?_⟩
    · rw [setBits_other (by decide), mute_other (by decide), rxInit_other (by decide)]
    · rw [mute_other (by decide), setBits_other (by decide), setBits_other (by decide)]
    · rw [mute_other (by decide), setBits_other (by decide), setBits_other (by decide)]

theorem getCh_congr {r' : Regs} (low : r' CH = r CH) (high : r' CH_STEP = r CH_STEP) :
    getCh r' = getCh r := by
  rw [getCh, low, high, getCh]

end

section
variable {κ : Type} {b : Board κ} {regs : κ → Regs} {w w₁ w₂ w' : Machine κ} {cmd : Ioctl}

theorem copy_registers (chip : HoldsRegisters b regs) {e : Ext} (copy : ∀ adr value, e ≠ .writeReg adr value) :
    regs (w.after b e).world = regs w.world := chip.keep e w.world copy

theorem fromUser_registers {α : Type} (chip : HoldsRegisters b regs) {command : Drv α} {f : Regs → Regs}
    (makes : Makes b regs command f) :
    Ensures b.env (fromUser (command >>= fun _ => pure .done)) (fun reply w' =>
      if (b.respond .copyFromUser w.world).1 then reply = .done ∧ regs w'.world = f (regs w.world)
      else reply = .fault ∧ regs w'.world = regs w.world) w := by
  have start : regs (w.after b .copyFromUser).world = regs w.world :=
    copy_registers chip fun _ _ => Ext.noConfusion
  simp only [ensures_fromUser, ensures_bind, ensures_pure]
  split
  next =>
    rw [← start]
    exact (makes _).ensures.mono fun _ w₁ made => ⟨trivial, made⟩
  next => exact ⟨trivial, start⟩

theorem setFq_registers (chip : HoldsRegisters b regs) (stackPower frequency : INT) :
    Ensures b.env (qn8006UnlockedIoctl stackPower (.setFq frequency)) (fun reply w' =>
      if copied b w (.setFq frequency) then
        reply = .done ∧ regs w'.world = tune (ushort frequency) (regs w.world)
      else reply = .fault ∧ regs w'.world = regs w.world) w :=
  fromUser_registers chip (qndTuneToCH_makes chip (ushort frequency))

theorem rdsenable_registers (chip : HoldsRegisters b regs) (stackPower rdsen : INT) :
    Ensures b.env (qn8006UnlockedIoctl stackPower (.rdsenable rdsen)) (fun reply w' =>
      if copied b w (.rdsenable rdsen) then
        reply = .done ∧ regs w'.world = rdsEnable (uchar rdsen) (regs w.world)
      else reply = .fault ∧ regs w'.world = regs w.world) w :=
  fromUser_registers chip (qndRDSEnable_makes chip (uchar rdsen))

/-- The commands that do not tune: SETSYS_MODE with SLEEP, WAKEUP, RX|FM or TX|FM, and those for
audio, power, RDS, the country and the module. -/
def Unrelated : Ioctl → Prop
  | .setsysMode sysMode => ushort sysMode ∈ documentedModes
  | .setPower _ | .audioMode _ | .audioConfig _ | .rdsenable _ | .getRdssignal | .getIsbufready
  | .rdsloaddata _ | .setCountry _ | .cfgfmmod _ | .loaddftsetting _ => True
  | .setFq _ | .getFq | .transmit | .getPower | .init | .setCspin _ | .getRssi _ | .rxseekchall _
  | .rxseekch _ | .txclearchscan _ | .powerEnable _ => False

theorem Unrelated.outside (unrelated : Unrelated cmd) : CH ∉ cmd.regs ∧ CH_STEP ∉ cmd.regs := by
  cases cmd with
  | setFq | getFq | transmit | getPower | init | setCspin | getRssi | rxseekchall | rxseekch
  | txclearchscan | powerEnable => cases unrelated
  | setPower | audioMode | audioConfig | setsysMode | rdsenable | getRdssignal | getIsbufready
  | rdsloaddata | setCountry | cfgfmmod | loaddftsetting =>
    simp only [Ioctl.regs]
    decide

theorem unrelated_registers (chip : HoldsRegisters b regs) {cmds : List Ioctl}
    (path : Path (IoctlStep b) w cmds w') (unrelated : ∀ cmd ∈ cmds, Unrelated cmd) :
    regs w'.world CH = regs w.world CH ∧ regs w'.world CH_STEP = regs w.world CH_STEP := by
  induction path with
  | nil => exact ⟨rfl, rfl⟩
  | cons first _ ih =>
    rw [List.forall_mem_cons] at unrelated
    obtain ⟨low, high⟩ := unrelated.1.outside
    have rest := ih unrelated.2
    rw [first.register_kept chip low, first.register_kept chip high] at rest
    exact rest

theorem qnfGetCh_reads (chip : HoldsRegisters b regs) :
    Achieves b.env qnfGetCh (fun f w' => f = getCh (regs w.world) ∧ regs w'.world = regs w.world) w := by
  have step : regs (w.after b (.readReg CH_STEP)).world = regs w.world :=
    copy_registers chip fun _ _ => Ext.noConfusion
  have both : regs ((w.after b (.readReg CH_STEP)).after b (.readReg CH)).world = regs w.world :=
    (copy_registers chip fun _ _ => Ext.noConfusion).trans step
  simp only [qnfGetCh, achieves_bind, achieves_readReg, achieves_pure, chip.read, step]
  exact ⟨rfl, both⟩

/-- Whether the frequency of GET_FQ is copied to the user, which is done once the channel is read. -/
def fqCopied (b : Board κ) (w : Machine κ) : Bool :=
  (b.respond .copyToUser ((w.after b (.readReg CH_STEP)).after b (.readReg CH)).world).1

/-- GET_FQ returns the frequency that `QNF_GetCh` reads, if it can be copied. -/
theorem achieves_getFq {f : UINT16} (reads : Achieves b.env qnfGetCh (fun found _ => found = f) w)
    (stackPower : INT) : Achieves b.env (qn8006UnlockedIoctl stackPower .getFq) (fun reply w' =>
      reply = (if fqCopied b w then .int (f.setWidth 32) else .fault) ∧
        w' = ((w.after b (.readReg CH_STEP)).after b (.readReg CH)).after b .copyToUser) w := by
  simp only [qnfGetCh, achieves_bind, achieves_readReg, achieves_pure] at reads
  simp only [qn8006UnlockedIoctl, qnfGetCh, achieves_bind, achieves_readReg, achieves_pure, reads, toUser]
  apply achieves_perform.mpr
  rw [achieves_ite, achieves_pure, achieves_pure]
  exact ⟨fun copied => ⟨(if_pos copied).symm, rfl⟩, fun failed => ⟨(if_neg failed).symm, rfl⟩⟩

theorem getFq_replies (chip : HoldsRegisters b regs) (stackPower : INT) :
    Achieves b.env (qn8006UnlockedIoctl stackPower .getFq) (fun reply w' =>
      reply = (if fqCopied b w then .int ((getCh (regs w.world)).setWidth 32) else .fault) ∧
        regs w'.world = regs w.world) w := by
  apply (achieves_getFq ((qnfGetCh_reads chip).mono fun _ _ => And.left) stackPower).mono
  rintro reply w' ⟨replied, rfl⟩
  refine ⟨replied, ?_⟩
  rw [copy_registers chip fun _ _ => Ext.noConfusion, copy_registers chip fun _ _ => Ext.noConfusion,
    copy_registers chip fun _ _ => Ext.noConfusion]

/-- SET_FQ, unrelated commands, GET_FQ: the frequency is the one set, unless it cannot be copied to
the user, and the bits of the scan in CH_STEP are those before SET_FQ. -/
theorem tuned_survives (chip : HoldsRegisters b regs) {frequency : INT} (low : 7600 ≤ frequency.toNat)
    (high : frequency.toNat ≤ 10800) (grid : frequency.toNat % 5 = 0) {stackPower stackPower' : INT}
    (set : Runs b.env (qn8006UnlockedIoctl stackPower (.setFq frequency)) w .done w₁)
    {cmds : List Ioctl} (path : Path (IoctlStep b) w₁ cmds w₂) (unrelated : ∀ cmd ∈ cmds, Unrelated cmd) :
    Achieves b.env (qn8006UnlockedIoctl stackPower' .getFq) (fun reply w₃ =>
      reply = (if fqCopied b w₂ then .int frequency else .fault) ∧
        regs w₃.world CH_STEP &&& ~~~CH_CH = regs w.world CH_STEP &&& ~~~CH_CH) w₂ := by
  have after := setFq_registers chip stackPower frequency .done w₁ set
  obtain ⟨low₂, high₂⟩ := unrelated_registers chip path unrelated
  split at after
  next =>
    obtain ⟨r₁, step, tuned₁, tuned₂⟩ := @tune_channel (regs w.world) (ushort frequency)
    rw [after.2, tuned₁] at low₂
    rw [after.2, tuned₂] at high₂
    have cut : (ushort frequency).toNat = frequency.toNat := by
      rw [ushort, BitVec.toNat_setWidth]
      omega
    have channel : getCh (regs w₂.world) = ushort frequency :=
      (getCh_congr low₂ high₂).trans (getCh_setCh (by omega) (by omega) (by omega))
    have back : (ushort frequency).setWidth 32 = frequency := by
      apply BitVec.eq_of_toNat_eq
      rw [BitVec.toNat_setWidth, cut]
      omega
    have inside : CH_CH &&& ~~~CH_CH = 0 := by decide
    apply (getFq_replies chip stackPower').mono
    intro reply w₃ got
    rw [channel, back] at got
    refine ⟨got.1, ?_⟩
    rw [got.2, high₂, setCh_high, mask_outside inside, step]
  next => cases after.1

end

def memoryChip : Board Regs := registerFile (fun _ => 0) granted

/-- Standby, RDS, wake-up and transmit audio settings between tuning to 10130 and reading it back. -/
def detour : List Ioctl := [.setsysMode 0, .rdsenable 1, .setsysMode 1, .audioConfig ⟨3, 1, 0⟩]

theorem detour_survived : ∃ w₁ w₂,
    Runs memoryChip.env (qn8006UnlockedIoctl 0 (.setFq 10130)) clearedChip .done w₁ ∧
    Path (IoctlStep memoryChip) w₁ detour w₂ ∧
    Achieves memoryChip.env (qn8006UnlockedIoctl 0 .getFq) (fun reply w₃ => reply = .int 10130 ∧
        w₃.world CH_STEP &&& ~~~CH_CH = clearedChip.world CH_STEP &&& ~~~CH_CH) w₂ := by
  have done : (exec memoryChip.env 1 (do
      let reply ← qn8006UnlockedIoctl 0 (.setFq 10130)
      session detour
      pure reply) clearedChip).map (fun r => r.1) = some .done := by decide +kernel
  obtain ⟨reply, w', run, rfl⟩ := exec_observe 1 _ done
  obtain ⟨reply, w₁, set, rest⟩ := runs_bind.mp run
  obtain ⟨_, w₂, commands, last⟩ := runs_bind.mp rest
  obtain ⟨rfl, rfl⟩ := runs_pure.mp last
  have path := session_path commands
  have unrelated : ∀ cmd ∈ detour, Unrelated cmd := by
    simp [detour, Unrelated, documentedModes, ushort]
  exact ⟨w₁, w', set, path, tuned_survives (registerFile_holds _ _) (by decide) (by decide) (by decide) set
    path unrelated⟩

/-! The channel filter. -/

/-- The filter is chosen automatically exactly when RDS is enabled. -/
def FilterFollows (r : Regs) : Prop := r GAIN_SEL &&& 0x08 = 0 ↔ r SYSTEM1 &&& RDSEN ≠ 0

section
variable {r : Regs} {ch : UINT16}

theorem filterBits_clear (sys2 : UINT8) : filterBits sys2 &&& 0x08 = 0 ↔ sys2 &&& 0x20 ≠ 0 := by
  unfold filterBits
  split
  next set => exact iff_of_true (by decide) set
  next unset => exact iff_of_false (by decide) unset

theorem tune_system1 (part : UINT8) (apart : CCA_CH_DIS &&& part = 0) :
    tune ch r SYSTEM1 &&& part = r SYSTEM1 &&& part := by
  unfold tune tuneFilter
  dsimp only
  split
  next =>
    rw [setCh_other (by decide) (by decide), setBits_same, mask_outside apart, rxInit_other (by decide)]
  next =>
    rw [mute_other (by decide), setBits_other (by decide), setBits_same, mask_outside apart,
      setCh_other (by decide) (by decide), setBits_other (by decide), mute_other (by decide),
      rxInit_other (by decide)]

theorem tune_filter (receiving : r SYSTEM1 &&& TXREQ = 0) :
    tune ch r GAIN_SEL &&& 0x08 = filterBits (r SYSTEM2) &&& 0x08 := by
  have mode : ¬rxInit r SYSTEM1 &&& TXREQ ≠ 0 := by
    rw [rxInit_other (by decide), receiving]
    decide
  have inside : (0x38 : UINT8) &&& 0x08 = 0x08 := by decide
  unfold tune tuneFilter
  dsimp only
  rw [if_neg mode, mute_other (by decide), setBits_same, mask_inside inside, setBits_other (by decide),
    setCh_other (by decide) (by decide), setBits_other (by decide), mute_other (by decide),
    rxInit_other (by decide)]

theorem tune_follows (receiving : r SYSTEM1 &&& TXREQ = 0) :
    FilterFollows (tune ch r) ↔ (r SYSTEM2 &&& 0x20 ≠ 0 ↔ r SYSTEM1 &&& RDSEN ≠ 0) := by
  unfold FilterFollows
  rw [tune_filter receiving, filterBits_clear, tune_system1 RDSEN (by decide)]

theorem rdsEnable_follows {on : UINT8} (valid : on = 1 ∨ on = 0) : FilterFollows (rdsEnable on r) := by
  unfold FilterFollows rdsEnable
  rcases valid with rfl | rfl
  · rw [if_pos rfl, Function.update_of_ne (by decide), Function.update_self, setBits_same]
    have filter : ∀ s : UINT8, (s &&& ~~~0x08 ||| 0x00 &&& 0x08) &&& 0x08 = 0 := by decide
    have enabled : ∀ s : UINT8, (s ||| RDSEN) &&& RDSEN ≠ 0 := by decide
    exact iff_of_true (filter _) (enabled _)
  · rw [if_neg (by decide), if_pos rfl, Function.update_of_ne (by decide), Function.update_self,
      setBits_same]
    have filter : ∀ s : UINT8, (s &&& ~~~0x38 ||| 0x28 &&& 0x38) &&& 0x08 ≠ 0 := by decide
    have disabled : ∀ s : UINT8, ¬(s &&& ~~~RDSEN) &&& RDSEN ≠ 0 := by decide
    exact iff_of_false (filter _) (disabled _)

theorem rdsEnable_receiving (on : UINT8) :
    rdsEnable on r SYSTEM1 &&& TXREQ = r SYSTEM1 &&& TXREQ := by
  have set : ∀ s : UINT8, (s ||| RDSEN) &&& TXREQ = s &&& TXREQ := by decide
  have cleared : ∀ s : UINT8, (s &&& ~~~RDSEN) &&& TXREQ = s &&& TXREQ := by decide
  unfold rdsEnable
  split
  next =>
    rw [Function.update_self]
    exact set _
  next =>
    split
    next =>
      rw [Function.update_self]
      exact cleared _
    next => rfl

end

def FilterCommand : Ioctl → Prop
  | .rdsenable rdsen => rdsen = 1 ∨ rdsen = 0
  | .setFq _ => True
  | _ => False

section
variable {κ : Type} {b : Board κ} {regs : κ → Regs} {w w' : Machine κ} {cmd : Ioctl}

def Receiving (regs : κ → Regs) (w : Machine κ) : Prop := regs w.world SYSTEM1 &&& TXREQ = 0

def FilterStep (b : Board κ) (w : Machine κ) (cmd : Ioctl) (w' : Machine κ) : Prop :=
  IoctlStep b w cmd w' ∧ FilterCommand cmd

/-- SYSTEM2 and SYSTEM1 agree when SET_FQ goes by the one of them. -/
def FilterReady (b : Board κ) (regs : κ → Regs) (w : Machine κ) : Ioctl → Prop
  | .setFq frequency => copied b w (.setFq frequency) = true →
    (regs w.world SYSTEM2 &&& 0x20 ≠ 0 ↔ regs w.world SYSTEM1 &&& RDSEN ≠ 0)
  | _ => True

theorem filterStep_registers (chip : HoldsRegisters b regs) (step : FilterStep b w cmd w')
    (receiving : Receiving regs w) :
    ((copied b w cmd = true → FilterFollows (regs w'.world)) ↔ FilterReady b regs w cmd) ∧
      Receiving regs w' := by
  obtain ⟨⟨stackPower, reply, run⟩, valid⟩ := step
  unfold Receiving at receiving ⊢
  cases cmd with
  | setFq frequency =>
    have after := setFq_registers chip stackPower frequency reply w' run
    dsimp only at after
    rw [FilterReady]
    by_cases ok : copied b w (.setFq frequency) = true
    · rw [if_pos ok] at after
      rw [after.2, imp_iff_right ok, imp_iff_right ok, tune_system1 TXREQ (by decide)]
      exact ⟨tune_follows receiving, receiving⟩
    · rw [if_neg ok] at after
      rw [after.2]
      exact ⟨iff_of_true (fun yes => absurd yes ok) (fun yes => absurd yes ok), receiving⟩
  | rdsenable rdsen =>
    have after := rdsenable_registers chip stackPower rdsen reply w' run
    dsimp only at after
    have on : uchar rdsen = 1 ∨ uchar rdsen = 0 := by
      rcases valid with rfl | rfl
      · exact .inl rfl
      · exact .inr rfl
    by_cases ok : copied b w (.rdsenable rdsen) = true
    · rw [if_pos ok] at after
      rw [after.2, rdsEnable_receiving]
      exact ⟨iff_of_true (fun _ => rdsEnable_follows on) trivial, receiving⟩
    · rw [if_neg ok] at after
      rw [after.2]
      exact ⟨iff_of_true (fun yes => absurd yes ok) trivial, receiving⟩
  | _ => cases valid

/-- In receive mode the filter follows RDS after every command that is carried out exactly when
at every SET_FQ the bit of SYSTEM2 that it goes by agrees with RDSEN. -/
theorem filter_follows_iff (chip : HoldsRegisters b regs) (receiving : Receiving regs w)
    {cmds : List Ioctl} :
    Path (fun w cmd w' => FilterStep b w cmd w' ∧
        (copied b w cmd = true → FilterFollows (regs w'.world))) w cmds w' ↔
      Path (fun w cmd w' => FilterStep b w cmd w' ∧ FilterReady b regs w cmd) w cmds w' := by
  have agree (w₁ : Machine κ) (cmd : Ioctl) (w₂ : Machine κ) (receiving₁ : Receiving regs w₁)
      (step : FilterStep b w₁ cmd w₂) :
      (copied b w₁ cmd = true → FilterFollows (regs w₂.world)) ↔ FilterReady b regs w₁ cmd :=
    (filterStep_registers chip step receiving₁).1
  have keeps (w₁ : Machine κ) (cmd : Ioctl) (w₂ : Machine κ) (receiving₁ : Receiving regs w₁)
      (step : FilterStep b w₁ cmd w₂)
      (_ : copied b w₁ cmd = true → FilterFollows (regs w₂.world)) : Receiving regs w₂ :=
    (filterStep_registers chip step receiving₁).2
  exact path_congr agree keeps receiving

end

def receivingChip (sys2 : UINT8) : Machine Regs :=
  ⟨Globals.initial, Function.update (Function.update (fun _ => 0) SYSTEM1 RXREQ) SYSTEM2 sys2⟩

/-- With mono forced, tuning happens to choose the filter that RDS asks for. -/
theorem forced_mono_follows : ∃ w', Path (fun w cmd w' => FilterStep memoryChip w cmd w' ∧
    (copied memoryChip w cmd = true → FilterFollows w'.world)) (receivingChip 0x20)
      [.rdsenable 1, .setFq 8800] w' := by
  have done : (exec memoryChip.env 1 (session [.rdsenable 1, .setFq 8800]) (receivingChip 0x20)).map
      (fun r => r.1) = some () := by decide +kernel
  obtain ⟨_, w', run, _⟩ := exec_observe 1 _ done
  obtain ⟨_, w₁, enable, rest⟩ := runs_bind.mp run
  obtain ⟨_, w₂, set, last⟩ := runs_bind.mp rest
  obtain ⟨_, rfl⟩ := runs_pure.mp last
  have enabled := rdsenable_registers (registerFile_holds (fun _ => 0) granted) 0 1 _ w₁ enable
  have agrees : FilterReady memoryChip id w₁ (.setFq 8800) := by
    intro _
    change w₁.world SYSTEM2 &&& 0x20 ≠ 0 ↔ w₁.world SYSTEM1 &&& RDSEN ≠ 0
    have made : w₁.world = rdsEnable 1 (receivingChip 0x20).world := enabled.2
    rw [made]
    decide
  have ready : Path (fun w cmd w' => FilterStep memoryChip w cmd w' ∧ FilterReady memoryChip id w cmd)
      (receivingChip 0x20) [.rdsenable 1, .setFq 8800] w' :=
    .cons ⟨⟨⟨0, _, enable⟩, .inl rfl⟩, trivial⟩ (.cons ⟨⟨⟨0, _, set⟩, trivial⟩, agrees⟩ (.nil _))
  have receiving : Receiving id (receivingChip 0x20) := by
    unfold Receiving
    decide
  exact ⟨w', (filter_follows_iff (registerFile_holds _ _) receiving).mpr ready⟩

/-- RDS enabled, then a channel: the filter is fixed although RDS is on. -/
theorem filter_stuck : ∃ w', Path (FilterStep memoryChip) (receivingChip 0) [.rdsenable 1, .setFq 8800] w' ∧
    ¬FilterFollows w'.world := by
  have done : (exec memoryChip.env 1 (session [.rdsenable 1, .setFq 8800]) (receivingChip 0)).map
      (fun r => (r.2.world GAIN_SEL, r.2.world SYSTEM1)) = some (0x28, 0x83) := by decide +kernel
  obtain ⟨_, w', run, seen⟩ := exec_observe 1 _ done
  have commands : ∀ cmd ∈ ([.rdsenable 1, .setFq 8800] : List Ioctl), FilterCommand cmd := by
    simp [FilterCommand]
  refine ⟨w', (session_path run).with_labels commands, ?_⟩
  obtain ⟨filter, mode⟩ := Prod.mk.inj seen
  unfold FilterFollows
  rw [filter, mode]
  decide

end Yika.Fm
