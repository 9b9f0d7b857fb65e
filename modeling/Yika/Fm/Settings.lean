import Yika.Fm.OnPins
import Yika.Fm.Tuning
import Yika.Fm.Updates

/-! The requests that set something and nothing else: transmit power, audio, the module. Each writes
certain bits of certain registers with values of its own, so after any number of them a register
holds in every bit what the last request for that bit asked for. Sleeping in between changes
nothing. -/

namespace Yika.Fm
open Program

section
variable {κ α : Type} {b : Board κ} {regs : κ → Regs} {p q : Drv α} {us us' : List RegUpdate}

def Sets (b : Board κ) (regs : κ → Regs) (p : Drv α) (us : List RegUpdate) : Prop := Makes b regs p (applyAll us)

theorem writeReg_makes (chip : HoldsRegisters b regs) (reg value : UINT8) :
    Makes b regs (writeReg reg value) (whole reg value).apply := by
  have replaced (old : UINT8) : (whole reg value).merge old = value := merge_allOnes rfl
  intro w
  apply (makes_write chip reg value w).mono
  intro _ w' made
  exact made.trans (congrArg _ (replaced _).symm)

theorem Updates.sets (chip : HoldsRegisters b regs) (updates : Updates us p) : Sets b regs p us := by
  induction updates with
  | ret value => exact makes_pure value
  | bits reg bitMask dataVal _ ih => exact (qnfSetRegBit_makes chip reg bitMask dataVal).seq fun _ => ih
  | write reg value _ ih => exact (writeReg_makes chip reg value).seq fun _ => ih

/-! Requests. -/

/-- What is written on behalf of a request that got this reply. -/
def carriedOut (made : (INT × Ioctl) × Reply) : List RegUpdate :=
  if made.2 = .fault then [] else made.1.2.settings.getD []

theorem carriedOut_nothing {made : (INT × Ioctl) × Reply} (quiet : made.1.2.settings = some []) :
    carriedOut made = [] := by
  unfold carriedOut
  rw [quiet]
  exact ite_self _

theorem fromUser_sets (chip : HoldsRegisters b regs) {command : Drv α} {stackPower : INT} {cmd : Ioctl}
    (sets : Sets b regs command us) (listed : cmd.settings = some us) {w : Machine κ} :
    Ensures b.env (fromUser (command >>= fun _ => pure .done)) (fun reply w' =>
      regs w'.world = applyAll (carriedOut ((stackPower, cmd), reply)) (regs w.world)) w := by
  intro reply w' run
  have made := fromUser_registers chip sets reply w' run
  unfold carriedOut
  dsimp only at made
  split at made
  next =>
    rw [made.2, if_neg (by simp [made.1]), listed]
    rfl
  next =>
    rw [made.2, if_pos made.1]
    rfl

theorem ioctl_settings (chip : HoldsRegisters b regs) (stackPower : INT) {cmd : Ioctl}
    (listed : cmd.settings = some us) {w : Machine κ} :
    Ensures b.env (qn8006UnlockedIoctl stackPower cmd) (fun reply w' =>
      regs w'.world = applyAll (carriedOut ((stackPower, cmd), reply)) (regs w.world)) w := by
  have quiet (none : cmd.settings = some []) (kept : cmd.regs = []) :
      Ensures b.env (qn8006UnlockedIoctl stackPower cmd) (fun reply w' =>
        regs w'.world = applyAll (carriedOut ((stackPower, cmd), reply)) (regs w.world)) w := by
    intro reply w' run
    rw [carriedOut_nothing none]
    funext adr
    exact IoctlStep.register_kept chip ⟨stackPower, reply, run⟩ (by simp [kept])
  cases cmd with
  | setPower power => exact fromUser_sets chip ((updates_whole PAG_CAL _).sets chip) rfl
  | audioConfig cfgAud =>
    exact fromUser_sets chip ((updates_ite (rxAudio_updates _ _) (txAudio_updates _ _)).sets chip) rfl
  | cfgfmmod cfgFMod => exact fromUser_sets chip ((fmModule_updates _ _).sets chip) rfl
  | loaddftsetting country => exact fromUser_sets chip ((defaults_update _).sets chip) rfl
  | getFq | transmit | getPower | audioMode | getRdssignal | setCountry => exact quiet rfl rfl
  | setFq | setsysMode | init | setCspin | getRssi | rxseekchall | rxseekch | rdsenable | getIsbufready
  | rdsloaddata | txclearchscan | powerEnable => cases listed

/-! None of them waits for anything. -/

def Returns (b : Board κ) (p : Drv α) : Prop := ∀ w, Achieves b.env p (fun _ _ => True) w

theorem Sets.returns (sets : Sets b regs p us) : Returns b p :=
  fun w => (sets w).mono fun _ _ _ => trivial

theorem Returns.seq {β : Type} {next : α → Drv β} (first : Returns b p) (rest : ∀ value, Returns b (next value)) :
    Returns b (p >>= next) := by
  intro w
  rw [achieves_bind]
  exact (first w).mono fun value w₁ _ => rest value w₁

theorem returns_ext (e : Ext) : Returns b (ext e) := fun _ => achieves_perform.mpr trivial

theorem returns_pure (value : α) : Returns b (pure value : Drv α) := fun _ => achieves_pure.mpr trivial

theorem returns_act (e : Ext) : Returns b (act e) := (returns_ext e).seq fun _ => returns_pure ()

theorem returns_ite {c : Prop} [Decidable c] (yes : Returns b p) (no : Returns b q) : Returns b (if c then p else q) := by
  split
  next => exact yes
  next => exact no

theorem returns_toUser (reply : Reply) : Returns b (toUser reply) :=
  (returns_ext .copyToUser).seq fun _ => returns_ite (returns_pure _) (returns_pure _)

theorem returns_fromUser (returns : Returns b p) : Returns b (fromUser (p >>= fun _ => pure .done)) :=
  (returns_ext .copyFromUser).seq fun _ => returns_ite (returns.seq fun _ => returns_pure _) (returns_pure _)

theorem returns_setPin (pin : Nat) (level : INT) : Returns b (setPin pin level) :=
  (returns_act _).seq fun _ => (returns_act _).seq fun _ => returns_act _

theorem returns_setCountry (country : UINT8) : Returns b (qndSetCountry country) := by
  intro w
  simp [qndSetCountry]

theorem settings_return (chip : HoldsRegisters b regs) (stackPower : INT) {cmd : Ioctl}
    (listed : cmd.settings = some us) : Returns b (qn8006UnlockedIoctl stackPower cmd) := by
  cases cmd with
  | setPower power => exact returns_fromUser ((updates_whole PAG_CAL _).sets chip).returns
  | audioConfig cfgAud =>
    exact returns_fromUser ((updates_ite (rxAudio_updates _ _) (txAudio_updates _ _)).sets chip).returns
  | cfgfmmod cfgFMod => exact returns_fromUser ((fmModule_updates _ _).sets chip).returns
  | loaddftsetting country => exact returns_fromUser ((defaults_update _).sets chip).returns
  | getFq =>
    have reads : Returns b qnfGetCh := fun w => (qnfGetCh_reads chip).mono fun _ _ _ => trivial
    exact reads.seq fun _ => returns_toUser _
  | getRdssignal => exact (returns_ext (.readReg STATUS3)).seq fun _ => returns_toUser _
  | transmit => exact returns_pure _
  | getPower => exact returns_toUser _
  | audioMode audioPath => exact returns_fromUser (returns_setPin _ _)
  | setCountry country => exact returns_fromUser (returns_setCountry _)
  | setFq | setsysMode | init | setCspin | getRssi | rxseekchall | rxseekch | rdsenable | getIsbufready
  | rdsloaddata | txclearchscan | powerEnable => cases listed

/-! Any number of them. -/

def Settings (cmds : List (INT × Ioctl)) : Prop := ∀ call ∈ cmds, call.2.settings ≠ none

def allCarriedOut (cmds : List (INT × Ioctl)) (replies : List Reply) : List RegUpdate :=
  (cmds.zip replies).flatMap carriedOut

theorem calls_settings (chip : HoldsRegisters b regs) {cmds : List (INT × Ioctl)} (settings : Settings cmds)
    {w : Machine κ} : Achieves b.env (calls cmds) (fun replies w' => replies.length = cmds.length ∧
      regs w'.world = applyAll (allCarriedOut cmds replies) (regs w.world)) w := by
  induction cmds generalizing w with
  | nil => exact achieves_pure.mpr ⟨rfl, rfl⟩
  | cons call cmds ih =>
    obtain ⟨stackPower, cmd⟩ := call
    obtain ⟨here, others⟩ := List.forall_mem_cons.mp settings
    obtain ⟨us, listed⟩ := Option.ne_none_iff_exists'.mp here
    obtain ⟨reply, w₁, first, _⟩ := settings_return chip stackPower listed w
    have made := ioctl_settings chip stackPower listed reply w₁ first
    apply first.then_achieves
    rw [achieves_bind]
    apply (ih others).mono
    rintro replies w₂ ⟨answered, later⟩
    rw [achieves_pure, List.length_cons, List.length_cons, answered, later, made, ← applyAll_append]
    exact ⟨rfl, rfl⟩

/-- Any settings are answered, and then each bit of each register is as the last request for it has
asked that was not refused, and as before if there was none. -/
theorem settings_last (chip : HoldsRegisters b regs) {cmds : List (INT × Ioctl)} (settings : Settings cmds)
    {w : Machine κ} : Achieves b.env (calls cmds) (fun replies w' => replies.length = cmds.length ∧
      ∀ adr i, (regs w'.world adr).getLsbD i =
        (lastWrite adr i (allCarriedOut cmds replies)).getD ((regs w.world adr).getLsbD i)) w := by
  apply (calls_settings chip settings).mono
  rintro replies w' ⟨answered, made⟩
  refine ⟨answered, fun adr i => ?_⟩
  rw [made, applyAll_bit]

/-- A deviation is configured, and mono reception sets another. -/
theorem deviation_reset : Achieves memoryChip.env
    (calls [(0, .cfgfmmod ⟨0x11, 75⟩), (0, .setPower 3), (0, .audioConfig ⟨1, 1, 1⟩)])
    (fun replies w' => replies.length = 3 ∧ ∀ adr i, (w'.world adr).getLsbD i =
      (lastWrite adr i (allCarriedOut [(0, .cfgfmmod ⟨0x11, 75⟩), (0, .setPower 3),
        (0, .audioConfig ⟨1, 1, 1⟩)] replies)).getD ((clearedChip.world adr).getLsbD i)) clearedChip := by
  have listed : Settings [(0, .cfgfmmod ⟨0x11, 75⟩), (0, .setPower 3), (0, .audioConfig ⟨1, 1, 1⟩)] := by
    simp [Settings, Ioctl.settings]
  exact settings_last (registerFile_holds (fun _ => 0) granted) listed

/-! Sleep. -/

theorem ensures_setsysMode {stackPower sysMode : INT} {post : Reply → Machine κ → Prop} {w : Machine κ}
    (carried : Ensures b.env (qndSetSysMode (ushort sysMode)) (fun _ w' => post .done w') (w.after b .copyFromUser))
    (refused : post .fault (w.after b .copyFromUser)) :
    Ensures b.env (qn8006UnlockedIoctl stackPower (.setsysMode sysMode)) post w := by
  have command : qn8006UnlockedIoctl stackPower (.setsysMode sysMode) = fromUser (do
      qndSetSysMode (ushort sysMode)
      pure .done) := rfl
  rw [command, ensures_fromUser]
  split
  next =>
    rw [ensures_bind]
    exact carried.mono fun _ _ holds => ensures_pure.mpr holds
  next => exact refused

/-- SLEEP keeps SYSTEM1 for later and changes its mode bits only. -/
theorem sleep_registers (chip : HoldsRegisters b regs) (stackPower : INT) {w : Machine κ} :
    Ensures b.env (qn8006UnlockedIoctl stackPower (.setsysMode 0)) (fun reply w' => reply = .done →
      regs w'.world = setBits SYSTEM1 R_TXRX_MASK STNBY (regs w.world) ∧
      w'.globals.byte .qndPrevMode = regs w.world SYSTEM1) w := by
  have start : regs (w.after b .copyFromUser).world = regs w.world :=
    copy_registers chip fun _ _ => Ext.noConfusion
  refine ensures_setsysMode ?_ fun other => Reply.noConfusion other
  have sleep : qndSetSysMode (ushort 0) = (do
      let now ← readReg SYSTEM1
      store8 .qndPrevMode now
      qnfSetRegBit SYSTEM1 R_TXRX_MASK STNBY) := rfl
  rw [sleep, ensures_bind, ensures_readReg, ensures_bind, ensures_store8, chip.read, start]
  intro _ w' standby _
  have made := (qnfSetRegBit_makes chip SYSTEM1 R_TXRX_MASK STNBY _).ensures _ _ standby
  have kept := globals_kept (qnfSetRegBit_writes SYSTEM1 R_TXRX_MASK STNBY) standby
  have same : regs ((w.after b .copyFromUser).after b (.readReg SYSTEM1)).world = regs w.world :=
    (copy_registers chip fun _ _ => Ext.noConfusion).trans start
  refine ⟨made.trans (congrArg _ same), ?_⟩
  rw [kept]
  change (Globals.set8 _ .qndPrevMode _).byte .qndPrevMode = _
  rw [set8_byte, if_pos rfl]

theorem wakeup_registers (chip : HoldsRegisters b regs) (stackPower : INT) {w : Machine κ} :
    Ensures b.env (qn8006UnlockedIoctl stackPower (.setsysMode 1)) (fun reply w' => reply = .done →
      regs w'.world = Function.update (regs w.world) SYSTEM1 (w.globals.byte .qndPrevMode)) w := by
  have start : regs (w.after b .copyFromUser).world = regs w.world :=
    copy_registers chip fun _ _ => Ext.noConfusion
  refine ensures_setsysMode ?_ fun other => Reply.noConfusion other
  have wakeup : qndSetSysMode (ushort 1) = (do
      let saved ← load8 .qndPrevMode
      writeReg SYSTEM1 saved) := rfl
  rw [wakeup, ensures_bind, ensures_load8, ensures_writeReg, after_globals]
  intro _
  rw [Machine.after, chip.write, start]

def Elsewhere (us : List RegUpdate) : Prop := ∀ u ∈ us, u.key ≠ SYSTEM1

theorem rxAudio_elsewhere (optiontype option : UINT8) : Elsewhere (rxAudioWrites optiontype option) := by
  unfold Elsewhere rxAudioWrites audioMonoWrites whole
  split_ifs
  all_goals simp [TX_FDEV, SYSTEM1, SYSTEM2, REG_PD2]

theorem txAudio_elsewhere (optiontype option : UINT8) : Elsewhere (txAudioWrites optiontype option) := by
  unfold Elsewhere txAudioWrites audioMonoWrites whole
  split_ifs
  all_goals simp [TX_FDEV, SYSTEM1, SYSTEM2, TXAGC_GAIN]

theorem fmModule_elsewhere (optiontype option : UINT8) : Elsewhere (fmModuleWrites optiontype option) := by
  unfold Elsewhere fmModuleWrites whole
  split_ifs
  all_goals simp [SYSTEM1]

theorem Elsewhere.append (first : Elsewhere us) (rest : Elsewhere us') : Elsewhere (us ++ us') := by
  intro u member
  rcases List.mem_append.mp member with here | there
  · exact first u here
  · exact rest u there

theorem defaults_elsewhere (country : UINT8) : Elsewhere (defaultWrites country) := by
  unfold defaultWrites
  split
  next =>
    refine Elsewhere.append (.append (.append (.append ?_ ?_) ?_) ?_) (txAudio_elsewhere _ _)
    · exact fmModule_elsewhere _ _
    · exact fmModule_elsewhere _ _
    · exact fmModule_elsewhere _ _
    · simp [Elsewhere, SYSTEM1]
  next => simp [Elsewhere]

theorem settings_elsewhere {cmd : Ioctl} (listed : cmd.settings = some us) : Elsewhere us := by
  cases cmd with
  | setPower power =>
    cases listed
    simp [Elsewhere, whole, PAG_CAL, SYSTEM1]
  | audioConfig cfgAud =>
    cases listed
    split
    next => exact rxAudio_elsewhere _ _
    next => exact txAudio_elsewhere _ _
  | cfgfmmod cfgFMod =>
    cases listed
    exact fmModule_elsewhere _ _
  | loaddftsetting country =>
    cases listed
    exact defaults_elsewhere _
  | getFq | transmit | getPower | audioMode | getRdssignal | setCountry =>
    cases listed
    simp [Elsewhere]
  | setFq | setsysMode | init | setCspin | getRssi | rxseekchall | rxseekch | rdsenable | getIsbufready
  | rdsloaddata | txclearchscan | powerEnable => cases listed

theorem allCarriedOut_elsewhere {cmds : List (INT × Ioctl)} (settings : Settings cmds) (replies : List Reply) :
    Elsewhere (allCarriedOut cmds replies) := by
  intro u member
  obtain ⟨⟨call, reply⟩, made, inside⟩ := List.mem_flatMap.mp member
  obtain ⟨us, listed⟩ := Option.ne_none_iff_exists'.mp (settings call (List.of_mem_zip made).1)
  unfold carriedOut at inside
  split at inside
  next => cases inside
  next =>
    rw [listed] at inside
    exact settings_elsewhere listed u inside

/-- Updates that go elsewhere leave SYSTEM1 and do not mind what is in it. -/
theorem Elsewhere.system1 (elsewhere : Elsewhere us) (r : Regs) (value : UINT8) :
    Function.update (applyAll us (Function.update r SYSTEM1 value)) SYSTEM1 (r SYSTEM1) = applyAll us r := by
  have untouched (i : Nat) : lastWrite SYSTEM1 i us = none :=
    lastWrite_untouched fun u member touches => elsewhere u member touches.1
  funext adr
  apply BitVec.eq_of_getLsbD_eq
  intro i _
  by_cases here : adr = SYSTEM1
  · subst here
    rw [Function.update_self, applyAll_bit, untouched]
    rfl
  · rw [Function.update_of_ne here, applyAll_bit, applyAll_bit, Function.update_of_ne here]

/-- The mode that is kept for WAKEUP is not touched by settings. -/
theorem calls_prevMode {cmds : List (INT × Ioctl)} (settings : Settings cmds) {replies : List Reply}
    {w w' : Machine κ} (run : Runs b.env (calls cmds) w replies w') :
    w'.globals.byte .qndPrevMode = w.globals.byte .qndPrevMode := by
  induction cmds generalizing w replies with
  | nil =>
    obtain ⟨_, rfl⟩ := runs_calls_nil.mp run
    rfl
  | cons call cmds ih =>
    obtain ⟨stackPower, cmd⟩ := call
    obtain ⟨here, others⟩ := List.forall_mem_cons.mp settings
    obtain ⟨reply, w₁, replies, rfl, first, later⟩ := runs_calls_cons.mp run
    have outside : Var8.qndPrevMode ∉ cmd.bytes := by
      cases cmd with
      | setCountry => simp [Ioctl.bytes]
      | setsysMode | rxseekchall | rxseekch => exact absurd rfl here
      | _ => exact fun member => member
    exact (ih others later).trans (IoctlStep.byte_kept ⟨stackPower, reply, first⟩ outside)

/-- Settings made between SLEEP and WAKEUP leave every register as they would have without, the
working mode included. -/
theorem sleep_transparent (chip : HoldsRegisters b regs) {stackPower stackPower' : INT} {w w' : Machine κ}
    {cmds : List (INT × Ioctl)} (settings : Settings cmds) {replies : List Reply}
    (answered : replies.length = cmds.length)
    (run : Runs b.env (calls ((stackPower, .setsysMode 0) :: (cmds ++ [(stackPower', .setsysMode 1)]))) w
      (.done :: (replies ++ [.done])) w') :
    regs w'.world = applyAll (allCarriedOut cmds replies) (regs w.world) := by
  obtain ⟨_, w₁, _, listed, asleep, rest⟩ := runs_calls_cons.mp run
  obtain ⟨rfl, rfl⟩ := List.cons.inj listed
  obtain ⟨made, w₂, last, parts, set, later⟩ := runs_calls_append.mp rest
  obtain ⟨count, updated⟩ := (calls_settings chip settings).ensures made w₂ set
  obtain ⟨rfl, rfl⟩ := List.append_inj parts (answered.trans count.symm)
  obtain ⟨_, w₃, _, ended, awake, nothing⟩ := runs_calls_cons.mp later
  obtain ⟨rfl, rfl⟩ := List.cons.inj ended
  obtain ⟨_, rfl⟩ := runs_calls_nil.mp nothing
  obtain ⟨standby, saved⟩ := sleep_registers chip stackPower .done w₁ asleep rfl
  rw [wakeup_registers chip stackPower' .done w' awake rfl, updated, calls_prevMode settings set, saved, standby]
  exact (allCarriedOut_elsewhere settings replies).system1 (regs w.world) _

/-! The order of audio settings. -/

/-- The automatic gain is switched off, and a gain is set whose lowest bit is clear. -/
def SpoilsGain (agc gain : Qn8006CfgAud) : Prop :=
  uchar agc.optiontype = QND_CONFIG_AUTOAGC ∧ uchar agc.option = 0 ∧ uchar gain.optiontype = QND_CONFIG_AGCGAIN ∧
    (uchar gain.option).getLsbD 0 = false

/-- The bits that a transmit setting of this type goes to, switched off or not. -/
def txBits (optiontype : UINT8) (off : Bool) : List (UINT8 × UINT8) :=
  if optiontype = QND_CONFIG_MONO then [(TX_FDEV, 0xff), (SYSTEM2, 0x10)]
  else if optiontype = QND_CONFIG_MUTE then [(0x28, 0x18)]
  else if optiontype = QND_CONFIG_SOFTCLIP then [(TXAGC_GAIN, 0x80)]
  else if optiontype = QND_CONFIG_AUTOAGC then [(TXAGC_GAIN, if off then 0x41 else 0x40)]
  else if optiontype = QND_CONFIG_AGCGAIN then [(TXAGC_GAIN, 0x1f)]
  else []

theorem txAudio_bits (optiontype option : UINT8) :
    (txAudioWrites optiontype option).map (fun u => (u.key, u.mask)) = txBits optiontype (option = 0) := by
  unfold txAudioWrites txBits audioMonoWrites whole
  by_cases off : option = 0
  · simp only [off, ne_eq, not_true_eq_false, if_false, decide_true, if_true]
    split_ifs <;> rfl
  · simp only [off, ne_eq, not_false_eq_true, if_true, decide_false, Bool.false_eq_true, if_false]
    split_ifs <;> rfl

def txOptions : List UINT8 :=
  [QND_CONFIG_MONO, QND_CONFIG_MUTE, QND_CONFIG_SOFTCLIP, QND_CONFIG_AUTOAGC, QND_CONFIG_AGCGAIN]

/-- Settings of two types share a bit in one case only. -/
theorem txAudio_apart {o o' v v' : UINT8} (different : o ≠ o')
    (agc : ¬(o = QND_CONFIG_AUTOAGC ∧ v = 0 ∧ o' = QND_CONFIG_AGCGAIN))
    (agc' : ¬(o' = QND_CONFIG_AUTOAGC ∧ v' = 0 ∧ o = QND_CONFIG_AGCGAIN)) :
    Apart (txAudioWrites o v) (txAudioWrites o' v') := by
  intro u member u' member' here
  have bits : (u.key, u.mask) ∈ txBits o (v = 0) := txAudio_bits o v ▸ List.mem_map_of_mem member
  have bits' : (u'.key, u'.mask) ∈ txBits o' (v' = 0) := txAudio_bits o' v' ▸ List.mem_map_of_mem member'
  have types {o : UINT8} {off : Bool} {bit : UINT8 × UINT8} (some : bit ∈ txBits o off) :
      o ∈ txOptions := by
    unfold txBits at some
    unfold txOptions
    split_ifs at some
    all_goals simp_all
  -- as a test on lists: a quantifier over the bytes would be decided by going through all of them
  have table : txOptions.all (fun o => txOptions.all fun o' => [false, true].all fun off =>
      [false, true].all fun off' => o == o' || o == QND_CONFIG_AUTOAGC && off && o' == QND_CONFIG_AGCGAIN ||
        o' == QND_CONFIG_AUTOAGC && off' && o == QND_CONFIG_AGCGAIN || (txBits o off).all fun bit => (txBits o' off').all fun bit' =>
          bit.1 != bit'.1 || bit.2 &&& bit'.2 == 0) = true := by decide
  have each {off : Bool} : off ∈ [false, true] := by cases off <;> decide
  have pair := List.all_eq_true.mp (List.all_eq_true.mp (List.all_eq_true.mp (List.all_eq_true.mp
    table o (types bits)) o' (types bits')) (decide (v = 0)) each) (decide (v' = 0)) each
  simp only [Bool.or_eq_true, Bool.and_eq_true, beq_iff_eq, decide_eq_true_eq] at pair
  rcases pair with ((same | spoils) | spoils) | apart
  · exact absurd same different
  · exact absurd ⟨spoils.1.1, spoils.1.2, spoils.2⟩ agc
  · exact absurd ⟨spoils.1.1, spoils.1.2, spoils.2⟩ agc'
  · have disjoint := List.all_eq_true.mp (List.all_eq_true.mp apart _ bits) _ bits'
    simpa [here] using disjoint

theorem lastWrite_pair (key : UINT8) (i : Nat) (u u' : RegUpdate) : lastWrite key i [u, u'] =
    (if u'.Touches key i then some (u'.value.getLsbD i) else none).or
      (if u.Touches key i then some (u.value.getLsbD i) else none) := by
  rw [lastWrite, lastWrite, lastWrite, Option.none_or]

/-- The one order leaves the gain as it was set, the other with its lowest bit set. -/
theorem agc_gain_agree (r : Regs) (gain : UINT8) :
    applyAll (txAudioWrites QND_CONFIG_AUTOAGC 0 ++ txAudioWrites QND_CONFIG_AGCGAIN gain) r =
      applyAll (txAudioWrites QND_CONFIG_AGCGAIN gain ++ txAudioWrites QND_CONFIG_AUTOAGC 0) r ↔ gain.getLsbD 0 = true := by
  have agc : txAudioWrites QND_CONFIG_AUTOAGC 0 = [⟨TXAGC_GAIN, 0x41, 0x41⟩] := rfl
  have set : txAudioWrites QND_CONFIG_AGCGAIN gain = [⟨TXAGC_GAIN, 0x1f, gain⟩] := rfl
  have lowest : (⟨TXAGC_GAIN, 0x41, 0x41⟩ : RegUpdate).Touches TXAGC_GAIN 0 ∧
      (⟨TXAGC_GAIN, 0x1f, gain⟩ : RegUpdate).Touches TXAGC_GAIN 0 :=
    ⟨⟨rfl, rfl⟩, rfl, show (0x1f : UINT8).getLsbD 0 = true by decide⟩
  rw [agc, set, List.singleton_append, List.singleton_append]
  constructor
  · intro same
    have bit := congrArg (fun c : Regs => (c TXAGC_GAIN).getLsbD 0) same
    simp only [applyAll_bit, lastWrite_pair, if_pos lowest.1, if_pos lowest.2] at bit
    exact bit
  · intro odd
    apply applyAll_congr
    intro key i
    rw [lastWrite_pair, lastWrite_pair]
    by_cases switched : (⟨TXAGC_GAIN, 0x41, 0x41⟩ : RegUpdate).Touches key i
    · by_cases gained : (⟨TXAGC_GAIN, 0x1f, gain⟩ : RegUpdate).Touches key i
      · have common : (0x41 &&& 0x1f : UINT8).getLsbD i = true := by
          rw [BitVec.getLsbD_and, switched.2, gained.2]
          rfl
        have only : ∀ i < 8, (0x41 &&& 0x1f : UINT8).getLsbD i = true → i = 0 := by decide
        obtain rfl := only i (BitVec.lt_of_getLsbD common) common
        rw [if_pos switched, if_pos gained, odd]
        rfl
      · rw [if_neg gained, Option.none_or, Option.or_none]
    · rw [if_neg switched, Option.none_or, Option.or_none]

/-- Two settings of the transmit audio, of different types, leave the same registers in either order,
except that switching the automatic gain off also sets the lowest bit of the gain. -/
theorem txAudio_order_iff (chip : HoldsRegisters b regs) {w w₁ w₂ : Machine κ} {c c' : Qn8006CfgAud}
    {stackPower stackPower' : INT} (sends : c.isRx = 0 ∧ c'.isRx = 0)
    (different : uchar c.optiontype ≠ uchar c'.optiontype)
    (one : Runs b.env (calls [(stackPower, .audioConfig c), (stackPower', .audioConfig c')]) w [.done, .done] w₁)
    (other : Runs b.env (calls [(stackPower', .audioConfig c'), (stackPower, .audioConfig c)]) w [.done, .done] w₂) :
    regs w₁.world = regs w₂.world ↔ ¬SpoilsGain c c' ∧ ¬SpoilsGain c' c := by
  have made (first second : INT × Ioctl) (listed : Settings [first, second]) {w' : Machine κ}
      (run : Runs b.env (calls [first, second]) w [.done, .done] w') : regs w'.world =
        applyAll (first.2.settings.getD [] ++ second.2.settings.getD []) (regs w.world) := by
    have whole := ((calls_settings chip listed).ensures _ _ run).2
    simpa [allCarriedOut, carriedOut] using whole
  have first := made _ _ (by simp [Settings, Ioctl.settings]) one
  have second := made _ _ (by simp [Settings, Ioctl.settings]) other
  simp only [Ioctl.settings, sends.1, sends.2, ne_eq, not_true_eq_false, if_false, Option.getD_some] at first second
  rw [first, second]
  have another : QND_CONFIG_AGCGAIN ≠ QND_CONFIG_AUTOAGC := by decide
  by_cases agc : uchar c.optiontype = QND_CONFIG_AUTOAGC ∧ uchar c.option = 0 ∧
      uchar c'.optiontype = QND_CONFIG_AGCGAIN
  · obtain ⟨type, off, type'⟩ := agc
    rw [type, off, type', agc_gain_agree]
    simp [SpoilsGain, type, off, type', another]
  · by_cases agc' : uchar c'.optiontype = QND_CONFIG_AUTOAGC ∧ uchar c'.option = 0 ∧
        uchar c.optiontype = QND_CONFIG_AGCGAIN
    · obtain ⟨type', off', type⟩ := agc'
      rw [type, off', type', eq_comm, agc_gain_agree]
      simp [SpoilsGain, type, off', type', another]
    · refine iff_of_true ?_ ⟨fun spoils => agc ⟨spoils.1, spoils.2.1, spoils.2.2.1⟩,
        fun spoils => agc' ⟨spoils.1, spoils.2.1, spoils.2.2.1⟩⟩
      rw [applyAll_append, applyAll_append]
      exact applyAll_comm (txAudio_apart different agc agc') _

end

/-- The transmit power is set while the chip sleeps. -/
theorem power_set_asleep : ∃ w', Runs memoryChip.env (calls ((0, .setsysMode 0) :: ([(0, .setPower 5)] ++
      [(0, .setsysMode 1)]))) clearedChip (.done :: ([.done] ++ [.done])) w' ∧
    w'.world = applyAll (allCarriedOut [(0, .setPower 5)] [.done]) clearedChip.world := by
  have done : (exec memoryChip.env 1 (calls ((0, .setsysMode 0) :: ([(0, .setPower 5)] ++
      [(0, .setsysMode 1)]))) clearedChip).map (fun r => r.1) = some (.done :: ([.done] ++ [.done])) := by
    decide +kernel
  have listed : Settings [(0, .setPower 5)] := by simp [Settings, Ioctl.settings]
  obtain ⟨replies, w', run, replied⟩ := exec_observe 1 _ done
  dsimp only at replied
  subst replied
  exact ⟨w', run, sleep_transparent (registerFile_holds (fun _ => 0) granted) listed rfl run⟩

/-- The automatic gain off and a gain, in both orders. -/
theorem agc_then_gain : ∃ w₁ w₂,
    Runs memoryChip.env (calls [(0, .audioConfig ⟨4, 0, 0⟩), (0, .audioConfig ⟨5, 2, 0⟩)]) clearedChip
      [.done, .done] w₁ ∧
    Runs memoryChip.env (calls [(0, .audioConfig ⟨5, 2, 0⟩), (0, .audioConfig ⟨4, 0, 0⟩)]) clearedChip
      [.done, .done] w₂ ∧ w₁.world ≠ w₂.world := by
  have done : (exec memoryChip.env 1 (calls [(0, .audioConfig ⟨4, 0, 0⟩), (0, .audioConfig ⟨5, 2, 0⟩)])
      clearedChip).map (fun r => r.1) = some [.done, .done] := by decide +kernel
  have done' : (exec memoryChip.env 1 (calls [(0, .audioConfig ⟨5, 2, 0⟩), (0, .audioConfig ⟨4, 0, 0⟩)])
      clearedChip).map (fun r => r.1) = some [.done, .done] := by decide +kernel
  obtain ⟨replies, w₁, one, replied⟩ := exec_observe 1 _ done
  obtain ⟨replies', w₂, other, replied'⟩ := exec_observe 1 _ done'
  dsimp only at replied replied'
  subst replied replied'
  have types : uchar 4 ≠ uchar 5 := by decide
  refine ⟨w₁, w₂, one, other, fun same => ?_⟩
  have chip : HoldsRegisters memoryChip id := registerFile_holds (fun _ => 0) granted
  exact ((txAudio_order_iff chip ⟨rfl, rfl⟩ types one other).mp same).1 ⟨rfl, rfl, rfl, by decide⟩

end Yika.Fm
