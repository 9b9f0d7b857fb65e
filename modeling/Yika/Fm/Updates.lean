import Yika.Fm.Ioctl
import Yika.Program.Concurrent
import Yika.Program.Race

/-! The requests that set something and nothing else: transmit power, audio, the module. Each writes
certain bits of certain registers with values of its own, reading a register first where it has to
keep the other bits. -/

namespace Yika.Fm
open Program

abbrev RegUpdate := Update UINT8 8

def whole (reg value : UINT8) : RegUpdate := ⟨reg, 0xff, value⟩

/-! What the functions of `qndriver.c` write. -/

def audioMonoWrites (modemask mode : UINT8) : List RegUpdate :=
  [whole TX_FDEV (if mode = QND_TX_AUDIO_MONO ∨ mode = QND_RX_AUDIO_MONO then 0x20 else 0x6c),
    ⟨SYSTEM2, modemask, mode⟩]

def rxAudioWrites (optiontype option : UINT8) : List RegUpdate :=
  if optiontype = QND_CONFIG_MONO then
    audioMonoWrites RX_MONO_MASK (if option ≠ 0 then QND_RX_AUDIO_MONO else QND_RX_AUDIO_STEREO)
  else if optiontype = QND_CONFIG_MUTE then [⟨REG_PD2, 0x0c, if option ≠ 0 then 0x0c else 0x00⟩]
  else []

def txAudioWrites (optiontype option : UINT8) : List RegUpdate :=
  if optiontype = QND_CONFIG_MONO then
    audioMonoWrites 0x10 (if option ≠ 0 then QND_TX_AUDIO_MONO else QND_TX_AUDIO_STEREO)
  else if optiontype = QND_CONFIG_MUTE then [⟨0x28, 0x18, if option ≠ 0 then 0 else 0x18⟩]
  else if optiontype = QND_CONFIG_SOFTCLIP then [⟨TXAGC_GAIN, 0x80, if option ≠ 0 then 0x80 else 0x00⟩]
  else if optiontype = QND_CONFIG_AUTOAGC then
    [if option ≠ 0 then ⟨TXAGC_GAIN, 0x40, 0⟩ else ⟨TXAGC_GAIN, 0x41, 0x41⟩]
  else if optiontype = QND_CONFIG_AGCGAIN then [⟨TXAGC_GAIN, 0x1f, option⟩]
  else []

def fmModuleWrites (optiontype option : UINT8) : List RegUpdate :=
  if optiontype = QND_CONFIG_AUDIOPEAK_DEV then [whole 0x0e (BitVec.ofNat 8 (option.toNat * 100 / 69))]
  else if optiontype = QND_CONFIG_PILOT_DEV then [⟨0x0f, 0x3c, option <<< 2⟩]
  else if optiontype = QND_CONFIG_RDS_DEV then [⟨0x18, 0x7f, BitVec.ofNat 8 (option.toNat * 100 / 35)⟩]
  else []

def defaultWrites (country : UINT8) : List RegUpdate :=
  if country = 1 then fmModuleWrites QND_CONFIG_AUDIOPEAK_DEV 75 ++ fmModuleWrites QND_CONFIG_PILOT_DEV 9 ++
    fmModuleWrites QND_CONFIG_RDS_DEV 2 ++ [⟨0x01, 0x08, 0x08⟩, ⟨0x04, 0x3f, 0x3f⟩] ++
    txAudioWrites QND_CONFIG_SOFTCLIP 1
  else []

/-- What a request writes, if that is always the same. POWER_ENABLE and SET_CSPIN are not among them:
a chip without supply does not keep its registers, and one that is not selected is not written to. -/
def Ioctl.settings : Ioctl → Option (List RegUpdate)
  | .setPower power => some [whole PAG_CAL (0x40 ||| uchar power)]
  | .audioConfig cfgAud => some (if cfgAud.isRx ≠ 0 then rxAudioWrites (uchar cfgAud.optiontype) (uchar cfgAud.option)
    else txAudioWrites (uchar cfgAud.optiontype) (uchar cfgAud.option))
  | .cfgfmmod cfgFMod => some (fmModuleWrites (uchar cfgFMod.optiontype) (uchar cfgFMod.option))
  | .loaddftsetting country => some (defaultWrites (uchar country))
  | .getFq | .transmit | .getPower | .audioMode _ | .getRdssignal | .setCountry _ => some []
  | .setFq _ | .setsysMode _ | .init | .setCspin _ | .getRssi _ | .rxseekchall _ | .rxseekch _ | .rdsenable _
  | .getIsbufready | .rdsloaddata _ | .txclearchscan _ | .powerEnable _ => none

/-! The functions make these updates, one after the other, and do nothing else. -/

inductive Updates : {α : Type} → List RegUpdate → Drv α → Prop where
  | ret {α : Type} (value : α) : Updates [] (pure value)
  | bits {α : Type} {us : List RegUpdate} {rest : Drv α} (reg bitMask dataVal : UINT8) :
      Updates us rest → Updates (⟨reg, bitMask, dataVal⟩ :: us) (qnfSetRegBit reg bitMask dataVal >>= fun _ => rest)
  | write {α : Type} {us : List RegUpdate} {rest : Drv α} (reg value : UINT8) :
      Updates us rest → Updates (whole reg value :: us) (writeReg reg value >>= fun _ => rest)

section
variable {α β : Type} {p q : Drv α} {us us' : List RegUpdate}

theorem Updates.seq {next : α → Drv β} (first : Updates us p) (rest : ∀ value, Updates us' (next value)) :
    Updates (us ++ us') (p >>= next) := by
  induction first with
  | ret value => exact rest value
  | bits reg bitMask dataVal _ ih => exact ih.bits reg bitMask dataVal
  | write reg value _ ih => exact ih.write reg value

theorem updates_bits (reg bitMask dataVal : UINT8) :
    Updates [⟨reg, bitMask, dataVal⟩] (qnfSetRegBit reg bitMask dataVal) :=
  .bits reg bitMask dataVal (.ret ())

theorem updates_whole (reg value : UINT8) : Updates [whole reg value] (writeReg reg value) :=
  .write reg value (.ret ())

theorem updates_ite {c : Prop} [Decidable c] (yes : Updates us p) (no : Updates us' q) :
    Updates (if c then us else us') (if c then p else q) := by
  split
  next => exact yes
  next => exact no

theorem updates_when {c : Prop} [Decidable c] {p : Drv Unit} (yes : Updates us p) :
    Updates (if c then us else []) (Prog.when c p) := updates_ite yes (.ret ())

end

theorem qnfSetMute_updates (on : Bool) : Updates [⟨REG_PD2, 0x0c, if on then 0x0c else 0x00⟩] (qnfSetMute on) := by
  cases on with
  | true => exact updates_bits REG_PD2 0x0c 0x0c
  | false => exact updates_bits REG_PD2 0x0c 0x00

theorem audioMono_updates (modemask mode : UINT8) :
    Updates (audioMonoWrites modemask mode) (qnfSetAudioMono modemask mode) := by
  have deviation : Updates
      [whole TX_FDEV (if mode = QND_TX_AUDIO_MONO ∨ mode = QND_RX_AUDIO_MONO then 0x20 else 0x6c)]
      (if mode = QND_TX_AUDIO_MONO ∨ mode = QND_RX_AUDIO_MONO then writeReg TX_FDEV 0x20 else writeReg TX_FDEV 0x6c) := by
    split
    next => exact updates_whole TX_FDEV 0x20
    next => exact updates_whole TX_FDEV 0x6c
  exact deviation.seq fun _ => updates_bits SYSTEM2 modemask mode

theorem rxAudio_updates (optiontype option : UINT8) :
    Updates (rxAudioWrites optiontype option) (qndRXConfigAudio optiontype option) := by
  refine updates_ite ?_ (updates_when ?_)
  · split
    next => exact audioMono_updates RX_MONO_MASK QND_RX_AUDIO_MONO
    next => exact audioMono_updates RX_MONO_MASK QND_RX_AUDIO_STEREO
  · split
    next => exact qnfSetMute_updates true
    next => exact qnfSetMute_updates false

theorem txAudio_updates (optiontype option : UINT8) :
    Updates (txAudioWrites optiontype option) (qndTXConfigAudio optiontype option) := by
  refine updates_ite ?_ (updates_ite ?_ (updates_ite ?_ (updates_ite ?_ (updates_when ?_))))
  · split
    next => exact audioMono_updates 0x10 QND_TX_AUDIO_MONO
    next => exact audioMono_updates 0x10 QND_TX_AUDIO_STEREO
  · split
    next => exact updates_bits 0x28 0x18 0
    next => exact updates_bits 0x28 0x18 0x18
  · split
    next => exact updates_bits TXAGC_GAIN 0x80 0x80
    next => exact updates_bits TXAGC_GAIN 0x80 0x00
  · split
    next => exact updates_bits TXAGC_GAIN 0x40 0
    next => exact updates_bits TXAGC_GAIN 0x41 0x41
  · exact updates_bits TXAGC_GAIN 0x1f option

theorem fmModule_updates (optiontype option : UINT8) :
    Updates (fmModuleWrites optiontype option) (qndConfigFMModule optiontype option) := by
  refine updates_ite ?_ (updates_ite ?_ (updates_when ?_))
  · exact updates_whole 0x0e _
  · exact updates_bits 0x0f 0x3c _
  · exact updates_bits 0x18 0x7f _

theorem defaults_update (country : UINT8) :
    Updates (defaultWrites country) (qndLoadDefalutSetting country) := by
  refine updates_when ?_
  exact (fmModule_updates QND_CONFIG_AUDIOPEAK_DEV 75).seq fun _ =>
    (fmModule_updates QND_CONFIG_PILOT_DEV 9).seq fun _ => (fmModule_updates QND_CONFIG_RDS_DEV 2).seq fun _ => (updates_bits 0x01 0x08 0x08).seq fun _ =>
      (updates_bits 0x04 0x3f 0x3f).seq fun _ => txAudio_updates QND_CONFIG_SOFTCLIP 1

/-! The commands. -/

/-- What a command that only sets fields of registers makes of them, and none for the others. -/
def Ioctl.fields : Ioctl → Option (List RegUpdate)
  | .setPower power => (Ioctl.setPower power).settings
  | .audioConfig cfgAud => (Ioctl.audioConfig cfgAud).settings
  | .cfgfmmod cfgFMod => (Ioctl.cfgfmmod cfgFMod).settings
  | .loaddftsetting country => (Ioctl.loaddftsetting country).settings
  | _ => none

theorem fields_settings {cmd : Ioctl} {us : List RegUpdate} (listed : cmd.fields = some us) :
    cmd.settings = some us := by
  cases cmd with
  | setPower | audioConfig | cfgfmmod | loaddftsetting => exact listed
  | _ => cases listed

theorem fields_command (stackPower : INT) {cmd : Ioctl} {us : List RegUpdate} (listed : cmd.fields = some us) :
    ∃ command : Drv Unit, qn8006UnlockedIoctl stackPower cmd = fromUser (command >>= fun _ => pure .done) ∧
      Updates us command := by
  cases cmd with
  | setPower power =>
    cases listed
    exact ⟨_, rfl, updates_whole PAG_CAL _⟩
  | audioConfig cfgAud =>
    cases listed
    exact ⟨_, rfl, updates_ite (rxAudio_updates _ _) (txAudio_updates _ _)⟩
  | cfgfmmod cfgFMod =>
    cases listed
    exact ⟨_, rfl, fmModule_updates _ _⟩
  | loaddftsetting country =>
    cases listed
    exact ⟨_, rfl, defaults_update _⟩
  | _ => cases listed

def Once (us : List RegUpdate) : Prop := (us.map Update.key).Nodup

theorem rxAudio_once (optiontype option : UINT8) : Once (rxAudioWrites optiontype option) := by
  unfold Once rxAudioWrites audioMonoWrites whole
  split_ifs
  all_goals decide

theorem txAudio_once (optiontype option : UINT8) : Once (txAudioWrites optiontype option) := by
  unfold Once txAudioWrites audioMonoWrites whole
  split_ifs
  all_goals simp [TX_FDEV, SYSTEM2]

theorem fmModule_once (optiontype option : UINT8) : Once (fmModuleWrites optiontype option) := by
  unfold Once fmModuleWrites whole
  split_ifs
  all_goals simp

theorem defaults_once (country : UINT8) : Once (defaultWrites country) := by
  unfold Once defaultWrites
  split_ifs
  all_goals decide

theorem fields_once {cmd : Ioctl} {us : List RegUpdate} (listed : cmd.fields = some us) : Once us := by
  cases cmd with
  | setPower power =>
    cases listed
    exact List.nodup_singleton _
  | audioConfig cfgAud =>
    cases listed
    split
    next => exact rxAudio_once _ _
    next => exact txAudio_once _ _
  | cfgfmmod cfgFMod =>
    cases listed
    exact fmModule_once _ _
  | loaddftsetting country =>
    cases listed
    exact defaults_once _
  | _ => cases listed

end Yika.Fm
