import Yika.Fm.Driver
import Yika.Program.Path

/-! `qn8006_unlocked_ioctl` of `qn8006_driver.c`: the twenty-two commands, with the argument
as it stands in user space and the reply as it is copied back. -/

namespace Yika.Fm
open Program

structure Qn8006CfgAud where
  optiontype : INT
  option : INT
  isRx : INT
  deriving DecidableEq

structure Qn8006GetRssi where
  ch : INT
  rssi : INT
  deriving DecidableEq

structure Qn8006RxSeekCH where
  start : INT
  stop : INT
  step : INT
  db : INT
  up : INT
  ret : INT
  deriving DecidableEq

structure Qn8006RdsLoadData where
  rdsRawData : INT
  len : INT
  isUpload : INT
  deriving DecidableEq

structure Qn8006CfgFMMod where
  optiontype : INT
  option : INT
  deriving DecidableEq

inductive Ioctl where
  | setFq (frequency : INT)
  | getFq
  | transmit
  | setPower (power : INT)
  | getPower
  | audioMode (audioPath : INT)
  | audioConfig (cfgAud : Qn8006CfgAud)
  | setsysMode (sysMode : INT)
  | init
  | setCspin (cspin : INT)
  | getRssi (rssi : Qn8006GetRssi)
  | rxseekchall (rscall : Qn8006RxSeekCH)
  | rxseekch (rsc : Qn8006RxSeekCH)
  | rdsenable (rdsen : INT)
  | getRdssignal
  | getIsbufready
  | rdsloaddata (rdsld : Qn8006RdsLoadData)
  | setCountry (country : INT)
  | cfgfmmod (cfgFMod : Qn8006CfgFMMod)
  | loaddftsetting (loaddftSettingCountry : INT)
  | txclearchscan (clCHscan : Qn8006RxSeekCH)
  | powerEnable (poweren : INT)
  deriving DecidableEq

/-- `fault` is `-EFAULT`; the others return 0, with what was copied to the user. -/
inductive Reply where
  | fault
  | done
  | int (value : INT)
  | rssi (value : Qn8006GetRssi)
  | seek (value : Qn8006RxSeekCH)
  deriving DecidableEq

def QN8006_CS : Nat := 30
def QN8006_SEND_AUD : Nat := 60

/-- `copy_from_user`, and the command when it copied everything. -/
def fromUser (command : Drv Reply) : Drv Reply := do
  let copied ← copyFromUser
  if copied then command else pure .fault

def toUser (reply : Reply) : Drv Reply := do
  let copied ← copyToUser
  if copied then pure reply else pure .fault

def setPin (pin : Nat) (level : INT) : Drv Unit := do
  act (.gpioMode pin 0)
  act (.gpioDir pin 1)
  act (.gpioOut pin level)

/-- `(unsigned short)x` -/
def ushort (x : INT) : UINT16 := x.setWidth 16
/-- `(unsigned char)x` -/
def uchar (x : INT) : UINT8 := x.setWidth 8

/-- `stackPower` is what the uninitialised `qn_fm.power` holds: the only part of the local
`qn_fm` that leaves the function without having been assigned in it. -/
def qn8006UnlockedIoctl (stackPower : INT) : Ioctl → Drv Reply
  | .setFq frequency => fromUser do
      qndTuneToCH (ushort frequency)
      pure .done
  | .getFq => do
      let frequency ← qnfGetCh
      toUser (.int (frequency.setWidth 32))
  | .transmit => pure .done
  | .setPower power => fromUser do
      qndTXSetPower (uchar power)
      pure .done
  | .getPower => toUser (.int stackPower)
  | .audioMode audioPath => fromUser do
      setPin QN8006_SEND_AUD audioPath
      pure .done
  | .audioConfig cfgAud => fromUser do
      (if cfgAud.isRx ≠ 0 then qndRXConfigAudio (uchar cfgAud.optiontype) (uchar cfgAud.option)
      else qndTXConfigAudio (uchar cfgAud.optiontype) (uchar cfgAud.option))
      pure .done
  | .setsysMode sysMode => fromUser do
      qndSetSysMode (ushort sysMode)
      pure .done
  | .init => do
      let _ ← qndInit
      pure .done
  | .setCspin cspin => fromUser do
      setPin QN8006_CS cspin
      pure .done
  | .getRssi rssi => fromUser do
      let value ← qndGetRSSI (ushort rssi.ch)
      toUser (.rssi { rssi with rssi := value.setWidth 32 })
  | .rxseekchall rscall => fromUser do
      let ret ← qndRXSeekCHAll (ushort rscall.start) (ushort rscall.stop) (uchar rscall.step)
        (uchar rscall.db) (uchar rscall.up)
      toUser (.seek { rscall with ret := ret.setWidth 32 })
  | .rxseekch rsc => fromUser do
      let ret ← qndRXSeekCH (ushort rsc.start) (ushort rsc.stop) (uchar rsc.step)
        (uchar rsc.db) (uchar rsc.up)
      toUser (.seek { rsc with ret := ret.setWidth 32 })
  | .rdsenable rdsen => fromUser do
      let _ ← qndRDSEnable (uchar rdsen)
      pure .done
  | .getRdssignal => do
      let rdssignal ← qndRDSDetectSignal
      toUser (.int (rdssignal.setWidth 32))
  | .getIsbufready => do
      let isRDSBufReady ← qndRDSCheckBufferReady
      toUser (.int (isRDSBufReady.setWidth 32))
  | .rdsloaddata rdsld => fromUser do
      qndRDSLoadData rdsld.rdsRawData (uchar rdsld.isUpload)
      pure .done
  | .setCountry country => fromUser do
      qndSetCountry (uchar country)
      pure .done
  | .cfgfmmod cfgFMod => fromUser do
      qndConfigFMModule (uchar cfgFMod.optiontype) (uchar cfgFMod.option)
      pure .done
  | .loaddftsetting loaddftSettingCountry => fromUser do
      qndLoadDefalutSetting (uchar loaddftSettingCountry)
      pure .done
  | .txclearchscan clCHscan => fromUser do
      let ret ← qndTXClearChannelScan (ushort clCHscan.start) (ushort clCHscan.stop)
        (uchar clCHscan.step) (uchar clCHscan.db)
      toUser (.seek { clCHscan with ret := ret.setWidth 32 })
  | .powerEnable poweren => fromUser do
      act (.hwPower (uchar poweren ≠ 0))
      pure .done

section
variable {κ : Type} {b : Board κ} {w : Machine κ}

@[simp] theorem ensures_fromUser {command : Drv Reply} {post : Reply → Machine κ → Prop} :
    Ensures b.env (fromUser command) post w ↔
      if (b.respond .copyFromUser w.world).1 then
        Ensures b.env command post (w.after b .copyFromUser)
      else post .fault (w.after b .copyFromUser) := by
  simp only [fromUser, ensures_bind, ensures_copyFromUser, ensures_ite, ensures_pure]
  split
  next ok => simp [ok]
  next failed => simp [failed]

end

/-- One ioctl that returns, whatever the stack of `qn8006_unlocked_ioctl` held. -/
def IoctlStep {κ : Type} (b : Board κ) (w : Machine κ) (cmd : Ioctl) (w' : Machine κ) : Prop :=
  ∃ stackPower reply, Runs b.env (qn8006UnlockedIoctl stackPower cmd) w reply w'

def session : List Ioctl → Drv Unit
  | [] => pure ()
  | cmd :: cmds => do
    let _ ← qn8006UnlockedIoctl 0 cmd
    session cmds

theorem session_path {κ : Type} {b : Board κ} {w w' : Machine κ} {cmds : List Ioctl}
    (run : Runs b.env (session cmds) w () w') : Path (IoctlStep b) w cmds w' := by
  induction cmds generalizing w with
  | nil =>
    obtain ⟨_, rfl⟩ := runs_pure.mp run
    exact .nil w'
  | cons cmd cmds ih =>
    obtain ⟨reply, w₁, first, rest⟩ := runs_bind.mp run
    exact .cons ⟨0, reply, first⟩ (ih rest)

end Yika.Fm
