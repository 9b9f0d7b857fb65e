import Mathlib.Data.Fin.Tuple.Reflection
import Yika.Fm.Access
import Yika.Fm.RdsBuffer
import Yika.Program.Beside
import Yika.Program.Cells

/-! `qn8006_unlocked_ioctl` as the system call gets to it: the command is a number made with the
macros of `<linux/ioctl.h>`, and the argument the address of a variable in the memory of the
process. A cell of that memory is one `int`, four bytes with the lowest first; a variable stands at the
number of its first cell, a pointer that the driver follows is the address of a byte. -/

namespace Yika.Fm
open Program

abbrev Memory := Nat → INT

abbrev userSignature : Signature := cellSignature INT

/-- What the kernel does, with the memory of the calling process beside the board. -/
abbrev Kernel (α : Type) := Prog (userSignature.beside fmSignature) α

def inProcess {α : Type} (p : Prog userSignature α) : Kernel α := p.left fmSignature

def Memory.byte (m : Memory) (address : Nat) : UINT8 := intByte (m (address / 4)) (address % 4)

def withIntByte (x : INT) (k : Nat) (value : UINT8) : INT :=
  (x &&& ~~~(0xff#32 <<< (8 * k))) ||| (value.setWidth 32 <<< (8 * k))

def Memory.setByte (m : Memory) (address : Nat) (value : UINT8) : Memory :=
  Function.update m (address / 4) (withIntByte (m (address / 4)) (address % 4) value)

/-- An operation of the driver. A pointer of the caller leads to the memory of the process. -/
def driverOp : (o : FmOp) → Kernel o.Answer
  | .ext (.peek address) => do
    let word ← inProcess (loadCell (address.toNat / 4))
    pure (intByte word (address.toNat % 4))
  | .ext (.poke address value) => do
    let word ← inProcess (loadCell (address.toNat / 4))
    inProcess (storeCell (address.toNat / 4) (withIntByte word (address.toNat % 4) value))
  | o => @Prog.perform (userSignature.beside fmSignature) (.inr o)

def inDriver {α : Type} (p : Drv α) : Kernel α := p.lower driverOp

def Board.callEnv {κ : Type} (b : Board κ) : Env (userSignature.beside fmSignature) (Memory × Machine κ) :=
  (cellEnv INT).beside b.env

def Board.userEnv {κ : Type} (b : Board κ) : Env fmSignature (Memory × Machine κ)
  | .ext (.peek address), s => (s.1.byte address.toNat, s)
  | .ext (.poke address value), s => ((), (s.1.setByte address.toNat value, s.2))
  | o, s => ((b.env o s.2).1, (s.1, (b.env o s.2).2))

/-! The types of the arguments. -/

def intArg : Layout INT INT where
  size := 1
  fields := ⟨fun x => ![x], fun v => v 0, fun _ => rfl, FinVec.etaExpand_eq⟩

def cfgAudArg : Layout INT Qn8006CfgAud where
  size := 3
  fields := ⟨fun s => ![s.optiontype, s.option, s.isRx], fun v => ⟨v 0, v 1, v 2⟩, fun _ => rfl,
    FinVec.etaExpand_eq⟩

def getRssiArg : Layout INT Qn8006GetRssi where
  size := 2
  fields := ⟨fun s => ![s.ch, s.rssi], fun v => ⟨v 0, v 1⟩, fun _ => rfl,
    FinVec.etaExpand_eq⟩

def rxSeekCHArg : Layout INT Qn8006RxSeekCH where
  size := 6
  fields := ⟨fun s => ![s.start, s.stop, s.step, s.db, s.up, s.ret],
    fun v => ⟨v 0, v 1, v 2, v 3, v 4, v 5⟩, fun _ => rfl, FinVec.etaExpand_eq⟩

def rdsLoadDataArg : Layout INT Qn8006RdsLoadData where
  size := 3
  fields := ⟨fun s => ![s.rdsRawData, s.len, s.isUpload], fun v => ⟨v 0, v 1, v 2⟩, fun _ => rfl,
    FinVec.etaExpand_eq⟩

def cfgFMModArg : Layout INT Qn8006CfgFMMod where
  size := 2
  fields := ⟨fun s => ![s.optiontype, s.option], fun v => ⟨v 0, v 1⟩, fun _ => rfl,
    FinVec.etaExpand_eq⟩

/-! The numbers of the commands. -/

/-- `_IOC(dir, type, nr, size)` -/
def ioc (dir type nr size : Nat) : BitVec 32 :=
  BitVec.ofNat 32 dir <<< 30 ||| BitVec.ofNat 32 size <<< 16 ||| BitVec.ofNat 32 type <<< 8 |||
    BitVec.ofNat 32 nr

def io (type nr : Nat) : BitVec 32 := ioc 0 type nr 0

def iow {τ : Type} (type nr : Nat) (l : Layout INT τ) : BitVec 32 := ioc 1 type nr (4 * l.size)

def ior {τ : Type} (type nr : Nat) (l : Layout INT τ) : BitVec 32 := ioc 2 type nr (4 * l.size)

def QN8006_IOC_MAGIC : Nat := 0x25
def QN8006_IOC_SET_FQ : BitVec 32 := iow QN8006_IOC_MAGIC 0x00 intArg
def QN8006_IOC_GET_FQ : BitVec 32 := ior QN8006_IOC_MAGIC 0x01 intArg
def QN8006_IOC_TRANSMIT : BitVec 32 := iow QN8006_IOC_MAGIC 0x02 intArg
def QN8006_IOC_SET_POWER : BitVec 32 := iow QN8006_IOC_MAGIC 0x03 intArg
def QN8006_IOC_GET_POWER : BitVec 32 := ior QN8006_IOC_MAGIC 0x04 intArg
def QN8006_IOC_AUDIO_MODE : BitVec 32 := iow QN8006_IOC_MAGIC 0x05 intArg
def QN8006_IOC_AUDIO_CONFIG : BitVec 32 := iow QN8006_IOC_MAGIC 0x06 cfgAudArg
def QN8006_IOC_SETSYS_MODE : BitVec 32 := iow QN8006_IOC_MAGIC 0x07 intArg
def QN8006_IOC_INIT : BitVec 32 := io QN8006_IOC_MAGIC 0x08
def QN8006_IOC_SET_CSPIN : BitVec 32 := iow QN8006_IOC_MAGIC 0x09 intArg
def QN8006_IOC_GET_RSSI : BitVec 32 := ior QN8006_IOC_MAGIC 0x0a getRssiArg
def QN8006_IOC_RXSEEKCHALL : BitVec 32 := iow QN8006_IOC_MAGIC 0x0b rxSeekCHArg
def QN8006_IOC_RXSEEKCH : BitVec 32 := iow QN8006_IOC_MAGIC 0x0c rxSeekCHArg
def QN8006_IOC_RDSENABLE : BitVec 32 := iow QN8006_IOC_MAGIC 0x0d intArg
def QN8006_IOC_GET_RDSSIGNAL : BitVec 32 := ior QN8006_IOC_MAGIC 0x0e intArg
def QN8006_IOC_GET_ISBUFREADY : BitVec 32 := ior QN8006_IOC_MAGIC 0x0f intArg
def QN8006_IOC_RDSLOADDATA : BitVec 32 := iow QN8006_IOC_MAGIC 0x10 rdsLoadDataArg
def QN8006_IOC_SET_COUNTRY : BitVec 32 := iow QN8006_IOC_MAGIC 0x11 intArg
def QN8006_IOC_CFGFMMOD : BitVec 32 := iow QN8006_IOC_MAGIC 0x12 cfgFMModArg
def QN8006_IOC_LOADDFTSETTING : BitVec 32 := iow QN8006_IOC_MAGIC 0x13 intArg
def QN8006_IOC_TXCLEARCHSCAN : BitVec 32 := iow QN8006_IOC_MAGIC 0x14 rxSeekCHArg
def QN8006_IOC_POWER_ENABLE : BitVec 32 := iow QN8006_IOC_MAGIC 0x15 intArg

/-- `_IOC_SIZE(cmd)`, in `int`s. -/
def iocInts (cmd : BitVec 32) : Nat := (cmd >>> 16 &&& 0x3fff).toNat / 4

/-! The switch. -/

def EFAULT : INT := 14

namespace Kernel

/-- `copy_from_user` of a variable, and the command when it copied everything. -/
def fromUser {τ : Type} (l : Layout INT τ) (arg : Nat) (command : τ → Kernel INT) : Kernel INT := do
  let copied ← inDriver copyFromUser
  if copied then do
    let value ← inProcess (l.load arg)
    command value
  else pure (-EFAULT)

def toUser {τ : Type} (l : Layout INT τ) (arg : Nat) (value : τ) : Kernel INT := do
  let copied ← inDriver copyToUser
  if copied then do
    inProcess (l.store arg value)
    pure 0
  else pure (-EFAULT)

/-- A command that the switch does not know does nothing, and returns 0. -/
def qn8006UnlockedIoctl (stackPower : INT) (cmd : BitVec 32) (arg : Nat) : Kernel INT :=
  if cmd = QN8006_IOC_SET_FQ then
    fromUser intArg arg fun frequency => do
      inDriver (qndTuneToCH (ushort frequency))
      pure 0
  else if cmd = QN8006_IOC_GET_FQ then do
    let frequency ← inDriver qnfGetCh
    toUser intArg arg (frequency.setWidth 32)
  else if cmd = QN8006_IOC_TRANSMIT then
    pure 0
  else if cmd = QN8006_IOC_SET_POWER then
    fromUser intArg arg fun power => do
      inDriver (qndTXSetPower (uchar power))
      pure 0
  else if cmd = QN8006_IOC_GET_POWER then
    toUser intArg arg stackPower
  else if cmd = QN8006_IOC_AUDIO_MODE then
    fromUser intArg arg fun audioPath => do
      inDriver (setPin QN8006_SEND_AUD audioPath)
      pure 0
  else if cmd = QN8006_IOC_AUDIO_CONFIG then
    fromUser cfgAudArg arg fun cfgAud => do
      inDriver (if cfgAud.isRx ≠ 0 then qndRXConfigAudio (uchar cfgAud.optiontype) (uchar cfgAud.option)
        else qndTXConfigAudio (uchar cfgAud.optiontype) (uchar cfgAud.option))
      pure 0
  else if cmd = QN8006_IOC_SETSYS_MODE then
    fromUser intArg arg fun sysMode => do
      inDriver (qndSetSysMode (ushort sysMode))
      pure 0
  else if cmd = QN8006_IOC_INIT then do
    let _ ← inDriver qndInit
    pure 0
  else if cmd = QN8006_IOC_SET_CSPIN then
    fromUser intArg arg fun cspin => do
      inDriver (setPin QN8006_CS cspin)
      pure 0
  else if cmd = QN8006_IOC_GET_RSSI then
    fromUser getRssiArg arg fun rssi => do
      let value ← inDriver (qndGetRSSI (ushort rssi.ch))
      toUser getRssiArg arg { rssi with rssi := value.setWidth 32 }
  else if cmd = QN8006_IOC_RXSEEKCHALL then
    fromUser rxSeekCHArg arg fun rscall => do
      let ret ← inDriver (qndRXSeekCHAll (ushort rscall.start) (ushort rscall.stop) (uchar rscall.step)
        (uchar rscall.db) (uchar rscall.up))
      toUser rxSeekCHArg arg { rscall with ret := ret.setWidth 32 }
  else if cmd = QN8006_IOC_RXSEEKCH then
    fromUser rxSeekCHArg arg fun rsc => do
      let ret ← inDriver (qndRXSeekCH (ushort rsc.start) (ushort rsc.stop) (uchar rsc.step)
        (uchar rsc.db) (uchar rsc.up))
      toUser rxSeekCHArg arg { rsc with ret := ret.setWidth 32 }
  else if cmd = QN8006_IOC_RDSENABLE then
    fromUser intArg arg fun rdsen => do
      let _ ← inDriver (qndRDSEnable (uchar rdsen))
      pure 0
  else if cmd = QN8006_IOC_GET_RDSSIGNAL then do
    let rdssignal ← inDriver qndRDSDetectSignal
    toUser intArg arg (rdssignal.setWidth 32)
  else if cmd = QN8006_IOC_GET_ISBUFREADY then do
    let isRDSBufReady ← inDriver qndRDSCheckBufferReady
    toUser intArg arg (isRDSBufReady.setWidth 32)
  else if cmd = QN8006_IOC_RDSLOADDATA then
    fromUser rdsLoadDataArg arg fun rdsld => do
      inDriver (qndRDSLoadData rdsld.rdsRawData (uchar rdsld.isUpload))
      pure 0
  else if cmd = QN8006_IOC_SET_COUNTRY then
    fromUser intArg arg fun country => do
      inDriver (qndSetCountry (uchar country))
      pure 0
  else if cmd = QN8006_IOC_CFGFMMOD then
    fromUser cfgFMModArg arg fun cfgFMod => do
      inDriver (qndConfigFMModule (uchar cfgFMod.optiontype) (uchar cfgFMod.option))
      pure 0
  else if cmd = QN8006_IOC_LOADDFTSETTING then
    fromUser intArg arg fun loaddftSettingCountry => do
      inDriver (qndLoadDefalutSetting (uchar loaddftSettingCountry))
      pure 0
  else if cmd = QN8006_IOC_TXCLEARCHSCAN then
    fromUser rxSeekCHArg arg fun clCHscan => do
      let ret ← inDriver (qndTXClearChannelScan (ushort clCHscan.start) (ushort clCHscan.stop)
        (uchar clCHscan.step) (uchar clCHscan.db))
      toUser rxSeekCHArg arg { clCHscan with ret := ret.setWidth 32 }
  else if cmd = QN8006_IOC_POWER_ENABLE then
    fromUser intArg arg fun poweren => do
      inDriver (act (.hwPower (uchar poweren ≠ 0)))
      pure 0
  else pure 0

end Kernel

/-! What a system call asks for, and what becomes of the reply. -/

def requested (cmd : BitVec 32) (arg : Nat) (m : Memory) : Option Ioctl :=
  if cmd = QN8006_IOC_SET_FQ then some (.setFq (intArg.read m arg))
  else if cmd = QN8006_IOC_GET_FQ then some .getFq
  else if cmd = QN8006_IOC_TRANSMIT then some .transmit
  else if cmd = QN8006_IOC_SET_POWER then some (.setPower (intArg.read m arg))
  else if cmd = QN8006_IOC_GET_POWER then some .getPower
  else if cmd = QN8006_IOC_AUDIO_MODE then some (.audioMode (intArg.read m arg))
  else if cmd = QN8006_IOC_AUDIO_CONFIG then some (.audioConfig (cfgAudArg.read m arg))
  else if cmd = QN8006_IOC_SETSYS_MODE then some (.setsysMode (intArg.read m arg))
  else if cmd = QN8006_IOC_INIT then some .init
  else if cmd = QN8006_IOC_SET_CSPIN then some (.setCspin (intArg.read m arg))
  else if cmd = QN8006_IOC_GET_RSSI then some (.getRssi (getRssiArg.read m arg))
  else if cmd = QN8006_IOC_RXSEEKCHALL then some (.rxseekchall (rxSeekCHArg.read m arg))
  else if cmd = QN8006_IOC_RXSEEKCH then some (.rxseekch (rxSeekCHArg.read m arg))
  else if cmd = QN8006_IOC_RDSENABLE then some (.rdsenable (intArg.read m arg))
  else if cmd = QN8006_IOC_GET_RDSSIGNAL then some .getRdssignal
  else if cmd = QN8006_IOC_GET_ISBUFREADY then some .getIsbufready
  else if cmd = QN8006_IOC_RDSLOADDATA then some (.rdsloaddata (rdsLoadDataArg.read m arg))
  else if cmd = QN8006_IOC_SET_COUNTRY then some (.setCountry (intArg.read m arg))
  else if cmd = QN8006_IOC_CFGFMMOD then some (.cfgfmmod (cfgFMModArg.read m arg))
  else if cmd = QN8006_IOC_LOADDFTSETTING then some (.loaddftsetting (intArg.read m arg))
  else if cmd = QN8006_IOC_TXCLEARCHSCAN then some (.txclearchscan (rxSeekCHArg.read m arg))
  else if cmd = QN8006_IOC_POWER_ENABLE then some (.powerEnable (intArg.read m arg))
  else none

def Ioctl.number : Ioctl → BitVec 32
  | .setFq _ => QN8006_IOC_SET_FQ
  | .getFq => QN8006_IOC_GET_FQ
  | .transmit => QN8006_IOC_TRANSMIT
  | .setPower _ => QN8006_IOC_SET_POWER
  | .getPower => QN8006_IOC_GET_POWER
  | .audioMode _ => QN8006_IOC_AUDIO_MODE
  | .audioConfig _ => QN8006_IOC_AUDIO_CONFIG
  | .setsysMode _ => QN8006_IOC_SETSYS_MODE
  | .init => QN8006_IOC_INIT
  | .setCspin _ => QN8006_IOC_SET_CSPIN
  | .getRssi _ => QN8006_IOC_GET_RSSI
  | .rxseekchall _ => QN8006_IOC_RXSEEKCHALL
  | .rxseekch _ => QN8006_IOC_RXSEEKCH
  | .rdsenable _ => QN8006_IOC_RDSENABLE
  | .getRdssignal => QN8006_IOC_GET_RDSSIGNAL
  | .getIsbufready => QN8006_IOC_GET_ISBUFREADY
  | .rdsloaddata _ => QN8006_IOC_RDSLOADDATA
  | .setCountry _ => QN8006_IOC_SET_COUNTRY
  | .cfgfmmod _ => QN8006_IOC_CFGFMMOD
  | .loaddftsetting _ => QN8006_IOC_LOADDFTSETTING
  | .txclearchscan _ => QN8006_IOC_TXCLEARCHSCAN
  | .powerEnable _ => QN8006_IOC_POWER_ENABLE

def Ioctl.ints : Ioctl → Nat
  | .audioConfig _ => cfgAudArg.size
  | .getRssi _ => getRssiArg.size
  | .rxseekchall _ | .rxseekch _ | .txclearchscan _ => rxSeekCHArg.size
  | .rdsloaddata _ => rdsLoadDataArg.size
  | .cfgfmmod _ => cfgFMModArg.size
  | .init => 0
  | _ => intArg.size

def Ioctl.placed (m : Memory) (arg : Nat) : Ioctl → Memory
  | .setFq x | .setPower x | .audioMode x | .setsysMode x | .setCspin x | .rdsenable x | .setCountry x
  | .loaddftsetting x | .powerEnable x => intArg.write m arg x
  | .audioConfig x => cfgAudArg.write m arg x
  | .getRssi x => getRssiArg.write m arg x
  | .rxseekchall x | .rxseekch x | .txclearchscan x => rxSeekCHArg.write m arg x
  | .rdsloaddata x => rdsLoadDataArg.write m arg x
  | .cfgfmmod x => cfgFMModArg.write m arg x
  | .getFq | .transmit | .getPower | .init | .getRdssignal | .getIsbufready => m

def serve (stackPower : INT) : Option Ioctl → Drv Reply
  | some cmd => qn8006UnlockedIoctl stackPower cmd
  | none => pure .done

def Reply.code : Reply → INT
  | .fault => -EFAULT
  | .done | .int _ | .rssi _ | .seek _ => 0

def Reply.sent (m : Memory) (arg : Nat) : Reply → Memory
  | .fault | .done => m
  | .int value => intArg.write m arg value
  | .rssi value => getRssiArg.write m arg value
  | .seek value => rxSeekCHArg.write m arg value

section
variable {κ : Type} {b : Board κ} {α τ : Type} {size arg : Nat} {m m' : Memory} {w w' : Machine κ}
  {code out : INT} {s s' : Memory × Machine κ}

theorem runs_inProcess {p : Prog userSignature α} {out : α} :
    Runs b.callEnv (inProcess p) (m, w) out s' ↔ ∃ m', Runs (cellEnv INT) p m out m' ∧ s' = (m', w) := runs_left

theorem driverOp_refines (b : Board κ) : Refines b.callEnv b.userEnv driverOp (fun _ => True) id := by
  rintro o ⟨m, w⟩ _
  cases o with
  | ext e =>
    cases e with
    | peek address =>
      have loaded : Runs b.callEnv (inProcess (loadCell (address.toNat / 4))) (m, w) (m (address.toNat / 4)) (m, w) :=
        runs_inProcess.mpr ⟨m, runs_loadCell.mpr ⟨rfl, rfl⟩, rfl⟩
      exact ⟨_, _, loaded.seq (runs_pure.mpr ⟨rfl, rfl⟩), rfl, trivial, rfl⟩
    | poke address value =>
      have loaded : Runs b.callEnv (inProcess (loadCell (address.toNat / 4))) (m, w) (m (address.toNat / 4)) (m, w) :=
        runs_inProcess.mpr ⟨m, runs_loadCell.mpr ⟨rfl, rfl⟩, rfl⟩
      have stored : Runs b.callEnv (inProcess (storeCell (address.toNat / 4)
          (withIntByte (m (address.toNat / 4)) (address.toNat % 4) value))) (m, w) ()
          (m.setByte address.toNat value, w) :=
        runs_inProcess.mpr ⟨_, runs_storeCell.mpr rfl, rfl⟩
      exact ⟨(), _, loaded.seq stored, rfl, trivial, rfl⟩
    | _ => exact achieves_perform.mpr ⟨rfl, trivial, rfl⟩
  | _ => exact achieves_perform.mpr ⟨rfl, trivial, rfl⟩

theorem runs_inDriver {p : Drv α} {out : α} : Runs b.callEnv (inDriver p) s out s' ↔ Runs b.userEnv p s out s' := by
  constructor
  · intro run
    exact (run.raise (driverOp_refines b) trivial).1
  · intro run
    obtain ⟨_, lowered, _, rfl⟩ := run.lower (driverOp_refines b) trivial rfl
    exact lowered

/-- The driver does not follow a pointer. -/
def Stays (p : Drv α) : Prop := Uses (fun o => driverOp o = @Prog.perform (userSignature.beside fmSignature) (.inr o)) p

theorem Stays.runs_iff {p : Drv α} {out : α} (stays : Stays p) :
    Runs b.userEnv p (m, w) out s' ↔ ∃ w', Runs b.env p w out w' ∧ s' = (m, w') := by
  have same : inDriver p = p.right userSignature := lower_congr stays
  rw [← runs_inDriver, same]
  exact runs_right

theorem stays_of_reads {p : Drv α} {user : Prop} {regs : List UINT8} {bytes : Set Var8} {halves : Set Var16}
    (uses : Uses (Reads user regs bytes halves) p) (not : ¬user) : Stays p := by
  refine uses.mono fun o reads => ?_
  cases o with
  | ext e =>
    cases e with
    | peek address => exact absurd reads not
    | poke address value => exact absurd reads not
    | _ => rfl
  | _ => rfl

theorem ioctl_stays (sp : INT) {request : Ioctl} (not : ¬request.Derefs) : Stays (qn8006UnlockedIoctl sp request) :=
  stays_of_reads (qn8006UnlockedIoctl_reads sp request) not

/-- In this memory the kernel does what the driver does for a request, and the reply changes no more
of the memory than the `size` cells from `arg` on. -/
structure Carries (b : Board κ) (size arg : Nat) (m : Memory) (p : Kernel INT) (d : Drv Reply) : Prop where
  runs_iff : ∀ w code s', Runs b.callEnv p (m, w) code s' ↔
    ∃ reply m₁ w', Runs b.userEnv d (m, w) reply (m₁, w') ∧ code = reply.code ∧ s' = (reply.sent m₁ arg, w')
  within : ∀ w reply m₁ w', Runs b.userEnv d (m, w) reply (m₁, w') →
    ∀ c, c < arg ∨ arg + size ≤ c → reply.sent m₁ arg c = m₁ c

theorem Carries.ends {p : Kernel INT} {d : Drv Reply} (carries : Carries b size arg m p d) {w' : Machine κ}
    {m' : Memory} : Runs b.callEnv p (m, w) code (m', w') ↔
      ∃ reply m₁, Runs b.userEnv d (m, w) reply (m₁, w') ∧ code = reply.code ∧ m' = reply.sent m₁ arg := by
  rw [carries.runs_iff]
  constructor
  · rintro ⟨reply, m₁, w₁, run, same, there⟩
    obtain ⟨rfl, rfl⟩ := Prod.mk.inj there
    exact ⟨reply, m₁, run, same, rfl⟩
  · rintro ⟨reply, m₁, run, same, rfl⟩
    exact ⟨reply, m₁, w', run, same, rfl⟩

theorem carries_pure (reply : Reply) (none : ∀ m, reply.sent m arg = m) :
    Carries b size arg m (pure reply.code) (pure reply) where
  runs_iff w code s' := by
    constructor
    · intro run
      obtain ⟨rfl, rfl⟩ := runs_pure.mp run
      exact ⟨reply, m, w, runs_pure.mpr ⟨rfl, rfl⟩, rfl, by rw [none]⟩
    · rintro ⟨reply', m₁, w', run, rfl, rfl⟩
      obtain ⟨rfl, here⟩ := runs_pure.mp run
      obtain ⟨rfl, rfl⟩ := Prod.mk.inj here
      rw [none]
      exact runs_pure.mpr ⟨rfl, rfl⟩
  within w reply' m₁ w' run c _ := by
    obtain ⟨rfl, _⟩ := runs_pure.mp run
    rw [none]

theorem carries_bind {p : Drv α} {f : α → Kernel INT} {g : α → Drv Reply}
    (each : ∀ x m, Carries b size arg m (f x) (g x)) :
    Carries b size arg m (inDriver p >>= f) (p >>= g) where
  runs_iff w code s' := by
    constructor
    · intro run
      obtain ⟨x, ⟨m₁, w₁⟩, first, rest⟩ := runs_bind.mp run
      obtain ⟨reply, m₂, w', later, same, there⟩ := ((each x m₁).runs_iff w₁ code s').mp rest
      exact ⟨reply, m₂, w', (runs_inDriver.mp first).seq later, same, there⟩
    · rintro ⟨reply, m₂, w', run, same, there⟩
      obtain ⟨x, ⟨m₁, w₁⟩, made, later⟩ := runs_bind.mp run
      have rest : Runs b.callEnv (f x) (m₁, w₁) code s' :=
        ((each x m₁).runs_iff w₁ code s').mpr ⟨reply, m₂, w', later, same, there⟩
      exact (runs_inDriver.mpr made).seq rest
  within w reply m₂ w' run := by
    obtain ⟨x, ⟨m₁, w₁⟩, _, later⟩ := runs_bind.mp run
    exact (each x m₁).within w₁ reply m₂ w' later

theorem carries_copy {copy : Ext} {f : copy.Answer → Kernel INT} {g : copy.Answer → Drv Reply} (stays : Stays (ext copy))
    (each : ∀ x, Carries b size arg m (f x) (g x)) :
    Carries b size arg m (inDriver (ext copy) >>= f) (ext copy >>= g) where
  runs_iff w code s' := by
    constructor
    · intro run
      obtain ⟨x, s₁, first, rest⟩ := runs_bind.mp run
      obtain ⟨w₁, made, rfl⟩ := stays.runs_iff.mp (runs_inDriver.mp first)
      obtain ⟨reply, m₂, w', later, same, there⟩ := ((each x).runs_iff w₁ code s').mp rest
      exact ⟨reply, m₂, w', (stays.runs_iff.mpr ⟨w₁, made, rfl⟩).seq later, same, there⟩
    · rintro ⟨reply, m₂, w', run, same, there⟩
      obtain ⟨x, s₁, first, later⟩ := runs_bind.mp run
      obtain ⟨w₁, made, rfl⟩ := stays.runs_iff.mp first
      have rest : Runs b.callEnv (f x) (m, w₁) code s' :=
        ((each x).runs_iff w₁ code s').mpr ⟨reply, m₂, w', later, same, there⟩
      exact (runs_inDriver.mpr first).seq rest
  within w reply m₂ w' run := by
    obtain ⟨x, s₁, first, later⟩ := runs_bind.mp run
    obtain ⟨w₁, _, rfl⟩ := stays.runs_iff.mp first
    exact (each x).within w₁ reply m₂ w' later

theorem carries_toUser {l : Layout INT τ} {reply : Reply} {value : τ} (done : reply.code = 0)
    (copied : ∀ m, reply.sent m arg = l.write m arg value) :
    Carries b l.size arg m (Kernel.toUser l arg value) (toUser reply) := by
  refine carries_copy ⟨rfl, fun _ => trivial⟩ fun back => ?_
  cases back with
  | false => exact carries_pure .fault fun _ => rfl
  | true =>
    refine ⟨fun w code s' => ?_, fun w reply' m₁ w' run c outside => ?_⟩
    · constructor
      · intro run
        obtain ⟨_, s₁, stored, last⟩ := runs_bind.mp run
        obtain ⟨m', here, rfl⟩ := runs_inProcess.mp stored
        obtain rfl := Layout.runs_store.mp here
        obtain ⟨rfl, rfl⟩ := runs_pure.mp last
        exact ⟨reply, m, w, runs_pure.mpr ⟨rfl, rfl⟩, done.symm, by rw [copied]⟩
      · rintro ⟨reply', m₁, w', run, rfl, rfl⟩
        obtain ⟨rfl, here⟩ := runs_pure.mp run
        obtain ⟨rfl, rfl⟩ := Prod.mk.inj here
        rw [copied, done]
        exact (runs_inProcess.mpr ⟨_, Layout.runs_store.mpr rfl, rfl⟩).seq (runs_pure.mpr ⟨rfl, rfl⟩)
    · obtain ⟨rfl, _⟩ := runs_pure.mp run
      rw [copied]
      exact Layout.write_outside outside

theorem carries_fromUser {l : Layout INT τ} {command : τ → Kernel INT} {d : Drv Reply}
    (carries : Carries b size arg m (command (l.read m arg)) d) :
    Carries b size arg m (Kernel.fromUser l arg command) (fromUser d) := by
  refine carries_copy ⟨rfl, fun _ => trivial⟩ fun copied => ?_
  cases copied with
  | false => exact carries_pure .fault fun _ => rfl
  | true =>
    refine ⟨fun w code s' => ?_, carries.within⟩
    rw [if_pos rfl, if_pos rfl, ← carries.runs_iff]
    constructor
    · intro run
      obtain ⟨value, s₁, loaded, rest⟩ := runs_bind.mp run
      obtain ⟨m', here, rfl⟩ := runs_inProcess.mp loaded
      obtain ⟨rfl, rfl⟩ := Layout.runs_load.mp here
      exact rest
    · intro rest
      exact (runs_inProcess.mpr ⟨m, Layout.runs_load.mpr ⟨rfl, rfl⟩, rfl⟩).seq rest

theorem carries_ite {c : Prop} [Decidable c] {p q : Kernel INT} {sp : INT} {yes no : Option Ioctl}
    (first : c → Carries b size arg m p (serve sp yes)) (second : ¬c → Carries b size arg m q (serve sp no)) :
    Carries b size arg m (if c then p else q) (serve sp (if c then yes else no)) := by
  split
  next holds => exact first holds
  next fails => exact second fails

theorem carries_sized {l : Layout INT τ} {cmd number : BitVec 32} {p : Kernel INT} {d : Drv Reply}
    (sized : iocInts number = l.size) (carries : Carries b l.size arg m p d) (same : cmd = number) :
    Carries b (iocInts cmd) arg m p d := by
  rw [same, sized]
  exact carries

/-! The forms that the commands have: an argument for the driver, an `int` back, or a scan. -/

theorem carries_set {l : Layout INT τ} {body : τ → Drv α} : Carries b size arg m
    (Kernel.fromUser l arg fun x => inDriver (body x) >>= fun _ => pure 0)
    (fromUser (body (l.read m arg) >>= fun _ => pure .done)) :=
  carries_fromUser (carries_bind fun _ _ => carries_pure .done fun _ => rfl)

theorem carries_get {cmd number : BitVec 32} {body : Drv α} {value : α → INT}
    (sized : iocInts number = intArg.size) (same : cmd = number) : Carries b (iocInts cmd) arg m
    (inDriver body >>= fun x => Kernel.toUser intArg arg (value x))
    (body >>= fun x => toUser (.int (value x))) :=
  carries_sized sized (carries_bind fun _ _ => carries_toUser rfl fun _ => rfl) same

theorem carries_scan {cmd number : BitVec 32} {body : Qn8006RxSeekCH → Drv α} {value : α → INT}
    (sized : iocInts number = rxSeekCHArg.size) (same : cmd = number) : Carries b (iocInts cmd) arg m
    (Kernel.fromUser rxSeekCHArg arg fun x => inDriver (body x) >>= fun ret =>
      Kernel.toUser rxSeekCHArg arg { x with ret := value ret })
    (fromUser (body (rxSeekCHArg.read m arg) >>= fun ret =>
      toUser (.seek { rxSeekCHArg.read m arg with ret := value ret }))) :=
  carries_sized sized (carries_fromUser (carries_bind fun _ _ => carries_toUser rfl fun _ => rfl)) same

/-- The switch carries out the request of the number, and leaves the memory outside a variable of
the size in the number alone. -/
theorem switch_carries (sp : INT) (cmd : BitVec 32) : Carries b (iocInts cmd) arg m
    (Kernel.qn8006UnlockedIoctl sp cmd arg) (serve sp (requested cmd arg m)) := by
  unfold Kernel.qn8006UnlockedIoctl requested
  refine carries_ite (fun _ => carries_set) fun _ => ?_ -- QN8006_IOC_SET_FQ
  refine carries_ite (fun same => carries_get rfl same) fun _ => ?_ -- QN8006_IOC_GET_FQ
  refine carries_ite (fun _ => carries_pure .done fun _ => rfl) fun _ => ?_ -- QN8006_IOC_TRANSMIT
  refine carries_ite (fun _ => carries_set) fun _ => ?_ -- QN8006_IOC_SET_POWER
  refine carries_ite (fun same => carries_sized rfl (carries_toUser rfl fun _ => rfl) same) fun _ => ?_ -- QN8006_IOC_GET_POWER
  refine carries_ite (fun _ => carries_set) fun _ => ?_ -- QN8006_IOC_AUDIO_MODE
  refine carries_ite (fun _ => carries_set) fun _ => ?_ -- QN8006_IOC_AUDIO_CONFIG
  refine carries_ite (fun _ => carries_set) fun _ => ?_ -- QN8006_IOC_SETSYS_MODE
  refine carries_ite (fun _ => carries_bind fun _ _ => carries_pure .done fun _ => rfl) fun _ => ?_ -- QN8006_IOC_INIT
  refine carries_ite (fun _ => carries_set) fun _ => ?_ -- QN8006_IOC_SET_CSPIN
  refine carries_ite (fun same => ?_) fun _ => ?_ -- QN8006_IOC_GET_RSSI
  · exact carries_sized rfl (carries_fromUser (carries_bind fun _ _ => carries_toUser rfl fun _ => rfl)) same
  refine carries_ite (fun same => carries_scan rfl same) fun _ => ?_ -- QN8006_IOC_RXSEEKCHALL
  refine carries_ite (fun same => carries_scan rfl same) fun _ => ?_ -- QN8006_IOC_RXSEEKCH
  refine carries_ite (fun _ => carries_set) fun _ => ?_ -- QN8006_IOC_RDSENABLE
  refine carries_ite (fun same => carries_get rfl same) fun _ => ?_ -- QN8006_IOC_GET_RDSSIGNAL
  refine carries_ite (fun same => carries_get rfl same) fun _ => ?_ -- QN8006_IOC_GET_ISBUFREADY
  refine carries_ite (fun _ => carries_set) fun _ => ?_ -- QN8006_IOC_RDSLOADDATA
  refine carries_ite (fun _ => carries_set) fun _ => ?_ -- QN8006_IOC_SET_COUNTRY
  refine carries_ite (fun _ => carries_set) fun _ => ?_ -- QN8006_IOC_CFGFMMOD
  refine carries_ite (fun _ => carries_set) fun _ => ?_ -- QN8006_IOC_LOADDFTSETTING
  refine carries_ite (fun same => carries_scan rfl same) fun _ => ?_ -- QN8006_IOC_TXCLEARCHSCAN
  refine carries_ite (fun _ => carries_set) fun _ => ?_ -- QN8006_IOC_POWER_ENABLE
  exact carries_pure .done fun _ => rfl

theorem requested_placed (request : Ioctl) :
    requested request.number arg (request.placed m arg) = some request := by
  cases request with
  | getFq | transmit | getPower | init | getRdssignal | getIsbufready => rfl
  | setFq x => exact congrArg (fun x => some (Ioctl.setFq x)) Layout.read_write
  | setPower x => exact congrArg (fun x => some (Ioctl.setPower x)) Layout.read_write
  | audioMode x => exact congrArg (fun x => some (Ioctl.audioMode x)) Layout.read_write
  | audioConfig x => exact congrArg (fun x => some (Ioctl.audioConfig x)) Layout.read_write
  | setsysMode x => exact congrArg (fun x => some (Ioctl.setsysMode x)) Layout.read_write
  | setCspin x => exact congrArg (fun x => some (Ioctl.setCspin x)) Layout.read_write
  | getRssi x => exact congrArg (fun x => some (Ioctl.getRssi x)) Layout.read_write
  | rxseekchall x => exact congrArg (fun x => some (Ioctl.rxseekchall x)) Layout.read_write
  | rxseekch x => exact congrArg (fun x => some (Ioctl.rxseekch x)) Layout.read_write
  | rdsenable x => exact congrArg (fun x => some (Ioctl.rdsenable x)) Layout.read_write
  | rdsloaddata x => exact congrArg (fun x => some (Ioctl.rdsloaddata x)) Layout.read_write
  | setCountry x => exact congrArg (fun x => some (Ioctl.setCountry x)) Layout.read_write
  | cfgfmmod x => exact congrArg (fun x => some (Ioctl.cfgfmmod x)) Layout.read_write
  | loaddftsetting x => exact congrArg (fun x => some (Ioctl.loaddftsetting x)) Layout.read_write
  | txclearchscan x => exact congrArg (fun x => some (Ioctl.txclearchscan x)) Layout.read_write
  | powerEnable x => exact congrArg (fun x => some (Ioctl.powerEnable x)) Layout.read_write

theorem number_ite {c : Prop} [Decidable c] {cmd : BitVec 32} {first : Ioctl} {rest : Option Ioctl}
    (here : c → cmd = first.number) (there : ∀ request, rest = some request → cmd = request.number)
    (request : Ioctl) (found : (if c then some first else rest) = some request) : cmd = request.number := by
  split at found
  next holds => exact Option.some.inj found ▸ here holds
  next => exact there request found

theorem requested_number {cmd : BitVec 32} (request : Ioctl) :
    requested cmd arg m = some request → cmd = request.number := by
  unfold requested
  revert request
  repeat refine number_ite (fun same => same) ?_
  exact fun _ => nofun

theorem ints_number (request : Ioctl) : iocInts request.number = request.ints := by
  cases request <;> (simp only [Ioctl.number]; rfl)

theorem carries_request (sp : INT) (request : Ioctl) :
    Carries b request.ints arg (request.placed m arg)
      (Kernel.qn8006UnlockedIoctl sp request.number arg) (qn8006UnlockedIoctl sp request) := by
  have carries : Carries b (iocInts request.number) arg (request.placed m arg)
      (Kernel.qn8006UnlockedIoctl sp request.number arg)
      (serve sp (requested request.number arg (request.placed m arg))) := switch_carries sp _
  rwa [requested_placed, ints_number] at carries

theorem carries_placed (sp : INT) {request : Ioctl} (placed : request.placed m arg = m) :
    Carries b request.ints arg m (Kernel.qn8006UnlockedIoctl sp request.number arg)
      (qn8006UnlockedIoctl sp request) := by
  have carries : Carries b request.ints arg (request.placed m arg)
      (Kernel.qn8006UnlockedIoctl sp request.number arg) (qn8006UnlockedIoctl sp request) :=
    carries_request sp request
  rwa [placed] at carries

theorem carries_unknown {cmd : BitVec 32} (sp : INT) (unknown : ∀ request : Ioctl, cmd ≠ request.number) :
    Carries b (iocInts cmd) arg m (Kernel.qn8006UnlockedIoctl sp cmd arg) (pure .done) := by
  have carries : Carries b (iocInts cmd) arg m (Kernel.qn8006UnlockedIoctl sp cmd arg)
      (serve sp (requested cmd arg m)) := switch_carries sp cmd
  cases found : requested cmd arg m with
  | none => rwa [found] at carries
  | some request => exact absurd (requested_number request found) (unknown request)

/-- Where the driver follows no pointer it is left alone with the board. -/
theorem request_runs (sp : INT) {request : Ioctl} (not : ¬request.Derefs) (placed : request.placed m arg = m) :
    Runs b.callEnv (Kernel.qn8006UnlockedIoctl sp request.number arg) (m, w) code s' ↔
      ∃ reply w', Runs b.env (qn8006UnlockedIoctl sp request) w reply w' ∧ code = reply.code ∧
        s' = (reply.sent m arg, w') := by
  rw [(carries_placed sp placed).runs_iff]
  constructor
  · rintro ⟨reply, m₁, w', run, same, there⟩
    obtain ⟨w₁, alone, here⟩ := (ioctl_stays sp not).runs_iff.mp run
    obtain ⟨rfl, rfl⟩ := Prod.mk.inj here
    exact ⟨reply, w', alone, same, there⟩
  · rintro ⟨reply, w', run, same, there⟩
    exact ⟨reply, m, w', (ioctl_stays sp not).runs_iff.mpr ⟨w', run, rfl⟩, same, there⟩

theorem request_within (sp : INT) {request : Ioctl} (not : ¬request.Derefs) (placed : request.placed m arg = m)
    {reply : Reply} (run : Runs b.env (qn8006UnlockedIoctl sp request) w reply w') {c : Nat}
    (outside : c < arg ∨ arg + request.ints ≤ c) : reply.sent m arg c = m c :=
  (carries_placed sp placed).within w reply m w' ((ioctl_stays sp not).runs_iff.mpr ⟨w', run, rfl⟩) c outside

/-! The bytes of the process. -/

theorem intByte_bit (x : INT) (k i : Nat) : (intByte x k).getLsbD i = (decide (i < 8) && x.getLsbD (8 * k + i)) := by
  simp [intByte]

theorem lowByte_bit (n : Nat) : (0xff#32).getLsbD n = decide (n < 8) := by
  by_cases low : n < 32
  · have all : ∀ n < 32, (0xff#32).getLsbD n = decide (n < 8) := by decide
    exact all n low
  · rw [BitVec.getLsbD_of_ge _ _ (by omega), decide_eq_false (by omega)]

theorem withIntByte_bit {k : Nat} (x : INT) (value : UINT8) {n : Nat} (low : n < 32) :
    (withIntByte x k value).getLsbD n = if 8 * k ≤ n ∧ n < 8 * k + 8 then value.getLsbD (n - 8 * k) else x.getLsbD n := by
  rw [withIntByte, BitVec.getLsbD_or, BitVec.getLsbD_and, BitVec.getLsbD_not, BitVec.getLsbD_shiftLeft,
    BitVec.getLsbD_shiftLeft, BitVec.getLsbD_setWidth, lowByte_bit]
  simp only [low, decide_true, Bool.true_and]
  by_cases below : n < 8 * k
  · simp [below]
  · by_cases inside : n < 8 * k + 8
    · have offset : n - 8 * k < 8 := by omega
      have offset' : n - 8 * k < 32 := by omega
      simp [below, inside, offset, offset', Nat.le_of_not_lt below]
    · have beyond : ¬n - 8 * k < 8 := by omega
      have none : value.getLsbD (n - 8 * k) = false := BitVec.getLsbD_of_ge _ _ (by omega)
      simp [below, inside, beyond, none]
theorem intByte_withIntByte {j k : Nat} (inside : j < 4) (inside' : k < 4) (x : INT) (value : UINT8) :
    intByte (withIntByte x k value) j = if j = k then value else intByte x j := by
  apply BitVec.eq_of_getLsbD_eq
  intro i low
  rw [intByte_bit, withIntByte_bit x value (by omega)]
  by_cases same : j = k
  · subst same
    rw [if_pos (by omega), if_pos rfl, Nat.add_sub_cancel_left]
    simp [low]
  · rw [if_neg (by omega), if_neg same, intByte_bit]

theorem byte_setByte (m : Memory) (a a' : Nat) (value : UINT8) :
    (m.setByte a value).byte a' = if a' = a then value else m.byte a' := by
  unfold Memory.byte Memory.setByte
  by_cases cell : a' / 4 = a / 4
  · rw [cell, Function.update_self, intByte_withIntByte (Nat.mod_lt a' (by decide)) (Nat.mod_lt a (by decide))]
    have same : a' % 4 = a % 4 ↔ a' = a := by omega
    simp only [same]
  · have other : a' ≠ a := fun same => cell (same ▸ rfl)
    rw [Function.update_of_ne cell, if_neg other]

/-- The operation stores nothing in this byte. -/
def Spares (a : Nat) : FmOp → Prop
  | .ext (.poke address _) => a ≠ address.toNat
  | _ => True

theorem byte_spared {p : Drv α} {out : α} {a : Nat} (spares : Uses (Spares a) p) (run : Runs b.userEnv p s out s') :
    s'.1.byte a = s.1.byte a := by
  refine spares.frame (fun s => s.1.byte a) (fun o s spared => ?_) run
  cases o with
  | ext e =>
    cases e with
    | poke address value => exact (byte_setByte s.1 address.toNat a value).trans (if_neg spared)
    | _ => rfl
  | _ => rfl

/-- Only a download stores anything on its own. -/
theorem ioctl_spares (sp : INT) (request : Ioctl) (a : Nat)
    (other : ∀ rdsld, request = .rdsloaddata rdsld → uchar rdsld.isUpload = 0 →
      ∀ i < 8, a ≠ (rdsld.rdsRawData + BitVec.ofNat 32 i).toNat) :
    Uses (Spares a) (qn8006UnlockedIoctl sp request) := by
  have quiet (not : ¬request.Derefs) : Uses (Spares a) (qn8006UnlockedIoctl sp request) := by
    refine (qn8006UnlockedIoctl_reads sp request).mono fun o reads => ?_
    cases o with
    | ext e =>
      cases e with
      | poke address value => exact absurd reads not
      | _ => trivial
    | _ => trivial
  cases request with
  | rdsloaddata rdsld =>
    refine uses_bind ⟨trivial, fun _ => trivial⟩ fun copied => uses_ite.mpr ⟨fun _ => ?_, fun _ => uses_pure _⟩
    refine uses_bind (uses_ite.mpr ⟨fun _ => uses_forRange ?_, fun down => uses_forRange ?_⟩) fun _ => uses_pure _
    · intro i _ _
      simp [Spares]
    · intro i _ inside
      have spared := other rdsld rfl (by simpa using down) i (by omega)
      simpa [Spares] using spared
  | _ => exact quiet not_false

end

/-- Memory in which 5 is the variable of a download of eight bytes to 400. -/
def downloadMemory : Memory := fun c => if c = 5 then 400 else if c = 6 then 8 else 0

end Yika.Fm
