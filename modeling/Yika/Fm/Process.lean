import Yika.Fm.Abi
import Yika.Fm.OnPins
import Yika.Fm.Reads
import Yika.Fm.Tuning

/-! The native methods of the service, in the process that calls them: the functions of the JNI
library and of the HAL, with the variable that a call passes to the driver in the memory of the
process. `RDSLoadData`, which passes an array, has its own module. -/

namespace Yika.Fm
open Program

/-- What the frames of a call have: the address of the variable that is passed, and what is left of
`qn_fm.power` in that of the ioctl. -/
structure Frames where
  address : Nat
  stackPower : INT

namespace Process

/-! The HAL, `qn8006mod.c`. What `ioctl` returns is only logged. -/

namespace Hal

def QN8006_IOC_MAGIC : Nat := 0x25
def QN8006_IOC_SET_FQ : BitVec 32 := iow QN8006_IOC_MAGIC 0x00 intArg
def QN8006_IOC_GET_FQ : BitVec 32 := ior QN8006_IOC_MAGIC 0x01 intArg
def QN8006_IOC_SET_POWER : BitVec 32 := iow QN8006_IOC_MAGIC 0x03 intArg
def QN8006_IOC_GET_POWER : BitVec 32 := ior QN8006_IOC_MAGIC 0x04 intArg
def QN8006_IOC_AUDIO_MODE : BitVec 32 := iow QN8006_IOC_MAGIC 0x05 intArg
def QN8006_IOC_AUDIO_CONFIG : BitVec 32 := iow QN8006_IOC_MAGIC 0x06 cfgAudArg
def QN8006_IOC_SETSYS_MODE : BitVec 32 := iow QN8006_IOC_MAGIC 0x07 intArg
def QN8006_IOC_INIT : BitVec 32 := io QN8006_IOC_MAGIC 0x08
def QN8006_IOC_SET_CSPIN : BitVec 32 := iow QN8006_IOC_MAGIC 0x09 intArg
def QN8006_IOC_GET_RSSI : BitVec 32 := ior QN8006_IOC_MAGIC 0x0a getRssiArg
def QN8006_IOC_RXSEEKCHALL : BitVec 32 := iow QN8006_IOC_MAGIC 0x0b rxSeekCHArg
def QN8006_IOC_RXSEEKCH : BitVec 32 := iow QN8006_IOC_MAGIC 0x0c rxSeekCHArg
def QN8006_IOC_RDSENABLE : BitVec 32 := iow QN8006_IOC_MAGIC 0x0d intArg
def QN8006_IOC_GET_RDSSIGNAL : BitVec 32 := ior QN8006_IOC_MAGIC 0x0e intArg
def QN8006_IOC_GET_ISBUFREADY : BitVec 32 := ior QN8006_IOC_MAGIC 0x0f intArg
def QN8006_IOC_SET_COUNTRY : BitVec 32 := iow QN8006_IOC_MAGIC 0x11 intArg
def QN8006_IOC_CFGFMMOD : BitVec 32 := iow QN8006_IOC_MAGIC 0x12 cfgFMModArg
def QN8006_IOC_LOADDFTSETTING : BitVec 32 := iow QN8006_IOC_MAGIC 0x13 intArg
def QN8006_IOC_TXCLEARCHSCAN : BitVec 32 := iow QN8006_IOC_MAGIC 0x14 rxSeekCHArg
def QN8006_IOC_POWER_ENABLE : BitVec 32 := iow QN8006_IOC_MAGIC 0x15 intArg

def put {τ : Type} (l : Layout INT τ) (number : BitVec 32) (value : τ) (frames : Frames) : Kernel INT := do
  inProcess (l.store frames.address value)
  let _ ← Kernel.qn8006UnlockedIoctl frames.stackPower number frames.address
  pure 0

def fetch (number : BitVec 32) (frames : Frames) : Kernel INT := do
  let _ ← Kernel.qn8006UnlockedIoctl frames.stackPower number frames.address
  pure 0

/-- The first fields of a struct are assigned, and one is returned once it has been passed. -/
def ask {n : Nat} (number : BitVec 32) (inputs : Fin n → INT) (output : Nat) (frames : Frames) :
    Kernel INT := do
  inProcess (storeCells n frames.address inputs)
  let _ ← Kernel.qn8006UnlockedIoctl frames.stackPower number frames.address
  inProcess (loadCell (frames.address + output))

def qn8006SetFrequency (fq : INT) : Frames → Kernel INT := put intArg QN8006_IOC_SET_FQ fq

def qn8006GetFrequency : Frames → Kernel INT := fetch QN8006_IOC_GET_FQ

def qn8006SetPower (pwer : INT) : Frames → Kernel INT := put intArg QN8006_IOC_SET_POWER pwer

def qn8006GetPower : Frames → Kernel INT := fetch QN8006_IOC_GET_POWER

def qn8006AudioMode (audmode : INT) : Frames → Kernel INT := put intArg QN8006_IOC_AUDIO_MODE audmode

def qn8006AudioConfig (optiontype option isRx : INT) : Frames → Kernel INT :=
  put cfgAudArg QN8006_IOC_AUDIO_CONFIG ⟨optiontype, option, isRx⟩

def qn8006SystemMode (sysmode : INT) : Frames → Kernel INT := put intArg QN8006_IOC_SETSYS_MODE sysmode

/-- `ret` is passed, with its -1. -/
def qn8006Init : Frames → Kernel INT := put intArg QN8006_IOC_INIT (-1)

def qn8006CsPin (level : INT) : Frames → Kernel INT := put intArg QN8006_IOC_SET_CSPIN level

def qn8006GetRSSI (ch : INT) : Frames → Kernel INT := ask QN8006_IOC_GET_RSSI ![ch] 1

def qn8006RxSeekCHAll (start stop step db up : INT) : Frames → Kernel INT :=
  ask QN8006_IOC_RXSEEKCHALL ![start, stop, step, db, up] 5

def qn8006RxSeekCH (start stop step db up : INT) : Frames → Kernel INT :=
  ask QN8006_IOC_RXSEEKCH ![start, stop, step, db, up] 5

def qn8006RDSEnable (en : INT) : Frames → Kernel INT := put intArg QN8006_IOC_RDSENABLE en

def qn8006RDSDetectSignal : Frames → Kernel INT := fetch QN8006_IOC_GET_RDSSIGNAL

def qn8006RDSCheckBufferReady : Frames → Kernel INT := fetch QN8006_IOC_GET_ISBUFREADY

def qn8006SetCountry (country : INT) : Frames → Kernel INT := put intArg QN8006_IOC_SET_COUNTRY country

def qn8006ConfigFMModule (optiontype option : INT) : Frames → Kernel INT :=
  put cfgFMModArg QN8006_IOC_CFGFMMOD ⟨optiontype, option⟩

def qn8006LoadDefalutSetting (country : INT) : Frames → Kernel INT :=
  put intArg QN8006_IOC_LOADDFTSETTING country

def qn8006TxClearChannelScan (start stop step db : INT) : Frames → Kernel INT :=
  ask QN8006_IOC_TXCLEARCHSCAN ![start, stop, step, db] 5

/-- Only `qn8006mod.c.txt` has its body. -/
def qn8006PowerEnable (en : INT) : Frames → Kernel INT := put intArg QN8006_IOC_POWER_ENABLE en

end Hal

/-! The JNI library. `qn8006Device` says whether the device has been opened. -/

namespace Jni

/-- `jboolean` is an unsigned byte. -/
def jboolean (x : INT) : INT := (uchar x).setWidth 32

/-- The value when `hw_get_module` finds the HAL or not, and the HAL can open the device or not. -/
def qn8006JniInit (found opens : Bool) : INT :=
  jboolean (if found then (if opens then 0 else -1) else -1)

def set (qn8006Device : Bool) (hal : Frames → Kernel INT) (frames : Frames) : Kernel Unit :=
  Prog.when (qn8006Device = true) do
    let _ ← hal frames
    pure ()

/-- With a variable of the function that starts at 0. -/
def get (qn8006Device : Bool) (hal : Frames → Kernel INT) (frames : Frames) : Kernel INT := do
  inProcess (storeCell frames.address 0)
  if qn8006Device then do
    let _ ← hal frames
    inProcess (loadCell frames.address)
  else pure (-1)

def ask (qn8006Device : Bool) (hal : Frames → Kernel INT) (frames : Frames) : Kernel INT :=
  if qn8006Device then hal frames else pure (-1)

section
variable (qn8006Device : Bool)

def qn8006SetFrequency (fq : INT) : Frames → Kernel Unit := set qn8006Device (Hal.qn8006SetFrequency fq)

def qn8006GetFrequency : Frames → Kernel INT := get qn8006Device Hal.qn8006GetFrequency

def qn8006SetPower (pwer : INT) : Frames → Kernel Unit := set qn8006Device (Hal.qn8006SetPower pwer)

def qn8006GetPower : Frames → Kernel INT := get qn8006Device Hal.qn8006GetPower

def qn8006SetAudioMode (mode : INT) : Frames → Kernel Unit := set qn8006Device (Hal.qn8006AudioMode mode)

def qn8006SetAudioConfig (optType opt isrx : INT) : Frames → Kernel Unit :=
  set qn8006Device (Hal.qn8006AudioConfig optType opt isrx)

def qn8006SetSystemMode (mode : INT) : Frames → Kernel Unit := set qn8006Device (Hal.qn8006SystemMode mode)

def qn8006Init : Frames → Kernel Unit := set qn8006Device Hal.qn8006Init

def comAndroidServerQn8006CsPin (level : INT) : Frames → Kernel Unit :=
  set qn8006Device (Hal.qn8006CsPin level)

def comAndroidServerQn8006GetRSSI (ch : INT) : Frames → Kernel INT :=
  ask qn8006Device (Hal.qn8006GetRSSI ch)

def comAndroidServerQn8006RxSeekCHAll (start stop step db up : INT) : Frames → Kernel INT :=
  ask qn8006Device (Hal.qn8006RxSeekCHAll start stop step db up)

def comAndroidServerQn8006RxSeekCH (start stop step db up : INT) : Frames → Kernel INT :=
  ask qn8006Device (Hal.qn8006RxSeekCH start stop step db up)

def comAndroidServerQn8006RDSEnable (en : INT) : Frames → Kernel Unit :=
  set qn8006Device (Hal.qn8006RDSEnable en)

def comAndroidServerQn8006RDSDetectSignal : Frames → Kernel INT :=
  get qn8006Device Hal.qn8006RDSDetectSignal

def comAndroidServerQn8006RDSCheckBufferReady : Frames → Kernel INT :=
  get qn8006Device Hal.qn8006RDSCheckBufferReady

def comAndroidServerQn8006SetCountry (cty : INT) : Frames → Kernel Unit :=
  set qn8006Device (Hal.qn8006SetCountry cty)

def comAndroidServerQn8006ConfigFMModule (optType opt : INT) : Frames → Kernel Unit :=
  set qn8006Device (Hal.qn8006ConfigFMModule optType opt)

def comAndroidServerQn8006LoadDefalutSetting (cty : INT) : Frames → Kernel Unit :=
  set qn8006Device (Hal.qn8006LoadDefalutSetting cty)

def comAndroidServerQn8006TxClearChannelScan (start stop step db : INT) : Frames → Kernel INT :=
  ask qn8006Device (Hal.qn8006TxClearChannelScan start stop step db)

def comAndroidServerQn8006PowerEnable (en : INT) : Frames → Kernel Unit :=
  set qn8006Device (Hal.qn8006PowerEnable en)

end

end Jni

end Process

/-! The native methods, in the process and as requests to the driver. -/

inductive WriteOperation where
  | setFrequency (fq : INT)
  | setPower (pwer : INT)
  | setAudioMode (mode : INT)
  | setAudioConfig (optType opt isrx : INT)
  | setSystemMode (mode : INT)
  | init
  | csPin (level : INT)
  | rdsEnable (en : INT)
  | setCountry (cty : INT)
  | configFMModule (optType opt : INT)
  | loadDefalutSetting (cty : INT)
  | powerEnable (en : INT)
  deriving DecidableEq

def WriteOperation.inProcess (qn8006Device : Bool) : WriteOperation → Frames → Kernel Unit
  | .setFrequency fq => Process.Jni.qn8006SetFrequency qn8006Device fq
  | .setPower pwer => Process.Jni.qn8006SetPower qn8006Device pwer
  | .setAudioMode mode => Process.Jni.qn8006SetAudioMode qn8006Device mode
  | .setAudioConfig optType opt isrx => Process.Jni.qn8006SetAudioConfig qn8006Device optType opt isrx
  | .setSystemMode mode => Process.Jni.qn8006SetSystemMode qn8006Device mode
  | .init => Process.Jni.qn8006Init qn8006Device
  | .csPin level => Process.Jni.comAndroidServerQn8006CsPin qn8006Device level
  | .rdsEnable en => Process.Jni.comAndroidServerQn8006RDSEnable qn8006Device en
  | .setCountry cty => Process.Jni.comAndroidServerQn8006SetCountry qn8006Device cty
  | .configFMModule optType opt => Process.Jni.comAndroidServerQn8006ConfigFMModule qn8006Device optType opt
  | .loadDefalutSetting cty => Process.Jni.comAndroidServerQn8006LoadDefalutSetting qn8006Device cty
  | .powerEnable en => Process.Jni.comAndroidServerQn8006PowerEnable qn8006Device en

def ReadOperation.inProcess (qn8006Device : Bool) : ReadOperation → Frames → Kernel INT
  | .getFrequency => Process.Jni.qn8006GetFrequency qn8006Device
  | .getPower => Process.Jni.qn8006GetPower qn8006Device
  | .getRSSI ch => Process.Jni.comAndroidServerQn8006GetRSSI qn8006Device ch
  | .rxSeekCHAll start stop step db up =>
    Process.Jni.comAndroidServerQn8006RxSeekCHAll qn8006Device start stop step db up
  | .rxSeekCH start stop step db up =>
    Process.Jni.comAndroidServerQn8006RxSeekCH qn8006Device start stop step db up
  | .rdsDetectSignal => Process.Jni.comAndroidServerQn8006RDSDetectSignal qn8006Device
  | .rdsCheckBufferReady => Process.Jni.comAndroidServerQn8006RDSCheckBufferReady qn8006Device
  | .txClearChannelScan start stop step db =>
    Process.Jni.comAndroidServerQn8006TxClearChannelScan qn8006Device start stop step db

def WriteOperation.command : WriteOperation → Ioctl
  | .setFrequency fq => .setFq fq
  | .setPower pwer => .setPower pwer
  | .setAudioMode mode => .audioMode mode
  | .setAudioConfig optType opt isrx => .audioConfig ⟨optType, opt, isrx⟩
  | .setSystemMode mode => .setsysMode mode
  | .init => .init
  | .csPin level => .setCspin level
  | .rdsEnable en => .rdsenable en
  | .setCountry cty => .setCountry cty
  | .configFMModule optType opt => .cfgfmmod ⟨optType, opt⟩
  | .loadDefalutSetting cty => .loaddftsetting cty
  | .powerEnable en => .powerEnable en

def WriteOperation.call (qn8006Device : Bool) (stack : Stack) (op : WriteOperation) : Drv Unit :=
  Prog.when (qn8006Device = true) do
    let _ ← qn8006UnlockedIoctl stack.qnFmPower op.command
    pure ()

def WriteOperation.ints : WriteOperation → Nat
  | .setAudioConfig _ _ _ => cfgAudArg.size
  | .configFMModule _ _ => cfgFMModArg.size
  | _ => intArg.size

def ReadOperation.ints : ReadOperation → Nat
  | .getRSSI _ => getRssiArg.size
  | .rxSeekCHAll _ _ _ _ _ | .rxSeekCH _ _ _ _ _ | .txClearChannelScan _ _ _ _ => rxSeekCHArg.size
  | .getFrequency | .getPower | .rdsDetectSignal | .rdsCheckBufferReady => intArg.size

def Frames.stack (frames : Frames) (m : Memory) : Stack where
  qnFmPower := frames.stackPower
  tmpRssi := getRssiArg.read m frames.address
  tmpRscall := rxSeekCHArg.read m frames.address
  tmpRsc := rxSeekCHArg.read m frames.address
  tmptxclscan := rxSeekCHArg.read m frames.address

/-! The process follows the requests. -/

section
variable {κ : Type} {b : Board κ} {α β τ : Type} {size address : Nat} {m m₁ : Memory} {w w' : Machine κ}

/-- In this memory a program of the process does what `d` does with the driver, and writes no more than the
`size` cells from `address` on. -/
structure Follows (b : Board κ) (address size : Nat) (m : Memory) (p : Kernel α) (d : Drv α) : Prop where
  raise : ∀ w out s', Runs b.callEnv p (m, w) out s' →
    Runs b.env d w out s'.2 ∧ ∀ c, c < address ∨ address + size ≤ c → s'.1 c = m c
  lower : ∀ w out w', Runs b.env d w out w' → ∃ m', Runs b.callEnv p (m, w) out (m', w')

theorem follows_pure {value : α} : Follows b address size m (pure value) (pure value) where
  raise w out s' run := by
    obtain ⟨rfl, rfl⟩ := runs_pure.mp run
    exact ⟨runs_pure.mpr ⟨rfl, rfl⟩, fun _ _ => rfl⟩
  lower w out w' run := by
    obtain ⟨rfl, rfl⟩ := runs_pure.mp run
    exact ⟨m, runs_pure.mpr ⟨rfl, rfl⟩⟩

theorem Follows.map {p : Kernel α} {d : Drv α} (follows : Follows b address size m p d) (f : α → β) :
    Follows b address size m (f <$> p) (f <$> d) where
  raise w out s' run := by
    obtain ⟨x, made, rfl⟩ := runs_map.mp run
    obtain ⟨raised, kept⟩ := follows.raise w x s' made
    exact ⟨runs_map.mpr ⟨x, raised, rfl⟩, kept⟩
  lower w out w' run := by
    obtain ⟨x, made, rfl⟩ := runs_map.mp run
    obtain ⟨m', lowered⟩ := follows.lower w x w' made
    exact ⟨m', runs_map.mpr ⟨x, lowered, rfl⟩⟩

theorem Follows.after {stored : Prog userSignature Unit} {p : Kernel α} {d : Drv α}
    (follows : Follows b address size m₁ p d)
    (writes : ∀ m', Runs (cellEnv INT) stored m () m' ↔ m' = m₁)
    (kept : ∀ c, c < address ∨ address + size ≤ c → m₁ c = m c) :
    Follows b address size m (inProcess stored >>= fun _ => p) d where
  raise w out s' run := by
    obtain ⟨_, s₁, first, rest⟩ := runs_bind.mp run
    obtain ⟨m', here, rfl⟩ := runs_inProcess.mp first
    obtain rfl := (writes m').mp here
    obtain ⟨raised, later⟩ := follows.raise w out s' rest
    exact ⟨raised, fun c outside => (later c outside).trans (kept c outside)⟩
  lower w out w' run := by
    obtain ⟨m', lowered⟩ := follows.lower w out w' run
    exact ⟨m', (runs_inProcess.mpr ⟨m₁, (writes m₁).mpr rfl, rfl⟩).seq lowered⟩

/-- A request whose argument stands in memory, and what is then loaded. -/
theorem follows_request {sp : INT} {number : BitVec 32} {request : Ioctl} {last : Prog userSignature α}
    {found : Memory → α} {value : Reply → α} (same : number = request.number)
    (stays : ¬request.Derefs) (placed : request.placed m address = m) (fits : request.ints ≤ size)
    (loads : ∀ m' x m'', Runs (cellEnv INT) last m' x m'' ↔ x = found m' ∧ m'' = m')
    (read : ∀ w reply w', Runs b.env (qn8006UnlockedIoctl sp request) w reply w' →
      found (reply.sent m address) = value reply) :
    Follows b address size m (do
      let _ ← Kernel.qn8006UnlockedIoctl sp number address
      inProcess last) (do
      let reply ← qn8006UnlockedIoctl sp request
      pure (value reply)) := by
  subst same
  refine ⟨fun w out s' run => ?_, fun w out w' run => ?_⟩
  · obtain ⟨code, s₁, called, rest⟩ := runs_bind.mp run
    obtain ⟨reply, w₁, made, rfl, rfl⟩ := (request_runs sp stays placed).mp called
    obtain ⟨m', here, rfl⟩ := runs_inProcess.mp rest
    obtain ⟨rfl, rfl⟩ := (loads _ _ _).mp here
    refine ⟨made.seq (runs_pure.mpr ⟨read w reply w₁ made, rfl⟩), fun c outside => ?_⟩
    exact request_within sp stays placed made (by omega)
  · obtain ⟨reply, w₁, made, last⟩ := runs_bind.mp run
    obtain ⟨rfl, rfl⟩ := runs_pure.mp last
    have called : Runs b.callEnv (Kernel.qn8006UnlockedIoctl sp request.number address) (m, w) reply.code
        (reply.sent m address, w') := (request_runs sp stays placed).mpr ⟨reply, w', made, rfl, rfl⟩
    exact ⟨reply.sent m address, called.seq
      (runs_inProcess.mpr ⟨_, (loads _ _ _).mpr ⟨(read w reply w' made).symm, rfl⟩, rfl⟩)⟩

theorem follows_set {l : Layout INT τ} {number : BitVec 32} {value : τ} {frames : Frames} {request : Ioctl}
    (same : number = request.number) (stays : ¬request.Derefs) (fits : request.ints ≤ l.size)
    (placed : request.placed (l.write m frames.address value) frames.address = l.write m frames.address value) :
    Follows b frames.address l.size m (Process.Jni.set true (Process.Hal.put l number value) frames) (do
      let _ ← qn8006UnlockedIoctl frames.stackPower request
      pure ()) := by
  have shape : Process.Jni.set true (Process.Hal.put l number value) frames =
      inProcess (l.store frames.address value) >>= fun _ => (do
        let _ ← Kernel.qn8006UnlockedIoctl frames.stackPower number frames.address
        inProcess (pure ())) := by
    simp only [Process.Jni.set, Process.Hal.put, Prog.when, if_true, bind_assoc, pure_bind]
    rfl
  rw [shape]
  have requests := @follows_request κ b Unit l.size frames.address (l.write m frames.address value)
    frames.stackPower number request (pure ()) (fun _ => ()) (fun _ => ()) same stays placed fits
    (fun _ _ _ => runs_pure) fun _ _ _ _ => rfl
  exact requests.after (fun _ => Layout.runs_store) fun _ outside => Layout.write_outside outside

theorem write_write {l : Layout INT τ} {value : τ} :
    l.write (l.write m address value) address value = l.write m address value := by
  have written : l.write (l.write m address value) address (l.read (l.write m address value) address) =
      l.write m address value := Layout.write_read
  rwa [Layout.read_write] at written

theorem follows_get {number : BitVec 32} {frames : Frames} {request : Ioctl} (same : number = request.number)
    (stays : ¬request.Derefs) (fits : request.ints = intArg.size) (bare : ∀ m, request.placed m frames.address = m)
    (answers : ∀ w reply w', Runs b.env (qn8006UnlockedIoctl frames.stackPower request) w reply w' →
      reply = .fault ∨ ∃ value, reply = .int value) :
    Follows b frames.address intArg.size m (Process.Jni.get true (Process.Hal.fetch number) frames) (do
      let reply ← qn8006UnlockedIoctl frames.stackPower request
      pure (reply.intOr 0)) := by
  have shape : Process.Jni.get true (Process.Hal.fetch number) frames =
      inProcess (storeCell frames.address 0) >>= fun _ => (do
        let _ ← Kernel.qn8006UnlockedIoctl frames.stackPower number frames.address
        inProcess (loadCell frames.address)) := by
    simp only [Process.Jni.get, Process.Hal.fetch, if_true, bind_assoc, pure_bind]
  have read : ∀ w reply w', Runs b.env (qn8006UnlockedIoctl frames.stackPower request) w reply w' →
      reply.sent (Function.update m frames.address 0) frames.address frames.address = reply.intOr 0 := by
    intro w reply w' run
    rcases answers w reply w' run with rfl | ⟨value, rfl⟩
    · exact Function.update_self _ _ _
    · exact @Layout.read_write INT INT intArg frames.address (Function.update m frames.address 0) value
  rw [shape]
  have requests := @follows_request κ b INT intArg.size frames.address (Function.update m frames.address 0)
    frames.stackPower number request (loadCell frames.address) (fun m' => m' frames.address)
    (fun reply => reply.intOr 0) same stays (bare _) (Nat.le_of_eq fits) (fun _ _ _ => runs_loadCell) read
  refine requests.after (fun _ => runs_storeCell) fun c outside => Function.update_of_ne ?_ _ _
  have one : intArg.size = 1 := rfl
  omega

theorem follows_ask {n output : Nat} {number : BitVec 32} {inputs : Fin n → INT} {frames : Frames}
    {request : Ioctl} {value : Reply → INT} (same : number = request.number)
    (stays : ¬request.Derefs) (fits : request.ints ≤ size) (inside : n ≤ size)
    (placed : request.placed (overwrite m frames.address inputs) frames.address =
      overwrite m frames.address inputs)
    (read : ∀ w reply w', Runs b.env (qn8006UnlockedIoctl frames.stackPower request) w reply w' →
      reply.sent (overwrite m frames.address inputs) frames.address (frames.address + output) = value reply) :
    Follows b frames.address size m (Process.Jni.ask true (Process.Hal.ask number inputs output) frames) (do
      let reply ← qn8006UnlockedIoctl frames.stackPower request
      pure (value reply)) := by
  have requests := @follows_request κ b INT size frames.address (overwrite m frames.address inputs)
    frames.stackPower number request (loadCell (frames.address + output))
    (fun m' => m' (frames.address + output)) value same stays placed fits (fun _ _ _ => runs_loadCell) read
  exact requests.after (fun _ => runs_storeCells) fun c outside => overwrite_outside (by omega)

/-! What is replied to the methods that read. -/

theorem answers_toUser {reply answer : Reply} (run : Runs b.env (toUser reply) w answer w') :
    answer = .fault ∨ answer = reply := by
  obtain ⟨copied, w₁, _, last⟩ := runs_bind.mp run
  cases copied with
  | false => exact .inl (runs_pure.mp last).1
  | true => exact .inr (runs_pure.mp last).1

theorem answers_fromUser {d : Drv Reply} {answer : Reply} (run : Runs b.env (fromUser d) w answer w') :
    answer = .fault ∨ ∃ w₁, Runs b.env d w₁ answer w' := by
  obtain ⟨copied, w₁, _, rest⟩ := runs_bind.mp run
  cases copied with
  | false => exact .inl (runs_pure.mp rest).1
  | true => exact .inr ⟨w₁, rest⟩

theorem answers_int {body : Drv α} {value : α → INT} {answer : Reply}
    (run : Runs b.env (body >>= fun x => toUser (.int (value x))) w answer w') :
    answer = .fault ∨ ∃ value, answer = .int value := by
  obtain ⟨x, w₁, _, last⟩ := runs_bind.mp run
  exact (answers_toUser last).imp_right fun same => ⟨value x, same⟩

theorem answers_struct {body : Drv α} {reply : α → Reply} {answer : Reply}
    (run : Runs b.env (fromUser (body >>= fun x => toUser (reply x))) w answer w') :
    answer = .fault ∨ ∃ x, answer = reply x := by
  rcases answers_fromUser run with fault | ⟨w₁, rest⟩
  · exact .inl fault
  · obtain ⟨x, w₂, _, last⟩ := runs_bind.mp rest
    exact (answers_toUser last).imp_right fun same => ⟨x, same⟩

/-! The structs, once their first fields have been assigned. -/

theorem rssi_assigned {ch : INT} : getRssiArg.read (overwrite m address ![ch]) address =
    { getRssiArg.read m address with ch := ch } := by
  have first : overwrite m address ![ch] (address + (0 : Fin 1)) = ch := overwrite_inside 0
  have second : overwrite m address ![ch] (address + 1) = m (address + 1) := overwrite_outside (by omega)
  exact congrArg₂ Qn8006GetRssi.mk first second

theorem seek_assigned {start stop step db up : INT} :
    rxSeekCHArg.read (overwrite m address ![start, stop, step, db, up]) address =
      { rxSeekCHArg.read m address with start := start, stop := stop, step := step, db := db, up := up } := by
  have fields (i : Fin 5) : overwrite m address ![start, stop, step, db, up] (address + i) =
      ![start, stop, step, db, up] i := overwrite_inside i
  have last : overwrite m address ![start, stop, step, db, up] (address + 5) = m (address + 5) :=
    overwrite_outside (by omega)
  exact Qn8006RxSeekCH.mk.injEq .. |>.mpr ⟨fields 0, fields 1, fields 2, fields 3, fields 4, last⟩

theorem clear_assigned {start stop step db : INT} :
    rxSeekCHArg.read (overwrite m address ![start, stop, step, db]) address =
      { rxSeekCHArg.read m address with start := start, stop := stop, step := step, db := db } := by
  have fields (i : Fin 4) : overwrite m address ![start, stop, step, db] (address + i) =
      ![start, stop, step, db] i := overwrite_inside i
  have later : ∀ c, address + 4 ≤ c → overwrite m address ![start, stop, step, db] c = m c :=
    fun c above => overwrite_outside (.inr above)
  exact Qn8006RxSeekCH.mk.injEq .. |>.mpr ⟨fields 0, fields 1, fields 2, fields 3,
    later (address + 4) (by omega), later (address + 5) (by omega)⟩

theorem placed_read {l : Layout INT τ} {value : τ} (read : l.read m address = value) :
    l.write m address value = m := by
  rw [← read, Layout.write_read]

theorem follows_scan {n : Nat} {number : BitVec 32} {inputs : Fin n → INT} {frames : Frames}
    {request : Ioctl} {passed : Qn8006RxSeekCH} (body : Drv α) (value : α → INT) (inside : n ≤ 6)
    (same : number = request.number) (stays : ¬request.Derefs) (fits : request.ints = rxSeekCHArg.size)
    (assigned : rxSeekCHArg.read (overwrite m frames.address inputs) frames.address = passed)
    (placed : request.placed (overwrite m frames.address inputs) frames.address =
      rxSeekCHArg.write (overwrite m frames.address inputs) frames.address passed)
    (form : qn8006UnlockedIoctl frames.stackPower request =
      fromUser (body >>= fun x => toUser (.seek { passed with ret := value x }))) :
    Follows b frames.address rxSeekCHArg.size m
      (Process.Jni.ask true (Process.Hal.ask number inputs 5) frames) (do
        let reply ← qn8006UnlockedIoctl frames.stackPower request
        pure (reply.seekOr passed).ret) := by
  refine follows_ask same stays (Nat.le_of_eq fits) inside (placed.trans (placed_read assigned)) ?_
  intro w reply w' run
  rw [form] at run
  rcases answers_struct run with rfl | ⟨x, rfl⟩
  · exact congrArg Qn8006RxSeekCH.ret assigned
  · have sent := @Layout.read_write INT Qn8006RxSeekCH rxSeekCHArg frames.address
      (overwrite m frames.address inputs) { passed with ret := value x }
    exact congrArg Qn8006RxSeekCH.ret sent

theorem write_follows (op : WriteOperation) (qn8006Device : Bool) (frames : Frames) :
    Follows b frames.address op.ints m (op.inProcess qn8006Device frames)
      (op.call qn8006Device (frames.stack m)) := by
  cases qn8006Device with
  | false => cases op <;> exact follows_pure
  | true =>
    cases op with
    | init => exact follows_set rfl not_false (Nat.zero_le _) rfl
    | setFrequency | setPower | setAudioMode | setAudioConfig | setSystemMode | csPin | rdsEnable | setCountry
    | configFMModule | loadDefalutSetting | powerEnable =>
      exact follows_set rfl not_false (Nat.le_of_eq rfl) write_write

theorem follows_closed (hal : Frames → Kernel INT) (frames : Frames) :
    Follows b frames.address intArg.size m (Process.Jni.get false hal frames) (pure (-1)) := by
  refine follows_pure.after (fun _ => runs_storeCell) fun c outside => Function.update_of_ne ?_ _ _
  have one : intArg.size = 1 := rfl
  omega

theorem read_follows (op : ReadOperation) (qn8006Device : Bool) (frames : Frames) :
    Follows b frames.address op.ints m (op.inProcess qn8006Device frames)
      (op.call qn8006Device (frames.stack m)) := by
  cases qn8006Device with
  | false =>
    cases op with
    | getFrequency | getPower | rdsDetectSignal | rdsCheckBufferReady => exact follows_closed _ frames
    | getRSSI | rxSeekCHAll | rxSeekCH | txClearChannelScan => exact follows_pure
  | true =>
    cases op with
    | getFrequency => exact follows_get rfl not_false rfl (fun _ => rfl) fun _ _ _ run => answers_int run
    | rdsDetectSignal => exact follows_get rfl not_false rfl (fun _ => rfl) fun _ _ _ run => answers_int run
    | rdsCheckBufferReady => exact follows_get rfl not_false rfl (fun _ => rfl) fun _ _ _ run => answers_int run
    | getPower =>
      exact follows_get rfl not_false rfl (fun _ => rfl) fun _ _ _ run =>
        (answers_toUser run).imp_right fun same => ⟨_, same⟩
    | getRSSI ch =>
      refine follows_ask rfl not_false (Nat.le_of_eq rfl) (Nat.le_succ 1) (placed_read rssi_assigned) ?_
      intro w reply w' run
      rcases answers_struct run with rfl | ⟨value, rfl⟩
      · exact congrArg Qn8006GetRssi.rssi rssi_assigned
      · have sent := @Layout.read_write INT Qn8006GetRssi getRssiArg frames.address
          (overwrite m frames.address ![ch]) ⟨ch, value.setWidth 32⟩
        exact congrArg Qn8006GetRssi.rssi sent
    | rxSeekCHAll start stop step db up =>
      exact follows_scan (qndRXSeekCHAll (ushort start) (ushort stop) (uchar step) (uchar db) (uchar up))
        (·.setWidth 32) (by decide) rfl not_false rfl seek_assigned rfl rfl
    | rxSeekCH start stop step db up =>
      exact follows_scan (qndRXSeekCH (ushort start) (ushort stop) (uchar step) (uchar db) (uchar up))
        (·.setWidth 32) (by decide) rfl not_false rfl seek_assigned rfl rfl
    | txClearChannelScan start stop step db =>
      exact follows_scan (qndTXClearChannelScan (ushort start) (ushort stop) (uchar step) (uchar db))
        (·.setWidth 32) (by decide) rfl not_false rfl clear_assigned rfl rfl

end

end Yika.Fm
