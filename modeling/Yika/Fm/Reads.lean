import Yika.Fm.Tuning

/-! The eight operations that read through the ioctl: the functions of the HAL and of the JNI
library, each with what its uninitialised variables hold when it is entered. -/

namespace Yika.Fm
open Program

/-- The initial contents of the uninitialised variables on the way: `qn_fm.power` of the ioctl,
of which no other part leaves it unassigned, and the structs of the HAL. -/
structure Stack where
  qnFmPower : INT
  tmpRssi : Qn8006GetRssi
  tmpRscall : Qn8006RxSeekCH
  tmpRsc : Qn8006RxSeekCH
  tmptxclscan : Qn8006RxSeekCH

def Stack.filled (value : INT) : Stack where
  qnFmPower := value
  tmpRssi := ⟨value, value⟩
  tmpRscall := ⟨value, value, value, value, value, value⟩
  tmpRsc := ⟨value, value, value, value, value, value⟩
  tmptxclscan := ⟨value, value, value, value, value, value⟩

/-! What the caller's variable holds once the ioctl has returned. -/

def Reply.intOr (before : INT) : Reply → INT
  | .int value => value
  | .fault | .done | .rssi _ | .seek _ => before

def Reply.rssiOr (before : Qn8006GetRssi) : Reply → Qn8006GetRssi
  | .rssi value => value
  | .fault | .done | .int _ | .seek _ => before

def Reply.seekOr (before : Qn8006RxSeekCH) : Reply → Qn8006RxSeekCH
  | .seek value => value
  | .fault | .done | .int _ | .rssi _ => before

/-! The HAL. Where a function stores through a pointer, the value is what is stored there in the
end. -/

namespace Hal

def qn8006GetFrequency (stack : Stack) (fq : INT) : Drv INT := do
  let reply ← qn8006UnlockedIoctl stack.qnFmPower .getFq
  pure (reply.intOr fq)

def qn8006GetPower (stack : Stack) (pwer : INT) : Drv INT := do
  let reply ← qn8006UnlockedIoctl stack.qnFmPower .getPower
  pure (reply.intOr pwer)

def qn8006GetRSSI (stack : Stack) (ch : INT) : Drv INT := do
  let tmpRssi := { stack.tmpRssi with ch := ch }
  let reply ← qn8006UnlockedIoctl stack.qnFmPower (.getRssi tmpRssi)
  pure (reply.rssiOr tmpRssi).rssi

def qn8006RxSeekCHAll (stack : Stack) (start stop step db up : INT) : Drv INT := do
  let tmpRscall := { stack.tmpRscall with start := start, stop := stop, step := step, db := db, up := up }
  let reply ← qn8006UnlockedIoctl stack.qnFmPower (.rxseekchall tmpRscall)
  pure (reply.seekOr tmpRscall).ret

def qn8006RxSeekCH (stack : Stack) (start stop step db up : INT) : Drv INT := do
  let tmpRsc := { stack.tmpRsc with start := start, stop := stop, step := step, db := db, up := up }
  let reply ← qn8006UnlockedIoctl stack.qnFmPower (.rxseekch tmpRsc)
  pure (reply.seekOr tmpRsc).ret

def qn8006RDSDetectSignal (stack : Stack) (sig : INT) : Drv INT := do
  let reply ← qn8006UnlockedIoctl stack.qnFmPower .getRdssignal
  pure (reply.intOr sig)

def qn8006RDSCheckBufferReady (stack : Stack) (chkbufready : INT) : Drv INT := do
  let reply ← qn8006UnlockedIoctl stack.qnFmPower .getIsbufready
  pure (reply.intOr chkbufready)

/-- The field `up` is left as it is. -/
def qn8006TxClearChannelScan (stack : Stack) (start stop step db : INT) : Drv INT := do
  let tmptxclscan := { stack.tmptxclscan with start := start, stop := stop, step := step, db := db }
  let reply ← qn8006UnlockedIoctl stack.qnFmPower (.txclearchscan tmptxclscan)
  pure (reply.seekOr tmptxclscan).ret

end Hal

/-! The JNI functions. `qn8006Device` says whether the device has been opened. -/

namespace Jni

def qn8006GetFrequency (qn8006Device : Bool) (stack : Stack) : Drv INT :=
  if qn8006Device then Hal.qn8006GetFrequency stack 0 else pure (-1)

def qn8006GetPower (qn8006Device : Bool) (stack : Stack) : Drv INT :=
  if qn8006Device then Hal.qn8006GetPower stack 0 else pure (-1)

def comAndroidServerQn8006GetRSSI (qn8006Device : Bool) (stack : Stack) (ch : INT) : Drv INT :=
  if qn8006Device then Hal.qn8006GetRSSI stack ch else pure (-1)

def comAndroidServerQn8006RxSeekCHAll (qn8006Device : Bool) (stack : Stack)
    (start stop step db up : INT) : Drv INT :=
  if qn8006Device then Hal.qn8006RxSeekCHAll stack start stop step db up else pure (-1)

def comAndroidServerQn8006RxSeekCH (qn8006Device : Bool) (stack : Stack)
    (start stop step db up : INT) : Drv INT :=
  if qn8006Device then Hal.qn8006RxSeekCH stack start stop step db up else pure (-1)

def comAndroidServerQn8006RDSDetectSignal (qn8006Device : Bool) (stack : Stack) : Drv INT :=
  if qn8006Device then Hal.qn8006RDSDetectSignal stack 0 else pure (-1)

def comAndroidServerQn8006RDSCheckBufferReady (qn8006Device : Bool) (stack : Stack) : Drv INT :=
  if qn8006Device then Hal.qn8006RDSCheckBufferReady stack 0 else pure (-1)

def comAndroidServerQn8006TxClearChannelScan (qn8006Device : Bool) (stack : Stack)
    (start stop step db : INT) : Drv INT :=
  if qn8006Device then Hal.qn8006TxClearChannelScan stack start stop step db else pure (-1)

end Jni

inductive ReadOperation where
  | getFrequency
  | getPower
  | getRSSI (ch : INT)
  | rxSeekCHAll (start stop step db up : INT)
  | rxSeekCH (start stop step db up : INT)
  | rdsDetectSignal
  | rdsCheckBufferReady
  | txClearChannelScan (start stop step db : INT)
  deriving DecidableEq

def ReadOperation.call (qn8006Device : Bool) (stack : Stack) : ReadOperation → Drv INT
  | .getFrequency => Jni.qn8006GetFrequency qn8006Device stack
  | .getPower => Jni.qn8006GetPower qn8006Device stack
  | .getRSSI ch => Jni.comAndroidServerQn8006GetRSSI qn8006Device stack ch
  | .rxSeekCHAll start stop step db up =>
    Jni.comAndroidServerQn8006RxSeekCHAll qn8006Device stack start stop step db up
  | .rxSeekCH start stop step db up =>
    Jni.comAndroidServerQn8006RxSeekCH qn8006Device stack start stop step db up
  | .rdsDetectSignal => Jni.comAndroidServerQn8006RDSDetectSignal qn8006Device stack
  | .rdsCheckBufferReady => Jni.comAndroidServerQn8006RDSCheckBufferReady qn8006Device stack
  | .txClearChannelScan start stop step db =>
    Jni.comAndroidServerQn8006TxClearChannelScan qn8006Device stack start stop step db

/-! What a read comes to. -/

section
variable {κ : Type} {b : Board κ} {w : Machine κ}

/-- Whatever the uninitialised variables hold at first, the value is the same. -/
def SameValue (b : Board κ) (w : Machine κ) (call : Stack → Drv INT) : Prop :=
  ∀ stack stack' value value' w₁ w₂, Runs b.env (call stack) w value w₁ →
    Runs b.env (call stack') w value' w₂ → value = value'

/-- A value is copied out, or the variable of the caller stays as it is. -/
def readOut (before : INT) (body : Drv INT) : Drv INT := do
  let value ← body
  let back ← copyToUser
  pure (if back then value else before)

/-- The same, once the argument has been copied in. -/
def readBack (before : INT) (body : Drv INT) : Drv INT := do
  let copied ← copyFromUser
  if copied then readOut before body else pure before

/-- The user copies around a driver function succeed, as far as the command gets. -/
def Copies {δ : Type} (b : Board κ) (w : Machine κ) (body : Drv δ) : Prop :=
  (b.respond .copyFromUser w.world).1 = true ∧ ∀ value w₁,
    Runs b.env body (w.after b .copyFromUser) value w₁ → (b.respond .copyToUser w₁.world).1 = true

theorem readOut_runs {before : INT} {body : Drv INT} {value : INT} {w' : Machine κ} :
    Runs b.env (readOut before body) w value w' ↔ ∃ out w₁, Runs b.env body w out w₁ ∧
      value = (if (b.respond .copyToUser w₁.world).1 then out else before) ∧
      w' = w₁.after b .copyToUser := by
  unfold readOut
  simp only [runs_bind, runs_copyToUser, runs_pure]
  constructor
  · intro run
    obtain ⟨out, w₁, first, back, w₂, ⟨rfl, rfl⟩, rfl, rfl⟩ := run
    exact ⟨out, w₁, first, rfl, rfl⟩
  · intro run
    obtain ⟨out, w₁, first, rfl, rfl⟩ := run
    exact ⟨out, w₁, first, _, _, ⟨rfl, rfl⟩, rfl, rfl⟩

theorem readBack_runs {before : INT} {body : Drv INT} {value : INT} {w' : Machine κ} :
    Runs b.env (readBack before body) w value w' ↔
      if (b.respond .copyFromUser w.world).1 then
        Runs b.env (readOut before body) (w.after b .copyFromUser) value w'
      else value = before ∧ w' = w.after b .copyFromUser := by
  unfold readBack
  simp only [runs_bind, runs_copyFromUser]
  constructor
  · intro run
    obtain ⟨copied, w₁, ⟨rfl, rfl⟩, rest⟩ := run
    split at rest
    next ok => rwa [if_pos ok]
    next failed =>
      rw [if_neg failed]
      exact runs_pure.mp rest
  · intro run
    refine ⟨_, _, ⟨rfl, rfl⟩, ?_⟩
    split at run
    next ok => rwa [if_pos ok]
    next failed =>
      rw [if_neg failed]
      exact runs_pure.mpr run

/-- A struct comes back whole exactly when no copy fails. -/
theorem sameValue_readBack {body : Drv INT} {before : Stack → INT} {stack₁ stack₂ : Stack}
    (differ : before stack₁ ≠ before stack₂) :
    SameValue b w (fun stack => readBack (before stack) body) ↔ Copies b w body := by
  constructor
  · intro same
    by_cases ok : (b.respond .copyFromUser w.world).1 = true
    · refine ⟨ok, ?_⟩
      intro value w₁ run
      by_contra failed
      have through (stack : Stack) : Runs b.env (readBack (before stack) body) w (before stack)
          (w₁.after b .copyToUser) := by
        rw [readBack_runs, if_pos ok, readOut_runs]
        exact ⟨value, w₁, run, (if_neg failed).symm, rfl⟩
      exact differ (same _ _ _ _ _ _ (through stack₁) (through stack₂))
    · have through (stack : Stack) : Runs b.env (readBack (before stack) body) w (before stack)
          (w.after b .copyFromUser) := by
        rw [readBack_runs, if_neg ok]
        exact ⟨rfl, rfl⟩
      exact absurd (same _ _ _ _ _ _ (through stack₁) (through stack₂)) differ
  · intro copies stack stack' value value' w₁ w₂ run run'
    obtain ⟨ok, back⟩ := copies
    rw [readBack_runs, if_pos ok, readOut_runs] at run run'
    obtain ⟨out, u, first, rfl, _⟩ := run
    obtain ⟨out', u', second, rfl, _⟩ := run'
    obtain ⟨rfl, rfl⟩ := first.det second
    rw [if_pos (back _ _ first), if_pos (back _ _ first)]

theorem sameValue_const (p : Drv INT) : SameValue b w (fun _ => p) :=
  fun _ _ _ _ _ _ run run' => (run.det run').1

/-! Which of the two forms each operation has. -/

theorem toUser_read (out : Reply → INT) (reply : Reply) :
    (do let answer ← toUser reply; pure (out answer)) = (do
      let back ← copyToUser
      pure (if back then out reply else out .fault)) := by
  unfold toUser
  rw [bind_assoc]
  congr
  funext back
  cases back
  · rfl
  · rfl

/-- A command that sends its whole argument back. -/
theorem struct_form {δ : Type} {command : Drv δ} {reply : δ → Reply} {out : Reply → INT}
    {value : δ → INT} (sent : ∀ result, out (reply result) = value result) :
    (do
      let answer ← fromUser do
        let result ← command
        toUser (reply result)
      pure (out answer)) = readBack (out .fault) (value <$> command) := by
  unfold fromUser readBack readOut
  rw [bind_assoc]
  congr
  funext copied
  cases copied with
  | false => rfl
  | true =>
    simp only [if_true, bind_assoc, toUser_read, sent, map_eq_pure_bind, pure_bind]

theorem getRSSI_form (stack : Stack) (ch : INT) :
    Hal.qn8006GetRSSI stack ch =
      readBack stack.tmpRssi.rssi ((·.setWidth 32) <$> qndGetRSSI (ushort ch)) :=
  @struct_form _ _ _ (fun reply => (reply.rssiOr { stack.tmpRssi with ch := ch }).rssi) _
    fun _ => rfl

theorem rxSeekCHAll_form (stack : Stack) (start stop step db up : INT) :
    Hal.qn8006RxSeekCHAll stack start stop step db up =
      readBack stack.tmpRscall.ret ((·.setWidth 32) <$>
        qndRXSeekCHAll (ushort start) (ushort stop) (uchar step) (uchar db) (uchar up)) :=
  @struct_form _ _ _ (fun reply => (reply.seekOr { stack.tmpRscall with
    start := start, stop := stop, step := step, db := db, up := up }).ret) _ fun _ => rfl

theorem rxSeekCH_form (stack : Stack) (start stop step db up : INT) :
    Hal.qn8006RxSeekCH stack start stop step db up =
      readBack stack.tmpRsc.ret ((·.setWidth 32) <$>
        qndRXSeekCH (ushort start) (ushort stop) (uchar step) (uchar db) (uchar up)) :=
  @struct_form _ _ _ (fun reply => (reply.seekOr { stack.tmpRsc with
    start := start, stop := stop, step := step, db := db, up := up }).ret) _ fun _ => rfl

theorem txClearChannelScan_form (stack : Stack) (start stop step db : INT) :
    Hal.qn8006TxClearChannelScan stack start stop step db =
      readBack stack.tmptxclscan.ret ((·.setWidth 32) <$>
        qndTXClearChannelScan (ushort start) (ushort stop) (uchar step) (uchar db)) :=
  @struct_form _ _ _ (fun reply => (reply.seekOr { stack.tmptxclscan with
    start := start, stop := stop, step := step, db := db }).ret) _ fun _ => rfl

/-- The power is that of the ioctl's own stack, sent without having been assigned. -/
theorem getPower_form (stack : Stack) (pwer : INT) :
    Hal.qn8006GetPower stack pwer = readOut pwer (pure stack.qnFmPower) := by
  unfold Hal.qn8006GetPower readOut
  simp only [qn8006UnlockedIoctl, toUser_read, pure_bind]
  rfl

theorem copies_map {δ : Type} {f : δ → INT} {body : Drv δ} :
    Copies b w (f <$> body) ↔ Copies b w body := by
  unfold Copies
  simp only [runs_map]
  apply and_congr_right
  intro _
  constructor
  · intro back value w₁ run
    exact back (f value) w₁ ⟨value, run, rfl⟩
  · intro back value w₁ run
    obtain ⟨result, run, _⟩ := run
    exact back result w₁ run

/-- What the driver has read is the caller's exactly when both copies succeed. -/
theorem sameValue_struct {δ : Type} {f : δ → INT} {body : Drv δ} {before : Stack → INT}
    {stack₁ stack₂ : Stack} (differ : before stack₁ ≠ before stack₂) :
    SameValue b w (fun stack => readBack (before stack) (f <$> body)) ↔ Copies b w body :=
  (sameValue_readBack differ).trans copies_map

/-- The power is the same exactly when it does not arrive. -/
theorem sameValue_getPower {before : INT} :
    SameValue b w (fun stack => readOut before (pure stack.qnFmPower)) ↔
      (b.respond .copyToUser w.world).1 = false := by
  constructor
  · intro same
    by_contra back
    rw [Bool.not_eq_false] at back
    have sent (stack : Stack) : Runs b.env (readOut before (pure stack.qnFmPower)) w
        stack.qnFmPower (w.after b .copyToUser) := by
      rw [readOut_runs]
      exact ⟨stack.qnFmPower, w, runs_pure.mpr ⟨rfl, rfl⟩, (if_pos back).symm, rfl⟩
    have equal : (0 : INT) = 1 :=
      same (.filled 0) (.filled 1) _ _ _ _ (sent (.filled 0)) (sent (.filled 1))
    exact absurd equal (by decide)
  · intro failed stack stack' value value' w₁ w₂ run run'
    rw [readOut_runs] at run run'
    obtain ⟨out, u, first, rfl, _⟩ := run
    obtain ⟨out', u', second, rfl, _⟩ := run'
    obtain ⟨_, rfl⟩ := runs_pure.mp first
    obtain ⟨_, rfl⟩ := runs_pure.mp second
    rw [if_neg (by simp [failed]), if_neg (by simp [failed])]

/-- The copies to and from user space that keep the stack from the caller. -/
def ReadOperation.Defined (b : Board κ) (w : Machine κ) : ReadOperation → Prop
  | .getFrequency | .rdsDetectSignal | .rdsCheckBufferReady => True
  | .getPower => (b.respond .copyToUser w.world).1 = false
  | .getRSSI ch => Copies b w (qndGetRSSI (ushort ch))
  | .rxSeekCHAll start stop step db up => Copies b w
      (qndRXSeekCHAll (ushort start) (ushort stop) (uchar step) (uchar db) (uchar up))
  | .rxSeekCH start stop step db up => Copies b w
      (qndRXSeekCH (ushort start) (ushort stop) (uchar step) (uchar db) (uchar up))
  | .txClearChannelScan start stop step db => Copies b w
      (qndTXClearChannelScan (ushort start) (ushort stop) (uchar step) (uchar db))

theorem opened_sameValue (op : ReadOperation) :
    SameValue b w (fun stack => op.call true stack) ↔ op.Defined b w := by
  cases op with
  | getFrequency => exact iff_of_true (sameValue_const (Hal.qn8006GetFrequency (.filled 0) 0)) trivial
  | rdsDetectSignal =>
    exact iff_of_true (sameValue_const (Hal.qn8006RDSDetectSignal (.filled 0) 0)) trivial
  | rdsCheckBufferReady =>
    exact iff_of_true (sameValue_const (Hal.qn8006RDSCheckBufferReady (.filled 0) 0)) trivial
  | getPower =>
    have form : (fun stack => ReadOperation.getPower.call true stack) =
        fun stack => readOut 0 (pure stack.qnFmPower) := by
      funext stack
      exact getPower_form stack 0
    rw [form]
    exact sameValue_getPower
  | getRSSI ch =>
    have form : (fun stack => (ReadOperation.getRSSI ch).call true stack) =
        fun stack => readBack stack.tmpRssi.rssi
          ((·.setWidth 32) <$> qndGetRSSI (ushort ch)) := by
      funext stack
      exact getRSSI_form stack ch
    rw [form]
    exact @sameValue_struct _ _ _ _ _ _ (fun stack => stack.tmpRssi.rssi) (.filled 0) (.filled 1)
      (by decide)
  | rxSeekCHAll start stop step db up =>
    have form : (fun stack => (ReadOperation.rxSeekCHAll start stop step db up).call true stack) =
        fun stack => readBack stack.tmpRscall.ret ((·.setWidth 32) <$>
          qndRXSeekCHAll (ushort start) (ushort stop) (uchar step) (uchar db) (uchar up)) := by
      funext stack
      exact rxSeekCHAll_form stack start stop step db up
    rw [form]
    exact @sameValue_struct _ _ _ _ _ _ (fun stack => stack.tmpRscall.ret) (.filled 0) (.filled 1)
      (by decide)
  | rxSeekCH start stop step db up =>
    have form : (fun stack => (ReadOperation.rxSeekCH start stop step db up).call true stack) =
        fun stack => readBack stack.tmpRsc.ret ((·.setWidth 32) <$>
          qndRXSeekCH (ushort start) (ushort stop) (uchar step) (uchar db) (uchar up)) := by
      funext stack
      exact rxSeekCH_form stack start stop step db up
    rw [form]
    exact @sameValue_struct _ _ _ _ _ _ (fun stack => stack.tmpRsc.ret) (.filled 0) (.filled 1)
      (by decide)
  | txClearChannelScan start stop step db =>
    have form : (fun stack => (ReadOperation.txClearChannelScan start stop step db).call true stack) =
        fun stack => readBack stack.tmptxclscan.ret ((·.setWidth 32) <$>
          qndTXClearChannelScan (ushort start) (ushort stop) (uchar step) (uchar db)) := by
      funext stack
      exact txClearChannelScan_form stack start stop step db
    rw [form]
    exact @sameValue_struct _ _ _ _ _ _ (fun stack => stack.tmptxclscan.ret) (.filled 0) (.filled 1)
      (by decide)

/-- The caller's value does not depend on what the stack held exactly when the device is not
open or the copies are as they have to be: those around a struct succeed, and the power is not
copied at all. -/
theorem reads_defined_iff (b : Board κ) (w : Machine κ) (qn8006Device : Bool)
    (op : ReadOperation) :
    SameValue b w (fun stack => op.call qn8006Device stack) ↔
      (qn8006Device = true → op.Defined b w) := by
  cases qn8006Device with
  | true => simp only [opened_sameValue, forall_const]
  | false =>
    have closed : ∀ stack stack', op.call false stack = op.call false stack' := by
      intro stack stack'
      cases op <;> rfl
    have form : (fun stack => op.call false stack) = fun _ => op.call false (.filled 0) := by
      funext stack
      exact closed stack (.filled 0)
    rw [form]
    exact iff_of_true (sameValue_const _) (by simp)

end

/-- With a copy that works, `get_power` returns what the stack of the ioctl held. -/
theorem power_leaks :
    ¬ SameValue memoryChip clearedChip (fun stack => ReadOperation.getPower.call true stack) := by
  rw [opened_sameValue]
  show (memoryChip.respond .copyToUser clearedChip.world).1 ≠ false
  decide

end Yika.Fm
