import Yika.Program.Guard

/-! The thread of `bluetooth_bttest.cpp` that reads from the UART, `threadreadTtyData`, and
`JNIMyObserver::OnEvent`, which posts what has been read to the Java listener. The log, the
attachment of the thread to the virtual machine and its exceptions are left out. -/

namespace Yika.BtTest
open Program

abbrev Byte := BitVec 8

/-- What `select` returns, and whether the descriptor is set in `readfd` then. -/
structure Selected where
  ret : Int
  isset : Bool

inductive TtyOp where
  | mOpen
  | select
  | read (count : Nat)
  | memset (count : Nat)
  | memcpy (count : BitVec 32)
  | mutexLock
  | mutexUnlock
  | newByteArray (length : Int)
  | setByteArrayRegion (length : Int)
  | callStaticVoidMethod (what : Int)
  deriving DecidableEq

abbrev TtyOp.Answer : TtyOp → Type
  | .mOpen => Int
  | .select => Selected
  | .read _ => Int
  | .mutexLock => Int
  | .mutexUnlock => Int
  | _ => Unit

abbrev ttySignature : Signature := ⟨TtyOp, TtyOp.Answer⟩

abbrev TtyThread := Prog ttySignature

namespace Tty

def mOpen : TtyThread Int := @Prog.perform ttySignature .mOpen
def select : TtyThread Selected := @Prog.perform ttySignature .select
/-- `read(uart_fd, buf, count)` -/
def read (count : Nat) : TtyThread Int := @Prog.perform ttySignature (.read count)
/-- `memset(buf, 0, count)` -/
def memset (count : Nat) : TtyThread Unit := @Prog.perform ttySignature (.memset count)
/-- `memcpy(buffer, buf, count)` -/
def memcpy (count : BitVec 32) : TtyThread Unit := @Prog.perform ttySignature (.memcpy count)
def mutexLock : TtyThread Int := @Prog.perform ttySignature .mutexLock
def mutexUnlock : TtyThread Int := @Prog.perform ttySignature .mutexUnlock
def newByteArray (length : Int) : TtyThread Unit := @Prog.perform ttySignature (.newByteArray length)
/-- `SetByteArrayRegion(obj, 0, length, buffer)` -/
def setByteArrayRegion (length : Int) : TtyThread Unit :=
  @Prog.perform ttySignature (.setByteArrayRegion length)
def callStaticVoidMethod (what : Int) : TtyThread Unit :=
  @Prog.perform ttySignature (.callStaticVoidMethod what)

end Tty

/-! The program. -/

def RECEIVE_DATA_INDEX : Int := 1

/-- `sizeof(buf)`, and `buf` is a `char*`. -/
def sizeofBuf : Nat := 4

/-- `dat` is the buffer of the thread; `memcpy` takes the length as a `size_t`. -/
def onEvent (len what : Int) : TtyThread Unit := do
  Tty.memcpy (BitVec.ofInt 32 len)
  let locked ← Tty.mutexLock
  if locked ≠ 0 then pure ()
  else do
    Tty.newByteArray len
    Tty.setByteArrayRegion len
    Tty.callStaticVoidMethod what
    let _ ← Tty.mutexUnlock
    pure ()

def receiveData : TtyThread (Unit ⊕ Unit) := do
  let len ← Tty.read sizeofBuf
  onEvent len RECEIVE_DATA_INDEX
  Tty.memset sizeofBuf
  pure (.inl ())

/-- One turn of the loop; `result` is -1 only on the way out. -/
def readTtyRound (_ : Unit) : TtyThread (Unit ⊕ Unit) := do
  let mOpen ← Tty.mOpen
  if mOpen = 0 then pure (.inr ())
  else do
    let selected ← Tty.select
    if selected.ret = -1 then pure (.inr ())
    else if selected.ret = 0 then pure (.inl ())
    else if selected.isset then receiveData
    else pure (.inl ())

/-- `arg` says whether there is a listener. -/
def threadreadTtyData (arg : Bool) : TtyThread Unit :=
  if arg then Prog.doWhile readTtyRound () else pure ()

/-! The world of the thread. -/

/-- What other threads, the UART and its driver answer: `mOpen`, `select`, and the bytes that a
`read` of so many delivers, or `none` for -1. -/
structure Outside (κ : Type) where
  mOpen : κ → Int × κ
  select : κ → Selected × κ
  read : (count : Nat) → κ → Option { bytes : List Byte // bytes.length ≤ count } × κ

/-- `buf` is the buffer of the thread, `buffer` that of `OnEvent` and `obj` its byte array.
`received` are the bytes that `read` has delivered so far and `failed` says whether the last one
returned -1; `posted` is what the listener has been called with. -/
structure Tty (κ : Type) where
  buf : Nat → Byte
  buffer : Nat → Byte
  obj : Option (List Byte)
  received : List Byte
  failed : Bool
  posted : List (Int × Option (List Byte))
  world : κ

variable {κ : Type}

def Tty.started (garbage : Nat → Byte) (world : κ) : Tty κ where
  buf := garbage
  buffer := garbage
  obj := none
  received := []
  failed := false
  posted := []
  world := world

def Tty.payloads (w : Tty κ) : List Byte := w.posted.flatMap fun event => event.2.getD []

def Tty.afterRead (w : Tty κ) (world : κ) : Option (List Byte) → Int × Tty κ
  | none => (-1, { w with failed := true, world := world })
  | some bytes => (bytes.length, { w with
      buf := fun i => bytes.getD i (w.buf i)
      received := w.received ++ bytes
      failed := false
      world := world })

/-- The mutex has been initialised and is not destroyed, and there is memory for the array, which
has no negative length. -/
def Outside.env (out : Outside κ) : Env ttySignature (Tty κ)
  | .mOpen, w => ((out.mOpen w.world).1, { w with world := (out.mOpen w.world).2 })
  | .select, w => ((out.select w.world).1, { w with world := (out.select w.world).2 })
  | .read count, w =>
    w.afterRead (out.read count w.world).2 ((out.read count w.world).1.map Subtype.val)
  | .memset count, w => ((), { w with buf := fun i => if i < count then 0 else w.buf i })
  | .memcpy count, w =>
    ((), { w with buffer := fun i => if i < count.toNat then w.buf i else w.buffer i })
  | .mutexLock, w => (0, w)
  | .mutexUnlock, w => (0, w)
  | .newByteArray length, w =>
    ((), { w with obj := if length < 0 then none else some (List.replicate length.toNat 0) })
  | .setByteArrayRegion length, w =>
    ((), { w with obj := w.obj.map fun _ => (List.range length.toNat).map w.buffer })
  | .callStaticVoidMethod what, w => ((), { w with posted := w.posted ++ [(what, w.obj)] })

/-- `memcpy` stays in the 64 bytes of `buffer`, nothing is posted after a failed read, and between
two rounds the bytes read have been posted, each once. -/
def Exact : TtyOp → Tty κ → Prop
  | .memcpy count, _ => count.toNat ≤ 64
  | .callStaticVoidMethod _, w => w.failed = false
  | .mOpen, w => w.payloads = w.received
  | _, _ => True

/-- A `read` does not return -1. -/
def Outside.Reads (out : Outside κ) : TtyOp → Tty κ → Prop
  | .read count, w => (out.read count w.world).1 ≠ none
  | _, _ => True

section
variable {out : Outside κ} {good : TtyOp → Tty κ → Prop} {w : Tty κ} {what : Int}
  {post : Unit → Tty κ → Prop} {postInt : Int → Tty κ → Prop} {postSelected : Selected → Tty κ → Prop}

/-! Each operation: what makes it good, and what it does. -/

@[simp] theorem safe_mOpen : Safe out.env good Tty.mOpen w ↔ good .mOpen w := safe_perform
@[simp] theorem safe_select : Safe out.env good Tty.select w ↔ good .select w := safe_perform
@[simp] theorem safe_read {count : Nat} :
    Safe out.env good (Tty.read count) w ↔ good (.read count) w := safe_perform
@[simp] theorem safe_memset {count : Nat} :
    Safe out.env good (Tty.memset count) w ↔ good (.memset count) w := safe_perform
@[simp] theorem safe_memcpy {count : BitVec 32} :
    Safe out.env good (Tty.memcpy count) w ↔ good (.memcpy count) w := safe_perform
@[simp] theorem safe_mutexLock : Safe out.env good Tty.mutexLock w ↔ good .mutexLock w := safe_perform
@[simp] theorem safe_mutexUnlock :
    Safe out.env good Tty.mutexUnlock w ↔ good .mutexUnlock w := safe_perform
@[simp] theorem safe_newByteArray {length : Int} :
    Safe out.env good (Tty.newByteArray length) w ↔ good (.newByteArray length) w := safe_perform
@[simp] theorem safe_setByteArrayRegion {length : Int} :
    Safe out.env good (Tty.setByteArrayRegion length) w ↔ good (.setByteArrayRegion length) w :=
  safe_perform
@[simp] theorem safe_callStaticVoidMethod :
    Safe out.env good (Tty.callStaticVoidMethod what) w ↔ good (.callStaticVoidMethod what) w :=
  safe_perform

@[simp] theorem ensures_mOpen : Ensures out.env Tty.mOpen postInt w ↔
    postInt (out.mOpen w.world).1 { w with world := (out.mOpen w.world).2 } := ensures_perform
@[simp] theorem ensures_select : Ensures out.env Tty.select postSelected w ↔
    postSelected (out.select w.world).1 { w with world := (out.select w.world).2 } := ensures_perform
@[simp] theorem ensures_read {count : Nat} : Ensures out.env (Tty.read count) postInt w ↔
    postInt (w.afterRead (out.read count w.world).2 ((out.read count w.world).1.map Subtype.val)).1
      (w.afterRead (out.read count w.world).2 ((out.read count w.world).1.map Subtype.val)).2 :=
  ensures_perform
@[simp] theorem ensures_memset {count : Nat} : Ensures out.env (Tty.memset count) post w ↔
    post () { w with buf := fun i => if i < count then 0 else w.buf i } := ensures_perform
@[simp] theorem ensures_memcpy {count : BitVec 32} : Ensures out.env (Tty.memcpy count) post w ↔
    post () { w with buffer := fun i => if i < count.toNat then w.buf i else w.buffer i } :=
  ensures_perform
@[simp] theorem ensures_mutexLock : Ensures out.env Tty.mutexLock postInt w ↔ postInt 0 w :=
  ensures_perform
@[simp] theorem ensures_mutexUnlock : Ensures out.env Tty.mutexUnlock postInt w ↔ postInt 0 w :=
  ensures_perform
@[simp] theorem ensures_newByteArray {length : Int} :
    Ensures out.env (Tty.newByteArray length) post w ↔ post () { w with
      obj := if length < 0 then none else some (List.replicate length.toNat 0) } := ensures_perform
@[simp] theorem ensures_setByteArrayRegion {length : Int} :
    Ensures out.env (Tty.setByteArrayRegion length) post w ↔ post () { w with
      obj := w.obj.map fun _ => (List.range length.toNat).map w.buffer } := ensures_perform
@[simp] theorem ensures_callStaticVoidMethod :
    Ensures out.env (Tty.callStaticVoidMethod what) post w ↔
      post () { w with posted := w.posted ++ [(what, w.obj)] } := ensures_perform

/-- -1 is cut to 4294967295. -/
theorem onEvent_overruns : ¬ Safe out.env Exact (onEvent (-1) what) w := by
  intro safe
  have inside : (BitVec.ofInt 32 (-1)).toNat ≤ 64 := safe_memcpy.mp (safe_bind.mp safe).1
  exact absurd inside (by decide)

theorem onEvent_posts {bytes : List Byte} (short : bytes.length ≤ sizeofBuf)
    (stored : ∀ i, i < bytes.length → w.buf i = bytes.getD i 0) (fresh : w.failed = false) :
    Safe out.env Exact (onEvent bytes.length what) w ∧
      Ensures out.env (onEvent bytes.length what) (fun _ w' =>
        w'.payloads = w.payloads ++ bytes ∧ w'.received = w.received) w := by
  have cut : (BitVec.ofInt 32 bytes.length).toNat = bytes.length := by
    unfold sizeofBuf at short
    simp only [BitVec.ofInt_natCast, BitVec.toNat_ofNat]
    omega
  have copied : (List.range bytes.length).map (fun i => if i < bytes.length then w.buf i
      else w.buffer i) = bytes := by
    apply List.ext_getElem (by simp)
    intro i inside inside'
    simp [inside', stored i inside']
  have small : bytes.length ≤ 64 := Nat.le_trans short (by decide)
  have size : ¬ (bytes.length : Int) < 0 := by omega
  unfold onEvent
  generalize BitVec.ofInt 32 bytes.length = count at cut
  constructor
  · simp only [safe_bind, safe_memcpy, ensures_memcpy, safe_mutexLock, ensures_mutexLock, ne_eq,
      not_true_eq_false, if_false, safe_newByteArray, ensures_newByteArray, safe_setByteArrayRegion,
      ensures_setByteArrayRegion, safe_callStaticVoidMethod, ensures_callStaticVoidMethod,
      safe_mutexUnlock, ensures_mutexUnlock, safe_pure, and_true]
    have inside : count.toNat ≤ 64 := by rwa [cut]
    exact ⟨inside, trivial, trivial, trivial, fresh, trivial⟩
  · simp only [ensures_bind, ensures_memcpy, ensures_mutexLock, ne_eq, not_true_eq_false, if_false,
      ensures_newByteArray, ensures_setByteArrayRegion, ensures_callStaticVoidMethod,
      ensures_mutexUnlock, ensures_pure, size, Option.map_some, Int.toNat_natCast, cut, copied]
    exact ⟨by simp [Tty.payloads], trivial⟩

theorem onEvent_exact_iff (result : Option { bytes : List Byte // bytes.length ≤ sizeofBuf })
    (world : κ) : Safe out.env Exact (onEvent (w.afterRead world (result.map Subtype.val)).1 what)
      (w.afterRead world (result.map Subtype.val)).2 ↔ result ≠ none := by
  cases result with
  | none => exact iff_of_false onEvent_overruns (by simp)
  | some chunk =>
    have stored (i : Nat) (inside : i < chunk.1.length) :
        chunk.1.getD i (w.buf i) = chunk.1.getD i 0 := by simp [inside]
    exact iff_of_true (onEvent_posts chunk.2 stored rfl).1 (by simp)

theorem onEvent_reads {len : Int} : Safe out.env out.Reads (onEvent len what) w := by
  simp only [onEvent, safe_bind, safe_memcpy, ensures_memcpy, safe_mutexLock, ensures_mutexLock, ne_eq,
    not_true_eq_false, if_false, safe_newByteArray, ensures_newByteArray, safe_setByteArrayRegion,
    ensures_setByteArrayRegion, safe_callStaticVoidMethod, ensures_callStaticVoidMethod,
    safe_mutexUnlock, ensures_mutexUnlock, safe_pure, and_true]
  exact ⟨trivial, trivial, trivial, trivial, trivial, trivial⟩

theorem receiveData_exact_iff :
    Safe out.env Exact receiveData w ↔ Safe out.env out.Reads receiveData w := by
  simp only [receiveData, safe_bind, safe_read, ensures_read, safe_memset, safe_pure, ensures_memset,
    and_true, onEvent_exact_iff, onEvent_reads, true_and]
  have memset (w₁ : Tty κ) : Exact (.memset sizeofBuf) w₁ := trivial
  have memset' (w₁ : Tty κ) : out.Reads (.memset sizeofBuf) w₁ := trivial
  have read : Exact (.read sizeofBuf) w := trivial
  have anything (len : Int) (w₁ : Tty κ) :
      Ensures out.env (onEvent len RECEIVE_DATA_INDEX) (fun _ _ => True) w₁ := fun _ _ _ => trivial
  simp only [memset, memset', read, anything, true_and, and_true]
  exact Iff.rfl

def Tty.Even (w : Tty κ) : Prop := w.payloads = w.received

theorem receiveData_even (even : w.Even) (reads : Safe out.env out.Reads receiveData w) :
    Ensures out.env receiveData (fun _ w' => w'.Even) w := by
  have read : out.Reads (.read sizeofBuf) w := safe_read.mp (safe_bind.mp reads).1
  simp only [receiveData, ensures_bind, ensures_read, ensures_memset, ensures_pure]
  cases result : (out.read sizeofBuf w.world).1 with
  | none => exact absurd result read
  | some chunk =>
    have stored (i : Nat) (inside : i < chunk.1.length) :
        chunk.1.getD i (w.buf i) = chunk.1.getD i 0 := by simp [inside]
    have posts : Ensures out.env (onEvent chunk.1.length RECEIVE_DATA_INDEX) (fun _ w' =>
        w'.payloads = w.payloads ++ chunk.1 ∧ w'.received = w.received ++ chunk.1)
        (w.afterRead (out.read sizeofBuf w.world).2 (some chunk.1)).2 :=
      (onEvent_posts chunk.2 stored rfl).2
    refine posts.mono ?_
    intro _ w₁ posted
    show w₁.payloads = w₁.received
    rw [posted.1, posted.2, even]

theorem readTtyRound_exact_iff (even : w.Even) :
    Safe out.env Exact (readTtyRound ()) w ↔ Safe out.env out.Reads (readTtyRound ()) w := by
  simp only [readTtyRound, safe_bind, safe_mOpen, ensures_mOpen, safe_ite, safe_pure, safe_select,
    ensures_select, receiveData_exact_iff]
  have opened : Exact .mOpen w := even
  have selects (w₁ : Tty κ) : Exact .select w₁ ↔ out.Reads .select w₁ := Iff.rfl
  have opens : out.Reads .mOpen w := trivial
  simp only [opened, opens, selects]

theorem readTtyRound_even (even : w.Even) (reads : Safe out.env out.Reads (readTtyRound ()) w) :
    Ensures out.env (readTtyRound ()) (fun _ w' => w'.Even) w := by
  simp only [readTtyRound, safe_bind, ensures_bind, ensures_mOpen, safe_ite, ensures_ite,
    ensures_pure, ensures_select] at reads ⊢
  refine ⟨fun _ => even, fun opened => ?_⟩
  have next := (reads.2.2 opened).2
  refine ⟨fun _ => even, fun valid => ⟨fun _ => even, fun some => ⟨fun isset => ?_, fun _ => even⟩⟩⟩
  exact receiveData_even even ((next.2 valid).2 some |>.1 isset)

/-- Every byte the UART delivers reaches the listener once, and every copy stays inside its buffer,
exactly when no `read` that the thread makes returns -1. -/
theorem threadreadTtyData_exact_iff (out : Outside κ) (arg : Bool) (garbage : Nat → Byte) (world : κ) :
    (Safe out.env Exact (threadreadTtyData arg) (.started garbage world) ∧
      Ensures out.env (threadreadTtyData arg) (fun _ w' => w'.payloads = w'.received)
        (.started garbage world)) ↔
      Safe out.env out.Reads (threadreadTtyData arg) (.started garbage world) := by
  unfold threadreadTtyData
  cases arg with
  | false => simp [Tty.payloads, Tty.started]
  | true =>
    rw [if_pos rfl]
    have start : (Tty.started garbage world).Even := rfl
    have after (x : Unit) (w : Tty κ) (even : w.Even)
        (reads : Safe out.env out.Reads (readTtyRound x) w) :
        Ensures out.env (readTtyRound x) (Sum.elim (fun _ => Tty.Even) fun _ => Tty.Even) w := by
      intro result w' run
      have even' := readTtyRound_even even reads result w' run
      cases result with
      | inl _ => exact even'
      | inr _ => exact even'
    have next (x : Unit) (w : Tty κ) (even : w.Even)
        (reads : Safe out.env out.Reads (readTtyRound x) w) :
        Ensures out.env (readTtyRound x) (Sum.elim (fun _ => Tty.Even) fun _ _ => True) w := by
      intro result w' run
      cases result with
      | inl _ => exact after x w even reads _ w' run
      | inr _ => trivial
    constructor
    · intro exactly
      refine Safe.loop_mono (fun _ => Tty.Even) ?_ start exactly.1
      intro x w even safe
      have reads := (readTtyRound_exact_iff even).mp safe
      exact ⟨reads, next x w even reads⟩
    · intro reads
      refine ⟨Safe.loop_mono (fun _ => Tty.Even) ?_ start reads,
        Safe.loop_ensures (fun _ => Tty.Even) after start reads⟩
      intro x w even safe
      exact ⟨(readTtyRound_exact_iff even).mpr safe, next x w even safe⟩

end

/-- A descriptor that is readable for ever and whose `read` fails. -/
def hungUp : Outside Unit where
  mOpen _ := (1, ())
  select _ := (⟨1, true⟩, ())
  read _ _ := (none, ())

/-- The first failed `read` copies 4294967295 bytes. -/
theorem hungUp_overruns : ∃ o w, Visits hungUp.env (threadreadTtyData true) (.started (fun _ => 0) ()) o w ∧
    ¬ Exact o w := by
  refine ⟨.memcpy (BitVec.ofInt 32 (-1)), _, .body (.op (.op (.op .here))), ?_⟩
  show ¬ (BitVec.ofInt 32 (-1)).toNat ≤ 64
  decide

end Yika.BtTest
