import Yika.Bt803.Switch
import Yika.Program.Guard

/-! The node of `bt803_driver.c` under `/proc`: a write of it, `bt803_write_proc`, sets the pins of
the module. The trace is left out. -/

namespace Yika.Bt803
open Program

abbrev Byte := BitVec 8

/-- `BT803_PWR_PIN`, `BT803_RST_PIN` and `BT803_WAKEDUP_PIN`. -/
inductive Pin where
  | pwr
  | rst
  | wakedup
  deriving DecidableEq

/-- `copyFromUser` copies so many bytes to `getchar_val`, `store` is an assignment to one of them and
`kstrtoul` parses them in base 16. -/
inductive ProcOp where
  | copyFromUser (count : Nat)
  | store (i : Nat) (c : Byte)
  | kstrtoul
  | setCtrlPin (value : Byte)
  | setGpioOut (pin : Pin) (enable : Bool)

abbrev ProcOp.Answer : ProcOp → Type
  | .copyFromUser _ => Nat
  | .kstrtoul => Int × BitVec 32
  | _ => Unit

abbrev procSignature : Signature := ⟨ProcOp, ProcOp.Answer⟩

abbrev ProcWrite := Prog procSignature

namespace ProcWrite

def copyFromUser (count : Nat) : ProcWrite Nat := @Prog.perform procSignature (.copyFromUser count)
def store (i : Nat) (c : Byte) : ProcWrite Unit := @Prog.perform procSignature (.store i c)
def kstrtoul : ProcWrite (Int × BitVec 32) := @Prog.perform procSignature .kstrtoul
def setCtrlPin (value : Byte) : ProcWrite Unit := @Prog.perform procSignature (.setCtrlPin value)
def setGpioOut (pin : Pin) (enable : Bool) : ProcWrite Unit :=
  @Prog.perform procSignature (.setGpioOut pin enable)

end ProcWrite

/-! The program. -/

def LIMIT_BUF : Nat := 11

/-- `-EFAULT` -/
def fault : Int := -14

def bt803PowerPin (enable : Bool) : ProcWrite Unit := ProcWrite.setGpioOut .pwr enable
def bt803ResetPin (enable : Bool) : ProcWrite Unit := ProcWrite.setGpioOut .rst enable
def bt803WakedUpPin (enable : Bool) : ProcWrite Unit := ProcWrite.setGpioOut .wakedup enable

/-- The switch on `g_ctrl_pin & 0xF0`. -/
def setPins (ctrlPin : Byte) : ProcWrite Unit :=
  if ctrlPin &&& 0xF0 = 0x10 then bt803PowerPin (ctrlPin &&& 0x0F ≠ 0)
  else if ctrlPin &&& 0xF0 = 0x20 then bt803ResetPin (ctrlPin &&& 0x0F ≠ 0)
  else if ctrlPin &&& 0xF0 = 0x30 then bt803WakedUpPin (ctrlPin &&& 0x0F ≠ 0)
  else if ctrlPin &&& 0xF0 = 0x00 then do
    bt803PowerPin false
    bt803ResetPin false
    bt803WakedUpPin false
  else pure ()

def parsePins (count : Nat) : ProcWrite Int := do
  let parsed ← ProcWrite.kstrtoul
  if parsed.1 < 0 then pure invalid
  else do
    ProcWrite.setCtrlPin (parsed.2.setWidth 8)
    setPins (parsed.2.setWidth 8)
    pure count

def limited (count : Nat) : Nat := if LIMIT_BUF < count then LIMIT_BUF - 1 else count

/-- `null` says whether `buf` is NULL. -/
def bt803WriteProc (null : Bool) (count : Nat) : ProcWrite Int := do
  let count := limited count
  let left ← ProcWrite.copyFromUser count
  if left ≠ 0 then pure fault
  else do
    ProcWrite.store (count + 1) 0
    if null then pure invalid else parsePins count

/-! The module and the stack of the call. -/

/-- The bytes of the user buffer, how many of them `copy_from_user` cannot copy, and what `kstrtoul`
makes of a string. -/
structure ProcCaller where
  null : Bool
  buf : List Byte
  left : (count : Nat) → { left : Nat // left ≤ count }
  kstrtoul : List Byte → Int × BitVec 32

/-- `stack` is the memory from `getchar_val` on, and `written` are the pins written so far. -/
structure ProcState where
  stack : List Byte
  ctrlPin : Byte
  pins : Pin → Bool
  written : List (Pin × Bool)

def cString (memory : List Byte) : List Byte := memory.takeWhile (· ≠ 0)

def ProcState.called (s : ProcState) (beyond : List Byte) : ProcState :=
  { s with stack := List.replicate LIMIT_BUF 0 ++ beyond }

def ProcState.setGpioOut (s : ProcState) (pin : Pin) (enable : Bool) : ProcState :=
  { s with pins := Function.update s.pins pin enable, written := s.written ++ [(pin, enable)] }

/-- What `copy_from_user` cannot copy is cleared. -/
def ProcCaller.env (caller : ProcCaller) : Env procSignature ProcState
  | .copyFromUser count, s => ((caller.left count).1, { s with
      stack := caller.buf.take (count - (caller.left count).1) ++
        List.replicate (caller.left count).1 0 ++ s.stack.drop count })
  | .store i c, s => ((), { s with stack := s.stack.set i c })
  | .kstrtoul, s => (caller.kstrtoul (cString s.stack), s)
  | .setCtrlPin value, s => ((), { s with ctrlPin := value })
  | .setGpioOut pin enable, s => ((), s.setGpioOut pin enable)

/-- Stores stay in `getchar_val`, and the string that is parsed ends in it. -/
def InArray : ProcOp → ProcState → Prop
  | .copyFromUser count, _ => count ≤ LIMIT_BUF
  | .store i _, _ => i < LIMIT_BUF
  | .kstrtoul, s => 0 ∈ s.stack.take LIMIT_BUF
  | _, _ => True

def selected (ctrlPin : Byte) : List (Pin × Bool) :=
  match ctrlPin.toNat / 16 with
  | 0 => [(.pwr, false), (.rst, false), (.wakedup, false)]
  | 1 => [(.pwr, ctrlPin.toNat % 16 ≠ 0)]
  | 2 => [(.rst, ctrlPin.toNat % 16 ≠ 0)]
  | 3 => [(.wakedup, ctrlPin.toNat % 16 ≠ 0)]
  | _ => []

def driven (pins : Pin → Bool) (outs : List (Pin × Bool)) : Pin → Bool :=
  outs.foldl (fun pins' out => Function.update pins' out.1 out.2) pins

def ProcState.drive (s : ProcState) (outs : List (Pin × Bool)) : ProcState :=
  { s with pins := driven s.pins outs, written := s.written ++ outs }

def AllOrNothing (caller : ProcCaller) (s : ProcState) (ret : Int) (s' : ProcState) : Prop :=
  if ret < 0 then s'.ctrlPin = s.ctrlPin ∧ s'.pins = s.pins ∧ s'.written = s.written
  else
    let value := (caller.kstrtoul (cString caller.buf)).2.setWidth 8
    s'.ctrlPin = value ∧ s'.pins = driven s.pins (selected value) ∧
      s'.written = s.written ++ selected value

section
variable {caller : ProcCaller} {s : ProcState} {good : ProcOp → ProcState → Prop}
  {post : Unit → ProcState → Prop}

/-! Each operation: what makes it good, and what it does. -/

@[simp] theorem serves_copyFromUser {count : Nat} {post : Nat → ProcState → Prop} :
    Serves caller.env good (ProcWrite.copyFromUser count) post s ↔ good (.copyFromUser count) s ∧
      post (caller.left count).1 { s with
        stack := caller.buf.take (count - (caller.left count).1) ++
          List.replicate (caller.left count).1 0 ++ s.stack.drop count } := serves_perform
@[simp] theorem serves_store {i : Nat} {c : Byte} :
    Serves caller.env good (ProcWrite.store i c) post s ↔
      good (.store i c) s ∧ post () { s with stack := s.stack.set i c } := serves_perform
@[simp] theorem serves_kstrtoul {post : Int × BitVec 32 → ProcState → Prop} :
    Serves caller.env good ProcWrite.kstrtoul post s ↔
      good .kstrtoul s ∧ post (caller.kstrtoul (cString s.stack)) s := serves_perform
@[simp] theorem serves_setCtrlPin {value : Byte} :
    Serves caller.env good (ProcWrite.setCtrlPin value) post s ↔
      good (.setCtrlPin value) s ∧ post () { s with ctrlPin := value } := serves_perform
@[simp] theorem serves_setGpioOut {pin : Pin} {enable : Bool} :
    Serves caller.env good (ProcWrite.setGpioOut pin enable) post s ↔
      good (.setGpioOut pin enable) s ∧ post () (s.setGpioOut pin enable) := serves_perform

/-- The cases of the switch, by the high nibble. -/
theorem high_nibble : ∀ ctrlPin : Byte,
    (ctrlPin &&& 0xF0 = 0x10 ↔ ctrlPin.toNat / 16 = 1) ∧
    (ctrlPin &&& 0xF0 = 0x20 ↔ ctrlPin.toNat / 16 = 2) ∧
    (ctrlPin &&& 0xF0 = 0x30 ↔ ctrlPin.toNat / 16 = 3) ∧
    (ctrlPin &&& 0xF0 = 0x00 ↔ ctrlPin.toNat / 16 = 0) ∧
    (ctrlPin &&& 0x0F ≠ 0 ↔ ctrlPin.toNat % 16 ≠ 0) := by
  decide +kernel

theorem serves_setPins {ctrlPin : Byte} :
    Serves caller.env InArray (setPins ctrlPin) post s ↔ post () (s.drive (selected ctrlPin)) := by
  have good (pin : Pin) (enable : Bool) (s' : ProcState) : InArray (.setGpioOut pin enable) s' := trivial
  obtain ⟨one, two, three, zero, low⟩ := high_nibble ctrlPin
  simp only [setPins, one, two, three, zero, low, bt803PowerPin, bt803ResetPin, bt803WakedUpPin, selected]
  generalize ctrlPin.toNat / 16 = high
  rcases high with _ | _ | _ | _ | high
  all_goals simp [good, ProcState.drive, ProcState.setGpioOut, driven]

theorem cString_append_zero {string rest : List Byte} : cString (string ++ 0 :: rest) = cString string := by
  induction string with
  | nil => simp [cString]
  | cons c string ih =>
    simp only [cString, List.cons_append, List.takeWhile_cons] at ih ⊢
    rw [ih]

theorem allOrNothing_failed {s' : ProcState} {ret : Int} (failed : ret < 0) (ctrlPin : s'.ctrlPin = s.ctrlPin)
    (pins : s'.pins = s.pins) (written : s'.written = s.written) : AllOrNothing caller s ret s' := by
  rw [AllOrNothing, if_pos failed]
  exact ⟨ctrlPin, pins, written⟩

theorem serves_parsePins {count : Nat} {rest : List Byte} (short : caller.buf.length < LIMIT_BUF)
    (stack : s.stack = caller.buf ++ 0 :: rest) :
    Serves caller.env InArray (parsePins count) (AllOrNothing caller s) s := by
  have ends : InArray .kstrtoul s := by
    show 0 ∈ s.stack.take LIMIT_BUF
    rw [stack, List.mem_take_iff_getElem]
    have inside : caller.buf.length < (caller.buf ++ 0 :: rest).length := by simp
    exact ⟨caller.buf.length, Nat.lt_min.mpr ⟨short, inside⟩, by simp⟩
  have control (value : Byte) : InArray (.setCtrlPin value) s := trivial
  have counted : ¬ (count : Int) < 0 := by omega
  simp only [parsePins, serves_bind, serves_kstrtoul, ends, true_and, serves_ite, serves_pure,
    serves_setCtrlPin, control, serves_setPins, stack, cString_append_zero]
  constructor
  · intro _
    exact allOrNothing_failed (by decide) rfl rfl rfl
  · intro _
    rw [AllOrNothing, if_neg counted]
    exact ⟨rfl, rfl, rfl⟩

theorem terminated (short : caller.buf.length ≤ 9) (beyond : List Byte) : ∃ rest,
    (caller.buf.take (caller.buf.length - 0) ++ List.replicate 0 (0 : Byte) ++
      (List.replicate LIMIT_BUF 0 ++ beyond).drop caller.buf.length).set (caller.buf.length + 1) 0 =
      caller.buf ++ 0 :: rest := by
  obtain ⟨free, all⟩ : ∃ free, LIMIT_BUF = caller.buf.length + (free + 1) :=
    ⟨10 - caller.buf.length, by unfold LIMIT_BUF; omega⟩
  refine ⟨(List.replicate free 0 ++ beyond).set 0 0, ?_⟩
  have unused : (List.replicate LIMIT_BUF 0 ++ beyond).drop caller.buf.length =
      (0 : Byte) :: (List.replicate free 0 ++ beyond) := by
    rw [all, List.replicate_add, List.append_assoc, List.drop_left' (by simp)]
    rfl
  rw [unused, Nat.sub_zero, List.take_length, List.replicate_zero, List.append_nil,
    List.set_append_right _ _ (by omega), Nat.add_sub_cancel_left, List.set_cons_succ]

/-- A write is bounds-safe and all-or-nothing exactly when at most 9 bytes are written or the user
buffer cannot be read. -/
theorem bt803WriteProc_safe_iff (caller : ProcCaller) (s : ProcState) (beyond : List Byte) :
    Serves caller.env InArray (bt803WriteProc caller.null caller.buf.length)
      (AllOrNothing caller (s.called beyond)) (s.called beyond) ↔
      caller.buf.length ≤ 9 ∨ (caller.left (limited caller.buf.length)).1 ≠ 0 := by
  have room : limited caller.buf.length ≤ LIMIT_BUF := by
    unfold limited LIMIT_BUF
    split
    · omega
    · omega
  have copies : InArray (.copyFromUser (limited caller.buf.length)) (s.called beyond) := room
  simp only [bt803WriteProc, serves_bind, serves_copyFromUser, copies, true_and, serves_ite, serves_pure,
    serves_store]
  constructor
  · rintro ⟨_, stores⟩
    by_cases copied : (caller.left (limited caller.buf.length)).1 = 0
    · have inside : limited caller.buf.length + 1 < LIMIT_BUF := (stores (not_not.mpr copied)).1
      unfold limited LIMIT_BUF at inside
      split at inside
      · omega
      · omega
    · exact .inr copied
  · intro holds
    refine ⟨fun _ => allOrNothing_failed (by decide) rfl rfl rfl, fun copied => ?_⟩
    have short : caller.buf.length ≤ 9 := holds.resolve_right copied
    have all : limited caller.buf.length = caller.buf.length := by
      unfold limited LIMIT_BUF
      exact if_neg (by omega)
    rw [all] at copied
    have none := not_not.mp copied
    obtain ⟨rest, stack⟩ := terminated short beyond
    have inside : caller.buf.length + 1 < LIMIT_BUF := by
      unfold LIMIT_BUF
      omega
    rw [all, none]
    refine ⟨inside, fun _ => allOrNothing_failed (by decide) rfl rfl rfl, fun _ => ?_⟩
    have started : (s.called beyond).stack = List.replicate LIMIT_BUF 0 ++ beyond := rfl
    have parses : Serves caller.env InArray (parsePins caller.buf.length)
        (AllOrNothing caller { s with stack := caller.buf ++ 0 :: rest })
        { s with stack := caller.buf ++ 0 :: rest } := serves_parsePins (by omega) rfl
    rw [started, stack]
    exact parses

end

/-- `0x12345678`, as in the comment on `getchar_val`. -/
def eightDigits : ProcCaller where
  null := false
  buf := [0x30, 0x78, 0x31, 0x32, 0x33, 0x34, 0x35, 0x36, 0x37, 0x38]
  left _ := ⟨0, Nat.zero_le _⟩
  kstrtoul _ := (0, 0x12345678)

/-- The terminator of ten bytes is stored behind the array. -/
theorem eightDigits_overruns : ¬ Serves eightDigits.env InArray (bt803WriteProc false 10)
    (AllOrNothing eightDigits (ProcState.called ⟨[], 0, fun _ => false, []⟩ [0x7f]))
    (ProcState.called ⟨[], 0, fun _ => false, []⟩ [0x7f]) := by
  intro serves
  have visit : Visits eightDigits.env (bt803WriteProc false 10)
      (ProcState.called ⟨[], 0, fun _ => false, []⟩ [0x7f]) (.store 11 0) _ := .op .here
  have inside : 11 < LIMIT_BUF := serves.1 _ _ visit
  exact absurd inside (by decide)

end Yika.Bt803
