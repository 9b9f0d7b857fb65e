import Mathlib.Logic.Function.Basic
import Yika.Program.Spec

/-! The board as the QN8006 driver sees it: the registers of `qndriver.h`, the globals of
`qndriver.c`, and the world behind the bus, which answers every transaction as it likes. -/

namespace Yika.Fm
open Program

abbrev UINT8 := BitVec 8
abbrev UINT16 := BitVec 16
/-- An `int` of the 32-bit platform; also a user-space address. -/
abbrev INT := BitVec 32

/-! Registers of `qndriver.h`. -/

def SYSTEM1 : UINT8 := 0x00
def SYSTEM2 : UINT8 := 0x01
def CH : UINT8 := 0x08
def CH_START : UINT8 := 0x09
def CH_STOP : UINT8 := 0x0A
def CH_STEP : UINT8 := 0x0B
def TXAGC_GAIN : UINT8 := 0x0D
def TX_FDEV : UINT8 := 0x0E
def RDSD0 : UINT8 := 0x10
def CCA : UINT8 := 0x19
def STATUS1 : UINT8 := 0x1A
def STATUS3 : UINT8 := 0x1B
def RSSISIG : UINT8 := 0x1C
def GAIN_SEL : UINT8 := 0x1f
def SNR : UINT8 := 0x22
def CCA4 : UINT8 := 0x36
def CCA5 : UINT8 := 0x37
def HYSTERSIS : UINT8 := 0x3f
def MPSTART : UINT8 := 0x43
def REG_PD2 : UINT8 := 0x52
def PAG_CAL : UINT8 := 0x5a

/-! Bits of SYSTEM1, SYSTEM2, CH_STEP, TXAGC_GAIN and STATUS3. -/

def RXREQ : UINT8 := 0x80
def TXREQ : UINT8 := 0x40
def CHSC : UINT8 := 0x20
def STNBY : UINT8 := 0x10
def RDSEN : UINT8 := 0x02
def CCA_CH_DIS : UINT8 := 0x01
def R_TXRX_MASK : UINT8 := 0xd0
def RDSTXRDY : UINT8 := 0x04
def CH_CH : UINT8 := 0x03
def CH_CH_START : UINT8 := 0x0c
def CH_CH_STOP : UINT8 := 0x30
def IMR : UINT8 := 0x20
def RDS_RXUPD : UINT8 := 0x80
def RX_MONO_MASK : UINT8 := 0x20

/-! Audio modes, and what the configuration functions configure. -/

def QND_TX_AUDIO_MONO : UINT8 := 0x10
def QND_TX_AUDIO_STEREO : UINT8 := 0x00
def QND_RX_AUDIO_MONO : UINT8 := 0x20
def QND_RX_AUDIO_STEREO : UINT8 := 0x00
def QND_CONFIG_MONO : UINT8 := 0x01
def QND_CONFIG_MUTE : UINT8 := 0x02
def QND_CONFIG_SOFTCLIP : UINT8 := 0x03
def QND_CONFIG_AUTOAGC : UINT8 := 0x04
def QND_CONFIG_AGCGAIN : UINT8 := 0x05
def QND_CONFIG_AUDIOPEAK_DEV : UINT8 := 0x11
def QND_CONFIG_PILOT_DEV : UINT8 := 0x12
def QND_CONFIG_RDS_DEV : UINT8 := 0x13

def QND_BAND_NUM : Nat := 6
def RSSINTHRESHOLD : UINT8 := 4
def QN_CCA_MAX_CH : Nat := 50

/-- The UINT8 globals of the driver. `qndCallBackFunc` is 0 for the null pointer and
anything else for an installed function; an array cell is named by its index. -/
inductive Var8 where
  | qndRSSIns
  | qndRSSIn (i : Nat)
  | qndPrevMode
  | qndCountry
  | qndCHSTEP
  | qndClearScanFlag
  | qndFirstScan
  | qndAutoScanAll
  | qndChCount
  | qndCallBackFunc
  deriving DecidableEq, Repr

inductive Var16 where
  | qndCHSTART
  | qndCHSTOP
  | qndClearChannel
  | qndRSSInBB (i : Nat)
  | qndChList (i : Nat)
  deriving DecidableEq, Repr

structure Globals where
  byte : Var8 → UINT8
  half : Var16 → UINT16

/-- The static initialisers; an object without one starts at zero. -/
def Globals.initial : Globals where
  byte
    | .qndRSSIns => 255
    | .qndCHSTEP => 1
    | .qndFirstScan => 1
    | _ => 0
  half
    | .qndCHSTART => 7600
    | .qndCHSTOP => 10800
    | _ => 0

/-- `qnd_StepTbl[3] = {5,10,20}`; no code writes it. -/
def qndStepTbl (i : Nat) : UINT8 :=
  if i = 0 then 5 else if i = 1 then 10 else 20

theorem stepTbl_bounds (i : Nat) : 0 < (qndStepTbl i).toNat ∧ (qndStepTbl i).toNat ≤ 20 := by
  unfold qndStepTbl
  split
  next => decide
  next =>
    split
    next => decide
    next => decide

/-- What the driver asks of the world outside its own memory. `msleep` is left out: it
makes no transaction, and the world may change state at every transaction anyway. -/
inductive Ext where
  | readReg (adr : UINT8)
  | writeReg (adr value : UINT8)
  | callBack (ch : UINT16) (bandtype : UINT8)
  | gpioMode (pin : Nat) (mode : INT)
  | gpioDir (pin : Nat) (dir : INT)
  | gpioOut (pin : Nat) (level : INT)
  | hwPower (on : Bool)
  | copyFromUser
  | copyToUser
  | peek (address : INT)
  | poke (address : INT) (value : UINT8)
  | getIntArrayRegion (start len : INT) (buf : INT)
  deriving DecidableEq

/-- A user copy answers whether all bytes were copied. -/
abbrev Ext.Answer : Ext → Type
  | .readReg _ => UINT8
  | .peek _ => UINT8
  | .copyFromUser => Bool
  | .copyToUser => Bool
  | _ => Unit

instance (e : Ext) : Nonempty e.Answer := by
  cases e <;> exact ⟨default⟩

/-- The driver's atomic operations: one transaction with the world, or one access to one
global. `stepTbl i` reads `qnd_StepTbl[i]`, in or out of bounds. -/
inductive FmOp where
  | ext (e : Ext)
  | load8 (v : Var8)
  | store8 (v : Var8) (value : UINT8)
  | load16 (v : Var16)
  | store16 (v : Var16) (value : UINT16)
  | stepTbl (i : UINT8)
  deriving DecidableEq

abbrev FmOp.Answer : FmOp → Type
  | .ext e => e.Answer
  | .load8 _ => UINT8
  | .load16 _ => UINT16
  | .stepTbl _ => UINT8
  | .store8 .. => Unit
  | .store16 .. => Unit

abbrev fmSignature : Signature := ⟨FmOp, FmOp.Answer⟩

abbrev Drv := Prog fmSignature

/-- The hardware and the user side. `beyond` is what lies in memory after `qnd_StepTbl`. -/
structure Board (κ : Type) where
  respond : (e : Ext) → κ → e.Answer × κ
  beyond : UINT8 → UINT8

structure Machine (κ : Type) where
  globals : Globals
  world : κ

variable {κ : Type}

def Globals.set8 (g : Globals) (v : Var8) (value : UINT8) : Globals :=
  { g with byte := Function.update g.byte v value }

def Globals.set16 (g : Globals) (v : Var16) (value : UINT16) : Globals :=
  { g with half := Function.update g.half v value }

def Board.stepValue (b : Board κ) (i : UINT8) : UINT8 :=
  if i.toNat < 3 then qndStepTbl i.toNat else b.beyond i

theorem stepValue_inside (b : Board κ) {i : UINT8} (inside : i.toNat < 3) :
    b.stepValue i = qndStepTbl i.toNat := if_pos inside

def Board.env (b : Board κ) : Env fmSignature (Machine κ)
  | .ext e, w => ((b.respond e w.world).1, { w with world := (b.respond e w.world).2 })
  | .load8 v, w => (w.globals.byte v, w)
  | .store8 v value, w => ((), { w with globals := w.globals.set8 v value })
  | .load16 v, w => (w.globals.half v, w)
  | .store16 v value, w => ((), { w with globals := w.globals.set16 v value })
  | .stepTbl i, w => (b.stepValue i, w)

/-! The operations as programs, under the source's words. -/

def readReg (adr : UINT8) : Drv UINT8 := @Prog.perform fmSignature (.ext (.readReg adr))
def writeReg (adr value : UINT8) : Drv Unit :=
  @Prog.perform fmSignature (.ext (.writeReg adr value))
def load8 (v : Var8) : Drv UINT8 := @Prog.perform fmSignature (.load8 v)
def store8 (v : Var8) (value : UINT8) : Drv Unit := @Prog.perform fmSignature (.store8 v value)
def load16 (v : Var16) : Drv UINT16 := @Prog.perform fmSignature (.load16 v)
def store16 (v : Var16) (value : UINT16) : Drv Unit :=
  @Prog.perform fmSignature (.store16 v value)
def stepTbl (i : UINT8) : Drv UINT8 := @Prog.perform fmSignature (.stepTbl i)
def ext (e : Ext) : Drv e.Answer := @Prog.perform fmSignature (.ext e)

/-- A request whose answer carries nothing. -/
def act (e : Ext) : Drv Unit := do
  let _ ← ext e
  pure ()

def copyFromUser : Drv Bool := ext .copyFromUser
def copyToUser : Drv Bool := ext .copyToUser
def peek (address : INT) : Drv UINT8 := ext (.peek address)

/-! What each operation does, and which operation it is. -/

def Machine.after (b : Board κ) (w : Machine κ) (e : Ext) : Machine κ :=
  { w with world := (b.respond e w.world).2 }

@[simp] theorem after_globals (b : Board κ) (w : Machine κ) (e : Ext) :
    (w.after b e).globals = w.globals := rfl

section
variable {b : Board κ} {w w' : Machine κ} {allowed : FmOp → Prop}

@[simp] theorem runs_ext {e : Ext} {answer : e.Answer} :
    Runs b.env (ext e) w answer w' ↔ answer = (b.respond e w.world).1 ∧ w' = w.after b e :=
  runs_perform

@[simp] theorem runs_act {e : Ext} : Runs b.env (act e) w () w' ↔ w' = w.after b e := by
  simp [act]

@[simp] theorem runs_copyFromUser {copied : Bool} :
    Runs b.env copyFromUser w copied w' ↔
      copied = (b.respond .copyFromUser w.world).1 ∧ w' = w.after b .copyFromUser := runs_perform

@[simp] theorem runs_copyToUser {copied : Bool} :
    Runs b.env copyToUser w copied w' ↔
      copied = (b.respond .copyToUser w.world).1 ∧ w' = w.after b .copyToUser := runs_perform

@[simp] theorem runs_peek {address : INT} {value : UINT8} :
    Runs b.env (peek address) w value w' ↔
      value = (b.respond (.peek address) w.world).1 ∧ w' = w.after b (.peek address) := runs_perform

@[simp] theorem runs_readReg {adr value : UINT8} :
    Runs b.env (readReg adr) w value w' ↔
      value = (b.respond (.readReg adr) w.world).1 ∧ w' = w.after b (.readReg adr) := runs_perform

@[simp] theorem runs_writeReg {adr value : UINT8} :
    Runs b.env (writeReg adr value) w () w' ↔ w' = w.after b (.writeReg adr value) := by
  refine runs_perform.trans ⟨fun h => h.2, fun h => ⟨rfl, h⟩⟩

@[simp] theorem runs_load8 {v : Var8} {value : UINT8} :
    Runs b.env (load8 v) w value w' ↔ value = w.globals.byte v ∧ w' = w := runs_perform

@[simp] theorem runs_load16 {v : Var16} {value : UINT16} :
    Runs b.env (load16 v) w value w' ↔ value = w.globals.half v ∧ w' = w := runs_perform

@[simp] theorem runs_store8 {v : Var8} {value : UINT8} :
    Runs b.env (store8 v value) w () w' ↔ w' = { w with globals := w.globals.set8 v value } := by
  refine runs_perform.trans ⟨fun h => h.2, fun h => ⟨rfl, h⟩⟩

@[simp] theorem runs_store16 {v : Var16} {value : UINT16} :
    Runs b.env (store16 v value) w () w' ↔ w' = { w with globals := w.globals.set16 v value } := by
  refine runs_perform.trans ⟨fun h => h.2, fun h => ⟨rfl, h⟩⟩

@[simp] theorem runs_stepTbl {i value : UINT8} :
    Runs b.env (stepTbl i) w value w' ↔ value = b.stepValue i ∧ w' = w := runs_perform

section
variable {post8 : UINT8 → Machine κ → Prop} {post16 : UINT16 → Machine κ → Prop}
  {postBool : Bool → Machine κ → Prop} {post : Unit → Machine κ → Prop}

@[simp] theorem ensures_ext {e : Ext} {postExt : e.Answer → Machine κ → Prop} :
    Ensures b.env (ext e) postExt w ↔ postExt (b.respond e w.world).1 (w.after b e) :=
  ensures_perform

@[simp] theorem ensures_act {e : Ext} : Ensures b.env (act e) post w ↔ post () (w.after b e) := by
  simp [act]

@[simp] theorem ensures_copyFromUser :
    Ensures b.env copyFromUser postBool w ↔
      postBool (b.respond .copyFromUser w.world).1 (w.after b .copyFromUser) := ensures_perform

@[simp] theorem ensures_copyToUser :
    Ensures b.env copyToUser postBool w ↔
      postBool (b.respond .copyToUser w.world).1 (w.after b .copyToUser) := ensures_perform

@[simp] theorem ensures_peek {address : INT} :
    Ensures b.env (peek address) post8 w ↔
      post8 (b.respond (.peek address) w.world).1 (w.after b (.peek address)) := ensures_perform

@[simp] theorem ensures_readReg {adr : UINT8} :
    Ensures b.env (readReg adr) post8 w ↔
      post8 (b.respond (.readReg adr) w.world).1 (w.after b (.readReg adr)) := ensures_perform

@[simp] theorem ensures_writeReg {adr value : UINT8} :
    Ensures b.env (writeReg adr value) post w ↔ post () (w.after b (.writeReg adr value)) :=
  ensures_perform

@[simp] theorem ensures_load8 {v : Var8} :
    Ensures b.env (load8 v) post8 w ↔ post8 (w.globals.byte v) w := ensures_perform

@[simp] theorem ensures_load16 {v : Var16} :
    Ensures b.env (load16 v) post16 w ↔ post16 (w.globals.half v) w := ensures_perform

@[simp] theorem ensures_store8 {v : Var8} {value : UINT8} :
    Ensures b.env (store8 v value) post w ↔
      post () { w with globals := w.globals.set8 v value } := ensures_perform

@[simp] theorem ensures_store16 {v : Var16} {value : UINT16} :
    Ensures b.env (store16 v value) post w ↔
      post () { w with globals := w.globals.set16 v value } := ensures_perform

@[simp] theorem ensures_stepTbl {i : UINT8} :
    Ensures b.env (stepTbl i) post8 w ↔ post8 (b.stepValue i) w := ensures_perform

@[simp] theorem achieves_act {e : Ext} : Achieves b.env (act e) post w ↔ post () (w.after b e) := by
  rw [act, achieves_bind]
  exact achieves_perform.trans achieves_pure

@[simp] theorem achieves_copyFromUser :
    Achieves b.env copyFromUser postBool w ↔
      postBool (b.respond .copyFromUser w.world).1 (w.after b .copyFromUser) := achieves_perform

@[simp] theorem achieves_peek {address : INT} :
    Achieves b.env (peek address) post8 w ↔
      post8 (b.respond (.peek address) w.world).1 (w.after b (.peek address)) := achieves_perform

@[simp] theorem achieves_readReg {adr : UINT8} :
    Achieves b.env (readReg adr) post8 w ↔
      post8 (b.respond (.readReg adr) w.world).1 (w.after b (.readReg adr)) := achieves_perform

@[simp] theorem achieves_writeReg {adr value : UINT8} :
    Achieves b.env (writeReg adr value) post w ↔ post () (w.after b (.writeReg adr value)) :=
  achieves_perform

@[simp] theorem achieves_load8 {v : Var8} :
    Achieves b.env (load8 v) post8 w ↔ post8 (w.globals.byte v) w := achieves_perform

@[simp] theorem achieves_load16 {v : Var16} :
    Achieves b.env (load16 v) post16 w ↔ post16 (w.globals.half v) w := achieves_perform

@[simp] theorem achieves_store8 {v : Var8} {value : UINT8} :
    Achieves b.env (store8 v value) post w ↔
      post () { w with globals := w.globals.set8 v value } := achieves_perform

@[simp] theorem achieves_store16 {v : Var16} {value : UINT16} :
    Achieves b.env (store16 v value) post w ↔
      post () { w with globals := w.globals.set16 v value } := achieves_perform

@[simp] theorem achieves_stepTbl {i : UINT8} :
    Achieves b.env (stepTbl i) post8 w ↔ post8 (b.stepValue i) w := achieves_perform

end

@[simp] theorem uses_ext {e : Ext} : Uses allowed (ext e) ↔ allowed (.ext e) := uses_perform

@[simp] theorem uses_act {e : Ext} : Uses allowed (act e) ↔ allowed (.ext e) := by
  simp [act]

@[simp] theorem uses_readReg {adr : UINT8} :
    Uses allowed (readReg adr) ↔ allowed (.ext (.readReg adr)) := uses_perform

@[simp] theorem uses_writeReg {adr value : UINT8} :
    Uses allowed (writeReg adr value) ↔ allowed (.ext (.writeReg adr value)) := uses_perform

@[simp] theorem uses_load8 {v : Var8} : Uses allowed (load8 v) ↔ allowed (.load8 v) := uses_perform

@[simp] theorem uses_load16 {v : Var16} : Uses allowed (load16 v) ↔ allowed (.load16 v) :=
  uses_perform

@[simp] theorem uses_store8 {v : Var8} {value : UINT8} :
    Uses allowed (store8 v value) ↔ allowed (.store8 v value) := uses_perform

@[simp] theorem uses_store16 {v : Var16} {value : UINT16} :
    Uses allowed (store16 v value) ↔ allowed (.store16 v value) := uses_perform

@[simp] theorem uses_stepTbl {i : UINT8} : Uses allowed (stepTbl i) ↔ allowed (.stepTbl i) :=
  uses_perform

variable {α : Type}

@[simp] theorem uses_ext_bind {e : Ext} {f : e.Answer → Drv α} :
    Uses allowed (ext e >>= f) ↔ allowed (.ext e) ∧ ∀ answer, Uses allowed (f answer) :=
  uses_perform_bind

@[simp] theorem uses_act_bind {e : Ext} {f : Unit → Drv α} :
    Uses allowed (act e >>= f) ↔ allowed (.ext e) ∧ Uses allowed (f ()) := by
  rw [act, bind_assoc, uses_ext_bind]
  simp only [pure_bind, forall_const]

@[simp] theorem uses_copyFromUser_bind {f : Bool → Drv α} :
    Uses allowed (copyFromUser >>= f) ↔
      allowed (.ext .copyFromUser) ∧ ∀ copied, Uses allowed (f copied) := uses_perform_bind

@[simp] theorem uses_copyToUser_bind {f : Bool → Drv α} :
    Uses allowed (copyToUser >>= f) ↔
      allowed (.ext .copyToUser) ∧ ∀ copied, Uses allowed (f copied) := uses_perform_bind

@[simp] theorem uses_peek_bind {address : INT} {f : UINT8 → Drv α} :
    Uses allowed (peek address >>= f) ↔
      allowed (.ext (.peek address)) ∧ ∀ value, Uses allowed (f value) := uses_perform_bind

@[simp] theorem uses_readReg_bind {adr : UINT8} {f : UINT8 → Drv α} :
    Uses allowed (readReg adr >>= f) ↔
      allowed (.ext (.readReg adr)) ∧ ∀ value, Uses allowed (f value) := uses_perform_bind

@[simp] theorem uses_writeReg_bind {adr value : UINT8} {f : Unit → Drv α} :
    Uses allowed (writeReg adr value >>= f) ↔
      allowed (.ext (.writeReg adr value)) ∧ Uses allowed (f ()) :=
  uses_perform_bind.trans (and_congr_right fun _ => ⟨fun h => h (), fun h _ => h⟩)

@[simp] theorem uses_load8_bind {v : Var8} {f : UINT8 → Drv α} :
    Uses allowed (load8 v >>= f) ↔ allowed (.load8 v) ∧ ∀ value, Uses allowed (f value) :=
  uses_perform_bind

@[simp] theorem uses_load16_bind {v : Var16} {f : UINT16 → Drv α} :
    Uses allowed (load16 v >>= f) ↔ allowed (.load16 v) ∧ ∀ value, Uses allowed (f value) :=
  uses_perform_bind

@[simp] theorem uses_store8_bind {v : Var8} {value : UINT8} {f : Unit → Drv α} :
    Uses allowed (store8 v value >>= f) ↔ allowed (.store8 v value) ∧ Uses allowed (f ()) :=
  uses_perform_bind.trans (and_congr_right fun _ => ⟨fun h => h (), fun h _ => h⟩)

@[simp] theorem uses_store16_bind {v : Var16} {value : UINT16} {f : Unit → Drv α} :
    Uses allowed (store16 v value >>= f) ↔ allowed (.store16 v value) ∧ Uses allowed (f ()) :=
  uses_perform_bind.trans (and_congr_right fun _ => ⟨fun h => h (), fun h _ => h⟩)

@[simp] theorem uses_stepTbl_bind {i : UINT8} {f : UINT8 → Drv α} :
    Uses allowed (stepTbl i >>= f) ↔ allowed (.stepTbl i) ∧ ∀ value, Uses allowed (f value) :=
  uses_perform_bind

end

section
variable (g : Globals) (v v' : Var8) (u u' : Var16) (x : UINT8) (y : UINT16)

@[simp] theorem set8_byte : (g.set8 v x).byte v' = if v' = v then x else g.byte v' := by
  simp [Globals.set8, Function.update_apply]

@[simp] theorem set8_half : (g.set8 v x).half u = g.half u := rfl

@[simp] theorem set16_half : (g.set16 u y).half u' = if u' = u then y else g.half u' := by
  simp [Globals.set16, Function.update_apply]

@[simp] theorem set16_byte : (g.set16 u y).byte v = g.byte v := rfl

end

end Yika.Fm
