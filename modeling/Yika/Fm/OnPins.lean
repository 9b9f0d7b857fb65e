import Yika.Fm.Concurrency
import Yika.I2c.Slave
import Yika.Program.Lower

/-! The driver on its two pins. `qn8006_gpio_i2c_ReadReg` and `qn8006_gpio_i2c_WriteReg` are the
transfers of the bit-banged bus, and a chip at the address of the QN8006 answers them with its
registers: what the driver does there is what it does on a board whose registers are read and
written at once. -/

namespace Yika.Fm
open Program

inductive WireOp where
  | pin (o : I2c.PinOp)
  | rest (o : FmOp)

abbrev WireOp.Answer : WireOp → Type
  | .pin o => o.Answer
  | .rest o => o.Answer

abbrev wireSignature : Signature := ⟨WireOp, WireOp.Answer⟩

def onPins {α : Type} (p : I2c.Master α) : Prog wireSignature α :=
  p.lower fun o => @Prog.perform wireSignature (.pin o)

def atOnce (o : FmOp) : Prog wireSignature o.Answer := @Prog.perform wireSignature (.rest o)

/-- Each operation of the driver, with the two register accesses as transfers. -/
def bitBanged : (o : FmOp) → Prog wireSignature o.Answer
  | .ext (.readReg adr) => onPins (I2c.qn8006GpioI2cReadReg adr)
  | .ext (.writeReg adr value) => do
    let _ ← onPins (I2c.qn8006GpioI2cWriteReg adr value)
    pure ()
  | o => atOnce o

/-- The driver's memory, and the bus with what is on it. -/
structure WireMachine (κ : Type) where
  globals : Globals
  wired : I2c.Wired κ

variable {κ : Type}

/-- What is left when the bus is not looked at. -/
def WireMachine.machine (v : WireMachine κ) : Machine κ := ⟨v.globals, v.wired.chip⟩

def Board.registers (b : Board κ) : I2c.RegisterFile κ where
  read adr chip := b.respond (.readReg adr) chip
  write adr value chip := (b.respond (.writeReg adr value) chip).2

/-- The chip has the address `own`. -/
def Board.wireEnv (b : Board κ) (own : UINT8) : Env wireSignature (WireMachine κ)
  | .pin o, v =>
    ((I2c.wiredEnv b.registers own o v.wired).1,
      { v with wired := (I2c.wiredEnv b.registers own o v.wired).2 })
  | .rest o, v =>
    ((b.env o v.machine).1,
      ⟨(b.env o v.machine).2.globals, { v.wired with chip := (b.env o v.machine).2.world }⟩)

/-- A board without the chip: what is read is what the pull-up makes of the line. -/
def Board.absent (b : Board κ) : Board κ where
  respond
    | .readReg _, w => (0xff, w)
    | .writeReg _ _, w => ((), w)
    | e, w => b.respond e w
  beyond := b.beyond

/-- What the driver finds at its address, with the chip of the board at `own`. -/
def Board.seenAt (b : Board κ) (own : UINT8) : Board κ :=
  if own = I2c.QN8006_I2C_ADDR then b else b.absent

/-- Everything but the registers is there without the chip. -/
theorem Board.seenAt_env (b : Board κ) (own : UINT8) {o : FmOp} {w : Machine κ}
    (noRead : ∀ adr, o ≠ .ext (.readReg adr)) (noWrite : ∀ adr value, o ≠ .ext (.writeReg adr value)) :
    b.env o w = (b.seenAt own).env o w := by
  unfold Board.seenAt
  split
  next => rfl
  next =>
    cases o with
    | ext e =>
      cases e with
      | readReg adr => exact absurd rfl (noRead adr)
      | writeReg adr value => exact absurd rfl (noWrite adr value)
      | _ => rfl
    | _ => rfl

theorem calledAddress : I2c.QN8006_I2C_ADDR <<< 1 >>> 1 = I2c.QN8006_I2C_ADDR := by
  decide

section
variable {b : Board κ} {own : UINT8} {v : WireMachine κ} {α : Type}

/-- The pins are those of the bus, whatever else the driver has. -/
theorem pins_refine (b : Board κ) (own : UINT8) (globals : Globals) :
    Refines (b.wireEnv own) (I2c.wiredEnv b.registers own)
      (fun o => @Prog.perform wireSignature (.pin o)) (fun v => v.globals = globals) WireMachine.wired := by
  intro o v same
  exact achieves_perform.mpr ⟨rfl, same, rfl⟩

theorem achieves_onPins {p : I2c.Master α} {post : α → I2c.Wired κ → Prop}
    (done : Achieves (I2c.wiredEnv b.registers own) p post v.wired) :
    Achieves (b.wireEnv own) (onPins p) (fun out v' => v'.globals = v.globals ∧ post out v'.wired) v :=
  ((pins_refine b own v.globals).achieves_iff rfl).mpr done

theorem readReg_onPins (ready : I2c.Ready v.wired) (adr : UINT8) :
    Achieves (b.wireEnv own) (onPins (I2c.qn8006GpioI2cReadReg adr)) (fun value v' =>
      v'.globals = v.globals ∧ value = ((b.seenAt own).respond (.readReg adr) v.wired.chip).1 ∧
      v'.wired = .rest ((b.seenAt own).respond (.readReg adr) v.wired.chip).2) v := by
  have read : Achieves (I2c.wiredEnv b.registers own) (I2c.qn8006GpioI2cReadReg adr) (fun value k' =>
      value = ((b.seenAt own).respond (.readReg adr) v.wired.chip).1 ∧
      k' = .rest ((b.seenAt own).respond (.readReg adr) v.wired.chip).2) v.wired := by
    unfold I2c.qn8006GpioI2cReadReg
    rw [achieves_bind]
    apply (I2c.readNbyte_wired ready (I2c.QN8006_I2C_ADDR <<< 1) adr 1 (by decide)).mono
    rintro ⟨succ, bytes⟩ k ⟨_, rfl, rfl⟩
    rw [achieves_pure, calledAddress]
    by_cases here : own = I2c.QN8006_I2C_ADDR
    · rw [if_pos here.symm, if_pos here.symm, Board.seenAt, if_pos here]
      exact ⟨rfl, rfl⟩
    · rw [if_neg (Ne.symm here), if_neg (Ne.symm here), Board.seenAt, if_neg here]
      exact ⟨rfl, rfl⟩
  exact achieves_onPins read

theorem writeReg_onPins (ready : I2c.Ready v.wired) (adr value : UINT8) :
    Achieves (b.wireEnv own) (onPins (I2c.qn8006GpioI2cWriteReg adr value)) (fun _ v' =>
      v'.globals = v.globals ∧
      v'.wired = .rest ((b.seenAt own).respond (.writeReg adr value) v.wired.chip).2) v := by
  have written : Achieves (I2c.wiredEnv b.registers own) (I2c.qn8006GpioI2cWriteReg adr value) (fun _ k' =>
      k' = .rest ((b.seenAt own).respond (.writeReg adr value) v.wired.chip).2) v.wired := by
    unfold I2c.qn8006GpioI2cWriteReg
    rw [achieves_bind]
    apply (I2c.writeNbyte_wired ready (I2c.QN8006_I2C_ADDR <<< 1) adr [value]).mono
    rintro succ k ⟨_, rfl⟩
    rw [achieves_pure, calledAddress]
    by_cases here : own = I2c.QN8006_I2C_ADDR
    · rw [if_pos here.symm, Board.seenAt, if_pos here]
      rfl
    · rw [if_neg (Ne.symm here), Board.seenAt, if_neg here]
      rfl
  exact achieves_onPins written

/-- On the pins every operation of the driver is performed as on the board that is seen there. -/
theorem bitBanged_refines (b : Board κ) (own : UINT8) :
    Refines (b.wireEnv own) (b.seenAt own).env bitBanged (fun v => I2c.Ready v.wired)
      WireMachine.machine := by
  intro o v ready
  have elsewhere (o : FmOp) (same : b.env o v.machine = (b.seenAt own).env o v.machine) :
      Achieves (b.wireEnv own) (atOnce o) (fun answer v' => answer = ((b.seenAt own).env o v.machine).1 ∧
        I2c.Ready v'.wired ∧ v'.machine = ((b.seenAt own).env o v.machine).2) v := by
    rw [← same]
    exact achieves_perform.mpr ⟨rfl, ⟨ready.scl, ready.sda⟩, rfl⟩
  cases o with
  | ext e =>
    cases e with
    | readReg adr =>
      apply (readReg_onPins ready adr).mono
      rintro value ⟨globals, wired⟩ ⟨rfl, rfl, rfl⟩
      exact ⟨rfl, I2c.rest_ready, rfl⟩
    | writeReg adr value =>
      refine achieves_bind.mpr ((writeReg_onPins ready adr value).mono ?_)
      rintro _ ⟨globals, wired⟩ ⟨rfl, rfl⟩
      exact achieves_pure.mpr ⟨rfl, I2c.rest_ready, rfl⟩
    | _ => exact elsewhere _ (b.seenAt_env own (by simp) (by simp))
  | _ => exact elsewhere _ (b.seenAt_env own (by simp) (by simp))

end

/-! Requests on the pins. -/

/-- Calls of `qn8006_unlocked_ioctl`, with what its stack held, and their replies. -/
def calls : List (INT × Ioctl) → Drv (List Reply)
  | [] => pure []
  | (stackPower, cmd) :: cmds => do
    let reply ← qn8006UnlockedIoctl stackPower cmd
    let replies ← calls cmds
    pure (reply :: replies)

section
variable {b : Board κ} {w w' : Machine κ} {call : INT × Ioctl} {cmds cmds' : List (INT × Ioctl)}
  {replies : List Reply}

theorem runs_calls_nil : Runs b.env (calls []) w replies w' ↔ replies = [] ∧ w' = w := runs_pure

theorem runs_calls_cons : Runs b.env (calls (call :: cmds)) w replies w' ↔
    ∃ reply w₁ later, replies = reply :: later ∧ Runs b.env (qn8006UnlockedIoctl call.1 call.2) w reply w₁ ∧
      Runs b.env (calls cmds) w₁ later w' := by
  constructor
  · intro run
    obtain ⟨reply, w₁, first, rest⟩ := runs_bind.mp run
    obtain ⟨later, w₂, others, last⟩ := runs_bind.mp rest
    obtain ⟨rfl, rfl⟩ := runs_pure.mp last
    exact ⟨reply, w₁, later, rfl, first, others⟩
  · rintro ⟨reply, w₁, later, rfl, first, others⟩
    exact first.seq (others.seq (runs_pure.mpr ⟨rfl, rfl⟩))

theorem runs_calls_append : Runs b.env (calls (cmds ++ cmds')) w replies w' ↔
    ∃ first w₁ later, replies = first ++ later ∧ Runs b.env (calls cmds) w first w₁ ∧
      Runs b.env (calls cmds') w₁ later w' := by
  induction cmds generalizing w replies with
  | nil =>
    constructor
    · exact fun run => ⟨[], w, replies, rfl, runs_calls_nil.mpr ⟨rfl, rfl⟩, run⟩
    · rintro ⟨first, w₁, later, rfl, none, run⟩
      obtain ⟨rfl, rfl⟩ := runs_calls_nil.mp none
      exact run
  | cons call cmds ih =>
    rw [List.cons_append, runs_calls_cons]
    constructor
    · rintro ⟨reply, w₁, rest, rfl, made, run⟩
      obtain ⟨first, w₂, later, rfl, before, after⟩ := ih.mp run
      exact ⟨reply :: first, w₂, later, rfl, runs_calls_cons.mpr ⟨reply, w₁, first, rfl, made, before⟩, after⟩
    · rintro ⟨first, w₂, later, rfl, before, after⟩
      obtain ⟨reply, w₁, first, rfl, made, before⟩ := runs_calls_cons.mp before
      exact ⟨reply, w₁, first ++ later, rfl, made, ih.mpr ⟨first, w₂, later, rfl, before, after⟩⟩

end

/-- The calls on the pins that `qn8006_probe` has made outputs. -/
def callsOnPins (cmds : List (INT × Ioctl)) : Prog wireSignature (List Reply) := do
  onPins I2c.qn8006I2cInitial
  (calls cmds).lower bitBanged

section
variable {b : Board κ} {own : UINT8} {v : WireMachine κ} {cmds : List (INT × Ioctl)}
  {replies : List Reply} {w' : Machine κ}

theorem initial_onPins (idle : v.wired.phase = .idle) :
    Achieves (b.wireEnv own) (onPins I2c.qn8006I2cInitial) (fun _ v' =>
      I2c.Ready v'.wired ∧ v'.machine = v.machine) v := by
  apply (achieves_onPins (I2c.initial_wired idle)).mono
  rintro _ ⟨globals, wired⟩ ⟨rfl, ready, same⟩
  exact ⟨ready, by rw [WireMachine.machine, WireMachine.machine, same]⟩

/-- The replies, the driver's globals and the registers are those of the board that is seen. -/
theorem callsOnPins_iff (idle : v.wired.phase = .idle) :
    (∃ v', Runs (b.wireEnv own) (callsOnPins cmds) v replies v' ∧ v'.machine = w') ↔
      Runs (b.seenAt own).env (calls cmds) v.machine replies w' := by
  have initialised : Achieves (b.wireEnv own) (onPins I2c.qn8006I2cInitial) (fun _ v' =>
      I2c.Ready v'.wired ∧ v'.machine = v.machine) v := initial_onPins idle
  obtain ⟨_, v₁, initial, ready, same⟩ := initialised
  rw [← same]
  constructor
  · rintro ⟨v', run, rfl⟩
    obtain ⟨_, v₁', first, rest⟩ := runs_bind.mp run
    obtain ⟨_, rfl⟩ := initial.det first
    exact (rest.raise (bitBanged_refines b own) ready).1
  · intro run
    obtain ⟨v', rest, _, there⟩ := run.lower (bitBanged_refines b own) ready rfl
    exact ⟨v', initial.seq rest, there⟩

/-- With the chip at its address, every sequence of requests on the pins is one on the registers. -/
theorem calls_on_chip (idle : v.wired.phase = .idle) :
    (∃ v', Runs (b.wireEnv I2c.QN8006_I2C_ADDR) (callsOnPins cmds) v replies v' ∧ v'.machine = w') ↔
      Runs b.env (calls cmds) v.machine replies w' := by
  have here : b.seenAt I2c.QN8006_I2C_ADDR = b := if_pos rfl
  rw [callsOnPins_iff idle, here]

end

/-- The pins as they are after reset: inputs, with the lines pulled up. -/
def resetPins {κ : Type} (globals : Globals) (chip : κ) : WireMachine κ :=
  ⟨globals, ⟨false, false, false, false, none, .idle, chip⟩⟩

/-- On the pins a frequency is set and read back. -/
theorem tuned_on_pins : ∃ v', Runs ((registerFile (fun _ => 0) granted).wireEnv I2c.QN8006_I2C_ADDR)
    (callsOnPins [(0, .setFq 10130), (7, .getFq)]) (resetPins Globals.initial fun _ => 0)
    [.done, .int 10130] v' := by
  have done : (exec (registerFile (fun _ => 0) granted).env 1 (calls [(0, .setFq 10130), (7, .getFq)])
      clearedChip).map (fun r => r.1) = some [.done, .int 10130] := by decide +kernel
  obtain ⟨_, w', run, rfl⟩ := exec_observe 1 _ done
  have here : Runs (registerFile (fun _ => 0) granted).env (calls [(0, .setFq 10130), (7, .getFq)])
      (resetPins Globals.initial fun _ => 0).machine [.done, .int 10130] w' := run
  obtain ⟨v', onPins, _⟩ := (calls_on_chip rfl).mpr here
  exact ⟨v', onPins⟩

end Yika.Fm
