import Mathlib.Data.BitVec
import Yika.Fm.Concurrency
import Yika.Fm.Footprint
import Yika.Fm.Masks

/-! A chip whose registers are memory, and what the driver functions make of the register file. -/

namespace Yika.Fm
open Program

abbrev Regs := UINT8 → UINT8

/-- Every register reads as what was last written to it. -/
structure HoldsRegisters {κ : Type} (b : Board κ) (regs : κ → Regs) : Prop where
  read : ∀ adr k, (b.respond (.readReg adr) k).1 = regs k adr
  write : ∀ adr value k,
    regs (b.respond (.writeReg adr value) k).2 = Function.update (regs k) adr value
  keep : ∀ e k, (∀ adr value, e ≠ .writeReg adr value) → regs (b.respond e k).2 = regs k

theorem registerFile_holds (beyond : UINT8 → UINT8) (user : (e : Ext) → e.Answer) :
    HoldsRegisters (registerFile beyond user) id where
  read _ _ := rfl
  write _ _ _ := rfl
  keep e k other := by
    cases e with
    | writeReg adr value => exact absurd rfl (other adr value)
    | _ => rfl

section
variable {κ α β : Type} {b : Board κ} {regs : κ → Regs}

theorem register_kept (chip : HoldsRegisters b regs) {p : Drv α} {written : List UINT8}
    {bytes : Set Var8} {halves : Set Var16} (uses : Uses (Writes written bytes halves) p)
    {w w' : Machine κ} {out : α} (run : Runs b.env p w out w') {adr : UINT8}
    (outside : adr ∉ written) : regs w'.world adr = regs w.world adr := by
  apply uses.frame (fun w => regs w.world adr) _ run
  intro o w₁ writes
  cases o with
  | ext e =>
    by_cases write : ∃ reg value, e = .writeReg reg value
    · obtain ⟨reg, value, rfl⟩ := write
      have other : adr ≠ reg := fun same => outside (same ▸ writes)
      change regs (b.respond (.writeReg reg value) w₁.world).2 adr = _
      rw [chip.write, Function.update_of_ne other]
    · change regs (b.respond e w₁.world).2 adr = _
      rw [chip.keep e w₁.world fun reg value same => write ⟨reg, value, same⟩]
  | _ => rfl

theorem IoctlStep.register_kept (chip : HoldsRegisters b regs) {w w' : Machine κ} {cmd : Ioctl}
    (step : IoctlStep b w cmd w') {adr : UINT8} (outside : adr ∉ cmd.regs) :
    regs w'.world adr = regs w.world adr := by
  obtain ⟨stackPower, reply, run⟩ := step
  exact Fm.register_kept chip (qn8006UnlockedIoctl_writes stackPower cmd) run outside

/-- From any state the program returns, and makes `f` of the register file. -/
def Makes (b : Board κ) (regs : κ → Regs) (p : Drv α) (f : Regs → Regs) : Prop :=
  ∀ w, Achieves b.env p (fun _ w' => regs w'.world = f (regs w.world)) w

variable {p q : Drv α} {next : α → Drv β} {f g : Regs → Regs}

theorem makes_pure (value : α) : Makes b regs (pure value : Drv α) id := by
  intro w
  exact achieves_pure.mpr rfl

theorem Makes.seq (first : Makes b regs p f) (rest : ∀ value, Makes b regs (next value) g) :
    Makes b regs (p >>= next) fun r => g (f r) := by
  intro w
  rw [achieves_bind]
  apply (first w).mono
  intro value w₁ made
  show Achieves b.env (next value) (fun _ w' => regs w'.world = g (f (regs w.world))) w₁
  rw [← made]
  exact rest value w₁

theorem makes_write (chip : HoldsRegisters b regs) (adr value : UINT8) :
    Makes b regs (writeReg adr value) fun r => Function.update r adr value := by
  intro w
  rw [achieves_writeReg]
  exact chip.write adr value w.world

theorem makes_read (chip : HoldsRegisters b regs) (adr : UINT8) {next : UINT8 → Drv β}
    {g : UINT8 → Regs → Regs} (rest : ∀ value, Makes b regs (next value) (g value)) :
    Makes b regs (readReg adr >>= next) fun r => g (r adr) r := by
  intro w
  rw [achieves_bind, achieves_readReg, chip.read]
  have same : regs (w.after b (.readReg adr)).world = regs w.world :=
    chip.keep (.readReg adr) w.world fun _ _ => Ext.noConfusion
  have made := rest (regs w.world adr) (w.after b (.readReg adr))
  rw [same] at made
  exact made

theorem makes_ite {c : Prop} [Decidable c] (yes : Makes b regs p f) (no : Makes b regs q g) :
    Makes b regs (if c then p else q) fun r => if c then f r else g r := by
  by_cases h : c
  · simpa only [if_pos h] using yes
  · simpa only [if_neg h] using no

/-! The functions. -/

def setBits (reg bitMask dataVal : UINT8) (r : Regs) : Regs :=
  Function.update r reg ((r reg &&& ~~~bitMask) ||| (dataVal &&& bitMask))

theorem qnfSetRegBit_makes (chip : HoldsRegisters b regs) (reg bitMask dataVal : UINT8) :
    Makes b regs (qnfSetRegBit reg bitMask dataVal) (setBits reg bitMask dataVal) :=
  makes_read chip reg fun temp => makes_write chip reg ((temp &&& ~~~bitMask) ||| (dataVal &&& bitMask))

def mute (on : Bool) : Regs → Regs := setBits REG_PD2 0x0c (if on then 0x0c else 0x00)

theorem qnfSetMute_makes (chip : HoldsRegisters b regs) (on : Bool) :
    Makes b regs (qnfSetMute on) (mute on) := by
  cases on with
  | true => exact qnfSetRegBit_makes chip REG_PD2 0x0c 0x0c
  | false => exact qnfSetRegBit_makes chip REG_PD2 0x0c 0x00

def rxInit (r : Regs) : Regs :=
  setBits 65 0x7f 40 (setBits 66 0x3f 22 (setBits 64 0x3f 8 (setBits 40 0x80 0x80 (setBits 77 0x80 0x80 r))))

theorem qnfRXInit_makes (chip : HoldsRegisters b regs) : Makes b regs qnfRXInit rxInit :=
  (qnfSetRegBit_makes chip 77 0x80 0x80).seq fun _ =>
    (qnfSetRegBit_makes chip 40 0x80 0x80).seq fun _ =>
      (qnfSetRegBit_makes chip 64 0x3f 8).seq fun _ =>
        (qnfSetRegBit_makes chip 66 0x3f 22).seq fun _ => qnfSetRegBit_makes chip 65 0x7f 40

/-- The channel in CH and in two bits of CH_STEP. -/
def setCh (freq : UINT16) (r : Regs) : Regs :=
  setBits CH_STEP CH_CH ((freq2chreg freq >>> 8).setWidth 8)
    (Function.update r CH ((freq2chreg freq).setWidth 8))

theorem qnfSetCh_makes (chip : HoldsRegisters b regs) (freq : UINT16) :
    Makes b regs (qnfSetCh freq) (setCh freq) :=
  (makes_write chip CH _).seq fun _ => makes_read chip CH_STEP fun _ => makes_write chip CH_STEP _

/-- The value of the filter bits that tuning goes by. -/
def filterBits (sys2 : UINT8) : UINT8 := if sys2 &&& 0x20 ≠ 0 then 0x00 else 0x28

def tuneFilter (r : Regs) : Regs := mute false (setBits GAIN_SEL 0x38 (filterBits (r SYSTEM2)) r)

/-- Tuning. In transmit mode only the channel is set. -/
def tune (ch : UINT16) (r : Regs) : Regs :=
  let r := rxInit r
  if r SYSTEM1 &&& TXREQ ≠ 0 then setCh ch (setBits SYSTEM1 CCA_CH_DIS CCA_CH_DIS r)
  else
    let r := setBits TXAGC_GAIN IMR (if imageChannel ch then IMR else 0x00) (mute true r)
    tuneFilter (setBits SYSTEM1 CCA_CH_DIS CCA_CH_DIS (setCh ch r))

theorem qndTuneToCH_makes (chip : HoldsRegisters b regs) (ch : UINT16) :
    Makes b regs (qndTuneToCH ch) (tune ch) := by
  have image : Makes b regs (if imageChannel ch then qnfSetRegBit TXAGC_GAIN IMR IMR
      else qnfSetRegBit TXAGC_GAIN IMR 0x00)
      (setBits TXAGC_GAIN IMR (if imageChannel ch then IMR else 0x00)) := by
    split
    next => exact qnfSetRegBit_makes chip TXAGC_GAIN IMR IMR
    next => exact qnfSetRegBit_makes chip TXAGC_GAIN IMR 0x00
  have filter (sys2 : UINT8) : Makes b regs (do
      qnfSetRegBit GAIN_SEL 0x38 (if sys2 &&& 0x20 ≠ 0 then 0x00 else 0x28)
      qnfSetMute false) fun r => mute false (setBits GAIN_SEL 0x38 (filterBits sys2) r) :=
    (qnfSetRegBit_makes chip GAIN_SEL 0x38 _).seq fun _ => qnfSetMute_makes chip false
  have idle := qnfSetRegBit_makes chip SYSTEM1 CCA_CH_DIS CCA_CH_DIS
  have transmit := idle.seq fun _ => qnfSetCh_makes chip ch
  have receive := (qnfSetMute_makes chip true).seq fun _ => image.seq fun _ =>
    (qnfSetCh_makes chip ch).seq fun _ => idle.seq fun _ => makes_read chip SYSTEM2 filter
  have mode (sys : UINT8) := makes_ite (c := sys &&& TXREQ ≠ 0) transmit receive
  have whole := (qnfRXInit_makes chip).seq fun _ => makes_read chip SYSTEM1 mode
  exact whole

def rdsEnable (on : UINT8) (r : Regs) : Regs :=
  if on = 1 then Function.update (setBits GAIN_SEL 0x08 0x00 r) SYSTEM1 (r SYSTEM1 ||| RDSEN)
  else if on = 0 then
    Function.update (setBits GAIN_SEL 0x38 0x28 r) SYSTEM1 (r SYSTEM1 &&& ~~~RDSEN)
  else r

theorem qndRDSEnable_makes (chip : HoldsRegisters b regs) (on : UINT8) :
    Makes b regs (qndRDSEnable on) (rdsEnable on) := by
  have enable (val : UINT8) := (qnfSetRegBit_makes chip GAIN_SEL 0x08 0x00).seq fun _ =>
    (makes_write chip SYSTEM1 (val ||| RDSEN)).seq fun _ => makes_pure (1 : UINT8)
  have disable (val : UINT8) := (qnfSetRegBit_makes chip GAIN_SEL 0x38 0x28).seq fun _ =>
    (makes_write chip SYSTEM1 (val &&& ~~~RDSEN)).seq fun _ => makes_pure (1 : UINT8)
  have whole := makes_read chip SYSTEM1 fun val => makes_ite (c := on = 1) (enable val)
    (makes_ite (c := on = 0) (disable val) (makes_pure 0))
  exact whole

end

/-! A single register. -/

/-- The register `adr` reads as what was last written to it. -/
structure HoldsRegister {κ : Type} (b : Board κ) (adr : UINT8) (cell : κ → UINT8) : Prop where
  read : ∀ k, (b.respond (.readReg adr) k).1 = cell k
  write : ∀ value k, cell (b.respond (.writeReg adr value) k).2 = value
  keep : ∀ e k, (∀ value, e ≠ .writeReg adr value) → cell (b.respond e k).2 = cell k

theorem HoldsRegisters.register {κ : Type} {b : Board κ} {regs : κ → Regs}
    (chip : HoldsRegisters b regs) (adr : UINT8) : HoldsRegister b adr fun k => regs k adr where
  read k := chip.read adr k
  write value k := by
    rw [chip.write]
    exact Function.update_self _ _ _
  keep e k other := by
    by_cases write : ∃ reg value, e = .writeReg reg value
    · obtain ⟨reg, value, rfl⟩ := write
      have apart : adr ≠ reg := fun same => other value (by rw [same])
      rw [chip.write, Function.update_of_ne apart]
    · rw [chip.keep e k fun reg value same => write ⟨reg, value, same⟩]

section
variable {κ α : Type} {b : Board κ} {adr : UINT8} {cell : κ → UINT8} {w w' : Machine κ}
  {p : Drv α} {written : List UINT8} {bytes : Set Var8} {halves : Set Var16}

theorem Writes.cell_kept (chip : HoldsRegister b adr cell) {o : FmOp}
    (writes : Writes written bytes halves o) (outside : adr ∉ written) :
    cell (b.env o w).2.world = cell w.world := by
  cases o with
  | ext e =>
    apply chip.keep
    intro value same
    subst same
    exact outside writes
  | _ => rfl

theorem cell_kept (chip : HoldsRegister b adr cell) (uses : Uses (Writes written bytes halves) p)
    (outside : adr ∉ written) : Keeps b.env (fun w => cell w.world) p :=
  uses.keeps fun _ _ writes => writes.cell_kept chip outside

theorem cell_written (chip : HoldsRegister b adr cell) (value : UINT8) :
    cell (w.after b (.writeReg adr value)).world = value := chip.write value w.world

theorem qnfSetRegBit_cell (chip : HoldsRegister b adr cell) (bitMask dataVal : UINT8) :
    Ensures b.env (qnfSetRegBit adr bitMask dataVal) (fun _ w' =>
      cell w'.world = (cell w.world &&& ~~~bitMask) ||| (dataVal &&& bitMask)) w := by
  simp only [qnfSetRegBit, ensures_bind, ensures_readReg, ensures_writeReg, chip.read,
    cell_written chip]

end

end Yika.Fm
