import Yika.Fm.Footprint
import Yika.Fm.Masks

/-! The working mode: the SYSTEM1 register and the copy of it that SLEEP keeps in
`qnd_PrevMode`. `QND_SetSysMode` is a step of a two-register machine, and over that machine
a wake-up is compared with the value the last fall from awake to standby interrupted. -/

namespace Yika.Fm
open Program

/-- `new` is `old`, or `old` with the bits of `clears` cleared. -/
def Cut (clears old new : UINT8) : Prop := new = old ∨ new = old &&& ~~~clears

/-- SYSTEM1 is memory, except that the chip may clear the bits `clears` of it. -/
structure HoldsSystem1 {κ : Type} (b : Board κ) (clears : UINT8) (sys1 : κ → UINT8) : Prop where
  read : ∀ k, (b.respond (.readReg SYSTEM1) k).1 = sys1 k
  write : ∀ value k, Cut clears value (sys1 (b.respond (.writeReg SYSTEM1 value) k).2)
  keep : ∀ e k, (∀ value, e ≠ .writeReg SYSTEM1 value) → Cut clears (sys1 k) (sys1 (b.respond e k).2)

/-- A chip with the one register SYSTEM1; every other register reads as zero. -/
def system1Chip : Board UINT8 where
  respond
    | .readReg adr, s => (if adr = SYSTEM1 then s else 0, s)
    | .writeReg adr value, s => ((), if adr = SYSTEM1 then value else s)
    | .copyFromUser, s => (true, s)
    | .copyToUser, s => (true, s)
    | .peek _, s => (0, s)
    | .callBack _ _, s => ((), s)
    | .gpioMode _ _, s => ((), s)
    | .gpioDir _ _, s => ((), s)
    | .gpioOut _ _, s => ((), s)
    | .hwPower _, s => ((), s)
    | .poke _ _, s => ((), s)
    | .getIntArrayRegion _ _ _, s => ((), s)
  beyond _ := 0

theorem system1Chip_holds : HoldsSystem1 system1Chip 0 id where
  read _ := rfl
  write _ _ := .inl rfl
  keep e k other := by
    cases e with
    | writeReg adr value =>
      have different : adr ≠ SYSTEM1 := fun same => other value (by rw [same])
      exact .inl (if_neg different)
    | _ => exact .inl rfl

theorem Cut.held {clears old new : UINT8} (cut : Cut clears old new) :
    new &&& ~~~clears = old &&& ~~~clears := by
  rcases cut with rfl | rfl
  · rfl
  · rw [BitVec.and_assoc, BitVec.and_self]

section
variable {κ : Type} {b : Board κ} {clears : UINT8} {sys1 : κ → UINT8}

/-- The bits of SYSTEM1 that the chip leaves alone. -/
def held (clears : UINT8) (sys1 : κ → UINT8) (w : Machine κ) : UINT8 := sys1 w.world &&& ~~~clears

variable {w w' : Machine κ}

theorem held_write (chip : HoldsSystem1 b clears sys1) (value : UINT8) :
    held clears sys1 (w.after b (.writeReg SYSTEM1 value)) = value &&& ~~~clears :=
  (chip.write value w.world).held

theorem held_after (chip : HoldsSystem1 b clears sys1) {e : Ext}
    (other : ∀ value, e ≠ .writeReg SYSTEM1 value) :
    held clears sys1 (w.after b e) = held clears sys1 w := (chip.keep e w.world other).held

theorem held_readReg (chip : HoldsSystem1 b clears sys1) (adr : UINT8) :
    held clears sys1 (w.after b (.readReg adr)) = held clears sys1 w :=
  held_after chip (fun _ same => by cases same)

theorem held_writeReg (chip : HoldsSystem1 b clears sys1) {adr value : UINT8}
    (other : adr ≠ SYSTEM1) : held clears sys1 (w.after b (.writeReg adr value)) = held clears sys1 w :=
  held_after chip (fun _ same => by cases same; exact other rfl)

theorem held_kept (chip : HoldsSystem1 b clears sys1) {regs : List UINT8} {bytes : Set Var8}
    {halves : Set Var16} {α : Type} {p : Drv α} {out : α}
    (uses : Uses (Writes regs bytes halves) p) (other : SYSTEM1 ∉ regs)
    (run : Runs b.env p w out w') : held clears sys1 w' = held clears sys1 w := by
  have keeps : ∀ o (w : Machine κ), Writes regs bytes halves o →
      held clears sys1 (b.env o w).2 = held clears sys1 w := by
    intro o w writes
    cases o with
    | ext e =>
      apply held_after chip
      intro value given
      subst given
      exact other writes
    | _ => rfl
  exact uses.frame (held clears sys1) keeps run

end

/-! `QND_SetSysMode` as a step on SYSTEM1 and the saved mode. -/

structure ModeState where
  sys1 : UINT8
  prevMode : UINT8
  deriving DecidableEq

/-- SYSTEM1 after the `default` branch with `val = mode >> 8`. -/
def workingMode (val s : UINT8) : UINT8 :=
  (if s &&& R_TXRX_MASK = val then s
    else (s &&& ~~~R_TXRX_MASK) ||| (val &&& R_TXRX_MASK)) &&& ~~~0x08

/-- What a call with `mode` makes of SYSTEM1 and `qnd_PrevMode`. -/
def modeStep (mode : UINT16) (s : ModeState) : ModeState :=
  if mode = 0 then ⟨(s.sys1 &&& ~~~R_TXRX_MASK) ||| STNBY, s.sys1⟩
  else if mode = 1 then ⟨s.prevMode, s.prevMode⟩
  else if mode = 2 ∨ mode >>> 8 = 0 then s
  else ⟨workingMode ((mode >>> 8).setWidth 8) s.sys1, s.prevMode⟩

theorem modeStep_sleep (s : ModeState) :
    modeStep 0 s = ⟨(s.sys1 &&& ~~~R_TXRX_MASK) ||| STNBY, s.sys1⟩ := rfl

theorem modeStep_wakeup (s : ModeState) : modeStep 1 s = ⟨s.prevMode, s.prevMode⟩ := rfl

theorem modeStep_same {mode : UINT16} (awake : mode ≠ 0) (later : mode ≠ 1)
    (idle : mode = 2 ∨ mode >>> 8 = 0) (s : ModeState) : modeStep mode s = s := by
  rw [modeStep, if_neg awake, if_neg later, if_pos idle]

theorem modeStep_working {mode : UINT16} (awake : mode ≠ 0) (later : mode ≠ 1)
    (busy : ¬(mode = 2 ∨ mode >>> 8 = 0)) (s : ModeState) :
    modeStep mode s = ⟨workingMode ((mode >>> 8).setWidth 8) s.sys1, s.prevMode⟩ := by
  rw [modeStep, if_neg awake, if_neg later, if_neg busy]

theorem workingMode_held {clears : UINT8} (apart : clears &&& R_TXRX_MASK = 0) (val s : UINT8) :
    workingMode val (s &&& ~~~clears) &&& ~~~clears = workingMode val s &&& ~~~clears := by
  simp only [workingMode, keep_mask apart]
  split
  · grind
  · grind

section
variable {κ : Type} {b : Board κ} {clears : UINT8} {sys1 : κ → UINT8} {w : Machine κ}

def modeState (sys1 : κ → UINT8) (w : Machine κ) : ModeState :=
  ⟨sys1 w.world, w.globals.byte .qndPrevMode⟩

theorem qnfSetRegBit_system1 (chip : HoldsSystem1 b clears sys1) (bitMask dataVal : UINT8) :
    Ensures b.env (qnfSetRegBit SYSTEM1 bitMask dataVal) (fun _ w' => w'.globals = w.globals ∧
      held clears sys1 w' =
        ((held clears sys1 w &&& ~~~bitMask) ||| (dataVal &&& bitMask)) &&& ~~~clears) w := by
  simp only [qnfSetRegBit, ensures_bind, ensures_readReg, ensures_writeReg, after_globals,
    true_and, held_write chip, chip.read]
  exact (mask_write _ _ _ _).symm

theorem setWorkingMode_system1 (chip : HoldsSystem1 b clears sys1) (val : UINT8) :
    Ensures b.env (setWorkingMode val) (fun _ w' => w'.globals = w.globals ∧
      held clears sys1 w' = workingMode val (sys1 w.world) &&& ~~~clears) w := by
  simp only [setWorkingMode, ensures_bind, ensures_readReg, ensures_when, chip.read, workingMode]
  constructor
  · intro differs _ w₁ muted _ w₂ switched _ w₃ cleared
    have globals₁ := globals_kept (qnfSetMute_writes true) muted
    have sys₁ := held_kept chip (qnfSetMute_writes true) (by decide) muted
    obtain ⟨globals₂, sys₂⟩ := qnfSetRegBit_system1 chip _ _ _ _ switched
    obtain ⟨globals₃, sys₃⟩ := qnfSetRegBit_system1 chip _ _ _ _ cleared
    refine ⟨by rw [globals₃, globals₂, globals₁, after_globals], ?_⟩
    rw [sys₃, sys₂, sys₁, held_readReg chip, if_neg differs, held]
    grind
  · intro same _ w' cleared
    obtain ⟨globals', sys'⟩ := qnfSetRegBit_system1 chip _ _ _ _ cleared
    refine ⟨by rw [globals', after_globals], ?_⟩
    rw [sys', held_readReg chip, if_pos (not_not.mp same), held]
    grind

theorem setWorkingMode_held (chip : HoldsSystem1 b clears sys1)
    (apart : clears &&& R_TXRX_MASK = 0) (val s : UINT8)
    (start : held clears sys1 w = s &&& ~~~clears) :
    Ensures b.env (setWorkingMode val) (fun _ w' => w'.globals = w.globals ∧
      held clears sys1 w' = workingMode val s &&& ~~~clears) w := by
  refine (setWorkingMode_system1 chip val).mono ?_
  intro _ w' given
  obtain ⟨globals', sys'⟩ := given
  refine ⟨globals', ?_⟩
  rw [sys', ← workingMode_held apart val (sys1 w.world), ← workingMode_held apart val s]
  exact congrArg (fun s => workingMode val s &&& ~~~clears) start

/-- The write of register 73 that comes before a change of working mode. -/
theorem when_write_held (chip : HoldsSystem1 b clears sys1) {c : Prop} [Decidable c]
    {adr value : UINT8} (other : adr ≠ SYSTEM1) :
    Ensures b.env (Prog.when c (writeReg adr value)) (fun _ w' => w'.globals = w.globals ∧
      held clears sys1 w' = held clears sys1 w) w := by
  rw [ensures_when, ensures_writeReg]
  exact ⟨fun _ => ⟨rfl, held_writeReg chip other⟩, fun _ => ⟨rfl, rfl⟩⟩

/-- `QND_SetSysMode` refines `modeStep`. -/
theorem qndSetSysMode_refines (chip : HoldsSystem1 b clears sys1)
    (apart : clears &&& R_TXRX_MASK = 0) (mode : UINT16) :
    Ensures b.env (qndSetSysMode mode) (fun _ w' =>
      w'.globals.byte .qndPrevMode = (modeStep mode (modeState sys1 w)).prevMode ∧
      held clears sys1 w' = (modeStep mode (modeState sys1 w)).sys1 &&& ~~~clears) w := by
  simp only [qndSetSysMode, ensures_ite]
  refine ⟨fun sleep => ?_, fun awake => ⟨fun wakeup => ?_, fun later => ⟨fun reset => ?_, fun set => ?_⟩⟩⟩
  · subst sleep
    simp only [ensures_bind, ensures_readReg, ensures_store8, chip.read, modeStep_sleep]
    refine (qnfSetRegBit_system1 chip R_TXRX_MASK STNBY).mono ?_
    intro _ w' given
    obtain ⟨globals', sys'⟩ := given
    refine ⟨by simp [globals', modeState], ?_⟩
    have stored (g : Globals) :
        held clears sys1 { (w.after b (.readReg SYSTEM1)) with globals := g } = held clears sys1 w :=
      held_readReg chip SYSTEM1
    rw [sys', stored]
    exact mask_write (sys1 w.world) STNBY clears R_TXRX_MASK
  · subst wakeup
    simp only [ensures_bind, ensures_load8, ensures_writeReg, modeStep_wakeup]
    exact ⟨rfl, held_write chip _⟩
  · rw [modeStep_same awake later (.inl reset)]
    intro _ w' run
    refine ⟨?_, held_kept chip (qnfSetRegBit_writes SYSTEM2 0x80 0x80) (by decide) run⟩
    rw [globals_kept (qnfSetRegBit_writes SYSTEM2 0x80 0x80) run]
    rfl
  · rw [ensures_when]
    refine ⟨fun busy => ?_, fun idle => ?_⟩
    · have working : ¬(mode = 2 ∨ mode >>> 8 = 0) := by
        intro given
        rcases given with reset | zero
        · exact set reset
        · exact busy (by rw [zero]; rfl)
      rw [modeStep_working awake later working]
      simp only [ensures_bind]
      intro _ w₁ run₁ _ w₂ run₂
      obtain ⟨globals₁, sys₁⟩ := when_write_held chip (by decide) _ _ run₁
      obtain ⟨globals₂, sys₂⟩ := when_write_held chip (by decide) _ _ run₂
      refine (setWorkingMode_held chip apart _ (sys1 w.world) (sys₂.trans sys₁)).mono ?_
      intro _ w' given
      obtain ⟨globals', sys'⟩ := given
      refine ⟨?_, sys'⟩
      rw [globals', globals₂, globals₁]
      rfl
    · have zero : mode >>> 8 = 0 := by
        have low : (mode >>> 8).setWidth 8 = (0 : UINT8) := not_not.mp idle
        bv_omega
      rw [modeStep_same awake later (.inr zero)]
      exact ⟨rfl, rfl⟩

theorem qndSetSysMode_memory (chip : HoldsSystem1 b 0 sys1) (mode : UINT16) :
    Ensures b.env (qndSetSysMode mode) (fun _ w' =>
      modeState sys1 w' = modeStep mode (modeState sys1 w)) w := by
  refine (qndSetSysMode_refines chip (by decide) mode).mono ?_
  intro _ w' given
  obtain ⟨prev, sys⟩ := given
  have whole (s : UINT8) : s &&& ~~~(0 : UINT8) = s := BitVec.and_allOnes
  simp only [held, whole] at sys
  rw [modeState, prev, sys]

end

/-! Sleeping and waking up. -/

structure SysModeCall where
  before : UINT8
  mode : UINT16
  after : UINT8
  deriving DecidableEq

def Awake (s : UINT8) : Prop := s &&& STNBY = 0
deriving Decidable

/-- SLEEP, WAKEUP, RX|FM and TX|FM. -/
def documentedModes : List UINT16 := [0, 1, 0x8000, 0x4000]

/-- A run of documented `QND_SetSysMode` calls, listed with the values of SYSTEM1. -/
def SysModeRun {κ : Type} (b : Board κ) (sys1 : κ → UINT8) :
    Machine κ → List SysModeCall → Machine κ → Prop :=
  Path fun w call w' => Runs b.env (qndSetSysMode call.mode) w () w' ∧
    call.mode ∈ documentedModes ∧ call.before = sys1 w.world ∧ call.after = sys1 w'.world

/-- SYSTEM1 just before the chip most recently went from awake to standby. -/
def interrupted (log : List SysModeCall) : Option UINT8 :=
  log.foldl (fun value call =>
    if Awake call.before ∧ ¬Awake call.after then some call.before else value) none

def sleptAt (log : List SysModeCall) : Option UINT8 :=
  log.foldl (fun value call => if call.mode = 0 then some call.before else value) none

theorem interrupted_snoc (log : List SysModeCall) (call : SysModeCall) :
    interrupted (log ++ [call]) =
      if Awake call.before ∧ ¬Awake call.after then some call.before else interrupted log := by
  simp [interrupted]

theorem sleptAt_snoc (log : List SysModeCall) (call : SysModeCall) :
    sleptAt (log ++ [call]) = if call.mode = 0 then some call.before else sleptAt log := by
  simp [sleptAt]

/-- What a log says about the state it leads to: the saved mode is the value at the most
recent SLEEP; a fall into standby is always from awake; and while the chip is in standby
with an awake saved mode, that mode is the interrupted one. -/
structure Remembers (log : List SysModeCall) (s : ModeState) : Prop where
  saved : ∀ value, sleptAt log = some value → s.prevMode = value
  fromAwake : ∀ value, interrupted log = some value → Awake value
  restores : ∀ value, sleptAt log = some value → Awake value → ¬Awake s.sys1 →
    interrupted log = some value

theorem fromAwake_snoc {log : List SysModeCall} {s : ModeState} (holds : Remembers log s)
    (call : SysModeCall) (value : UINT8) (fell : interrupted (log ++ [call]) = some value) :
    Awake value := by
  rw [interrupted_snoc] at fell
  by_cases falls : Awake call.before ∧ ¬Awake call.after
  · rw [if_pos falls] at fell
    cases fell
    exact falls.1
  · rw [if_neg falls] at fell
    exact holds.fromAwake value fell

/-- A call that saves nothing keeps what the log remembers, if it leaves standby whenever
the saved mode is awake. -/
theorem remembers_snoc {log : List SysModeCall} {s : ModeState} {mode : UINT16}
    (holds : Remembers log s) (noSleep : mode ≠ 0)
    (kept : (modeStep mode s).prevMode = s.prevMode)
    (leaves : Awake s.prevMode → Awake (modeStep mode s).sys1) :
    Remembers (log ++ [⟨s.sys1, mode, (modeStep mode s).sys1⟩]) (modeStep mode s) where
  saved value slept := by
    rw [sleptAt_snoc, if_neg noSleep] at slept
    rw [kept, holds.saved value slept]
  fromAwake := fromAwake_snoc holds _
  restores value slept awake standby := by
    rw [sleptAt_snoc, if_neg noSleep] at slept
    rw [← holds.saved value slept] at awake
    exact absurd (leaves awake) standby

theorem standby_asleep (s : UINT8) : ¬Awake ((s &&& ~~~R_TXRX_MASK) ||| STNBY) := by
  revert s
  decide +kernel

theorem workingMode_awake {val : UINT8} (documented : val = 0x80 ∨ val = 0x40) (s : UINT8) :
    Awake (workingMode val s) := by
  rcases documented with rfl | rfl
  · revert s
    decide +kernel
  · revert s
    decide +kernel

theorem modeStep_remembers {log : List SysModeCall} {s : ModeState} {mode : UINT16}
    (documented : mode ∈ documentedModes) (holds : Remembers log s) :
    Remembers (log ++ [⟨s.sys1, mode, (modeStep mode s).sys1⟩]) (modeStep mode s) := by
  simp only [documentedModes, List.mem_cons, List.not_mem_nil, or_false] at documented
  rcases documented with rfl | rfl | rfl | rfl
  · constructor
    case saved =>
      intro value slept
      rw [sleptAt_snoc, if_pos rfl] at slept
      cases slept
      rfl
    case fromAwake => exact fromAwake_snoc holds _
    case restores =>
      intro value slept awake _
      rw [sleptAt_snoc, if_pos rfl] at slept
      cases slept
      rw [interrupted_snoc]
      exact if_pos ⟨awake, standby_asleep s.sys1⟩
  · exact remembers_snoc holds (by decide) rfl (fun awake => awake)
  · exact remembers_snoc holds (by decide) rfl (fun _ => workingMode_awake (.inl rfl) s.sys1)
  · exact remembers_snoc holds (by decide) rfl (fun _ => workingMode_awake (.inr rfl) s.sys1)

section
variable {κ : Type} {b : Board κ} {sys1 : κ → UINT8} {w w' w'' : Machine κ}
  {log : List SysModeCall}

theorem remembers_nil (s : ModeState) : Remembers [] s where
  saved _ slept := by cases slept
  fromAwake _ fell := by cases fell
  restores _ slept := by cases slept

theorem sysModeRun_remembers (chip : HoldsSystem1 b 0 sys1) (run : SysModeRun b sys1 w log w') :
    Remembers log (modeState sys1 w') := by
  have keeps : ∀ log (w : Machine κ) (call : SysModeCall) w', Remembers log (modeState sys1 w) →
      (Runs b.env (qndSetSysMode call.mode) w () w' ∧ call.mode ∈ documentedModes ∧
        call.before = sys1 w.world ∧ call.after = sys1 w'.world) →
      Remembers (log ++ [call]) (modeState sys1 w') := by
    intro log w call w' holds given
    obtain ⟨step, documented, before, after⟩ := given
    have next := modeStep_remembers documented holds
    rw [← qndSetSysMode_memory chip call.mode () w' step] at next
    have same : call = ⟨(modeState sys1 w).sys1, call.mode, (modeState sys1 w').sys1⟩ := by
      rw [modeState, modeState, ← before, ← after]
    rwa [← same] at next
  exact Path.history keeps run (remembers_nil _)

/-- A WAKEUP issued in standby restores the value that the last fall from awake to standby
interrupted exactly when the most recent SLEEP was issued awake. -/
theorem wakeup_restores_iff (chip : HoldsSystem1 b 0 sys1)
    (run : SysModeRun b sys1 w log w') (slept : sleptAt log ≠ none) (standby : ¬Awake (sys1 w'.world))
    (wakeup : Runs b.env (qndSetSysMode 1) w' () w'') :
    (interrupted log = some (sys1 w''.world) ∧ Awake (sys1 w''.world)) ↔
      ∃ value, sleptAt log = some value ∧ Awake value := by
  have holds := sysModeRun_remembers chip run
  obtain ⟨value, last⟩ := Option.ne_none_iff_exists'.mp slept
  have restored : sys1 w''.world = value := by
    have step := qndSetSysMode_memory chip 1 () w'' wakeup
    rw [modeStep_wakeup, holds.saved value last] at step
    exact congrArg ModeState.sys1 step
  rw [restored, last]
  constructor
  · intro given
    obtain ⟨_, awake⟩ := given
    exact ⟨value, rfl, awake⟩
  · intro given
    obtain ⟨other, same, awake⟩ := given
    cases same
    exact ⟨holds.restores value last awake standby, awake⟩

end

/-- One SLEEP, then WAKEUP. -/
theorem wakeup_restores_once :
    interrupted [⟨0x01, 0, 0x11⟩] = some 0x01 ∧ Awake 0x01 := by
  have sleep : Runs system1Chip.env (qndSetSysMode 0) ⟨Globals.initial, 0x01⟩ ()
      ⟨Globals.initial.set8 .qndPrevMode 0x01, 0x11⟩ := exec_runs 1 rfl
  have wakeup : Runs system1Chip.env (qndSetSysMode 1)
      ⟨Globals.initial.set8 .qndPrevMode 0x01, 0x11⟩ ()
      ⟨Globals.initial.set8 .qndPrevMode 0x01, 0x01⟩ := exec_runs 1 rfl
  have run : SysModeRun system1Chip id ⟨Globals.initial, 0x01⟩ [⟨0x01, 0, 0x11⟩]
      ⟨Globals.initial.set8 .qndPrevMode 0x01, 0x11⟩ :=
    .cons ⟨sleep, by decide, rfl, rfl⟩ (.nil _)
  exact (wakeup_restores_iff system1Chip_holds run (by decide) (by decide) wakeup).mpr
    ⟨0x01, rfl, by decide⟩

/-- SLEEP, SLEEP, WAKEUP from 0x01: the second SLEEP saves the standby value, and the chip
stays in standby. -/
theorem wakeup_lost : ∃ w w' w'' : Machine UINT8, ∃ log,
    w.globals = Globals.initial ∧ w.world = 0x01 ∧ SysModeRun system1Chip id w log w' ∧
    log.map SysModeCall.mode = [0, 0] ∧ ¬Awake w'.world ∧
    Runs system1Chip.env (qndSetSysMode 1) w' () w'' ∧
    interrupted log = some 0x01 ∧ w''.world = 0x11 := by
  have first : Runs system1Chip.env (qndSetSysMode 0) ⟨Globals.initial, 0x01⟩ ()
      ⟨Globals.initial.set8 .qndPrevMode 0x01, 0x11⟩ := exec_runs 1 rfl
  have second : Runs system1Chip.env (qndSetSysMode 0)
      ⟨Globals.initial.set8 .qndPrevMode 0x01, 0x11⟩ ()
      ⟨(Globals.initial.set8 .qndPrevMode 0x01).set8 .qndPrevMode 0x11, 0x11⟩ := exec_runs 1 rfl
  have wakeup : Runs system1Chip.env (qndSetSysMode 1)
      ⟨(Globals.initial.set8 .qndPrevMode 0x01).set8 .qndPrevMode 0x11, 0x11⟩ ()
      ⟨(Globals.initial.set8 .qndPrevMode 0x01).set8 .qndPrevMode 0x11, 0x11⟩ := exec_runs 1 rfl
  have run : SysModeRun system1Chip id ⟨Globals.initial, 0x01⟩ [⟨0x01, 0, 0x11⟩, ⟨0x11, 0, 0x11⟩]
      ⟨(Globals.initial.set8 .qndPrevMode 0x01).set8 .qndPrevMode 0x11, 0x11⟩ :=
    .cons ⟨first, by decide, rfl, rfl⟩ (.cons ⟨second, by decide, rfl, rfl⟩ (.nil _))
  exact ⟨_, _, _, _, rfl, rfl, run, rfl, by decide, wakeup, by decide, rfl⟩

end Yika.Fm
