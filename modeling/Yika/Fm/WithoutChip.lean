import Yika.Fm.Footprint
import Yika.Fm.OnPins
import Yika.Fm.Registers

/-! The driver on a bus where nobody has the address of the QN8006. Every register reads `0xff`, so
the scan bit of SYSTEM1 never clears, and no scan for a clear channel comes to its end. -/

namespace Yika.Fm
open Program

/-- The requests that scan the band, or need the noise floor. -/
def Ioctl.Scans : Ioctl → Prop
  | .rxseekch _ => True
  | .rxseekchall _ => True
  | .txclearchscan _ => True
  | _ => False

structure Unmeasured (g : Globals) : Prop where
  first : g.byte .qndFirstScan ≠ 0
  single : g.byte .qndAutoScanAll = 0

def Hangs {κ α : Type} (b : Board κ) (p : Drv α) (w : Machine κ) : Prop := Ensures b.env p (fun _ _ => False) w

section
variable {κ α β : Type} {b : Board κ} {w w' : Machine κ} {cmd : Ioctl} {p : Drv α} {next : α → Drv β}

theorem Hangs.bind (hangs : Hangs b p w) : Hangs b (p >>= next) w := by
  refine ensures_bind.mpr (Ensures.mono hangs ?_)
  intro _ _ impossible
  exact impossible.elim

theorem hangs_after (rest : ∀ value w₁, Runs b.env p w value w₁ → Hangs b (next value) w₁) :
    Hangs b (p >>= next) w := ensures_bind.mpr rest

theorem clearScan_hangs (start stop : UINT16) (step db : UINT8) :
    Hangs b.absent (qndTXClearChannelScan start stop step db) w := by
  have busy : ¬(0xff : UINT8) &&& CHSC = 0 := by decide
  have poll (w₁ : Machine κ) : Hangs b.absent (Prog.doWhile pollClearChannel ()) w₁ := by
    refine ensures_doWhile (fun _ _ => True) ?_ trivial
    intro x w₂ _
    simp only [pollClearChannel, qndDelay, ensures_bind, ensures_pure, ensures_readReg, ensures_ite]
    exact ⟨fun _ => trivial, fun idle => idle busy⟩
  unfold qndTXClearChannelScan
  refine hangs_after fun _ _ _ => hangs_after fun _ _ _ => hangs_after fun _ w₁ _ => ?_
  exact (poll w₁).bind

theorem rescan_hangs : Hangs b.absent rescan w := by
  have band (i : Nat) (w₁ : Machine κ) : Hangs b.absent (rescanBand i) w₁ := by
    unfold rescanBand scanBand
    refine Hangs.bind ?_
    refine hangs_after fun _ _ _ => hangs_after fun _ _ _ => hangs_after fun _ _ _ =>
      hangs_after fun _ _ _ => hangs_after fun _ w₂ _ => ?_
    exact (clearScan_hangs _ _ _ _).bind
  unfold rescan
  refine hangs_after fun _ w₁ _ => Hangs.bind ?_
  exact (band 0 w₁).bind

theorem update_hangs (due : w.globals.byte .qndFirstScan ≠ 0) : Hangs b.absent (qndUpdateRSSIn 0) w := by
  have update (w₁ : Machine κ) : Hangs b.absent (qnfUpdateRSSIn 0) w₁ := by
    rw [qnfUpdateRSSIn, if_pos rfl]
    exact rescan_hangs.bind
  have wanted (value : UINT8) (want : value ≠ 0) : Hangs b.absent (Prog.when (value ≠ 0 ∨ (0 : UINT16) ≠ 0) do
      qnfUpdateRSSIn 0
      store8 .qndFirstScan 0) w := by
    rw [Prog.when, if_pos (.inl want)]
    exact (update w).bind
  simp only [Hangs, qndUpdateRSSIn, rescanIfWanted, ensures_bind, ensures_load8]
  rw [ensures_when]
  refine ⟨fun measured => absurd measured due, fun _ => ?_⟩
  rw [ensures_ite]
  refine ⟨fun flag => ensures_pure.mpr (wanted _ flag), fun _ => ?_⟩
  exact ensures_load8.mpr (wanted _ due)

theorem seek_hangs (unmeasured : Unmeasured w.globals) (start stop : UINT16) (step db up : UINT8) :
    Hangs b.absent (qndRXSeekCH start stop step db up) w := by
  unfold qndRXSeekCH
  rw [Hangs, ensures_bind, ensures_load8]
  refine Hangs.bind ?_
  rw [Prog.when, if_pos unmeasured.single]
  refine hangs_after fun _ w₁ muted => hangs_after fun _ w₂ gain => update_hangs ?_
  have kept₁ := globals_kept (qnfSetMute_writes true) muted
  have kept₂ := globals_kept (qnfSetRegBit_writes GAIN_SEL 0x38 0x38) gain
  rw [kept₂, kept₁]
  exact unmeasured.first

theorem seekAll_hangs (unmeasured : Unmeasured w.globals) (start stop : UINT16) (step db up : UINT8) :
    Hangs b.absent (qndRXSeekCHAll start stop step db up) w := by
  have prepare (w₁ : Machine κ) (due : w₁.globals.byte .qndFirstScan ≠ 0) :
      Hangs b.absent (seekAllPrepare step) w₁ := by
    unfold seekAllPrepare
    refine hangs_after fun _ w₂ muted => ?_
    have kept := globals_kept (qnfSetMute_writes true) muted
    rw [Hangs, ensures_bind, ensures_store8, ensures_bind, ensures_stepTbl]
    refine hangs_after fun _ w₃ gain => Hangs.bind (update_hangs ?_)
    have kept₁ := globals_kept (qnfSetRegBit_writes GAIN_SEL 0x38 0x38) gain
    rw [kept₁]
    change (w₂.globals.set8 .qndAutoScanAll 1).byte .qndFirstScan ≠ 0
    rw [kept]
    exact due
  unfold qndRXSeekCHAll
  refine hangs_after fun _ w₁ limited => ?_
  have quiet : Uses (WritesRegs []) (stopInRange stop) := by simp [stopInRange, Writes]
  refine Hangs.bind (prepare w₁ ?_)
  rw [globals_kept quiet limited]
  exact unmeasured.first

/-- A scan that returns was not begun. -/
theorem scan_faults (unmeasured : Unmeasured w.globals) {cmd : Ioctl} (scans : cmd.Scans) (stackPower : INT) :
    Ensures b.absent.env (qn8006UnlockedIoctl stackPower cmd) (fun reply w' =>
      reply = .fault ∧ w'.globals = w.globals) w := by
  have begun {command : Drv Reply} (hangs : Hangs b.absent command (w.after b.absent .copyFromUser)) :
      Ensures b.absent.env (fromUser command) (fun reply w' => reply = .fault ∧ w'.globals = w.globals) w := by
    rw [ensures_fromUser]
    split
    next => exact hangs.mono fun _ _ impossible => impossible.elim
    next => exact ⟨rfl, rfl⟩
  have same : Unmeasured (w.after b.absent .copyFromUser).globals := unmeasured
  cases cmd with
  | rxseekch rsc => exact begun (Hangs.bind (seek_hangs same _ _ _ _ _))
  | rxseekchall rscall => exact begun (Hangs.bind (seekAll_hangs same _ _ _ _ _))
  | txclearchscan clCHscan => exact begun (Hangs.bind (clearScan_hangs _ _ _ _))
  | _ => cases scans

theorem IoctlStep.unmeasured (step : IoctlStep b w cmd w') (other : ¬cmd.Scans) (unmeasured : Unmeasured w.globals) :
    Unmeasured w'.globals := by
  have first : Var8.qndFirstScan ∉ cmd.bytes := by
    cases cmd with
    | rxseekch | rxseekchall => exact absurd trivial other
    | _ => simp [Ioctl.bytes]
  exact ⟨step.byte_kept first ▸ unmeasured.first, step.idle unmeasured.single⟩

/-- In every sequence of requests the scans are refused. -/
theorem calls_absent {cmds : List (INT × Ioctl)} {replies : List Reply} (unmeasured : Unmeasured w.globals)
    (run : Runs b.absent.env (calls cmds) w replies w') :
    Unmeasured w'.globals ∧ ∀ made ∈ cmds.zip replies, made.1.2.Scans → made.2 = .fault := by
  induction cmds generalizing w replies with
  | nil =>
    obtain ⟨rfl, rfl⟩ := runs_calls_nil.mp run
    exact ⟨unmeasured, by simp⟩
  | cons call cmds ih =>
    obtain ⟨stackPower, cmd⟩ := call
    obtain ⟨reply, w₁, replies, rfl, first, others⟩ := runs_calls_cons.mp run
    have here : Unmeasured w₁.globals ∧ (cmd.Scans → reply = .fault) := by
      by_cases scans : cmd.Scans
      · obtain ⟨refused, kept⟩ := scan_faults unmeasured scans stackPower reply w₁ first
        exact ⟨kept ▸ unmeasured, fun _ => refused⟩
      · exact ⟨IoctlStep.unmeasured ⟨stackPower, reply, first⟩ scans unmeasured, fun scan => absurd scan scans⟩
    obtain ⟨after, refused⟩ := ih here.1 others
    refine ⟨after, ?_⟩
    rw [List.zip_cons_cons, List.forall_mem_cons]
    exact ⟨here.2, refused⟩

end

section
variable {κ : Type} {b : Board κ} {own : UINT8} {v v' : WireMachine κ} {cmds : List (INT × Ioctl)}
  {replies : List Reply}

theorem absent_registers {regs : κ → Regs} (chip : HoldsRegisters b regs) {α : Type} {p : Drv α} {out : α}
    {w w' : Machine κ} (run : Runs b.absent.env p w out w') : regs w'.world = regs w.world := by
  apply (uses_anything p).frame (fun w => regs w.world) _ run
  intro o w _
  cases o with
  | ext e =>
    cases e with
    | readReg _ => rfl
    | writeReg _ _ => rfl
    | _ => exact chip.keep _ w.world fun _ _ => Ext.noConfusion
  | _ => rfl

end

def unreadable : (e : Ext) → e.Answer
  | .copyFromUser => false
  | e => granted e

end Yika.Fm
