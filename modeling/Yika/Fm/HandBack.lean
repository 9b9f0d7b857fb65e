import Yika.Fm.ScanOrder
import Yika.Fm.SingleSeek
import Yika.Fm.Threshold
import Yika.Program.Throughout

/-! How a seek hands the receiver back. Its sound comes back at the end of the tuning, which in
transmit mode returns before that; and a check of the last channel that times out leaves its scan to
the chip. -/

namespace Yika.Fm
open Program

def Running {κ : Type} (sys1 : κ → UINT8) (w : Machine κ) : Prop := sys1 w.world &&& CHSC ≠ 0

def NoLook : FmOp → Prop
  | .ext (.readReg adr) => adr ≠ SYSTEM1
  | _ => True

def look {κ : Type} (b : Board κ) (k : κ) : κ := (b.respond (.readReg SYSTEM1) k).2

section
variable {κ α : Type} {b : Board κ} {sys1 pd2 : κ → UINT8} {w w' : Machine κ}

/-! What does not start a scan. -/

/-- A bit that the chip may clear is set only if it has not. -/
theorem Cut.kept {clears old new : UINT8} (cut : Cut clears old new) (set : new &&& clears ≠ 0) :
    new = old := by
  rcases cut with same | cleared
  · exact same
  · have none : old &&& ~~~clears &&& clears = 0 := by
      rw [BitVec.and_assoc, BitVec.and_comm (~~~clears), BitVec.and_not_self]
      exact BitVec.and_zero
    exact absurd (cleared ▸ none) set

theorem running_back (chip : HoldsSystem1 b CHSC sys1) {p : Drv α} {regs : List UINT8}
    {bytes : Set Var8} {halves : Set Var16} (uses : Uses (Writes regs bytes halves) p)
    (other : SYSTEM1 ∉ regs) : Backward b.env NoLook (Running sys1) p := by
  apply uses.backward
  intro o w writes running
  cases o with
  | ext e =>
    have apart : ∀ value, e ≠ .writeReg SYSTEM1 value := by
      rintro value rfl
      exact other writes
    have same := (chip.keep e w.world apart).kept running
    unfold Running
    rw [← same]
    exact running
  | _ => exact running

theorem qnfSetRegBit_back (chip : HoldsSystem1 b CHSC sys1) {bitMask : UINT8} (dataVal : UINT8)
    (apart : bitMask &&& CHSC = 0) :
    Backward b.env NoLook (Running sys1) (qnfSetRegBit SYSTEM1 bitMask dataVal) := by
  intro w
  rw [qnfSetRegBit, ensures_bind, ensures_readReg, ensures_writeReg, chip.read]
  intro running
  have before : Running sys1 w := by
    have same := (chip.write _ _).kept running
    unfold Running at running ⊢
    rw [Machine.after, same, mask_outside apart] at running
    exact running
  refine ⟨before, ?_⟩
  intro o w' visit noLook
  cases visit with
  | here => exact absurd rfl noLook
  | op visit =>
    cases visit with
    | here => rwa [← chip.read] at running
    | op visit => cases visit

theorem qndTuneToCH_back (chip : HoldsSystem1 b CHSC sys1) (ch : UINT16) :
    Backward b.env NoLook (Running sys1) (qndTuneToCH ch) := by
  have set (reg bitMask dataVal : UINT8) (other : SYSTEM1 ∉ [reg]) :
      Backward b.env NoLook (Running sys1) (qnfSetRegBit reg bitMask dataVal) :=
    running_back chip (qnfSetRegBit_writes reg bitMask dataVal) other
  have read (adr : UINT8) : Backward b.env NoLook (Running sys1) (readReg adr) :=
    running_back chip (show Uses (WritesRegs []) (readReg adr) by simp [Writes]) (by decide)
  have mute (on : Bool) : Backward b.env NoLook (Running sys1) (qnfSetMute on) :=
    running_back chip (qnfSetMute_writes on) (by decide)
  have tune : Backward b.env NoLook (Running sys1) (qnfSetCh ch) :=
    running_back chip (qnfSetCh_writes ch) (by decide)
  have idle : Backward b.env NoLook (Running sys1) (qnfSetRegBit SYSTEM1 CCA_CH_DIS CCA_CH_DIS) :=
    qnfSetRegBit_back chip CCA_CH_DIS (by decide)
  apply (running_back chip qnfRXInit_writes (by decide)).bind
  intro _
  refine (read SYSTEM1).bind fun sys => backward_ite (idle.bind fun _ => tune) ?_
  refine (mute true).bind fun _ => ?_
  apply (backward_ite (set _ _ _ (by decide)) (set _ _ _ (by decide))).bind
  intro _
  refine tune.bind fun _ => idle.bind fun _ => (read SYSTEM2).bind fun sys2 => ?_
  exact (set _ _ _ (by decide)).bind fun _ => mute false

/-- The last operation of a tuning is no look, so that it shows whether the scan is on. -/
theorem qndTuneToCH_forth (ch : UINT16) : Forward b.env NoLook (Running sys1) (qndTuneToCH ch) := by
  have write (adr value : UINT8) : Forward b.env NoLook (Running sys1) (writeReg adr value) :=
    forward_perform trivial
  have set (reg bitMask dataVal : UINT8) :
      Forward b.env NoLook (Running sys1) (qnfSetRegBit reg bitMask dataVal) :=
    .after fun temp => write reg _
  have tune : Forward b.env NoLook (Running sys1) (qnfSetCh ch) :=
    .after fun _ => .after fun tStep => write CH_STEP _
  apply Forward.after
  intro _
  refine .after fun sys => forward_ite (.after fun _ => tune) ?_
  refine .after fun _ => .after fun _ => .after fun _ => .after fun _ => .after fun sys2 => ?_
  exact .after fun _ => .after fun _ => set REG_PD2 0x0c 0x00

/-! The check of a channel. -/

theorem look_quiet (chip : HoldsSystem1 b CHSC sys1) {k : κ} (quiet : sys1 k &&& CHSC = 0) (n : Nat) :
    sys1 ((look b)^[n] k) &&& CHSC = 0 := by
  induction n with
  | zero => exact quiet
  | succ n ih =>
    rw [Function.iterate_succ_apply']
    by_contra set
    have same := (chip.keep (.readReg SYSTEM1) _ fun _ => Ext.noConfusion).kept set
    exact set (same ▸ ih)

/-- The poll of a check takes 200 looks, or ends it when the chip has cleared CHSC. -/
theorem achieves_pollScan_looks (chip : HoldsSystem1 b CHSC sys1) :
    Achieves b.env (Prog.doWhile pollScan 0) (fun timeout w' => w'.globals = w.globals ∧
      (timeout = 200 ∧ w'.world = (look b)^[200] w.world ∨
        timeout < 200 ∧ ¬Running sys1 w' ∧ sys1 ((look b)^[200] w.world) &&& CHSC = 0)) w := by
  let inv (timeout : UINT8) (w₁ : Machine κ) : Prop :=
    timeout < 200 ∧ w₁ = ⟨w.globals, (look b)^[timeout.toNat] w.world⟩
  have start : inv 0 w := ⟨by decide, rfl⟩
  refine achieves_doWhile inv (fun timeout _ => 200 - timeout.toNat) ?_ start
  intro timeout w₁ holds
  obtain ⟨below, rfl⟩ := holds
  have climbs := toNat_timeout below
  change timeout.toNat < 200 at below
  have looked : Machine.after b ⟨w.globals, (look b)^[timeout.toNat] w.world⟩ (.readReg SYSTEM1) =
      ⟨w.globals, (look b)^[(timeout + 1).toNat] w.world⟩ := by
    rw [climbs, Function.iterate_succ_apply']
    rfl
  simp only [pollScan, qndDelay_eq, pure_bind, achieves_bind, achieves_readReg, achieves_ite,
    achieves_pure, chip.read, looked]
  constructor
  · intro again
    have bound : (timeout + 1).toNat < 200 := again.2
    exact ⟨⟨again.2, rfl⟩, by omega⟩
  · intro done
    refine ⟨rfl, ?_⟩
    by_cases last : timeout + 1 < 200
    · have clear : sys1 ((look b)^[timeout.toNat] w.world) &&& CHSC = 0 := by
        by_contra set
        exact done ⟨set, last⟩
      refine .inr ⟨last, ?_, ?_⟩
      · rw [Running, climbs, Function.iterate_succ_apply', not_not]
        exact look_quiet chip clear 1
      · have rest : 200 = 200 - timeout.toNat + timeout.toNat := by omega
        rw [rest, Function.iterate_add_apply]
        exact look_quiet chip clear _
    · have spent : timeout + 1 = 200 := by
        have high : ¬(timeout + 1).toNat < 200 := last
        apply BitVec.eq_of_toNat_eq
        show (timeout + 1).toNat = 200
        omega
      left
      rw [spent]
      exact ⟨rfl, rfl⟩

/-- The check of `x` starts a scan, and after 200 looks the chip is in the state `k`, with the scan
still on. -/
def TimesOut (b : Board κ) (sys1 : κ → UINT8) (x : UINT16) (step db : UINT8) (w : Machine κ) (k : κ) :
    Prop :=
  sys1 k &&& CHSC ≠ 0 ∧ ∃ o w₁, Visits b.env (seekTest x step db) w o w₁ ∧ StartsScan o ∧
    k = (look b)^[200] (b.env o w₁).2.world

variable {x : UINT16} {step db minrssi rssi : UINT8}

theorem measureChannel_idle (chip : HoldsSystem1 b CHSC sys1) :
    Ensures b.env (measureChannel x) (fun _ w' => ¬Running sys1 w') w := by
  have cleared : ∀ temp : UINT8, ((temp &&& ~~~0xA1) ||| (0x81 &&& 0xA1)) &&& CHSC = 0 := by
    decide +kernel
  simp only [measureChannel, ensures_bind, ensures_pure]
  intro _ w₁ _ _ w₂ _ _ w₃ _
  simp only [qnfSetRegBit, qndDelay_eq, ensures_bind, ensures_readReg, ensures_writeReg, ensures_pure]
  have write (value : UINT8) (k : κ) : sys1 (b.respond (.writeReg SYSTEM1 value) k).2 &&& CHSC ≠ 0 →
      value &&& CHSC ≠ 0 := by
    intro set
    rwa [(chip.write value k).kept set] at set
  intro running
  have same := (chip.keep (.readReg RSSISIG) _ fun _ => Ext.noConfusion).kept running
  rw [Running, Machine.after, same] at running
  exact write _ _ running (cleared _)

theorem judgeChannel_back (chip : HoldsSystem1 b CHSC sys1) (timeout : UINT8) :
    Backward b.env NoLook (Running sys1) (judgeChannel db minrssi rssi timeout) :=
  running_back chip (judgeChannel_writes db minrssi rssi timeout) (by decide)

/-- A test leaves a scan on exactly when it times out, and then it refuses. -/
theorem seekTest_timesOut (chip : HoldsSystem1 b CHSC sys1) {accepted : Bool}
    (test : Runs b.env (seekTest x step db) w accepted w') :
    (Running sys1 w' → TimesOut b sys1 x step db w w'.world) ∧
      ∀ k, TimesOut b sys1 x step db w k → accepted = false ∧ w'.world = k := by
  have run := test
  rw [seekTest_eq] at run
  obtain ⟨measured, w₁, measure, rest⟩ := runs_bind.mp run
  by_cases strong : rssiAbove measured.2 measured.1 6 db = true
  · rw [if_pos strong, checkChannel_eq] at rest
    obtain ⟨temp, w₂, programmed, rest⟩ := runs_bind.mp rest
    obtain ⟨_, w₃, started, rest⟩ := runs_bind.mp rest
    obtain ⟨timeout, w₄, polled, judged⟩ := runs_bind.mp rest
    rw [runs_writeReg] at started
    obtain ⟨visit, starts⟩ := seekTest_starts_iff.mpr ⟨measured, w₁, temp, measure, strong, programmed, rfl⟩
    have only : ∀ k, TimesOut b sys1 x step db w k → k = (look b)^[200] w₃.world := by
      intro k out
      obtain ⟨_, o, w₂', visit', starts', rfl⟩ := out
      obtain ⟨measured', w₁', temp', measure', _, programmed', rfl⟩ :=
        seekTest_starts_iff.mp ⟨visit', starts'⟩
      obtain ⟨rfl, rfl⟩ := measure.det measure'
      obtain ⟨rfl, rfl⟩ := programmed.det programmed'
      rw [started]
      rfl
    rcases (achieves_pollScan_looks chip).ensures timeout w₄ polled with ⟨_, spent | inTime⟩
    · obtain ⟨rfl, looked⟩ := spent
      rw [judgeChannel, if_neg (by decide)] at judged
      obtain ⟨rfl, rfl⟩ := runs_pure.mp judged
      constructor
      · intro running
        refine ⟨running, _, _, visit, starts, ?_⟩
        rw [looked, started]
        rfl
      · intro k out
        exact ⟨rfl, looked.trans (only k out).symm⟩
    · obtain ⟨_, ended, quiet⟩ := inTime
      constructor
      · intro running
        exact absurd (judgeChannel_back chip timeout w₄ _ w' judged running).1 ended
      · intro k out
        exact absurd (only k out ▸ quiet) out.1
  · rw [if_neg strong] at rest
    obtain ⟨_, rfl⟩ := runs_pure.mp rest
    constructor
    · intro running
      exact absurd running (measureChannel_idle chip measured w' measure)
    · intro k out
      obtain ⟨_, o, w₂, visit, starts, _⟩ := out
      obtain ⟨measured', w₁', _, measure', strong', _⟩ := seekTest_starts_iff.mp ⟨visit, starts⟩
      obtain ⟨rfl, rfl⟩ := measure.det measure'
      exact absurd strong' strong

variable {start stop : UINT16} {leap skip out : UINT8} {up : Bool} {found : UINT16}

/-- The last turn of a seek leaves a scan on exactly when its test times out, and then the seek has
found nothing. -/
theorem seekRound_timesOut (chip : HoldsSystem1 b CHSC sys1)
    (turn : Runs b.env (seekRound stop step db up leap x) w (.inr found) w') :
    (Running sys1 w' → found = 0 ∧ TimesOut b sys1 x step db w w'.world) ∧
      ∀ k, TimesOut b sys1 x step db w k → found = 0 ∧ w'.world = k := by
  rw [seekRound] at turn
  obtain ⟨accepted, w₁, test, next⟩ := runs_bind.mp turn
  obtain ⟨leaves, only⟩ := seekTest_timesOut chip test
  have refused {k : κ} (out : TimesOut b sys1 x step db w k) : found = 0 ∧ w' = w₁ := by
    obtain ⟨rfl, _⟩ := only k out
    rw [seekNext_refused] at next
    split at next
    next =>
      obtain ⟨impossible, _⟩ := runs_pure.mp next
      cases impossible
    next =>
      obtain ⟨same, kept⟩ := runs_pure.mp next
      exact ⟨Sum.inr.inj same, kept⟩
  constructor
  · intro running
    have before := (running_back chip (seekNext_writes stop up leap x accepted) (by decide) w₁ _ w' next
      running).1
    obtain ⟨none, same⟩ := refused (leaves before)
    exact ⟨none, same ▸ leaves before⟩
  · intro k out
    obtain ⟨none, same⟩ := refused out
    exact ⟨none, same ▸ (only k out).2⟩

/-- The check of `x` times out, and the chip does not end its scan in the requests of `rest` either. A
look does not count: where the chip ends the scan just after it, SYSTEM1 is written back as it was. -/
def Outlasts (b : Board κ) (sys1 : κ → UINT8) (rest : Drv α) (x : UINT16) (step db : UINT8)
    (w : Machine κ) : Prop :=
  ∃ k, TimesOut b sys1 x step db w k ∧ Throughout b.env NoLook (Running sys1) rest ⟨w.globals, k⟩

/-- Whatever follows the loop of a seek ends with the scan on exactly when the check of its last turn
outlasts it. -/
theorem seekLoop_outlasts (chip : HoldsSystem1 b CHSC sys1) (rest : Drv α) {w₁ : Machine κ}
    (loop : Runs b.env (Prog.doWhile (seekRound stop step db up leap) start) w found w₁)
    (back : Running sys1 w' → Running sys1 w₁ ∧
      (found = 0 → Throughout b.env NoLook (Running sys1) rest w₁))
    (forth : found = 0 → Throughout b.env NoLook (Running sys1) rest w₁ → Running sys1 w') :
    Running sys1 w' ↔ ∃ z w₂, LastTurn b.env (seekRound stop step db up leap) start w z w₂ ∧
      Outlasts b sys1 rest z step db w₂ := by
  obtain ⟨z, w₂, turn, last⟩ := loop.lastTurn
  obtain ⟨leaves, only⟩ := seekRound_timesOut chip last
  have same : w₁.globals = w₂.globals := globals_kept (seekRound_writes stop step db up leap z) last
  have whole : w₁ = ⟨w₂.globals, w₁.world⟩ := by rw [← same]
  constructor
  · intro running
    obtain ⟨before, held⟩ := back running
    obtain ⟨none, out⟩ := leaves before
    exact ⟨z, w₂, turn, w₁.world, out, whole ▸ held none⟩
  · intro outlasted
    obtain ⟨z', w₂', turn', k, out, held⟩ := outlasted
    obtain ⟨rfl, rfl⟩ := turn.unique turn'
    obtain ⟨none, rfl⟩ := only k out
    rw [← whole] at held
    exact forth none held

/-! A single seek. -/

/-- The seek is left with a scan on: in the last turn of its loop, the check outlasts the tuning. -/
def SeekOutlasted (b : Board κ) (sys1 : κ → UINT8) (start stop : UINT16) (step db : UINT8)
    (w : Machine κ) : Prop :=
  ∃ w₁ z w₂, Runs b.env seekPrelude w () w₁ ∧
    LastTurn b.env (seekRound stop step db (decide (start < stop)) (b.stepValue step)) start w₁ z w₂ ∧
    Outlasts b sys1 (qndTuneToCH stop) z step db w₂

theorem qndRXSeekCH_running (chip : HoldsSystem1 b CHSC sys1)
    (single : w.globals.byte .qndAutoScanAll = 0) :
    Ensures b.env (qndRXSeekCH start stop step db skip) (fun _ w' =>
      Running sys1 w' ↔ SeekOutlasted b sys1 start stop step db w) w := by
  intro found w' run
  obtain ⟨w₁, w₂, prepared, loop, tuned⟩ := qndRXSeekCH_parts run
  rw [runs_when, if_pos single] at prepared tuned
  have back (running : Running sys1 w') : Running sys1 w₂ ∧
      (found = 0 → Throughout b.env NoLook (Running sys1) (qndTuneToCH stop) w₂) := by
    obtain ⟨before, held⟩ := qndTuneToCH_back chip _ w₂ () w' tuned running
    refine ⟨before, ?_⟩
    intro none
    rwa [if_pos none] at held
  have forth (none : found = 0) (held : Throughout b.env NoLook (Running sys1) (qndTuneToCH stop) w₂) :
      Running sys1 w' := by
    rw [if_pos none] at tuned
    exact qndTuneToCH_forth stop w₂ () w' tuned held
  rw [seekLoop_outlasts chip (qndTuneToCH stop) loop back forth]
  constructor
  · intro outlasted
    obtain ⟨z, w₃, turn, out⟩ := outlasted
    exact ⟨w₁, z, w₃, prepared, turn, out⟩
  · intro outlasted
    obtain ⟨w₁', z, w₃, prepared', turn, out⟩ := outlasted
    obtain ⟨_, rfl⟩ := prepared.det prepared'
    exact ⟨z, w₃, turn, out⟩

/-! A scan of all channels. -/

theorem seekAllFinish_back (chip : HoldsSystem1 b CHSC sys1) (pStop : UINT16) :
    Backward b.env NoLook (Running sys1) (seekAllFinish pStop) := by
  have head : Uses (WritesRegs []) (firstChannel pStop) := by simp [firstChannel, Writes]
  have lower : Uses (Writes [] {.qndAutoScanAll} ∅) (store8 .qndAutoScanAll 0) := by simp [Writes]
  have count : Uses (WritesRegs []) (load8 .qndChCount) := by simp [Writes]
  apply (running_back chip head (by decide)).bind
  intro ch
  refine (qndTuneToCH_back chip ch).bind fun _ => (running_back chip lower (by decide)).bind fun _ => ?_
  apply (running_back chip (qnfSetMute_writes false) (by decide)).bind
  intro _
  exact running_back chip count (by decide)

theorem seekAllFinish_forth (pStop : UINT16) :
    Forward b.env NoLook (Running sys1) (seekAllFinish pStop) := by
  apply Forward.after
  intro ch
  exact .after fun _ => .after fun _ => .after fun _ => forward_perform trivial

/-- A turn of the scan that ends it: its seek leaves the scan bit as the turn does, and when it has
found nothing, everything else. -/
theorem seekAllRound_ends {pStop : UINT16} (chip : HoldsSystem1 b CHSC sys1)
    (scanning : w.globals.byte .qndAutoScanAll = 1)
    (turn : Runs b.env (seekAllRound pStop step db skip leap x) w (.inr ()) w') :
    ∃ found w₁, Runs b.env
        (Prog.doWhile (seekRound pStop step db (decide (x < pStop)) (b.stepValue step)) x) w found w₁ ∧
      (Running sys1 w' → Running sys1 w₁) ∧ (found = 0 → w' = w₁) := by
  rw [seekAllRound_eq] at turn
  obtain ⟨found, w₁, seek, rest⟩ := runs_bind.mp turn
  obtain ⟨w₂, w₃, none, loop, same⟩ := qndRXSeekCH_parts seek
  have busy : ¬w.globals.byte .qndAutoScanAll = 0 := by
    rw [scanning]
    decide
  rw [runs_when, if_neg busy] at none same
  subst none same
  refine ⟨found, w₁, loop, ?_, ?_⟩
  · intro running
    exact (running_back chip (seekAllNext_writes pStop _ leap found) (by decide) w₁ _ w' rest running).1
  · rintro rfl
    exact (achieves_seekAllNext_none.ensures _ w' rest).1

/-- The scan of all channels is left with a hardware scan on: in the last turn of its last seek, the
check outlasts the end of the scan. -/
def ScanOutlasted (b : Board κ) (sys1 : κ → UINT8) (start stop : UINT16) (step db : UINT8)
    (w : Machine κ) : Prop :=
  ∃ stepvalue w₁ x w₂ z w₃, Runs b.env (seekAllPrepare step) w stepvalue w₁ ∧
    LastTurn b.env (seekAllRound (w.globals.clamp stop) step db (if start < stop then 1 else 0) stepvalue)
      start w₁ x w₂ ∧
    LastTurn b.env (seekRound (w.globals.clamp stop) step db (decide (x < w.globals.clamp stop))
      (b.stepValue step)) x w₂ z w₃ ∧
    Outlasts b sys1 (seekAllFinish (w.globals.clamp stop)) z step db w₃

theorem qndRXSeekCHAll_running (chip : HoldsSystem1 b CHSC sys1) :
    Ensures b.env (qndRXSeekCHAll start stop step db skip) (fun _ w' =>
      Running sys1 w' ↔ ScanOutlasted b sys1 start stop step db w) w := by
  rw [qndRXSeekCHAll_eq, ensures_bind]
  intro pStop w₀ clamped
  obtain ⟨rfl, rfl⟩ := achieves_stopInRange_clamp.ensures pStop w₀ clamped
  rw [ensures_bind]
  intro stepvalue w₁ prepared
  rw [ensures_bind]
  intro _ w₄ sweep count w' finish
  obtain ⟨x, w₂, turn, last⟩ := sweep.lastTurn
  have scanning : w₂.globals.byte .qndAutoScanAll = 1 := by
    have again (x : UINT16) (w : Machine κ) (y : UINT16) (w' : Machine κ)
        (scanning : w.globals.byte .qndAutoScanAll = 1)
        (run : Runs b.env (seekAllRound (w₀.globals.clamp stop) step db (if start < stop then 1 else 0)
          stepvalue x) w (.inl y) w') : w'.globals.byte .qndAutoScanAll = 1 :=
      (seekAllRound_requests chip _ step db _ stepvalue x scanning _ w' run).1
    exact turn.invariant again (seekAllPrepare_requests chip step stepvalue w₁ prepared).1
  obtain ⟨found, w₃, loop, kept, same⟩ := seekAllRound_ends chip scanning last
  have back (running : Running sys1 w') : Running sys1 w₃ ∧ (found = 0 →
      Throughout b.env NoLook (Running sys1) (seekAllFinish (w₀.globals.clamp stop)) w₃) := by
    obtain ⟨before, held⟩ := seekAllFinish_back chip _ w₄ count w' finish running
    exact ⟨kept before, fun none => same none ▸ held⟩
  have forth (none : found = 0)
      (held : Throughout b.env NoLook (Running sys1) (seekAllFinish (w₀.globals.clamp stop)) w₃) :
      Running sys1 w' :=
    seekAllFinish_forth _ w₄ count w' finish (same none ▸ held)
  rw [seekLoop_outlasts chip (seekAllFinish _) loop back forth]
  constructor
  · intro outlasted
    obtain ⟨z, w₃, turn', out⟩ := outlasted
    exact ⟨stepvalue, w₁, x, w₂, z, w₃, prepared, turn, turn', out⟩
  · intro outlasted
    obtain ⟨stepvalue', w₁', x', w₂', z, w₃, prepared', turn₁, turn₂, out⟩ := outlasted
    obtain ⟨rfl, rfl⟩ := prepared.det prepared'
    obtain ⟨rfl, rfl⟩ := turn.unique turn₁
    exact ⟨z, w₃, turn₂, out⟩

/-! The mute. -/

def Muted (pd2 : κ → UINT8) (w : Machine κ) : Prop := pd2 w.world &&& 0x0c = 0x0c

theorem muted_kept (power : HoldsRegister b REG_PD2 pd2) {p : Drv α} {result : α}
    (uses : Uses KeepsMute p) (run : Runs b.env p w result w') (muted : Muted pd2 w) : Muted pd2 w' := by
  apply uses.preserves _ run muted
  intro o w keeps muted
  cases o with
  | ext e =>
    by_cases write : ∃ value, e = .writeReg REG_PD2 value
    · obtain ⟨value, rfl⟩ := write
      unfold Muted
      calc pd2 (b.respond (.writeReg REG_PD2 value) w.world).2 &&& 0x0c
          = value &&& 0x0c := by rw [power.write]
        _ = 0x0c := keeps rfl
    · have same := power.keep e w.world fun value written => write ⟨value, written⟩
      unfold Muted at muted ⊢
      rw [← same] at muted
      exact muted
  | _ => exact muted

theorem qnfSetMute_mutes (power : HoldsRegister b REG_PD2 pd2) :
    Ensures b.env (qnfSetMute true) (fun _ w' => Muted pd2 w') w := by
  intro _ w' run
  rw [Muted, qnfSetRegBit_cell power 0x0c 0x0c () w' run]
  exact mask_inside BitVec.and_self _ _

theorem qnfSetMute_unmutes (power : HoldsRegister b REG_PD2 pd2) :
    Ensures b.env (qnfSetMute false) (fun _ w' => pd2 w'.world &&& 0x0c = 0) w := by
  intro _ w' run
  rw [qnfSetRegBit_cell power 0x0c 0x00 () w' run, mask_inside BitVec.and_self]
  exact BitVec.zero_and

theorem qndTuneToCH_unmutes (chip : HoldsSystem1 b CHSC sys1) (power : HoldsRegister b REG_PD2 pd2)
    (muted : Muted pd2 w) (ch : UINT16) : Ensures b.env (qndTuneToCH ch) (fun _ w' =>
      pd2 w'.world &&& 0x0c = 0 ↔ sys1 w.world &&& TXREQ = 0) w := by
  rw [qndTuneToCH, ensures_bind]
  intro _ w₁ init
  have kept := cell_kept power qnfRXInit_writes (by decide) w () w₁ init
  have mode : sys1 w₁.world &&& TXREQ = sys1 w.world &&& TXREQ := by
    rw [← requests_transmit, requests_kept chip qnfRXInit_writes (by decide) w () w₁ init,
      requests_transmit]
  rw [ensures_bind, ensures_readReg, chip.read, mode, ensures_ite]
  constructor
  · intro transmitting
    have uses : Uses (WritesRegs [SYSTEM1, CH, CH_STEP]) (do
        qnfSetRegBit SYSTEM1 CCA_CH_DIS CCA_CH_DIS
        qnfSetCh ch) := by
      simp [qnfSetRegBit, qnfSetCh, Writes]
    intro _ w' run
    have still : pd2 w'.world = pd2 w.world := by
      calc pd2 w'.world
          = pd2 (w₁.after b (.readReg SYSTEM1)).world := cell_kept power uses (by decide) _ () w' run
        _ = pd2 w₁.world := power.keep _ _ fun _ => Ext.noConfusion
        _ = pd2 w.world := kept
    refine iff_of_false ?_ transmitting
    rw [still, muted]
    decide
  · intro receiving
    rw [not_not] at receiving
    simp only [ensures_bind]
    intro _ _ _ _ _ _ _ _ _ _ _ _ _ _ _ _ _ _
    refine (qnfSetMute_unmutes power).mono ?_
    intro _ w' unmuted
    exact iff_of_true unmuted receiving

theorem sought_transmit (first d : UINT8) :
    sought 0 first d &&& TXREQ = 0 ↔ first = 0 ∨ d &&& TXREQ = 0 := by
  rw [sought, if_pos rfl, received_transmit, updated]
  by_cases again : first = 0
  · rw [if_pos again]
    exact iff_of_true (by decide) (.inl again)
  · rw [if_neg again, or_iff_right again]

theorem qndRXSeekCH_unmuted (chip : HoldsSystem1 b CHSC sys1) (power : HoldsRegister b REG_PD2 pd2)
    (single : w.globals.byte .qndAutoScanAll = 0) :
    Ensures b.env (qndRXSeekCH start stop step db skip) (fun _ w' => pd2 w'.world &&& 0x0c = 0 ↔
      w.globals.byte .qndFirstScan = 0 ∨ sys1 w.world &&& TXREQ = 0) w := by
  intro found w' run
  have mode := qndRXSeekCH_requests chip start stop step db skip found w' run
  obtain ⟨w₁, w₂, prepared, loop, tuned⟩ := qndRXSeekCH_parts run
  rw [runs_when, if_pos single] at prepared tuned
  obtain ⟨_, w₃, muted, updated⟩ := runs_bind.mp prepared
  have round (x : UINT16) : Uses KeepsMute (seekRound stop step db (decide (start < stop))
      (b.stepValue step) x) := by
    apply uses_bind ((seekTest_discreet x step db).mono fun _ discreet => discreet.2)
    intro accepted
    simp [seekNext, KeepsMute]
  have muted₁ := muted_kept power (update_discreet.mono fun _ discreet => discreet.2) updated
    (qnfSetMute_mutes power () w₃ muted)
  have muted₂ := muted_kept power (uses_doWhile.mpr round) loop muted₁
  have before : sys1 w₂.world &&& TXREQ = 0 ↔
      w.globals.byte .qndFirstScan = 0 ∨ sys1 w.world &&& TXREQ = 0 := by
    have kept : requests sys1 w' = requests sys1 w₂ := qndTuneToCH_requests chip _ w₂ () w' tuned
    rw [← requests_transmit, ← kept, mode, single, sought_transmit, requests_transmit]
  exact (qndTuneToCH_unmutes chip power muted₂ _ () w' tuned).trans before

/-- The end of a scan of all channels unmutes in every mode. -/
theorem qndRXSeekCHAll_unmuted (power : HoldsRegister b REG_PD2 pd2) :
    Ensures b.env (qndRXSeekCHAll start stop step db skip)
      (fun _ w' => pd2 w'.world &&& 0x0c = 0) w := by
  simp only [qndRXSeekCHAll, ensures_bind, ensures_load8]
  intro _ _ _ _ _ _ _ _ _ _ _ _ _ _ _ _ _ _
  exact qnfSetMute_unmutes power

/-! Both. -/

/-- The receiver is not muted, and no hardware scan is on. -/
structure HandsBack (sys1 pd2 : κ → UINT8) (w : Machine κ) : Prop where
  unmuted : pd2 w.world &&& 0x0c = 0
  idle : sys1 w.world &&& CHSC = 0

/-- A single seek hands the receiver back exactly when it does not begin as a first scan in transmit
mode and its last check is not outlasted; a scan of all channels, exactly when its last check is
not. -/
theorem seek_hands_back_iff (chip : HoldsSystem1 b CHSC sys1) (power : HoldsRegister b REG_PD2 pd2) :
    (w.globals.byte .qndAutoScanAll = 0 → Ensures b.env (qndRXSeekCH start stop step db skip)
      (fun _ w' => HandsBack sys1 pd2 w' ↔
        (w.globals.byte .qndFirstScan = 0 ∨ sys1 w.world &&& TXREQ = 0) ∧
          ¬SeekOutlasted b sys1 start stop step db w) w) ∧
    Ensures b.env (qndRXSeekCHAll start stop step db skip)
      (fun _ w' => HandsBack sys1 pd2 w' ↔ ¬ScanOutlasted b sys1 start stop step db w) w := by
  have parts {w : Machine κ} :
      HandsBack sys1 pd2 w ↔ pd2 w.world &&& 0x0c = 0 ∧ ¬Running sys1 w := by
    unfold Running
    rw [not_not]
    exact ⟨fun back => ⟨back.unmuted, back.idle⟩, fun both => ⟨both.1, both.2⟩⟩
  constructor
  · intro single found w' run
    exact parts.trans (and_congr (qndRXSeekCH_unmuted chip power single found w' run)
      (not_congr (qndRXSeekCH_running chip single found w' run)))
  · intro count w' run
    have unmuted := qndRXSeekCHAll_unmuted power count w' run
    exact parts.trans ((and_iff_right unmuted).trans
      (not_congr (qndRXSeekCHAll_running chip count w' run)))

end

/-! A chip that ends a scan only in transmit mode. -/

/-- SYSTEM1 and REG_PD2, and how often the signal has been measured. -/
structure Stubborn where
  sys1 : UINT8
  pd2 : UINT8
  measured : Nat

/-- It hears nothing at its first `quiet` measurements, and a station at every later one. -/
def stubbornChip (quiet : Nat) : Board Stubborn where
  respond
    | .readReg adr, k =>
      if adr = SYSTEM1 then
        (k.sys1, if k.sys1 &&& TXREQ = 0 then k else { k with sys1 := k.sys1 &&& ~~~CHSC })
      else if adr = REG_PD2 then (k.pd2, k)
      else if adr = RSSISIG then
        (if k.measured < quiet then 0 else 60, { k with measured := k.measured + 1 })
      else (0, k)
    | .writeReg adr value, k => ((), if adr = SYSTEM1 then { k with sys1 := value }
      else if adr = REG_PD2 then { k with pd2 := value } else k)
    | .copyFromUser, k => (true, k)
    | .copyToUser, k => (true, k)
    | .peek _, k => (0, k)
    | .callBack _ _, k => ((), k)
    | .gpioMode _ _, k => ((), k)
    | .gpioDir _ _, k => ((), k)
    | .gpioOut _ _, k => ((), k)
    | .hwPower _, k => ((), k)
    | .poke _ _, k => ((), k)
    | .getIntArrayRegion _ _ _, k => ((), k)
  beyond _ := 0

theorem stubbornChip_system1 (quiet : Nat) : HoldsSystem1 (stubbornChip quiet) CHSC Stubborn.sys1 where
  read _ := rfl
  write _ _ := .inl rfl
  keep e k other := by
    cases e with
    | readReg adr =>
      simp only [stubbornChip]
      split
      next =>
        by_cases receiving : k.sys1 &&& TXREQ = 0
        · rw [if_pos receiving]
          exact .inl rfl
        · rw [if_neg receiving]
          exact .inr rfl
      next =>
        left
        split
        next => rfl
        next =>
          split
          next => rfl
          next => rfl
    | writeReg adr value =>
      have different : adr ≠ SYSTEM1 := fun same => other value (by rw [same])
      simp only [stubbornChip, if_neg different]
      left
      split
      next => rfl
      next => rfl
    | _ => exact .inl rfl

theorem stubbornChip_power (quiet : Nat) : HoldsRegister (stubbornChip quiet) REG_PD2 Stubborn.pd2 where
  read _ := rfl
  write _ _ := rfl
  keep e k other := by
    cases e with
    | readReg adr =>
      simp only [stubbornChip]
      split
      next =>
        by_cases receiving : k.sys1 &&& TXREQ = 0
        · rw [if_pos receiving]
        · rw [if_neg receiving]
      next =>
        split
        next => rfl
        next =>
          split
          next => rfl
          next => rfl
    | writeReg adr value =>
      have different : adr ≠ REG_PD2 := fun same => other value (by rw [same])
      simp only [stubbornChip, if_neg different]
      split
      next => rfl
      next => rfl
    | _ => rfl

/-- Where nothing is heard, both seeks hand the receiver back. -/
theorem quiet_handed_back :
    ((Globals.initial.byte .qndFirstScan = 0 ∨ (0 : UINT8) &&& TXREQ = 0) ∧
      ¬SeekOutlasted (stubbornChip 99) Stubborn.sys1 7600 7700 1 0 ⟨Globals.initial, ⟨0, 0, 0⟩⟩) ∧
    ¬ScanOutlasted (stubbornChip 99) Stubborn.sys1 7600 7700 1 0 ⟨Globals.initial, ⟨0, 0, 0⟩⟩ := by
  have seek : (exec (stubbornChip 99).env 12 (qndRXSeekCH 7600 7700 1 0 0)
      ⟨Globals.initial, ⟨0, 0, 0⟩⟩).map (fun r => (r.2.world.pd2 &&& 0x0c, r.2.world.sys1 &&& CHSC)) =
      some (0, 0) := by decide +kernel
  have scan : (exec (stubbornChip 99).env 12 (qndRXSeekCHAll 7600 7700 1 0 0)
      ⟨Globals.initial, ⟨0, 0, 0⟩⟩).map (fun r => (r.2.world.pd2 &&& 0x0c, r.2.world.sys1 &&& CHSC)) =
      some (0, 0) := by decide +kernel
  obtain ⟨found, w₁, sought, back₁⟩ := exec_observe 12 _ seek
  obtain ⟨count, w₂, scanned, back₂⟩ := exec_observe 12 _ scan
  obtain ⟨unmuted₁, idle₁⟩ := Prod.mk.inj back₁
  obtain ⟨unmuted₂, idle₂⟩ := Prod.mk.inj back₂
  have backs := @seek_hands_back_iff _ (stubbornChip 99) _ _ ⟨Globals.initial, ⟨0, 0, 0⟩⟩ 1 0 7600 7700 0
    (stubbornChip_system1 99) (stubbornChip_power 99)
  exact ⟨(backs.1 rfl found w₁ sought).mp ⟨unmuted₁, idle₁⟩,
    (backs.2 count w₂ scanned).mp ⟨unmuted₂, idle₂⟩⟩

/-- After INIT and a change to transmit mode, a seek leaves the receiver muted. After INIT, the check of
a scan of all channels times out, and its hardware scan is left on. -/
theorem not_handed_back :
    (∃ w found w', Path (DocumentedStep (stubbornChip 6)) ⟨Globals.initial, ⟨0, 0, 0⟩⟩
        [.init, .setsysMode 0x4000] w ∧ w.globals.byte .qndAutoScanAll = 0 ∧
      Runs (stubbornChip 6).env (qndRXSeekCH 7600 7600 0 0 0) w found w' ∧
      w'.world.pd2 &&& 0x0c = 0x0c ∧ ¬HandsBack Stubborn.sys1 Stubborn.pd2 w') ∧
    ∃ w count w', Path (DocumentedStep (stubbornChip 6)) ⟨Globals.initial, ⟨0, 0, 0⟩⟩ [.init] w ∧
      Runs (stubbornChip 6).env (qndRXSeekCHAll 7600 7600 0 0 0) w count w' ∧
      w'.world.sys1 &&& CHSC = CHSC ∧ ¬HandsBack Stubborn.sys1 Stubborn.pd2 w' := by
  have documented : ∀ cmd ∈ ([.init, .setsysMode 0x4000] : List Ioctl), Documented cmd := by
    simp only [List.mem_cons, List.not_mem_nil, or_false]
    intro _ given
    rcases given with rfl | rfl
    · trivial
    · exact (by decide : (0x4000 : UINT16) ∈ ([0, 1, 2, 0x8000, 0x4000] : List UINT16))
  constructor
  · have muted : (exec (stubbornChip 6).env 200 (do
        session [.init, .setsysMode 0x4000]
        let all ← load8 .qndAutoScanAll
        let _ ← qndRXSeekCH 7600 7600 0 0 0
        pure all) ⟨Globals.initial, ⟨0, 0, 0⟩⟩).map (fun r => (r.1, r.2.world.pd2 &&& 0x0c)) =
        some (0, 0x0c) := by decide +kernel
    obtain ⟨_, w', run, seen⟩ := exec_observe 200 _ muted
    obtain ⟨_, w, before, rest⟩ := runs_bind.mp run
    obtain ⟨all, w₁, loaded, rest₁⟩ := runs_bind.mp rest
    obtain ⟨rfl, rfl⟩ := runs_load8.mp loaded
    obtain ⟨found, w₂, seek, last⟩ := runs_bind.mp rest₁
    obtain ⟨rfl, rfl⟩ := runs_pure.mp last
    obtain ⟨single, mute⟩ := Prod.mk.inj seen
    refine ⟨w₁, found, w', (session_path before).with_labels documented, single, seek, mute, ?_⟩
    intro back
    exact absurd (mute.symm.trans back.unmuted) (by decide)
  · have scanning : (exec (stubbornChip 6).env 200 (do
        session [.init]
        qndRXSeekCHAll 7600 7600 0 0 0) ⟨Globals.initial, ⟨0, 0, 0⟩⟩).map
        (fun r => r.2.world.sys1 &&& CHSC) = some CHSC := by decide +kernel
    obtain ⟨count, w', run, seen⟩ := exec_observe 200 _ scanning
    obtain ⟨_, w, before, scan⟩ := runs_bind.mp run
    have path := (session_path before).with_labels fun cmd member =>
      documented cmd (List.mem_cons.mpr (.inl (List.mem_singleton.mp member)))
    refine ⟨w, count, w', path, scan, seen, ?_⟩
    intro back
    exact absurd (seen.symm.trans back.idle) (by decide)

end Yika.Fm
