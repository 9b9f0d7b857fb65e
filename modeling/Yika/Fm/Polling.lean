import Mathlib.Data.Nat.Find
import Yika.Fm.Footprint
import Yika.Program.Bounded

/-! Which ioctls finish, whatever the bus answers. Two of the driver's polls count no time-outs:
that of `QND_TXClearChannelScan`, which the noise floor uses for each of its bands, and that of
`QND_RDSCheckBufferReady`. -/

namespace Yika.Fm
open Program

/-- How far a bus has got: the register reads it has answered, and all its transactions. -/
structure Bus where
  reads : Nat
  transactions : Nat

/-- The register reads are answered by a stream of bytes, whatever is read. -/
structure Answers where
  stream : Nat → UINT8
  user : (e : Ext) → e.Answer
  beyond : UINT8 → UINT8

def Answers.board (a : Answers) : Board Bus where
  respond
    | .readReg _, bus => (a.stream bus.reads, ⟨bus.reads + 1, bus.transactions + 1⟩)
    | .writeReg _ _, bus => ((), ⟨bus.reads, bus.transactions + 1⟩)
    | e, bus => (a.user e, bus)
  beyond := a.beyond

/-- Finitely many register transactions are made. -/
def Finishes {α : Type} (a : Answers) (p : Drv α) (w : Machine Bus) : Prop :=
  Bounded a.board.env (fun w' => w'.world.transactions) p w

/-! What the answers say. -/

/-- Of the answers from the `p`th on, the `n`th is the first with CHSC clear. -/
structure Answers.ScanEnds (a : Answers) (p n : Nat) : Prop where
  after : p ≤ n
  clear : a.stream n &&& CHSC = 0
  first : ∀ m, p ≤ m → m < n → a.stream m &&& CHSC ≠ 0

/-- The read of RSSISIG in a `QND_GetRSSI` that begins with the `p`th read: the mode is only set
when SYSTEM1 has another. -/
def Answers.rssiRead (a : Answers) (p : Nat) : Nat :=
  if a.stream p &&& R_TXRX_MASK ≠ 0x80 then p + 6 else p + 4

/-- The scans of `left` bands end, one after the other; the first begins with the `p`th read. -/
def Answers.BandsEnd (a : Answers) : (left p : Nat) → Prop
  | 0, _ => True
  | left + 1, p => ∃ n, a.ScanEnds (p + 2) n ∧ a.BandsEnd left (a.rssiRead (n + 3) + 1)

/-- A reading of the clear channel that `QND_UpdateRSSIn` rescans for. -/
def Globals.floorMoved (g : Globals) (temp : UINT8) : Prop :=
  ¬(if g.byte .qndRSSIns < temp then temp - g.byte .qndRSSIns
    else g.byte .qndRSSIns - temp) < RSSINTHRESHOLD

/-- `QND_UpdateRSSIn` ends that begins with the `p`th read. -/
def Answers.UpdateEnds (a : Answers) (g : Globals) (p : Nat) : Prop :=
  if g.byte .qndFirstScan = 0 then
    g.floorMoved (a.stream (a.rssiRead p)) → a.BandsEnd 6 (a.rssiRead p + 2)
  else a.BandsEnd 6 (p + 1)

/-- `QND_RDSCheckBufferReady` ends that begins with the `p`th read. -/
def Answers.BufferEnds (a : Answers) (p : Nat) : Prop :=
  a.stream (p + 1) &&& TXREQ ≠ 0 ∨
    ∃ n, p + 2 ≤ n ∧ (a.stream n ^^^ a.stream p) &&& RDS_RXUPD ≠ 0

section
variable {a : Answers} {w : Machine Bus} {α : Type}

@[simp] theorem board_readReg {adr : UINT8} {bus : Bus} : a.board.respond (.readReg adr) bus =
    (a.stream bus.reads, ⟨bus.reads + 1, bus.transactions + 1⟩) := rfl

@[simp] theorem after_readReg_world {adr : UINT8} : (w.after a.board (.readReg adr)).world =
    ⟨w.world.reads + 1, w.world.transactions + 1⟩ := rfl

@[simp] theorem after_writeReg_world {adr value : UINT8} :
    (w.after a.board (.writeReg adr value)).world =
      ⟨w.world.reads, w.world.transactions + 1⟩ := rfl

/-! Polls. -/

/-- The loop reads one register in each round, and goes on while the answer is a busy one. -/
structure Polls (a : Answers) (body : Unit → Drv (Unit ⊕ Unit)) (busy : UINT8 → Prop) : Prop where
  looks (w : Machine Bus) : Achieves a.board.env (body ()) (fun next w' =>
    w'.globals = w.globals ∧ w'.world = ⟨w.world.reads + 1, w.world.transactions + 1⟩ ∧
    (busy (a.stream w.world.reads) → next = .inl ()) ∧
    (¬busy (a.stream w.world.reads) → next = .inr ())) w
  performs (w : Machine Bus) : ∃ o, Visits a.board.env (body ()) w o w

section
variable {body : Unit → Drv (Unit ⊕ Unit)} {busy : UINT8 → Prop}

/-- A poll ends with the first answer that is not a busy one. -/
theorem Polls.returns (polls : Polls a body busy) {n : Nat} (ahead : w.world.reads ≤ n)
    (ends : ¬busy (a.stream n)) (first : ∀ m, w.world.reads ≤ m → m < n → busy (a.stream m)) :
    Achieves a.board.env (Prog.doWhile body ()) (fun _ w' => w'.globals = w.globals ∧
      w'.world.reads = n + 1) w := by
  induction left : n - w.world.reads generalizing w with
  | zero =>
    have here : w.world.reads = n := by omega
    refine Achieves.doWhile ((polls.looks w).mono ?_)
    intro next w' looked
    obtain ⟨same, moved, _, leave⟩ := looked
    rw [here] at leave moved
    rw [leave ends]
    exact ⟨same, congrArg Bus.reads moved⟩
  | succ left ih =>
    refine Achieves.doWhile ((polls.looks w).mono ?_)
    intro next w' looked
    obtain ⟨same, moved, again, _⟩ := looked
    have reads : w'.world.reads = w.world.reads + 1 := congrArg Bus.reads moved
    rw [again (first _ (Nat.le_refl _) (by omega))]
    have later : ∀ m, w'.world.reads ≤ m → m < n → busy (a.stream m) := fun m low high =>
      first m (by omega) high
    apply (ih (by omega) later (by omega)).mono
    intro _ w'' done
    exact ⟨done.1.trans same, done.2⟩

theorem exists_first {P : Nat → Prop} {p : Nat} (some : ∃ n, p ≤ n ∧ P n) :
    ∃ n, p ≤ n ∧ P n ∧ ∀ m, p ≤ m → m < n → ¬P m := by
  classical
  obtain ⟨low, holds⟩ := Nat.find_spec some
  exact ⟨Nat.find some, low, holds, fun m after before now => Nat.find_min some before ⟨after, now⟩⟩

theorem Polls.finishes_iff (polls : Polls a body busy) :
    Finishes a (Prog.doWhile body ()) w ↔ ∃ n, w.world.reads ≤ n ∧ ¬busy (a.stream n) := by
  constructor
  · intro finishes
    by_contra never
    have always : ∀ m, w.world.reads ≤ m → busy (a.stream m) := by
      intro m low
      by_contra free
      exact never ⟨m, low, free⟩
    refine doWhile_unbounded (fun _ w' => w.world.reads ≤ w'.world.reads) ?_ (Nat.le_refl _) finishes
    intro x w₁ later
    refine ⟨polls.performs w₁, (polls.looks w₁).mono ?_⟩
    intro next w' looked
    obtain ⟨_, moved, again, _⟩ := looked
    rw [again (always _ later)]
    show w.world.reads ≤ w'.world.reads ∧ w₁.world.transactions < w'.world.transactions
    rw [moved]
    exact ⟨Nat.le_succ_of_le later, Nat.lt_succ_self _⟩
  · intro free
    obtain ⟨n, low, ends, first⟩ := exists_first free
    have busy (m : Nat) (after : w.world.reads ≤ m) (before : m < n) : busy (a.stream m) :=
      not_not.mp (first m after before)
    exact (polls.returns low ends busy).bounded

end

theorem pollClearChannel_polls : Polls a pollClearChannel fun answer => answer &&& CHSC ≠ 0 where
  looks w := by simp [pollClearChannel, Machine.after]
  performs w := ⟨.ext (.readReg SYSTEM1), .here⟩

theorem pollRDSUpdate_polls (rdsUpdated : UINT8) :
    Polls a (pollRDSUpdate rdsUpdated) fun answer => (answer ^^^ rdsUpdated) &&& RDS_RXUPD = 0 where
  looks w := by simp [pollRDSUpdate, Machine.after]
  performs w := ⟨.ext (.readReg STATUS3), .here⟩

end

/-! Functions without a loop. -/

section
variable {κ : Type} {b : Board κ} {μ : Machine κ → Nat} {w : Machine κ}

@[simp] theorem bounded_readReg {adr : UINT8} : Bounded b.env μ (readReg adr) w := bounded_perform
@[simp] theorem bounded_writeReg {adr value : UINT8} : Bounded b.env μ (writeReg adr value) w :=
  bounded_perform
@[simp] theorem bounded_load8 {v : Var8} : Bounded b.env μ (load8 v) w := bounded_perform
@[simp] theorem bounded_store8 {v : Var8} {value : UINT8} : Bounded b.env μ (store8 v value) w :=
  bounded_perform
@[simp] theorem bounded_load16 {v : Var16} : Bounded b.env μ (load16 v) w := bounded_perform
@[simp] theorem bounded_store16 {v : Var16} {value : UINT16} : Bounded b.env μ (store16 v value) w :=
  bounded_perform
@[simp] theorem bounded_stepTbl {i : UINT8} : Bounded b.env μ (stepTbl i) w := bounded_perform
@[simp] theorem bounded_ext {e : Ext} : Bounded b.env μ (ext e) w := bounded_perform
@[simp] theorem bounded_copyFromUser : Bounded b.env μ copyFromUser w := bounded_perform
@[simp] theorem bounded_copyToUser : Bounded b.env μ copyToUser w := bounded_perform
@[simp] theorem bounded_peek {address : INT} : Bounded b.env μ (peek address) w := bounded_perform
@[simp] theorem bounded_act {e : Ext} : Bounded b.env μ (act e) w := by
  simp [act]

@[simp] theorem bounded_qnfSetRegBit {reg bitMask dataVal : UINT8} :
    Bounded b.env μ (qnfSetRegBit reg bitMask dataVal) w := by
  simp [qnfSetRegBit]

@[simp] theorem bounded_qnfSetMute {on : Bool} : Bounded b.env μ (qnfSetMute on) w := by
  simp [qnfSetMute]

@[simp] theorem bounded_qnfSetCh {freq : UINT16} : Bounded b.env μ (qnfSetCh freq) w := by
  simp [qnfSetCh]

@[simp] theorem bounded_qnfGetCh : Bounded b.env μ qnfGetCh w := by
  simp [qnfGetCh]

@[simp] theorem bounded_qnfConfigScan {start stop : UINT16} {step : UINT8} :
    Bounded b.env μ (qnfConfigScan start stop step) w := by
  simp [qnfConfigScan]

@[simp] theorem bounded_qndSetSysMode {mode : UINT16} : Bounded b.env μ (qndSetSysMode mode) w := by
  simp [qndSetSysMode, setWorkingMode, ensures_anything]

@[simp] theorem bounded_qndGetRSSI {ch : UINT16} : Bounded b.env μ (qndGetRSSI ch) w := by
  simp [qndGetRSSI, ensures_anything]

@[simp] theorem bounded_qndTuneToCH {ch : UINT16} : Bounded b.env μ (qndTuneToCH ch) w := by
  simp [qndTuneToCH, qnfRXInit, ensures_anything]

@[simp] theorem bounded_qnfInitRSSInBB : Bounded b.env μ qnfInitRSSInBB w := by
  simp [qnfInitRSSInBB, initRSSInBBEdge, ensures_anything]

@[simp] theorem bounded_qndInit : Bounded b.env μ qndInit w := by
  simp [qndInit, qnChipInitialization, ensures_anything]

end

section
variable {a : Answers} {w : Machine Bus}

/-! The noise floor. -/

theorem qndGetRSSI_returns (ch : UINT16) : Achieves a.board.env (qndGetRSSI ch) (fun temp w' =>
    w'.globals = w.globals ∧ temp = a.stream (a.rssiRead w.world.reads) ∧
    w'.world.reads = a.rssiRead w.world.reads + 1) w := by
  unfold Answers.rssiRead
  simp +contextual [qndGetRSSI, qndSetSysMode, setWorkingMode, qnfSetMute, qnfSetRegBit, qnfSetCh]

theorem exists_scanEnds {p : Nat} :
    (∃ n, a.ScanEnds p n) ↔ ∃ n, p ≤ n ∧ ¬(a.stream n &&& CHSC ≠ 0) := by
  constructor
  · intro scan
    obtain ⟨n, ends⟩ := scan
    exact ⟨n, ends.after, not_not.mpr ends.clear⟩
  · intro free
    obtain ⟨n, low, clear, first⟩ := exists_first free
    exact ⟨n, low, not_not.mp clear, fun m after before => not_not.mp (first m after before)⟩

theorem clearScan_finishes_iff (start stop : UINT16) (step db : UINT8) :
    Finishes a (qndTXClearChannelScan start stop step db) w ↔
      ∃ n, a.ScanEnds (w.world.reads + 2) n := by
  simp only [Finishes, qndTXClearChannelScan, bounded_bind, bounded_qnfConfigScan, bounded_qnfSetRegBit,
    bounded_qnfGetCh, ensures_anything, and_true, true_and]
  simp only [qnfConfigScan, qnfSetRegBit, ensures_bind, ensures_writeReg, ensures_readReg]
  rw [exists_scanEnds]
  exact pollClearChannel_polls.finishes_iff

theorem clearScan_returns (start stop : UINT16) (step db : UINT8) {n : Nat}
    (ends : a.ScanEnds (w.world.reads + 2) n) :
    Achieves a.board.env (qndTXClearChannelScan start stop step db) (fun _ w' =>
      w'.globals = w.globals ∧ w'.world.reads = n + 3) w := by
  simp only [qndTXClearChannelScan, qnfConfigScan, qnfSetRegBit, achieves_bind, achieves_writeReg,
    achieves_readReg]
  apply (pollClearChannel_polls.returns ends.after (not_not.mpr ends.clear) ends.first).mono
  intro _ w₁ polled
  simp [qnfGetCh, polled]

theorem scanBand_finishes_iff (i : Nat) :
    Finishes a (scanBand i) w ↔ ∃ n, a.ScanEnds (w.world.reads + 2) n := by
  simp only [Finishes, scanBand, bounded_bind, bounded_load16, bounded_load8, bounded_stepTbl,
    bounded_qndGetRSSI, bounded_store8, bounded_pure, ensures_load16, ensures_load8, ensures_stepTbl,
    ensures_anything, and_true, true_and]
  exact clearScan_finishes_iff _ _ _ _

theorem scanBand_returns (i : Nat) {n : Nat} (ends : a.ScanEnds (w.world.reads + 2) n) :
    Achieves a.board.env (scanBand i)
      (fun _ w' => w'.world.reads = a.rssiRead (n + 3) + 1) w := by
  simp only [scanBand, achieves_bind, achieves_load16, achieves_load8, achieves_stepTbl]
  apply (clearScan_returns _ _ _ _ ends).mono
  intro ch w₁ scanned
  apply (qndGetRSSI_returns ch).mono
  intro rssi w₂ read
  simp only [achieves_store8, achieves_pure]
  rw [read.2.2, scanned.2]

theorem rescanBand_finishes_iff (i : Nat) :
    Finishes a (rescanBand i) w ↔ ∃ n, a.ScanEnds (w.world.reads + 2) n := by
  simp only [Finishes, rescanBand, bounded_bind, bounded_load8, bounded_when, bounded_store8,
    bounded_store16, bounded_pure, ensures_anything, and_true, implies_true]
  exact scanBand_finishes_iff i

theorem rescanBand_returns (i : Nat) {n : Nat} (ends : a.ScanEnds (w.world.reads + 2) n) :
    Achieves a.board.env (rescanBand i)
      (fun _ w' => w'.world.reads = a.rssiRead (n + 3) + 1) w := by
  rw [rescanBand, achieves_bind]
  apply (scanBand_returns i ends).mono
  intro scanned w₁ reads
  simp [reads]

theorem rescanBands_finishes_iff (left i : Nat) :
    Finishes a (rescanBands left i) w ↔ a.BandsEnd left w.world.reads := by
  induction left generalizing i w with
  | zero => exact iff_of_true bounded_pure trivial
  | succ left ih =>
    have split : Finishes a (rescanBands (left + 1) i) w ↔ Finishes a (rescanBand i) w ∧
        Ensures a.board.env (rescanBand i)
          (fun _ w₁ => Finishes a (rescanBands left (i + 1)) w₁) w := by
      simp [Finishes, rescanBands]
    have follows {n : Nat} (ends : a.ScanEnds (w.world.reads + 2) n) :
        Ensures a.board.env (rescanBand i)
          (fun _ w₁ => Finishes a (rescanBands left (i + 1)) w₁) w ↔
          a.BandsEnd left (a.rssiRead (n + 3) + 1) := by
      apply (rescanBand_returns i ends).ensures_iff
      intro _ w₁ reads
      rw [ih, reads]
    rw [split, rescanBand_finishes_iff]
    constructor
    · intro both
      obtain ⟨⟨n, ends⟩, rest⟩ := both
      exact ⟨n, ends, (follows ends).mp rest⟩
    · intro bands
      obtain ⟨n, ends, rest⟩ := bands
      exact ⟨⟨n, ends⟩, (follows ends).mpr rest⟩

theorem rescan_finishes_iff : Finishes a rescan w ↔ a.BandsEnd 6 (w.world.reads + 1) := by
  simp only [Finishes, rescan, bounded_bind, bounded_readReg, bounded_writeReg, bounded_pure,
    ensures_readReg, ensures_anything, and_true, true_and]
  exact rescanBands_finishes_iff 6 0

theorem update_finishes_iff :
    Finishes a (qnfUpdateRSSIn 0) w ↔ a.BandsEnd 6 (w.world.reads + 1) := by
  rw [← rescan_finishes_iff]
  simp [Finishes, qnfUpdateRSSIn]

theorem rescanIfWanted_finishes_iff : Finishes a (rescanIfWanted 0) w ↔
    (w.globals.byte .qndClearScanFlag ≠ 0 ∨ w.globals.byte .qndFirstScan ≠ 0 →
      a.BandsEnd 6 (w.world.reads + 1)) := by
  rw [← update_finishes_iff]
  simp only [Finishes, rescanIfWanted, bounded_bind, bounded_load8, bounded_ite, bounded_pure,
    bounded_when, bounded_store8, ensures_load8, ensures_ite, ensures_pure, ensures_anything,
    and_true, true_and, implies_true, ne_eq, not_true_eq_false, or_false]
  tauto

theorem checkClearChannel_returns : Achieves a.board.env checkClearChannel (fun _ w' =>
    w'.world.reads = a.rssiRead w.world.reads + 1 ∧
    w'.globals.byte .qndFirstScan = w.globals.byte .qndFirstScan ∧
    (w'.globals.byte .qndClearScanFlag ≠ 0 ↔
      w.globals.floorMoved (a.stream (a.rssiRead w.world.reads)))) w := by
  simp only [checkClearChannel, achieves_bind, achieves_load16]
  apply (qndGetRSSI_returns _).mono
  intro temp w₁ read
  obtain ⟨same, rfl, reads⟩ := read
  simp only [achieves_load8, achieves_ite, achieves_store8, same]
  constructor
  · intro quiet
    simp [reads, Globals.floorMoved, quiet]
  · intro moved
    simp [reads, Globals.floorMoved, moved]

/-- `QND_UpdateRSSIn(0)` rescans at the first time, and when the floor has moved. -/
theorem qndUpdateRSSIn_finishes_iff :
    Finishes a (qndUpdateRSSIn 0) w ↔ a.UpdateEnds w.globals w.world.reads := by
  have check : Bounded a.board.env (fun w' => w'.world.transactions) checkClearChannel w :=
    checkClearChannel_returns.bounded
  have split : Finishes a (qndUpdateRSSIn 0) w ↔ Ensures a.board.env
      (Prog.when (w.globals.byte .qndFirstScan = 0) checkClearChannel)
      (fun _ w₁ => Finishes a (rescanIfWanted 0) w₁) w := by
    simp only [Finishes, qndUpdateRSSIn, bounded_bind, bounded_load8, bounded_when, ensures_load8, check,
      implies_true, true_and]
  rw [split, ensures_when, Answers.UpdateEnds]
  by_cases first : w.globals.byte .qndFirstScan = 0
  · rw [if_pos first, and_iff_left fun later => absurd first later]
    refine Iff.trans (forall_prop_of_true first) (checkClearChannel_returns.ensures_iff ?_)
    intro _ w₁ checked
    obtain ⟨reads, scan, flag⟩ := checked
    rw [rescanIfWanted_finishes_iff, scan, flag, reads]
    exact ⟨fun ends moved => ends (Or.inl moved), fun ends wanted =>
      ends (wanted.resolve_right (not_not.mpr first))⟩
  · rw [if_neg first, and_iff_right fun same => absurd same first]
    apply Iff.trans (forall_prop_of_true first)
    rw [rescanIfWanted_finishes_iff]
    exact forall_prop_of_true (Or.inr first)

end

end Yika.Fm
