import Yika.Fm.Termination

/-! A single seek over any range: the rounds of its loop, what it returns, and the calls of the seek
callback. The loop looks whether it has passed `stop` after it has stepped, so that near 0 and 65535
the step wraps and the loop misses its end. -/

namespace Yika.Fm
open Program

/-- `calls` is a record, kept in the world, of the frequencies the callback has been called with. -/
structure RecordsCallBacks {κ : Type} (b : Board κ) (calls : κ → List UINT16) : Prop where
  called : ∀ freq band k, calls (b.respond (.callBack freq band) k).2 = calls k ++ [freq]
  other : ∀ e k, (∀ freq band, e ≠ .callBack freq band) → calls (b.respond e k).2 = calls k

def NoCall : FmOp → Prop
  | .ext (.callBack _ _) => False
  | _ => True

def KeepsMute : FmOp → Prop
  | .ext (.writeReg adr value) => adr = REG_PD2 → value &&& 0x0c = 0x0c
  | _ => True

/-! Up to its tuning, a seek makes no call before a channel is accepted, and does not unmute. -/

def Discreet (o : FmOp) : Prop := NoCall o ∧ KeepsMute o

theorem Discreet.noCall {o : FmOp} (discreet : Discreet o) : NoCall o := discreet.1

theorem muted_written (value : UINT8) : (value &&& 0xf3#8 ||| 0x0c#8) &&& 0x0c#8 = 0x0c#8 := by
  revert value
  decide +kernel

theorem qnfSetMute_discreet : Uses Discreet (qnfSetMute true) := by
  simp [qnfSetMute, qnfSetRegBit, Discreet, NoCall, KeepsMute, muted_written]

theorem qnfSetRegBit_discreet {reg bitMask dataVal : UINT8} (other : reg ≠ REG_PD2) :
    Uses Discreet (qnfSetRegBit reg bitMask dataVal) := by
  simp [qnfSetRegBit, Discreet, NoCall, KeepsMute, other]

theorem qndGetRSSI_discreet (ch : UINT16) : Uses Discreet (qndGetRSSI ch) := by
  simp +decide [qndGetRSSI, qndSetSysMode, setWorkingMode, qnfSetMute, qnfSetRegBit, qnfSetCh, Discreet,
    NoCall, KeepsMute, muted_written]

theorem qndTXClearChannelScan_discreet (start stop : UINT16) (step db : UINT8) :
    Uses Discreet (qndTXClearChannelScan start stop step db) := by
  simp +decide [qndTXClearChannelScan, qnfConfigScan, qnfSetRegBit, pollClearChannel, qnfGetCh,
    Discreet, NoCall, KeepsMute]

theorem scanBand_discreet (i : Nat) : Uses Discreet (scanBand i) := by
  simp only [scanBand, uses_load16_bind, uses_load8_bind, uses_stepTbl_bind, Discreet, NoCall,
    KeepsMute, and_self, true_and]
  intro low high index leap step
  apply uses_bind (qndTXClearChannelScan_discreet _ _ _ _)
  intro ch
  apply uses_bind (qndGetRSSI_discreet ch)
  intro rssi
  simp [Discreet, NoCall, KeepsMute]

theorem rescanBands_discreet (left i : Nat) : Uses Discreet (rescanBands left i) := by
  induction left generalizing i with
  | zero => exact uses_pure _
  | succ left ih =>
    apply uses_bind
    · apply uses_bind (scanBand_discreet i)
      intro scanned
      simp [Discreet, NoCall, KeepsMute]
    · intro scanned
      exact uses_bind (ih (i + 1)) fun rest => uses_pure _

theorem bandIndexFrom_discreet (chfreq : UINT16) (left i : Nat) :
    Uses Discreet (bandIndexFrom chfreq left i) := by
  induction left generalizing i with
  | zero => exact uses_pure _
  | succ left ih => simp [bandIndexFrom, ih, Discreet, NoCall, KeepsMute]

theorem restored_discreet (r0 : UINT8) : Uses Discreet (writeReg SYSTEM1 r0) := by
  simp +decide [Discreet, NoCall, KeepsMute]

theorem qnfUpdateRSSIn_discreet (chFreq : UINT16) : Uses Discreet (qnfUpdateRSSIn chFreq) := by
  apply uses_ite.mpr
  constructor
  · intro _
    simp only [rescan, bind_assoc, uses_readReg_bind, Discreet, NoCall, KeepsMute, and_self, true_and]
    intro r0
    apply uses_bind (rescanBands_discreet _ _)
    intro measured
    exact uses_bind (restored_discreet r0) fun _ => uses_pure _
  · intro _
    simp only [uses_readReg_bind, Discreet, NoCall, KeepsMute, and_self, true_and]
    intro r0
    apply uses_bind (bandIndexFrom_discreet chFreq _ 0)
    intro i
    apply uses_bind (scanBand_discreet i.toNat)
    intro _
    exact restored_discreet r0

theorem qndUpdateRSSIn_discreet (ch : UINT16) : Uses Discreet (qndUpdateRSSIn ch) := by
  have check : Uses Discreet checkClearChannel := by
    simp only [checkClearChannel, uses_load16_bind, Discreet, NoCall, KeepsMute, and_self, true_and]
    intro clear
    apply uses_bind (qndGetRSSI_discreet clear)
    intro temp
    simp [Discreet, NoCall, KeepsMute]
  simp only [qndUpdateRSSIn, uses_load8_bind, Discreet, NoCall, KeepsMute, and_self, true_and]
  intro first
  apply uses_bind (uses_when.mpr fun _ => check)
  intro _
  simp only [rescanIfWanted, uses_load8_bind, Discreet, NoCall, KeepsMute, and_self, true_and]
  intro flag
  apply uses_bind (by simp [Discreet, NoCall, KeepsMute])
  intro wanted
  apply uses_when.mpr
  intro _
  apply uses_bind (qnfUpdateRSSIn_discreet ch)
  intro _
  simp [Discreet, NoCall, KeepsMute]

theorem update_discreet : Uses Discreet (do
    qnfSetRegBit GAIN_SEL 0x38 0x38
    qndUpdateRSSIn 0) :=
  uses_bind (qnfSetRegBit_discreet (by decide)) fun _ => qndUpdateRSSIn_discreet 0

theorem seekPrelude_discreet : Uses Discreet seekPrelude :=
  uses_bind qnfSetMute_discreet fun _ => update_discreet

theorem seekTest_discreet (start : UINT16) (step db : UINT8) : Uses Discreet (seekTest start step db) := by
  have look : Uses Discreet (qnfGetRSSIn start) := by
    apply uses_bind (bandIndexFrom_discreet start _ 0)
    intro i
    simp [Discreet, NoCall, KeepsMute]
  apply uses_bind look
  intro minrssi
  simp +decide [qnfSetCh, qnfSetRegBit, checkChannel, judgeChannel, qnfConfigScan, pollScan, Discreet,
    NoCall, KeepsMute]

theorem qndTuneToCH_noCall (ch : UINT16) : Uses NoCall (qndTuneToCH ch) := by
  simp [qndTuneToCH, qnfRXInit, qnfSetRegBit, qnfSetCh, qnfSetMute, NoCall]

section
variable {κ α : Type} {b : Board κ} {ans : UINT16 → UINT8 → UINT8} {calls : κ → List UINT16}
  {w w₁ : Machine κ} {g : Globals} {start stop x : UINT16} {step db skip leap : UINT8} {up : Bool}

theorem calls_kept {p : Drv α} {out : α} (records : RecordsCallBacks b calls) (uses : Uses NoCall p)
    (run : Runs b.env p w out w₁) : calls w₁.world = calls w.world := by
  have keeps : ∀ o (w : Machine κ), NoCall o → calls (b.env o w).2.world = calls w.world := by
    intro o w noCall
    cases o with
    | ext e =>
      apply records.other e
      rintro freq band rfl
      exact noCall
    | _ => rfl
  exact uses.frame (fun w => calls w.world) keeps run

/-- The callback, if there is one, has been called with these frequencies since. -/
def Called (g : Globals) (calls : κ → List UINT16) (before : List UINT16) (found : List UINT16)
    (w' : Machine κ) : Prop :=
  calls w'.world = before ++ if g.byte .qndCallBackFunc = 0 then [] else found

theorem seekRound_looks (answers : AnswersByFreq b ans) (records : RecordsCallBacks b calls)
    {before : List UINT16} (same : w.globals = g) (none : calls w.world = before) (step db : UINT8) :
    ∃ next w', Looks b.env (seekRound stop step db up leap) (advance up leap) (Within up stop)
      (acceptable ans g db) (fun w' => w'.globals = g ∧ calls w'.world = before)
      (fun y => Called g calls before [y]) 0 x w next w' := by
  obtain ⟨accepted, w₁, test, same₁, verdict⟩ := @achieves_seekTest _ _ w x _ answers step db
  have quiet := (calls_kept records ((seekTest_discreet x step db).mono fun _ => Discreet.noCall) test).trans none
  rw [same] at same₁ verdict
  subst verdict
  cases accepted : acceptable ans g db x with
  | true =>
    have leaves : Achieves b.env (seekNext stop up leap x true)
        (fun next w' => next = .inr x ∧ Called g calls before [x] w') w₁ := by
      simp only [seekNext, if_true, achieves_bind, achieves_load8, achieves_when, achieves_act,
        achieves_pure, same₁, true_and]
      constructor
      · intro func
        show calls (b.respond (.callBack x 0) w₁.world).2 = _
        rw [records.called, quiet, if_neg func]
      · intro func
        unfold Called
        rw [quiet, if_pos (not_not.mp func), List.append_nil]
    obtain ⟨next, w', rest, leaving⟩ := leaves
    refine ⟨next, w', test.seq (by rwa [accepted]), fun _ => leaving, ?_, ?_, ?_⟩
    all_goals
      intro refused
      exact absurd refused (by rw [accepted]; exact Bool.noConfusion)
  | false =>
    have refused : ¬acceptable ans g db x = true := by
      rw [accepted]
      exact Bool.false_ne_true
    by_cases further : Within up stop (advance up leap x)
    · have rest : Runs b.env (seekNext stop up leap x false) w₁ (.inl (advance up leap x)) w₁ := by
        rw [seekNext_refused, if_pos further]
        exact runs_pure.mpr ⟨rfl, rfl⟩
      exact ⟨_, w₁, test.seq (by rwa [accepted]), fun hit => absurd hit refused, fun _ => ⟨same₁, quiet⟩,
        fun _ _ => rfl, fun _ out => absurd further out⟩
    · have rest : Runs b.env (seekNext stop up leap x false) w₁ (.inr 0) w₁ := by
        rw [seekNext_refused, if_neg further]
        exact runs_pure.mpr ⟨rfl, rfl⟩
      exact ⟨_, w₁, test.seq (by rwa [accepted]), fun hit => absurd hit refused, fun _ => ⟨same₁, quiet⟩,
        fun _ on => absurd on further, fun _ _ => rfl⟩

/-- The frequencies of a seek that are acceptable come from its grid; this is the first. -/
def firstAcceptable (ans : UINT16 → UINT8 → UINT8) (g : Globals) (start stop : UINT16)
    (step db : UINT8) : Option UINT16 :=
  ((grid start.toNat stop.toNat (qndStepTbl step.toNat).toNat).map (BitVec.ofNat 16)).find?
    (acceptable ans g db)

/-- The loop of the seek, entered in `w₁`, ends within a round for each point of the grid, and the
seek from `w` returns the first acceptable frequency and has called back once with it, or returns
0 and has not called back. -/
def SeeksExactly (b : Board κ) (ans : UINT16 → UINT8 → UINT8) (calls : κ → List UINT16)
    (start stop : UINT16) (step db skip : UINT8) (w w₁ : Machine κ) : Prop :=
  ∃ rounds found w₂ w',
    Rounds b.env (seekRound stop step db (decide (start < stop)) (qndStepTbl step.toNat)) rounds start
      w₁ found w₂ ∧
    rounds ≤ start.toNat.dist stop.toNat / (qndStepTbl step.toNat).toNat + 1 ∧
    found = (firstAcceptable ans w₁.globals start stop step db).getD 0 ∧
    Runs b.env (qndRXSeekCH start stop step db skip) w found w' ∧
    Called w₁.globals calls (calls w.world)
      (firstAcceptable ans w₁.globals start stop step db).toList w'

theorem qndRXSeekCH_around (records : RecordsCallBacks b calls) (index : step.toNat < 3)
    (skip : UINT8)
    (prepared : Runs b.env (Prog.when (w.globals.byte .qndAutoScanAll = 0) seekPrelude) w () w₁)
    {found : UINT16} {w₂ : Machine κ} (loop : Runs b.env (Prog.doWhile
      (seekRound stop step db (decide (start < stop)) (qndStepTbl step.toNat)) start) w₁ found w₂) :
    ∃ w', Runs b.env (qndRXSeekCH start stop step db skip) w found w' ∧
      calls w'.world = calls w₂.world := by
  have tuned : Achieves b.env (Prog.when (w₂.globals.byte .qndAutoScanAll = 0)
      (qndTuneToCH (if found = 0 then stop else found))) (fun _ _ => True) w₂ := by
    simp [qndTuneToCH, qnfRXInit, qnfSetRegBit, qnfSetMute, qnfSetCh]
  obtain ⟨_, w', tune, _⟩ := tuned
  refine ⟨w', ?_, calls_kept records (uses_when.mpr fun _ => qndTuneToCH_noCall _) tune⟩
  rw [qndRXSeekCH_eq]
  refine (runs_load8.mpr ⟨rfl, rfl⟩).seq (prepared.seq ?_)
  refine (runs_stepTbl.mpr ⟨(stepValue_inside b index).symm, rfl⟩).seq (loop.seq ?_)
  exact (runs_load8.mpr ⟨rfl, rfl⟩).seq (tune.seq (runs_pure.mpr ⟨rfl, rfl⟩))

/-- A seek keeps to its grid exactly when some frequency of the grid is acceptable, or the step past
the grid does not wrap. -/
theorem seek_exact_iff (answers : AnswersByFreq b ans) (records : RecordsCallBacks b calls)
    (index : step.toNat < 3)
    (prepared : Runs b.env (Prog.when (w.globals.byte .qndAutoScanAll = 0) seekPrelude) w () w₁) :
    SeeksExactly b ans calls start stop step db skip w w₁ ↔
      (∃ f ∈ grid start.toNat stop.toNat (qndStepTbl step.toNat).toNat,
        acceptable ans w₁.globals db (BitVec.ofNat 16 f) = true) ∨
      Unwrapped start.toNat stop.toNat (qndStepTbl step.toNat).toNat := by
  obtain ⟨moves, _⟩ := stepTbl_bounds step.toNat
  have trail := trail_grid (qndStepTbl step.toNat) start stop
  have leaves := @outside_grid_iff (qndStepTbl step.toNat) start stop moves
  have looks := fun x w (_ : Within (decide (start < stop)) stop x)
      (inv : w.globals = w₁.globals ∧ calls w.world = calls w₁.world) =>
    @seekRound_looks κ b ans calls w w₁.globals stop x (qndStepTbl step.toNat)
      (decide (start < stop)) answers records _ inv.1 inv.2 step db
  have quiet : calls w₁.world = calls w.world :=
    calls_kept records ((uses_when.mpr fun _ => seekPrelude_discreet).mono fun _ => Discreet.noCall) prepared
  have size : ((grid start.toNat stop.toNat (qndStepTbl step.toNat).toNat).map
      (BitVec.ofNat 16)).length =
      start.toNat.dist stop.toNat / (qndStepTbl step.toNat).toNat + 1 := by
    rw [List.length_map, length_grid]
  cases first : firstAcceptable ans w₁.globals start stop step db with
  | some y =>
    have member := List.mem_of_find?_eq_some first
    have accepted := List.find?_some first
    obtain ⟨f, inGrid, rfl⟩ := List.mem_map.mp member
    refine iff_of_true ?_ (.inl ⟨f, inGrid, accepted⟩)
    obtain ⟨rounds, w₂, bound, run, called⟩ := trail.found looks ⟨rfl, rfl⟩ first
    obtain ⟨w', whole, same⟩ := qndRXSeekCH_around records index skip prepared run.runs
    refine ⟨rounds, _, w₂, w', run, size ▸ bound, by rw [first, Option.getD_some], whole, ?_⟩
    rw [first]
    unfold Called at called ⊢
    rw [same, called, quiet]
    rfl
  | none =>
    have nothing : ¬∃ f ∈ grid start.toNat stop.toNat (qndStepTbl step.toNat).toNat,
        acceptable ans w₁.globals db (BitVec.ofNat 16 f) = true := by
      intro some
      obtain ⟨f, inGrid, accepted⟩ := some
      exact List.find?_eq_none.mp first _ (List.mem_map_of_mem inGrid) accepted
    rw [or_iff_right nothing, ← leaves]
    constructor
    · intro sought inside
      obtain ⟨rounds, found, w₂, w', run, bound, _⟩ := sought
      have longer := trail.longer looks inside ⟨rfl, rfl⟩ first run
      omega
    · intro out
      obtain ⟨w₂, run, kept⟩ := (trail.walk out).missed looks within_start ⟨rfl, rfl⟩ first
      obtain ⟨w', whole, same⟩ := qndRXSeekCH_around records index skip prepared run.runs
      refine ⟨_, 0, w₂, w', run, size.le, by rw [first, Option.getD_none], whole, ?_⟩
      rw [first]
      unfold Called
      rw [same, kept.2, quiet]
      split
      next => exact (List.append_nil _).symm
      next => exact (List.append_nil _).symm

theorem seekPrelude_writes : Uses (Writes seekRegs updateBytes {.qndClearChannel}) seekPrelude := by
  apply uses_bind (growRegs (qnfSetMute_writes true) (by decide))
  intro _
  apply uses_bind (growRegs (qnfSetRegBit_writes _ _ _) (by decide))
  intro _
  exact grow (qndUpdateRSSIn_writes 0) (by decide) subset_rfl subset_rfl

theorem seekLoop_writes (stop : UINT16) (step db : UINT8) (up : Bool) (leap : UINT8) (start : UINT16) :
    Uses (WritesRegs seekRegs) (Prog.doWhile (seekRound stop step db up leap) start) :=
  uses_doWhile.mpr (seekRound_writes stop step db up leap)

/-- A seek of its own mutes and measures the noise floor before its loop, and tunes after it. -/
theorem qndRXSeekCH_parts {found : UINT16} {w' : Machine κ}
    (run : Runs b.env (qndRXSeekCH start stop step db skip) w found w') :
    ∃ w₁ w₂, Runs b.env (Prog.when (w.globals.byte .qndAutoScanAll = 0) seekPrelude) w () w₁ ∧
      Runs b.env (Prog.doWhile (seekRound stop step db (decide (start < stop)) (b.stepValue step)) start)
        w₁ found w₂ ∧
      Runs b.env (Prog.when (w.globals.byte .qndAutoScanAll = 0)
        (qndTuneToCH (if found = 0 then stop else found))) w₂ () w' := by
  rw [qndRXSeekCH_eq] at run
  obtain ⟨all, w₀, loaded, run₁⟩ := runs_bind.mp run
  obtain ⟨rfl, rfl⟩ := runs_load8.mp loaded
  obtain ⟨_, w₁, prepared, sought⟩ := runs_bind.mp run₁
  unfold seekFrom at sought
  obtain ⟨stepvalue, w₂, looked, run₂⟩ := runs_bind.mp sought
  obtain ⟨rfl, rfl⟩ := runs_stepTbl.mp looked
  obtain ⟨found, w₃, loop, run₃⟩ := runs_bind.mp run₂
  obtain ⟨all, w₄, loaded', run₄⟩ := runs_bind.mp run₃
  obtain ⟨rfl, rfl⟩ := runs_load8.mp loaded'
  obtain ⟨_, w₅, tuned, last⟩ := runs_bind.mp run₄
  obtain ⟨rfl, rfl⟩ := runs_pure.mp last
  have prelude : Uses (Writes seekRegs updateBytes {.qndClearChannel})
      (Prog.when (w₀.globals.byte .qndAutoScanAll = 0) seekPrelude) :=
    uses_when.mpr fun _ => seekPrelude_writes
  rw [globals_kept (seekLoop_writes _ _ _ _ _ _) loop,
    byte_kept prelude prepared (by simp [updateBytes, floorBytes])] at tuned
  exact ⟨w₂, w₄, prepared, loop, tuned⟩

/-- A seek down to 0 that hears nothing anywhere does not return. -/
theorem seek_to_zero (answers : AnswersByFreq b ans) (records : RecordsCallBacks b calls)
    (prepared : Runs b.env (Prog.when (w.globals.byte .qndAutoScanAll = 0) seekPrelude) w () w₁)
    (deaf : ∀ f, acceptable ans w₁.globals db f = false) {found : UINT16} {w' : Machine κ} :
    ¬Runs b.env (qndRXSeekCH start 0 step db skip) w found w' := by
  intro run
  obtain ⟨w₂, w₃, prelude, loop, _⟩ := qndRXSeekCH_parts run
  obtain ⟨_, rfl⟩ := prepared.det prelude
  obtain ⟨n, rounds⟩ := loop.rounds
  have down : decide (start < 0) = false := decide_eq_false (Nat.not_lt_zero _)
  rw [down] at rounds
  have inside (f : UINT16) : Within false 0 f := Nat.zero_le _
  have refused (f : UINT16) : ¬acceptable ans w₁.globals db f = true := by
    rw [deaf f]
    exact Bool.false_ne_true
  have looks (x : UINT16) (w : Machine κ) (_ : Within false 0 x)
      (inv : w.globals = w₁.globals ∧ calls w.world = calls w₁.world) :=
    @seekRound_looks κ b ans calls w w₁.globals 0 x (b.stepValue step) false answers records _ inv.1
      inv.2 step db
  have trail := @Trail.iterate _ (advance false (b.stepValue step)) _ start n fun i _ => inside _
  have longer := trail.longer looks (inside _) ⟨rfl, rfl⟩
    (List.find?_eq_none.mpr fun f _ => refused f) rounds
  rw [List.length_map, List.length_range] at longer
  exact Nat.lt_irrefl n longer

end

/-- A chip whose registers always read alike, with a record of the callbacks. -/
def constantChip (answer : UINT8 → UINT8) : Board (List UINT16) where
  respond
    | .readReg adr, k => (answer adr, k)
    | .writeReg _ _, k => ((), k)
    | .copyFromUser, k => (true, k)
    | .copyToUser, k => (true, k)
    | .peek _, k => (0, k)
    | .callBack freq _, k => ((), k ++ [freq])
    | .gpioMode _ _, k => ((), k)
    | .gpioDir _ _, k => ((), k)
    | .gpioOut _ _, k => ((), k)
    | .hwPower _, k => ((), k)
    | .poke _ _, k => ((), k)
    | .getIntArrayRegion _ _ _, k => ((), k)
  beyond _ := 0

theorem constantChip_answers (answer : UINT8 → UINT8) :
    AnswersByFreq (constantChip answer) (fun _ => answer) :=
  ⟨fun _ _ _ => rfl, fun _ _ _ => rfl, fun _ _ _ _ _ => rfl⟩

theorem constantChip_records (answer : UINT8 → UINT8) :
    RecordsCallBacks (constantChip answer) id := by
  constructor
  case called => exact fun freq band k => rfl
  case other =>
    intro e k notCall
    cases e with
    | callBack freq band => exact absurd rfl (notCall freq band)
    | _ => rfl

def withCallBack : Globals := Globals.initial.set8 .qndCallBackFunc 1

/-- Nothing is heard between 76 and 77 MHz. -/
theorem quiet_band_exact : ∃ w₁, SeeksExactly (constantChip fun _ => 0) (fun _ _ => 0) id 7600 7700 1 0 0
    ⟨withCallBack, []⟩ w₁ := by
  have done : (exec (constantChip fun _ => 0).env 4 (Prog.when ((withCallBack.byte .qndAutoScanAll) = 0)
      seekPrelude) ⟨withCallBack, []⟩).map (fun r => r.2.world) = some [] := by decide +kernel
  obtain ⟨_, w₁, prepared, _⟩ := exec_observe 4 _ done
  exact ⟨w₁, (seek_exact_iff (constantChip_answers _) (constantChip_records _) (by decide)
    prepared).mpr (.inr (by decide))⟩

/-- Nothing is heard from 76 MHz down to 0: the seek does not return. -/
theorem quiet_seek_endless : ∃ w₁,
    Runs (constantChip fun _ => 0).env (Prog.when ((withCallBack.byte .qndAutoScanAll) = 0) seekPrelude)
      ⟨withCallBack, []⟩ () w₁ ∧
    (∀ found w', ¬Runs (constantChip fun _ => 0).env (qndRXSeekCH 7600 0 1 0 0) ⟨withCallBack, []⟩
      found w') ∧
    ¬SeeksExactly (constantChip fun _ => 0) (fun _ _ => 0) id 7600 0 1 0 0 ⟨withCallBack, []⟩ w₁ := by
  have done : (exec (constantChip fun _ => 0).env 4 (Prog.when ((withCallBack.byte .qndAutoScanAll) = 0)
      seekPrelude) ⟨withCallBack, []⟩).map (fun r => r.2.world) = some [] := by decide +kernel
  obtain ⟨_, w₁, prepared, _⟩ := exec_observe 4 _ done
  have deaf : ∀ f, acceptable (fun _ _ => 0) w₁.globals 0 f = false := by
    intro f
    have weak : rssiAbove 0 (w₁.globals.minRSSI f) 6 0 = false :=
      decide_eq_false (Nat.not_lt_zero _)
    rw [acceptable, weak, Bool.false_and, Bool.false_and, Bool.false_and]
  have endless (found : UINT16) (w' : Machine (List UINT16)) :
      ¬Runs (constantChip fun _ => 0).env (qndRXSeekCH 7600 0 1 0 0) ⟨withCallBack, []⟩ found w' :=
    seek_to_zero (constantChip_answers _) (constantChip_records _) prepared deaf
  refine ⟨w₁, prepared, endless, ?_⟩
  intro sought
  obtain ⟨_, found, _, w', _, _, _, run, _⟩ := sought
  exact endless found w' run

end Yika.Fm
