import Yika.Fm.WorkingMode
import Yika.Program.Order

/-! The RSSI band table `qnd_RSSInBB`. INIT derives it from the range of the country, and
SET_COUNTRY changes the range alone: at every look at the table it is the one of the range
that was in force at the last INIT. -/

namespace Yika.Fm
open Program

/-- `qnd_CH_START`, `qnd_CH_STOP` and the index `qnd_CH_STEP`. -/
structure Range where
  start : UINT16
  stop : UINT16
  step : UINT8
  deriving DecidableEq

def Globals.range (g : Globals) : Range := ⟨g.half .qndCHSTART, g.half .qndCHSTOP, g.byte .qndCHSTEP⟩

/-- The increment of the inner band edges. -/
def bandWidth (leap : UINT8) (r : Range) : UINT16 :=
  let d : UINT8 := BitVec.ofNat 8 ((r.stop - r.start).toNat / (leap * 6).toNat)
  BitVec.ofNat 16 (d.toNat * leap.toNat)

def innerEdge (leap : UINT8) (r : Range) : Nat → UINT16
  | 0 => r.start
  | i + 1 => innerEdge leap r i + bandWidth leap r

/-- The table `QNF_InitRSSInBB` builds for a range. -/
def bandEdge (leap : UINT8) (r : Range) (i : Nat) : UINT16 :=
  if i = 6 then r.stop + leap.setWidth 16 else innerEdge leap r i

/-- The seven entries of the table are those of the current range. -/
def TableMatches {κ : Type} (b : Board κ) (g : Globals) : Prop :=
  ∀ i ≤ 6, g.half (.qndRSSInBB i) = bandEdge (b.stepValue g.range.step) g.range i

/-- Every channel of the current range falls in exactly one band. -/
def OneBandEach (g : Globals) : Prop :=
  ∀ ch, g.range.start ≤ ch → ch ≤ g.range.stop →
    ∃! i, i < 6 ∧ g.half (.qndRSSInBB i) ≤ ch ∧ ch < g.half (.qndRSSInBB (i + 1))

/-- The first band whose upper edge is above the frequency, or band 0. -/
def Globals.band (g : Globals) (f : UINT16) : Nat :=
  ((List.range QND_BAND_NUM).find? fun i => decide (f < g.half (.qndRSSInBB (i + 1)))).getD 0

def Globals.minRSSI (g : Globals) (f : UINT16) : UINT8 := g.byte (.qndRSSIn (g.band f))

section
variable {κ : Type} {b : Board κ} {w w' : Machine κ}

theorem achieves_bandIndexFrom {f : UINT16} (left i : Nat) (small : left + i ≤ 256) :
    Achieves b.env (bandIndexFrom f left i) (fun index w' => w' = w ∧ index.toNat =
      ((List.range' i left).find? fun i => decide (f < w.globals.half (.qndRSSInBB (i + 1)))).getD 0)
      w := by
  induction left generalizing i with
  | zero => simp [bandIndexFrom]
  | succ left ih =>
    simp only [bandIndexFrom, achieves_bind, achieves_load16, List.range'_succ]
    by_cases below : f < w.globals.half (.qndRSSInBB (i + 1))
    · rw [if_pos below, List.find?_cons_of_pos (by simpa using below), achieves_pure]
      have fits : (BitVec.ofNat 8 i).toNat = i := by
        rw [BitVec.toNat_ofNat]
        omega
      exact ⟨rfl, fits⟩
    · rw [if_neg below, List.find?_cons_of_neg (by simpa using below)]
      exact ih (i + 1) (by omega)

theorem achieves_qnfGetRSSIn {f : UINT16} :
    Achieves b.env (qnfGetRSSIn f) (fun floor w' => w' = w ∧ floor = w.globals.minRSSI f) w := by
  simp only [qnfGetRSSIn, qnfGetRSSInBandIndex, achieves_bind, achieves_load8]
  apply (achieves_bandIndexFrom QND_BAND_NUM 0 (by decide)).mono
  intro index w' looked
  obtain ⟨rfl, same⟩ := looked
  rw [same, ← List.range_eq_range']
  exact ⟨rfl, rfl⟩

theorem achieves_qnfInitRSSInBB :
    Achieves b.env qnfInitRSSInBB (fun _ w' => w'.globals.range = w.globals.range ∧
      TableMatches b w'.globals) w := by
  let leap := b.stepValue w.globals.range.step
  let built (i : Nat) (w₁ : Machine κ) : Prop := w₁.globals.range = w.globals.range ∧
    ∀ j < i, w₁.globals.half (.qndRSSInBB j) = innerEdge leap w.globals.range j
  have edge : ∀ i w₁, 1 ≤ i → i < 1 + 5 → built i w₁ →
      Achieves b.env (initRSSInBBEdge (BitVec.ofNat 8 ((w.globals.range.stop -
        w.globals.range.start).toNat / (leap * 6).toNat)) leap i) (fun _ w' => built (i + 1) w') w₁ := by
    intro i w₁ low _ given
    obtain ⟨range, below⟩ := given
    simp only [initRSSInBBEdge, achieves_bind, achieves_load16, achieves_store16]
    refine ⟨by simpa [Globals.range] using range, fun j bound => ?_⟩
    rw [set16_half]
    by_cases last : j = i
    · subst last
      rw [if_pos rfl, below (j - 1) (by omega)]
      obtain ⟨k, rfl⟩ : ∃ k, j = k + 1 := ⟨j - 1, by omega⟩
      rfl
    · rw [if_neg (by simpa using last)]
      exact below j (by omega)
  simp only [qnfInitRSSInBB, achieves_bind, achieves_load8, achieves_load16, achieves_stepTbl,
    achieves_store16]
  have first : built 1 { w with globals := w.globals.set16 (.qndRSSInBB 0) (w.globals.half .qndCHSTART) } := by
    refine ⟨by simp [Globals.range], fun j bound => ?_⟩
    obtain rfl : j = 0 := by omega
    simp [innerEdge, Globals.range]
  refine (achieves_forRange built edge first).mono ?_
  intro _ w₁ given
  obtain ⟨range, inner⟩ := given
  have same (last : UINT16) : (w₁.globals.set16 (.qndRSSInBB 6) last).range = w.globals.range := by
    simpa [Globals.range] using range
  refine ⟨same _, fun i bound => ?_⟩
  rw [set16_half, same, bandEdge]
  by_cases last : i = 6
  · subst last
    have stop : w₁.globals.half .qndCHSTOP = w.globals.half .qndCHSTOP := congrArg Range.stop range
    rw [if_pos rfl, if_pos rfl, stop]
    rfl
  · rw [if_neg (by simpa using last), if_neg last]
    exact inner i (by omega)

theorem qnfInitRSSInBB_table :
    Ensures b.env qnfInitRSSInBB (fun _ w' => w'.globals.range = w.globals.range ∧
      TableMatches b w'.globals) w := achieves_qnfInitRSSInBB.ensures

theorem qndInit_table :
    Ensures b.env qndInit (fun _ w' => w'.globals.range = w.globals.range ∧
      TableMatches b w'.globals) w := by
  simp only [qndInit, ensures_bind]
  intro _ w₁ chip _ w₂ muted
  have globals₂ : w₂.globals = w.globals := by
    rw [globals_kept (qnfSetMute_writes true) muted, globals_kept qnChipInitialization_writes chip]
  rw [← globals₂]
  refine qnfInitRSSInBB_table.mono ?_
  intro _ w₃ given
  obtain ⟨range, table⟩ := given
  simp only [ensures_writeReg, ensures_pure]
  intro _ w₄ unmuted
  rw [globals_kept (qnfSetMute_writes false) unmuted]
  exact ⟨range, table⟩

end

/-! The two countries. -/

/-- The ranges the driver starts with and SET_COUNTRY sets. -/
def countryRanges : List Range := [⟨7600, 10800, 1⟩, ⟨8810, 10790, 2⟩]

/-- The table tells the ranges apart by their first edge. -/
theorem bandEdge_injective {leap leap' : UINT8} {r r' : Range} (country : r ∈ countryRanges)
    (country' : r' ∈ countryRanges) (same : ∀ i ≤ 6, bandEdge leap r i = bandEdge leap' r' i) :
    r = r' := by
  have first : r.start = r'.start := same 0 (by decide)
  simp only [countryRanges, List.mem_cons, List.not_mem_nil, or_false] at country country'
  rcases country with rfl | rfl
  · rcases country' with rfl | rfl
    · rfl
    · exact absurd first (by decide)
  · rcases country' with rfl | rfl
    · exact absurd first (by decide)
    · rfl

section
variable {κ : Type} {b : Board κ} {w w' : Machine κ} {cmd : Ioctl}

/-- In the table of a country every channel of the country has one band. -/
theorem oneBandEach {g : Globals} (country : g.range ∈ countryRanges) (table : TableMatches b g) :
    OneBandEach g := by
  intro ch above below
  have edges : ∀ r ∈ countryRanges, r.step.toNat < 3 ∧
      (∀ i < 6, bandEdge (qndStepTbl r.step.toNat) r i < bandEdge (qndStepTbl r.step.toNat) r (i + 1)) ∧
      bandEdge (qndStepTbl r.step.toNat) r 0 = r.start ∧
      r.stop < bandEdge (qndStepTbl r.step.toNat) r 6 := by
    decide
  obtain ⟨inside, rises, first, last⟩ := edges g.range country
  rw [TableMatches, stepValue_inside b inside] at table
  have low : g.half (.qndRSSInBB 0) ≤ ch := by rwa [table 0 (by decide), first]
  have high : ch < g.half (.qndRSSInBB 6) := by
    rw [table 6 (by decide)]
    exact Nat.lt_of_le_of_lt below last
  have climbs : ∀ i < 6, g.half (.qndRSSInBB i) < g.half (.qndRSSInBB (i + 1)) := by
    intro i bound
    rw [table i (by omega), table (i + 1) (by omega)]
    exact rises i bound
  exact @existsUnique_band Nat _ (fun i => (g.half (.qndRSSInBB i)).toNat) 6 ch.toNat
    (fun i bound => Nat.le_of_lt (climbs i bound)) low high

theorem qndSetCountry_range (country : UINT8) :
    Ensures b.env (qndSetCountry country) (fun _ w' =>
      w'.globals.range = w.globals.range ∨ w'.globals.range ∈ countryRanges) w := by
  simp only [qndSetCountry, ensures_bind, ensures_store8, ensures_store16, ensures_ite, ensures_when]
  refine ⟨fun _ => .inr ?_, fun _ => ⟨fun _ => .inr ?_, fun _ => .inl ?_⟩⟩
  · simp [Globals.range, countryRanges]
  · simp [Globals.range, countryRanges]
  · simp [Globals.range]

theorem IoctlStep.range_kept (step : IoctlStep b w cmd w')
    (other : ∀ country, cmd ≠ .setCountry country) : w'.globals.range = w.globals.range := by
  have start : Var16.qndCHSTART ∉ cmd.halves := by
    cases cmd <;> simp_all [Ioctl.halves, scanAllHalves]
  have stop : Var16.qndCHSTOP ∉ cmd.halves := by
    cases cmd <;> simp_all [Ioctl.halves, scanAllHalves]
  have index : Var8.qndCHSTEP ∉ cmd.bytes := by
    cases cmd <;> simp_all [Ioctl.bytes, scanAllBytes, updateBytes, floorBytes]
  rw [Globals.range, step.half_kept start, step.half_kept stop, step.byte_kept index]
  rfl

theorem IoctlStep.country (step : IoctlStep b w cmd w') (country : w.globals.range ∈ countryRanges) :
    w'.globals.range ∈ countryRanges := by
  cases cmd with
  | setCountry value =>
    obtain ⟨stackPower, reply, run⟩ := step
    have whole : Ensures b.env (qn8006UnlockedIoctl stackPower (.setCountry value))
        (fun _ w' => w'.globals.range ∈ countryRanges) w := by
      simp only [qn8006UnlockedIoctl, ensures_fromUser, ensures_bind, ensures_pure]
      split
      next =>
        refine (qndSetCountry_range _).mono fun _ w₁ set => ?_
        rcases set with same | set
        · rw [same]
          exact country
        · exact set
      next => exact country
    exact whole reply w' run
  | _ =>
    rw [step.range_kept (fun _ same => by cases same)]
    exact country

/-- A look at the band table sees the table and the range the command started with. -/
theorem consult_kept {stackPower : INT} {i : Nat} (later : cmd ≠ .init)
    (consult : Visits b.env (qn8006UnlockedIoctl stackPower cmd) w (.load16 (.qndRSSInBB i)) w') :
    (∀ j, w'.globals.half (.qndRSSInBB j) = w.globals.half (.qndRSSInBB j)) ∧
      w'.globals.range = w.globals.range := by
  have uses := qn8006UnlockedIoctl_writes stackPower cmd
  have edge (j : Nat) : Var16.qndRSSInBB j ∉ cmd.halves := by
    cases cmd <;> simp_all [Ioctl.halves, scanAllHalves]
  refine ⟨fun j => half_visited uses consult (edge j), ?_⟩
  by_cases country : ∃ value, cmd = .setCountry value
  · obtain ⟨value, rfl⟩ := country
    have blind : Uses (fun o : FmOp => o ≠ .load16 (.qndRSSInBB i))
        (qn8006UnlockedIoctl stackPower (.setCountry value)) := by
      simp [qn8006UnlockedIoctl, fromUser, qndSetCountry]
    exact absurd rfl (blind.visits_allowed consult)
  · have start : Var16.qndCHSTART ∉ cmd.halves := by
      cases cmd <;> simp_all [Ioctl.halves, scanAllHalves]
    have stop : Var16.qndCHSTOP ∉ cmd.halves := by
      cases cmd <;> simp_all [Ioctl.halves, scanAllHalves]
    have index : Var8.qndCHSTEP ∉ cmd.bytes := by
      cases cmd <;> simp_all [Ioctl.bytes, scanAllBytes, updateBytes, floorBytes]
    rw [Globals.range, half_visited uses consult start, half_visited uses consult stop,
      byte_visited uses consult index]
    rfl

theorem table_kept {cmds : List Ioctl} (path : Path (IoctlStep b) w cmds w')
    (noInit : Ioctl.init ∉ cmds) (i : Nat) :
    w'.globals.half (.qndRSSInBB i) = w.globals.half (.qndRSSInBB i) := by
  induction path with
  | nil => rfl
  | @cons w w₁ w' cmd cmds step _ ih =>
    have later : cmd ≠ .init := fun same => noInit (by simp [same])
    have edge : Var16.qndRSSInBB i ∉ cmd.halves := by
      cases cmd <;> simp_all [Ioctl.halves, scanAllHalves]
    rw [ih (fun inside => noInit (List.mem_cons_of_mem cmd inside)), step.half_kept edge]

theorem country_session {cmds : List Ioctl} (path : Path (IoctlStep b) w cmds w')
    (country : w.globals.range ∈ countryRanges) : w'.globals.range ∈ countryRanges :=
  path.invariant (fun _ _ _ country step => step.country country) country

theorem IoctlStep.init_table (step : IoctlStep b w .init w') :
    w'.globals.range = w.globals.range ∧ TableMatches b w'.globals := by
  obtain ⟨stackPower, reply, run⟩ := step
  obtain ⟨_, w₁, ran, last⟩ := runs_bind.mp run
  obtain ⟨_, rfl⟩ := runs_pure.mp last
  exact qndInit_table _ w' ran

/-- At every look at the band table after INIT, the table is the one of the current range,
with one band for each of its channels, exactly when the current range is the one that the
last INIT found. -/
theorem consult_matches_iff {w₁ w₂ w₃ w₄ : Machine κ} {before after : List Ioctl}
    {stackPower : INT} {i : Nat} (booted : w.globals = Globals.initial)
    (start : Path (IoctlStep b) w before w₁) (init : IoctlStep b w₁ .init w₂)
    (rest : Path (IoctlStep b) w₂ after w₃) (lastInit : Ioctl.init ∉ after) (later : cmd ≠ .init)
    (consult : Visits b.env (qn8006UnlockedIoctl stackPower cmd) w₃
      (.load16 (.qndRSSInBB i)) w₄) :
    (TableMatches b w₄.globals ∧ OneBandEach w₄.globals) ↔ w₃.globals.range = w₁.globals.range := by
  obtain ⟨range₂, table₂⟩ := init.init_table
  obtain ⟨table₄, range₄⟩ := consult_kept later consult
  have boot : w.globals.range ∈ countryRanges := by rw [booted]; decide
  have country₁ := country_session start boot
  have country₃ : w₃.globals.range ∈ countryRanges :=
    country_session rest (range₂ ▸ country₁)
  have seen (j : Nat) : w₄.globals.half (.qndRSSInBB j) = w₂.globals.half (.qndRSSInBB j) :=
    (table₄ j).trans (table_kept rest lastInit j)
  constructor
  · intro given
    obtain ⟨found, _⟩ := given
    have edges : ∀ j ≤ 6, bandEdge (b.stepValue w₄.globals.range.step) w₄.globals.range j =
        bandEdge (b.stepValue w₂.globals.range.step) w₂.globals.range j := by
      intro j bound
      rw [← found j bound, seen j, table₂ j bound]
    rw [range₄, range₂] at edges
    exact bandEdge_injective country₃ country₁ edges
  · intro same
    have found : TableMatches b w₄.globals := by
      intro j bound
      rw [seen j, table₂ j bound, range₄, same, range₂]
    exact ⟨found, oneBandEach (range₄ ▸ country₃) found⟩

end

/-- The globals after INIT in the initial range, and after SET_COUNTRY 1 on top of it. -/
def tableOfChina : Globals :=
  ((((((Globals.initial.set16 (.qndRSSInBB 0) 7600).set16 (.qndRSSInBB 1) 8130).set16
    (.qndRSSInBB 2) 8660).set16 (.qndRSSInBB 3) 9190).set16 (.qndRSSInBB 4) 9720).set16
    (.qndRSSInBB 5) 10250).set16 (.qndRSSInBB 6) 10810

def rangeOfUsa : Globals :=
  (((tableOfChina.set8 .qndCountry 1).set16 .qndCHSTART 8810).set16 .qndCHSTOP 10790).set8
    .qndCHSTEP 2

theorem init_china : Runs system1Chip.env (qn8006UnlockedIoctl 0 .init) ⟨Globals.initial, 0⟩ .done
    ⟨tableOfChina, 0x01⟩ := exec_runs 1 rfl

/-- A seek straight after INIT. -/
theorem fresh_table : TableMatches system1Chip tableOfChina ∧ OneBandEach tableOfChina := by
  have consult : Visits system1Chip.env (qn8006UnlockedIoctl 0 (.rxseekch ⟨7600, 10800, 1, 0, 0, 0⟩))
      ⟨tableOfChina, 0x01⟩ (.load16 (.qndRSSInBB 0)) ⟨tableOfChina, 0x01⟩ :=
    .op (.op (.op (.op (.op (.op (.op (.op (.op (.op .here)))))))))
  exact (consult_matches_iff rfl (.nil _) ⟨0, _, init_china⟩ (.nil _) (by decide) (by decide)
    consult).mpr rfl

/-- INIT, SET_COUNTRY 1, seek: the seek looks up the bands of the old range. -/
theorem stale_table : ∃ w₄ : Machine UINT8,
    IoctlStep system1Chip ⟨Globals.initial, 0⟩ .init ⟨tableOfChina, 0x01⟩ ∧
    IoctlStep system1Chip ⟨tableOfChina, 0x01⟩ (.setCountry 1) ⟨rangeOfUsa, 0x01⟩ ∧
    Visits system1Chip.env (qn8006UnlockedIoctl 0 (.rxseekch ⟨8810, 10790, 2, 0, 0, 0⟩))
      ⟨rangeOfUsa, 0x01⟩ (.load16 (.qndRSSInBB 0)) w₄ ∧
    ¬TableMatches system1Chip w₄.globals := by
  have country : Runs system1Chip.env (qn8006UnlockedIoctl 0 (.setCountry 1)) ⟨tableOfChina, 0x01⟩
      .done ⟨rangeOfUsa, 0x01⟩ := exec_runs 1 rfl
  have consult : Visits system1Chip.env (qn8006UnlockedIoctl 0 (.rxseekch ⟨8810, 10790, 2, 0, 0, 0⟩))
      ⟨rangeOfUsa, 0x01⟩ (.load16 (.qndRSSInBB 0)) ⟨rangeOfUsa, 0x01⟩ :=
    .op (.op (.op (.op (.op (.op (.op (.op (.op (.op .here)))))))))
  refine ⟨_, ⟨0, _, init_china⟩, ⟨0, _, country⟩, consult, ?_⟩
  intro found
  exact absurd (found 0 (by decide)) (by decide)

end Yika.Fm
