import Yika.Fm.RssiBands

/-! The bands of `QNF_InitRSSInBB` as a partition of the tuning range: the look-up of
`QNF_GetRSSInBandIndex`, and the windows that `QNF_UpdateRSSIn` scans, one for each band. -/

namespace Yika.Fm
open Program

/-- The steps of a band, all but the last one: a quotient that is cut to eight bits. -/
def bandSteps (leap : UINT8) (r : Range) : Nat :=
  (r.stop.toNat - r.start.toNat) / (leap.toNat * 6) % 256

/-- What `QND_TXClearChannelScan` is given for a band: its lower edge, and the upper one less a
step in sixteen bits. -/
def Globals.window (g : Globals) (leap : UINT8) (i : Nat) : UINT16 × UINT16 :=
  (g.half (.qndRSSInBB i), g.half (.qndRSSInBB (i + 1)) - leap.setWidth 16)

def InBandAt (g : Globals) (f : UINT16) (i : Nat) : Prop :=
  i < 6 ∧ g.half (.qndRSSInBB i) ≤ f ∧ f < g.half (.qndRSSInBB (i + 1))

def InWindow (g : Globals) (leap : UINT8) (f : UINT16) (i : Nat) : Prop :=
  i < 6 ∧ (g.window leap i).1 ≤ f ∧ f ≤ (g.window leap i).2

instance (g : Globals) (leap : UINT8) (f : UINT16) (i : Nat) : Decidable (InWindow g leap f i) :=
  inferInstanceAs (Decidable (_ ∧ _ ∧ _))

section
variable {leap : UINT8} {r : Range}

theorem bandSteps_fit (leap : UINT8) (r : Range) :
    6 * (bandSteps leap r * leap.toNat) ≤ r.stop.toNat - r.start.toNat := by
  have quotient := Nat.div_mul_le_self (r.stop.toNat - r.start.toNat) (leap.toNat * 6)
  have cut := Nat.mod_le ((r.stop.toNat - r.start.toNat) / (leap.toNat * 6)) 256
  calc 6 * (bandSteps leap r * leap.toNat)
      = bandSteps leap r * (leap.toNat * 6) := by rw [Nat.mul_comm, Nat.mul_assoc]
    _ ≤ (r.stop.toNat - r.start.toNat) / (leap.toNat * 6) * (leap.toNat * 6) :=
        Nat.mul_le_mul_right _ cut
    _ ≤ r.stop.toNat - r.start.toNat := quotient

theorem bandWidth_toNat (small : leap.toNat ≤ 20) (ordered : r.start ≤ r.stop) :
    (bandWidth leap r).toNat = bandSteps leap r * leap.toNat := by
  have order : r.start.toNat ≤ r.stop.toNat := ordered
  have span : (r.stop - r.start).toNat = r.stop.toNat - r.start.toNat :=
    BitVec.toNat_sub_of_le ordered
  have product : (leap * 6).toNat = leap.toNat * 6 := by
    rw [BitVec.toNat_mul, show (6 : UINT8).toNat = 6 from rfl, Nat.mod_eq_of_lt (by omega)]
  have fit := bandSteps_fit leap r
  have high := r.stop.isLt
  simp only [bandWidth, BitVec.toNat_ofNat, span, product]
  exact Nat.mod_eq_of_lt (show bandSteps leap r * leap.toNat < 2 ^ 16 by omega)

theorem innerEdge_toNat (small : leap.toNat ≤ 20) (ordered : r.start ≤ r.stop) {i : Nat}
    (inner : i ≤ 6) :
    (innerEdge leap r i).toNat = r.start.toNat + i * (bandSteps leap r * leap.toNat) := by
  have order : r.start.toNat ≤ r.stop.toNat := ordered
  have fit := bandSteps_fit leap r
  have high := r.stop.isLt
  induction i with
  | zero => simp [innerEdge]
  | succ i ih =>
    have below : i * (bandSteps leap r * leap.toNat) + bandSteps leap r * leap.toNat ≤
        6 * (bandSteps leap r * leap.toNat) := by
      rw [← Nat.succ_mul]
      exact Nat.mul_le_mul_right _ inner
    rw [innerEdge, BitVec.toNat_add, ih (by omega), bandWidth_toNat small ordered, Nat.succ_mul,
      Nat.mod_eq_of_lt (by omega), Nat.add_assoc]

/-- The edges as numbers: the first six stand evenly, the last one a step above the range. -/
def edge (leap : UINT8) (r : Range) (i : Nat) : Nat :=
  if i = 6 then r.stop.toNat + leap.toNat
  else r.start.toNat + i * (bandSteps leap r * leap.toNat)

theorem edge_inner {i : Nat} (inner : i < 6) :
    edge leap r i = r.start.toNat + i * bandSteps leap r * leap.toNat := by
  rw [edge, if_neg (by omega), Nat.mul_assoc]

/-- A range with a step of the table, below the end of the sixteen bits. -/
structure Scannable (leap : UINT8) (r : Range) : Prop where
  moves : 0 < leap.toNat
  small : leap.toNat ≤ 20
  ordered : r.start ≤ r.stop
  room : r.stop.toNat + leap.toNat ≤ 65535

theorem Scannable.edge_rises (scannable : Scannable leap r) {i : Nat} (inner : i < 6) :
    edge leap r i ≤ edge leap r (i + 1) := by
  have order : r.start.toNat ≤ r.stop.toNat := scannable.ordered
  have fit := bandSteps_fit leap r
  by_cases last : i + 1 = 6
  · have top : i * (bandSteps leap r * leap.toNat) ≤ 6 * (bandSteps leap r * leap.toNat) :=
      Nat.mul_le_mul_right _ (by omega)
    rw [edge, edge, if_neg (by omega), if_pos last]
    omega
  · rw [edge, edge, if_neg (by omega), if_neg last, Nat.succ_mul]
    omega

theorem Scannable.bandEdge_toNat (scannable : Scannable leap r) {i : Nat} (inside : i ≤ 6) :
    (bandEdge leap r i).toNat = edge leap r i := by
  have room := scannable.room
  rw [bandEdge, edge]
  split
  next =>
    rw [BitVec.toNat_add, BitVec.toNat_setWidth, Nat.mod_eq_of_lt (by omega), Nat.mod_eq_of_lt (by omega)]
  next => exact innerEdge_toNat scannable.small scannable.ordered inside

def Tabulated (g : Globals) (leap : UINT8) (r : Range) : Prop :=
  ∀ i ≤ 6, (g.half (.qndRSSInBB i)).toNat = edge leap r i

variable {g : Globals} {f : UINT16}

theorem Tabulated.band (table : Tabulated g leap r) (scannable : Scannable leap r)
    (low : r.start ≤ f) (high : f ≤ r.stop) : ∃! i, InBandAt g f i := by
  have moves := scannable.moves
  have first : (g.half (.qndRSSInBB 0)).toNat ≤ f.toNat := by
    rw [table 0 (by omega), edge_inner (by omega), Nat.zero_mul, Nat.zero_mul]
    exact low
  have last : f.toNat < (g.half (.qndRSSInBB 6)).toNat := by
    have below : f.toNat ≤ r.stop.toNat := high
    rw [table 6 (by omega), edge, if_pos rfl]
    omega
  refine @existsUnique_band Nat _ (fun i => (g.half (.qndRSSInBB i)).toNat) 6 f.toNat ?_ first last
  intro i inner
  show (g.half (.qndRSSInBB i)).toNat ≤ (g.half (.qndRSSInBB (i + 1))).toNat
  rw [table i (by omega), table (i + 1) (by omega)]
  exact scannable.edge_rises inner

/-- A channel of the grid is in a window when it is in the band, provided that a step can be taken
off the upper edge. -/
theorem Tabulated.window_iff (table : Tabulated g leap r) (scannable : Scannable leap r)
    {i k : Nat} (inner : i < 6) (channel : f.toNat = r.start.toNat + k * leap.toNat)
    (high : f ≤ r.stop) (wide : leap.toNat ≤ edge leap r (i + 1)) :
    InWindow g leap f i ↔ InBandAt g f i := by
  have upper : (g.window leap i).2.toNat = edge leap r (i + 1) - leap.toNat := by
    have small := scannable.small
    have step : (leap.setWidth 16).toNat = leap.toNat := by
      rw [BitVec.toNat_setWidth, Nat.mod_eq_of_lt (by omega)]
    have subtracts : leap.setWidth 16 ≤ g.half (.qndRSSInBB (i + 1)) := by
      show (leap.setWidth 16).toNat ≤ _
      rw [step, table (i + 1) (by omega)]
      exact wide
    rw [Globals.window, BitVec.toNat_sub_of_le subtracts, step, table (i + 1) (by omega)]
  have same : f ≤ (g.window leap i).2 ↔ f < g.half (.qndRSSInBB (i + 1)) := by
    show f.toNat ≤ (g.window leap i).2.toNat ↔ f.toNat < (g.half (.qndRSSInBB (i + 1))).toNat
    have below : f.toNat ≤ r.stop.toNat := high
    have moves := scannable.moves
    rw [upper, table (i + 1) (by omega)]
    by_cases last : i + 1 = 6
    · rw [edge, if_pos last]
      omega
    · rw [edge_inner (by omega)] at wide ⊢
      rw [channel, grid_lt_iff moves]
      omega
  exact and_congr_right fun _ => and_congr_right fun _ => same

/-- The upper edge of a band is at least a step, unless the range begins below the step and the
band has no width. -/
theorem edge_wide (sound : leap.toNat ≤ r.start.toNat ∨ bandSteps leap r ≠ 0) {i : Nat} (inner : i < 6) :
    leap.toNat ≤ edge leap r (i + 1) := by
  by_cases last : i + 1 = 6
  · rw [edge, if_pos last]
    exact Nat.le_add_left _ _
  · rw [edge_inner (by omega)]
    rcases sound with high | width
    · omega
    · have factor : 1 ≤ (i + 1) * bandSteps leap r := Nat.mul_pos (Nat.succ_pos i) (Nat.pos_of_ne_zero width)
      have product := Nat.mul_le_mul_right leap.toNat factor
      omega

/-- Every channel of the grid is in one window exactly then. -/
theorem Tabulated.windows_iff (table : Tabulated g leap r) (scannable : Scannable leap r) :
    (∀ (k : Nat) (f : UINT16), f.toNat = r.start.toNat + k * leap.toNat → f ≤ r.stop →
      ∃! i, InWindow g leap f i) ↔ leap.toNat ≤ r.start.toNat ∨ bandSteps leap r ≠ 0 := by
  constructor
  · intro windows
    by_contra narrow
    rw [not_or, Nat.not_le, not_not] at narrow
    obtain ⟨low, flat⟩ := narrow
    -- the first two bands are empty, and the steps taken off their upper edges wrap
    have first : ∀ i < 2, InWindow g leap r.start i := by
      intro i early
      have lower : (g.half (.qndRSSInBB i)).toNat = r.start.toNat := by
        rw [table i (by omega), edge_inner (by omega), flat, Nat.mul_zero, Nat.zero_mul, Nat.add_zero]
      have upper : (g.half (.qndRSSInBB (i + 1))).toNat = r.start.toNat := by
        rw [table (i + 1) (by omega), edge_inner (by omega), flat, Nat.mul_zero, Nat.zero_mul,
          Nat.add_zero]
      have small := scannable.small
      refine ⟨by omega, ?_, ?_⟩
      · show (g.half (.qndRSSInBB i)).toNat ≤ r.start.toNat
        omega
      · show r.start.toNat ≤ (g.half (.qndRSSInBB (i + 1)) - leap.setWidth 16).toNat
        rw [BitVec.toNat_sub, BitVec.toNat_setWidth, upper]
        omega
    obtain ⟨_, _, only⟩ := windows 0 r.start (by omega) scannable.ordered
    have zero := only 0 (first 0 (by omega))
    have one := only 1 (first 1 (by omega))
    omega
  · intro sound k f channel high
    have low : r.start ≤ f := by
      show r.start.toNat ≤ f.toNat
      omega
    have same : (fun i => InWindow g leap f i) = fun i => InBandAt g f i := by
      funext i
      by_cases inner : i < 6
      · exact propext (table.window_iff scannable inner channel high (edge_wide sound inner))
      · exact propext (iff_of_false (fun inside => inner inside.1) fun inside => inner inside.1)
    show ∃! i, (fun i => InWindow g leap f i) i
    rw [same]
    exact table.band scannable low high

end

section
variable {κ : Type} {b : Board κ} {w w' : Machine κ}

theorem scanBand_window {i : Nat} {scanned : UINT16 × UINT8} :
    Runs b.env (scanBand i) w scanned w' ↔
      Runs b.env (do
        let window := w.globals.window (b.stepValue (w.globals.byte .qndCHSTEP)) i
        let ch ← qndTXClearChannelScan window.1 window.2 (w.globals.byte .qndCHSTEP) 15
        let rssi ← qndGetRSSI ch
        store8 (.qndRSSIn i) rssi
        pure (ch, rssi)) w scanned w' := by
  simp only [scanBand, runs_bind, runs_load16, runs_load8, runs_stepTbl]
  simp only [Globals.window, ↓existsAndEq, true_and]

theorem TableMatches.tabulated (table : TableMatches b w.globals)
    (scannable : Scannable (b.stepValue w.globals.range.step) w.globals.range) :
    Tabulated w.globals (b.stepValue w.globals.range.step) w.globals.range := by
  intro i inside
  rw [table i inside, scannable.bandEdge_toNat inside]

theorem achieves_qnfGetRSSInBandIndex {f : UINT16} (low : w.globals.half (.qndRSSInBB 0) ≤ f)
    (high : f < w.globals.half (.qndRSSInBB 6)) :
    Achieves b.env (qnfGetRSSInBandIndex f)
      (fun index w' => w' = w ∧ InBandAt w.globals f index.toNat) w := by
  apply (achieves_bandIndexFrom QND_BAND_NUM 0 (by decide)).mono
  intro index w' looked
  obtain ⟨rfl, same⟩ := looked
  obtain ⟨i, found, band⟩ := @find_band Nat _ (fun i => (w'.globals.half (.qndRSSInBB i)).toNat) 6
    f.toNat low high
  rw [← List.range_eq_range'] at same
  have index' : index.toNat = i := same.trans (congrArg (·.getD 0) found)
  rw [index']
  exact ⟨rfl, band⟩

/-- What `QNF_InitRSSInBB` makes of the range: rising edges from its start to a step above its
stop, one band for each frequency, which the look-up returns. -/
structure Partitioned (b : Board κ) (w : Machine κ) : Prop where
  rises : ∀ i < 6, w.globals.half (.qndRSSInBB i) ≤ w.globals.half (.qndRSSInBB (i + 1))
  first : w.globals.half (.qndRSSInBB 0) = w.globals.range.start
  last : (w.globals.half (.qndRSSInBB 6)).toNat =
    w.globals.range.stop.toNat + (b.stepValue w.globals.range.step).toNat
  lookup : ∀ f, w.globals.range.start ≤ f → f ≤ w.globals.range.stop →
    Achieves b.env (qnfGetRSSInBandIndex f) (fun index w' => w' = w ∧
      InBandAt w.globals f index.toNat ∧ ∀ i, InBandAt w.globals f i → i = index.toNat) w

theorem Tabulated.partitioned
    (scannable : Scannable (b.stepValue w.globals.range.step) w.globals.range)
    (table : Tabulated w.globals (b.stepValue w.globals.range.step) w.globals.range) :
    Partitioned b w := by
  have first : w.globals.half (.qndRSSInBB 0) = w.globals.range.start := by
    apply BitVec.eq_of_toNat_eq
    rw [table 0 (by omega), edge_inner (by omega), Nat.zero_mul, Nat.zero_mul, Nat.add_zero]
  have last : (w.globals.half (.qndRSSInBB 6)).toNat =
      w.globals.range.stop.toNat + (b.stepValue w.globals.range.step).toNat := by
    rw [table 6 (by omega), edge, if_pos rfl]
  constructor
  case rises =>
    intro i inner
    show (w.globals.half (.qndRSSInBB i)).toNat ≤ (w.globals.half (.qndRSSInBB (i + 1))).toNat
    rw [table i (by omega), table (i + 1) (by omega)]
    exact scannable.edge_rises inner
  case first => exact first
  case last => exact last
  case lookup =>
    intro f low high
    have below : f.toNat ≤ w.globals.range.stop.toNat := high
    have moves := scannable.moves
    have above : f < w.globals.half (.qndRSSInBB 6) := by
      show f.toNat < (w.globals.half (.qndRSSInBB 6)).toNat
      omega
    apply (achieves_qnfGetRSSInBandIndex (first ▸ low) above).mono
    intro index w' found
    obtain ⟨rfl, band⟩ := found
    exact ⟨rfl, band, fun i other => (table.band scannable low high).unique other band⟩

/-- For every range and step in the bounds of the table: the bands partition the range, and every
channel of its grid is in exactly one of the windows that are scanned exactly when the range does
not begin below a step or the bands have a width. -/
theorem bands_partition (b : Board κ) (w : Machine κ)
    (ordered : w.globals.range.start ≤ w.globals.range.stop)
    (index : w.globals.range.step.toNat < 3)
    (room : w.globals.range.stop.toNat + (qndStepTbl w.globals.range.step.toNat).toNat ≤ 65535) :
    Achieves b.env qnfInitRSSInBB (fun _ w' => w'.globals.range = w.globals.range ∧
      Partitioned b w' ∧
      ((∀ (k : Nat) (f : UINT16),
        f.toNat = w.globals.range.start.toNat + k * (qndStepTbl w.globals.range.step.toNat).toNat →
        f ≤ w.globals.range.stop →
        ∃! i, InWindow w'.globals (qndStepTbl w.globals.range.step.toNat) f i) ↔
      (qndStepTbl w.globals.range.step.toNat).toNat ≤ w.globals.range.start.toNat ∨
        bandSteps (qndStepTbl w.globals.range.step.toNat) w.globals.range ≠ 0)) w := by
  apply achieves_qnfInitRSSInBB.mono
  intro _ w' built
  obtain ⟨range, table⟩ := built
  have step : b.stepValue w.globals.range.step = qndStepTbl w.globals.range.step.toNat :=
    stepValue_inside b index
  obtain ⟨moves, small⟩ := stepTbl_bounds w.globals.range.step.toNat
  have scannable : Scannable (b.stepValue w'.globals.range.step) w'.globals.range := by
    rw [range, step]
    exact ⟨moves, small, ordered, room⟩
  have tabulated := table.tabulated scannable
  refine ⟨range, tabulated.partitioned scannable, ?_⟩
  rw [range, step] at tabulated scannable
  exact tabulated.windows_iff scannable

end

/-- The table of China, at boot. -/
theorem china_partitioned : Achieves system1Chip.env qnfInitRSSInBB
    (fun _ w' => Partitioned system1Chip w' ∧ ∀ (k : Nat) (f : UINT16), f.toNat = 7600 + k * 10 →
      f ≤ 10800 → ∃! i, InWindow w'.globals 10 f i) ⟨Globals.initial, 0⟩ := by
  apply (bands_partition system1Chip ⟨Globals.initial, 0⟩ (by decide) (by decide) (by decide)).mono
  intro _ w' given
  exact ⟨given.2.1, given.2.2.mpr (.inl (by decide))⟩

/-- A range of 500 kHz from 0 on. -/
def lowRange : Globals := (Globals.initial.set16 .qndCHSTART 0).set16 .qndCHSTOP 50

/-- The first channel is in the windows of the first two bands, both from 0 to 65526. -/
theorem low_range_scanned_twice : ∃ w', Runs system1Chip.env qnfInitRSSInBB ⟨lowRange, 0⟩ () w' ∧
    lowRange.range.start ≤ lowRange.range.stop ∧ ¬∃! i, InWindow w'.globals 10 0 i := by
  have built : (exec system1Chip.env 1 qnfInitRSSInBB ⟨lowRange, 0⟩).map (fun r =>
      decide (InWindow r.2.globals 10 0 0 ∧ InWindow r.2.globals 10 0 1)) = some true := by decide
  obtain ⟨_, w', run, inside⟩ := exec_observe 1 _ built
  have twice := of_decide_eq_true inside
  refine ⟨w', run, by decide, fun unique => ?_⟩
  exact absurd (unique.unique twice.1 twice.2) (by decide)

end Yika.Fm
