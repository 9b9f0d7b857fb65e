import Yika.Fm.Requests
import Yika.Program.Order

/-! The cached noise floor: `qnd_RSSIns` and `qnd_ClearChannel`. A rescan only ever lowers
the pair, so it describes the readings just taken unless they have all risen above it. -/

namespace Yika.Fm
open Program

def Globals.floor (g : Globals) : UINT16 × UINT8 := (g.half .qndClearChannel, g.byte .qndRSSIns)

def level (entry : UINT16 × UINT8) : Nat := entry.2.toNat

/-- `qnd_RSSIns` is the minimum of the six readings, and `qnd_ClearChannel` is the channel
that the rescan found for a band attaining it. -/
structure FloorCurrent (measured : List (UINT16 × UINT8)) (g : Globals) : Prop where
  lowest : ∀ i < 6, g.byte .qndRSSIns ≤ g.byte (.qndRSSIn i)
  attained : ∃ i < 6, g.byte (.qndRSSIn i) = g.byte .qndRSSIns ∧
    (measured[i]?).map Prod.fst = some (g.half .qndClearChannel)

section
variable {κ : Type} {b : Board κ} {w : Machine κ}

theorem scanBand_stores (i : Nat) :
    Ensures b.env (scanBand i) (fun scanned w' => w'.globals.byte (.qndRSSIn i) = scanned.2) w := by
  simp only [scanBand, ensures_bind, ensures_load16, ensures_load8, ensures_stepTbl, ensures_store8,
    ensures_pure]
  intro ch w₁ _ rssi w₂ _
  simp

/-- One turn of the rescan keeps the lower of the floor and the new entry. -/
theorem rescanBand_floor (i : Nat) :
    Ensures b.env (rescanBand i) (fun scanned w' =>
      w'.globals.byte (.qndRSSIn i) = scanned.2 ∧
      w'.globals.floor = keepLower level w.globals.floor scanned) w := by
  simp only [rescanBand, ensures_bind, ensures_load8, ensures_when, ensures_store8, ensures_store16,
    ensures_pure]
  intro scanned w₁ scan
  have stored := scanBand_stores i scanned w₁ scan
  have kept : w₁.globals.floor = w.globals.floor := by
    rw [Globals.floor, half_kept (scanBand_writes i) scan (by simp),
      byte_kept (scanBand_writes i) scan (by simp)]
    rfl
  rw [← kept, stored]
  constructor
  · intro lower
    have lowerLevel : level scanned < level w₁.globals.floor := lower
    rw [keepLower, if_pos lowerLevel]
    simp [Globals.floor, stored]
  · intro higher
    have higherLevel : ¬level scanned < level w₁.globals.floor := higher
    rw [keepLower, if_neg higherLevel]
    exact ⟨rfl, rfl⟩

/-- The later turns leave the readings of the earlier ones alone. -/
theorem rescanBands_below (left : Nat) {i j : Nat} (below : j < i) :
    Keeps b.env (fun w => w.globals.byte (.qndRSSIn j)) (rescanBands left i) := by
  induction left generalizing i with
  | zero => exact keeps_pure _
  | succ left ih =>
    have turn : Keeps b.env (fun w => w.globals.byte (.qndRSSIn j)) (rescanBand i) := by
      intro w scanned w' run
      have other : j ≠ i := by omega
      exact byte_kept (rescanBand_writes i) run (by simpa using other)
    exact turn.bind fun scanned => (ih (by omega)).bind fun rest => keeps_pure _

theorem rescanBands_floor (left i : Nat) :
    Ensures b.env (rescanBands left i) (fun measured w' =>
      measured.length = left ∧
      (∀ k < left, measured[k]?.map Prod.snd = some (w'.globals.byte (.qndRSSIn (i + k)))) ∧
      w'.globals.floor = lowest level w.globals.floor measured) w := by
  induction left generalizing i w with
  | zero =>
    rw [rescanBands, ensures_pure]
    exact ⟨rfl, fun k bound => by omega, rfl⟩
  | succ left ih =>
    simp only [rescanBands, ensures_bind, ensures_pure]
    intro scanned w₁ first rest w₂ later
    obtain ⟨stored, floor₁⟩ := rescanBand_floor i scanned w₁ first
    obtain ⟨count, stored₂, floor₂⟩ := ih (i + 1) rest w₂ later
    refine ⟨by rw [List.length_cons, count], fun k bound => ?_, ?_⟩
    · cases k with
      | zero =>
        have kept : w₂.globals.byte (.qndRSSIn i) = w₁.globals.byte (.qndRSSIn i) :=
          rescanBands_below left (Nat.lt_succ_self i) w₁ rest w₂ later
        rw [Nat.add_zero, kept, stored]
        rfl
      | succ k =>
        rw [List.getElem?_cons_succ, stored₂ k (by omega)]
        congr 3
        omega
    · rw [floor₂, floor₁, lowest_cons]

/-- A rescan stores what it measured, and its floor is the lowest of the old floor and of
the new entries. -/
theorem rescan_floor :
    Ensures b.env rescan (fun measured w' =>
      measured.length = QND_BAND_NUM ∧
      (∀ i < QND_BAND_NUM, measured[i]?.map Prod.snd = some (w'.globals.byte (.qndRSSIn i))) ∧
      w'.globals.floor = lowest level w.globals.floor measured) w := by
  simp only [rescan, ensures_bind, ensures_readReg]
  refine (rescanBands_floor QND_BAND_NUM 0).mono ?_
  intro measured w₁ scanned
  simp only [ensures_writeReg, ensures_pure, after_globals]
  simpa only [Nat.zero_add, after_globals] using scanned

/-! When the floor describes the readings. -/

/-- Some reading is lower than the old floor, or a band found the old clear channel with the
old floor as its reading. -/
def FloorReached (measured : List (UINT16 × UINT8)) (g : Globals) : Prop :=
  (∃ entry ∈ measured, entry.2 < g.byte .qndRSSIns) ∨
    (g.half .qndClearChannel, g.byte .qndRSSIns) ∈ measured

/-- With the readings stored, the floor is current when it is one of the entries. -/
theorem floorCurrent_iff_mem {measured : List (UINT16 × UINT8)} {g : Globals}
    (count : measured.length = QND_BAND_NUM)
    (stored : ∀ i < QND_BAND_NUM, measured[i]?.map Prod.snd = some (g.byte (.qndRSSIn i)))
    (low : ∀ entry ∈ measured, level g.floor ≤ level entry) :
    FloorCurrent measured g ↔ g.floor ∈ measured := by
  constructor
  · intro current
    obtain ⟨i, bound, least, channel⟩ := current.attained
    have reading := stored i bound
    rw [least] at reading
    obtain ⟨entry, here, first⟩ := Option.map_eq_some_iff.mp channel
    rw [here, Option.map_some, Option.some.injEq] at reading
    have same : entry = g.floor := Prod.ext first reading
    exact List.mem_of_getElem? (same ▸ here)
  · intro inside
    constructor
    case lowest =>
      intro i bound
      obtain ⟨entry, here, reading⟩ := Option.map_eq_some_iff.mp (stored i bound)
      rw [← reading]
      exact low entry (List.mem_of_getElem? here)
    case attained =>
      obtain ⟨i, here⟩ := List.getElem?_of_mem inside
      have bound : i < QND_BAND_NUM := by
        rw [← count]
        exact (List.getElem?_eq_some_iff.mp here).1
      have reading := stored i bound
      rw [here] at reading
      refine ⟨i, bound, (Option.some.inj reading).symm, ?_⟩
      rw [here]
      rfl

theorem rescan_current_iff :
    Ensures b.env rescan (fun measured w' =>
      FloorCurrent measured w'.globals ↔ FloorReached measured w.globals) w := by
  refine rescan_floor.mono ?_
  intro measured w' described
  obtain ⟨count, stored, floor⟩ := described
  have low := (lowest_le level w.globals.floor measured).2
  rw [← floor] at low
  rw [floorCurrent_iff_mem count stored low, floor, lowest_mem_iff]
  rfl

/-! The update after a rescan. -/

/-- A look at the band table: what a rescan does, and the look at the clear channel does not. -/
def LooksUpBands (o : FmOp) : Prop := ∃ i, o = .load16 (.qndRSSInBB i)

/-- The RSSI of the clear channel is what it was during the rescan. -/
def Steady (b : Board κ) (measured : List (UINT16 × UINT8)) (w : Machine κ) : Prop :=
  Ensures b.env (qndGetRSSI (w.globals.half .qndClearChannel)) (fun temp _ =>
    ∀ entry ∈ measured, entry.1 = w.globals.half .qndClearChannel → temp = entry.2) w

theorem qndGetRSSI_avoids (ch : UINT16) : Uses (fun o => ¬LooksUpBands o) (qndGetRSSI ch) := by
  simp [qndGetRSSI, qndSetSysMode, setWorkingMode, qnfSetMute, qnfSetRegBit, qnfSetCh, LooksUpBands]

theorem checkClearChannel_avoids : Uses (fun o => ¬LooksUpBands o) checkClearChannel := by
  simp only [checkClearChannel, uses_load16_bind]
  refine ⟨by simp [LooksUpBands], fun clear => uses_bind (qndGetRSSI_avoids clear) fun temp => ?_⟩
  simp [LooksUpBands]

/-- With the floor at the reading of the clear channel, the look at it clears the flag. -/
theorem checkClearChannel_quiet
    (same : Ensures b.env (qndGetRSSI (w.globals.half .qndClearChannel))
      (fun temp _ => temp = w.globals.byte .qndRSSIns) w) :
    Ensures b.env checkClearChannel (fun _ w' => w'.globals.byte .qndClearScanFlag = 0 ∧
      w'.globals.byte .qndFirstScan = w.globals.byte .qndFirstScan) w := by
  simp only [checkClearChannel, ensures_bind, ensures_load16]
  intro temp w₁ run
  have globals₁ := globals_kept (qndGetRSSI_writes _) run
  have reading := same temp w₁ run
  have quiet : (if w.globals.byte .qndRSSIns < temp then temp - w.globals.byte .qndRSSIns
      else w.globals.byte .qndRSSIns - temp) < RSSINTHRESHOLD := by
    rw [reading, if_neg (BitVec.lt_irrefl _), BitVec.sub_self]
    decide
  simp only [ensures_load8, ensures_ite, ensures_store8, globals₁]
  refine ⟨fun _ => ?_, fun loud => absurd quiet loud⟩
  simp

theorem rescanIfWanted_quiet (flag : w.globals.byte .qndClearScanFlag = 0)
    (first : w.globals.byte .qndFirstScan = 0) :
    Avoids b.env LooksUpBands (rescanIfWanted 0) w := by
  have look (v : Var8) : Uses (fun o => ¬LooksUpBands o) (load8 v) := by simp [LooksUpBands]
  simp only [rescanIfWanted, avoids_bind, ensures_load8, flag]
  refine ⟨(look _).avoids fun _ good => good, ?_, ?_⟩
  · rw [if_neg (by simp)]
    exact (look _).avoids fun _ good => good
  · rw [if_neg (by simp), ensures_load8, first]
    exact avoids_pure ()

theorem qndUpdateRSSIn_quiet {measured : List (UINT16 × UINT8)}
    (inside : w.globals.floor ∈ measured) (again : w.globals.byte .qndFirstScan = 0)
    (steady : Steady b measured w) : Avoids b.env LooksUpBands (qndUpdateRSSIn 0) w := by
  have look : Uses (fun o => ¬LooksUpBands o) (load8 .qndFirstScan) := by simp [LooksUpBands]
  have same : Ensures b.env (qndGetRSSI (w.globals.half .qndClearChannel))
      (fun temp _ => temp = w.globals.byte .qndRSSIns) w :=
    steady.mono fun temp _ reading => reading _ inside rfl
  simp only [qndUpdateRSSIn, avoids_bind, ensures_load8]
  refine ⟨look.avoids fun _ good => good, ?_, ?_⟩
  · rw [again]
    exact checkClearChannel_avoids.avoids fun _ good => good
  · rw [ensures_when]
    refine ⟨fun _ => (checkClearChannel_quiet same).mono ?_, fun first => absurd again first⟩
    intro _ w₁ checked
    exact rescanIfWanted_quiet checked.1 (checked.2.trans again)

/-- After a rescan the cached floor describes the readings just taken, so that a steady
environment makes the next update skip its rescan, exactly when some reading was below the
old floor or a band reproduced the old floor on the old clear channel. -/
theorem rescan_describes_iff {measured : List (UINT16 × UINT8)} {w' : Machine κ}
    (run : Runs b.env rescan w measured w') :
    (FloorCurrent measured w'.globals ∧ ∀ w₂ : Machine κ,
      w₂.globals.floor = w'.globals.floor → w₂.globals.byte .qndFirstScan = 0 →
      Steady b measured w₂ → Avoids b.env LooksUpBands (qndUpdateRSSIn 0) w₂) ↔
      FloorReached measured w.globals := by
  have current := rescan_current_iff measured w' run
  obtain ⟨count, stored, floor⟩ := rescan_floor measured w' run
  have low := (lowest_le level w.globals.floor measured).2
  rw [← floor] at low
  constructor
  · intro holds
    exact current.mp holds.1
  · intro reached
    have holds := current.mpr reached
    have inside := (floorCurrent_iff_mem count stored low).mp holds
    refine ⟨holds, fun w₂ same again steady => ?_⟩
    rw [← same] at inside
    exact qndUpdateRSSIn_quiet inside again steady

end

/-- A chip that scans in no time, whose RSSI is 10 for the first six readings and 40 after. -/
def risingChip : Board (UINT8 × Nat) where
  respond
    | .readReg adr, k =>
      if adr = SYSTEM1 then (k.1, (k.1 &&& ~~~CHSC, k.2))
      else if adr = RSSISIG then (if k.2 < 6 then 10 else 40, (k.1, k.2 + 1))
      else (0, k)
    | .writeReg adr value, k => ((), if adr = SYSTEM1 then (value, k.2) else k)
    | .copyFromUser, k => (true, k)
    | .copyToUser, k => (true, k)
    | .peek _, k => (0, k)
    | .callBack _ _, k => ((), k)
    | .gpioMode _ _, k => ((), k)
    | .gpioDir _ _, k => ((), k)
    | .gpioOut _ _, k => ((), k)
    | .hwPower _, k => ((), k)
    | .poke _ _, k => ((), k)
    | .getIntArrayRegion _ _ _, k => ((), k)
  beyond _ := 0

/-- The first rescan after boot. -/
theorem first_rescan_describes : ∃ measured w', Runs risingChip.env rescan
    ⟨Globals.initial, (0, 0)⟩ measured w' ∧ FloorCurrent measured w'.globals := by
  have done : (exec risingChip.env 4 rescan ⟨Globals.initial, (0, 0)⟩).map
      (fun r => r.1.map Prod.snd) = some [10, 10, 10, 10, 10, 10] := by decide +kernel
  obtain ⟨measured, w', run, readings⟩ := exec_observe 4 _ done
  have heard : (10 : UINT8) ∈ measured.map Prod.snd := by
    change measured.map Prod.snd = _ at readings
    rw [readings]
    decide
  obtain ⟨entry, inside, reading⟩ := List.mem_map.mp heard
  have lower : entry.2 < Globals.initial.byte .qndRSSIns := by
    rw [reading]
    decide
  exact ⟨measured, w', run, ((rescan_describes_iff run).mpr (.inl ⟨entry, inside, lower⟩)).1⟩

/-- INIT, a rescan that reads 10 in every band, and one that reads 40: the floor stays at 10. -/
theorem stale_floor : ∃ w w₁ w₂ : Machine (UINT8 × Nat), ∃ one quiet loud,
    Runs risingChip.env qndInit ⟨Globals.initial, (0, 0)⟩ one w ∧
    Runs risingChip.env rescan w quiet w₁ ∧ Runs risingChip.env rescan w₁ loud w₂ ∧
    w₂.globals.byte .qndRSSIns = 10 ∧ (∀ i < 6, w₂.globals.byte (.qndRSSIn i) = 40) ∧
    ¬FloorCurrent loud w₂.globals := by
  have done : (exec risingChip.env 4 (do
      let _ ← qndInit
      let _ ← rescan
      rescan) ⟨Globals.initial, (0, 0)⟩).map (fun r => (r.2.globals.byte .qndRSSIns,
        (List.range 6).map fun i => r.2.globals.byte (.qndRSSIn i))) =
      some (10, [40, 40, 40, 40, 40, 40]) := by decide +kernel
  obtain ⟨loud, w₂, run, seen⟩ := exec_observe 4 _ done
  obtain ⟨one, w, init, rest⟩ := runs_bind.mp run
  obtain ⟨quiet, w₁, first, second⟩ := runs_bind.mp rest
  obtain ⟨floor, readings⟩ := Prod.mk.inj seen
  have risen : ∀ i < 6, w₂.globals.byte (.qndRSSIn i) = 40 := by
    have all : ∀ x ∈ (List.range 6).map fun i => w₂.globals.byte (.qndRSSIn i), x = 40 := by
      rw [readings]
      decide
    exact fun i bound => all _ (List.mem_map_of_mem (List.mem_range.mpr bound))
  refine ⟨w, w₁, w₂, one, quiet, loud, init, first, second, floor, risen, ?_⟩
  intro current
  obtain ⟨i, bound, least, _⟩ := current.attained
  rw [risen i bound, floor] at least
  exact absurd least (by decide)

end Yika.Fm
