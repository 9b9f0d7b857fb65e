import Mathlib.Data.Nat.Dist
import Yika.Fm.RssiBands
import Yika.Program.Walk

/-! Seeking on a chip whose answers depend on the tuned frequency: the inner test is a
predicate of the frequency, a seek finds the first frequency of the grid with it, and the
scan of all channels lists the first fifty. -/

namespace Yika.Fm
open Program

/-! Being tuned to a frequency. -/

/-- The request writes a register that holds the tuned channel. -/
def Retunes : Ext → Prop
  | .writeReg adr _ => adr = CH ∨ adr = CH_STEP
  | _ => False

/-- The world is in a `start` state, or has answered requests that do not retune since. -/
inductive Since {κ : Type} (b : Board κ) (start : κ → Prop) : κ → Prop where
  | here {k : κ} : start k → Since b start k
  | request {k : κ} (e : Ext) : Since b start k → ¬Retunes e → Since b start (b.respond e k).2

/-- `QNF_SetCh(f)` was the last to write the channel. -/
def Tuned {κ : Type} (b : Board κ) (f : UINT16) : κ → Prop :=
  Since b (fun k => ∃ w w' : Machine κ, Runs b.env (qnfSetCh f) w () w' ∧ w'.world = k)

/-- `QNF_ConfigScan(f, f, step)` was, with the receiver tuned to `f`. -/
def Checked {κ : Type} (b : Board κ) (f : UINT16) : κ → Prop :=
  Since b (fun k => ∃ (w w' : Machine κ) (step : UINT8), Tuned b f w.world ∧
    Runs b.env (qnfConfigScan f f step) w () w' ∧ w'.world = k)

/-- The registers a channel check judges by, next to the scan bit of SYSTEM1. -/
def judgedRegs : List UINT8 := [CCA5, CCA4, STATUS1, SNR]

/-- While the receiver is tuned to `f`, the registers that a channel is judged by read
`ans f`, both before its channel check is configured and after. -/
structure AnswersByFreq {κ : Type} (b : Board κ) (ans : UINT16 → UINT8 → UINT8) : Prop where
  rssi : ∀ f k, Tuned b f k → (b.respond (.readReg RSSISIG) k).1 = ans f RSSISIG
  scan : ∀ f k, Checked b f k →
    (b.respond (.readReg SYSTEM1) k).1 &&& CHSC = ans f SYSTEM1 &&& CHSC
  judged : ∀ f k, Checked b f k → ∀ reg ∈ judgedRegs, (b.respond (.readReg reg) k).1 = ans f reg

/-- The inner test of `QND_RXSeekCH` as a predicate of the frequency, for the noise floor of
the globals. -/
def acceptable (ans : UINT16 → UINT8 → UINT8) (g : Globals) (db : UINT8) (f : UINT16) : Bool :=
  rssiAbove (ans f RSSISIG) (g.minRSSI f) 6 db && decide (ans f SYSTEM1 &&& CHSC = 0) &&
    ifcntInBand (ans f CCA5) (ans f CCA4) &&
    (rssiAbove (ans f RSSISIG) (g.minRSSI f) 20 db || decide (ans f STATUS1 &&& 0x01 = 0) ||
      decide (5 < ans f SNR ∧ ans f SNR < 55))

section
variable {κ : Type} {b : Board κ} {w : Machine κ} {start : κ → Prop} {f : UINT16}
  {ans : UINT16 → UINT8 → UINT8}

theorem Since.read {k : κ} (since : Since b start k) (adr : UINT8) :
    Since b start (b.respond (.readReg adr) k).2 := since.request _ id

theorem Since.write {k : κ} {adr value : UINT8} (since : Since b start k) (other : adr ≠ CH)
    (other' : adr ≠ CH_STEP) : Since b start (b.respond (.writeReg adr value) k).2 :=
  since.request _ fun retunes => retunes.elim other other'

theorem achieves_qnfSetCh (f : UINT16) :
    Achieves b.env (qnfSetCh f) (fun _ w' => w'.globals = w.globals ∧ Tuned b f w'.world) w := by
  have returns : Achieves b.env (qnfSetCh f) (fun _ _ => True) w := by simp [qnfSetCh]
  obtain ⟨_, w', run, _⟩ := returns
  exact ⟨(), w', run, globals_kept (qnfSetCh_writes f) run, .here ⟨w, w', run, rfl⟩⟩

theorem achieves_qnfConfigScan {step : UINT8} (tuned : Tuned b f w.world) :
    Achieves b.env (qnfConfigScan f f step)
      (fun _ w' => w'.globals = w.globals ∧ Checked b f w'.world) w := by
  have returns : Achieves b.env (qnfConfigScan f f step) (fun _ _ => True) w := by
    simp [qnfConfigScan]
  obtain ⟨_, w', run, _⟩ := returns
  have kept := globals_kept (qnfConfigScan_writes f f step) run
  exact ⟨(), w', run, kept, .here ⟨w, w', step, tuned, run, rfl⟩⟩

theorem achieves_qnfSetRegBit {reg mask value : UINT8} (since : Since b start w.world)
    (other : reg ≠ CH) (other' : reg ≠ CH_STEP) :
    Achieves b.env (qnfSetRegBit reg mask value)
      (fun _ w' => w'.globals = w.globals ∧ Since b start w'.world) w := by
  simp only [qnfSetRegBit, achieves_bind, achieves_readReg, achieves_writeReg, after_globals,
    true_and]
  exact (since.read reg).write other other'

theorem toNat_timeout {timeout : UINT8} (below : timeout < 200) :
    (timeout + 1).toNat = timeout.toNat + 1 := by
  change timeout.toNat < 200 at below
  rw [BitVec.toNat_add]
  exact Nat.mod_eq_of_lt (by simpa using by omega)

theorem achieves_pollScan (answers : AnswersByFreq b ans) (checked : Checked b f w.world) :
    Achieves b.env (Prog.doWhile pollScan 0) (fun timeout w' =>
      (timeout < 200 ↔ ans f SYSTEM1 &&& CHSC = 0) ∧ w'.globals = w.globals ∧
        Checked b f w'.world) w := by
  let inv (timeout : UINT8) (w₁ : Machine κ) : Prop := timeout < 200 ∧
    (timeout = 0 ∨ ans f SYSTEM1 &&& CHSC ≠ 0) ∧ w₁.globals = w.globals ∧ Checked b f w₁.world
  have start : inv 0 w := ⟨by decide, .inl rfl, rfl, checked⟩
  refine achieves_doWhile inv (fun timeout _ => 200 - timeout.toNat) ?_ start
  intro timeout w₁ holds
  obtain ⟨below, first, same, checked₁⟩ := holds
  have climbs := toNat_timeout below
  simp only [pollScan, qndDelay_eq, pure_bind, achieves_bind, achieves_readReg, achieves_ite,
    achieves_pure, answers.scan f _ checked₁]
  constructor
  · intro again
    refine ⟨⟨again.2, .inr again.1, same, checked₁.read SYSTEM1⟩, ?_⟩
    have bound : (timeout + 1).toNat < 200 := again.2
    omega
  · intro done
    refine ⟨?_, same, checked₁.read SYSTEM1⟩
    by_cases clear : ans f SYSTEM1 &&& CHSC = 0
    · obtain rfl := first.resolve_right (fun set => set clear)
      exact ⟨fun _ => clear, fun _ => by decide⟩
    · constructor
      · intro bound
        exact absurd ⟨clear, bound⟩ done
      · intro now
        exact absurd now clear

theorem achieves_judgeChannel (answers : AnswersByFreq b ans) (checked : Checked b f w.world)
    (db minrssi rssi timeout : UINT8) :
    Achieves b.env (judgeChannel db minrssi rssi timeout) (fun accepted w' =>
      w'.globals = w.globals ∧ accepted = (decide (timeout < 200) &&
        ifcntInBand (ans f CCA5) (ans f CCA4) && (rssiAbove rssi minrssi 20 db ||
          decide (ans f STATUS1 &&& 0x01 = 0) || decide (5 < ans f SNR ∧ ans f SNR < 55)))) w := by
  have high := answers.judged f _ checked CCA5 (by decide)
  have low := answers.judged f _ (checked.read CCA5) CCA4 (by decide)
  have status := answers.judged f _ ((checked.read CCA5).read CCA4) STATUS1 (by decide)
  have snr := answers.judged f _ (((checked.read CCA5).read CCA4).read STATUS1) SNR (by decide)
  simp only [judgeChannel, qndDelay_eq, pure_bind, achieves_ite, achieves_bind, achieves_readReg,
    achieves_pure, Machine.after, high, low, status, snr]
  grind

theorem achieves_checkChannel (answers : AnswersByFreq b ans) (tuned : Tuned b f w.world)
    (step db minrssi rssi : UINT8) :
    Achieves b.env (checkChannel f step db minrssi rssi) (fun accepted w' =>
      w'.globals = w.globals ∧ accepted = (decide (ans f SYSTEM1 &&& CHSC = 0) &&
        ifcntInBand (ans f CCA5) (ans f CCA4) && (rssiAbove rssi minrssi 20 db ||
          decide (ans f STATUS1 &&& 0x01 = 0) || decide (5 < ans f SNR ∧ ans f SNR < 55)))) w := by
  simp only [checkChannel, achieves_bind]
  apply (achieves_qnfConfigScan tuned).mono
  intro _ w₁ configured
  obtain ⟨same₁, checked₁⟩ := configured
  rw [achieves_writeReg]
  refine (achieves_qnfSetRegBit (checked₁.write (by decide) (by decide)) (by decide)
    (by decide)).mono fun _ w₂ started => ?_
  obtain ⟨same₂, checked₂⟩ := started
  apply (achieves_pollScan answers checked₂).mono
  intro timeout w₃ polled
  obtain ⟨inTime, same₃, checked₃⟩ := polled
  apply (achieves_judgeChannel answers checked₃ db minrssi rssi timeout).mono
  intro accepted w₄ judged
  rw [judged.1, judged.2, same₃, same₂, after_globals, same₁]
  simp only [inTime, true_and]

/-- The inner test at `f` accepts `f` exactly when it is acceptable. -/
theorem achieves_seekTest (answers : AnswersByFreq b ans) (step db : UINT8) :
    Achieves b.env (seekTest f step db) (fun accepted w' =>
      w'.globals = w.globals ∧ accepted = acceptable ans w.globals db f) w := by
  simp only [seekTest, qndDelay_eq, pure_bind, achieves_bind]
  apply achieves_qnfGetRSSIn.mono
  intro minrssi w₁ looked
  obtain ⟨rfl, rfl⟩ := looked
  apply (achieves_qnfSetCh f).mono
  intro _ w₂ set
  obtain ⟨same₂, tuned₂⟩ := set
  have image : Achieves b.env
      (if imageChannel f then qnfSetRegBit TXAGC_GAIN IMR IMR else qnfSetRegBit TXAGC_GAIN IMR 0)
      (fun _ w' => w'.globals = w₂.globals ∧ Tuned b f w'.world) w₂ := by
    split
    next => exact achieves_qnfSetRegBit tuned₂ (by decide) (by decide)
    next => exact achieves_qnfSetRegBit tuned₂ (by decide) (by decide)
  apply image.mono
  intro _ w₃ filtered
  obtain ⟨same₃, tuned₃⟩ := filtered
  apply (achieves_qnfSetRegBit tuned₃ (by decide) (by decide)).mono
  intro _ w₄ receiving
  obtain ⟨same₄, tuned₄⟩ := receiving
  have tuned₅ : Tuned b f (w₄.after b (.readReg RSSISIG)).world := tuned₄.read RSSISIG
  rw [achieves_readReg, answers.rssi f _ tuned₄]
  by_cases strong : rssiAbove (ans f RSSISIG) (w₁.globals.minRSSI f) 6 db = true
  · rw [if_pos strong]
    apply (achieves_checkChannel answers tuned₅ step db _ _).mono
    intro accepted w₅ judged
    rw [judged.1, judged.2, after_globals, same₄, same₃, same₂, acceptable, strong]
    simp only [true_and, Bool.true_and]
  · rw [if_neg strong, achieves_pure, after_globals, same₄, same₃, same₂, acceptable]
    rw [Bool.not_eq_true] at strong
    rw [strong]
    exact ⟨rfl, rfl⟩

end

/-! The grid. -/

/-- The frequencies `start`, `start ± leap`, `start ± 2 leap`, .. between `start` and `stop`, in
walking order. -/
def grid (start stop leap : Nat) : List Nat :=
  if start < stop then (List.range ((stop - start) / leap + 1)).map fun i => start + i * leap
  else (List.range ((start - stop) / leap + 1)).map fun i => start - i * leap

/-- The step of the seek loops, in UINT16 arithmetic. -/
def advance (up : Bool) (leap : UINT8) (f : UINT16) : UINT16 :=
  if up then f + leap.setWidth 16 else f - leap.setWidth 16

/-- The walk has not passed `stop`. -/
def Within (up : Bool) (stop f : UINT16) : Prop := if up then f ≤ stop else stop ≤ f

instance (up : Bool) (stop f : UINT16) : Decidable (Within up stop f) := by
  unfold Within
  infer_instance

/-- There is a step of room on both sides of `stop`. -/
structure Room (leap : UINT8) (stop : UINT16) : Prop where
  moves : 0 < leap.toNat
  below : leap.toNat ≤ stop.toNat
  above : stop.toNat + leap.toNat < 65536

theorem mem_grid_bounds {start stop leap f : Nat} (member : f ∈ grid start stop leap) :
    min start stop ≤ f ∧ f ≤ max start stop := by
  unfold grid at member
  split at member
  next up =>
    obtain ⟨i, bound, rfl⟩ := List.mem_map.mp member
    have climbed : i * leap ≤ stop - start :=
      (Nat.mul_le_mul_right leap (Nat.lt_succ_iff.mp (List.mem_range.mp bound))).trans
        (Nat.div_mul_le_self _ _)
    omega
  next down =>
    obtain ⟨i, bound, rfl⟩ := List.mem_map.mp member
    have climbed : i * leap ≤ start - stop :=
      (Nat.mul_le_mul_right leap (Nat.lt_succ_iff.mp (List.mem_range.mp bound))).trans
        (Nat.div_mul_le_self _ _)
    omega

section
variable {start stop : UINT16} {leap : Nat}

theorem toNat_gridPoint {f : Nat} (member : f ∈ grid start.toNat stop.toNat leap) :
    (BitVec.ofNat 16 f).toNat = f := by
  have bounds := (mem_grid_bounds member).2
  have startFits := start.isLt
  have stopFits := stop.isLt
  rw [BitVec.toNat_ofNat]
  omega

/-- No point of the grid is 0, which stands for nothing found. -/
theorem gridPoint_ne_zero (startHigh : start ≠ 0) (stopHigh : stop ≠ 0) {y : UINT16}
    (member : y ∈ (grid start.toNat stop.toNat leap).map (BitVec.ofNat 16)) : y ≠ 0 := by
  intro zero
  obtain ⟨f, inGrid, rfl⟩ := List.mem_map.mp member
  have bounds := (mem_grid_bounds inGrid).1
  have none : f = 0 := by
    rw [← toNat_gridPoint inGrid, zero]
    rfl
  have startPositive : start.toNat ≠ 0 := fun zero => startHigh (BitVec.eq_of_toNat_eq zero)
  have stopPositive : stop.toNat ≠ 0 := fun zero => stopHigh (BitVec.eq_of_toNat_eq zero)
  omega

end

section
variable {up : Bool} {start stop : UINT16}

theorem within_trans {f g h : UINT16} (first : Within up g f) (second : Within up h g) :
    Within up h f := by
  cases up with
  | true => exact BitVec.le_trans first second
  | false => exact BitVec.le_trans second first

theorem within_refl (f : UINT16) : Within up f f := by
  cases up with
  | true => exact BitVec.le_refl f
  | false => exact BitVec.le_refl f

theorem within_start : Within (decide (start < stop)) stop start := by
  by_cases before : start < stop
  · rw [decide_eq_true before]
    exact BitVec.le_of_lt before
  · rw [decide_eq_false before]
    exact BitVec.not_lt.mp before

end

section
variable {leap : UINT8} {stop f : UINT16}

theorem toNat_advance_up (high : f.toNat + leap.toNat < 65536) :
    (advance true leap f).toNat = f.toNat + leap.toNat := by
  rw [advance, if_pos rfl, BitVec.toNat_add, BitVec.toNat_setWidth]
  have byte := leap.isLt
  omega

theorem toNat_advance_down (low : leap.toNat ≤ f.toNat) :
    (advance false leap f).toNat = f.toNat - leap.toNat := by
  rw [advance, if_neg (by simp), BitVec.toNat_sub, BitVec.toNat_setWidth]
  have byte := leap.isLt
  have half := f.isLt
  omega

theorem advance_up_iterate (leap : UINT8) (f : UINT16) (n : Nat) :
    (advance true leap)^[n] f = f + BitVec.ofNat 16 (n * leap.toNat) := by
  induction n with
  | zero => simp
  | succ n ih =>
    rw [Function.iterate_succ_apply', ih, advance, if_pos rfl]
    apply BitVec.eq_of_toNat_eq
    rw [BitVec.toNat_add, BitVec.toNat_add, BitVec.toNat_add, BitVec.toNat_setWidth,
      BitVec.toNat_ofNat, BitVec.toNat_ofNat, Nat.succ_mul]
    omega

theorem advance_down_iterate (leap : UINT8) (f : UINT16) (n : Nat) :
    (advance false leap)^[n] f = f - BitVec.ofNat 16 (n * leap.toNat) := by
  induction n with
  | zero => simp
  | succ n ih =>
    rw [Function.iterate_succ_apply', ih, advance, if_neg Bool.false_ne_true]
    apply BitVec.eq_of_toNat_eq
    rw [BitVec.toNat_sub, BitVec.toNat_sub, BitVec.toNat_sub, BitVec.toNat_setWidth,
      BitVec.toNat_ofNat, BitVec.toNat_ofNat, Nat.succ_mul]
    omega

theorem mul_le_distance {distance leap i : Nat} (bound : i < distance / leap + 1) :
    i * leap ≤ distance :=
  (Nat.mul_le_mul_right leap (Nat.lt_succ_iff.mp bound)).trans (Nat.div_mul_le_self _ _)

/-- The points of a grid are those of the walk, which has not passed `stop` at any of them. -/
theorem trail_grid (leap : UINT8) (start stop : UINT16) :
    Trail (advance (decide (start < stop)) leap) (Within (decide (start < stop)) stop) start
      ((grid start.toNat stop.toNat leap.toNat).map (BitVec.ofNat 16)) := by
  have startFits := start.isLt
  unfold grid
  by_cases up : start < stop
  · have upNat : start.toNat < stop.toNat := up
    rw [decide_eq_true up, if_pos upNat, List.map_map]
    have points : (BitVec.ofNat 16 ∘ fun i => start.toNat + i * leap.toNat) =
        fun i => (advance true leap)^[i] start := by
      funext i
      rw [advance_up_iterate, Function.comp_apply, BitVec.ofNat_add, BitVec.ofNat_toNat,
        BitVec.setWidth_eq]
    rw [points]
    apply Trail.iterate
    intro i bound
    have climbed := mul_le_distance bound
    rw [advance_up_iterate]
    show (start + BitVec.ofNat 16 (i * leap.toNat)).toNat ≤ stop.toNat
    rw [BitVec.toNat_add, BitVec.toNat_ofNat]
    omega
  · have downNat : ¬start.toNat < stop.toNat := up
    rw [decide_eq_false up, if_neg downNat, List.map_map]
    have below (i : Nat) (bound : i < (start.toNat - stop.toNat) / leap.toNat + 1) :
        ((advance false leap)^[i] start).toNat = start.toNat - i * leap.toNat := by
      have climbed := mul_le_distance bound
      rw [advance_down_iterate, BitVec.toNat_sub, BitVec.toNat_ofNat]
      omega
    have points : (List.range ((start.toNat - stop.toNat) / leap.toNat + 1)).map
        (BitVec.ofNat 16 ∘ fun i => start.toNat - i * leap.toNat) =
        (List.range ((start.toNat - stop.toNat) / leap.toNat + 1)).map
          fun i => (advance false leap)^[i] start := by
      apply List.map_congr_left
      intro i member
      rw [Function.comp_apply, ← below i (List.mem_range.mp member), BitVec.ofNat_toNat,
        BitVec.setWidth_eq]
    rw [points]
    apply Trail.iterate
    intro i bound
    have climbed := mul_le_distance bound
    show stop.toNat ≤ ((advance false leap)^[i] start).toNat
    rw [below i bound]
    omega

def Unwrapped (start stop leap : Nat) : Prop :=
  if start < stop then start + ((stop - start) / leap + 1) * leap < 65536
  else ((start - stop) / leap + 1) * leap ≤ start

instance (start stop leap : Nat) : Decidable (Unwrapped start stop leap) := by
  unfold Unwrapped
  infer_instance

theorem length_grid (start stop leap : Nat) :
    (grid start stop leap).length = start.dist stop / leap + 1 := by
  unfold grid
  split
  next up => rw [List.length_map, List.length_range, Nat.dist_eq_sub_of_le up.le]
  next down =>
    rw [List.length_map, List.length_range, Nat.dist_eq_sub_of_le_right (Nat.not_lt.mp down)]

/-- The walk leaves after its grid if and only if it does not wrap there. -/
theorem outside_grid_iff {leap : UINT8} {start stop : UINT16} (moves : 0 < leap.toNat) :
    ¬Within (decide (start < stop)) stop ((advance (decide (start < stop)) leap)^[
      ((grid start.toNat stop.toNat leap.toNat).map (BitVec.ofNat 16)).length] start) ↔
      Unwrapped start.toNat stop.toNat leap.toNat := by
  have startFits := start.isLt
  have stopFits := stop.isLt
  have byte := leap.isLt
  rw [List.length_map, length_grid]
  unfold Unwrapped
  by_cases up : start < stop
  · have upNat : start.toNat < stop.toNat := up
    have distance : start.toNat.dist stop.toNat = stop.toNat - start.toNat :=
      Nat.dist_eq_sub_of_le upNat.le
    have whole := Nat.div_mul_le_self (stop.toNat - start.toNat) leap.toNat
    have part := Nat.lt_div_mul_add (a := stop.toNat - start.toNat) moves
    rw [decide_eq_true up, if_pos upNat, advance_up_iterate, distance, Nat.succ_mul]
    show ¬(start + BitVec.ofNat 16 _).toNat ≤ stop.toNat ↔ _
    rw [BitVec.toNat_add, BitVec.toNat_ofNat]
    omega
  · have downNat : ¬start.toNat < stop.toNat := up
    have distance : start.toNat.dist stop.toNat = start.toNat - stop.toNat :=
      Nat.dist_eq_sub_of_le_right (Nat.not_lt.mp downNat)
    have whole := Nat.div_mul_le_self (start.toNat - stop.toNat) leap.toNat
    have part := Nat.lt_div_mul_add (a := start.toNat - stop.toNat) moves
    rw [decide_eq_false up, if_neg downNat, advance_down_iterate, distance, Nat.succ_mul]
    show ¬stop.toNat ≤ (start - BitVec.ofNat 16 _).toNat ↔ _
    rw [BitVec.toNat_sub, BitVec.toNat_ofNat]
    omega

theorem Room.unwrapped (room : Room leap stop) (start : UINT16) :
    Unwrapped start.toNat stop.toNat leap.toNat := by
  have moves := room.moves
  have below := room.below
  have above := room.above
  unfold Unwrapped
  split
  next up =>
    have whole := Nat.div_mul_le_self (stop.toNat - start.toNat) leap.toNat
    rw [Nat.succ_mul]
    omega
  next down =>
    have whole := Nat.div_mul_le_self (start.toNat - stop.toNat) leap.toNat
    rw [Nat.succ_mul]
    omega

theorem walk_grid (room : Room leap stop) (start : UINT16) :
    Walk (advance (decide (start < stop)) leap) (Within (decide (start < stop)) stop) start
      ((grid start.toNat stop.toNat leap.toNat).map (BitVec.ofNat 16)) :=
  (trail_grid leap start stop).walk ((outside_grid_iff room.moves).mpr (room.unwrapped start))

/-- A walk that has arrived at `stop` has one point left, in whichever direction it is read. -/
theorem walk_stop (room : Room leap stop) (up : Bool) :
    Walk (advance up leap) (Within up stop) stop [stop] := by
  have moves := room.moves
  have below := room.below
  have above := room.above
  cases up with
  | true =>
    have step : (advance true leap stop).toNat = stop.toNat + leap.toNat := toNat_advance_up above
    have out : ¬Within true stop (advance true leap stop) := by
      change ¬(advance true leap stop).toNat ≤ stop.toNat
      omega
    exact .point (BitVec.le_refl stop) (.beyond out)
  | false =>
    have step : (advance false leap stop).toNat = stop.toNat - leap.toNat := toNat_advance_down below
    have out : ¬Within false stop (advance false leap stop) := by
      change ¬stop.toNat ≤ (advance false leap stop).toNat
      omega
    exact .point (BitVec.le_refl stop) (.beyond out)

end

/-! A single seek. -/

section
variable {κ : Type} {b : Board κ} {w : Machine κ} {ans : UINT16 → UINT8 → UINT8}
  {start stop : UINT16} {points : List UINT16} {up : Bool} {leap : UINT8}

theorem passed_iff {next : UINT16} :
    (up = true ∧ stop < next ∨ ¬up = true ∧ next < stop) ↔ ¬Within up stop next := by
  cases up with
  | true => simp [Within]
  | false => simp [Within]

theorem seekNext_refused (x : UINT16) :
    seekNext stop up leap x false = if Within up stop (advance up leap x) then
      pure (.inl (advance up leap x)) else pure (.inr 0) := by
  unfold seekNext
  rw [if_neg Bool.false_ne_true]
  change (if up = true ∧ stop < advance up leap x ∨ ¬up = true ∧ advance up leap x < stop then
    (pure (.inr 0) : Drv (UINT16 ⊕ UINT16)) else pure (.inl (advance up leap x))) = _
  simp only [passed_iff, ite_not]

theorem achieves_seekRound (answers : AnswersByFreq b ans) (step db : UINT8) (x : UINT16) :
    Achieves b.env (seekRound stop step db up leap x) (fun next w' => w'.globals = w.globals ∧
      (acceptable ans w.globals db x → next = .inr x) ∧
      (¬acceptable ans w.globals db x → Within up stop (advance up leap x) →
        next = .inl (advance up leap x)) ∧
      (¬acceptable ans w.globals db x → ¬Within up stop (advance up leap x) → next = .inr 0)) w := by
  rw [seekRound, achieves_bind]
  apply (achieves_seekTest answers step db).mono
  intro accepted w₁ tested
  obtain ⟨same, rfl⟩ := tested
  by_cases accepted : acceptable ans w.globals db x = true
  · rw [accepted]
    simp [seekNext, same]
  · rw [Bool.not_eq_true] at accepted
    rw [accepted, seekNext_refused]
    by_cases further : Within up stop (advance up leap x)
    · rw [if_pos further, achieves_pure]
      exact ⟨same, fun hit => absurd hit Bool.false_ne_true, fun _ _ => rfl, fun _ out => absurd further out⟩
    · rw [if_neg further, achieves_pure]
      exact ⟨same, fun hit => absurd hit Bool.false_ne_true, fun _ go => absurd go further, fun _ _ => rfl⟩

/-- The seek loop finds the first acceptable frequency of its walk, or 0. -/
theorem achieves_seekLoop (answers : AnswersByFreq b ans) (step db : UINT8)
    (walk : Walk (advance up leap) (Within up stop) start points) (here : Within up stop start) :
    Achieves b.env (Prog.doWhile (seekRound stop step db up leap) start) (fun found w' =>
      w'.globals = w.globals ∧ found = (points.find? (acceptable ans w.globals db)).getD 0) w := by
  have round : ∀ x w₁, Within up stop x → w₁.globals = w.globals →
      Achieves b.env (seekRound stop step db up leap x) (fun next w' => w'.globals = w.globals ∧
        (acceptable ans w.globals db x → next = .inr x) ∧
        (¬acceptable ans w.globals db x → Within up stop (advance up leap x) →
          next = .inl (advance up leap x)) ∧
        (¬acceptable ans w.globals db x → ¬Within up stop (advance up leap x) →
          next = .inr 0)) w₁ := by
    intro x w₁ _ same
    rw [← same]
    exact achieves_seekRound answers step db x
  exact achieves_search round walk here rfl

/-- `QND_RXSeekCH` as `QND_RXSeekCHAll` calls it is its loop: no rescan before, no tuning after. -/
theorem achieves_qndRXSeekCH_loop {step db skip : UINT8} {post : UINT16 → Machine κ → Prop}
    (scanning : w.globals.byte .qndAutoScanAll = 1)
    (loop : Achieves b.env (Prog.doWhile
      (seekRound stop step db (decide (start < stop)) (b.stepValue step)) start)
      (fun found w' => w'.globals = w.globals ∧ post found w') w) :
    Achieves b.env (qndRXSeekCH start stop step db skip)
      (fun found w' => w'.globals = w.globals ∧ post found w') w := by
  have busy : ¬w.globals.byte .qndAutoScanAll = 0 := by
    rw [scanning]
    decide
  simp only [qndRXSeekCH, achieves_bind, achieves_load8, achieves_when, achieves_stepTbl, busy,
    false_implies, not_false_eq_true, true_implies, true_and]
  apply loop.mono
  intro found w₁ sought
  simp only [sought.1, busy, achieves_pure, false_implies, not_false_eq_true, true_implies, true_and]
  exact sought.2

theorem achieves_qndRXSeekCH_scanning (answers : AnswersByFreq b ans) {step : UINT8}
    (db skip : UINT8) (scanning : w.globals.byte .qndAutoScanAll = 1) (index : step.toNat < 3)
    (walk : Walk (advance (decide (start < stop)) (qndStepTbl step.toNat))
      (Within (decide (start < stop)) stop) start points) :
    Achieves b.env (qndRXSeekCH start stop step db skip) (fun found w' =>
      w'.globals = w.globals ∧ found = (points.find? (acceptable ans w.globals db)).getD 0) w := by
  apply achieves_qndRXSeekCH_loop scanning
  rw [stepValue_inside b index]
  exact achieves_seekLoop answers step db walk within_start

end

/-! The scan of all channels. -/

/-- `qnd_ChList[0..qnd_ChCount)`. -/
def Globals.channels (g : Globals) : List UINT16 :=
  (List.range (g.byte .qndChCount).toNat).map fun i => g.half (.qndChList i)

/-- A scan of all channels is on, with the noise floor of `g`. -/
structure Scanning {κ : Type} (g : Globals) (w : Machine κ) : Prop where
  all : w.globals.byte .qndAutoScanAll = 1
  floor : w.globals.minRSSI = g.minRSSI

/-- The last thing done to the receiver was `QND_TuneToCH(ch)`, at the end of the scan. -/
def LeftTuned {κ : Type} (b : Board κ) (ch : UINT16) (w' : Machine κ) : Prop :=
  ∃ w₁ w₂ : Machine κ, Runs b.env (qndTuneToCH ch) w₁ () w₂ ∧
    Runs b.env (do
      store8 .qndAutoScanAll 0
      qnfSetMute false) w₂ () w'

/-- How `QND_RXSeekCHAll` returns when it finds the channels `found`. -/
structure ScanDone {κ : Type} (b : Board κ) (found : List UINT16) (stop : UINT16) (count : UINT8)
    (w' : Machine κ) : Prop where
  listed : w'.globals.channels = found
  counted : count.toNat = found.length
  tuned : LeftTuned b (found.headD stop) w'
  idle : w'.globals.byte .qndAutoScanAll = 0

section
variable {κ : Type} {b : Board κ} {w : Machine κ} {ans : UINT16 → UINT8 → UINT8}
  {start stop : UINT16} {points : List UINT16} {up : Bool} {leap : UINT8} {g : Globals}

theorem acceptable_congr {g g' : Globals} (same : g'.minRSSI = g.minRSSI) (db : UINT8) :
    acceptable ans g' db = acceptable ans g db := by
  funext f
  simp only [acceptable, same]

theorem length_channels (g : Globals) : g.channels.length = (g.byte .qndChCount).toNat := by
  simp [Globals.channels]

theorem achieves_appendChannel (temp : UINT16) (room : w.globals.channels.length < QN_CCA_MAX_CH) :
    Achieves b.env (appendChannel temp) (fun _ w' =>
      w'.globals.channels = w.globals.channels ++ [temp] ∧
        w'.globals.byte .qndAutoScanAll = w.globals.byte .qndAutoScanAll ∧
        w'.globals.minRSSI = w.globals.minRSSI ∧ w'.world = w.world) w := by
  rw [length_channels] at room
  have count : (w.globals.byte .qndChCount + 1).toNat = (w.globals.byte .qndChCount).toNat + 1 := by
    rw [BitVec.toNat_add]
    have cap : QN_CCA_MAX_CH = 50 := rfl
    exact Nat.mod_eq_of_lt (by simpa using by omega)
  simp only [appendChannel, achieves_bind, achieves_load8, achieves_store8, achieves_store16]
  refine ⟨?_, by simp, ?_, trivial⟩
  · simp only [Globals.channels, set8_byte, set8_half, set16_byte, set16_half, if_pos, count,
      List.range_succ, List.map_append, List.map_singleton]
    congr 1
    apply List.map_congr_left
    intro i member
    have other : i ≠ (w.globals.byte .qndChCount).toNat := Nat.ne_of_lt (List.mem_range.mp member)
    simp [other]
  · funext f
    simp [Globals.minRSSI, Globals.band]

/-- The walk of the scan is that of the seek it calls, although the seek takes its direction
anew: the two differ only at `stop`, where a single point is left. -/
theorem walk_inner (room : Room leap stop) {x : UINT16} (here : Within up stop x)
    (walk : Walk (advance up leap) (Within up stop) x points) :
    Walk (advance (decide (x < stop)) leap) (Within (decide (x < stop)) stop) x points := by
  cases up with
  | true =>
    by_cases before : x < stop
    · rwa [decide_eq_true before]
    · have arrived : x = stop := BitVec.le_antisymm here (BitVec.not_lt.mp before)
      subst arrived
      rw [walk.unique (walk_stop room true)]
      exact walk_stop room _
  | false =>
    have behind : ¬x < stop := BitVec.not_lt.mpr here
    rwa [decide_eq_false behind]

/-- The end of a turn of the scan: the channel found is listed, and the step goes past it, or past
`stop`. -/
def seekAllNext (stop : UINT16) (up : Bool) (leap : UINT8) (temp : UINT16) : Drv (UINT16 ⊕ Unit) := do
  Prog.when (temp ≠ 0) (appendChannel temp)
  let next := advance up leap (if temp ≠ 0 then temp else stop)
  if Within up stop next then do
    let count ← load8 .qndChCount
    if count.toNat < QN_CCA_MAX_CH then pure (.inl next) else pure (.inr ())
  else pure (.inr ())

theorem seekAllRound_eq (step db upByte : UINT8) (pStart : UINT16) :
    seekAllRound stop step db upByte leap pStart = (do
      let temp ← qndRXSeekCH pStart stop step db upByte
      seekAllNext stop (decide (upByte ≠ 0)) leap temp) := by
  simp only [seekAllRound, seekAllNext, advance, Within, decide_eq_true_eq]

/-- Where a turn of the scan goes from `f`, with so many channels listed. -/
def scanFrom (stop : UINT16) (up : Bool) (leap : UINT8) (f : UINT16) (listed : Nat) : UINT16 ⊕ Unit :=
  if Within up stop (advance up leap f) ∧ listed < QN_CCA_MAX_CH then .inl (advance up leap f)
  else .inr ()

theorem seekAllNext_writes (stop : UINT16) (up : Bool) (leap : UINT8) (temp : UINT16) :
    Uses (Writes [] {.qndChCount} {v | ∃ i, v = .qndChList i}) (seekAllNext stop up leap temp) := by
  simp [seekAllNext, appendChannel, Writes]

/-- Whether there is room for another channel is looked up only where the walk goes on. -/
theorem achieves_scanFrom {f : UINT16} : Achieves b.env (if Within up stop (advance up leap f) then do
      let count ← load8 .qndChCount
      if count.toNat < QN_CCA_MAX_CH then pure (.inl (advance up leap f)) else pure (.inr ())
    else (pure (.inr ()) : Drv (UINT16 ⊕ Unit)))
    (fun next w' => w' = w ∧ next = scanFrom stop up leap f w.globals.channels.length) w := by
  unfold scanFrom
  by_cases further : Within up stop (advance up leap f)
  · rw [if_pos further, achieves_bind, achieves_load8, ← length_channels]
    by_cases more : w.globals.channels.length < QN_CCA_MAX_CH
    · rw [if_pos more, if_pos ⟨further, more⟩, achieves_pure]
      exact ⟨rfl, rfl⟩
    · rw [if_neg more, if_neg (fun go => more go.2), achieves_pure]
      exact ⟨rfl, rfl⟩
  · rw [if_neg further, if_neg (fun go => further go.1), achieves_pure]
    exact ⟨rfl, rfl⟩

theorem achieves_seekAllNext_none : Achieves b.env (seekAllNext stop up leap 0)
    (fun next w' => w' = w ∧ next = scanFrom stop up leap stop w.globals.channels.length) w := by
  rw [seekAllNext, achieves_bind, achieves_when]
  refine ⟨fun found => absurd rfl found, fun none => ?_⟩
  rw [if_neg none]
  exact achieves_scanFrom

theorem achieves_seekAllNext_found {temp : UINT16} (nonzero : temp ≠ 0)
    (room : w.globals.channels.length < QN_CCA_MAX_CH) :
    Achieves b.env (seekAllNext stop up leap temp) (fun next w' =>
      w'.globals.channels = w.globals.channels ++ [temp] ∧
        w'.globals.byte .qndAutoScanAll = w.globals.byte .qndAutoScanAll ∧
        w'.globals.minRSSI = w.globals.minRSSI ∧ w'.world = w.world ∧
        next = scanFrom stop up leap temp w'.globals.channels.length) w := by
  rw [seekAllNext, achieves_bind, achieves_when, if_pos nonzero]
  refine ⟨fun _ => (achieves_appendChannel temp room).mono ?_, fun none => absurd nonzero none⟩
  intro _ w₁ appended
  obtain ⟨listed, flag, floor, world⟩ := appended
  apply achieves_scanFrom.mono
  intro next w' turned
  obtain ⟨rfl, rfl⟩ := turned
  exact ⟨listed, flag, floor, world, rfl⟩

theorem outside_advance_stop (room : Room leap stop) : ¬Within up stop (advance up leap stop) := by
  have walk := walk_stop room up
  cases walk with
  | point _ later =>
    intro further
    exact absurd rfl (later.inside_iff.mp further)

variable {step db upByte : UINT8} {x : UINT16}

theorem achieves_seekAllRound_miss (answers : AnswersByFreq b ans) (db : UINT8) (room : Room leap stop)
    (index : step.toNat < 3) (leapIs : qndStepTbl step.toNat = leap)
    (walk : Walk (advance (decide (x < stop)) leap) (Within (decide (x < stop)) stop) x points)
    (scanning : Scanning g w) (none : points.find? (acceptable ans g db) = .none) :
    Achieves b.env (seekAllRound stop step db upByte leap x) (fun next w' => Scanning g w' ∧
      w'.globals.channels = w.globals.channels ∧ next = .inr ()) w := by
  subst leapIs
  rw [seekAllRound_eq, achieves_bind]
  refine (achieves_qndRXSeekCH_scanning answers db upByte scanning.all index
    walk).mono fun found w₁ sought => ?_
  obtain ⟨same, rfl⟩ := sought
  rw [acceptable_congr scanning.floor, none, Option.getD_none]
  apply achieves_seekAllNext_none.mono
  intro next w' turned
  obtain ⟨rfl, rfl⟩ := turned
  rw [scanFrom, if_neg (fun go => outside_advance_stop room go.1), same]
  exact ⟨⟨same ▸ scanning.all, same ▸ scanning.floor⟩, rfl, rfl⟩

theorem achieves_seekAllRound_hit (answers : AnswersByFreq b ans) (db : UINT8)
    (index : step.toNat < 3) (leapIs : qndStepTbl step.toNat = leap) (turn : decide (upByte ≠ 0) = up)
    (walk : Walk (advance (decide (x < stop)) leap) (Within (decide (x < stop)) stop) x points)
    (scanning : Scanning g w) (free : w.globals.channels.length < QN_CCA_MAX_CH) {y : UINT16}
    (some : points.find? (acceptable ans g db) = .some y) (nonzero : y ≠ 0) :
    Achieves b.env (seekAllRound stop step db upByte leap x) (fun next w' => Scanning g w' ∧
      w'.globals.channels = w.globals.channels ++ [y] ∧
      (Within up stop (advance up leap y) ∧ w'.globals.channels.length < QN_CCA_MAX_CH →
        next = .inl (advance up leap y)) ∧
      (¬(Within up stop (advance up leap y) ∧ w'.globals.channels.length < QN_CCA_MAX_CH) →
        next = .inr ())) w := by
  subst turn leapIs
  rw [seekAllRound_eq, achieves_bind]
  refine (achieves_qndRXSeekCH_scanning answers db upByte scanning.all index
    walk).mono fun found w₁ sought => ?_
  obtain ⟨same, rfl⟩ := sought
  rw [acceptable_congr scanning.floor, some, Option.getD_some]
  rw [← same] at free ⊢
  apply (achieves_seekAllNext_found nonzero free).mono
  intro next w' turned
  obtain ⟨listed, flag, floor, _, rfl⟩ := turned
  have scanning' : Scanning g w' :=
    ⟨flag.trans (same ▸ scanning.all), floor.trans (same ▸ scanning.floor)⟩
  exact ⟨scanning', listed, fun go => if_pos go, fun leave => if_neg leave⟩

/-- The scan lists the first fifty acceptable points of its walk. -/
theorem achieves_seekAllLoop (answers : AnswersByFreq b ans) (db : UINT8) (room : Room leap stop)
    (index : step.toNat < 3) (leapIs : qndStepTbl step.toNat = leap) (turn : decide (upByte ≠ 0) = up)
    (walk : Walk (advance up leap) (Within up stop) start points) (here : Within up stop start)
    (nonzero : ∀ y ∈ points, y ≠ 0) (all : w.globals.byte .qndAutoScanAll = 1)
    (fresh : w.globals.channels = []) :
    Achieves b.env (Prog.doWhile (seekAllRound stop step db upByte leap) start) (fun _ w' =>
      w'.globals.channels =
        (points.filter (acceptable ans w.globals db)).take QN_CCA_MAX_CH) w := by
  have free : w.globals.channels.length < QN_CCA_MAX_CH := by
    rw [fresh]
    decide
  have whole := @achieves_collect _ _ _ _ _ _ _ (Scanning w.globals) _
    (fun w : Machine κ => w.globals.channels) QN_CCA_MAX_CH _
    (fun x points w part walk here scanning none =>
      achieves_seekAllRound_miss answers db room index leapIs (walk_inner room here walk) scanning none)
    (fun x points w y part walk here scanning free some =>
      achieves_seekAllRound_hit answers db index leapIs turn (walk_inner room here walk) scanning free
        some (nonzero y (part.subset (List.mem_of_find?_eq_some some))))
    start _ (List.suffix_refl _) walk here w free ⟨all, rfl⟩
  apply whole.mono
  intro _ w' scanned
  rw [scanned.2, fresh, List.nil_append]

theorem seekAllPrepare_ready (step : UINT8) :
    Ensures b.env (seekAllPrepare step) (fun stepvalue w' => stepvalue = b.stepValue step ∧
      w'.globals.byte .qndAutoScanAll = 1 ∧ w'.globals.byte .qndChCount = 0) w := by
  simp only [seekAllPrepare, ensures_bind, ensures_store8, ensures_stepTbl, ensures_pure]
  intro _ w₁ _ _ w₂ filtered _ w₃ updated
  have kept := byte_kept (v := .qndAutoScanAll) (qndUpdateRSSIn_writes 0) updated
    (by simp [updateBytes, floorBytes])
  have same := globals_kept (qnfSetRegBit_writes GAIN_SEL 0x38 0x38) filtered
  simp [kept, same]

theorem seekAllPrepare_empties {step stepvalue : UINT8}
    (prepared : Runs b.env (seekAllPrepare step) w stepvalue w') : w'.globals.channels = [] := by
  obtain ⟨_, _, empty⟩ := seekAllPrepare_ready step stepvalue w' prepared
  rw [Globals.channels, empty]
  rfl

theorem turn_iff (start stop : UINT16) :
    decide ((if start < stop then (1 : UINT8) else 0) ≠ 0) = decide (start < stop) := by
  by_cases up : start < stop
  · simp [up]
  · simp [up]

theorem achieves_stopInRange (inRange : stop ≤ w.globals.half .qndCHSTOP) :
    Achieves b.env (stopInRange stop) (fun pStop w' => w' = w ∧ pStop = stop) w := by
  simp only [stopInRange, achieves_bind, achieves_load16]
  rw [if_neg (BitVec.not_lt.mpr inRange), achieves_pure]
  exact ⟨rfl, rfl⟩

theorem achieves_firstChannel :
    Achieves b.env (firstChannel stop) (fun ch w' => w' = w ∧ ch = w.globals.channels.headD stop)
      w := by
  simp only [firstChannel, achieves_bind, achieves_load8]
  have count := length_channels w.globals
  by_cases some : 1 ≤ w.globals.byte .qndChCount
  · have positive : 0 < (w.globals.byte .qndChCount).toNat := some
    obtain ⟨n, more⟩ := Nat.exists_eq_succ_of_ne_zero (Nat.pos_iff_ne_zero.mp positive)
    rw [if_pos some, achieves_load16, Globals.channels, more, List.range_succ_eq_map]
    exact ⟨rfl, rfl⟩
  · have none : (w.globals.byte .qndChCount).toNat = 0 := by
      have zero : ¬1 ≤ (w.globals.byte .qndChCount).toNat := some
      omega
    rw [if_neg some, achieves_pure, Globals.channels, none]
    exact ⟨rfl, rfl⟩

theorem achieves_finish {found : List UINT16} (listed : w.globals.channels = found) :
    Achieves b.env (do
      let ch ← firstChannel stop
      qndTuneToCH ch
      store8 .qndAutoScanAll 0
      qnfSetMute false
      load8 .qndChCount) (ScanDone b found stop) w := by
  rw [achieves_bind]
  apply achieves_firstChannel.mono
  intro ch w₁ first
  obtain ⟨rfl, rfl⟩ := first
  have tunes : Achieves b.env (qndTuneToCH (w₁.globals.channels.headD stop)) (fun _ _ => True) w₁ := by
    simp [qndTuneToCH, qnfRXInit, qnfSetRegBit, qnfSetMute, qnfSetCh]
  obtain ⟨_, w₂, tune, _⟩ := tunes
  have same₂ := globals_kept (qndTuneToCH_writes _) tune
  have finishes : Achieves b.env (do
      store8 .qndAutoScanAll 0
      qnfSetMute false) (fun _ _ => True) w₂ := by
    simp [qnfSetMute, qnfSetRegBit]
  obtain ⟨_, w₃, finish, _⟩ := finishes
  obtain ⟨_, w₂', lowered, unmuted⟩ := runs_bind.mp finish
  have same₃ := globals_kept (qnfSetMute_writes false) unmuted
  rw [runs_store8] at lowered
  have channels₃ : w₃.globals.channels = found := by
    rw [same₃, lowered, ← listed, ← same₂]
    simp [Globals.channels]
  refine tune.then_achieves ((runs_store8.mpr lowered).then_achieves (unmuted.then_achieves ?_))
  refine achieves_load8.mpr ⟨channels₃, ?_, ?_, ?_⟩
  · rw [← channels₃, length_channels]
  · rw [← listed]
    exact ⟨w₁, w₂, tune, finish⟩
  · simp [same₃, lowered]

/-- `QND_RXSeekCHAll` finds exactly the stations of the band: whenever its noise floor update
returns, it lists the first fifty acceptable frequencies of the grid, returns their number and
leaves the receiver tuned to the first. The range is that of a country in every state that
sessions reach. -/
theorem qndRXSeekCHAll_finds (answers : AnswersByFreq b ans) (db skip : UINT8)
    (country : w.globals.range ∈ countryRanges)
    (startIn : w.globals.half .qndCHSTART ≤ start ∧ start ≤ w.globals.half .qndCHSTOP)
    (stopIn : w.globals.half .qndCHSTART ≤ stop ∧ stop ≤ w.globals.half .qndCHSTOP)
    (index : step.toNat < 3) {stepvalue : UINT8} {w₁ : Machine κ}
    (prepared : Runs b.env (seekAllPrepare step) w stepvalue w₁) :
    Achieves b.env (qndRXSeekCHAll start stop step db skip)
      (ScanDone b ((((grid start.toNat stop.toNat (qndStepTbl step.toNat).toNat).map
        (BitVec.ofNat 16)).filter (acceptable ans w₁.globals db)).take QN_CCA_MAX_CH) stop) w := by
  obtain ⟨leapIs, all, _⟩ := seekAllPrepare_ready step stepvalue w₁ prepared
  rw [stepValue_inside b index] at leapIs
  have bounds : ∀ r ∈ countryRanges, 20 < r.start.toNat ∧ r.stop.toNat + 20 < 65536 := by decide
  obtain ⟨low, high⟩ := bounds _ country
  obtain ⟨moves, small⟩ := stepTbl_bounds step.toNat
  have startLow : w.globals.range.start.toNat ≤ start.toNat := startIn.1
  have startHigh : start.toNat ≤ w.globals.range.stop.toNat := startIn.2
  have stopLow : w.globals.range.start.toNat ≤ stop.toNat := stopIn.1
  have stopHigh : stop.toNat ≤ w.globals.range.stop.toNat := stopIn.2
  have room : Room (qndStepTbl step.toNat) stop := ⟨moves, by omega, by omega⟩
  have startNonzero : start ≠ 0 := by
    rintro rfl
    exact absurd (low.trans_le startLow) (Nat.not_lt_zero _)
  have stopNonzero : stop ≠ 0 := by
    rintro rfl
    exact absurd (low.trans_le stopLow) (Nat.not_lt_zero _)
  have whole := achieves_seekAllLoop answers db room index rfl (turn_iff start stop)
    (walk_grid room start) within_start (fun _ member => gridPoint_ne_zero startNonzero stopNonzero member)
    all (seekAllPrepare_empties prepared)
  rw [qndRXSeekCHAll, achieves_bind]
  apply (achieves_stopInRange stopIn.2).mono
  intro pStop w' clamped
  obtain ⟨rfl, rfl⟩ := clamped
  apply prepared.then_achieves
  rw [leapIs, achieves_bind]
  exact whole.mono fun _ w₂ scanned => achieves_finish scanned

end

/-- A chip that hears a station on the channels whose register CH is 8, and nothing else. -/
def stationChip : Board UINT8 where
  respond
    | .readReg adr, k =>
      (if adr = RSSISIG then (if k = 8 then 60 else 0) else if adr = CCA5 then 8 else 0, k)
    | .writeReg adr value, k => ((), if adr = CH then value else k)
    | .copyFromUser, k => (true, k)
    | .copyToUser, k => (true, k)
    | .peek _, k => (0, k)
    | .callBack _ _, k => ((), k)
    | .gpioMode _ _, k => ((), k)
    | .gpioDir _ _, k => ((), k)
    | .gpioOut _ _, k => ((), k)
    | .hwPower _, k => ((), k)
    | .poke _ _, k => ((), k)
    | .getIntArrayRegion _ _ _, k => ((), k)
  beyond _ := 0

def stationAnswer (f : UINT16) (reg : UINT8) : UINT8 :=
  (stationChip.respond (.readReg reg) ((freq2chreg f).setWidth 8)).1

theorem stationChip_since {start : UINT8 → Prop} {ch k : UINT8} (same : ∀ k, start k → k = ch)
    (since : Since stationChip start k) : k = ch := by
  induction since with
  | here begun => exact same _ begun
  | request e _ other ih =>
    cases e with
    | writeReg adr value =>
      have apart : adr ≠ CH := fun tunes => other (.inl tunes)
      simpa [stationChip, apart] using ih
    | _ => exact ih

theorem stationChip_tuned {f : UINT16} {k : UINT8} (tuned : Tuned stationChip f k) :
    k = (freq2chreg f).setWidth 8 := by
  refine stationChip_since (fun k set => ?_) tuned
  obtain ⟨w, w', run, rfl⟩ := set
  have stored : Ensures stationChip.env (qnfSetCh f)
      (fun _ w' => w'.world = (freq2chreg f).setWidth 8) w := by
    simp [qnfSetCh, Machine.after, stationChip, CH, CH_STEP]
  exact stored _ _ run

theorem stationChip_checked {f : UINT16} {k : UINT8} (checked : Checked stationChip f k) :
    k = (freq2chreg f).setWidth 8 := by
  refine stationChip_since (fun k set => ?_) checked
  obtain ⟨w, w', step, tuned, run, rfl⟩ := set
  rw [← stationChip_tuned tuned]
  have kept : Ensures stationChip.env (qnfConfigScan f f step)
      (fun _ w' => w'.world = w.world) w := by
    simp [qnfConfigScan, Machine.after, stationChip, CH, CH_START, CH_STOP, CH_STEP]
  exact kept _ _ run

theorem stationChip_answers : AnswersByFreq stationChip stationAnswer := by
  constructor
  case rssi =>
    intro f k tuned
    rw [stationChip_tuned tuned]
    rfl
  case scan =>
    intro f k checked
    rw [stationChip_checked checked]
    rfl
  case judged =>
    intro f k checked reg _
    rw [stationChip_checked checked]
    rfl

/-- A scan from 76 to 77 MHz on that chip, from boot, finds the station at 76.4 MHz. -/
theorem station_found : Achieves stationChip.env (qndRXSeekCHAll 7600 7700 1 0 0)
    (ScanDone stationChip [7640] 7700) ⟨Globals.initial, 0⟩ := by
  have done : (exec stationChip.env 4 (seekAllPrepare 1) ⟨Globals.initial, 0⟩).map
      (fun r => r.2.globals.byte (.qndRSSIn 0)) = some 0 := by decide +kernel
  obtain ⟨stepvalue, w₁, prepared, quiet⟩ := exec_observe 4 _ done
  have table (i : Nat) : w₁.globals.half (.qndRSSInBB i) = 0 :=
    half_kept (seekAllPrepare_writes 1) prepared (by simp)
  have floor : w₁.globals.minRSSI = Globals.initial.minRSSI := by
    funext f
    have first : w₁.globals.band f = 0 := by
      simp [Globals.band, table, QND_BAND_NUM, List.range_succ]
    rw [Globals.minRSSI, first]
    exact quiet
  have found : Achieves stationChip.env (qndRXSeekCHAll 7600 7700 1 0 0)
      (ScanDone stationChip ((((grid 7600 7700 10).map (BitVec.ofNat 16)).filter
        (acceptable stationAnswer w₁.globals 0)).take QN_CCA_MAX_CH) 7700) ⟨Globals.initial, 0⟩ :=
    qndRXSeekCHAll_finds stationChip_answers 0 0 (by decide) (by decide) (by decide) (by decide)
      prepared
  rw [acceptable_congr floor] at found
  have only : (((grid 7600 7700 10).map (BitVec.ofNat 16)).filter
      (acceptable stationAnswer Globals.initial 0)).take QN_CCA_MAX_CH = [7640] := by decide +kernel
  rw [← only]
  exact found

end Yika.Fm
