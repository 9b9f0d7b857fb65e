import Mathlib.Data.List.Flatten
import Yika.Fm.ScanOrder
import Yika.Fm.SingleSeek

/-! The scans that may leave their limits, on a chip that answers by frequency. A scan that leads down
to a stop less than a step above 0 wraps there and goes down again from the top of the 16 bits, so that
what it lists is what is heard on one way down after the other. -/

namespace Yika.Fm
open Program

/-! The ways down. -/

/-- A frequency that a scan lists. 0 stands for nothing found. -/
def heard (ans : UINT16 → UINT8 → UINT8) (g : Globals) (db : UINT8) (f : UINT16) : Bool :=
  decide (f ≠ 0) && acceptable ans g db f

/-- A scan from `start` down to `stop` by `leap`, and what is heard. -/
structure Descent where
  leap : Nat
  stop : Nat
  start : Nat
  hears : UINT16 → Bool

namespace Descent

/-- Where a way down begins: the first one at the start, each other one a step below where the one
before ends or the stop, whichever is higher, in sixteen bits. -/
def top (d : Descent) : Nat → Nat
  | 0 => d.start
  | j + 1 => 65536 - d.leap + max (d.top j % d.leap) d.stop

def heardOn (d : Descent) (j : Nat) : List UINT16 :=
  ((grid (d.top j) d.stop d.leap).map (BitVec.ofNat 16)).filter d.hears

def heardBefore (d : Descent) (j : Nat) : List UINT16 := (List.range j).flatMap d.heardOn

/-- Another way down follows: the stop is less than a step above 0, and there is no frequency at the end
of this one, a step above one that is passed over, that ends the scan by being heard. -/
def Wraps (d : Descent) (j : Nat) : Prop :=
  d.stop < d.leap ∧
    ¬(d.top j % d.leap < d.stop ∧ d.hears (BitVec.ofNat 16 (d.top j % d.leap + d.leap)) = true)

def Reached (d : Descent) (j : Nat) : Prop :=
  (∀ i < j, d.Wraps i) ∧ (d.heardBefore j).length < QN_CCA_MAX_CH

/-- Whatever is heard on a way down that the scan gets to lies between the limits of the scan, in the
range, and below all that was heard before. -/
def Orderly (d : Descent) (start stop limit : UINT16) : Prop :=
  ∀ j, d.Reached j → ∀ f ∈ d.heardOn j, stop ≤ f ∧ f ≤ start ∧ f ≤ limit ∧ ∀ g ∈ d.heardBefore j, f < g

end Descent

theorem grid_down_cons {t stop leap : Nat} (moves : 0 < leap) (here : stop ≤ t) :
    grid t stop leap = t :: if stop + leap ≤ t then grid (t - leap) stop leap else [] := by
  have down : ¬t < stop := Nat.not_lt.mpr here
  unfold grid
  rw [if_neg down]
  by_cases further : stop + leap ≤ t
  · have next : ¬t - leap < stop := by omega
    have count : (t - stop) / leap = (t - leap - stop) / leap + 1 := by
      rw [Nat.div_eq_sub_div moves (by omega)]
      congr 2
      omega
    rw [if_pos further, if_neg next, count, List.range_succ_eq_map, List.map_cons, List.map_map]
    refine List.cons_eq_cons.mpr ⟨by rw [Nat.zero_mul, Nat.sub_zero], List.map_congr_left fun i _ => ?_⟩
    rw [Function.comp_apply, Nat.succ_mul]
    omega
  · have last : (t - stop) / leap = 0 := Nat.div_eq_of_lt (by omega)
    rw [if_neg further, last, Nat.zero_add, List.range_one, List.map_singleton, Nat.zero_mul, Nat.sub_zero]

namespace Descent
variable {d : Descent} {i j : Nat} {f g : UINT16}

theorem heardBefore_succ : d.heardBefore (j + 1) = d.heardBefore j ++ d.heardOn j := by
  rw [heardBefore, List.range_succ, List.flatMap_append, List.flatMap_singleton]
  rfl

theorem heardBefore_mono (before : i ≤ j) : (d.heardBefore i).length ≤ (d.heardBefore j).length := by
  induction j, before using Nat.le_induction with
  | base => exact Nat.le_refl _
  | succ j _ ih =>
    rw [heardBefore_succ, List.length_append]
    exact ih.trans (Nat.le_add_right _ _)

theorem mem_heardBefore : f ∈ d.heardBefore j ↔ ∃ i < j, f ∈ d.heardOn i := by
  simp only [heardBefore, List.mem_flatMap, List.mem_range]

theorem Reached.earlier (reached : d.Reached j) (before : i ≤ j) : d.Reached i :=
  ⟨fun k first => reached.1 k (by omega), (heardBefore_mono before).trans_lt reached.2⟩

/-- The ways down that a scan gets to are those up to its last one. -/
theorem Reached.last (reached : d.Reached j) (ends : ¬d.Reached (j + 1)) : d.Reached i ↔ i ≤ j := by
  constructor
  · intro other
    by_contra later
    exact ends (other.earlier (Nat.succ_le_of_lt (Nat.not_le.mp later)))
  · exact reached.earlier

/-! Where the scan is. -/

/-- The scan is at `x` on its `j`th way down, with so much listed. -/
structure At (d : Descent) (x : UINT16) (listed : List UINT16) (j : Nat) : Prop where
  wraps : ∀ i < j, d.Wraps i
  inside : d.stop ≤ x.toNat
  residue : x.toNat % d.leap = d.top j % d.leap
  way : ∃ done : List Nat, done ++ grid x.toNat d.stop d.leap = grid (d.top j) d.stop d.leap ∧
    listed = d.heardBefore j ++ (done.map (BitVec.ofNat 16)).filter d.hears
  room : listed.length < QN_CCA_MAX_CH

variable {x : UINT16} {listed : List UINT16}

theorem At.reached (here : d.At x listed j) : d.Reached j := by
  obtain ⟨done, _, known⟩ := here.way
  refine ⟨here.wraps, Nat.lt_of_le_of_lt ?_ here.room⟩
  rw [known, List.length_append]
  exact Nat.le_add_right _ _

/-- With `x` the list is as much of what is heard. -/
theorem At.part (here : d.At x listed j) (moves : 0 < d.leap) :
    listed ++ [x].filter d.hears <+: d.heardBefore (j + 1) := by
  obtain ⟨done, split, known⟩ := here.way
  refine ⟨((if d.stop + d.leap ≤ x.toNat then grid (x.toNat - d.leap) d.stop d.leap else []).map
    (BitVec.ofNat 16)).filter d.hears, ?_⟩
  rw [heardBefore_succ, heardOn, ← split, grid_down_cons moves here.inside, known, List.map_append,
    List.map_cons, List.filter_append, BitVec.ofNat_toNat, BitVec.setWidth_eq]
  simp only [List.append_assoc, ← List.filter_append]
  rfl

theorem At.whole (here : d.At x listed j) (moves : 0 < d.leap) (last : x.toNat < d.stop + d.leap) :
    listed ++ [x].filter d.hears = d.heardBefore (j + 1) := by
  obtain ⟨done, split, known⟩ := here.way
  rw [heardBefore_succ, heardOn, ← split, grid_down_cons moves here.inside, if_neg (Nat.not_le.mpr last), known,
    List.map_append, List.filter_append, List.map_singleton, BitVec.ofNat_toNat, BitVec.setWidth_eq, List.append_assoc]

theorem At.down {y : UINT16} (here : d.At x listed j) (moves : 0 < d.leap) (further : d.stop + d.leap ≤ x.toNat)
    (next : y.toNat = x.toNat - d.leap) (room : (listed ++ [x].filter d.hears).length < QN_CCA_MAX_CH) :
    d.At y (listed ++ [x].filter d.hears) j := by
  obtain ⟨done, split, known⟩ := here.way
  refine ⟨here.wraps, by omega, ?_, ⟨done ++ [x.toNat], ?_, ?_⟩, room⟩
  · rw [next, ← here.residue, ← Nat.mod_eq_sub_mod (by omega)]
  · rw [← split, grid_down_cons moves here.inside, if_pos further, next, List.append_assoc]
    rfl
  · rw [known, List.map_append, List.filter_append, List.map_singleton, BitVec.ofNat_toNat, BitVec.setWidth_eq,
      List.append_assoc]

theorem At.around {y : UINT16} (here : d.At x listed j) (moves : 0 < d.leap) (last : x.toNat < d.stop + d.leap)
    (wraps : d.Wraps j) (next : y.toNat = d.top (j + 1))
    (room : (listed ++ [x].filter d.hears).length < QN_CCA_MAX_CH) :
    d.At y (listed ++ [x].filter d.hears) (j + 1) := by
  refine ⟨fun i before => ?_, ?_, by rw [next], ⟨[], by rw [next, List.nil_append], ?_⟩, room⟩
  · rcases Nat.lt_succ_iff_lt_or_eq.mp before with earlier | rfl
    · exact here.wraps i earlier
    · exact wraps
  · rw [next, top]
    exact (Nat.le_max_right _ _).trans (Nat.le_add_left _ _)
  · rw [here.whole moves last, List.map_nil, List.filter_nil, List.append_nil]

/-- What the scan has listed when it ends: the first fifty of what is heard on the ways down it gets to. -/
structure Ended (d : Descent) (listed : List UINT16) (j : Nat) : Prop where
  reached : d.Reached j
  last : ¬d.Reached (j + 1)
  listed : listed = (d.heardBefore (j + 1)).take QN_CCA_MAX_CH

theorem At.full (here : d.At x listed j) (moves : 0 < d.leap)
    (full : ¬(listed ++ [x].filter d.hears).length < QN_CCA_MAX_CH) : d.Ended (listed ++ [x].filter d.hears) j := by
  have part := here.part moves
  have room := here.room
  have most : ([x].filter d.hears).length ≤ 1 := List.length_filter_le _ _
  have exactly : (listed ++ [x].filter d.hears).length = QN_CCA_MAX_CH := by
    rw [List.length_append] at full ⊢
    omega
  refine ⟨here.reached, fun reached => full (part.length_le.trans_lt reached.2), ?_⟩
  rw [← exactly]
  exact List.prefix_iff_eq_take.mp part

theorem At.over (here : d.At x listed j) (moves : 0 < d.leap) (last : x.toNat < d.stop + d.leap)
    (ends : ¬d.Wraps j) : d.Ended (listed ++ [x].filter d.hears) j := by
  refine ⟨here.reached, fun reached => ends (reached.1 j (Nat.lt_succ_self j)), ?_⟩
  have most : ([x].filter d.hears).length ≤ 1 := List.length_filter_le _ _
  have room := here.room
  rw [← here.whole moves last, List.take_of_length_le]
  rw [List.length_append]
  omega

theorem At.start (inside : d.stop ≤ x.toNat) (begins : d.start = x.toNat) : d.At x [] 0 := by
  refine ⟨nofun, inside, by rw [top, begins], ⟨[], by rw [top, begins, List.nil_append], rfl⟩, by decide⟩

/-! The steps of a scan in UINT16 arithmetic. -/

/-- The descent of a scan from `start` down to `stop`. -/
def scan (leap : UINT8) (stop start : UINT16) (hears : UINT16 → Bool) : Descent :=
  ⟨leap.toNat, stop.toNat, start.toNat, hears⟩

section
variable {leap : UINT8} {stop start y : UINT16} {hears : UINT16 → Bool}

theorem outside_down (here : stop ≤ x) (out : ¬Within false stop (advance false leap x)) :
    x.toNat < stop.toNat + leap.toNat ∧ leap.toNat ≤ x.toNat := by
  have below : ¬stop.toNat ≤ (advance false leap x).toNat := out
  have byte := leap.isLt
  have half := stop.isLt
  by_cases short : x.toNat < leap.toNat
  · have next := advance_wraps short
    have low : stop.toNat ≤ x.toNat := here
    omega
  · have next := @toNat_advance_down leap x (by omega)
    omega

theorem wrapped_down (here : stop ≤ x) (last : x.toNat < stop.toNat + leap.toNat)
    (further : Within false stop (advance false leap x)) : x.toNat < leap.toNat ∧ stop.toNat < leap.toNat := by
  have above : stop.toNat ≤ (advance false leap x).toNat := further
  have low : stop.toNat ≤ x.toNat := here
  have short : x.toNat < leap.toNat := by
    by_contra long
    have next := @toNat_advance_down leap x (by omega)
    omega
  omega

theorem At.next (moves : 0 < leap.toNat) (here : (scan leap stop start hears).At x listed j)
    (further : Within false stop (advance false leap x))
    (room : (listed ++ [x].filter hears).length < QN_CCA_MAX_CH) :
    ∃ j', (scan leap stop start hears).At (advance false leap x) (listed ++ [x].filter hears) j' := by
  by_cases on : stop.toNat + leap.toNat ≤ x.toNat
  · have next := @toNat_advance_down leap x (by omega)
    exact ⟨j, here.down moves on next room⟩
  · obtain ⟨short, low⟩ := wrapped_down here.inside (Nat.not_le.mp on) further
    have inside : stop.toNat ≤ x.toNat := here.inside
    have residue : x.toNat % leap.toNat = (scan leap stop start hears).top j % leap.toNat := here.residue
    rw [Nat.mod_eq_of_lt short] at residue
    have wraps : (scan leap stop start hears).Wraps j := by
      refine ⟨low, fun ends => ?_⟩
      have below : (scan leap stop start hears).top j % leap.toNat < stop.toNat := ends.1
      omega
    have next : (advance false leap x).toNat = (scan leap stop start hears).top (j + 1) := by
      rw [advance_wraps short, top]
      change _ = 65536 - leap.toNat + max ((scan leap stop start hears).top j % leap.toNat) stop.toNat
      omega
    exact ⟨j + 1, here.around moves (Nat.not_le.mp on) wraps next room⟩

/-- Where a seek has found nothing: at the end of a way down, whose last frequency is not heard. -/
structure Missed (stop : UINT16) (leap : UINT8) (hears : UINT16 → Bool) (y : UINT16) : Prop where
  silent : hears y = false
  ends : y = 0 ∨ ¬Within false stop (advance false leap y)

theorem Missed.last (missed : Missed stop leap hears y) (moves : 0 < leap.toNat) (here : stop ≤ y) :
    y.toNat < stop.toNat + leap.toNat := by
  rcases missed.ends with rfl | out
  · change 0 < _
    omega
  · exact (outside_down here out).1

theorem At.missed (moves : 0 < leap.toNat) (here : (scan leap stop start hears).At y listed j)
    (missed : Missed stop leap hears y) (further : Within false stop (advance false leap stop)) :
    (scan leap stop start hears).At (advance false leap stop) listed (j + 1) := by
  have inside : stop.toNat ≤ y.toNat := here.inside
  have residue : y.toNat % leap.toNat = (scan leap stop start hears).top j % leap.toNat := here.residue
  obtain ⟨short, _⟩ := wrapped_down (BitVec.le_refl stop) (by omega) further
  have last := missed.last moves inside
  have nothing : listed ++ [y].filter hears = listed := by
    rw [List.filter_singleton, missed.silent]
    exact List.append_nil listed
  have place : y = 0 ∨ leap.toNat ≤ y.toNat := missed.ends.imp id fun out => (outside_down inside out).2
  have wraps : (scan leap stop start hears).Wraps j := by
    refine ⟨short, ?_⟩
    rintro ⟨below, heard⟩
    change (scan leap stop start hears).top j % leap.toNat < stop.toNat at below
    change hears (BitVec.ofNat 16 ((scan leap stop start hears).top j % leap.toNat + leap.toNat)) = true at heard
    rw [← residue] at below heard
    rcases place with rfl | high
    · exact absurd inside (by change ¬_ ≤ 0; omega)
    · rw [Nat.mod_eq_sub_mod high, Nat.mod_eq_of_lt (by omega), Nat.sub_add_cancel high, BitVec.ofNat_toNat,
        BitVec.setWidth_eq, missed.silent] at heard
      cases heard
  have next : (advance false leap stop).toNat = (scan leap stop start hears).top (j + 1) := by
    rw [advance_wraps short, top]
    change _ = 65536 - leap.toNat + max ((scan leap stop start hears).top j % leap.toNat) stop.toNat
    rw [← residue]
    rcases place with rfl | high
    · change _ = 65536 - leap.toNat + max (0 % leap.toNat) stop.toNat
      rw [Nat.zero_mod, Nat.zero_max]
    · rw [Nat.mod_eq_sub_mod high, Nat.mod_eq_of_lt (by omega)]
      omega
  have around := here.around moves last wraps next
  rw [show (scan leap stop start hears).hears = hears from rfl, nothing] at around
  exact around here.room

theorem At.missed_ends (moves : 0 < leap.toNat) (here : (scan leap stop start hears).At y listed j)
    (missed : Missed stop leap hears y) (out : ¬Within false stop (advance false leap stop)) :
    (scan leap stop start hears).Ended listed j := by
  have room := (outside_down (BitVec.le_refl stop) out).2
  have ended := here.over moves (missed.last moves here.inside) fun wraps => Nat.not_lt.mpr room wraps.1
  have nothing : listed ++ [y].filter (scan leap stop start hears).hears = listed := by
    change listed ++ [y].filter hears = listed
    rw [List.filter_singleton, missed.silent]
    exact List.append_nil listed
  rwa [nothing] at ended

theorem At.found_ends (moves : 0 < leap.toNat) (here : (scan leap stop start hears).At y listed j)
    (heard : hears y = true)
    (ends : ¬(Within false stop (advance false leap y) ∧ (listed ++ [y]).length < QN_CCA_MAX_CH)) :
    (scan leap stop start hears).Ended (listed ++ [y]) j := by
  have added : listed ++ [y] = listed ++ [y].filter (scan leap stop start hears).hears := by
    change listed ++ [y] = listed ++ [y].filter hears
    rw [List.filter_singleton, heard]
    rfl
  by_cases full : (listed ++ [y]).length < QN_CCA_MAX_CH
  · have out : ¬Within false stop (advance false leap y) := fun further => ends ⟨further, full⟩
    obtain ⟨last, high⟩ := outside_down here.inside out
    have residue : y.toNat % leap.toNat = (scan leap stop start hears).top j % leap.toNat := here.residue
    rw [added]
    refine here.over moves last fun wraps => ?_
    have low : stop.toNat < leap.toNat := wraps.1
    have next := toNat_advance_down high
    have below : ¬stop.toNat ≤ (advance false leap y).toNat := out
    rw [Nat.mod_eq_sub_mod high, Nat.mod_eq_of_lt (by omega)] at residue
    refine wraps.2 ⟨?_, ?_⟩
    · change (scan leap stop start hears).top j % leap.toNat < stop.toNat
      omega
    · change hears (BitVec.ofNat 16 ((scan leap stop start hears).top j % leap.toNat + leap.toNat)) = true
      rw [← residue, Nat.sub_add_cancel high, BitVec.ofNat_toNat, BitVec.setWidth_eq]
      exact heard
  · rw [added] at full ⊢
    exact here.full moves full

end

/-! The order of what is listed. -/

section
variable {leap : UINT8} {pStop stop start limit : UINT16} {hears : UINT16 → Bool}

theorem top_inside (inside : d.stop ≤ d.start) (j : Nat) : d.stop ≤ d.top j := by
  cases j with
  | zero => exact inside
  | succ j => exact (Nat.le_max_right _ _).trans (Nat.le_add_left _ _)

theorem scan_top (moves : 0 < leap.toNat) (reached : (scan leap pStop start hears).Reached j) :
    (scan leap pStop start hears).top j < 65536 := by
  cases j with
  | zero => exact start.isLt
  | succ j =>
    have low : pStop.toNat < leap.toNat := (reached.1 j (Nat.lt_succ_self j)).1
    have residue := Nat.mod_lt ((scan leap pStop start hears).top j) moves
    have byte := leap.isLt
    change 65536 - leap.toNat + max ((scan leap pStop start hears).top j % leap.toNat) pStop.toNat < 65536
    omega

/-- What is heard on a way down comes in falling order, down to the stop. -/
theorem scan_heardOn (moves : 0 < leap.toNat) (inside : pStop ≤ start)
    (reached : (scan leap pStop start hears).Reached j) :
    ((scan leap pStop start hears).heardOn j).Pairwise (Before false) ∧
      ∀ f ∈ (scan leap pStop start hears).heardOn j, pStop ≤ f := by
  have top := scan_top moves reached
  have bottom : pStop.toNat ≤ (scan leap pStop start hears).top j := @top_inside (scan leap pStop start hears) inside j
  have down : ¬(scan leap pStop start hears).top j < pStop.toNat := Nat.not_lt.mpr bottom
  have exactly (k : Nat) : (BitVec.ofNat 16 ((scan leap pStop start hears).top j - k * leap.toNat)).toNat =
      (scan leap pStop start hears).top j - k * leap.toNat := by
    rw [BitVec.toNat_ofNat]
    exact Nat.mod_eq_of_lt (by omega)
  unfold heardOn grid
  change (List.filter hears (List.map _ (if (scan leap pStop start hears).top j < pStop.toNat then _ else _))).Pairwise _ ∧
    ∀ f ∈ List.filter hears (List.map _ (if (scan leap pStop start hears).top j < pStop.toNat then _ else _)), _
  rw [if_neg down, List.map_map]
  constructor
  · refine List.Pairwise.filter _ (List.pairwise_map.mpr (List.pairwise_lt_range.imp_of_mem ?_))
    intro i k _ inRange before
    have climbed := mul_le_distance (List.mem_range.mp inRange)
    have lower : i * leap.toNat < k * leap.toNat := Nat.mul_lt_mul_of_pos_right before moves
    change (BitVec.ofNat 16 ((scan leap pStop start hears).top j - k * leap.toNat)).toNat <
      (BitVec.ofNat 16 ((scan leap pStop start hears).top j - i * leap.toNat)).toNat
    rw [exactly, exactly]
    have low : k * leap.toNat ≤ (scan leap pStop start hears).top j - pStop.toNat := climbed
    omega
  · intro f member
    obtain ⟨k, inRange, rfl⟩ := List.mem_map.mp (List.mem_filter.mp member).1
    have climbed : k * leap.toNat ≤ (scan leap pStop start hears).top j - pStop.toNat :=
      mul_le_distance (List.mem_range.mp inRange)
    change pStop.toNat ≤ (BitVec.ofNat 16 ((scan leap pStop start hears).top j - k * leap.toNat)).toNat
    rw [exactly]
    omega

/-- The first that is heard on a way down is listed, after all that was heard before. -/
theorem Ended.first {h : UINT16} {rest : List UINT16} (ended : d.Ended listed j) (before : i ≤ j)
    (reached : d.Reached i) (split : d.heardOn i = h :: rest) : d.heardBefore i ++ [h] <+: listed := by
  have onward : d.heardBefore (i + 1) <+: d.heardBefore (j + 1) := by
    obtain ⟨more, rfl⟩ := Nat.exists_eq_add_of_le before
    clear ended before
    induction more with
    | zero => exact List.prefix_refl _
    | succ more ih =>
      refine ih.trans ?_
      rw [← Nat.add_assoc, @heardBefore_succ d (i + more + 1)]
      exact List.prefix_append _ _
  have begun : d.heardBefore i ++ [h] <+: d.heardBefore (i + 1) := by
    rw [heardBefore_succ, split]
    exact ⟨rest, by rw [List.append_assoc]; rfl⟩
  rw [ended.listed]
  refine List.prefix_take_iff.mpr ⟨begun.trans onward, ?_⟩
  rw [List.length_append]
  exact reached.2

/-- What a scan that leads down has listed when it ends is in order exactly when its ways down are. -/
theorem Ended.inOrder_iff (moves : 0 < leap.toNat) (down : stop ≤ start)
    (cut : pStop = if limit < stop then limit else stop)
    (ended : (scan leap pStop start hears).Ended listed j) :
    InOrder start stop limit listed ↔ (scan leap pStop start hears).Orderly start stop limit := by
  have direction : decide (start < stop) = false := decide_eq_false (BitVec.not_lt.mpr down)
  have inside : pStop ≤ start := by
    rw [cut]
    split
    next beyond => exact BitVec.le_trans (BitVec.le_of_lt beyond) down
    next => exact down
  have gets (i : Nat) : (scan leap pStop start hears).Reached i ↔ i ≤ j := ended.reached.last ended.last
  constructor
  · intro ordered i reached f member
    obtain ⟨sorted, low⟩ := scan_heardOn moves inside reached
    -- the first of the way down is listed, after all that was heard before
    obtain ⟨h, rest, split⟩ := List.exists_cons_of_ne_nil (List.ne_nil_of_mem member)
    have begun := ended.first ((gets i).mp reached) reached split
    have first : f ≤ h := by
      rw [split] at member sorted
      rcases List.mem_cons.mp member with rfl | later
      · exact BitVec.le_refl f
      · exact BitVec.le_of_lt ((List.pairwise_cons.mp sorted).1 f later)
    have member' : h ∈ listed := begun.subset (List.mem_append_right _ (List.mem_singleton_self h))
    have within : stop ≤ h ∧ h ≤ start := by
      rcases ordered.between h member' with up | way
      · exact ⟨BitVec.le_trans down up.1, BitVec.le_trans up.2 down⟩
      · exact way
    have limited := ordered.inRange h member'
    refine ⟨?_, BitVec.le_trans first within.2, BitVec.le_trans first limited, fun g earlier => ?_⟩
    · have bottom := low f member
      rw [cut] at bottom
      split at bottom
      next =>
        calc stop ≤ h := within.1
          _ ≤ limit := limited
          _ ≤ f := bottom
      next => exact bottom
    · have monotone := ordered.monotone.sublist begun.sublist
      rw [direction] at monotone
      have below : h < g := (List.pairwise_append.mp monotone).2.2 g earlier h (List.mem_singleton_self h)
      exact Nat.lt_of_le_of_lt first below
  · intro orderly
    have each (f : UINT16) (member : f ∈ (scan leap pStop start hears).heardBefore (j + 1)) :
        stop ≤ f ∧ f ≤ start ∧ f ≤ limit := by
      obtain ⟨i, before, heard⟩ := mem_heardBefore.mp member
      obtain ⟨above, below, limited, _⟩ := orderly i ((gets i).mpr (Nat.le_of_lt_succ before)) f heard
      exact ⟨above, below, limited⟩
    have part : listed.Sublist ((scan leap pStop start hears).heardBefore (j + 1)) :=
      ended.listed ▸ List.take_sublist _ _
    refine ⟨fun f member => ?_, fun f member => (each f (part.subset member)).2.2, List.Pairwise.sublist part ?_⟩
    · obtain ⟨above, below, _⟩ := each f (part.subset member)
      exact .inr ⟨above, below⟩
    · rw [direction]
      refine List.pairwise_flatMap.mpr ⟨fun i inRange => ?_, List.pairwise_lt_range.imp_of_mem ?_⟩
      · have reached := (gets i).mpr (Nat.le_of_lt_succ (List.mem_range.mp inRange))
        exact (scan_heardOn moves inside reached).1
      · intro i k _ inRange before g earlier f later
        have reached := (gets k).mpr (Nat.le_of_lt_succ (List.mem_range.mp inRange))
        exact (orderly k reached f later).2.2.2 g (mem_heardBefore.mpr ⟨i, before, earlier⟩)

end

end Descent

/-! The runs of a scan. -/

section
variable {κ : Type} {b : Board κ} {w w' : Machine κ} {ans : UINT16 → UINT8 → UINT8} {g : Globals}
  {start stop x : UINT16} {leap step db upByte skip : UINT8} {j : Nat}

theorem ensures_qndRXSeekCH_loop {post : UINT16 → Machine κ → Prop}
    (scanning : w.globals.byte .qndAutoScanAll = 1)
    (loop : Ensures b.env (Prog.doWhile
      (seekRound stop step db (decide (start < stop)) (b.stepValue step)) start)
      (fun found w' => w'.globals = w.globals ∧ post found w') w) :
    Ensures b.env (qndRXSeekCH start stop step db skip)
      (fun found w' => w'.globals = w.globals ∧ post found w') w := by
  have busy : ¬w.globals.byte .qndAutoScanAll = 0 := by
    rw [scanning]
    decide
  simp only [qndRXSeekCH, ensures_bind, ensures_load8, ensures_when, ensures_stepTbl, busy,
    false_implies, not_false_eq_true, true_implies, true_and]
  refine loop.mono fun found w₁ sought => ?_
  simp only [sought.1, busy, ensures_pure, false_implies, not_false_eq_true, true_implies, true_and]
  exact sought.2

theorem heard_nonzero {f : UINT16} (hit : heard ans g db f = true) : f ≠ 0 := by
  rw [heard, Bool.and_eq_true, decide_eq_true_eq] at hit
  exact hit.1

open Descent

/-- A seek of a scan that leads down finds the next frequency that is heard, or the end of a way down. -/
theorem seek_down (answers : AnswersByFreq b ans) (moves : 0 < leap.toNat) (leapIs : b.stepValue step = leap)
    (all : w.globals.byte .qndAutoScanAll = 1) (floor : w.globals.minRSSI = g.minRSSI) {listed : List UINT16}
    (here : (scan leap stop start (heard ans g db)).At x listed j) :
    Ensures b.env (qndRXSeekCH x stop step db skip) (fun found w' => w'.globals = w.globals ∧
      ∃ y j', (scan leap stop start (heard ans g db)).At y listed j' ∧
        (heard ans g db y = true ∧ found = y ∨ Missed stop leap (heard ans g db) y ∧ found = 0)) w := by
  have behind : ¬x < stop := BitVec.not_lt.mpr here.inside
  apply ensures_qndRXSeekCH_loop all
  rw [leapIs, decide_eq_false behind]
  refine ensures_doWhile (fun y w' => w'.globals = w.globals ∧
    ∃ j', (scan leap stop start (heard ans g db)).At y listed j') ?_ ⟨rfl, j, here⟩
  rintro y w₁ ⟨same, j', there⟩
  refine (achieves_seekRound answers step db y).ensures.mono ?_
  rintro next w₂ ⟨same₂, hit, on, out⟩
  rw [same, acceptable_congr floor] at hit on out
  by_cases accepted : acceptable ans g db y = true
  · obtain rfl := hit accepted
    refine ⟨same₂.trans same, y, j', there, ?_⟩
    by_cases zero : y = 0
    · subst zero
      exact .inr ⟨⟨by rw [heard, decide_eq_false (not_not.mpr rfl), Bool.false_and], .inl rfl⟩, rfl⟩
    · exact .inl ⟨by rw [heard, decide_eq_true zero, Bool.true_and, accepted], rfl⟩
  · have silent : heard ans g db y = false := by
      rw [heard, Bool.eq_false_iff.mpr accepted, Bool.and_false]
    by_cases further : Within false stop (advance false leap y)
    · obtain rfl := on accepted further
      have nothing : listed ++ [y].filter (heard ans g db) = listed := by
        rw [List.filter_singleton, silent]
        exact List.append_nil listed
      have next := At.next moves there further (by rw [nothing]; exact there.room)
      rw [nothing] at next
      exact ⟨same₂.trans same, next⟩
    · obtain rfl := out accepted further
      exact ⟨same₂.trans same, y, j', there, .inr ⟨⟨silent, .inr further⟩, rfl⟩⟩

theorem seekAllRound_down (answers : AnswersByFreq b ans) (moves : 0 < leap.toNat)
    (leapIs : b.stepValue step = leap) (turn : decide (upByte ≠ 0) = false) (scanning : Scanning g w)
    (here : (scan leap stop start (heard ans g db)).At x w.globals.channels j) :
    Ensures b.env (seekAllRound stop step db upByte leap x) (Sum.elim
      (fun y w' => Scanning g w' ∧ ∃ j', (scan leap stop start (heard ans g db)).At y w'.globals.channels j')
      fun _ w' => ∃ j', (scan leap stop start (heard ans g db)).Ended w'.globals.channels j') w := by
  rw [seekAllRound_eq, turn, ensures_bind]
  refine (seek_down answers moves leapIs scanning.all scanning.floor here).mono ?_
  rintro temp w₁ ⟨same, y, j', there, sought⟩
  rw [← same] at there
  have scanning₁ : Scanning g w₁ := ⟨same ▸ scanning.all, same ▸ scanning.floor⟩
  rcases sought with ⟨hit, rfl⟩ | ⟨missed, rfl⟩
  · refine (achieves_seekAllNext_found (heard_nonzero hit) there.room).ensures.mono ?_
    rintro next w' ⟨listed, all, floor, _, rfl⟩
    have added : w₁.globals.channels ++ [temp] = w₁.globals.channels ++ [temp].filter (heard ans g db) := by
      rw [List.filter_singleton, hit]
      rfl
    have scanning' : Scanning g w' := ⟨all.trans scanning₁.all, floor.trans scanning₁.floor⟩
    by_cases go : Within false stop (advance false leap temp) ∧ w'.globals.channels.length < QN_CCA_MAX_CH
    · rw [scanFrom, if_pos go]
      refine ⟨scanning', ?_⟩
      rw [listed, added] at go ⊢
      exact At.next moves there go.1 go.2
    · rw [scanFrom, if_neg go, Sum.elim_inr, listed]
      rw [listed] at go
      exact ⟨j', At.found_ends moves there hit go⟩
  · refine achieves_seekAllNext_none.ensures.mono ?_
    rintro next w' ⟨rfl, rfl⟩
    by_cases further : Within false stop (advance false leap stop)
    · rw [scanFrom, if_pos ⟨further, there.room⟩]
      exact ⟨scanning₁, j' + 1, At.missed moves there missed further⟩
    · rw [scanFrom, if_neg fun go => further go.1]
      exact ⟨j', At.missed_ends moves there missed further⟩

/-- A turn of a scan takes no channel away. -/
theorem seekAllRound_mem {stepvalue : UINT8} {f : UINT16} (member : f ∈ w.globals.channels)
    (room : w.globals.channels.length < QN_CCA_MAX_CH) :
    Ensures b.env (seekAllRound stop step db upByte stepvalue x) (Sum.elim
      (fun _ w' => f ∈ w'.globals.channels ∧ w'.globals.channels.length < QN_CCA_MAX_CH)
      fun _ w' => f ∈ w'.globals.channels) w := by
  rw [seekAllRound_eq, ensures_bind]
  intro temp w₁ seek
  have same : w₁.globals.channels = w.globals.channels :=
    channels_kept (qndRXSeekCH_writes x stop step db upByte) seek (by simp [updateBytes, floorBytes]) (by simp)
  rw [← same] at member room
  by_cases found : temp = 0
  · subst found
    refine achieves_seekAllNext_none.ensures.mono ?_
    rintro next w' ⟨rfl, rfl⟩
    unfold scanFrom
    split
    next go => exact ⟨member, go.2⟩
    next => exact member
  · refine (achieves_seekAllNext_found found room).ensures.mono ?_
    rintro next w' ⟨listed, _, _, _, rfl⟩
    have kept : f ∈ w'.globals.channels := by
      rw [listed]
      exact List.mem_append_left _ member
    unfold scanFrom
    split
    next go => exact ⟨kept, go.2⟩
    next => exact kept

/-- The first turn of a scan lists what its seek finds, and the later ones leave it there. -/
theorem seekAllLoop_first (answers : AnswersByFreq b ans) (index : step.toNat < 3)
    (leapIs : qndStepTbl step.toNat = leap) (turn : decide (upByte ≠ 0) = up)
    (walk : Walk (advance (decide (start < stop)) leap) (Within (decide (start < stop)) stop) start points)
    (scanning : Scanning g w) (free : w.globals.channels.length < QN_CCA_MAX_CH) {y : UINT16}
    (found : points.find? (acceptable ans g db) = some y) (nonzero : y ≠ 0) :
    Ensures b.env (Prog.doWhile (seekAllRound stop step db upByte leap) start)
      (fun _ w' => y ∈ w'.globals.channels) w := by
  refine ensures_doWhile (fun x w' => x = start ∧ w' = w ∨
    y ∈ w'.globals.channels ∧ w'.globals.channels.length < QN_CCA_MAX_CH) ?_ (.inl ⟨rfl, rfl⟩)
  rintro x w₁ (⟨rfl, rfl⟩ | ⟨listed, room⟩)
  · refine (achieves_seekAllRound_hit answers db index leapIs turn walk scanning free found nonzero).ensures.mono ?_
    rintro next w₂ ⟨_, listed, on, out⟩
    have there : y ∈ w₂.globals.channels := by
      rw [listed]
      exact List.mem_append_right _ (List.mem_singleton_self y)
    by_cases go : Within up stop (advance up leap y) ∧ w₂.globals.channels.length < QN_CCA_MAX_CH
    · obtain rfl := on go
      exact .inr ⟨there, go.2⟩
    · obtain rfl := out go
      exact there
  · refine (seekAllRound_mem listed room).mono ?_
    rintro next w₂ kept
    cases next with
    | inl x => exact .inr kept
    | inr _ => exact kept

/-- A scan upwards from a start above its stop lists what its first seek finds on the way down, or
nothing. -/
theorem seekAllLoop_above (answers : AnswersByFreq b ans) (index : step.toNat < 3)
    (room : Room (qndStepTbl step.toNat) stop) (above : stop < start) (turn : decide (upByte ≠ 0) = true)
    (scanning : Scanning g w) (fresh : w.globals.channels = []) :
    Ensures b.env (Prog.doWhile (seekAllRound stop step db upByte (qndStepTbl step.toNat)) start) (fun _ w' =>
      (scan (qndStepTbl step.toNat) stop start (heard ans g db)).heardOn 0 = [] ∧ w'.globals.channels = [] ∨
        ∃ f ∈ (scan (qndStepTbl step.toNat) stop start (heard ans g db)).heardOn 0, f ∈ w'.globals.channels) w := by
  have walk := walk_grid room start
  have aboveNat : stop.toNat < start.toNat := above
  have stopHigh : stop ≠ 0 := by
    rintro rfl
    exact absurd (room.moves.trans_le room.below) (Nat.lt_irrefl 0)
  have startHigh : start ≠ 0 := by
    rintro rfl
    exact absurd aboveNat (Nat.not_lt_zero _)
  have points (f : UINT16) : f ∈ (scan (qndStepTbl step.toNat) stop start (heard ans g db)).heardOn 0 ↔
      f ∈ (grid start.toNat stop.toNat (qndStepTbl step.toNat).toNat).map (BitVec.ofNat 16) ∧
        acceptable ans g db f = true := by
    refine List.mem_filter.trans (and_congr_right fun member => ?_)
    have nonzero := gridPoint_ne_zero startHigh stopHigh member
    change heard ans g db f = true ↔ _
    rw [heard, decide_eq_true nonzero, Bool.true_and]
  cases found : ((grid start.toNat stop.toNat (qndStepTbl step.toNat).toNat).map
      (BitVec.ofNat 16)).find? (acceptable ans g db) with
  | none =>
    apply Achieves.ensures
    apply Achieves.doWhile
    apply (achieves_seekAllRound_miss answers db room index rfl walk scanning found).mono
    rintro next w₁ ⟨_, listed, rfl⟩
    refine .inl ⟨List.eq_nil_iff_forall_not_mem.mpr fun f member => ?_, listed.trans fresh⟩
    exact List.find?_eq_none.mp found f ((points f).mp member).1 ((points f).mp member).2
  | some y =>
    have member := List.mem_of_find?_eq_some found
    have accepted := List.find?_some found
    have nonzero := gridPoint_ne_zero startHigh stopHigh member
    have free : w.globals.channels.length < QN_CCA_MAX_CH := by
      rw [fresh]
      decide
    have lists := (points y).mpr ⟨member, accepted⟩
    refine (seekAllLoop_first answers index rfl turn walk scanning free found nonzero).mono ?_
    exact fun _ _ listed => .inr ⟨y, lists, listed⟩

end

/-! When a scan is in order. -/

section
variable {κ : Type} {b : Board κ} {w w₁ w' : Machine κ} {ans : UINT16 → UINT8 → UINT8}
  {start stop : UINT16} {step db skip stepvalue count : UINT8}

theorem qndRXSeekCHAll_loop (index : step.toNat < 3) (prepared : Runs b.env (seekAllPrepare step) w stepvalue w₁)
    (run : Runs b.env (qndRXSeekCHAll start stop step db skip) w count w') :
    Scanning w₁.globals w₁ ∧ w₁.globals.channels = [] ∧ ∃ w₂, w'.globals.channels = w₂.globals.channels ∧
      Runs b.env (Prog.doWhile (seekAllRound (w.globals.clamp stop) step db (if start < stop then 1 else 0)
        (qndStepTbl step.toNat)) start) w₁ () w₂ := by
  rw [qndRXSeekCHAll_eq] at run
  obtain ⟨pStop, w₀, clamped, run⟩ := runs_bind.mp run
  obtain ⟨rfl, rfl⟩ := achieves_stopInRange_clamp.ensures pStop w₀ clamped
  obtain ⟨stepvalue', w₁', prepared', run⟩ := runs_bind.mp run
  obtain ⟨rfl, rfl⟩ := prepared.det prepared'
  obtain ⟨_, w₂, loop, finish⟩ := runs_bind.mp run
  obtain ⟨leapIs, all, _⟩ := seekAllPrepare_ready step stepvalue w₁ prepared
  rw [leapIs, stepValue_inside b index] at loop
  exact ⟨⟨all, rfl⟩, seekAllPrepare_empties prepared, w₂,
    channels_kept (seekAllFinish_writes _) finish (by simp) (by simp), loop⟩

/-- The ways down of a scan, with the range that the driver has and the noise floor `g`. -/
def waysDown (ans : UINT16 → UINT8 → UINT8) (range g : Globals) (start stop : UINT16) (step db : UINT8) : Descent :=
  .scan (qndStepTbl step.toNat) (range.clamp stop) start (heard ans g db)

theorem qndRXSeekCHAll_down (answers : AnswersByFreq b ans) (index : step.toNat < 3) (down : stop ≤ start)
    (prepared : Runs b.env (seekAllPrepare step) w stepvalue w₁)
    (run : Runs b.env (qndRXSeekCHAll start stop step db skip) w count w') :
    InOrder start stop (w.globals.half .qndCHSTOP) w'.globals.channels ↔
      (waysDown ans w.globals w₁.globals start stop step db).Orderly start stop (w.globals.half .qndCHSTOP) := by
  obtain ⟨scanning, fresh, w₂, same, loop⟩ := qndRXSeekCHAll_loop index prepared run
  obtain ⟨moves, _⟩ := stepTbl_bounds step.toNat
  have inside : w.globals.clamp stop ≤ start := BitVec.le_trans clamp_le down
  have turn : decide ((if start < stop then (1 : UINT8) else 0) ≠ 0) = false := by
    rw [turn_iff]
    exact decide_eq_false (BitVec.not_lt.mpr down)
  have begins : (waysDown ans w.globals w₁.globals start stop step db).At start w₁.globals.channels 0 := by
    rw [fresh]
    exact .start inside rfl
  have ends : Ensures b.env (Prog.doWhile (seekAllRound (w.globals.clamp stop) step db
      (if start < stop then 1 else 0) (qndStepTbl step.toNat)) start) (fun _ w' => ∃ j,
        (waysDown ans w.globals w₁.globals start stop step db).Ended w'.globals.channels j) w₁ := by
    refine ensures_doWhile (fun x w' => Scanning w₁.globals w' ∧ ∃ j,
      (waysDown ans w.globals w₁.globals start stop step db).At x w'.globals.channels j) ?_ ⟨scanning, 0, begins⟩
    rintro x w' ⟨scanning, j, here⟩
    exact seekAllRound_down answers moves (stepValue_inside b index) turn scanning here
  obtain ⟨j, ended⟩ := ends () w₂ loop
  rw [same]
  exact ended.inOrder_iff moves down rfl

theorem qndRXSeekCHAll_above (answers : AnswersByFreq b ans) (index : step.toNat < 3) (up : start < stop)
    (above : w.globals.half .qndCHSTOP < start) (low : 20 ≤ (w.globals.half .qndCHSTOP).toNat)
    (high : (w.globals.half .qndCHSTOP).toNat + 20 < 65536)
    (prepared : Runs b.env (seekAllPrepare step) w stepvalue w₁)
    (run : Runs b.env (qndRXSeekCHAll start stop step db skip) w count w') :
    InOrder start stop (w.globals.half .qndCHSTOP) w'.globals.channels ↔
      (waysDown ans w.globals w₁.globals start stop step db).Orderly start stop (w.globals.half .qndCHSTOP) := by
  obtain ⟨scanning, fresh, w₂, same, loop⟩ := qndRXSeekCHAll_loop index prepared run
  obtain ⟨moves, small⟩ := stepTbl_bounds step.toNat
  have beyond : w.globals.half .qndCHSTOP < stop := Nat.lt_trans above up
  have clamped : w.globals.clamp stop = w.globals.half .qndCHSTOP := if_pos beyond
  have room : Room (qndStepTbl step.toNat) (w.globals.clamp stop) := by
    rw [clamped]
    exact ⟨moves, by omega, by omega⟩
  have turn : decide ((if start < stop then (1 : UINT8) else 0) ≠ 0) = true := by
    rw [turn_iff]
    exact decide_eq_true up
  have single (j : Nat) (reached : (waysDown ans w.globals w₁.globals start stop step db).Reached j) : j = 0 := by
    cases j with
    | zero => rfl
    | succ j =>
      have short : (w.globals.clamp stop).toNat < (qndStepTbl step.toNat).toNat :=
        (reached.1 j (Nat.lt_succ_self j)).1
      exact absurd room.below (Nat.not_le.mpr short)
  rw [same]
  rcases seekAllLoop_above answers index room (clamped ▸ above) turn scanning fresh () w₂ loop with
    ⟨silent, none⟩ | ⟨f, heard, listed⟩
  · refine iff_of_true ?_ fun j reached f member => ?_
    · rw [none]
      exact ⟨nofun, nofun, .nil⟩
    · rw [single j reached] at member
      exact absurd (silent ▸ member) List.not_mem_nil
  · have outside : ¬(stop ≤ f ∧ f ≤ w.globals.half .qndCHSTOP) :=
      fun inside => Nat.not_le.mpr beyond (BitVec.le_trans inside.1 inside.2)
    refine iff_of_false (fun ordered => ?_) fun orderly => ?_
    · have limited := ordered.inRange f listed
      rcases ordered.between f listed with up | down
      · exact Nat.not_le.mpr above (BitVec.le_trans up.1 limited)
      · exact outside ⟨down.1, limited⟩
    · have reached : (waysDown ans w.globals w₁.globals start stop step db).Reached 0 :=
        ⟨nofun, Nat.succ_pos _⟩
      obtain ⟨above', _, limited, _⟩ := orderly 0 reached f heard
      exact outside ⟨above', limited⟩

/-- When a scan lists its channels inside its limits and the driver's range, strictly in the order from
`start` to `stop`. Whatever the chip answers it does exactly when its start is inside the range and, if
it leads downwards, its stop is a step above 0. Otherwise a chip that answers by frequency may make it
do so: exactly when all that is heard on its ways down lies inside and comes in falling order. -/
theorem scan_in_order_iff {r : Range} (country : r ∈ countryRanges) (index : step.toNat < 3) :
    ((∀ (κ : Type) (b : Board κ) (w : Machine κ) (db skip : UINT8), w.globals.range = r →
      Ensures b.env (qndRXSeekCHAll start stop step db skip)
        (fun _ w' => InOrder start stop r.stop w'.globals.channels) w) ↔
      start ≤ r.stop ∧ (start < stop ∨ (qndStepTbl step.toNat).toNat ≤ stop.toNat)) ∧
    ∀ (κ : Type) (b : Board κ) (ans : UINT16 → UINT8 → UINT8) (w w₁ w' : Machine κ)
      (db skip stepvalue count : UINT8), AnswersByFreq b ans → w.globals.range = r →
      Runs b.env (seekAllPrepare step) w stepvalue w₁ →
      Runs b.env (qndRXSeekCHAll start stop step db skip) w count w' →
      (InOrder start stop r.stop w'.globals.channels ↔ start < stop ∧ start ≤ r.stop ∨
        (waysDown ans w.globals w₁.globals start stop step db).Orderly start stop r.stop) := by
  refine ⟨in_order_everywhere_iff country index, ?_⟩
  intro κ b ans w w₁ w' db skip stepvalue count answers same prepared run
  have limits : ∀ r ∈ countryRanges, 20 ≤ r.stop.toNat ∧ r.stop.toNat + 20 < 65536 := by decide
  obtain ⟨low, high⟩ := limits r country
  have limit : r.stop = w.globals.half .qndCHSTOP := congrArg Range.stop same.symm
  rw [limit] at low high ⊢
  by_cases up : start < stop
  · by_cases inside : start ≤ w.globals.half .qndCHSTOP
    · exact iff_of_true (qndRXSeekCHAll_inOrder low high index inside (.inl up) count w' run) (.inl ⟨up, inside⟩)
    · rw [or_iff_right fun within => inside within.2]
      exact qndRXSeekCHAll_above answers index up (BitVec.not_le.mp inside) low high prepared run
  · rw [or_iff_right fun within => up within.1]
    exact qndRXSeekCHAll_down answers index (BitVec.not_lt.mp up) prepared run

end

/-- A scan of the whole band, on any chip, and one from above the range on a chip that hears nothing. -/
theorem band_in_order : Ensures stationChip.env (qndRXSeekCHAll 7600 10800 1 0 0)
      (fun _ w' => InOrder 7600 10800 10800 w'.globals.channels) ⟨Globals.initial, 0⟩ ∧
    ∃ count w', Runs (constantChip fun _ => 0).env (qndRXSeekCHAll 10810 10820 1 0 0) ⟨Globals.initial, []⟩ count w' ∧
      InOrder 10810 10820 10800 w'.globals.channels := by
  constructor
  · exact (@scan_in_order_iff 7600 10800 1 ⟨7600, 10800, 1⟩ (by decide) (by decide)).1.mpr
      ⟨by decide, .inl (by decide)⟩ _ _ _ 0 0 rfl
  · have done : (exec (constantChip fun _ => 0).env 4 (seekAllPrepare 1) ⟨Globals.initial, []⟩).map
        (fun r => r.2.world) = some [] := by decide +kernel
    obtain ⟨stepvalue, w₁, prepared, _⟩ := exec_observe 4 _ done
    have scanned : (exec (constantChip fun _ => 0).env 4 (qndRXSeekCHAll 10810 10820 1 0 0)
        ⟨Globals.initial, []⟩).map (fun r => r.1) = some 0 := by decide +kernel
    obtain ⟨count, w', run, _⟩ := exec_observe 4 _ scanned
    refine ⟨count, w', run, ((@scan_in_order_iff 10810 10820 1 ⟨7600, 10800, 1⟩ (by decide) (by decide)).2 _ _ _ _ _ _
      0 0 _ _ (constantChip_answers _) rfl prepared run).mpr (.inr fun j _ f member => ?_)⟩
    have hears := (List.mem_filter.mp member).2
    have weak : rssiAbove 0 (w₁.globals.minRSSI f) 6 0 = false := decide_eq_false (Nat.not_lt_zero _)
    change heard (fun _ _ => 0) w₁.globals 0 f = true at hears
    rw [heard, acceptable, weak, Bool.false_and, Bool.false_and, Bool.false_and, Bool.and_false] at hears
    cases hears

/-- A scan from 108.1 to 108.2 MHz lists 108.1 MHz, above the end of the range. -/
theorem scan_beyond : ∃ count w', Runs (lateChip 1).env (qndRXSeekCHAll 10810 10820 1 0 0)
    ⟨quietIn ⟨7600, 10800, 1⟩, 0⟩ count w' ∧ w'.globals.channels = [10810] ∧
    ¬InOrder 10810 10820 10800 w'.globals.channels := by
  have done : (exec (lateChip 1).env 4 (qndRXSeekCHAll 10810 10820 1 0 0)
      ⟨quietIn ⟨7600, 10800, 1⟩, 0⟩).map (fun r => r.2.globals.channels) = some [10810] := by
    decide +kernel
  obtain ⟨count, w', run, listed⟩ := exec_observe 4 _ done
  refine ⟨count, w', run, listed, ?_⟩
  intro ordered
  have inside := ordered.inRange 10810 (by rw [listed]; exact List.mem_singleton_self _)
  exact absurd inside (by decide)

end Yika.Fm
