import Mathlib.Tactic.IntervalCases
import Yika.Fm.Tuning

/-! CH_STEP holds the high bits of the channel, of both ends of a scan, and its step: what
`QNF_SetCh` and `QNF_ConfigScan` leave of each other's settings. -/

namespace Yika.Fm
open Program

def FSTEP : UINT8 := 0xc0

/-- What `QNF_ConfigScan` makes of the registers. -/
def configScan (start stop : UINT16) (step : UINT8) (r : Regs) : Regs :=
  Function.update (Function.update (Function.update r CH_START ((freq2chreg start).setWidth 8))
    CH_STOP ((freq2chreg stop).setWidth 8)) CH_STEP
      (((freq2chreg start >>> 6).setWidth 8 &&& CH_CH_START) |||
        ((freq2chreg stop >>> 4).setWidth 8 &&& CH_CH_STOP) ||| (step <<< 6))

/-! The settings of the scan, decoded. -/

def scanStart (r : Regs) : UINT16 :=
  chreg2freq ((((r CH_STEP &&& CH_CH_START).setWidth 16) <<< 6) + (r CH_START).setWidth 16)

def scanStop (r : Regs) : UINT16 :=
  chreg2freq ((((r CH_STEP &&& CH_CH_STOP).setWidth 16) <<< 4) + (r CH_STOP).setWidth 16)

def scanStep (r : Regs) : UINT8 := (r CH_STEP &&& FSTEP) >>> 6

def Tunable (freq : UINT16) : Prop :=
  7600 ≤ freq.toNat ∧ freq.toNat ≤ 10800 ∧ freq.toNat % 5 = 0

inductive ScanCall where
  | setCh (freq : UINT16)
  | configScan (start stop : UINT16) (step : UINT8)

def ScanCall.run : ScanCall → Drv Unit
  | .setCh freq => qnfSetCh freq
  | .configScan start stop step => qnfConfigScan start stop step

def ScanCall.effect : ScanCall → Regs → Regs
  | .setCh freq => Fm.setCh freq
  | .configScan start stop step => Fm.configScan start stop step

def ScanCall.Valid : ScanCall → Prop
  | .setCh freq => Tunable freq
  | .configScan start stop step => Tunable start ∧ Tunable stop ∧ step.toNat < 3

def ScanCall.channel : ScanCall → Option UINT16
  | .setCh freq => some freq
  | .configScan _ _ _ => none

def ScanCall.scan : ScanCall → Option (UINT16 × UINT16 × UINT8)
  | .setCh _ => none
  | .configScan start stop step => some (start, stop, step)

def scanCalls : List ScanCall → Drv Unit
  | [] => pure ()
  | call :: rest => do
    call.run
    scanCalls rest

/-! Packing. -/

section
variable {c : UINT16}

theorem narrow_cases {P : UINT16 → Prop} (all : ∀ d : BitVec 10, P (d.setWidth 16))
    (small : c.toNat < 1024) : P c := by
  have same : c = (c.setWidth 10).setWidth 16 := by
    apply BitVec.eq_of_toNat_eq
    rw [BitVec.toNat_setWidth, BitVec.toNat_setWidth]
    omega
  rw [same]
  exact all _

theorem start_joined (small : c.toNat < 1024) :
    (((c >>> 6).setWidth 8 &&& CH_CH_START).setWidth 16 <<< 6) + (c.setWidth 8).setWidth 16 = c := by
  apply narrow_cases _ small
  decide +kernel

theorem stop_joined (small : c.toNat < 1024) :
    (((c >>> 4).setWidth 8 &&& CH_CH_STOP).setWidth 16 <<< 4) + (c.setWidth 8).setWidth 16 = c := by
  apply narrow_cases _ small
  decide +kernel

end

section
variable (high low step : UINT8)

/-- The byte that `QNF_ConfigScan` writes to CH_STEP. -/
def packed : UINT8 := (high &&& CH_CH_START) ||| (low &&& CH_CH_STOP) ||| (step <<< 6)

theorem packed_fields :
    packed high low step &&& CH_CH_START = high &&& CH_CH_START ∧
      packed high low step &&& CH_CH_STOP = low &&& CH_CH_STOP ∧
      packed high low step &&& FSTEP = step <<< 6 ∧ packed high low step &&& CH_CH = 0 := by
  refine ⟨?_, ?_, ?_, ?_⟩
  all_goals
    apply BitVec.eq_of_getLsbD_eq
    intro i bound
    interval_cases i <;> simp [packed, CH_CH_START, CH_CH_STOP, FSTEP, CH_CH]

end

section
variable {freq start stop : UINT16} {step : UINT8} {r : Regs}

theorem Tunable.channel (tunable : Tunable freq) :
    (freq2chreg freq).toNat = (freq.toNat - 7600) / 5 := freq2chreg_grid tunable.1 tunable.2.2

theorem Tunable.narrow (tunable : Tunable freq) : (freq2chreg freq).toNat < 1024 := by
  have high := tunable.2.1
  rw [tunable.channel]
  omega

theorem Tunable.chreg2freq (tunable : Tunable freq) : chreg2freq (freq2chreg freq) = freq := by
  obtain ⟨low, high, grid⟩ := tunable
  apply BitVec.eq_of_toNat_eq
  rw [Fm.chreg2freq, BitVec.toNat_add, BitVec.toNat_mul, freq2chreg_grid low grid]
  change ((freq.toNat - 7600) / 5 * 5 % 65536 + 7600) % 65536 = freq.toNat
  omega

theorem configScan_step : configScan start stop step r CH_STEP =
    packed ((freq2chreg start >>> 6).setWidth 8) ((freq2chreg stop >>> 4).setWidth 8) step :=
  Function.update_self _ _ _

theorem configScan_start : configScan start stop step r CH_START = (freq2chreg start).setWidth 8 := by
  unfold configScan
  rw [Function.update_of_ne (by decide), Function.update_of_ne (by decide), Function.update_self]

theorem configScan_stop : configScan start stop step r CH_STOP = (freq2chreg stop).setWidth 8 := by
  unfold configScan
  rw [Function.update_of_ne (by decide), Function.update_self]

theorem configScan_ch : configScan start stop step r CH = r CH := by
  unfold configScan
  rw [Function.update_of_ne (by decide), Function.update_of_ne (by decide),
    Function.update_of_ne (by decide)]

theorem configScan_decodes (low : Tunable start) (high : Tunable stop) (valid : step.toNat < 3) :
    scanStart (configScan start stop step r) = start ∧
      scanStop (configScan start stop step r) = stop ∧
      scanStep (configScan start stop step r) = step := by
  obtain ⟨first, last, leap, _⟩ := packed_fields ((freq2chreg start >>> 6).setWidth 8)
    ((freq2chreg stop >>> 4).setWidth 8) step
  refine ⟨?_, ?_, ?_⟩
  · rw [scanStart, configScan_step, first, configScan_start, start_joined low.narrow,
      low.chreg2freq]
  · rw [scanStop, configScan_step, last, configScan_stop, stop_joined high.narrow, high.chreg2freq]
  · rw [scanStep, configScan_step, leap]
    apply BitVec.eq_of_toNat_eq
    rw [BitVec.toNat_ushiftRight, BitVec.toNat_shiftLeft, Nat.shiftLeft_eq, Nat.shiftRight_eq_div_pow]
    omega

theorem setCh_scan : scanStart (setCh freq r) = scanStart r ∧ scanStop (setCh freq r) = scanStop r ∧
    scanStep (setCh freq r) = scanStep r := by
  have start : CH_CH &&& CH_CH_START = 0 := by decide
  have stop : CH_CH &&& CH_CH_STOP = 0 := by decide
  have step : CH_CH &&& FSTEP = 0 := by decide
  refine ⟨?_, ?_, ?_⟩
  · rw [scanStart, setCh_high, mask_outside start, setCh_other (by decide) (by decide), scanStart]
  · rw [scanStop, setCh_high, mask_outside stop, setCh_other (by decide) (by decide), scanStop]
  · rw [scanStep, setCh_high, mask_outside step, scanStep]

/-- Without its high bits a channel is found again only below 8880. -/
theorem getCh_low_iff (tunable : Tunable freq) (low : r CH = (freq2chreg freq).setWidth 8)
    (cleared : r CH_STEP &&& CH_CH = 0) : getCh r = freq ↔ freq.toNat < 8880 := by
  have channel := tunable.channel
  obtain ⟨above, below, grid⟩ := tunable
  have none : (0 : UINT8).setWidth 16 <<< 8 = 0#16 := by decide
  have got : (getCh r).toNat = (freq2chreg freq).toNat % 256 * 5 + 7600 := by
    rw [getCh, low, cleared, none, BitVec.zero_add, chreg2freq, BitVec.toNat_add, BitVec.toNat_mul,
      BitVec.toNat_setWidth, BitVec.toNat_setWidth]
    change (_ % 256 % 65536 * 5 % 65536 + 7600) % 65536 = _
    omega
  rw [← BitVec.toNat_inj, got, channel]
  omega

end

/-! Sequences of calls. -/

def lastChannel (calls : List ScanCall) : Option UINT16 := (calls.filterMap ScanCall.channel).getLast?

def lastScan (calls : List ScanCall) : Option (UINT16 × UINT16 × UINT8) :=
  (calls.filterMap ScanCall.scan).getLast?

structure Leaves (calls : List ScanCall) (r : Regs) : Prop where
  scan : ∀ settings, lastScan calls = some settings → (scanStart r, scanStop r, scanStep r) = settings
  low : ∀ freq, lastChannel calls = some freq →
    Tunable freq ∧ r CH = (freq2chreg freq).setWidth 8
  high : ∀ freq, calls.getLast? = some (.setCh freq) → lastChannel calls = some freq ∧ getCh r = freq
  cleared : ∀ start stop step, calls.getLast? = some (.configScan start stop step) →
    r CH_STEP &&& CH_CH = 0

theorem calls_leave (r : Regs) (calls : List ScanCall) (valid : ∀ call ∈ calls, call.Valid) :
    Leaves calls (calls.foldl (fun r call => call.effect r) r) := by
  induction calls using List.reverseRecOn with
  | nil =>
    constructor
    · intro settings last
      cases last
    · intro freq last
      cases last
    · intro freq last
      cases last
    · intro start stop step last
      cases last
  | append_singleton calls call ih =>
    have before := ih fun call member => valid call (List.mem_append_left _ member)
    have last : call.Valid := valid call (by simp)
    rw [List.foldl_append, List.foldl_cons, List.foldl_nil]
    generalize calls.foldl (fun r call => call.effect r) r = r₁ at before ⊢
    cases call with
    | setCh freq =>
      have channel : lastChannel (calls ++ [.setCh freq]) = some freq := by
        simp [lastChannel, ScanCall.channel]
      constructor
      · intro settings found
        have same : lastScan (calls ++ [.setCh freq]) = lastScan calls := by
          simp [lastScan, ScanCall.scan]
        obtain ⟨start, stop, step⟩ := @setCh_scan freq r₁
        rw [same] at found
        rw [← before.scan settings found]
        exact Prod.ext start (Prod.ext stop step)
      · intro freq' found
        rw [channel, Option.some.injEq] at found
        subst found
        exact ⟨last, setCh_low⟩
      · intro freq' found
        rw [List.getLast?_concat, Option.some.injEq, ScanCall.setCh.injEq] at found
        subst found
        exact ⟨channel, getCh_setCh last.1 last.2.1 last.2.2⟩
      · intro start stop step found
        rw [List.getLast?_concat, Option.some.injEq] at found
        cases found
    | configScan start stop step =>
      have channel : lastChannel (calls ++ [.configScan start stop step]) = lastChannel calls := by
        simp [lastChannel, ScanCall.channel]
      constructor
      · intro settings found
        have same : lastScan (calls ++ [.configScan start stop step]) = some (start, stop, step) := by
          simp [lastScan, ScanCall.scan]
        obtain ⟨first, final, leap⟩ := @configScan_decodes start stop step r₁ last.1 last.2.1 last.2.2
        rw [same, Option.some.injEq] at found
        subst found
        exact Prod.ext first (Prod.ext final leap)
      · intro freq found
        rw [channel] at found
        obtain ⟨tunable, low⟩ := before.low freq found
        exact ⟨tunable, configScan_ch.trans low⟩
      · intro freq found
        rw [List.getLast?_concat, Option.some.injEq] at found
        cases found
      · intro start' stop' step' found
        exact (congrArg (· &&& CH_CH) configScan_step).trans (packed_fields _ _ _).2.2.2

section
variable {κ : Type} {b : Board κ} {regs : κ → Regs} {w : Machine κ}

theorem qnfConfigScan_makes (chip : HoldsRegisters b regs) (start stop : UINT16) (step : UINT8) :
    Makes b regs (qnfConfigScan start stop step) (configScan start stop step) :=
  (makes_write chip CH_START _).seq fun _ => (makes_write chip CH_STOP _).seq fun _ =>
    makes_write chip CH_STEP _

theorem ScanCall.run_makes (chip : HoldsRegisters b regs) (call : ScanCall) :
    Makes b regs call.run call.effect := by
  cases call with
  | setCh freq => exact qnfSetCh_makes chip freq
  | configScan start stop step => exact qnfConfigScan_makes chip start stop step

theorem scanCalls_makes (chip : HoldsRegisters b regs) (calls : List ScanCall) :
    Makes b regs (scanCalls calls) fun r => calls.foldl (fun r call => call.effect r) r := by
  induction calls with
  | nil => exact makes_pure ()
  | cons call rest ih => exact (call.run_makes chip).seq fun _ => ih

/-- The settings of the last scan are always found again; the last channel, exactly when no scan
has been set up after it or its two high bits are 0. -/
theorem settings_shared_iff (chip : HoldsRegisters b regs) (calls : List ScanCall)
    (valid : ∀ call ∈ calls, call.Valid) {freq : UINT16} (channel : lastChannel calls = some freq)
    {settings : UINT16 × UINT16 × UINT8} (scan : lastScan calls = some settings) :
    Achieves b.env (do
      scanCalls calls
      qnfGetCh) (fun got w' =>
        (got = freq ∧ (scanStart (regs w'.world), scanStop (regs w'.world), scanStep (regs w'.world)) =
          settings) ↔ (∃ last, calls.getLast? = some (.setCh last)) ∨ freq.toNat < 8880) w := by
  rw [achieves_bind]
  apply (scanCalls_makes chip calls w).mono
  intro _ w₁ made
  apply (qnfGetCh_reads chip).mono
  intro got w' read
  obtain ⟨rfl, same⟩ := read
  have leaves : Leaves calls (regs w₁.world) := by
    rw [made]
    exact calls_leave (regs w.world) calls valid
  rw [same, and_iff_left (leaves.scan settings scan)]
  obtain ⟨tunable, low⟩ := leaves.low freq channel
  cases last : calls.getLast? with
  | none =>
    rw [List.getLast?_eq_none_iff.mp last] at channel
    cases channel
  | some call =>
    cases call with
    | setCh f =>
      obtain ⟨same, got⟩ := leaves.high f last
      rw [channel, Option.some.injEq] at same
      subst same
      exact iff_of_true got (.inl ⟨freq, rfl⟩)
    | configScan start stop step =>
      rw [getCh_low_iff tunable low (leaves.cleared start stop step last)]
      simp

end

/-- A channel set after the scan. -/
theorem channel_set_last :
    Achieves memoryChip.env (do
      scanCalls [.configScan 7600 10800 1, .setCh 10130]
      qnfGetCh) (fun got w' => (got = 10130 ∧ (scanStart w'.world, scanStop w'.world, scanStep w'.world) =
        (7600, 10800, 1)) ↔ (∃ last, [ScanCall.configScan 7600 10800 1, .setCh 10130].getLast? =
          some (.setCh last)) ∨ (10130 : UINT16).toNat < 8880) clearedChip := by
  apply settings_shared_iff (registerFile_holds _ _)
  · simp [ScanCall.Valid, Tunable]
  · rfl
  · rfl

/-- A scan set up after the channel. -/
theorem channel_cut : lastChannel [.setCh 10130, .configScan 7600 10800 1] = some 10130 ∧
    ∃ w', Runs memoryChip.env (do
      scanCalls [.setCh 10130, .configScan 7600 10800 1]
      qnfGetCh) clearedChip 8850 w' := by
  have done : (exec memoryChip.env 1 (do
      scanCalls [.setCh 10130, .configScan 7600 10800 1]
      qnfGetCh) clearedChip).map (fun r => r.1) = some 8850 := by decide +kernel
  obtain ⟨got, w', run, rfl⟩ := exec_observe 1 _ done
  exact ⟨rfl, w', run⟩

end Yika.Fm
