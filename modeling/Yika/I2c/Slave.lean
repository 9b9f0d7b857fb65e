import Yika.I2c.Transfer

/-! A chip on the bus: what it makes of the clock and of the conditions on the lines, and what the
transfers of the master do to its registers. -/

namespace Yika.I2c
open Program

structure RegisterFile (κ : Type) where
  read : UINT8 → κ → UINT8 × κ
  write : UINT8 → UINT8 → κ → κ

inductive Role where
  | address
  | register (reading : Bool)
  | data (register : UINT8)

/-- `bits` are those received so far, or those still to be sent. -/
inductive Phase where
  | idle
  | receiving (role : Role) (bits : List Bool)
  | acknowledging (next : Phase)
  | sending (register : UINT8) (bits : List Bool)

def Phase.level : Phase → Bool
  | .acknowledging _ => false
  | .sending _ (bit :: _) => bit
  | _ => true

def bitsOf (data : UINT8) : List Bool := (List.range 8).map data.getMsbD

variable {κ : Type}

/-- The register is read when its byte begins. -/
def RegisterFile.send (r : RegisterFile κ) (register : UINT8) (chip : κ) : Phase × κ :=
  (.sending register (bitsOf (r.read register chip).1), (r.read register chip).2)

/-- A whole byte has been received by the chip of the address `own`. -/
def RegisterFile.received (r : RegisterFile κ) (own : UINT8) (byte : UINT8) (chip : κ) :
    Role → Phase × κ
  | .address =>
    if byte >>> 1 = own then (.acknowledging (.receiving (.register (byte.getLsbD 0)) []), chip)
    else (.idle, chip)
  | .register true => (.acknowledging (r.send byte chip).1, (r.send byte chip).2)
  | .register false => (.acknowledging (.receiving (.data byte) []), chip)
  | .data register =>
    (.acknowledging (.receiving (.data (register + 1)) []), r.write register byte chip)

def RegisterFile.clock (r : RegisterFile κ) (own : UINT8) (level : Bool) : Phase × κ → Phase × κ
  | (.idle, chip) => (.idle, chip)
  | (.acknowledging next, chip) => (next, chip)
  | (.receiving role bits, chip) =>
    if bits.length < 7 then (.receiving role (bits ++ [level]), chip)
    else r.received own (assemble (bits ++ [level])) chip role
  | (.sending register (_ :: bits), chip) => (.sending register bits, chip)
  | (.sending register [], chip) => if level then (.idle, chip) else r.send (register + 1) chip

/-- The pins of the master and the chip; `sampled` is the level of the clock pulse in progress. -/
structure Wired (κ : Type) where
  sclOut : Bool
  sdaOut : Bool
  scl : Bool
  sda : Bool
  sampled : Option Bool
  phase : Phase
  chip : κ

def Wired.sclLine (k : Wired κ) : Bool := !k.sclOut || k.scl

def Wired.sdaLine (k : Wired κ) : Bool := if k.sdaOut then k.sda else k.phase.level

def Wired.settle (r : RegisterFile κ) (own : UINT8) (before after : Wired κ) : Wired κ :=
  if before.sclLine && after.sclLine then
    if before.sdaLine && !after.sdaLine then
      { after with sampled := none, phase := .receiving .address [] }
    else if !before.sdaLine && after.sdaLine then { after with sampled := none, phase := .idle }
    else after
  else if after.sclLine then { after with sampled := some after.sdaLine }
  else
    match before.sampled with
    | some level => { after with
        sampled := none
        phase := (r.clock own level (after.phase, after.chip)).1
        chip := (r.clock own level (after.phase, after.chip)).2 }
    | none => after

def wiredEnv (r : RegisterFile κ) (own : UINT8) : Env pinSignature (Wired κ)
  | .mode _, k => ((), k)
  | .dir .scl output, k => ((), k.settle r own { k with sclOut := output })
  | .dir .sda output, k => ((), k.settle r own { k with sdaOut := output })
  | .set .scl level, k => ((), k.settle r own { k with scl := level })
  | .set .sda level, k => ((), k.settle r own { k with sda := level })
  | .readSda, k => (k.sdaLine, k)

section
variable {r : RegisterFile κ} {own : UINT8} {k : Wired κ} {post : Unit → Wired κ → Prop}
  {postBool : Bool → Wired κ → Prop}

@[simp] theorem achieves_wiredMode {pin : Pin} :
    Achieves (wiredEnv r own) (pinMode pin) post k ↔ post () k := achieves_perform

@[simp] theorem achieves_wiredSclDir {output : Bool} :
    Achieves (wiredEnv r own) (pinDir .scl output) post k ↔
      post () (k.settle r own { k with sclOut := output }) := achieves_perform

@[simp] theorem achieves_wiredSdaDir {output : Bool} :
    Achieves (wiredEnv r own) (pinDir .sda output) post k ↔
      post () (k.settle r own { k with sdaOut := output }) := achieves_perform

@[simp] theorem achieves_wiredScl {level : Bool} :
    Achieves (wiredEnv r own) (pinSet .scl level) post k ↔
      post () (k.settle r own { k with scl := level }) := achieves_perform

@[simp] theorem achieves_wiredSda {level : Bool} :
    Achieves (wiredEnv r own) (pinSet .sda level) post k ↔
      post () (k.settle r own { k with sda := level }) := achieves_perform

@[simp] theorem achieves_wiredRead :
    Achieves (wiredEnv r own) readSda postBool k ↔ postBool k.sdaLine k := achieves_perform

/-! The chip and whole bytes. -/

theorem assemble_bitsOf (data : UINT8) : assemble (bitsOf data) = data := by
  revert data
  decide

def RegisterFile.clocks (r : RegisterFile κ) (own : UINT8) (levels : List Bool) (s : Phase × κ) :
    Phase × κ :=
  levels.foldl (fun s level => r.clock own level s) s

theorem clocks_idle (levels : List Bool) (chip : κ) :
    r.clocks own levels (.idle, chip) = (.idle, chip) := by
  induction levels with
  | nil => rfl
  | cons level levels ih => exact ih

theorem clocks_received (role : Role) (data : UINT8) (chip : κ) :
    r.clocks own (bitsOf data) (.receiving role [], chip) = r.received own data chip role := by
  have whole := assemble_bitsOf data
  have bits : bitsOf data = [data.getMsbD 0, data.getMsbD 1, data.getMsbD 2, data.getMsbD 3,
      data.getMsbD 4, data.getMsbD 5, data.getMsbD 6, data.getMsbD 7] := rfl
  rw [bits] at whole ⊢
  simp only [RegisterFile.clocks, List.foldl_cons, List.foldl_nil, RegisterFile.clock, List.nil_append,
    List.cons_append, List.length_nil, List.length_cons, Nat.reduceAdd, Nat.reduceLT, ↓reduceIte, whole]

/-! Bits. -/

/-- SCL is low, and the chip is in the state `s`. -/
def Wired.low (driven sda : Bool) (s : Phase × κ) : Wired κ := ⟨true, driven, false, sda, none, s.1, s.2⟩

/-- The latches are those between two transfers; the next START finds the chip in whatever phase
it is. -/
structure Ready (k : Wired κ) : Prop where
  scl : k.scl = true
  sda : k.sda = true

variable {sda : Bool} {s : Phase × κ} {chip : κ}

theorem writeBit_wired (i : UINT8) :
    Achieves (wiredEnv r own) (qn8006I2cWriteBit i)
      (fun _ k' => k' = .low true (decide (i ≠ 0)) (r.clock own (decide (i ≠ 0)) s)) (.low true sda s) := by
  simp [qn8006I2cWriteBit, qn8006SetSCL, qn8006SetSDA, Wired.settle, Wired.sclLine, Wired.sdaLine, Wired.low]

theorem writeBits_wired (left : Nat) (data : UINT8) :
    Achieves (wiredEnv r own) (writeBits left data) (fun _ k' => ∃ sda', k' = .low true sda'
      (r.clocks own ((List.range left).map data.getMsbD) s)) (.low true sda s) := by
  induction left generalizing sda s data with
  | zero =>
    rw [writeBits, achieves_pure]
    exact ⟨sda, rfl⟩
  | succ left ih =>
    rw [writeBits, achieves_bind]
    apply (writeBit_wired (data >>> 7)).mono
    rintro _ k₁ rfl
    apply (ih (data <<< 1)).mono
    rintro _ k₂ ⟨sda', rfl⟩
    have bits : (List.range (left + 1)).map data.getMsbD =
        decide (data >>> 7 ≠ 0) :: (List.range left).map (data <<< 1).getMsbD := by
      simp only [List.range_succ_eq_map, List.map_cons, List.map_map, top_bit]
      congr 1
      apply List.map_congr_left
      intro i _
      simp [BitVec.getMsbD_shiftLeft]
    rw [bits]
    exact ⟨sda', rfl⟩

theorem writeByte_received (role : Role) (data : UINT8) :
    Achieves (wiredEnv r own) (qn8006I2cWriteByte data) (fun _ k' => ∃ sda', k' =
      .low true sda' (r.received own data chip role)) (.low true sda (.receiving role [], chip)) := by
  have written : Achieves (wiredEnv r own) (qn8006I2cWriteByte data) (fun _ k' => ∃ sda', k' =
      .low true sda' (r.clocks own (bitsOf data) (.receiving role [], chip)))
      (.low true sda (.receiving role [], chip)) := writeBits_wired 8 data
  rwa [clocks_received] at written

theorem writeByte_idle (data : UINT8) :
    Achieves (wiredEnv r own) (qn8006I2cWriteByte data) (fun _ k' => ∃ sda', k' =
      .low true sda' (.idle, chip)) (.low true sda (.idle, chip)) := by
  have written : Achieves (wiredEnv r own) (qn8006I2cWriteByte data) (fun _ k' => ∃ sda', k' =
      .low true sda' (r.clocks own (bitsOf data) (.idle, chip))) (.low true sda (.idle, chip)) :=
    writeBits_wired 8 data
  rwa [clocks_idle] at written

theorem checkAck_wired (next : Phase) :
    Achieves (wiredEnv r own) qn8006I2cCheckAck (fun succ k' => succ = 1 ∧ k' =
      .low true sda (next, chip)) (.low true sda (.acknowledging next, chip)) := by
  have look : Runs (wiredEnv r own) (pollAck 0)
      ⟨true, false, true, sda, some false, .acknowledging next, chip⟩ (.inr 1)
      ⟨true, false, true, sda, some false, .acknowledging next, chip⟩ := by
    have one : Achieves (wiredEnv r own) (pollAck 0) (fun out k' => out = .inr 1 ∧
        k' = ⟨true, false, true, sda, some false, .acknowledging next, chip⟩)
        ⟨true, false, true, sda, some false, .acknowledging next, chip⟩ := by
      simp [pollAck, i2cSdaRead, Wired.sdaLine, Phase.level]
    obtain ⟨_, _, run, rfl, rfl⟩ := one
    exact run
  unfold qn8006I2cCheckAck qn8006SetSCL
  rw [achieves_bind, achieves_wiredSdaDir, achieves_bind, achieves_wiredScl]
  have high : Wired.settle r own (Wired.settle r own (.low true sda (.acknowledging next, chip))
        { Wired.low true sda (.acknowledging next, chip) with sdaOut := false })
        { Wired.settle r own (.low true sda (.acknowledging next, chip))
          { Wired.low true sda (.acknowledging next, chip) with sdaOut := false } with scl := decide ((1 : UINT8) ≠ 0) } =
      ⟨true, false, true, sda, some false, .acknowledging next, chip⟩ := by
    simp [Wired.settle, Wired.sclLine, Wired.sdaLine, Wired.low, Phase.level]
  rw [high]
  apply (runs_doWhile.mpr (.inl look)).then_achieves
  simp [Wired.settle, Wired.sclLine, Wired.low, RegisterFile.clock]

theorem pollAck_silent (silent : k.sdaLine = true) :
    Achieves (wiredEnv r own) (Prog.doWhile pollAck 0) (fun succ k' => succ = 0 ∧ k' = k) k := by
  apply achieves_doWhile (fun (time : UINT8) k' => time.toNat ≤ I2C_TIME_OUT.toNat ∧ k' = k)
    fun time _ => I2C_TIME_OUT.toNat - time.toNat
  · rintro time k' ⟨within, rfl⟩
    have limit : I2C_TIME_OUT.toNat = 20 := rfl
    have count : (time + 1).toNat = time.toNat + 1 := by
      rw [BitVec.toNat_add]
      exact Nat.mod_eq_of_lt (show time.toNat + 1 < 256 by omega)
    simp only [pollAck, i2cSdaRead, achieves_bind, achieves_wiredRead, achieves_pure, silent]
    rw [if_neg (by decide)]
    by_cases late : I2C_TIME_OUT < time + 1
    · rw [if_pos late, achieves_pure]
      exact ⟨rfl, rfl⟩
    · have early : time.toNat + 1 ≤ I2C_TIME_OUT.toNat := by
        rw [← count]
        exact Nat.le_of_not_lt late
      rw [if_neg late, achieves_pure, Sum.elim_inl, count]
      exact ⟨⟨early, rfl⟩, by omega⟩
  · exact ⟨Nat.zero_le _, rfl⟩

theorem checkAck_idle :
    Achieves (wiredEnv r own) qn8006I2cCheckAck (fun succ k' => succ = 0 ∧ k' =
      .low true sda (.idle, chip)) (.low true sda (.idle, chip)) := by
  unfold qn8006I2cCheckAck qn8006SetSCL
  rw [achieves_bind, achieves_wiredSdaDir, achieves_bind, achieves_wiredScl]
  have high : Wired.settle r own (Wired.settle r own (.low true sda (.idle, chip))
        { Wired.low true sda (.idle, chip) with sdaOut := false })
        { Wired.settle r own (.low true sda (.idle, chip))
          { Wired.low true sda (.idle, chip) with sdaOut := false } with scl := decide ((1 : UINT8) ≠ 0) } =
      ⟨true, false, true, sda, some true, .idle, chip⟩ := by
    simp [Wired.settle, Wired.sclLine, Wired.sdaLine, Wired.low, Phase.level]
  rw [high, achieves_bind]
  apply (pollAck_silent rfl).mono
  rintro _ _ ⟨rfl, rfl⟩
  simp [Wired.settle, Wired.sclLine, Wired.low, RegisterFile.clock]

/-! The frame of a transfer. -/

theorem Ready.output (ready : Ready k) (r : RegisterFile κ) (own : UINT8) : Ready (k.settle r own { k with sdaOut := true }) ∧
    (k.settle r own { k with sdaOut := true }).chip = k.chip := by
  obtain ⟨sclOut, sdaOut, scl, sda, sampled, phase, chip⟩ := k
  obtain ⟨rfl, rfl⟩ := ready
  cases held : (⟨sclOut, sdaOut, true, true, sampled, phase, chip⟩ : Wired κ).sdaLine with
  | true =>
    simp only [Wired.settle, Wired.sclLine, held]
    simp [Wired.sdaLine, Ready.mk]
  | false =>
    simp only [Wired.settle, Wired.sclLine, held]
    simp [Wired.sdaLine, Ready.mk]

theorem start_wired (ready : Ready k) :
    Achieves (wiredEnv r own) qn8006I2cStart (fun _ k' => k' =
      .low true false (.receiving .address [], k.chip)) k := by
  obtain ⟨sclOut, sdaOut, scl, sda, sampled, phase, chip⟩ := k
  obtain ⟨rfl, rfl⟩ := ready
  cases held : (⟨sclOut, sdaOut, true, true, sampled, phase, chip⟩ : Wired κ).sdaLine with
  | true =>
    simp [qn8006I2cStart, qn8006SetSCL, qn8006SetSDA, Wired.settle, Wired.sclLine, held, Wired.low]
    simp [Wired.sdaLine]
  | false =>
    simp [qn8006I2cStart, qn8006SetSCL, qn8006SetSDA, Wired.settle, Wired.sclLine, held, Wired.low]
    simp [Wired.sdaLine]

def Wired.rest (chip : κ) : Wired κ := ⟨true, true, true, true, none, .idle, chip⟩

theorem rest_ready : Ready (.rest chip : Wired κ) := ⟨rfl, rfl⟩

theorem stop_wired {driven : Bool} :
    Achieves (wiredEnv r own) qn8006I2cStop (fun _ k' => k' = .rest s.2) (.low driven sda s) := by
  simp [qn8006I2cStop, qn8006SetSCL, qn8006SetSDA, Wired.settle, Wired.sclLine, Wired.sdaLine,
    Wired.low, Wired.rest]

/-- At most `count` bits of an address byte have been received. -/
def Phase.Early (count : Nat) : Phase → Prop
  | .idle => True
  | .receiving .address bits => bits.length ≤ count
  | _ => False

theorem clock_early {count : Nat} (few : count < 7) {phase : Phase} (early : phase.Early count)
    (level : Bool) : (r.clock own level (phase, chip)).1.Early (count + 1) ∧
      (r.clock own level (phase, chip)).2 = chip := by
  match phase, early with
  | .idle, _ => exact ⟨trivial, rfl⟩
  | .receiving .address bits, early =>
    have short : bits.length < 7 := Nat.lt_of_le_of_lt early few
    rw [RegisterFile.clock, if_pos short]
    refine ⟨?_, rfl⟩
    rw [Phase.Early, List.length_append]
    exact Nat.succ_le_succ early

/-- No register is touched before a byte has come to its end. -/
theorem settle_early (r : RegisterFile κ) (own : UINT8) {count : Nat} (few : count < 7)
    (before after : Wired κ) (early : after.phase.Early count) :
    (before.settle r own after).phase.Early (count + 1) ∧ (before.settle r own after).chip = after.chip ∧
      (before.settle r own after).scl = after.scl ∧ (before.settle r own after).sda = after.sda := by
  have kept : after.phase.Early (count + 1) := by
    match after.phase, early with
    | .idle, _ => trivial
    | .receiving .address bits, early => exact Nat.le_succ_of_le early
  unfold Wired.settle
  split
  next =>
    split
    next => exact ⟨Nat.zero_le _, rfl, rfl, rfl⟩
    next =>
      split
      next => exact ⟨trivial, rfl, rfl, rfl⟩
      next => exact ⟨kept, rfl, rfl, rfl⟩
  next =>
    split
    next => exact ⟨kept, rfl, rfl, rfl⟩
    next =>
      split
      next level _ => exact ⟨(clock_early few early level).1, (clock_early few early level).2, rfl, rfl⟩
      next => exact ⟨kept, rfl, rfl, rfl⟩

theorem initial_wired (idle : k.phase = .idle) :
    Achieves (wiredEnv r own) qn8006I2cInitial (fun _ k' => Ready k' ∧ k'.chip = k.chip) k := by
  have start : k.phase.Early 0 := by
    rw [idle]
    trivial
  simp only [qn8006I2cInitial, achieves_bind, achieves_wiredMode, achieves_wiredSdaDir,
    achieves_wiredSclDir, achieves_wiredScl, achieves_wiredSda]
  obtain ⟨early₁, chip₁, _⟩ := settle_early r own (by decide) k { k with sdaOut := true } start
  generalize k.settle r own { k with sdaOut := true } = k₁ at early₁ chip₁ ⊢
  obtain ⟨early₂, chip₂, _⟩ := settle_early r own (by decide) k₁ { k₁ with sclOut := true } early₁
  generalize k₁.settle r own { k₁ with sclOut := true } = k₂ at early₂ chip₂ ⊢
  obtain ⟨early₃, chip₃, _, sda₃⟩ := settle_early r own (by decide) k₂ { k₂ with sda := true } early₂
  generalize k₂.settle r own { k₂ with sda := true } = k₃ at early₃ chip₃ sda₃ ⊢
  obtain ⟨_, chip₄, scl₄, sda₄⟩ := settle_early r own (by decide) k₃ { k₃ with scl := true } early₃
  exact ⟨⟨scl₄, sda₄.trans sda₃⟩, chip₄.trans (chip₃.trans (chip₂.trans chip₁))⟩

/-- The address byte calls this chip. -/
theorem sendAddress_wired (ready : Ready k) {temp : UINT8} (called : temp >>> 1 = own) :
    Achieves (wiredEnv r own) (sendAddress temp) (fun succ k' => succ = 1 ∧ ∃ sda, k' =
      .low true sda (.receiving (.register (temp.getLsbD 0)) [], k.chip)) k := by
  unfold sendAddress
  rw [achieves_bind]
  apply (start_wired ready).mono
  rintro _ k₁ rfl
  rw [achieves_bind]
  apply (writeByte_received .address temp).mono
  rintro _ k₂ ⟨sda, rfl⟩
  rw [RegisterFile.received, if_pos called, achieves_bind]
  apply (checkAck_wired _).mono
  rintro succ k₃ ⟨rfl, rfl⟩
  refine Achieves.doWhile ?_
  rw [retryAddress, if_neg (by simp), achieves_pure]
  exact ⟨rfl, sda, rfl⟩

/-- The address byte calls another chip, and is sent again in vain. -/
theorem sendAddress_elsewhere (ready : Ready k) {temp : UINT8} (elsewhere : temp >>> 1 ≠ own) :
    Achieves (wiredEnv r own) (sendAddress temp) (fun succ k' => succ = 0 ∧ ∃ sda, k' =
      .low true sda (.idle, k.chip)) k := by
  have attempt {k' : Wired κ} (ready' : Ready k') (same : k'.chip = k.chip) :
      Achieves (wiredEnv r own) (do
        qn8006I2cStart
        qn8006I2cWriteByte temp
        qn8006I2cCheckAck) (fun succ k₁ => succ = 0 ∧ ∃ sda, k₁ = .low true sda (.idle, k.chip)) k' := by
    rw [achieves_bind]
    apply (start_wired ready').mono
    rintro _ k₁ rfl
    rw [achieves_bind]
    apply (writeByte_received .address temp).mono
    rintro _ k₂ ⟨sda, rfl⟩
    rw [RegisterFile.received, if_neg elsewhere, same]
    apply checkAck_idle.mono
    rintro succ k₃ ⟨rfl, rfl⟩
    exact ⟨rfl, sda, rfl⟩
  have split : sendAddress temp = (do
      let succ ← (do
        qn8006I2cStart
        qn8006I2cWriteByte temp
        qn8006I2cCheckAck)
      Prog.doWhile (retryAddress temp) (succ, 0)) := by
    simp only [sendAddress, bind_assoc]
  rw [split, achieves_bind]
  apply (attempt ready rfl).mono
  rintro succ k₁ ⟨rfl, sda, rfl⟩
  apply achieves_doWhile (fun (l : UINT8 × UINT8) k' => l.1 = 0 ∧ l.2.toNat ≤ 10 ∧
    ∃ sda, k' = .low true sda (.idle, k.chip)) fun l _ => 10 - l.2.toNat
  · rintro ⟨succ, time⟩ k' ⟨rfl, within, sda', rfl⟩
    by_cases more : time < 10
    · have bound : time.toNat < 10 := BitVec.lt_def.mp more
      have count : (time + 1).toNat = time.toNat + 1 := by
        rw [BitVec.toNat_add]
        exact Nat.mod_eq_of_lt (show time.toNat + 1 < 256 by omega)
      have again : retryAddress temp (0, time) = (do
          qn8006I2cStop
          let succ ← (do
            qn8006I2cStart
            qn8006I2cWriteByte temp
            qn8006I2cCheckAck)
          pure (.inl (succ, time + 1))) := by
        rw [retryAddress, if_pos ⟨show (0 : UINT8) ≠ 1 by decide, more⟩]
        simp only [bind_assoc]
      rw [again, achieves_bind]
      apply stop_wired.mono
      rintro _ k₂ rfl
      rw [achieves_bind]
      apply (attempt rest_ready rfl).mono
      rintro succ k₃ ⟨rfl, sda₃, rfl⟩
      rw [achieves_pure, Sum.elim_inl, count]
      exact ⟨⟨rfl, by omega, sda₃, rfl⟩, by dsimp only; omega⟩
    · rw [retryAddress, if_neg (fun both => more both.2), achieves_pure]
      exact ⟨rfl, sda', rfl⟩
  · exact ⟨rfl, Nat.zero_le _, sda, rfl⟩

/-! Data. -/

def RegisterFile.writes (r : RegisterFile κ) : UINT8 → List UINT8 → κ → κ
  | _, [], chip => chip
  | register, value :: values, chip => r.writes (register + 1) values (r.write register value chip)

def RegisterFile.reads (r : RegisterFile κ) : UINT8 → Nat → κ → List UINT8 × κ
  | _, 0, chip => ([], chip)
  | register, count + 1, chip =>
    ((r.read register chip).1 :: (r.reads (register + 1) count (r.read register chip).2).1,
      (r.reads (register + 1) count (r.read register chip).2).2)

theorem writeData_wired (register : UINT8) (data : List UINT8) :
    Achieves (wiredEnv r own) (writeData data) (fun _ k' => ∃ driven sda' next, k' =
      .low driven sda' (next, r.writes register data chip))
      (.low true sda (.receiving (.data register) [], chip)) := by
  induction data generalizing sda register chip with
  | nil =>
    rw [writeData, achieves_pure]
    exact ⟨true, sda, _, rfl⟩
  | cons value data ih =>
    rw [writeData, achieves_bind]
    apply (writeByte_received (.data register) value).mono
    rintro _ k₁ ⟨sda₁, rfl⟩
    rw [achieves_bind]
    apply (checkAck_wired _).mono
    rintro _ k₂ ⟨_, rfl⟩
    exact ih (register + 1)

theorem writeData_idle (data : List UINT8) :
    Achieves (wiredEnv r own) (writeData data) (fun _ k' => ∃ driven sda', k' =
      .low driven sda' (.idle, chip)) (.low true sda (.idle, chip)) := by
  induction data generalizing sda with
  | nil =>
    rw [writeData, achieves_pure]
    exact ⟨true, sda, rfl⟩
  | cons value data ih =>
    rw [writeData, achieves_bind]
    apply (writeByte_idle value).mono
    rintro _ k₁ ⟨sda₁, rfl⟩
    rw [achieves_bind]
    apply checkAck_idle.mono
    rintro _ k₂ ⟨_, rfl⟩
    exact ih

theorem readBits_wired (left : Nat) (bits : List Bool) (enough : bits.length = left) (register data1 : UINT8) :
    Achieves (wiredEnv r own) (readBits left data1) (fun data k' => data = bits.foldl shiftIn data1 ∧
      k' = .low false sda (.sending register [], chip)) (.low false sda (.sending register bits, chip)) := by
  induction bits generalizing left data1 with
  | nil =>
    subst enough
    rw [List.length_nil, readBits, achieves_pure]
    exact ⟨rfl, rfl⟩
  | cons bit bits ih =>
    subst enough
    rw [List.length_cons, readBits]
    have pulse : Achieves (wiredEnv r own) (do
        qn8006SetSCL 1
        let level ← i2cSdaRead
        qn8006SetSCL 0
        pure level) (fun level k' => level = (if bit then 1 else 0) ∧
          k' = .low false sda (.sending register bits, chip))
        (.low false sda (.sending register (bit :: bits), chip)) := by
      simp [qn8006SetSCL, i2cSdaRead, Wired.settle, Wired.sclLine, Wired.sdaLine, Wired.low, Phase.level,
        RegisterFile.clock]
    have one : (do
        qn8006SetSCL 1
        let level ← i2cSdaRead
        qn8006SetSCL 0
        readBits bits.length ((data1 <<< 1) ||| level)) = (do
        let level ← (do
          qn8006SetSCL 1
          let level ← i2cSdaRead
          qn8006SetSCL 0
          pure level)
        readBits bits.length ((data1 <<< 1) ||| level)) := by
      simp only [bind_assoc, pure_bind]
    rw [one, achieves_bind]
    apply pulse.mono
    rintro level k₁ ⟨rfl, rfl⟩
    exact ih bits.length rfl _

theorem readByte_wired {driven : Bool} (register value : UINT8) :
    Achieves (wiredEnv r own) qn8006I2cReadByte (fun data k' => data = value ∧
      k' = .low true sda (.sending register [], chip))
      (.low driven sda (.sending register (bitsOf value), chip)) := by
  unfold qn8006I2cReadByte
  rw [achieves_bind, achieves_wiredSdaDir]
  have released : Wired.settle r own (.low driven sda (.sending register (bitsOf value), chip))
      { Wired.low driven sda (.sending register (bitsOf value), chip) with sdaOut := false } =
      .low false sda (.sending register (bitsOf value), chip) := by
    simp [Wired.settle, Wired.sclLine, Wired.low]
  rw [released, achieves_bind]
  apply (readBits_wired 8 (bitsOf value) rfl register 0).mono
  rintro data k₁ ⟨rfl, rfl⟩
  rw [achieves_bind, achieves_wiredSdaDir, achieves_pure]
  refine ⟨assemble_bitsOf value, ?_⟩
  simp [Wired.settle, Wired.sclLine, Wired.low]

theorem sendAck_wired (i : UINT8) :
    Achieves (wiredEnv r own) (qn8006I2cSendAck i) (fun _ k' => k' =
      .low true true (r.clock own (decide (i ≠ 0)) s)) (.low true sda s) := by
  simp [qn8006I2cSendAck, qn8006SetSCL, qn8006SetSDA, Wired.settle, Wired.sclLine, Wired.sdaLine, Wired.low]

/-- All bytes are acknowledged but the last, after which the chip is idle. -/
theorem readData_wired (length left i : Nat) (total : i + (left + 1) = length) {driven : Bool}
    (register : UINT8) :
    Achieves (wiredEnv r own) (readData length (left + 1) i) (fun data k' =>
      data = (r.reads register (left + 1) chip).1 ∧
      k' = .low true true (.idle, (r.reads register (left + 1) chip).2))
      (.low driven sda (r.send register chip)) := by
  induction left generalizing driven sda register chip i with
  | zero =>
    have last : i = length - 1 := by omega
    rw [readData, achieves_bind, RegisterFile.send]
    apply (readByte_wired register _).mono
    rintro _ k₁ ⟨rfl, rfl⟩
    rw [if_pos last, achieves_bind]
    apply (sendAck_wired 1).mono
    rintro _ k₂ rfl
    rw [readData, achieves_bind, achieves_pure, achieves_pure]
    exact ⟨rfl, rfl⟩
  | succ left ih =>
    have more : ¬ i = length - 1 := by omega
    rw [readData, achieves_bind, RegisterFile.send]
    apply (readByte_wired register _).mono
    rintro _ k₁ ⟨rfl, rfl⟩
    rw [if_neg more, achieves_bind]
    apply (sendAck_wired 0).mono
    rintro _ k₂ rfl
    rw [achieves_bind]
    apply (ih (i + 1) (by omega) (register + 1)).mono
    rintro rest k₃ ⟨rfl, rfl⟩
    rw [achieves_pure]
    exact ⟨rfl, rfl⟩

/-- With nobody at the address, every byte read is `0xff`. -/
theorem readBits_idle (left : Nat) (data1 : UINT8) :
    Achieves (wiredEnv r own) (readBits left data1) (fun data k' =>
      data = (List.replicate left true).foldl shiftIn data1 ∧ k' = .low false sda (.idle, chip))
      (.low false sda (.idle, chip)) := by
  induction left generalizing data1 with
  | zero =>
    rw [readBits, achieves_pure]
    exact ⟨rfl, rfl⟩
  | succ left ih =>
    have pulse : Achieves (wiredEnv r own) (do
        qn8006SetSCL 1
        let level ← i2cSdaRead
        qn8006SetSCL 0
        pure level) (fun level k' => level = 1 ∧ k' = .low false sda (.idle, chip))
        (.low false sda (.idle, chip)) := by
      simp [qn8006SetSCL, i2cSdaRead, Wired.settle, Wired.sclLine, Wired.sdaLine, Wired.low, Phase.level,
        RegisterFile.clock]
    have one : readBits (left + 1) data1 = (do
        let level ← (do
          qn8006SetSCL 1
          let level ← i2cSdaRead
          qn8006SetSCL 0
          pure level)
        readBits left ((data1 <<< 1) ||| level)) := by
      simp only [readBits, bind_assoc, pure_bind]
    rw [one, achieves_bind]
    apply pulse.mono
    rintro level k₁ ⟨rfl, rfl⟩
    exact ih _

theorem readByte_idle {driven : Bool} :
    Achieves (wiredEnv r own) qn8006I2cReadByte (fun data k' => data = 0xff ∧
      k' = .low true sda (.idle, chip)) (.low driven sda (.idle, chip)) := by
  unfold qn8006I2cReadByte
  rw [achieves_bind, achieves_wiredSdaDir]
  have released : Wired.settle r own (.low driven sda (.idle, chip))
      { Wired.low driven sda (.idle, chip) with sdaOut := false } = .low false sda (.idle, chip) := by
    simp [Wired.settle, Wired.sclLine, Wired.low]
  rw [released, achieves_bind]
  apply (readBits_idle 8 0).mono
  rintro data k₁ ⟨rfl, rfl⟩
  rw [achieves_bind, achieves_wiredSdaDir, achieves_pure]
  refine ⟨by decide, ?_⟩
  simp [Wired.settle, Wired.sclLine, Wired.low]

theorem readData_idle (length left i : Nat) {driven : Bool} :
    Achieves (wiredEnv r own) (readData length left i) (fun data k' =>
      data = List.replicate left 0xff ∧ ∃ driven' sda', k' = .low driven' sda' (.idle, chip))
      (.low driven sda (.idle, chip)) := by
  induction left generalizing driven sda i with
  | zero =>
    rw [readData, achieves_pure]
    exact ⟨rfl, driven, sda, rfl⟩
  | succ left ih =>
    rw [readData, achieves_bind]
    apply readByte_idle.mono
    rintro _ k₁ ⟨rfl, rfl⟩
    have ack : Achieves (wiredEnv r own) (if i = length - 1 then qn8006I2cSendAck 1 else qn8006I2cSendAck 0)
        (fun _ k' => k' = .low true true (.idle, chip)) (.low true sda (.idle, chip)) := by
      rw [achieves_ite]
      exact ⟨fun _ => sendAck_wired 1, fun _ => sendAck_wired 0⟩
    rw [achieves_bind]
    apply ack.mono
    rintro _ k₂ rfl
    rw [achieves_bind]
    apply (ih (i + 1)).mono
    rintro rest k₃ ⟨rfl, released⟩
    rw [achieves_pure]
    exact ⟨rfl, released⟩

/-! Whole transfers. -/

theorem called_even (slave : UINT8) : (slave &&& 0xfe) >>> 1 = slave >>> 1 ∧
    (slave &&& 0xfe).getLsbD 0 = false := by
  revert slave
  decide

theorem called_odd (slave : UINT8) : (slave ||| 0x01) >>> 1 = slave >>> 1 ∧
    (slave ||| 0x01).getLsbD 0 = true := by
  revert slave
  decide

/-- A transfer to the chip writes its registers, one to anyone else changes nothing. -/
theorem writeNbyte_wired (ready : Ready k) (slave regisAddr : UINT8) (data : List UINT8) :
    Achieves (wiredEnv r own) (qn8006AI2CWriteNbyte slave regisAddr data) (fun succ k' =>
      succ = (if slave >>> 1 = own then 1 else 0) ∧ k' = .rest
        (if slave >>> 1 = own then r.writes regisAddr data k.chip else k.chip)) k := by
  obtain ⟨address, writing⟩ := called_even slave
  unfold qn8006AI2CWriteNbyte
  rw [achieves_bind]
  by_cases called : slave >>> 1 = own
  · rw [if_pos called, if_pos called]
    apply (sendAddress_wired ready (address.trans called)).mono
    rintro succ k₁ ⟨rfl, sda₁, rfl⟩
    rw [writing, achieves_bind]
    apply (writeByte_received (.register false) regisAddr).mono
    rintro _ k₂ ⟨sda₂, rfl⟩
    rw [achieves_bind]
    apply (checkAck_wired _).mono
    rintro _ k₃ ⟨_, rfl⟩
    rw [achieves_bind]
    apply (writeData_wired regisAddr data).mono
    rintro _ k₄ ⟨driven, sda₄, next, rfl⟩
    rw [achieves_bind]
    apply stop_wired.mono
    rintro _ k₅ rfl
    rw [achieves_pure]
    exact ⟨rfl, rfl⟩
  · rw [if_neg called, if_neg called]
    apply (sendAddress_elsewhere ready (fun same => called (address.symm.trans same))).mono
    rintro succ k₁ ⟨rfl, sda₁, rfl⟩
    rw [achieves_bind]
    apply (writeByte_idle regisAddr).mono
    rintro _ k₂ ⟨sda₂, rfl⟩
    rw [achieves_bind]
    apply checkAck_idle.mono
    rintro _ k₃ ⟨_, rfl⟩
    rw [achieves_bind]
    apply (writeData_idle data).mono
    rintro _ k₄ ⟨driven, sda₄, rfl⟩
    rw [achieves_bind]
    apply stop_wired.mono
    rintro _ k₅ rfl
    rw [achieves_pure]
    exact ⟨rfl, rfl⟩

theorem readNbyte_wired (ready : Ready k) (slave regisAddr length : UINT8) (some : length ≠ 0) :
    Achieves (wiredEnv r own) (qn8006AI2CReadNbyte slave regisAddr length) (fun read k' =>
      read.1 = (if slave >>> 1 = own then 1 else 0) ∧
      read.2 = (if slave >>> 1 = own then (r.reads regisAddr length.toNat k.chip).1
        else List.replicate length.toNat 0xff) ∧
      k' = .rest (if slave >>> 1 = own then (r.reads regisAddr length.toNat k.chip).2 else k.chip)) k := by
  obtain ⟨address, reading⟩ := called_odd slave
  obtain ⟨left, bytes⟩ : ∃ left, length.toNat = left + 1 := by
    refine ⟨length.toNat - 1, ?_⟩
    have positive : length.toNat ≠ 0 := fun zero => some (BitVec.eq_of_toNat_eq zero)
    omega
  unfold qn8006AI2CReadNbyte
  rw [achieves_bind, achieves_wiredSdaDir]
  obtain ⟨ready', same⟩ := ready.output r own
  generalize k.settle r own { k with sdaOut := true } = k₀ at ready' same ⊢
  rw [achieves_bind, ← same, bytes]
  by_cases called : slave >>> 1 = own
  · rw [if_pos called, if_pos called, if_pos called]
    apply (sendAddress_wired ready' (address.trans called)).mono
    rintro succ k₁ ⟨rfl, sda₁, rfl⟩
    rw [reading, achieves_bind]
    apply (writeByte_received (.register true) regisAddr).mono
    rintro _ k₂ ⟨sda₂, rfl⟩
    rw [achieves_bind]
    apply (checkAck_wired _).mono
    rintro _ k₃ ⟨_, rfl⟩
    rw [achieves_bind, achieves_wiredSdaDir]
    have released : Wired.settle r own (.low true sda₂ (r.send regisAddr k₀.chip))
        { Wired.low true sda₂ (r.send regisAddr k₀.chip) with sdaOut := false } =
        .low false sda₂ (r.send regisAddr k₀.chip) := by
      simp [Wired.settle, Wired.sclLine, Wired.low]
    rw [Prod.eta, released, achieves_bind]
    apply (readData_wired (left + 1) left 0 (by omega) regisAddr).mono
    rintro data k₄ ⟨rfl, rfl⟩
    rw [achieves_bind]
    apply stop_wired.mono
    rintro _ k₅ rfl
    rw [achieves_pure]
    exact ⟨rfl, rfl, rfl⟩
  · rw [if_neg called, if_neg called, if_neg called]
    apply (sendAddress_elsewhere ready' (fun same => called (address.symm.trans same))).mono
    rintro succ k₁ ⟨rfl, sda₁, rfl⟩
    rw [achieves_bind]
    apply (writeByte_idle regisAddr).mono
    rintro _ k₂ ⟨sda₂, rfl⟩
    rw [achieves_bind]
    apply checkAck_idle.mono
    rintro _ k₃ ⟨_, rfl⟩
    rw [achieves_bind, achieves_wiredSdaDir]
    have released : Wired.settle r own (.low true sda₂ (.idle, k₀.chip))
        { Wired.low true sda₂ (.idle, k₀.chip) with sdaOut := false } = .low false sda₂ (.idle, k₀.chip) := by
      simp [Wired.settle, Wired.sclLine, Wired.low]
    rw [released, achieves_bind]
    apply (readData_idle (left + 1) (left + 1) 0).mono
    rintro data k₄ ⟨rfl, driven, sda₄, rfl⟩
    rw [achieves_bind]
    apply stop_wired.mono
    rintro _ k₅ rfl
    rw [achieves_pure]
    exact ⟨rfl, rfl, rfl⟩

end

/-! Registers that are memory. -/

def memory : RegisterFile (UINT8 → UINT8) where
  read adr regs := (regs adr, regs)
  write adr value regs := Function.update regs adr value

@[simp] theorem memory_write (adr value : UINT8) (regs : UINT8 → UINT8) :
    memory.write adr value regs = Function.update regs adr value := rfl

theorem memory_reads (register : UINT8) (count : Nat) (regs : UINT8 → UINT8) :
    memory.reads register count regs =
      ((List.range count).map fun i => regs (register + BitVec.ofNat 8 i), regs) := by
  induction count generalizing register with
  | zero => rfl
  | succ count ih =>
    have shift (i : Nat) : register + 1 + BitVec.ofNat 8 i = register + BitVec.ofNat 8 (i + 1) := by
      rw [BitVec.ofNat_add, BitVec.add_assoc, BitVec.add_comm (BitVec.ofNat 8 i)]
      rfl
    have next := ih (register + 1)
    rw [RegisterFile.reads, List.range_succ_eq_map, List.map_cons, List.map_map]
    simp only [shift] at next
    change (regs register :: (memory.reads (register + 1) count regs).1,
      (memory.reads (register + 1) count regs).2) = _
    rw [next]
    simp only [Function.comp_def, Nat.succ_eq_add_one, BitVec.add_zero]

/-- The bytes lie from `register` on, modulo 256. -/
theorem memory_writes (register : UINT8) (data : List UINT8) (fits : data.length ≤ 256)
    (regs : UINT8 → UINT8) (adr : UINT8) :
    memory.writes register data regs adr = (data[(adr - register).toNat]?).getD (regs adr) := by
  induction data generalizing register regs with
  | nil => rfl
  | cons value data ih =>
    rw [List.length_cons] at fits
    rw [RegisterFile.writes, ih (register + 1) (by omega)]
    by_cases first : adr = register
    · subst first
      have far : (adr - (adr + 1)).toNat = 255 := by
        rw [show adr - (adr + 1) = 255 by bv_omega]
        rfl
      have past : data[255]? = none := List.getElem?_eq_none (by omega)
      rw [far, past, BitVec.sub_self]
      exact Function.update_self adr value regs
    · have apart : (adr - register).toNat = (adr - (register + 1)).toNat + 1 := by bv_omega
      rw [apart, List.getElem?_cons_succ]
      rw [memory_write, Function.update_of_ne first]

section
variable {own : UINT8} {k : Wired (UINT8 → UINT8)}

/-- What `qn8006_AI2C_Write_Nbyte` writes `qn8006_AI2C_Read_Nbyte` reads back, no other register changes,
and the bus is idle. -/
theorem writeNbyte_readNbyte (ready : Ready k) {slave : UINT8} (called : slave >>> 1 = own)
    (regisAddr : UINT8) {data : List UINT8} (some : data ≠ []) (fits : data.length < 256) :
    Achieves (wiredEnv memory own) (do
        let written ← qn8006AI2CWriteNbyte slave regisAddr data
        let read ← qn8006AI2CReadNbyte slave regisAddr (BitVec.ofNat 8 data.length)
        pure (written, read))
      (fun out k' => out = (1, 1, data) ∧ k' = .rest k'.chip ∧
        ∀ adr, k'.chip adr = (data[(adr - regisAddr).toNat]?).getD (k.chip adr)) k := by
  have count : (BitVec.ofNat 8 data.length).toNat = data.length := by
    rw [BitVec.toNat_ofNat]
    exact Nat.mod_eq_of_lt fits
  have nonzero : BitVec.ofNat 8 data.length ≠ 0 := by
    intro zero
    rw [zero] at count
    exact some (List.eq_nil_of_length_eq_zero count.symm)
  rw [achieves_bind]
  apply (writeNbyte_wired ready slave regisAddr data).mono
  rintro _ k₁ ⟨rfl, rfl⟩
  rw [if_pos called, if_pos called, achieves_bind]
  apply (readNbyte_wired rest_ready slave regisAddr _ nonzero).mono
  rintro ⟨succ, bytes⟩ k₂ ⟨rfl, rfl, rfl⟩
  rw [if_pos called, if_pos called, if_pos called, achieves_pure, count, Wired.rest, memory_reads]
  refine ⟨?_, rfl, fun adr => memory_writes regisAddr data (by omega) k.chip adr⟩
  have back : ((List.range data.length).map fun i =>
      memory.writes regisAddr data k.chip (regisAddr + BitVec.ofNat 8 i)) = data := by
    apply List.ext_getElem (by simp)
    intro i _ within
    have offset : (regisAddr + BitVec.ofNat 8 i - regisAddr).toNat = i := by
      rw [BitVec.add_comm, BitVec.add_sub_cancel, BitVec.toNat_ofNat]
      omega
    rw [List.getElem_map, List.getElem_range, memory_writes regisAddr data (by omega), offset,
      List.getElem?_eq_getElem within, Option.getD_some]
  rw [back]

end

/-- Three bytes across the end of the register file. -/
theorem bytes_wrap : Achieves (wiredEnv memory 0x2B) (do
      let written ← qn8006AI2CWriteNbyte 0x56 0xfe [1, 2, 3]
      let read ← qn8006AI2CReadNbyte 0x56 0xfe 3
      pure (written, read))
    (fun out k' => out = (1, 1, [1, 2, 3]) ∧ k'.chip 0x00 = 3) (.rest fun _ => 0) := by
  have called : (0x56 : UINT8) >>> 1 = 0x2B := by decide
  apply (writeNbyte_readNbyte rest_ready called 0xfe (List.cons_ne_nil 1 [2, 3]) (by decide)).mono
  rintro out k' ⟨rfl, _, written⟩
  exact ⟨rfl, (written 0x00).trans (by decide)⟩

end Yika.I2c
