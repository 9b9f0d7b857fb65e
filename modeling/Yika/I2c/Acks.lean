import Yika.I2c.Transfer
import Mathlib.Data.List.DropRight

/-! What the status of a transfer says of its acknowledgements. The slave may do anything in an
ack slot: SDA may have another level at every look that the master takes. -/

namespace Yika.I2c
open Program

/-- What the master clocks. -/
inductive Clocked where
  | start
  | stop
  /-- a bit that the master drives -/
  | sent (level : Bool)
  /-- a bit that the slave drives, as the master saw it last -/
  | heard (level : Bool)
  deriving DecidableEq

/-- The pins of the master. `turn` counts how often SDA has become an input and `look` how often
it has been looked at since; `pending` says whether the clock pulse in progress carries a bit. -/
structure Wire where
  sdaOut : Bool
  scl : Bool
  sda : Bool
  turn : Nat
  look : Nat
  seen : Bool
  pending : Bool
  trace : List Clocked

/-- SDA changes under the hand of the master. -/
def Wire.putSda (w : Wire) (level : Bool) : Wire :=
  if w.sdaOut && w.scl && w.sda && !level then
    { w with sda := level, pending := false, trace := w.trace ++ [.start] }
  else if w.sdaOut && w.scl && !w.sda && level then
    { w with sda := level, pending := false, trace := w.trace ++ [.stop] }
  else { w with sda := level }

/-- A pulse that is neither a START nor a STOP ends with a bit. -/
def Wire.putScl (w : Wire) (level : Bool) : Wire :=
  if !w.scl && level then { w with scl := level, pending := true }
  else if w.scl && !level then
    { w with
      scl := level
      pending := false
      trace := w.trace ++
        (if w.pending then [if w.sdaOut then .sent w.sda else .heard w.seen] else []) }
  else w

def Wire.turnSda (w : Wire) (output : Bool) : Wire :=
  if output then { w with sdaOut := true }
  else { w with sdaOut := false, turn := w.turn + 1, look := 0 }

def Wire.level (levels : Nat → Nat → Bool) (w : Wire) : Bool :=
  if w.sdaOut then w.sda else levels w.turn w.look

/-- `levels turn look` are the levels of SDA that the slave shows. -/
def pollEnv (levels : Nat → Nat → Bool) : Env pinSignature Wire
  | .mode _, w => ((), w)
  | .dir .scl _, w => ((), w)
  | .dir .sda output, w => ((), w.turnSda output)
  | .set .scl level, w => ((), w.putScl level)
  | .set .sda level, w => ((), w.putSda level)
  | .readSda, w => (w.level levels, { w with look := w.look + 1, seen := w.level levels })

/-- The byte in a slot is acknowledged: SDA is low before `qn8006_i2c_check_ack` gives up. -/
def acked (levels : Nat → Nat → Bool) (slot : Nat) : Bool :=
  (List.range (I2C_TIME_OUT.toNat + 1)).any fun look => !levels slot look

def byteSent (data : UINT8) (ack : Bool) : List Clocked :=
  ((List.range 8).map fun i => .sent (data.getMsbD i)) ++ [.heard (!ack)]

def lastTransfer (trace : List Clocked) : List Clocked := trace.rtakeWhile (· ≠ .start)

section
variable {levels : Nat → Nat → Bool} {w : Wire} {tr : List Clocked} {n : Nat}
  {post : Unit → Wire → Prop} {postBool : Bool → Wire → Prop}

@[simp] theorem achieves_pollMode {pin : Pin} :
    Achieves (pollEnv levels) (pinMode pin) post w ↔ post () w := achieves_perform

@[simp] theorem achieves_pollSclDir {output : Bool} :
    Achieves (pollEnv levels) (pinDir .scl output) post w ↔ post () w := achieves_perform

@[simp] theorem achieves_turnSda {output : Bool} :
    Achieves (pollEnv levels) (pinDir .sda output) post w ↔ post () (w.turnSda output) :=
  achieves_perform

@[simp] theorem achieves_putScl {level : Bool} :
    Achieves (pollEnv levels) (pinSet .scl level) post w ↔ post () (w.putScl level) :=
  achieves_perform

@[simp] theorem achieves_putSda {level : Bool} :
    Achieves (pollEnv levels) (pinSet .sda level) post w ↔ post () (w.putSda level) :=
  achieves_perform

@[simp] theorem achieves_look :
    Achieves (pollEnv levels) readSda postBool w ↔
      postBool (w.level levels) { w with look := w.look + 1, seen := w.level levels } :=
  achieves_perform

/-- SCL is low and the master drives SDA. -/
structure Driving (tr : List Clocked) (n : Nat) (w : Wire) : Prop where
  driven : w.sdaOut = true
  low : w.scl = false
  turn : w.turn = n
  trace : w.trace = tr

/-- No transfer is in progress. -/
structure Idling (tr : List Clocked) (n : Nat) (w : Wire) : Prop where
  scl : w.scl = true
  sda : w.sda = true
  bare : w.pending = false
  turn : w.turn = n
  trace : w.trace = tr

theorem start_clocks (idle : Idling tr n w) :
    Achieves (pollEnv levels) qn8006I2cStart (fun _ w' => Driving (tr ++ [.start]) n w') w := by
  obtain ⟨scl, sda, bare, turn, trace⟩ := idle
  simp only [qn8006I2cStart, qn8006SetSCL, qn8006SetSDA, achieves_bind, achieves_pollMode,
    achieves_pollSclDir, achieves_turnSda, achieves_putScl, achieves_putSda]
  constructor
  all_goals simp [Wire.turnSda, Wire.putScl, Wire.putSda, scl, sda, turn, trace]

theorem stop_clocks (low : w.scl = false) (turn : w.turn = n) (trace : w.trace = tr) :
    Achieves (pollEnv levels) qn8006I2cStop (fun _ w' => Idling (tr ++ [.stop]) n w') w := by
  simp only [qn8006I2cStop, qn8006SetSCL, qn8006SetSDA, achieves_bind, achieves_pollSclDir,
    achieves_turnSda, achieves_putScl, achieves_putSda]
  constructor
  all_goals simp [Wire.turnSda, Wire.putScl, Wire.putSda, low, turn, trace]

theorem writeBit_clocks (driving : Driving tr n w) (i : UINT8) :
    Achieves (pollEnv levels) (qn8006I2cWriteBit i)
      (fun _ w' => Driving (tr ++ [.sent (decide (i ≠ 0))]) n w') w := by
  obtain ⟨driven, low, turn, trace⟩ := driving
  simp only [qn8006I2cWriteBit, qn8006SetSCL, qn8006SetSDA, achieves_bind, achieves_putScl,
    achieves_putSda]
  constructor
  all_goals simp [Wire.putScl, Wire.putSda, driven, low, turn, trace]

theorem writeBits_clocks (left : Nat) (driving : Driving tr n w) (data : UINT8) :
    Achieves (pollEnv levels) (writeBits left data) (fun _ w' =>
      Driving (tr ++ (List.range left).map fun i => .sent (data.getMsbD i)) n w') w := by
  induction left generalizing tr w data with
  | zero =>
    rw [writeBits, achieves_pure]
    simpa using driving
  | succ left ih =>
    rw [writeBits, achieves_bind]
    apply (writeBit_clocks driving _).mono
    intro _ w₁ sent
    apply (ih sent (data <<< 1)).mono
    intro _ w₂ rest
    have bits : tr ++ (List.range (left + 1)).map (fun i => Clocked.sent (data.getMsbD i)) =
        tr ++ [.sent (decide (data >>> 7 ≠ 0))] ++
          (List.range left).map fun i => .sent ((data <<< 1).getMsbD i) := by
      simp only [List.range_succ_eq_map, List.map_cons, List.map_map, List.append_assoc, top_bit,
        BitVec.getMsbD_shiftLeft, List.singleton_append]
      rfl
    rw [bits]
    exact rest

/-- The looks of an ack slot, `time` of them without an answer. -/
structure Polling (levels : Nat → Nat → Bool) (tr : List Clocked) (slot time : Nat) (w : Wire) :
    Prop where
  released : w.sdaOut = false
  high : w.scl = true
  pulse : w.pending = true
  turn : w.turn = slot
  look : w.look = time
  trace : w.trace = tr
  within : time ≤ I2C_TIME_OUT.toNat
  silent : ∀ look < time, levels slot look = true

theorem acked_of_low {slot look : Nat} (within : look ≤ I2C_TIME_OUT.toNat)
    (low : levels slot look = false) : acked levels slot = true := by
  rw [acked, List.any_eq_true]
  exact ⟨look, List.mem_range.mpr (by omega), by rw [low]; rfl⟩

theorem acked_of_silent {slot : Nat}
    (silent : ∀ look < I2C_TIME_OUT.toNat + 1, levels slot look = true) :
    acked levels slot = false := by
  rw [acked, List.any_eq_false]
  intro look member
  rw [silent look (List.mem_range.mp member)]
  decide

theorem pollAck_looks {slot : Nat} (polling : Polling levels tr slot 0 w) :
    Achieves (pollEnv levels) (Prog.doWhile pollAck 0) (fun succ w' =>
      succ = (if acked levels slot then 1 else 0) ∧ w'.sdaOut = false ∧ w'.scl = true ∧
        w'.pending = true ∧ w'.turn = slot ∧ w'.trace = tr ∧ w'.seen = !acked levels slot) w := by
  apply achieves_doWhile (fun (time : UINT8) w => Polling levels tr slot time.toNat w)
    fun time _ => I2C_TIME_OUT.toNat - time.toNat
  · intro time w polling
    obtain ⟨released, high, pulse, turn, look, trace, within, silent⟩ := polling
    have level : w.level levels = levels slot time.toNat := by
      rw [Wire.level, released, turn, look]
      rfl
    simp only [pollAck, i2cSdaRead, achieves_bind, achieves_look, achieves_pure, level]
    cases answer : levels slot time.toNat with
    | false =>
      have yes : acked levels slot = true := acked_of_low within answer
      rw [if_pos (by decide), achieves_pure, Sum.elim_inr, yes]
      exact ⟨rfl, released, high, pulse, turn, trace, rfl⟩
    | true =>
      have next : ∀ look < time.toNat + 1, levels slot look = true := by
        intro look bound
        rcases Nat.lt_succ_iff_lt_or_eq.mp bound with earlier | last
        · exact silent look earlier
        · rw [last]
          exact answer
      have limit : I2C_TIME_OUT.toNat = 20 := rfl
      have count : (time + 1).toNat = time.toNat + 1 := by
        rw [BitVec.toNat_add]
        exact Nat.mod_eq_of_lt (show time.toNat + 1 < 256 by omega)
      rw [if_neg (by decide)]
      by_cases late : I2C_TIME_OUT < time + 1
      · have out : I2C_TIME_OUT.toNat < time.toNat + 1 := count ▸ late
        have no : acked levels slot = false :=
          acked_of_silent fun look bound => next look (by omega)
        rw [if_pos late, achieves_pure, Sum.elim_inr, no]
        exact ⟨rfl, released, high, pulse, turn, trace, rfl⟩
      · have early : time.toNat + 1 ≤ I2C_TIME_OUT.toNat := by
          rw [← count]
          exact Nat.le_of_not_lt late
        rw [if_neg late, achieves_pure, Sum.elim_inl, count]
        exact ⟨⟨released, high, pulse, turn, by rw [← look], trace, early, next⟩, by omega⟩
  · exact polling

theorem checkAck_clocks (driving : Driving tr n w) :
    Achieves (pollEnv levels) qn8006I2cCheckAck (fun succ w' =>
      succ = (if acked levels (n + 1) then 1 else 0) ∧
        Driving (tr ++ [.heard (!acked levels (n + 1))]) (n + 1) w') w := by
  obtain ⟨driven, low, turn, trace⟩ := driving
  have polling : Polling levels tr (n + 1) 0 ((w.turnSda false).putScl true) := by
    constructor
    all_goals simp [Wire.turnSda, Wire.putScl, low, turn, trace]
  simp only [qn8006I2cCheckAck, qn8006SetSCL, achieves_bind, achieves_turnSda, achieves_putScl]
  apply (pollAck_looks polling).mono
  intro succ w₁ looked
  obtain ⟨answer, released, high, pulse, turn₁, trace₁, seen⟩ := looked
  rw [achieves_pure]
  refine ⟨answer, ?_⟩
  constructor
  all_goals simp [Wire.turnSda, Wire.putScl, released, high, pulse, turn₁, trace₁, seen]

theorem sendByte_clocks (driving : Driving tr n w) (data : UINT8) :
    Achieves (pollEnv levels) (do
      qn8006I2cWriteByte data
      qn8006I2cCheckAck) (fun succ w' => succ = (if acked levels (n + 1) then 1 else 0) ∧
        Driving (tr ++ byteSent data (acked levels (n + 1))) (n + 1) w') w := by
  rw [achieves_bind]
  apply (writeBits_clocks 8 driving data).mono
  intro _ w₁ written
  rw [byteSent, ← List.append_assoc]
  exact checkAck_clocks written

/-- An address byte has been sent for the last time: this is attempt `attempt`, and none before
has been acknowledged. -/
structure Addressing (levels : Nat → Nat → Bool) (temp : UINT8) (n attempt : Nat) (w : Wire) :
    Prop where
  within : attempt ≤ 10
  refused : ∀ i < attempt, acked levels (n + 1 + i) = false
  sent : ∃ tr, Driving (tr ++ [.start] ++ byteSent temp (acked levels (n + 1 + attempt)))
    (n + 1 + attempt) w

theorem address_clocks (temp : UINT8) {attempt : Nat} (idle : Idling tr (n + attempt) w)
    (within : attempt ≤ 10) (refused : ∀ i < attempt, acked levels (n + 1 + i) = false) :
    Achieves (pollEnv levels) (do
      qn8006I2cStart
      qn8006I2cWriteByte temp
      qn8006I2cCheckAck) (fun succ w' =>
        succ = (if acked levels (n + 1 + attempt) then 1 else 0) ∧
          Addressing levels temp n attempt w') w := by
  rw [achieves_bind]
  apply (start_clocks idle).mono
  intro _ w₁ started
  apply (sendByte_clocks started temp).mono
  intro succ w₂ sent
  rw [show n + attempt + 1 = n + 1 + attempt by omega] at sent
  exact ⟨sent.1, within, refused, tr, sent.2⟩

theorem sendAddress_clocks (idle : Idling tr n w) (temp : UINT8) :
    Achieves (pollEnv levels) (sendAddress temp) (fun succ w' => ∃ attempt,
      succ = (if acked levels (n + 1 + attempt) then 1 else 0) ∧
        (acked levels (n + 1 + attempt) = true ∨ attempt = 10) ∧
        Addressing levels temp n attempt w') w := by
  have first : sendAddress temp = (do
      let succ ← (do
        qn8006I2cStart
        qn8006I2cWriteByte temp
        qn8006I2cCheckAck)
      Prog.doWhile (retryAddress temp) (succ, 0)) := by
    simp only [sendAddress, bind_assoc]
  rw [first, achieves_bind]
  have idle₀ : Idling tr (n + 0) w := idle
  apply (address_clocks temp idle₀ (by omega) (by simp)).mono
  intro succ w₁ addressed
  apply achieves_doWhile (fun (l : UINT8 × UINT8) w =>
      l.1 = (if acked levels (n + 1 + l.2.toNat) then 1 else 0) ∧
        Addressing levels temp n l.2.toNat w) (fun l _ => 10 - l.2.toNat)
  · intro l w₂ tried
    obtain ⟨succ, time⟩ := l
    obtain ⟨answer, within, refused, tr, driving⟩ := tried
    dsimp only at answer within refused driving
    unfold retryAddress
    dsimp only
    by_cases again : succ ≠ 1 ∧ time < 10
    · have refusal : acked levels (n + 1 + time.toNat) = false := by
        by_contra agreed
        rw [Bool.not_eq_false] at agreed
        rw [agreed] at answer
        exact again.1 answer
      have early : time.toNat < 10 := again.2
      have count : (time + 1).toNat = time.toNat + 1 := by
        rw [BitVec.toNat_add]
        exact Nat.mod_eq_of_lt (show time.toNat + 1 < 256 by omega)
      have refused' : ∀ i < time.toNat + 1, acked levels (n + 1 + i) = false := by
        intro i bound
        rcases Nat.lt_succ_iff_lt_or_eq.mp bound with earlier | last
        · exact refused i earlier
        · rw [last]
          exact refusal
      have round : (do
          qn8006I2cStop
          qn8006I2cStart
          qn8006I2cWriteByte temp
          let succ ← qn8006I2cCheckAck
          pure (.inl (succ, time + 1)) : Master ((UINT8 × UINT8) ⊕ UINT8)) = (do
          qn8006I2cStop
          let succ ← (do
            qn8006I2cStart
            qn8006I2cWriteByte temp
            qn8006I2cCheckAck)
          pure (.inl (succ, time + 1))) := by
        simp only [bind_assoc]
      rw [if_pos again, round, achieves_bind]
      apply (stop_clocks driving.low driving.turn driving.trace).mono
      intro _ w₃ stopped
      rw [show n + 1 + time.toNat = n + (time.toNat + 1) by omega] at stopped
      rw [achieves_bind]
      apply (address_clocks temp stopped (by omega) refused').mono
      intro succ' w₄ addressed
      rw [achieves_pure, Sum.elim_inl, count]
      exact ⟨addressed, by omega⟩
    · rw [if_neg again, achieves_pure, Sum.elim_inr]
      refine ⟨time.toNat, answer, ?_, within, refused, tr, driving⟩
      by_contra neither
      rw [not_or, Bool.not_eq_true] at neither
      rw [neither.1] at answer
      have early : time.toNat < 10 := by omega
      exact again ⟨by rw [answer]; decide, early⟩
  · exact addressed

/-- The bytes of a list one after the other, each with the answer in its slot. -/
def bytesSent (levels : Nat → Nat → Bool) : Nat → List UINT8 → List Clocked
  | _, [] => []
  | n, data :: rest => byteSent data (acked levels (n + 1)) ++ bytesSent levels (n + 1) rest

theorem byteSent_length (data : UINT8) (ack : Bool) : (byteSent data ack).length = 9 := rfl

theorem byteSent_inj {data : UINT8} {a b : Bool} : byteSent data a = byteSent data b ↔ a = b := by
  simp [byteSent]

theorem byteSent_no_start (data : UINT8) (ack : Bool) : .start ∉ byteSent data ack := by
  simp [byteSent]

theorem bytesSent_no_start (bytes : List UINT8) : .start ∉ bytesSent levels n bytes := by
  induction bytes generalizing n with
  | nil => simp [bytesSent]
  | cons data rest ih =>
    rw [bytesSent, List.mem_append, not_or]
    exact ⟨byteSent_no_start data _, ih⟩

/-- The bytes are as on a bus where every byte is acknowledged exactly when all of these are. -/
theorem bytesSent_acked_iff (bytes : List UINT8) :
    bytesSent levels n bytes = bytes.flatMap (byteSent · true) ↔
      ∀ j < bytes.length, acked levels (n + 1 + j) = true := by
  induction bytes generalizing n with
  | nil => simp [bytesSent]
  | cons data rest ih =>
    have split : bytesSent levels n (data :: rest) = (data :: rest).flatMap (byteSent · true) ↔
        acked levels (n + 1) = true ∧ bytesSent levels (n + 1) rest = rest.flatMap (byteSent · true) := by
      rw [bytesSent, List.flatMap_cons]
      constructor
      · intro same
        obtain ⟨head, tail⟩ := List.append_inj same rfl
        exact ⟨byteSent_inj.mp head, tail⟩
      · intro both
        rw [both.1, both.2]
    rw [split, ih]
    constructor
    · intro both j bound
      cases j with
      | zero => exact both.1
      | succ j =>
        have later := both.2 j (by simpa using bound)
        rwa [show n + 1 + 1 + j = n + 1 + (j + 1) by omega] at later
    · intro all
      refine ⟨all 0 (by simp), fun j bound => ?_⟩
      have later := all (j + 1) (by simpa using bound)
      rwa [show n + 1 + (j + 1) = n + 1 + 1 + j by omega] at later

theorem writeData_clocks (data : List UINT8) (driving : Driving tr n w) :
    Achieves (pollEnv levels) (writeData data) (fun _ w' =>
      Driving (tr ++ bytesSent levels n data) (n + data.length) w') w := by
  induction data generalizing tr n w with
  | nil =>
    rw [writeData, achieves_pure]
    simpa [bytesSent] using driving
  | cons byte rest ih =>
    have one : writeData (byte :: rest) = (do
        let _ ← (do
          qn8006I2cWriteByte byte
          qn8006I2cCheckAck)
        writeData rest) := by
      simp only [writeData, bind_assoc]
    rw [one, achieves_bind]
    apply (sendByte_clocks driving byte).mono
    intro _ w₁ sent
    apply (ih sent.2).mono
    intro _ w₂ done
    rw [bytesSent, ← List.append_assoc, List.length_cons,
      show n + (rest.length + 1) = n + 1 + rest.length by omega]
    exact done

theorem lastTransfer_start (tr : List Clocked) {rest : List Clocked} (none : .start ∉ rest) :
    lastTransfer (tr ++ [.start] ++ rest) = rest := by
  have others : ∀ c ∈ rest.reverse, decide (c ≠ Clocked.start) = true := by
    intro c member
    apply decide_eq_true
    rintro rfl
    exact none (List.mem_reverse.mp member)
  rw [lastTransfer, List.rtakeWhile, List.reverse_append, List.reverse_append,
    List.takeWhile_append_of_pos others]
  simp

/-- The attempt to send the address after which the transfer goes on. -/
structure LastAttempt (levels : Nat → Nat → Bool) (n attempt : Nat) : Prop where
  within : attempt ≤ 10
  refused : ∀ i < attempt, acked levels (n + 1 + i) = false
  last : acked levels (n + 1 + attempt) = true ∨ attempt = 10

theorem writeNbyte_clocks (idle : Idling tr n w) (addr reg : UINT8) (data : List UINT8) :
    Achieves (pollEnv levels) (qn8006AI2CWriteNbyte addr reg data) (fun succ w' => ∃ attempt,
      LastAttempt levels n attempt ∧
        succ = (if acked levels (n + 1 + attempt) then 1 else 0) ∧
        lastTransfer w'.trace = byteSent (addr &&& 0xfe) (acked levels (n + 1 + attempt)) ++
          bytesSent levels (n + 1 + attempt) (reg :: data) ++ [.stop]) w := by
  have write : qn8006AI2CWriteNbyte addr reg data = (do
      let succ ← sendAddress (addr &&& 0xfe)
      writeData (reg :: data)
      qn8006I2cStop
      pure succ) := by
    simp only [qn8006AI2CWriteNbyte, writeData, bind_assoc]
  rw [write, achieves_bind]
  apply (sendAddress_clocks idle _).mono
  intro succ w₁ addressed
  obtain ⟨attempt, answer, last, within, refused, tr', driving⟩ := addressed
  rw [achieves_bind]
  apply (writeData_clocks (reg :: data) driving).mono
  intro _ w₂ written
  rw [achieves_bind]
  apply (stop_clocks written.low written.turn written.trace).mono
  intro _ w₃ stopped
  rw [achieves_pure]
  refine ⟨attempt, ⟨within, refused, last⟩, answer, ?_⟩
  have none : .start ∉ byteSent (addr &&& 0xfe) (acked levels (n + 1 + attempt)) ++
      bytesSent levels (n + 1 + attempt) (reg :: data) ++ [.stop] := by
    simp [byteSent_no_start, bytesSent_no_start]
  rw [stopped.trace, ← lastTransfer_start tr' none]
  simp only [List.append_assoc]

/-- Only bits have been clocked since `tr`, and SCL has this level. -/
structure Bits (tr : List Clocked) (scl : Bool) (w : Wire) : Prop where
  scl : w.scl = scl
  trace : ∃ rest, .start ∉ rest ∧ w.trace = tr ++ rest

theorem Bits.turnSda {scl output : Bool} (bits : Bits tr scl w) :
    Bits tr scl (w.turnSda output) := by
  unfold Wire.turnSda
  split
  next => exact ⟨bits.scl, bits.trace⟩
  next => exact ⟨bits.scl, bits.trace⟩

theorem Bits.putSda {level : Bool} (bits : Bits tr false w) : Bits tr false (w.putSda level) := by
  have low := bits.scl
  have still : w.putSda level = { w with sda := level } := by simp [Wire.putSda, low]
  rw [still]
  exact ⟨low, bits.trace⟩

theorem Bits.rise (bits : Bits tr false w) : Bits tr true (w.putScl true) := by
  have low := bits.scl
  have up : w.putScl true = { w with scl := true, pending := true } := by simp [Wire.putScl, low]
  rw [up]
  exact ⟨rfl, bits.trace⟩

theorem Bits.fall {scl : Bool} (bits : Bits tr scl w) : Bits tr false (w.putScl false) := by
  cases scl with
  | false =>
    have low := bits.scl
    have still : w.putScl false = w := by simp [Wire.putScl, low]
    rwa [still]
  | true =>
    have high := bits.scl
    obtain ⟨rest, none, trace⟩ := bits.trace
    constructor
    · simp [Wire.putScl, high]
    · refine ⟨rest ++ (if w.pending then [if w.sdaOut then .sent w.sda else .heard w.seen] else []),
        ?_, ?_⟩
      · rw [List.mem_append, not_or]
        refine ⟨none, ?_⟩
        split_ifs <;> simp
      · simp [Wire.putScl, high, trace]

theorem readBits_clocks (left : Nat) (bits : Bits tr false w) (data1 : UINT8) :
    Achieves (pollEnv levels) (readBits left data1) (fun _ w' => Bits tr false w') w := by
  induction left generalizing w data1 with
  | zero =>
    rw [readBits, achieves_pure]
    exact bits
  | succ left ih =>
    simp only [readBits, qn8006SetSCL, i2cSdaRead, achieves_bind, achieves_putScl, achieves_look,
      achieves_pure]
    apply ih
    have high := bits.rise
    have looked : Bits tr true { w.putScl true with
        look := (w.putScl true).look + 1
        seen := (w.putScl true).level levels } := ⟨high.scl, high.trace⟩
    exact looked.fall

theorem readByte_clocks (bits : Bits tr false w) :
    Achieves (pollEnv levels) qn8006I2cReadByte (fun _ w' => Bits tr false w') w := by
  unfold qn8006I2cReadByte
  rw [achieves_bind, achieves_turnSda, achieves_bind]
  apply (readBits_clocks 8 bits.turnSda 0).mono
  intro _ w₁ read
  rw [achieves_bind, achieves_turnSda, achieves_pure]
  exact read.turnSda

theorem sendAck_clocks (bits : Bits tr false w) (i : UINT8) :
    Achieves (pollEnv levels) (qn8006I2cSendAck i) (fun _ w' => Bits tr false w') w := by
  simp only [qn8006I2cSendAck, qn8006SetSCL, qn8006SetSDA, achieves_bind, achieves_putScl,
    achieves_putSda]
  exact bits.fall.putSda.rise.fall.putSda

theorem readData_clocks (length left i : Nat) (bits : Bits tr false w) :
    Achieves (pollEnv levels) (readData length left i) (fun _ w' => Bits tr false w') w := by
  induction left generalizing w i with
  | zero =>
    rw [readData, achieves_pure]
    exact bits
  | succ left ih =>
    rw [readData, achieves_bind]
    apply (readByte_clocks bits).mono
    intro data w₁ read
    rw [achieves_bind]
    have ack : Achieves (pollEnv levels)
        (if i = length - 1 then qn8006I2cSendAck 1 else qn8006I2cSendAck 0)
        (fun _ w' => Bits tr false w') w₁ :=
      achieves_ite.mpr ⟨fun _ => sendAck_clocks read 1, fun _ => sendAck_clocks read 0⟩
    apply ack.mono
    intro _ w₂ answered
    rw [achieves_bind]
    apply (ih (i + 1) answered).mono
    intro rest w₃ last
    rw [achieves_pure]
    exact last

theorem readNbyte_clocks (idle : Idling tr n w) (addr reg length : UINT8) :
    Achieves (pollEnv levels) (qn8006AI2CReadNbyte addr reg length) (fun r w' => ∃ attempt,
      LastAttempt levels n attempt ∧
        r.1 = (if acked levels (n + 1 + attempt) then 1 else 0) ∧
        ∃ rest, lastTransfer w'.trace = byteSent (addr ||| 1) (acked levels (n + 1 + attempt)) ++
          byteSent reg (acked levels (n + 1 + attempt + 1)) ++ rest) w := by
  have read : qn8006AI2CReadNbyte addr reg length = (do
      pinDir .sda true
      let succ ← sendAddress (addr ||| 1)
      let _ ← (do
        qn8006I2cWriteByte reg
        qn8006I2cCheckAck)
      pinDir .sda false
      let data ← readData length.toNat length.toNat 0
      qn8006I2cStop
      pure (succ, data)) := by
    simp only [qn8006AI2CReadNbyte, bind_assoc]
  have idle' : Idling tr n (w.turnSda true) := ⟨idle.scl, idle.sda, idle.bare, idle.turn, idle.trace⟩
  rw [read, achieves_bind, achieves_turnSda, achieves_bind]
  apply (sendAddress_clocks idle' _).mono
  intro succ w₁ addressed
  obtain ⟨attempt, answer, last, within, refused, tr', driving⟩ := addressed
  rw [achieves_bind]
  apply (sendByte_clocks driving reg).mono
  intro _ w₂ written
  have bits : Bits (tr' ++ [.start] ++ byteSent (addr ||| 1) (acked levels (n + 1 + attempt)) ++
      byteSent reg (acked levels (n + 1 + attempt + 1))) false w₂ :=
    ⟨written.2.low, [], List.not_mem_nil, by rw [written.2.trace, List.append_nil]⟩
  rw [achieves_bind, achieves_turnSda, achieves_bind]
  apply (readData_clocks length.toNat length.toNat 0 bits.turnSda).mono
  intro data w₃ heard
  obtain ⟨rest, none, trace⟩ := heard.trace
  rw [achieves_bind]
  apply (stop_clocks heard.scl rfl trace).mono
  intro _ w₄ stopped
  rw [achieves_pure]
  refine ⟨attempt, ⟨within, refused, last⟩, answer, rest ++ [.stop], ?_⟩
  have none' : .start ∉ byteSent (addr ||| 1) (acked levels (n + 1 + attempt)) ++
      byteSent reg (acked levels (n + 1 + attempt + 1)) ++ (rest ++ [.stop]) := by
    simp [byteSent_no_start, none]
  rw [stopped.trace, ← lastTransfer_start tr' none']
  simp only [List.append_assoc]

/-- The status of a write tells of its bytes, and a chip that does not answer hears nothing but
its address. -/
structure WriteReports (levels : Nat → Nat → Bool) (n : Nat) (addr reg : UINT8)
    (data : List UINT8) (succ : UINT8) (trace : List Clocked) : Prop where
  status : succ = 1 ↔
    lastTransfer trace = ((addr &&& 0xfe) :: reg :: data).flatMap (byteSent · true) ++ [.stop]
  silent : (∀ i ≤ 10, acked levels (n + 1 + i) = false) →
    lastTransfer trace = byteSent (addr &&& 0xfe) false ++ [.stop]

structure ReadReports (levels : Nat → Nat → Bool) (n : Nat) (addr reg : UINT8) (succ : UINT8)
    (trace : List Clocked) : Prop where
  status : succ = 1 ↔ byteSent (addr ||| 1) true ++ byteSent reg true <+: lastTransfer trace
  silent : (∀ i ≤ 10, acked levels (n + 1 + i) = false) →
    lastTransfer trace = byteSent (addr ||| 1) false ++ [.stop]

/-- One of the attempts to send the address is acknowledged, and `count` bytes from it on. -/
def Answered (levels : Nat → Nat → Bool) (n count : Nat) : Prop :=
  ∃ attempt ≤ 10, (∀ i < attempt, acked levels (n + 1 + i) = false) ∧
    ∀ j < count, acked levels (n + 1 + attempt + j) = true

/-- After an acknowledged address, the bytes after it decide. -/
theorem LastAttempt.answered_iff {attempt count : Nat} (tried : LastAttempt levels n attempt)
    (yes : acked levels (n + 1 + attempt) = true) :
    Answered levels n (count + 1) ↔ ∀ j < count, acked levels (n + 1 + attempt + 1 + j) = true := by
  have shift (j : Nat) : n + 1 + attempt + 1 + j = n + 1 + attempt + (j + 1) := by omega
  constructor
  · intro answered j bound
    obtain ⟨other, _, refused, all⟩ := answered
    have first := all 0 (by omega)
    have same : other = attempt := by
      rcases Nat.lt_trichotomy other attempt with before | same | after
      · rw [Nat.add_zero, tried.refused other before] at first
        cases first
      · exact same
      · rw [refused attempt after] at yes
        cases yes
    rw [shift, ← same]
    exact all (j + 1) (by omega)
  · intro all
    refine ⟨attempt, tried.within, tried.refused, ?_⟩
    intro j bound
    cases j with
    | zero => exact yes
    | succ j =>
      rw [← shift]
      exact all j (by omega)

theorem LastAttempt.never {attempt : Nat} (tried : LastAttempt levels n attempt)
    (no : acked levels (n + 1 + attempt) = false) : ∀ i ≤ 10, acked levels (n + 1 + i) = false := by
  have ten : attempt = 10 := by
    rcases tried.last with yes | ten
    · rw [no] at yes
      cases yes
    · exact ten
  intro i bound
  rcases Nat.lt_or_eq_of_le bound with before | last
  · exact tried.refused i (ten ▸ before)
  · rwa [last, ← ten]

theorem unanswered {count : Nat} (never : ∀ i ≤ 10, acked levels (n + 1 + i) = false) :
    ¬Answered levels n (count + 1) := by
  intro answered
  obtain ⟨attempt, within, _, all⟩ := answered
  have first := all 0 (by omega)
  rw [Nat.add_zero, never attempt within] at first
  cases first

/-- A transfer returns, and does what its status is for exactly when everything is acknowledged:
an attempt to send the address, the register, and the data of a write. -/
theorem transfers_report_iff (idle : Idling tr n w) (addr reg : UINT8) :
    (∀ data : List UINT8, Achieves (pollEnv levels) (qn8006AI2CWriteNbyte addr reg data)
      (fun succ w' => WriteReports levels n addr reg data succ w'.trace ↔
        Answered levels n (data.length + 2)) w) ∧
    (∀ length : UINT8, Achieves (pollEnv levels) (qn8006AI2CReadNbyte addr reg length)
      (fun r w' => ReadReports levels n addr reg r.1 w'.trace ↔ Answered levels n 2) w) := by
  constructor
  · intro data
    apply (writeNbyte_clocks idle addr reg data).mono
    intro succ w' sent
    obtain ⟨attempt, tried, rfl, trace⟩ := sent
    cases answer : acked levels (n + 1 + attempt) with
    | true =>
      have status : lastTransfer w'.trace =
          ((addr &&& 0xfe) :: reg :: data).flatMap (byteSent · true) ++ [.stop] ↔
            ∀ j < data.length + 1, acked levels (n + 1 + attempt + 1 + j) = true := by
        rw [trace, answer, List.flatMap_cons, List.append_left_inj, List.append_right_inj,
          bytesSent_acked_iff, List.length_cons]
      rw [tried.answered_iff answer]
      constructor
      · intro reports
        exact status.mp (reports.status.mp rfl)
      · intro all
        refine ⟨iff_of_true rfl (status.mpr all), ?_⟩
        intro never
        rw [never attempt tried.within] at answer
        cases answer
    | false =>
      apply iff_of_false
      · intro reports
        have nothing := reports.silent (tried.never answer)
        rw [trace, answer] at nothing
        have lengths := congrArg List.length nothing
        simp [byteSent_length, bytesSent] at lengths
        omega
      · exact unanswered (tried.never answer)
  · intro length
    apply (readNbyte_clocks idle addr reg length).mono
    intro r w' heard
    obtain ⟨attempt, tried, succ, rest, trace⟩ := heard
    cases answer : acked levels (n + 1 + attempt) with
    | true =>
      rw [answer, if_pos rfl] at succ
      have status : byteSent (addr ||| 1) true ++ byteSent reg true <+: lastTransfer w'.trace ↔
          ∀ j < 1, acked levels (n + 1 + attempt + 1 + j) = true := by
        rw [trace, answer, List.append_assoc, List.prefix_append_right_inj]
        constructor
        · intro heard j bound
          obtain ⟨more, same⟩ := heard
          obtain rfl : j = 0 := by omega
          exact (byteSent_inj.mp (List.append_inj same rfl).1).symm
        · intro all
          rw [← Nat.add_zero (n + 1 + attempt + 1), all 0 (by decide)]
          exact List.prefix_append _ _
      rw [tried.answered_iff answer]
      constructor
      · intro reports
        exact status.mp (reports.status.mp succ)
      · intro all
        refine ⟨iff_of_true succ (status.mpr all), ?_⟩
        intro never
        rw [never attempt tried.within] at answer
        cases answer
    | false =>
      apply iff_of_false
      · intro reports
        have nothing := reports.silent (tried.never answer)
        rw [trace, answer] at nothing
        have lengths := congrArg List.length nothing
        simp [byteSent_length] at lengths
        omega
      · exact unanswered (tried.never answer)

end

def idleWire : Wire := ⟨true, true, true, 0, 0, true, false, []⟩

/-- A chip that acknowledges at the third look. -/
theorem slow_chip_reported :
    Achieves (pollEnv fun _ look => decide (look < 2)) (qn8006AI2CWriteNbyte 0x56 0x01 [0xA5])
      (fun succ w' => WriteReports (fun _ look => decide (look < 2)) 0 0x56 0x01 [0xA5] succ w'.trace)
        idleWire ∧
    Achieves (pollEnv fun _ look => decide (look < 2)) (qn8006AI2CReadNbyte 0x56 0x01 2)
      (fun r w' => ReadReports (fun _ look => decide (look < 2)) 0 0x56 0x01 r.1 w'.trace) idleWire := by
  have idle : Idling [] 0 idleWire := ⟨rfl, rfl, rfl, rfl, rfl⟩
  have answered (count : Nat) : Answered (fun _ look => decide (look < 2)) 0 count :=
    ⟨0, by omega, by simp, fun j _ => acked_of_low (show 2 ≤ I2C_TIME_OUT.toNat by decide) rfl⟩
  have both := @transfers_report_iff (fun _ look => decide (look < 2)) _ _ _ idle 0x56 0x01
  exact ⟨(both.1 [0xA5]).mono fun _ _ reports => reports.mpr (answered 3),
    (both.2 2).mono fun _ _ reports => reports.mpr (answered 2)⟩

/-- The chip acknowledges its address and nothing after it. -/
theorem unacknowledged_write_succeeds : ∃ w',
    Runs (pollEnv fun turn _ => decide (turn ≠ 1)) (qn8006AI2CWriteNbyte 0x56 0x01 [0xA5])
      idleWire 1 w' ∧
    lastTransfer w'.trace = byteSent 0x56 true ++ byteSent 0x01 false ++ byteSent 0xA5 false ++ [.stop] ∧
    ¬WriteReports (fun turn _ => decide (turn ≠ 1)) 0 0x56 0x01 [0xA5] 1 w'.trace := by
  have done : (exec (pollEnv fun turn _ => decide (turn ≠ 1)) 25
      (qn8006AI2CWriteNbyte 0x56 0x01 [0xA5]) idleWire).map (fun r => (r.1, lastTransfer r.2.trace)) =
        some (1, byteSent 0x56 true ++ byteSent 0x01 false ++ byteSent 0xA5 false ++ [.stop]) := by
    decide +kernel
  obtain ⟨succ, w', run, seen⟩ := exec_observe 25 _ done
  obtain ⟨rfl, trace⟩ := Prod.mk.inj seen
  refine ⟨w', run, trace, ?_⟩
  intro reports
  have claimed := reports.status.mp rfl
  rw [trace] at claimed
  revert claimed
  decide +kernel

end Yika.I2c
