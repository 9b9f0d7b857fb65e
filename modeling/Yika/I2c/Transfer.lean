import Yika.I2c.Master

/-! What an observer of the bus sees of a transfer: exactly the bytes, each with the bit that
acknowledges it, between one START and one STOP. -/

namespace Yika.I2c
open Program

section
variable {slave : Nat → Bool} {k : Bus} {symbols : List Symbol} {n : Nat}

/-- SCL is low, and the master drives SDA. -/
structure Sending (slave : Nat → Bool) (symbols : List Symbol) (n : Nat) (k : Bus) : Prop where
  low : Low slave symbols n k
  driven : k.sdaOut = true

/-- SCL is low, and SDA is an input. -/
structure Listening (slave : Nat → Bool) (symbols : List Symbol) (n : Nat) (k : Bus) : Prop where
  low : Low slave symbols n k
  released : k.sdaOut = false

/-! One bit. -/

theorem Sending.level (sending : Sending slave symbols n k) : (k.lines slave).sda = k.sda := by
  simp [Bus.lines, sending.driven]

theorem Listening.level (listening : Listening slave symbols n k) :
    (k.lines slave).sda = slave n := by
  simp [Bus.lines, listening.released, listening.low.clock]

theorem Low.release (low : Low slave symbols n k) :
    Listening slave symbols n (k.settle slave { k with sdaOut := false }) :=
  ⟨low.settle low.sclOut low.scl, rfl⟩

theorem Low.drive (low : Low slave symbols n k) :
    Sending slave symbols n (k.settle slave { k with sdaOut := true }) :=
  ⟨low.settle low.sclOut low.scl, rfl⟩

theorem Sending.clockOut (sending : Sending slave symbols n k) (level : Bool) :
    Achieves (busEnv slave) (do
      pinSet .sda level
      pinSet .scl true
      pinSet .scl false) (fun _ k' => Sending slave (symbols ++ [.bit level]) (n + 1) k') k := by
  simp only [achieves_bind, achieves_setSda, achieves_setScl]
  have set : Sending slave symbols n (k.settle slave { k with sda := level }) :=
    ⟨sending.low.settle sending.low.sclOut sending.low.scl, sending.driven⟩
  have pulse := set.low.rise
  rw [set.level] at pulse
  exact ⟨pulse.fall, sending.driven⟩

theorem writeBit_sends (sending : Sending slave symbols n k) (i : UINT8) :
    Achieves (busEnv slave) (qn8006I2cWriteBit i)
      (fun _ k' => Sending slave (symbols ++ [.bit (decide (i ≠ 0))]) (n + 1) k') k := by
  unfold qn8006I2cWriteBit qn8006SetSCL qn8006SetSDA
  rw [achieves_bind, achieves_setScl]
  have again : Sending slave symbols n (k.settle slave { k with scl := false }) :=
    ⟨sending.low.settle sending.low.sclOut rfl, sending.driven⟩
  exact again.clockOut (decide (i ≠ 0))

theorem sendAck_sends (sending : Sending slave symbols n k) (i : UINT8) :
    Achieves (busEnv slave) (qn8006I2cSendAck i)
      (fun _ k' => Sending slave (symbols ++ [.bit (decide (i ≠ 0))]) (n + 1) k') k := by
  have bit : qn8006I2cSendAck i = (do
      qn8006I2cWriteBit i
      qn8006SetSDA 1) := by
    simp only [qn8006I2cSendAck, qn8006I2cWriteBit, bind_assoc]
  rw [bit, achieves_bind]
  apply (writeBit_sends sending i).mono
  intro _ k₁ sent
  exact achieves_setSda.mpr ⟨sent.low.settle sent.low.sclOut sent.low.scl, sent.driven⟩

theorem Listening.clockIn (listening : Listening slave symbols n k) :
    Achieves (busEnv slave) (do
      qn8006SetSCL 1
      let level ← i2cSdaRead
      qn8006SetSCL 0
      pure level) (fun level k' => level = (if slave n then 1 else 0) ∧
        Listening slave (symbols ++ [.bit (slave n)]) (n + 1) k') k := by
  have pulse := listening.low.rise
  rw [listening.level] at pulse
  simp only [qn8006SetSCL, i2cSdaRead, achieves_bind, achieves_setScl, achieves_readSda, achieves_pure]
  refine ⟨?_, pulse.fall, listening.released⟩
  change (if ((k.settle slave { k with scl := true }).lines slave).sda then 1 else 0) = _
  rw [pulse.lines]

/-! One byte. -/

theorem top_bit (data : UINT8) : decide (data >>> 7 ≠ 0) = data.getMsbD 0 := by
  revert data
  decide

theorem writeBits_sends (left : Nat) (sending : Sending slave symbols n k) (data : UINT8) :
    Achieves (busEnv slave) (writeBits left data) (fun _ k' =>
      Sending slave (symbols ++ (List.range left).map fun i => .bit (data.getMsbD i)) (n + left) k')
      k := by
  induction left generalizing symbols n k data with
  | zero =>
    rw [writeBits, achieves_pure]
    simpa using sending
  | succ left ih =>
    rw [writeBits, achieves_bind]
    refine (writeBit_sends sending _).mono fun _ k₁ sent => (ih sent (data <<< 1)).mono ?_
    intro _ k₂ rest
    have bits : symbols ++ (List.range (left + 1)).map (fun i => Symbol.bit (data.getMsbD i)) =
        symbols ++ [.bit (decide (data >>> 7 ≠ 0))] ++
          (List.range left).map fun i => .bit ((data <<< 1).getMsbD i) := by
      simp only [List.range_succ_eq_map, List.map_cons, List.map_map, List.append_assoc, top_bit,
        BitVec.getMsbD_shiftLeft, List.singleton_append]
      rfl
    rw [bits, show n + (left + 1) = n + 1 + left by omega]
    exact rest

theorem writeByte_sends (sending : Sending slave symbols n k) (data : UINT8) :
    Achieves (busEnv slave) (qn8006I2cWriteByte data)
      (fun _ k' => Sending slave (symbols ++ byteBits data) (n + 8) k') k :=
  writeBits_sends 8 sending data

theorem checkAck_acked (sending : Sending slave symbols n k) (acked : slave n = false) :
    Achieves (busEnv slave) qn8006I2cCheckAck (fun succ k' => succ = 1 ∧
      Sending slave (symbols ++ [.bit false]) (n + 1) k') k := by
  have listening := sending.low.release
  have pulse := listening.low.rise
  rw [listening.level, acked] at pulse
  unfold qn8006I2cCheckAck
  rw [achieves_bind, achieves_sdaDir, achieves_bind]
  apply achieves_setScl.mpr
  have look : Achieves (busEnv slave) (pollAck 0) (fun out k' => out = .inr 1 ∧
      k' = (k.settle slave { k with sdaOut := false }).settle slave
        { k.settle slave { k with sdaOut := false } with scl := true })
      ((k.settle slave { k with sdaOut := false }).settle slave
        { k.settle slave { k with sdaOut := false } with scl := true }) := by
    simp only [pollAck, i2cSdaRead, achieves_bind, achieves_readSda, achieves_pure, pulse.lines]
    simp
  obtain ⟨_, _, polled, rfl, rfl⟩ := look
  apply (runs_doWhile.mpr (.inl polled)).then_achieves
  rw [achieves_bind]
  apply achieves_setScl.mpr
  rw [achieves_bind, achieves_sdaDir, achieves_pure]
  exact ⟨rfl, pulse.fall.drive⟩

/-- The byte that the slave drives from the `n`-th falling edge on. -/
def slaveByte (slave : Nat → Bool) (n : Nat) : UINT8 :=
  assemble ((List.range 8).map fun i => slave (n + i))

theorem readBits_hears (left : Nat) (listening : Listening slave symbols n k) (data1 : UINT8) :
    Achieves (busEnv slave) (readBits left data1) (fun data k' =>
      data = ((List.range left).map fun i => slave (n + i)).foldl shiftIn data1 ∧
      Listening slave (symbols ++ (List.range left).map fun i => .bit (slave (n + i))) (n + left) k')
      k := by
  induction left generalizing symbols n k data1 with
  | zero =>
    rw [readBits, achieves_pure]
    exact ⟨rfl, by simpa using listening⟩
  | succ left ih =>
    have one : readBits (left + 1) data1 = (do
        let level ← (do
          qn8006SetSCL 1
          let level ← i2cSdaRead
          qn8006SetSCL 0
          pure level)
        readBits left ((data1 <<< 1) ||| level)) := by
      simp only [readBits, bind_assoc, pure_bind]
    rw [one, achieves_bind]
    apply listening.clockIn.mono
    intro level k₁ heard
    obtain ⟨rfl, next⟩ := heard
    apply (ih next _).mono
    intro data k₂ rest
    obtain ⟨rfl, last⟩ := rest
    have shift (i : Nat) : n + 1 + i = n + (i + 1) := by omega
    simp only [shift] at last
    rw [show n + (left + 1) = n + 1 + left by omega]
    simp only [List.range_succ_eq_map, List.map_cons, List.map_map, List.foldl_cons, shift]
    refine ⟨rfl, ?_⟩
    rw [List.append_assoc] at last
    exact last

theorem readByte_hears (low : Low slave symbols n k) :
    Achieves (busEnv slave) qn8006I2cReadByte (fun data k' => data = slaveByte slave n ∧
      Sending slave (symbols ++ byteBits (slaveByte slave n)) (n + 8) k') k := by
  unfold qn8006I2cReadByte
  rw [achieves_bind, achieves_sdaDir, achieves_bind]
  apply (readBits_hears 8 low.release 0).mono
  intro data k₁ heard
  obtain ⟨rfl, last⟩ := heard
  rw [achieves_bind, achieves_sdaDir, achieves_pure]
  have bits : byteBits (slaveByte slave n) = (List.range 8).map fun i => .bit (slave (n + i)) :=
    byteBits_assemble fun i => slave (n + i)
  rw [bits]
  exact ⟨rfl, last.low.drive⟩

/-! The frame of a transfer. -/

/-- The bus is at rest and both pins are outputs. -/
structure Held (slave : Nat → Bool) (symbols : List Symbol) (n : Nat) (k : Bus) : Prop where
  rest : Rest slave symbols n k
  output : k.sclOut = true
  driven : k.sdaOut = true

theorem Held.settle (held : Held slave symbols n k) {after : Bus} (scl : after.scl = true)
    (sda : after.sda = true) (output : after.sclOut = true) (driven : after.sdaOut = true) :
    Held slave symbols n (k.settle slave after) :=
  ⟨held.rest.settle scl sda (.inl driven), output, driven⟩

theorem Rest.hold (rest : Rest slave symbols n k) :
    Achieves (busEnv slave) (do
      pinMode .sda
      pinMode .scl
      pinDir .sda true
      pinDir .scl true) (fun _ k' => Held slave symbols n k') k := by
  have r₁ : Rest slave symbols n (k.settle slave k) := rest.settle rest.scl rest.sda (.inr rfl)
  rw [achieves_bind, achieves_pinMode]
  generalize k.settle slave k = k₁ at r₁ ⊢
  have r₂ : Rest slave symbols n (k₁.settle slave k₁) := r₁.settle r₁.scl r₁.sda (.inr rfl)
  rw [achieves_bind, achieves_pinMode]
  generalize k₁.settle slave k₁ = k₂ at r₂ ⊢
  rw [achieves_bind, achieves_sdaDir]
  have r₃ : Rest slave symbols n (k₂.settle slave { k₂ with sdaOut := true }) :=
    r₂.settle r₂.scl r₂.sda (.inl rfl)
  have driven : (k₂.settle slave { k₂ with sdaOut := true }).sdaOut = true := rfl
  generalize k₂.settle slave { k₂ with sdaOut := true } = k₃ at r₃ driven ⊢
  rw [achieves_sclDir]
  exact ⟨r₃.settle r₃.scl r₃.sda (.inl driven), rfl, driven⟩

theorem start_sends (rest : Rest slave symbols n k) :
    Achieves (busEnv slave) qn8006I2cStart
      (fun _ k' => Sending slave (symbols ++ [.start]) (n + 1) k') k := by
  have start : qn8006I2cStart = (do
      (do
        pinMode .sda
        pinMode .scl
        pinDir .sda true
        pinDir .scl true)
      pinSet .scl true
      pinSet .sda true
      pinSet .sda false
      pinSet .scl false) := by
    simp only [qn8006I2cStart, bind_assoc]
    rfl
  rw [start, achieves_bind]
  apply rest.hold.mono
  intro _ k₁ held₁
  rw [achieves_bind, achieves_setScl]
  have held₂ : Held slave symbols n (k₁.settle slave { k₁ with scl := true }) :=
    held₁.settle rfl held₁.rest.sda held₁.output held₁.driven
  generalize k₁.settle slave { k₁ with scl := true } = k₂ at held₂ ⊢
  rw [achieves_bind, achieves_setSda]
  have held₃ : Held slave symbols n (k₂.settle slave { k₂ with sda := true }) :=
    held₂.settle held₂.rest.scl rfl held₂.output held₂.driven
  generalize k₂.settle slave { k₂ with sda := true } = k₃ at held₃ ⊢
  rw [achieves_bind, achieves_setSda, achieves_setScl]
  have low := (held₃.rest.start held₃.output held₃.driven).fall
  rw [Option.map_none, Option.toList_none, List.append_nil] at low
  exact ⟨low, held₃.driven⟩

theorem stop_sends (low : Low slave symbols n k) :
    Achieves (busEnv slave) qn8006I2cStop
      (fun _ k' => Rest slave (symbols ++ [.stop]) n k') k := by
  unfold qn8006I2cStop
  rw [achieves_bind, achieves_sdaDir]
  have sending₁ := low.drive
  generalize k.settle slave { k with sdaOut := true } = k₁ at sending₁ ⊢
  rw [achieves_bind, achieves_sclDir]
  have sending₂ : Sending slave symbols n (k₁.settle slave { k₁ with sclOut := true }) :=
    ⟨sending₁.low.settle rfl sending₁.low.scl, sending₁.driven⟩
  generalize k₁.settle slave { k₁ with sclOut := true } = k₂ at sending₂ ⊢
  rw [achieves_bind]
  apply achieves_setSda.mpr
  have sending₃ : Sending slave symbols n (k₂.settle slave { k₂ with sda := false }) :=
    ⟨sending₂.low.settle sending₂.low.sclOut sending₂.low.scl, sending₂.driven⟩
  have high := sending₃.low.rise
  rw [sending₃.level] at high
  rw [achieves_bind]
  refine achieves_setScl.mpr (achieves_setSda.mpr ?_)
  exact high.stop sending₃.driven

theorem sendAddress_acked (rest : Rest slave symbols n k) (temp : UINT8)
    (acked : slave (n + 9) = false) :
    Achieves (busEnv slave) (sendAddress temp) (fun succ k' => succ = 1 ∧
      Sending slave (symbols ++ [.start] ++ framed temp false) (n + 10) k') k := by
  unfold sendAddress
  rw [achieves_bind]
  apply (start_sends rest).mono
  intro _ k₁ started
  rw [achieves_bind]
  apply (writeByte_sends started temp).mono
  intro _ k₂ written
  rw [achieves_bind]
  apply (checkAck_acked written acked).mono
  intro succ k₃ checked
  obtain ⟨rfl, sending⟩ := checked
  have leave : Runs (busEnv slave) (retryAddress temp (1, 0)) k₃ (.inr 1) k₃ := by
    rw [retryAddress, if_neg (by simp)]
    exact runs_pure.mpr ⟨rfl, rfl⟩
  refine ⟨1, k₃, runs_doWhile.mpr (.inl leave), rfl, ?_⟩
  rw [framed, ← List.append_assoc]
  exact sending

theorem sendByte_acked (sending : Sending slave symbols n k) (data : UINT8)
    (acked : slave (n + 8) = false) :
    Achieves (busEnv slave) (do
      qn8006I2cWriteByte data
      qn8006I2cCheckAck) (fun _ k' =>
        Sending slave (symbols ++ framed data false) (n + 9) k') k := by
  rw [achieves_bind]
  apply (writeByte_sends sending data).mono
  intro _ k₁ written
  apply (checkAck_acked written acked).mono
  intro _ k₂ checked
  rw [framed, ← List.append_assoc]
  exact checked.2

theorem writeData_sends (data : List UINT8) (sending : Sending slave symbols n k)
    (acked : ∀ j < data.length, slave (n + 9 * j + 8) = false) :
    Achieves (busEnv slave) (writeData data) (fun _ k' =>
      Sending slave (symbols ++ data.flatMap (framed · false)) (n + 9 * data.length) k') k := by
  induction data generalizing symbols n k with
  | nil =>
    rw [writeData, achieves_pure]
    simpa using sending
  | cons byte rest ih =>
    have one : writeData (byte :: rest) = (do
        let _ ← (do
          qn8006I2cWriteByte byte
          qn8006I2cCheckAck)
        writeData rest) := by
      simp only [writeData, bind_assoc]
    rw [one, achieves_bind]
    apply (sendByte_acked sending byte (acked 0 (by simp))).mono
    intro _ k₁ sent
    have later : ∀ j < rest.length, slave (n + 9 + 9 * j + 8) = false := by
      intro j bound
      have slot := acked (j + 1) (by simpa using bound)
      rwa [show n + 9 * (j + 1) + 8 = n + 9 + 9 * j + 8 by omega] at slot
    apply (ih sent later).mono
    intro _ k₂ done
    rw [List.flatMap_cons, ← List.append_assoc, List.length_cons,
      show n + 9 * (rest.length + 1) = n + 9 + 9 * rest.length by omega]
    exact done

/-- The bytes of a read: the master acknowledges all but the last. -/
def readFrames : List UINT8 → List Symbol
  | [] => []
  | data :: rest => framed data rest.isEmpty ++ readFrames rest

/-- The bytes that the slave drives, nine clocks apart. -/
def slaveBytes (slave : Nat → Bool) (count n : Nat) : List UINT8 :=
  (List.range count).map fun j => slaveByte slave (n + 9 * j)

theorem slaveBytes_succ (count : Nat) :
    slaveBytes slave (count + 1) n = slaveByte slave n :: slaveBytes slave count (n + 9) := by
  have later (j : Nat) : n + 9 * (j + 1) = n + 9 + 9 * j := by omega
  simp only [slaveBytes, List.range_succ_eq_map, List.map_cons, List.map_map]
  rw [Nat.mul_zero, Nat.add_zero]
  congr 1
  exact List.map_congr_left fun j _ => congrArg (slaveByte slave) (later j)

theorem readData_hears (length left i : Nat) (total : i + left = length)
    (low : Low slave symbols n k) :
    Achieves (busEnv slave) (readData length left i) (fun data k' =>
      data = slaveBytes slave left n ∧
      Low slave (symbols ++ readFrames data) (n + 9 * left) k') k := by
  induction left generalizing symbols n k i with
  | zero =>
    rw [readData, achieves_pure]
    exact ⟨rfl, by simpa [readFrames] using low⟩
  | succ left ih =>
    rw [readData, achieves_bind]
    apply (readByte_hears low).mono
    intro data k₁ heard
    obtain ⟨rfl, sending⟩ := heard
    have ack : Achieves (busEnv slave)
        (if i = length - 1 then qn8006I2cSendAck 1 else qn8006I2cSendAck 0) (fun _ k' =>
          Sending slave (symbols ++ framed (slaveByte slave n) (decide (left = 0))) (n + 9) k') k₁ := by
      rw [framed, ← List.append_assoc]
      by_cases last : left = 0
      · rw [if_pos (by omega), decide_eq_true last]
        exact sendAck_sends sending 1
      · rw [if_neg (by omega), decide_eq_false last]
        exact sendAck_sends sending 0
    rw [achieves_bind]
    apply ack.mono
    intro _ k₂ acked
    rw [achieves_bind]
    apply (ih (i + 1) (by omega) acked.low).mono
    intro rest k₃ read
    obtain ⟨rfl, low₃⟩ := read
    have none : (slaveBytes slave left (n + 9)).isEmpty = decide (left = 0) := by
      cases left with
      | zero => rfl
      | succ left => rw [slaveBytes_succ]; rfl
    rw [achieves_pure, slaveBytes_succ, readFrames, none, ← List.append_assoc,
      show n + 9 * (left + 1) = n + 9 + 9 * left by omega]
    exact ⟨rfl, low₃⟩

/-! Whole transfers. -/

theorem writeNbyte_sends (rest : Rest slave symbols n k) (addr reg : UINT8) (data : List UINT8)
    (acked : ∀ j < data.length + 2, slave (n + 9 * (j + 1)) = false) :
    Achieves (busEnv slave) (qn8006AI2CWriteNbyte addr reg data) (fun succ k' => succ = 1 ∧
      Rest slave (symbols ++ ([.start] ++ framed (addr &&& 0xfe) false ++ framed reg false ++
        data.flatMap (framed · false) ++ [.stop])) (n + 9 * (data.length + 2) + 1) k') k := by
  have write : qn8006AI2CWriteNbyte addr reg data = (do
      let succ ← sendAddress (addr &&& 0xfe)
      let _ ← (do
        qn8006I2cWriteByte reg
        qn8006I2cCheckAck)
      writeData data
      qn8006I2cStop
      pure succ) := by
    simp only [qn8006AI2CWriteNbyte, bind_assoc]
  rw [write, achieves_bind]
  apply (sendAddress_acked rest _ (acked 0 (by omega))).mono
  intro succ k₁ addressed
  obtain ⟨rfl, sending₁⟩ := addressed
  have slot : slave (n + 10 + 8) = false := acked 1 (by omega)
  rw [achieves_bind]
  apply (sendByte_acked sending₁ reg slot).mono
  intro _ k₂ sending₂
  have slots : ∀ j < data.length, slave (n + 10 + 9 + 9 * j + 8) = false := by
    intro j bound
    have later := acked (j + 2) (by omega)
    rwa [show n + 9 * (j + 2 + 1) = n + 10 + 9 + 9 * j + 8 by omega] at later
  rw [achieves_bind]
  apply (writeData_sends data sending₂ slots).mono
  intro _ k₃ sending₃
  rw [achieves_bind]
  apply (stop_sends sending₃.low).mono
  intro _ k₄ rest₄
  rw [achieves_pure, show n + 9 * (data.length + 2) + 1 = n + 10 + 9 + 9 * data.length by omega]
  refine ⟨rfl, ?_⟩
  simp only [List.append_assoc] at rest₄ ⊢
  exact rest₄

theorem readNbyte_hears (rest : Rest slave symbols n k) (addr reg length : UINT8)
    (acked : ∀ j < 2, slave (n + 9 * (j + 1)) = false) :
    Achieves (busEnv slave) (qn8006AI2CReadNbyte addr reg length) (fun r k' => r.1 = 1 ∧
      r.2 = slaveBytes slave length.toNat (n + 19) ∧
      Rest slave (symbols ++ ([.start] ++ framed (addr ||| 1) false ++ framed reg false ++
        readFrames r.2 ++ [.stop])) (n + 19 + 9 * length.toNat) k') k := by
  have read : qn8006AI2CReadNbyte addr reg length = (do
      pinDir .sda true
      let succ ← sendAddress (addr ||| 1)
      let _ ← (do
        qn8006I2cWriteByte reg
        qn8006I2cCheckAck)
      pinDir .sda false
      let data ← readData length.toNat length.toNat 0
      qn8006I2cStop
      pure (succ, data)) := by
    simp only [qn8006AI2CReadNbyte, bind_assoc]
  rw [read, achieves_bind, achieves_sdaDir, achieves_bind]
  have driven : Rest slave symbols n (k.settle slave { k with sdaOut := true }) :=
    rest.settle rest.scl rest.sda (.inl rfl)
  apply (sendAddress_acked driven _ (acked 0 (by omega))).mono
  intro succ k₁ addressed
  obtain ⟨rfl, sending₁⟩ := addressed
  have slot : slave (n + 10 + 8) = false := acked 1 (by omega)
  rw [achieves_bind]
  apply (sendByte_acked sending₁ reg slot).mono
  intro _ k₂ sending₂
  rw [achieves_bind, achieves_sdaDir, achieves_bind]
  have listening := sending₂.low.release
  apply (readData_hears _ _ 0 (Nat.zero_add _) listening.low).mono
  intro data k₃ heard
  obtain ⟨same, low₃⟩ := heard
  rw [achieves_bind]
  apply (stop_sends low₃).mono
  intro _ k₄ rest₄
  rw [achieves_pure]
  refine ⟨rfl, same, ?_⟩
  simp only [List.append_assoc] at rest₄ ⊢
  exact rest₄

theorem writeReg_sends (rest : Rest slave symbols n k) (addr value : UINT8)
    (acked : ∀ j < 3, slave (n + 9 * (j + 1)) = false) :
    Achieves (busEnv slave) (qn8006GpioI2cWriteReg addr value) (fun _ k' =>
      Rest slave (symbols ++ ([.start] ++ framed 0x56 false ++ framed addr false ++
        framed value false ++ [.stop])) (n + 28) k') k := by
  unfold qn8006GpioI2cWriteReg
  rw [achieves_bind]
  apply (writeNbyte_sends rest (QN8006_I2C_ADDR <<< 1) addr [value] acked).mono
  intro _ k' sent
  rw [achieves_pure]
  exact sent.2

theorem readReg_hears (rest : Rest slave symbols n k) (addr : UINT8)
    (acked : ∀ j < 2, slave (n + 9 * (j + 1)) = false) :
    Achieves (busEnv slave) (qn8006GpioI2cReadReg addr) (fun value k' =>
      value = slaveByte slave (n + 19) ∧
      Rest slave (symbols ++ ([.start] ++ framed 0x57 false ++ framed addr false ++
        framed value true ++ [.stop])) (n + 28) k') k := by
  unfold qn8006GpioI2cReadReg
  rw [achieves_bind]
  apply (readNbyte_hears rest (QN8006_I2C_ADDR <<< 1) addr 1 acked).mono
  intro r k' heard
  obtain ⟨_, bytes, after⟩ := heard
  have one : r.2 = [slaveByte slave (n + 19)] := bytes
  rw [one] at after ⊢
  rw [achieves_pure]
  exact ⟨rfl, after⟩

/-- The bus is idle: both lines are high, as are the latches of their pins. The recording of
the lines begins here. -/
structure Idle (slave : Nat → Bool) (k : Bus) : Prop where
  scl : k.scl = true
  sda : k.sda = true
  lines : k.lines slave = ⟨true, true⟩
  clock : k.clock = 0
  wave : k.wave = []

def Bus.record (k : Bus) : Bus := { k with clock := 0, wave := [] }

theorem Idle.rest (idle : Idle slave k) : Rest slave [] 0 k := by
  have seen : observe k.wave = ⟨⟨true, true⟩, none, []⟩ := by
    rw [idle.wave]
    rfl
  exact ⟨idle.scl, idle.sda, idle.clock, idle.lines, seen⟩

theorem Rest.idle (rest : Rest slave symbols n k) : Idle (fun i => slave (n + i)) k.record := by
  have lines : k.record.lines (fun i => slave (n + i)) = ⟨true, true⟩ := by
    rw [← rest.lines, Bus.lines, Bus.lines, rest.clock]
    rfl
  exact ⟨rest.scl, rest.sda, lines, rfl, rfl⟩

theorem initial_idles : Achieves (busEnv slave) qn8006I2cInitial
    (fun _ k' => ∀ next, Idle next k'.record) k := by
  simp only [qn8006I2cInitial, achieves_bind, achieves_pinMode, achieves_sdaDir, achieves_sclDir,
    achieves_setSda, achieves_setScl]
  intro next
  constructor
  all_goals rfl

/-- The slave pulls SDA low in the first `count` slots of an ack. -/
def Acknowledges (slave : Nat → Bool) (count : Nat) : Prop :=
  ∀ j < count, slave (9 * (j + 1)) = false

theorem Rest.decode (rest : Rest slave symbols n k) : decode k.wave = symbols := by
  rw [I2c.decode, rest.seen]

theorem transfers_decode (idle : Idle slave k) (addr reg : UINT8) :
    (∀ data : List UINT8, Acknowledges slave (data.length + 2) →
      Achieves (busEnv slave) (qn8006AI2CWriteNbyte addr reg data) (fun succ k' => succ = 1 ∧
        decode k'.wave = [.start] ++ framed (addr &&& 0xfe) false ++ framed reg false ++
          data.flatMap (framed · false) ++ [.stop]) k) ∧
    (∀ length : UINT8, Acknowledges slave 2 →
      Achieves (busEnv slave) (qn8006AI2CReadNbyte addr reg length) (fun r k' => r.1 = 1 ∧
        r.2 = slaveBytes slave length.toNat 19 ∧
        decode k'.wave = [.start] ++ framed (addr ||| 1) false ++ framed reg false ++
          readFrames r.2 ++ [.stop]) k) := by
  constructor
  · intro data acked
    have slots : ∀ j < data.length + 2, slave (0 + 9 * (j + 1)) = false := by
      intro j bound
      rw [Nat.zero_add]
      exact acked j bound
    apply (writeNbyte_sends idle.rest addr reg data slots).mono
    intro succ k' sent
    exact ⟨sent.1, sent.2.decode⟩
  · intro length acked
    have slots : ∀ j < 2, slave (0 + 9 * (j + 1)) = false := by
      intro j bound
      rw [Nat.zero_add]
      exact acked j bound
    apply (readNbyte_hears idle.rest addr reg length slots).mono
    intro r k' heard
    have bytes : r.2 = slaveBytes slave length.toNat 19 := by
      rw [heard.2.1, Nat.zero_add]
    exact ⟨heard.1, bytes, heard.2.2.decode⟩

end

/-- A slave that only acknowledges: it releases SDA in every other slot. -/
def acknowledging (n : Nat) : Bool := decide (n % 9 ≠ 0)

/-- From the pins as they are set up. -/
theorem transfer_of_chip :
    Achieves (busEnv acknowledging) (qn8006AI2CWriteNbyte 0x56 0x01 [0xA5]) (fun succ k' =>
      succ = 1 ∧ decode k'.wave = [.start] ++ framed 0x56 false ++ framed 0x01 false ++
        [0xA5].flatMap (framed · false) ++ [.stop]) ⟨true, true, true, true, 0, []⟩ ∧
    Achieves (busEnv acknowledging) (qn8006AI2CReadNbyte 0x56 0x01 2) (fun r k' => r.1 = 1 ∧
      r.2 = slaveBytes acknowledging 2 19 ∧ decode k'.wave = [.start] ++ framed 0x57 false ++
        framed 0x01 false ++ readFrames r.2 ++ [.stop]) ⟨true, true, true, true, 0, []⟩ := by
  have idle : Idle acknowledging ⟨true, true, true, true, 0, []⟩ := ⟨rfl, rfl, rfl, rfl, rfl⟩
  have acked (count : Nat) : Acknowledges acknowledging count := by
    intro j _
    rw [acknowledging, Nat.mul_mod_right]
    rfl
  have both := transfers_decode idle 0x56 0x01
  exact ⟨both.1 [0xA5] (acked 3), both.2 2 (acked 2)⟩

end Yika.I2c
