import Yika.Relay.WritePc

/-! `read_data_from_pc` of `bt_relayer.cpp`, over every sequence of results that `select` and `read`
may have on the UART, and the exactness of both loops of the relay. -/

namespace Yika.Relay
open Program

/-- What `select` returns, and the `errno` it leaves. -/
structure Selected where
  ret : Int
  errno : Nat

/-- What `read` returns, and the `errno` it leaves. -/
structure Got where
  bytesRead : Int
  errno : Nat

inductive PcOp where
  | select (fd : Int)
  | read (fd : Int) (index count : Nat)
  deriving DecidableEq

abbrev PcOp.Answer : PcOp → Type
  | .select _ => Selected
  | .read _ _ _ => Got

abbrev pcSignature : Signature := ⟨PcOp, PcOp.Answer⟩

abbrev PcThread := Prog pcSignature

namespace Pc

/-- `select(fd + 1, &readfd, NULL, NULL, &tv)`, with `fd` alone in `readfd`. -/
def select (fd : Int) : PcThread Selected := @Prog.perform pcSignature (.select fd)
/-- At most `count` bytes are read, and stored in the buffer from the one at `index` on. -/
def read (fd : Int) (index count : Nat) : PcThread Got :=
  @Prog.perform pcSignature (.read fd index count)

/-- The loop; the locals are `buffer`, as an index, and `bytesToRead`. -/
def readRest (fd : Int) (rest : Nat × Int) : PcThread ((Nat × Int) ⊕ Int) :=
  if 0 < rest.2 then do
    let selected ← select fd
    if 0 < selected.ret then do
      let got ← read fd rest.1 rest.2.toNat
      if got.bytesRead < 0 then
        if got.errno = EINTR ∨ got.errno = EAGAIN then pure (.inl rest) else pure (.inr (-1))
      else pure (.inl (rest.1 + got.bytesRead.toNat, rest.2 - got.bytesRead))
    else if selected.ret = 0 then pure (.inr (-1))
    else if selected.ret = -1 ∧ selected.errno = EINTR then pure (.inl rest)
    else pure (.inr (-1))
  else pure (.inr 0)

/-- `len` is put into an `int`. -/
def readDataFromPc (fd : Int) (len : BitVec 32) : PcThread Int :=
  if fd < 0 then pure (-1) else Prog.doWhile (readRest fd) (0, len.toInt)

end Pc

/-! The UART. -/

inductive ReadResult where
  | bytes (count : Nat)
  | failed (errno : Nat)

/-- What a turn of the loop finds: `select` times out, fails, or says that there is something to
read, and then `read` has its result. -/
inductive Turn where
  | timeout
  | selectFailed (errno : Nat)
  | readable (result : ReadResult)

def Turn.piece : Turn → Piece
  | .timeout => .failed
  | .selectFailed errno => if errno = EINTR then .moved 0 else .failed
  | .readable (.bytes count) => .moved count
  | .readable (.failed errno) => if Interruption errno then .moved 0 else .failed

/-- The results of the turns, and the bytes that come in. -/
structure Port where
  turns : Nat → Turn
  stream : Nat → UCHAR

/-- The turns taken, the bytes consumed, and the memory from the start of the buffer on. -/
structure PortState where
  turn : Nat
  consumed : Nat
  buffer : Nat → UCHAR

/-- The next `count` bytes are stored. -/
def PortState.receive (w : PortState) (port : Port) (index count : Nat) : PortState where
  turn := w.turn
  consumed := w.consumed + count
  buffer i := if index ≤ i ∧ i < index + count then port.stream (w.consumed + (i - index))
    else w.buffer i

def Turn.select : Turn → Selected
  | .timeout => ⟨0, 0⟩
  | .selectFailed errno => ⟨-1, errno⟩
  | .readable _ => ⟨1, 0⟩

/-- The descriptor is non-blocking. -/
def Port.read (port : Port) (w : PortState) (index count : Nat) : Turn → Got × PortState
  | .readable (.bytes available) =>
    (⟨(min available count : Nat), 0⟩, w.receive port index (min available count))
  | .readable (.failed errno) => (⟨-1, errno⟩, w)
  | _ => (⟨-1, EAGAIN⟩, w)

def Port.env (port : Port) : Env pcSignature PortState
  | .select _, w => ((port.turns w.turn).select, { w with turn := w.turn + 1 })
  | .read _ index count, w => port.read w index count (port.turns (w.turn - 1))

section
variable {port : Port} {w w' : PortState} {fd : Int}

@[simp] theorem achieves_select {post : Selected → PortState → Prop} :
    Achieves port.env (Pc.select fd) post w ↔
      post (port.turns w.turn).select { w with turn := w.turn + 1 } := achieves_perform

@[simp] theorem achieves_read {index count : Nat} {post : Got → PortState → Prop} :
    Achieves port.env (Pc.read fd index count) post w ↔
      post (port.read w index count (port.turns (w.turn - 1))).1
        (port.read w index count (port.turns (w.turn - 1))).2 := achieves_perform

theorem receive_zero (index : Nat) : w.receive port index 0 = w := by
  have outside (i : Nat) : ¬(index ≤ i ∧ i < index) := by omega
  simp only [PortState.receive, Nat.add_zero, outside, if_false]

theorem achieves_readRest {index left : Nat} {post : (Nat × Int) ⊕ Int → PortState → Prop}
    (some : 0 < left) : Achieves port.env (Pc.readRest fd (index, (left : Int))) post w ↔
      post (advance index left (port.turns w.turn).piece)
        ({ w with turn := w.turn + 1 }.receive port index
          (min (port.turns w.turn).piece.count left)) := by
  have positive : (0 : Int) < (index, (left : Int)).2 := Int.natCast_pos.mpr some
  rw [Pc.readRest, if_pos positive, achieves_bind, achieves_select]
  simp only [achieves_ite, achieves_bind, achieves_read, achieves_pure, Nat.add_sub_cancel]
  cases turn : port.turns w.turn with
  | timeout => simp [Turn.select, Turn.piece, advance, Piece.count, receive_zero]
  | selectFailed errno =>
    by_cases again : errno = EINTR
    · simp [Turn.select, Turn.piece, advance, Piece.count, receive_zero, again]
    · simp [Turn.select, Turn.piece, advance, Piece.count, receive_zero, again]
  | readable result =>
    cases result with
    | bytes count =>
      have took : ¬((min count left : Nat) : Int) < 0 := by omega
      have rest : (left : Int) - ((min count left : Nat) : Int) = ((left - min count left : Nat) : Int) := by
        omega
      simp only [Turn.select, Turn.piece, Piece.count, advance, Port.read, took, rest,
        Int.toNat_natCast, zero_lt_one, forall_const, false_implies, not_false_eq_true,
        not_true_eq_false, true_and, and_true]
    | failed errno =>
      by_cases again : Interruption errno
      · have tries : errno = EINTR ∨ errno = EAGAIN := again
        simp [Turn.select, Turn.piece, Port.read, if_pos again, tries, advance, Piece.count, receive_zero]
      · have ends : ¬(errno = EINTR ∨ errno = EAGAIN) := again
        simp [Turn.select, Turn.piece, Port.read, if_neg again, ends, advance, Piece.count, receive_zero]

/-! The loop. -/

def readPieces (port : Port) (w : PortState) (turn : Nat) : Piece :=
  (port.turns (w.turn + turn)).piece

def received (port : Port) (w : PortState) (len turn : Nat) : Nat :=
  min (movedBy (readPieces port w) turn) len

theorem received_succ (port : Port) (w : PortState) (len turn : Nat) :
    received port w len (turn + 1) = received port w len turn +
      min (readPieces port w turn).count (len - received port w len turn) := by
  rw [received, received, movedBy_succ]
  omega

/-- Some turns of the loop after `w`: what has been received stands at the start of the buffer. -/
structure Filled (port : Port) (w : PortState) (len turn : Nat) (w' : PortState) : Prop where
  turns : w'.turn = w.turn + turn
  consumed : w'.consumed = w.consumed + received port w len turn
  stored : ∀ i < received port w len turn, w'.buffer i = port.stream (w.consumed + i)
  beyond : ∀ i, received port w len turn ≤ i → w'.buffer i = w.buffer i

theorem Filled.next {len turn : Nat} (filled : Filled port w len turn w') :
    Filled port w len (turn + 1) ({ w' with turn := w'.turn + 1 }.receive port
      (received port w len turn)
      (min (readPieces port w turn).count (len - received port w len turn))) := by
  have grown := received_succ port w len turn
  constructor
  case turns =>
    show w'.turn + 1 = w.turn + (turn + 1)
    rw [filled.turns, Nat.add_assoc]
  case consumed =>
    show w'.consumed + _ = _
    rw [filled.consumed, grown, Nat.add_assoc]
  case stored =>
    intro i inside
    by_cases old : i < received port w len turn
    · have kept := filled.stored i old
      simp only [PortState.receive]
      rwa [if_neg (by omega)]
    · simp only [PortState.receive, filled.consumed]
      rw [if_pos (by omega)]
      congr 1
      omega
  case beyond =>
    intro i outside
    simp only [PortState.receive]
    rw [if_neg (by omega)]
    exact filled.beyond i (by omega)

def readLocals (port : Port) (w : PortState) (len turn : Nat) : Nat × Int :=
  (received port w len turn, ((len - received port w len turn : Nat) : Int))

theorem readRest_pumps (fd : Int) (port : Port) (w : PortState) (len : Nat) :
    Pumps port.env (Pc.readRest fd) (readPieces port w) len (readLocals port w len) 0 (-1)
      (Filled port w len) := by
  have left {turn : Nat} (wanting : movedBy (readPieces port w) turn < len) :
      0 < len - received port w len turn := by
    rw [received]
    omega
  constructor
  case finish =>
    intro turn w' filled enough
    have none : ¬(0 : Int) < ((len - received port w len turn : Nat) : Int) := by
      rw [received]
      omega
    rw [Pc.readRest, readLocals, if_neg none, achieves_pure]
    exact ⟨rfl, filled⟩
  case fail =>
    intro turn w' filled wanting failed
    have next := filled.next
    have same : port.turns w'.turn = port.turns (w.turn + turn) := by rw [filled.turns]
    rw [readLocals, achieves_readRest (left wanting), same]
    change advance _ _ (readPieces port w turn) = _ ∧ _
    refine ⟨?_, next⟩
    rw [failed, advance]
  case go =>
    intro turn w' count filled wanting moved
    have next := filled.next
    have grown := received_succ port w len turn
    rw [moved, Piece.count] at grown
    have rest : len - received port w len turn - min count (len - received port w len turn) =
        len - received port w len (turn + 1) := by
      omega
    have same : port.turns w'.turn = port.turns (w.turn + turn) := by rw [filled.turns]
    rw [readLocals, achieves_readRest (left wanting), same]
    change advance _ _ (readPieces port w turn) = _ ∧ _
    refine ⟨?_, next⟩
    rw [moved, advance, rest, ← grown, readLocals]

theorem filled_start (len : Nat) : Filled port w len 0 w := by
  have none : received port w len 0 = 0 := Nat.zero_min len
  exact ⟨rfl, by rw [none, Nat.add_zero], fun i inside => by omega, fun _ _ => rfl⟩

/-- The bytes that the loop wants: a `len` that is negative as an `int` wants none. -/
def wanted (len : BitVec 32) : Nat := len.toInt.toNat

theorem wanted_small {len : BitVec 32} (small : len.toNat < 2 ^ 31) : wanted len = len.toNat := by
  rw [wanted, BitVec.toInt_eq_toNat_cond, if_pos (by omega), Int.toNat_natCast]

theorem runs_readRest_none {rest : Nat × Int} (none : ¬0 < rest.2) {ret : Int} :
    Runs port.env (Prog.doWhile (Pc.readRest fd) rest) w ret w' ↔ ret = 0 ∧ w' = w := by
  rw [runs_doWhile, Pc.readRest, if_neg none]
  simp

theorem runs_readDataFromPc (opened : 0 ≤ fd) (len : BitVec 32) {ret : Int} :
    Runs port.env (Pc.readDataFromPc fd len) w ret w' ↔
      Runs port.env (Prog.doWhile (Pc.readRest fd) (readLocals port w (wanted len) 0)) w ret w' := by
  have start : readLocals port w (wanted len) 0 = (0, (wanted len : Int)) := by
    have none : received port w (wanted len) 0 = 0 := Nat.zero_min _
    rw [readLocals, none, Nat.sub_zero]
  rw [Pc.readDataFromPc, if_neg (Int.not_lt.mpr opened), start]
  by_cases negative : len.toInt < 0
  · have nothing : ¬(0 : Int) < wanted len := by
      rw [wanted]
      omega
    rw [runs_readRest_none (Int.not_lt.mpr (Int.le_of_lt negative)), runs_readRest_none nothing]
  · rw [wanted, Int.toNat_of_nonneg (Int.not_lt.mp negative)]

theorem readDataFromPc_filled (opened : 0 ≤ fd) (len : BitVec 32) :
    Ensures port.env (Pc.readDataFromPc fd len) (fun ret w' => ∃ turns,
      Filled port w (wanted len) turns w' ∧
        (ret = 0 ∧ received port w (wanted len) turns = wanted len ∨
          ret = -1 ∧ received port w (wanted len) turns < wanted len)) w := by
  intro ret w' run
  have left := (readRest_pumps fd port w (wanted len)).ensures (filled_start _) ret w'
    ((runs_readDataFromPc opened len).mp run)
  rcases left with ⟨rfl, turns, filled, enough⟩ | ⟨rfl, turns, filled, below⟩
  · exact ⟨turns, filled, .inl ⟨rfl, Nat.min_eq_right enough⟩⟩
  · exact ⟨turns, filled, .inr ⟨rfl, Nat.lt_of_le_of_lt (Nat.min_le_left _ _) below⟩⟩

/-- What the forwarding thread takes `read_data_from_pc` for: with a peer that sends `k.input` and no
more, and when the call gives up only if there is nothing left, it returns and stores what the
operation of the thread does. -/
theorem readDataFromPc_refines {toChip : List UCHAR → Int} {k : Link} {dest : Dest} (opened : 0 ≤ fd)
    (len : BitVec 32) (incoming : ∀ i (inside : i < k.input.length),
      port.stream (w.consumed + i) = k.input[i]) :
    Ensures port.env (Pc.readDataFromPc fd len) (fun ret w' =>
      w'.consumed ≤ w.consumed + k.input.length →
      (ret = -1 → w'.consumed = w.consumed + k.input.length) →
      relayEnv toChip (.readDataFromPc fd dest (wanted len)) k = (ret,
        { k.store dest ((List.range (w'.consumed - w.consumed)).map w'.buffer) with
          input := k.input.drop (w'.consumed - w.consumed) })) w := by
  intro ret w' run inside patient
  obtain ⟨turns, filled, result⟩ := readDataFromPc_filled opened len ret w' run
  have count : w'.consumed - w.consumed = received port w (wanted len) turns := by
    rw [filled.consumed, Nat.add_sub_cancel_left]
  have short : received port w (wanted len) turns ≤ k.input.length := by
    have consumed := filled.consumed
    omega
  have bytes : (List.range (received port w (wanted len) turns)).map w'.buffer =
      k.input.take (received port w (wanted len) turns) := by
    apply List.ext_getElem
    · rw [List.length_map, List.length_range, List.length_take, Nat.min_eq_left short]
    · intro i here there
      rw [List.length_map, List.length_range] at here
      rw [List.getElem_map, List.getElem_range, List.getElem_take, filled.stored i here,
        incoming i (by omega)]
  rw [count, bytes, relayEnv]
  rcases result with ⟨rfl, all⟩ | ⟨rfl, below⟩
  · rw [all] at short ⊢
    rw [if_pos short]
  · have exhausted : received port w (wanted len) turns = k.input.length := by
      have consumed := filled.consumed
      have last := patient rfl
      omega
    rw [exhausted] at below ⊢
    rw [if_neg (Nat.not_le.mpr below), List.take_of_length_le (Nat.le_of_lt below),
      List.take_length, List.drop_of_length_le (Nat.le_of_lt below), List.drop_length]

/-- A result with which `EINTR` or `EAGAIN` comes. -/
def Turn.Interrupted : Turn → Prop
  | .selectFailed errno | .readable (.failed errno) => Interruption errno
  | _ => False

/-- From some turn on the descriptor is readable for ever and `read` returns 0, before the bytes
wanted have come and before anything has failed. -/
def HungUp (port : Port) (w : PortState) (len : Nat) : Prop :=
  ∃ n, Unbroken (readPieces port w) n ∧ movedBy (readPieces port w) n < len ∧
    ∀ turn, n ≤ turn → port.turns (w.turn + turn) = .readable (.bytes 0)

/-- When interruptions come to an end, a loop that receives nothing any more reads nothing. -/
theorem stalls_iff_hungUp (finite : ∃ n, ∀ turn, n ≤ turn → ¬(port.turns turn).Interrupted) (len : Nat) :
    Stalls (readPieces port w) len ↔ HungUp port w len := by
  constructor
  · intro stalls
    obtain ⟨last, calm⟩ := finite
    obtain ⟨n, _, _, idle⟩ := id stalls
    refine ⟨max n last, stalls.unbroken _, stalls.movedBy_lt _, fun turn later => ?_⟩
    have quiet := calm (w.turn + turn) (by omega)
    have empty := idle turn (by omega)
    rw [readPieces] at empty
    cases result : port.turns (w.turn + turn) with
    | timeout => rw [result, Turn.piece] at empty; cases empty
    | selectFailed errno =>
      rw [result] at empty quiet
      have ends : ¬errno = EINTR := fun again => quiet (.inl again)
      rw [Turn.piece, if_neg ends] at empty
      cases empty
    | readable read =>
      rw [result] at empty quiet
      cases read with
      | bytes count =>
        rw [Turn.piece] at empty
        cases empty
        rfl
      | failed errno =>
        have ends : ¬Interruption errno := quiet
        rw [Turn.piece, if_neg ends] at empty
        cases empty
  · intro hung
    obtain ⟨n, unbroken, below, idle⟩ := hung
    refine ⟨n, unbroken, below, fun turn later => ?_⟩
    rw [readPieces, idle turn later, Turn.piece]

/-- For every requested length and all results in which the interruptions come to an end,
`read_data_from_pc` returns exactly when the peer does not hang up while bytes are wanted. -/
theorem readDataFromPc_returns_iff (fd : Int) (len : BitVec 32) (port : Port) (w : PortState)
    (finite : ∃ n, ∀ turn, n ≤ turn → ¬(port.turns turn).Interrupted) :
    Achieves port.env (Pc.readDataFromPc fd len) (fun _ _ => True) w ↔
      fd < 0 ∨ ¬HungUp port w (wanted len) := by
  by_cases invalid : fd < 0
  · rw [Pc.readDataFromPc, if_pos invalid, achieves_pure]
    exact iff_of_true trivial (.inl invalid)
  · have loop := (readRest_pumps fd port w (wanted len)).returns_iff (filled_start _)
    rw [stalls_iff_hungUp finite] at loop
    simp only [Achieves, runs_readDataFromPc (Int.not_lt.mp invalid)] at loop ⊢
    exact loop.trans (or_iff_right invalid).symm

/-- A peer that sends one byte at a time. -/
def typist : Port := ⟨fun _ => .readable (.bytes 1), fun _ => 0x01⟩

theorem typist_read : Achieves typist.env (Pc.readDataFromPc 3 4) (fun _ _ => True) ⟨0, 0, fun _ => 0⟩ := by
  have calm : ∃ n, ∀ turn, n ≤ turn → ¬(typist.turns turn).Interrupted := ⟨0, fun _ _ => id⟩
  refine (readDataFromPc_returns_iff 3 4 typist ⟨0, 0, fun _ => 0⟩ calm).mpr (.inr ?_)
  intro hung
  obtain ⟨n, _, _, idle⟩ := hung
  have last := idle n (Nat.le_refl n)
  cases last

/-- A peer that has hung up. -/
def goneAway : Port := ⟨fun _ => .readable (.bytes 0), fun _ => 0x00⟩

theorem goneAway_read_endless : (∀ turn, ¬(goneAway.turns turn).Interrupted) ∧
    ¬Achieves goneAway.env (Pc.readDataFromPc 3 1) (fun _ _ => True) ⟨0, 0, fun _ => 0⟩ := by
  refine ⟨fun _ => id, fun returns => ?_⟩
  obtain ⟨ret, w', run, _⟩ := returns
  have stalls : Stalls (readPieces goneAway ⟨0, 0, fun _ => 0⟩) (wanted 1) :=
    ⟨0, unbroken_zero, by decide, fun _ _ => rfl⟩
  exact (readRest_pumps 3 goneAway ⟨0, 0, fun _ => 0⟩ (wanted 1)).stalls stalls (filled_start _) ret w'
    ((runs_readDataFromPc (by decide) 1).mp run)

/-- `read_data_from_pc` returns 0 exactly when the results let all of the bytes wanted through. -/
theorem readDataFromPc_zero_iff (opened : 0 ≤ fd) (len : BitVec 32) :
    Achieves port.env (Pc.readDataFromPc fd len) (fun ret _ => ret = 0) w ↔
      Completes (readPieces port w) (wanted len) := by
  have loop := (readRest_pumps fd port w (wanted len)).done_iff (by decide) (filled_start _)
  simp only [Achieves, runs_readDataFromPc opened] at loop ⊢
  exact loop

/-! What has been read. -/

/-- What `read_data_from_pc` returns with: on 0 the buffer holds the next `len` bytes of the stream,
on -1 no more than these are consumed, and beyond the buffer nothing is stored. -/
structure ReadExactly (port : Port) (w : PortState) (len : Nat) (ret : Int) (w' : PortState) : Prop where
  known : ret = 0 ∨ ret = -1
  whole : ret = 0 → w'.consumed = w.consumed + len ∧
    ∀ i < len, w'.buffer i = port.stream (w.consumed + i)
  part : ret = -1 → w'.consumed ≤ w.consumed + len
  beyond : ∀ i, len ≤ i → w'.buffer i = w.buffer i

theorem readDataFromPc_exact (fd : Int) {len : BitVec 32} (small : len.toNat < 2 ^ 31) :
    Ensures port.env (Pc.readDataFromPc fd len) (ReadExactly port w len.toNat) w := by
  by_cases invalid : fd < 0
  · rw [Pc.readDataFromPc, if_pos invalid, ensures_pure]
    exact ⟨.inr rfl, fun zero => absurd zero (by decide), fun _ => Nat.le_add_right _ _, fun _ _ => rfl⟩
  · intro ret w' run
    obtain ⟨turns, filled, result⟩ := readDataFromPc_filled (Int.not_lt.mp invalid) len ret w' run
    rw [wanted_small small] at filled result
    have bounded : received port w len.toNat turns ≤ len.toNat := Nat.min_le_right _ _
    have beyond (i : Nat) (outside : len.toNat ≤ i) : w'.buffer i = w.buffer i :=
      filled.beyond i (Nat.le_trans bounded outside)
    rcases result with ⟨rfl, all⟩ | ⟨rfl, _⟩
    · have consumed := filled.consumed
      have stored := filled.stored
      rw [all] at consumed stored
      exact ⟨.inl rfl, fun _ => ⟨consumed, stored⟩, fun minus => absurd minus (by decide), beyond⟩
    · have consumed := filled.consumed
      exact ⟨.inr rfl, fun zero => absurd zero (by decide), fun _ => by omega, beyond⟩

/-- Both loops move exactly the bytes they are given, for every sequence of results with which they
return; and what a successful call has read does not depend on these. -/
theorem serial_exact (results : Nat → WriteResult) (buffer : List UCHAR) (fd : Int) (port : Port)
    (w : PortState) (len : BitVec 32) (small : len.toNat < 2 ^ 31) :
    Ensures (uartEnv results) (writeDataToPc fd buffer.length) (fun ret k' =>
        k'.sent.flatten <+: buffer ∧ (0 ≤ fd → (ret = 0 ↔ k'.sent.flatten = buffer)))
      (Link.sending buffer fd) ∧
    Ensures port.env (Pc.readDataFromPc fd len) (ReadExactly port w len.toNat) w ∧
    ∀ (other : Port) (v v' w' : PortState), other.stream = port.stream → v.consumed = w.consumed →
      Runs port.env (Pc.readDataFromPc fd len) w 0 w' →
      Runs other.env (Pc.readDataFromPc fd len) v 0 v' →
      w'.consumed = v'.consumed ∧ ∀ i < len.toNat, w'.buffer i = v'.buffer i := by
  refine ⟨?_, readDataFromPc_exact fd small, ?_⟩
  · by_cases opened : 0 ≤ fd
    · exact (writeDataToPc_exact opened).mono fun ret k' exactly => ⟨exactly.1, fun _ => exactly.2⟩
    · rw [writeDataToPc, if_pos (Int.not_le.mp opened), ensures_pure]
      exact ⟨List.nil_prefix, fun valid => absurd valid opened⟩
  · intro other v v' w' stream start run run'
    obtain ⟨consumed, stored⟩ := (readDataFromPc_exact fd small 0 w' run).whole rfl
    obtain ⟨consumed', stored'⟩ := (readDataFromPc_exact fd small 0 v' run').whole rfl
    refine ⟨by rw [consumed, consumed', start], fun i inside => ?_⟩
    rw [stored i inside, stored' i inside, stream, start]

/-- The same bytes as those of `typist`, in pairs. -/
def hasty : Port := ⟨fun _ => .readable (.bytes 2), fun _ => 0x01⟩

theorem typist_completes : Completes (readPieces typist ⟨0, 0, fun _ => 0⟩) (wanted 4) :=
  ⟨4, fun _ _ failed => Piece.noConfusion failed, by decide⟩

theorem hasty_completes : Completes (readPieces hasty ⟨0, 0, fun _ => 0⟩) (wanted 4) :=
  ⟨2, fun _ _ failed => Piece.noConfusion failed, by decide⟩

/-- An event on a UART with room for two bytes at a time, and four bytes that come one by one or
in pairs. -/
theorem typist_exact : Ensures (uartEnv fun _ => .room 2) (writeDataToPc 3 3) (fun ret k' =>
      k'.sent.flatten <+: [0x04, 0x0e, 0x00] ∧
        (0 ≤ (3 : Int) → (ret = 0 ↔ k'.sent.flatten = [0x04, 0x0e, 0x00])))
      (Link.sending [0x04, 0x0e, 0x00] 3) ∧
    Ensures typist.env (Pc.readDataFromPc 3 4) (ReadExactly typist ⟨0, 0, fun _ => 0⟩ 4)
      ⟨0, 0, fun _ => 0⟩ ∧
    ∃ v' w', Runs typist.env (Pc.readDataFromPc 3 4) ⟨0, 0, fun _ => 0⟩ 0 w' ∧
      Runs hasty.env (Pc.readDataFromPc 3 4) ⟨0, 0, fun _ => 0⟩ 0 v' ∧
      w'.consumed = v'.consumed ∧ ∀ i < 4, w'.buffer i = v'.buffer i := by
  obtain ⟨sends, reads, agrees⟩ := serial_exact (fun _ => .room 2) [0x04, 0x0e, 0x00] 3 typist
    ⟨0, 0, fun _ => 0⟩ 4 (by decide)
  have opened : (0 : Int) ≤ 3 := by decide
  obtain ⟨_, w', run, rfl⟩ := (readDataFromPc_zero_iff opened 4).mpr typist_completes
  obtain ⟨_, v', run', rfl⟩ := (readDataFromPc_zero_iff opened 4).mpr hasty_completes
  exact ⟨sends, reads, v', w', run, run', agrees hasty _ v' w' rfl rfl run run'⟩

end

end Yika.Relay
