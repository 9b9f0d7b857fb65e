import Yika.Relay.Chip
import Yika.Relay.Forward

/-! What the other thread forwards: the packets of the stream from the chip, without the debug
events. -/

namespace Yika.Relay
open Program

/-! The packets of the stream. -/

/-- The bytes of the packet at the start of a stream, if the first one tells a type. -/
def chipLength (stream : List UCHAR) : Option Nat :=
  if stream.headD 0 = 0x04 then some (1 + 2 + (stream.getD 2 0).toNat)
  else if stream.headD 0 = 0x02 then
    some (1 + 4 + ((stream.getD 3 0).toNat + 256 * (stream.getD 4 0).toNat))
  else if stream.headD 0 = 0x03 then some (1 + 3 + (stream.getD 3 0).toNat)
  else none

/-- An unknown type ends the forwarding, and so does a packet that is longer than the buffer or
cut off by the end of the stream. -/
def chipBoundary (stream : List UCHAR) : Boundary :=
  match chipLength stream with
  | none => .stop
  | some length => if 512 < length ∨ stream.length < length then .stop else .packet length

theorem chipBoundary_known {stream : List UCHAR} {length : Nat}
    (known : chipLength stream = some length) :
    chipBoundary stream =
      if 512 < length ∨ stream.length < length then .stop else .packet length := by
  rw [chipBoundary, known]

theorem chipBoundary_unknown {stream : List UCHAR} (unknown : chipLength stream = none) :
    chipBoundary stream = .stop := by
  rw [chipBoundary, unknown]

theorem chipLength_bound {stream : List UCHAR} {length : Nat}
    (known : chipLength stream = some length) : 3 ≤ length := by
  unfold chipLength at known
  split at known
  next => cases known; omega
  split at known
  next => cases known; omega
  split at known
  next => cases known; omega
  next => cases known

theorem chipBoundary_packet {stream : List UCHAR} {length : Nat}
    (found : chipBoundary stream = .packet length) :
    chipLength stream = some length ∧ 3 ≤ length ∧ length ≤ 512 ∧ length ≤ stream.length := by
  cases known : chipLength stream with
  | none => cases (chipBoundary_unknown known).symm.trans found
  | some other =>
    rw [chipBoundary_known known] at found
    split at found
    next => cases found
    next fits =>
      cases found
      exact ⟨rfl, chipLength_bound known, by omega, by omega⟩

def chipFraming : Framing UCHAR where
  boundary := chipBoundary
  present := by
    intro stream length found
    obtain ⟨_, long, _, inside⟩ := chipBoundary_packet found
    exact ⟨by omega, inside⟩

/-- An event with the code of the chip's log. -/
def isDebug (packet : List UCHAR) : Bool :=
  decide (packet.getD 0 0 = 0x04) && decide (packet.getD 1 0 = 0xE0)

def chipPackets (stream : List UCHAR) : List (List UCHAR) :=
  (chipFraming.packets stream).filter fun packet => !isDebug packet

section
variable {stream : List UCHAR} {length : Nat}

theorem isDebug_take (long : 3 ≤ length) : isDebug (stream.take length) = isDebug stream := by
  have entry (i : Nat) (low : i < length) : (stream.take length).getD i 0 = stream.getD i 0 := by
    rw [List.getD_eq_getElem?_getD, List.getD_eq_getElem?_getD, List.getElem?_take_of_lt low]
  rw [isDebug, isDebug, entry 0 (by omega), entry 1 (by omega)]

theorem chipPackets_nil : chipPackets [] = [] := by
  rw [chipPackets, packets_nil, List.filter_nil]

theorem chipPackets_stop (found : chipBoundary stream = .stop) : chipPackets stream = [] := by
  rw [chipPackets, packets_stop found, List.filter_nil]

theorem chipPackets_debug (found : chipBoundary stream = .packet length)
    (debug : isDebug stream = true) : chipPackets stream = chipPackets (stream.drop length) := by
  have long := (chipBoundary_packet found).2.1
  rw [chipPackets, packets_packet found, List.filter_cons_of_neg, chipPackets]
  rw [isDebug_take long, debug]
  decide

theorem chipPackets_packet (found : chipBoundary stream = .packet length)
    (kept : isDebug stream = false) :
    chipPackets stream = stream.take length :: chipPackets (stream.drop length) := by
  have long := (chipBoundary_packet found).2.1
  rw [chipPackets, packets_packet found, List.filter_cons_of_pos, chipPackets]
  rw [isDebug_take long, kept]
  decide

end

/-! One call of `emBTRead`. -/

/-- The buffer has 512 bytes. -/
def InRxBounds : ChipOp → Prop
  | .btReceiveData _ .header len => len ≤ 1
  | .btReceiveData _ (.buffer index) len => index + len ≤ 512
  | .write _ index len => index + len ≤ 512
  | .header => True
  | .peek i => i < 512
  | .poke i _ => i < 512
  | .memset len => len ≤ 512
  | .globals => True
  | .setExit => True

/-- Before an operation in bounds the PC has been written `sent`. -/
def Still (sent : List (List UCHAR)) (o : ChipOp) (k : Link) : Prop := InRxBounds o ∧ k.sent = sent

section
variable {accept : Link → Nat → Written} {k : Link} {stream : List UCHAR} {n count : Nat} {fd : Int}

theorem rxReceive_reads :
    ReadsOn (chipEnv accept) (Still k.sent) stream k fun index len =>
      Rx.btReceiveData fd (.buffer index) len := by
  intro n len k₁ loaded kept before room
  rw [serves_rxReceive]
  refine ⟨⟨room, kept.sent⟩, ⟨rfl, rfl⟩, ?_⟩
  by_cases present : n + len ≤ stream.length
  · rw [if_pos present, if_pos ((loaded.enough before).mpr present)]
    exact ⟨rfl, loaded.more present⟩
  · rw [if_neg present, if_neg (mt (loaded.enough before).mp present)]

/-- A byte that tells no type is never skipped. -/
theorem chipBoundary_progress (stream : List UCHAR) : chipBoundary stream ≠ .skip := by
  unfold chipBoundary
  split
  next => exact Boundary.noConfusion
  next =>
    split
    next => exact Boundary.noConfusion
    next => exact Boundary.noConfusion

theorem receiveCase_reads {more body : Nat} {pktLen : RxThread Nat} (loaded : Loaded stream 1 k)
    (nonempty : 1 ≤ stream.length) (short : more ≤ 4)
    (known : chipLength stream = some (1 + more + body))
    (size : ∀ k₁, Loaded stream (1 + more) k₁ → 1 + more ≤ stream.length →
      Serves (chipEnv accept) (Still k₁.sent) pktLen
        (fun length k₂ => length = body ∧ k₂ = k₁) k₁) :
    Serves (chipEnv accept) (Still k.sent) (receiveCase fd 512 more pktLen)
      (fun out k' => Kept k k' ∧ Reads stream out k' (chipBoundary stream)) k := by
  rw [chipBoundary_known known]
  apply receiveInto_reads rxReceive_reads loaded nonempty short
  intro k₁ loaded₁ kept₁ header
  rw [← kept₁.sent]
  exact size k₁ loaded₁ header

theorem eventLength_sizes (loaded : Loaded stream (1 + 2) k) (header : 1 + 2 ≤ stream.length) :
    Serves (chipEnv accept) (Still k.sent) eventLength
      (fun length k' => length = (stream.getD 2 0).toNat ∧ k' = k) k := by
  unfold eventLength
  rw [serves_bind, serves_rxPeek, serves_pure, loaded.byte (by decide) header]
  exact ⟨⟨(by decide : 2 < 512), rfl⟩, rfl, rfl⟩

theorem aclLength_sizes (loaded : Loaded stream (1 + 4) k) (header : 1 + 4 ≤ stream.length) :
    Serves (chipEnv accept) (Still k.sent) aclLength (fun length k' =>
      length = (stream.getD 3 0).toNat + 256 * (stream.getD 4 0).toNat ∧ k' = k) k := by
  unfold aclLength
  simp only [serves_bind, serves_rxPeek, serves_pure]
  rw [loaded.byte (by decide) header, loaded.byte (by decide) header, Nat.shiftLeft_eq]
  refine ⟨⟨(by decide : 4 < 512), rfl⟩, ⟨(by decide : 3 < 512), rfl⟩, ?_, trivial⟩
  omega

theorem scoLength_sizes (loaded : Loaded stream (1 + 3) k) (header : 1 + 3 ≤ stream.length) :
    Serves (chipEnv accept) (Still k.sent) scoLength
      (fun length k' => length = (stream.getD 3 0).toNat ∧ k' = k) k := by
  unfold scoLength
  rw [serves_bind, serves_rxPeek, serves_pure, loaded.byte (by decide) header]
  exact ⟨⟨(by decide : 3 < 512), rfl⟩, rfl, rfl⟩

theorem receiveSwitch_reads (loaded : Loaded stream 1 k) (nonempty : 1 ≤ stream.length) :
    Serves (chipEnv accept) (Still k.sent) (receiveSwitch fd 512 (stream.headD 0))
      (fun out k' => Kept k k' ∧ Reads stream out k' (chipBoundary stream)) k := by
  unfold receiveSwitch
  by_cases event : stream.headD 0 = 0x04
  · rw [if_pos event]
    apply receiveCase_reads loaded nonempty (by decide) (by rw [chipLength, if_pos event])
    exact fun k₁ loaded₁ header => eventLength_sizes loaded₁ header
  rw [if_neg event]
  by_cases acl : stream.headD 0 = 0x02
  · rw [if_pos acl]
    apply receiveCase_reads loaded nonempty (by decide)
      (by rw [chipLength, if_neg event, if_pos acl])
    exact fun k₁ loaded₁ header => aclLength_sizes loaded₁ header
  rw [if_neg acl]
  by_cases sco : stream.headD 0 = 0x03
  · rw [if_pos sco]
    apply receiveCase_reads loaded nonempty (by decide)
      (by rw [chipLength, if_neg event, if_neg acl, if_pos sco])
    exact fun k₁ loaded₁ header => scoLength_sizes loaded₁ header
  · have unknown : chipLength stream = none := by
      rw [chipLength, if_neg event, if_neg acl, if_neg sco]
    rw [if_neg sco, serves_pure, chipBoundary_unknown unknown]
    exact ⟨⟨rfl, rfl⟩, rfl, by decide⟩

theorem debugEvent_tells (loaded : Loaded stream n k) (long : 3 ≤ n) (bound : n ≤ stream.length) :
    Serves (chipEnv accept) (Still k.sent) debugEvent
      (fun dropped k' => dropped = isDebug stream ∧ k' = k) k := by
  unfold debugEvent
  rw [serves_bind, serves_rxPeek, loaded.byte (by omega) bound, isDebug]
  refine ⟨⟨(by decide : 0 < 512), rfl⟩, ?_⟩
  by_cases event : stream.getD 0 0 = 0x04
  · rw [if_pos event, serves_bind, serves_rxPeek, serves_pure, loaded.byte (by omega) bound, event]
    exact ⟨⟨(by decide : 1 < 512), rfl⟩, rfl, rfl⟩
  · rw [if_neg event, serves_pure, decide_eq_false event]
    exact ⟨rfl, rfl⟩

def Turns (stream : List UCHAR) (next : Nat ⊕ (Bool × Nat)) (k' : Link) : Boundary → Prop
  | .skip => False
  | .packet length =>
    if isDebug stream then next = .inl 0 ∧ k'.input = stream.drop length
    else next = .inr (true, length) ∧ Loaded stream length k'
  | .stop => ∃ out, next = .inr out ∧ out.1 = false ∧ out.2 ≠ 0

theorem turns_dropped {length : Nat} (debug : isDebug stream = true)
    (input : k.input = stream.drop length) : Turns stream (.inl 0) k (.packet length) := by
  rw [Turns, if_pos debug]
  exact ⟨rfl, input⟩

theorem turns_kept {length : Nat} (kept : ¬isDebug stream = true) (loaded : Loaded stream length k) :
    Turns stream (.inr (true, length)) k (.packet length) := by
  rw [Turns, if_neg kept]
  exact ⟨rfl, loaded⟩

theorem emBTReadLoop_turns {type : UCHAR} {rest : List UCHAR} (present : k.input = type :: rest) :
    Serves (chipEnv accept) (Still k.sent) (emBTReadLoop fd 512 count)
      (fun next k' => Kept k k' ∧ Turns k.input next k' (chipBoundary k.input)) k := by
  have enough : 1 ≤ k.input.length := by
    rw [present]
    exact Nat.le_add_left 1 rest.length
  unfold emBTReadLoop
  rw [serves_bind, serves_rxReceive, if_pos enough, if_neg (by decide), serves_bind, serves_rxHeader,
    serves_bind, serves_rxPoke, serves_bind]
  refine ⟨⟨Nat.le_refl 1, rfl⟩, ⟨trivial, rfl⟩, ⟨(by decide : 0 < 512), rfl⟩, ?_⟩
  have loaded := Loaded.first present
  have kept : Kept k (Link.store { k with input := rest, ucHeader := type } (.buffer 0) [type]) :=
    ⟨rfl, rfl⟩
  have head : type = k.input.headD 0 := by rw [present, List.headD_cons]
  have same : { k.store .header (k.input.take 1) with input := k.input.drop 1 } =
      ({ k with input := rest, ucHeader := type } : Link) := by
    rw [present]
    rfl
  rw [same]
  change Serves _ _ (receiveSwitch fd 512 type) _ _
  generalize Link.store { k with input := rest, ucHeader := type } (.buffer 0) [type] = k₁ at kept loaded ⊢
  rw [head, ← kept.sent]
  apply (receiveSwitch_reads loaded enough).mono
  intro out k₂ came
  obtain ⟨kept₂, reads⟩ := came
  cases found : chipBoundary k.input with
  | skip => exact absurd found (chipBoundary_progress k.input)
  | packet length =>
    rw [found] at reads
    obtain ⟨rfl, loaded₂⟩ := reads
    obtain ⟨_, long, _, inside⟩ := chipBoundary_packet found
    rw [if_pos rfl, serves_bind, ← kept₂.sent]
    apply (debugEvent_tells loaded₂ long inside).mono
    intro dropped k₃ tells
    obtain ⟨rfl, rfl⟩ := tells
    by_cases debug : isDebug k.input = true
    · rw [if_pos debug, serves_bind, serves_rxMemset, serves_pure]
      exact ⟨⟨Nat.le_refl 512, rfl⟩, (kept.trans kept₂).trans ⟨rfl, rfl⟩, turns_dropped debug loaded₂.input⟩
    · rw [if_neg debug, serves_pure]
      exact ⟨kept.trans kept₂, turns_kept debug loaded₂⟩
  | stop =>
    rw [found] at reads
    rw [if_neg (by rw [reads.1]; decide), serves_pure]
    exact ⟨kept.trans kept₂, out, rfl, reads⟩

theorem emBTReadLoop_fails (empty : k.input = []) (count : Nat) :
    Serves (chipEnv accept) (Still k.sent) (emBTReadLoop fd 512 count) (fun next k' =>
      next = (if count + 1 < 3 then .inl (count + 1) else .inr (false, 0)) ∧ k'.input = [] ∧ Kept k k')
      k := by
  have short : ¬1 ≤ k.input.length := by
    rw [empty]
    decide
  rw [emBTReadLoop, serves_bind, serves_rxReceive, if_neg short, if_pos (by decide)]
  have drained : k.input.drop 1 = [] := by rw [empty, List.drop_nil]
  refine ⟨⟨Nat.le_refl 1, rfl⟩, ?_⟩
  split
  next => exact serves_pure.mpr ⟨rfl, drained, rfl, rfl⟩
  next => exact serves_pure.mpr ⟨rfl, drained, rfl, rfl⟩

/-- What `emBTRead` makes of a stream: debug events apart, of what stands at its start. -/
inductive Received (stream : List UCHAR) : Bool × Nat → Link → Prop where
  | drained {k' : Link} : k'.input = [] → chipPackets stream = [] → Received stream (false, 0) k'
  | packet {k' : Link} {rest : List UCHAR} {length : Nat} : Loaded rest length k' →
      chipBoundary rest = .packet length → rest.length ≤ stream.length →
      chipPackets stream = rest.take length :: chipPackets (rest.drop length) →
      Received stream (true, length) k'
  | broken {k' : Link} {out : Bool × Nat} : out.1 = false → out.2 ≠ 0 → chipPackets stream = [] →
      Received stream out k'

theorem Received.dropped {out : Bool × Nat} {k' : Link} {length : Nat}
    (received : Received (stream.drop length) out k') (found : chipBoundary stream = .packet length)
    (debug : isDebug stream = true) : Received stream out k' := by
  have same := chipPackets_debug found debug
  cases received with
  | drained input none => exact .drained input (same.trans none)
  | packet loaded found shorter packets =>
    exact .packet loaded found (shorter.trans (stream.length_drop ▸ Nat.sub_le _ _)) (same.trans packets)
  | broken failed begun none => exact .broken failed begun (same.trans none)

theorem emBTReadLoop_empty (empty : k.input = []) (left count : Nat) (tries : count + left = 2) :
    Serves (chipEnv accept) (Still k.sent) (Prog.doWhile (emBTReadLoop fd 512) count)
      (fun out k' => out = (false, 0) ∧ k'.input = [] ∧ Kept k k') k := by
  induction left generalizing count k with
  | zero =>
    apply Serves.doWhile
    apply (emBTReadLoop_fails empty count).mono
    intro next k₁ failed
    obtain ⟨rfl, empty₁, kept₁⟩ := failed
    rw [if_neg (by omega)]
    exact ⟨rfl, empty₁, kept₁⟩
  | succ left ih =>
    apply Serves.doWhile
    apply (emBTReadLoop_fails empty count).mono
    intro next k₁ failed
    obtain ⟨rfl, empty₁, kept₁⟩ := failed
    rw [if_pos (by omega), Sum.elim_inl, ← kept₁.sent]
    apply (ih empty₁ (count + 1) (by omega)).mono
    intro out k₂ again
    exact ⟨again.1, again.2.1, kept₁.trans again.2.2⟩

/-- `LOOP` is entered again behind a debug event, so the induction is on the stream. -/
theorem emBTReadLoop_receives : Serves (chipEnv accept) (Still k.sent)
    (Prog.doWhile (emBTReadLoop fd 512) 0) (fun out k' => Kept k k' ∧ Received k.input out k') k := by
  induction left : k.input.length using Nat.strongRecOn generalizing k with
  | ind left ih =>
    cases stream : k.input with
    | nil =>
      apply (emBTReadLoop_empty stream 2 0 rfl).mono
      intro out k₁ failed
      obtain ⟨rfl, drained, kept⟩ := failed
      exact ⟨kept, .drained drained chipPackets_nil⟩
    | cons type rest =>
      apply Serves.doWhile
      apply (emBTReadLoop_turns stream).mono
      intro next k₁ turned
      obtain ⟨kept₁, turns⟩ := turned
      rw [← stream]
      cases found : chipBoundary k.input with
      | skip => exact absurd found (chipBoundary_progress k.input)
      | packet length =>
        rw [found, Turns] at turns
        obtain ⟨_, long, _, inside⟩ := chipBoundary_packet found
        by_cases debug : isDebug k.input = true
        · rw [if_pos debug] at turns
          obtain ⟨rfl, input⟩ := turns
          have shorter : k₁.input.length < k.input.length := by
            rw [input, List.length_drop]
            omega
          rw [Sum.elim_inl, ← kept₁.sent]
          apply (ih k₁.input.length (left ▸ shorter) rfl).mono
          intro out k₂ came
          obtain ⟨kept₂, received⟩ := came
          rw [input] at received
          exact ⟨kept₁.trans kept₂, received.dropped found debug⟩
        · rw [if_neg debug] at turns
          obtain ⟨rfl, loaded⟩ := turns
          exact ⟨kept₁, .packet loaded found (Nat.le_refl _)
            (chipPackets_packet found (Bool.eq_false_of_not_eq_true debug))⟩
      | stop =>
        rw [found, Turns] at turns
        obtain ⟨out, rfl, failed, begun⟩ := turns
        exact ⟨kept₁, .broken failed begun (chipPackets_stop found)⟩

theorem emBTRead_receives (opened : Opened k) : Serves (chipEnv accept) (Still k.sent)
    (emBTRead 512 0) (fun out k' => Kept k k' ∧ Received k.input out k') k := by
  have chip := opened.chip
  unfold emBTRead
  rw [serves_bind, serves_rxGlobals, if_neg (by simp [opened.handle]), if_neg (by omega)]
  exact ⟨⟨trivial, rfl⟩, emBTReadLoop_receives⟩

end

/-! One call of `writeDataToPc`. -/

/-- Every `write` takes some of the bytes that it is given. -/
def Accepts (accept : Link → Nat → Written) : Prop :=
  ∀ k len, 0 < len → 0 < (accept k len).bytesWritten ∧ (accept k len).bytesWritten ≤ len

structure Wrote (bytes : List UCHAR) (k k' : Link) : Prop where
  input : k'.input = k.input
  buffer : k'.ucTxBuf = k.ucTxBuf
  globals : k'.globals = k.globals
  sent : k'.sent.flatten = k.sent.flatten ++ bytes

/-- Before an operation in bounds the PC has been written a part of `bytes`. -/
def Partly (bytes : List UCHAR) (o : ChipOp) (k : Link) : Prop :=
  InRxBounds o ∧ k.sent.flatten <+: bytes

section
variable {accept : Link → Nat → Written} {k : Link} {stream bytes : List UCHAR} {n : Nat} {fd : Int}

theorem Link.slice_add (k : Link) (index first count : Nat) :
    k.slice index (first + count) = k.slice index first ++ k.slice (index + first) count := by
  simp only [Link.slice, List.range_add, List.map_append, List.map_map]
  congr 1
  apply List.map_congr_left
  intro i _
  rw [Function.comp_apply, Nat.add_assoc]

theorem Link.slice_zero (k : Link) (len : Nat) : k.slice 0 len = k.window len := by
  simp only [Link.slice, Link.window, Nat.zero_add]

/-- A write that takes only some of the bytes is followed by one of the rest. -/
theorem writeRest_writes (accepts : Accepts accept) (left index : Nat) (room : index + left ≤ 512) :
    Serves (chipEnv accept) (Partly (k.sent.flatten ++ k.slice index left))
      (Prog.doWhile (writeRest fd) (index, (left : Int)))
      (fun ret k' => ret = 0 ∧ Wrote (k.slice index left) k k') k := by
  induction left using Nat.strongRecOn generalizing index k with
  | ind left ih =>
    apply Serves.doWhile
    unfold writeRest
    rcases Nat.eq_zero_or_pos left with rfl | some
    · rw [if_neg (by simp), serves_pure]
      exact ⟨rfl, rfl, rfl, rfl, (List.append_nil _).symm⟩
    · obtain ⟨moves, fits⟩ := accepts k left some
      rw [if_pos (by simpa using some), serves_bind, serves_rxWrite, Int.toNat_natCast]
      refine ⟨⟨room, List.prefix_append _ _⟩, ?_⟩
      obtain ⟨taken, same⟩ := Int.eq_ofNat_of_zero_le (Int.le_of_lt moves)
      rw [if_neg (by omega), serves_pure, same, Int.toNat_natCast, Sum.elim_inl,
        show (left : Int) - (taken : Int) = ((left - taken : Nat) : Int) by omega]
      have parts : k.slice index left = k.slice index taken ++ k.slice (index + taken) (left - taken) := by
        rw [← Link.slice_add, Nat.add_sub_cancel' (by omega)]
      have whole : (k.sent ++ [k.slice index taken]).flatten ++ k.slice (index + taken) (left - taken) =
          k.sent.flatten ++ k.slice index left := by
        rw [List.flatten_append, List.flatten_singleton, List.append_assoc, ← parts]
      have rest := ih (left - taken) (by omega) (index + taken) (by omega)
        (k := { k with sent := k.sent ++ [k.slice index taken] })
      change Serves (chipEnv accept) (Partly ((k.sent ++ [_]).flatten ++ k.slice _ _)) _ _ _ at rest
      rw [whole] at rest
      apply rest.mono
      intro ret k' wrote
      obtain ⟨rfl, input, buffer, globals, sent⟩ := wrote
      exact ⟨rfl, input, buffer, globals, sent.trans whole⟩

theorem relayerWrite_writes (accepts : Accepts accept) (pc : 0 ≤ fd) (loaded : Loaded stream n k)
    (found : chipBoundary stream = .packet n) :
    Serves (chipEnv accept) (Partly (k.sent.flatten ++ stream.take n)) (relayerWrite fd n)
      (fun written k' => written = true ∧ Wrote (stream.take n) k k') k := by
  obtain ⟨known, long, room, present⟩ := chipBoundary_packet found
  have first : k.ucTxBuf 0 = stream.headD 0 := by
    rw [loaded.byte (by omega) present, List.headD_eq_head?_getD, List.getD_eq_getElem?_getD,
      List.head?_eq_getElem?]
  have typed : ¬(k.ucTxBuf 0 ≠ 0x04 ∧ k.ucTxBuf 0 ≠ 0x02 ∧ k.ucTxBuf 0 ≠ 0x03) := by
    rw [first]
    intro none
    rw [chipLength, if_neg none.1, if_neg none.2.1, if_neg none.2.2] at known
    cases known
  have packet : k.slice 0 n = stream.take n := (k.slice_zero n).trans loaded.window
  have writes := @writeRest_writes accept k fd accepts n 0 (by omega)
  rw [packet] at writes
  unfold relayerWrite writeDataToPc
  rw [serves_bind, serves_rxPeek, if_neg typed, serves_bind, if_neg (by omega)]
  refine ⟨⟨(by decide : 0 < 512), List.prefix_append _ _⟩, writes.mono ?_⟩
  intro ret k' wrote
  obtain ⟨rfl, wrote⟩ := wrote
  rw [if_neg (by decide), serves_pure]
  exact ⟨rfl, wrote⟩

end

/-! One turn of the loop. -/

section
variable {accept : Link → Nat → Written} {k k' : Link} {stream bytes : List UCHAR} {n : Nat}

/-- Between two turns, what has been written and what is still to be written are the packets. -/
structure Relaying (bytes : List UCHAR) (k : Link) : Prop where
  opened : Opened k
  pc : 0 ≤ k.globals.uart_fd
  progress : k.sent.flatten ++ (if k.globals.fExit then [] else (chipPackets k.input).flatten) = bytes

theorem Relaying.written_part (state : Relaying bytes k) : k.sent.flatten <+: bytes :=
  ⟨_, state.progress⟩

theorem forwardReceived_nothing : Serves (chipEnv accept) (Still k.sent) (forwardReceived (false, 0))
    (fun next k' => next = .inl () ∧ k' = k) k := by
  unfold forwardReceived
  rw [if_neg (by decide), serves_bind, serves_when]
  exact ⟨fun some => absurd rfl some, fun _ => serves_pure.mpr ⟨rfl, rfl⟩⟩

/-- A packet that was begun but not read ends the forwarding. -/
theorem forwardReceived_broken {read : Bool × Nat} (failed : read.1 = false) (begun : read.2 ≠ 0) :
    Serves (chipEnv accept) (Still k.sent) (forwardReceived read) (fun next k' => next = .inl () ∧
      k' = { k with globals := { k.globals with fExit := true } }) k := by
  unfold forwardReceived
  rw [failed, if_neg (by decide), serves_bind, serves_when]
  refine ⟨fun _ => ?_, fun none => absurd begun none⟩
  rw [serves_rxSetExit, serves_pure]
  exact ⟨⟨trivial, rfl⟩, rfl, rfl⟩

theorem forwardReceived_packet (accepts : Accepts accept) (pc : 0 ≤ k.globals.uart_fd)
    (loaded : Loaded stream n k) (found : chipBoundary stream = .packet n) :
    Serves (chipEnv accept) (Partly (k.sent.flatten ++ stream.take n)) (forwardReceived (true, n))
      (fun next k' => next = .inl () ∧ Wrote (stream.take n) k k') k := by
  unfold forwardReceived
  rw [if_pos rfl, serves_bind, serves_rxGlobals, serves_bind]
  refine ⟨⟨trivial, List.prefix_append _ _⟩, (relayerWrite_writes accepts pc loaded found).mono ?_⟩
  intro written k₁ wrote
  obtain ⟨rfl, wrote⟩ := wrote
  rw [serves_bind, serves_when]
  exact ⟨fun failed => (by cases failed), fun _ => serves_pure.mpr ⟨rfl, wrote⟩⟩

/-- A turn that has read what there is to read gets on, or everything is written. -/
theorem forwardReceived_progress (accepts : Accepts accept) (opened : Opened k)
    (pc : 0 ≤ k.globals.uart_fd) (running : k.globals.fExit = false) {read : Bool × Nat}
    (received : Received stream read k)
    (progress : k.sent.flatten ++ (chipPackets stream).flatten = bytes) :
    Serves (chipEnv accept) (Partly bytes) (forwardReceived read) (fun next k' => next = .inl () ∧
      Relaying bytes k' ∧ (k'.input.length < stream.length ∨ k'.sent.flatten = bytes)) k := by
  have part : k.sent.flatten <+: bytes := ⟨_, progress⟩
  have still (o : ChipOp) (k₁ : Link) (holds : Still k.sent o k₁) : Partly bytes o k₁ :=
    ⟨holds.1, by rw [holds.2]; exact part⟩
  cases received with
  | drained input none =>
    rw [none, List.flatten_nil, List.append_nil] at progress
    apply (forwardReceived_nothing.weaken still).mono
    intro next k₁ nothing
    obtain ⟨rfl, rfl⟩ := nothing
    refine ⟨rfl, ⟨opened, pc, ?_⟩, .inr progress⟩
    rw [running, input, chipPackets_nil]
    exact (List.append_nil _).trans progress
  | packet loaded found shorter packets =>
    rename_i rest length
    rw [packets, List.flatten_cons, ← List.append_assoc] at progress
    have bounds := chipFraming.present _ _ found
    have sending (o : ChipOp) (k₁ : Link) (holds : Partly (k.sent.flatten ++ rest.take length) o k₁) :
        Partly bytes o k₁ := ⟨holds.1, holds.2.trans ⟨_, progress⟩⟩
    apply ((forwardReceived_packet accepts pc loaded found).weaken sending).mono
    intro next k₁ written
    obtain ⟨rfl, wrote⟩ := written
    refine ⟨rfl, ⟨⟨?_, ?_⟩, ?_, ?_⟩, .inl ?_⟩
    · rw [wrote.globals, opened.handle]
    · rw [wrote.globals]
      exact opened.chip
    · rw [wrote.globals]
      exact pc
    · rw [wrote.globals, wrote.input, wrote.sent, running, loaded.input]
      exact progress
    · rw [wrote.input, loaded.input, List.length_drop]
      omega
  | broken failed begun none =>
    rw [none, List.flatten_nil, List.append_nil] at progress
    apply ((forwardReceived_broken failed begun).weaken still).mono
    intro next k₁ broken
    obtain ⟨rfl, rfl⟩ := broken
    exact ⟨rfl, ⟨⟨opened.handle, opened.chip⟩, pc, (List.append_nil _).trans progress⟩, .inr progress⟩

theorem btRxRound_forwards (accepts : Accepts accept) (state : Relaying bytes k) :
    Serves (chipEnv accept) (Partly bytes) (btRxRound ()) (Sum.elim
      (fun _ k' => Relaying bytes k' ∧ (k'.input.length < k.input.length ∨ k'.sent.flatten = bytes))
      (fun _ k' => k' = k ∧ k.sent.flatten = bytes)) k := by
  have part := state.written_part
  obtain ⟨opened, pc, progress⟩ := state
  unfold btRxRound
  rw [serves_bind, serves_rxGlobals]
  refine ⟨⟨trivial, part⟩, ?_⟩
  by_cases exit : k.globals.fExit = true
  · rw [if_pos exit, List.append_nil] at progress
    rw [if_pos exit, serves_pure]
    exact ⟨rfl, progress⟩
  rw [if_neg exit] at progress ⊢
  rw [serves_bind, serves_rxMemset]
  refine ⟨⟨Nat.le_refl 512, part⟩, ?_⟩
  have kept₁ : Kept k (k.store (.buffer 0) (List.replicate sizeofRxBuf 0)) := ⟨rfl, rfl⟩
  have input₁ : (k.store (.buffer 0) (List.replicate sizeofRxBuf 0)).input = k.input := rfl
  generalize k.store (.buffer 0) (List.replicate sizeofRxBuf 0) = k₁ at kept₁ input₁ ⊢
  have still (o : ChipOp) (k₂ : Link) (holds : Still k₁.sent o k₂) : Partly bytes o k₂ :=
    ⟨holds.1, by rw [holds.2, kept₁.sent]; exact part⟩
  rw [serves_bind]
  apply ((emBTRead_receives (kept₁.opened opened)).weaken still).mono
  intro read k₂ came
  obtain ⟨kept₂, received⟩ := came
  have kept := kept₁.trans kept₂
  have running : k₂.globals.fExit = false := by
    rw [kept.globals]
    exact Bool.eq_false_of_not_eq_true exit
  rw [input₁] at received
  rw [← kept.sent] at progress
  rw [← kept.globals] at pc
  apply (forwardReceived_progress accepts (kept.opened opened) pc running received progress).mono
  intro next k₃ moved
  obtain ⟨rfl, moved⟩ := moved
  exact moved

/-! The loop, which goes on for ever if the stream ends at a packet boundary. -/

theorem btRxMonitor_completes (accepts : Accepts accept) (state : Relaying bytes k) :
    ∃ o k', Visits (chipEnv accept) btRxMonitor k o k' ∧ k'.sent.flatten = bytes := by
  have first (k : Link) : Visits (chipEnv accept) btRxMonitor k .globals k := .body .here
  induction left : k.input.length using Nat.strongRecOn generalizing k with
  | ind left ih =>
    obtain ⟨step, k₁, run, reached⟩ := (btRxRound_forwards accepts state).2
    cases step with
    | inl _ =>
      obtain ⟨state₁, shorter | done⟩ := reached
      · obtain ⟨o, k', visit, done⟩ := ih k₁.input.length (left ▸ shorter) state₁ rfl
        exact ⟨o, k', .again run visit, done⟩
      · exact ⟨.globals, k₁, .again run (first k₁), done⟩
    | inr _ => exact ⟨.globals, k, first k, reached.2⟩

theorem btRxMonitor_forwards (accepts : Accepts accept) (opened : Opened k)
    (pc : 0 ≤ k.globals.uart_fd) (running : k.globals.fExit = false) (fresh : k.sent = []) :
    (∀ o k', Visits (chipEnv accept) btRxMonitor k o k' →
      InRxBounds o ∧ k'.sent.flatten <+: (chipPackets k.input).flatten) ∧
    (∃ o k', Visits (chipEnv accept) btRxMonitor k o k' ∧
      k'.sent.flatten = (chipPackets k.input).flatten) ∧
    ∀ k', Runs (chipEnv accept) btRxMonitor k () k' →
      k'.sent.flatten = (chipPackets k.input).flatten := by
  have state : Relaying (chipPackets k.input).flatten k := by
    refine ⟨opened, pc, ?_⟩
    rw [fresh, running]
    rfl
  have round (turn : Unit) (k₁ : Link) (between : Relaying (chipPackets k.input).flatten k₁) :
      Serves (chipEnv accept) (Partly (chipPackets k.input).flatten) (btRxRound turn)
        (Sum.elim (fun _ => Relaying (chipPackets k.input).flatten)
          fun _ k' => k'.sent.flatten = (chipPackets k.input).flatten) k₁ := by
    apply (btRxRound_forwards accepts between).mono
    intro step k' reached
    cases step with
    | inl _ => exact reached.1
    | inr _ => exact reached.1 ▸ reached.2
  have returns : Ensures (chipEnv accept) btRxMonitor
      (fun _ k' => k'.sent.flatten = (chipPackets k.input).flatten) k :=
    ensures_doWhile (fun _ => Relaying (chipPackets k.input).flatten)
      (fun turn k₁ between => (round turn k₁ between).2.ensures) state
  exact ⟨doWhile_safe (fun _ => Relaying (chipPackets k.input).flatten) round state,
    btRxMonitor_completes accepts state, returns ()⟩

end

/-- An event, a debug event, SCO data, and an event that is cut off. -/
def chipStream : List UCHAR :=
  [0x04, 0x0E, 0x01, 0x00, 0x04, 0xE0, 0x02, 0xAA, 0xBB, 0x03, 0x01, 0x00, 0x01, 0xCC, 0x04, 0x0E, 0x05]

/-- A PC that takes at most two bytes at a time. -/
def slowPc (_ : Link) (len : Nat) : Written := ⟨min 2 len, 0⟩

theorem chipStream_forwarded :
    (∀ o k', Visits (chipEnv slowPc) btRxMonitor (openLink chipStream) o k' →
      InRxBounds o ∧ k'.sent.flatten <+: (chipPackets chipStream).flatten) ∧
    (∃ o k', Visits (chipEnv slowPc) btRxMonitor (openLink chipStream) o k' ∧
      k'.sent.flatten = (chipPackets chipStream).flatten) ∧
    ∀ k', Runs (chipEnv slowPc) btRxMonitor (openLink chipStream) () k' →
      k'.sent.flatten = (chipPackets chipStream).flatten := by
  apply btRxMonitor_forwards (k := openLink chipStream)
  · intro k len some
    show 0 < min 2 (len : Int) ∧ min 2 (len : Int) ≤ len
    omega
  · exact ⟨rfl, by decide⟩
  · decide
  · rfl
  · rfl

example : chipPackets chipStream = [[0x04, 0x0E, 0x01, 0x00], [0x03, 0x01, 0x00, 0x01, 0xCC]] := by
  simp [chipStream, chipPackets, Framing.packets, chipFraming, chipBoundary, chipLength, isDebug]

end Yika.Relay
