import Mathlib.Data.List.GetD
import Yika.Relay.Framing
import Yika.Relay.Relayer

/-! What the thread forwards: the packets of the stream from the PC, and nothing else. -/

namespace Yika.Relay
open Program

/-! The packets of the stream. -/

/-- The bytes of a packet before its body, if the first one tells a type. -/
def headerLength (type : UCHAR) : Option Nat :=
  if type = 0x01 ∨ type = 0x03 then some 4
  else if type = 0x02 then some 5
  else none

/-- The bytes of the body of the packet at the start of a stream. -/
def bodyLength (stream : List UCHAR) : Nat :=
  if stream.headD 0 = 0x02 then (stream.getD 3 0).toNat + 256 * (stream.getD 4 0).toNat
  else (stream.getD 3 0).toNat

/-- A byte that is no type is skipped. A packet that is longer than the buffer or cut off by
the end of the stream ends the forwarding. -/
def pcBoundary (stream : List UCHAR) : Boundary :=
  match headerLength (stream.headD 0) with
  | none => .skip
  | some header =>
    if 512 < header + bodyLength stream ∨ stream.length < header + bodyLength stream then .stop
    else .packet (header + bodyLength stream)

theorem headerLength_pos {type : UCHAR} {header : Nat} (known : headerLength type = some header) :
    4 ≤ header ∧ header ≤ 5 := by
  unfold headerLength at known
  split at known
  next => cases known; omega
  next =>
    split at known
    next => cases known; omega
    next => cases known

theorem pcBoundary_known {stream : List UCHAR} {header : Nat}
    (known : headerLength (stream.headD 0) = some header) :
    pcBoundary stream =
      if 512 < header + bodyLength stream ∨ stream.length < header + bodyLength stream then .stop
      else .packet (header + bodyLength stream) := by
  rw [pcBoundary, known]

theorem pcBoundary_unknown {stream : List UCHAR} (unknown : headerLength (stream.headD 0) = none) :
    pcBoundary stream = .skip := by
  rw [pcBoundary, unknown]

theorem pcBoundary_packet {stream : List UCHAR} {length : Nat}
    (found : pcBoundary stream = .packet length) :
    ∃ header, headerLength (stream.headD 0) = some header ∧ length = header + bodyLength stream ∧
      length ≤ 512 ∧ length ≤ stream.length := by
  cases known : headerLength (stream.headD 0) with
  | none => cases (pcBoundary_unknown known).symm.trans found
  | some header =>
    rw [pcBoundary_known known] at found
    split at found
    next => cases found
    next fits =>
      cases found
      exact ⟨header, rfl, rfl, by omega, by omega⟩

def pcFraming : Framing UCHAR where
  boundary := pcBoundary
  present := by
    intro stream length found
    obtain ⟨header, known, same, _, inside⟩ := pcBoundary_packet found
    have bounds := headerLength_pos known
    exact ⟨by omega, inside⟩

/-! The buffer. -/

section
variable {k k' : Link} {stream bytes : List UCHAR} {n : Nat}

theorem Link.window_add (k : Link) (first count : Nat) :
    k.window (first + count) =
      k.window first ++ (List.range count).map fun i => k.ucTxBuf (first + i) := by
  simp only [Link.window, List.range_add, List.map_append, List.map_map]
  rfl

theorem window_store (k : Link) (index : Nat) (bytes : List UCHAR) :
    (k.store (.buffer index) bytes).window (index + bytes.length) = k.window index ++ bytes := by
  rw [Link.window_add]
  congr 1
  · apply List.map_congr_left
    intro i member
    have below := List.mem_range.mp member
    exact if_neg (by omega)
  · apply List.ext_getElem
    · simp
    · intro i low high
      rw [List.length_map, List.length_range] at low
      rw [List.getElem_map, List.getElem_range]
      change (if index ≤ index + i then _ else _) = _
      rw [if_pos (Nat.le_add_right index i), Nat.add_sub_cancel_left, List.getD_eq_getElem _ _ low]

/-- The part of the stream up to the `n`-th byte is in the buffer, the rest is to come. -/
structure Loaded (stream : List UCHAR) (n : Nat) (k : Link) : Prop where
  window : k.window n = stream.take n
  input : k.input = stream.drop n

theorem Loaded.byte (loaded : Loaded stream n k) {i : Nat} (inside : i < n)
    (bound : n ≤ stream.length) : k.ucTxBuf i = stream.getD i 0 := by
  have entry := congrArg (List.getD · i 0) loaded.window
  have present : i < stream.length := by omega
  simpa [Link.window, inside, present, List.getD_eq_getElem?_getD] using entry

end

/-! One call of `relayerRead`. -/

/-- The buffer has 512 bytes. -/
def InBounds : RelayOp → Prop
  | .readDataFromPc _ .header len => len ≤ 1
  | .readDataFromPc _ (.buffer index) len => index + len ≤ 512
  | .btSendData _ len => len ≤ 512
  | .header => True
  | .peek i => i < 512
  | .poke i _ => i < 512
  | .memset len => len ≤ 512
  | .globals => True
  | .setExit => True

/-- Before an operation in bounds the chip has been handed `sent`. -/
def Quiet (sent : List (List UCHAR)) (o : RelayOp) (k : Link) : Prop := InBounds o ∧ k.sent = sent

structure Kept (k k' : Link) : Prop where
  sent : k'.sent = k.sent
  globals : k'.globals = k.globals

section
variable {k k₁ k₂ : Link} {stream : List UCHAR} {n len : Nat} {dest : Dest}

theorem Kept.trans (first : Kept k k₁) (second : Kept k₁ k₂) : Kept k k₂ :=
  ⟨second.sent.trans first.sent, second.globals.trans first.globals⟩

theorem Loaded.more (loaded : Loaded stream n k) (present : n + len ≤ stream.length) :
    Loaded stream (n + len)
      { k.store (.buffer n) (k.input.take len) with input := k.input.drop len } := by
  have rest : len ≤ k.input.length := by
    rw [loaded.input, List.length_drop]
    omega
  constructor
  · have stored := window_store k n (k.input.take len)
    rw [List.length_take, Nat.min_eq_left rest] at stored
    calc (k.store (.buffer n) (k.input.take len)).window (n + len)
      _ = k.window n ++ k.input.take len := stored
      _ = stream.take n ++ (stream.drop n).take len := by rw [loaded.window, loaded.input]
      _ = stream.take (n + len) := List.take_add.symm
  · change k.input.drop len = _
    rw [loaded.input, List.drop_drop]

theorem Loaded.enough (loaded : Loaded stream n k) (before : n ≤ stream.length) :
    len ≤ k.input.length ↔ n + len ≤ stream.length := by
  rw [loaded.input, List.length_drop]
  omega

/-- What `relayerRead` makes of what stands at the start of the stream. -/
def Reads (stream : List UCHAR) (out : Bool × Nat) (k' : Link) : Boundary → Prop
  | .skip => out = (false, 0) ∧ k'.input = stream.drop 1
  | .packet length => out = (true, length) ∧ Loaded stream length k'
  | .stop => out.1 = false ∧ out.2 ≠ 0

/-- What a read of the bytes that follow is to do, as long as the buffer has room for them. -/
def ReadsOn {S : Signature} (env : Env S Link) (good : S.Op → Link → Prop) (stream : List UCHAR)
    (k : Link) (read : Nat → Nat → Prog S Int) : Prop :=
  ∀ n len k₁, Loaded stream n k₁ → Kept k k₁ → n ≤ stream.length → n + len ≤ 512 →
    Serves env good (read n len) (fun ret k₂ => Kept k₁ k₂ ∧
      if n + len ≤ stream.length then ret = 0 ∧ Loaded stream (n + len) k₂ else ret = -1) k₁

/-- A packet is read to its end, or broken off where it is too long or the stream ends. -/
theorem receiveInto_reads {S : Signature} {env : Env S Link} {good : S.Op → Link → Prop}
    {read : Nat → Nat → Prog S Int} {more body : Nat} {pktLen : Prog S Nat}
    (reads : ReadsOn env good stream k read) (loaded : Loaded stream 1 k)
    (nonempty : 1 ≤ stream.length) (short : more ≤ 4)
    (size : ∀ k₁, Loaded stream (1 + more) k₁ → Kept k k₁ → 1 + more ≤ stream.length →
      Serves env good pktLen (fun length k₂ => length = body ∧ k₂ = k₁) k₁) :
    Serves env good (receiveInto read 512 more pktLen) (fun out k' => Kept k k' ∧
      Reads stream out k' (if 512 < 1 + more + body ∨ stream.length < 1 + more + body then .stop
        else .packet (1 + more + body))) k := by
  unfold receiveInto
  rw [serves_bind]
  apply (reads 1 more k loaded ⟨rfl, rfl⟩ nonempty (by omega)).mono
  intro ret k₁ came
  obtain ⟨kept₁, came⟩ := came
  by_cases header : 1 + more ≤ stream.length
  · rw [if_pos header] at came
    obtain ⟨rfl, loaded₁⟩ := came
    rw [if_neg (by decide), serves_bind]
    apply (size k₁ loaded₁ kept₁ header).mono
    intro length k₂ sized
    obtain ⟨rfl, rfl⟩ := sized
    by_cases large : 512 < 1 + more + length
    · rw [if_pos large, serves_pure, if_pos (.inl large)]
      exact ⟨kept₁, rfl, by omega⟩
    · rw [if_neg large, serves_bind]
      apply (reads (1 + more) length k₂ loaded₁ kept₁ header (by omega)).mono
      intro ret k₃ came
      obtain ⟨kept₃, came⟩ := came
      by_cases whole : 1 + more + length ≤ stream.length
      · rw [if_pos whole] at came
        obtain ⟨rfl, loaded₃⟩ := came
        rw [if_neg (by decide), serves_pure, if_neg (by omega)]
        exact ⟨kept₁.trans kept₃, rfl, loaded₃⟩
      · rw [if_neg whole] at came
        subst came
        rw [if_pos (by decide), serves_pure, if_pos (.inr (by omega))]
        exact ⟨kept₁.trans kept₃, rfl, by omega⟩
  · rw [if_neg header] at came
    subst came
    rw [if_pos (by decide), serves_pure, if_pos (.inr (by omega))]
    exact ⟨kept₁, rfl, by decide⟩

end

section
variable {send : List UCHAR → Int} {k : Link} {stream : List UCHAR} {n len : Nat} {fd : Int}

theorem readDataFromPc_reads :
    ReadsOn (relayEnv send) (Quiet k.sent) stream k fun index len =>
      readDataFromPc fd (.buffer index) len := by
  intro n len k₁ loaded kept before room
  rw [serves_readDataFromPc]
  refine ⟨⟨room, kept.sent⟩, ⟨rfl, rfl⟩, ?_⟩
  by_cases present : n + len ≤ stream.length
  · rw [if_pos present, if_pos ((loaded.enough before).mpr present)]
    exact ⟨rfl, loaded.more present⟩
  · rw [if_neg present, if_neg (mt (loaded.enough before).mp present)]

theorem receivePacket_reads {more : Nat} {pktLen : Thread Nat} (loaded : Loaded stream 1 k)
    (nonempty : 1 ≤ stream.length) (short : more ≤ 4)
    (known : headerLength (stream.headD 0) = some (1 + more))
    (size : ∀ k₁, Loaded stream (1 + more) k₁ → 1 + more ≤ stream.length →
      Serves (relayEnv send) (Quiet k₁.sent) pktLen
        (fun length k₂ => length = bodyLength stream ∧ k₂ = k₁) k₁) :
    Serves (relayEnv send) (Quiet k.sent) (receivePacket fd 512 more pktLen)
      (fun out k' => Kept k k' ∧ Reads stream out k' (pcBoundary stream)) k := by
  rw [pcBoundary_known known]
  apply receiveInto_reads readDataFromPc_reads loaded nonempty short
  intro k₁ loaded₁ kept₁ header
  rw [← kept₁.sent]
  exact size k₁ loaded₁ header

theorem shortLength_sizes (loaded : Loaded stream 4 k) (header : 4 ≤ stream.length)
    (type : stream.headD 0 ≠ 0x02) :
    Serves (relayEnv send) (Quiet k.sent) shortLength
      (fun length k' => length = bodyLength stream ∧ k' = k) k := by
  unfold shortLength
  rw [serves_bind, serves_peek, serves_pure, loaded.byte (by decide) header, bodyLength, if_neg type]
  exact ⟨⟨(by decide : 3 < 512), rfl⟩, rfl, rfl⟩

theorem longLength_sizes (loaded : Loaded stream 5 k) (header : 5 ≤ stream.length)
    (type : stream.headD 0 = 0x02) :
    Serves (relayEnv send) (Quiet k.sent) longLength
      (fun length k' => length = bodyLength stream ∧ k' = k) k := by
  unfold longLength
  simp only [serves_bind, serves_peek, serves_pure]
  rw [loaded.byte (by decide) header, loaded.byte (by decide) header, bodyLength, if_pos type,
    Nat.shiftLeft_eq]
  refine ⟨⟨(by decide : 4 < 512), rfl⟩, ⟨(by decide : 3 < 512), rfl⟩, ?_, trivial⟩
  omega

theorem receiveHeader_fails (empty : k.input = []) (count : Nat) :
    Serves (relayEnv send) (Quiet k.sent) (receiveHeader fd count) (fun next k' =>
      next = (if count + 1 < 3 then .inl (count + 1) else .inr false) ∧ k'.input = [] ∧ Kept k k')
      k := by
  have short : ¬1 ≤ k.input.length := by
    rw [empty]
    decide
  rw [receiveHeader, serves_bind, serves_readDataFromPc, if_neg short, if_pos (by decide)]
  have drained : k.input.drop 1 = [] := by rw [empty, List.drop_nil]
  refine ⟨⟨Nat.le_refl 1, rfl⟩, ?_⟩
  split
  next => exact serves_pure.mpr ⟨rfl, drained, rfl, rfl⟩
  next => exact serves_pure.mpr ⟨rfl, drained, rfl, rfl⟩

/-- At the end of the stream every try fails, the third for good. -/
theorem receiveHeader_empty (empty : k.input = []) (left count : Nat) (tries : count + left = 2) :
    Serves (relayEnv send) (Quiet k.sent) (Prog.doWhile (receiveHeader fd) count)
      (fun received k' => received = false ∧ k'.input = [] ∧ Kept k k') k := by
  induction left generalizing count k with
  | zero =>
    apply Serves.doWhile
    apply (receiveHeader_fails empty count).mono
    intro next k₁ failed
    obtain ⟨rfl, empty₁, kept₁⟩ := failed
    rw [if_neg (by omega)]
    exact ⟨rfl, empty₁, kept₁⟩
  | succ left ih =>
    apply Serves.doWhile
    apply (receiveHeader_fails empty count).mono
    intro next k₁ failed
    obtain ⟨rfl, empty₁, kept₁⟩ := failed
    rw [if_pos (by omega), Sum.elim_inl, ← kept₁.sent]
    apply (ih empty₁ (count + 1) (by omega)).mono
    intro received k₂ again
    exact ⟨again.1, again.2.1, kept₁.trans again.2.2⟩

theorem receiveHeader_present {type : UCHAR} {rest : List UCHAR} (present : k.input = type :: rest) :
    Serves (relayEnv send) (Quiet k.sent) (Prog.doWhile (receiveHeader fd) 0)
      (fun received k' => received = true ∧ k' = { k with input := rest, ucHeader := type }) k := by
  have enough : 1 ≤ k.input.length := by
    rw [present]
    exact Nat.le_add_left 1 rest.length
  apply Serves.doWhile
  rw [receiveHeader, serves_bind, serves_readDataFromPc, if_pos enough, if_neg (by decide), serves_pure,
    present]
  exact ⟨⟨Nat.le_refl 1, rfl⟩, rfl, rfl⟩

theorem Loaded.first {type : UCHAR} {rest : List UCHAR} (present : k.input = type :: rest) :
    Loaded k.input 1 (Link.store { k with input := rest, ucHeader := type } (.buffer 0) [type]) := by
  rw [present]
  exact ⟨window_store _ 0 [type], rfl⟩

theorem relayerRead_reads {type : UCHAR} {rest : List UCHAR} (present : k.input = type :: rest) :
    Serves (relayEnv send) (Quiet k.sent) (relayerRead fd 512 0) (fun out k' =>
      Kept k k' ∧ Reads k.input out k' (pcBoundary k.input)) k := by
  unfold relayerRead
  rw [serves_bind]
  apply (receiveHeader_present present).mono
  intro received k₁ came
  obtain ⟨rfl, rfl⟩ := came
  rw [if_pos rfl, serves_bind, serves_header, serves_bind, serves_poke]
  refine ⟨⟨trivial, rfl⟩, ⟨(by decide : 0 < 512), rfl⟩, ?_⟩
  have kept : Kept k (Link.store { k with input := rest, ucHeader := type } (.buffer 0) [type]) :=
    ⟨rfl, rfl⟩
  have loaded := Loaded.first present
  have head : k.input.headD 0 = type := by rw [present, List.headD_cons]
  have nonempty : 1 ≤ k.input.length := by
    rw [present]
    exact Nat.le_add_left 1 rest.length
  change Serves _ _ (if type = 0x01 then _ else _) _ _
  generalize Link.store { k with input := rest, ucHeader := type } (.buffer 0) [type] = k₂ at kept loaded ⊢
  rw [← kept.sent]
  have short (known : headerLength (k.input.headD 0) = some 4) (other : k.input.headD 0 ≠ 0x02) :
      Serves (relayEnv send) (Quiet k₂.sent) (receivePacket fd 512 3 shortLength) (fun out k' =>
        Kept k k' ∧ Reads k.input out k' (pcBoundary k.input)) k₂ := by
    apply (receivePacket_reads loaded nonempty (by decide) known
      fun k₃ loaded₃ header => shortLength_sizes loaded₃ header other).mono
    exact fun out k₃ read => ⟨kept.trans read.1, read.2⟩
  rw [← head]
  by_cases command : k.input.headD 0 = 0x01
  · rw [if_pos command]
    apply short
    · rw [command]
      rfl
    · rw [command]
      decide
  rw [if_neg command]
  by_cases acl : k.input.headD 0 = 0x02
  · have known : headerLength (k.input.headD 0) = some 5 := by
      rw [acl]
      rfl
    rw [if_pos acl]
    apply (receivePacket_reads loaded nonempty (by decide) known
      fun k₃ loaded₃ header => longLength_sizes loaded₃ header acl).mono
    exact fun out k₃ read => ⟨kept.trans read.1, read.2⟩
  rw [if_neg acl]
  by_cases sco : k.input.headD 0 = 0x03
  · rw [if_pos sco]
    apply short
    · rw [sco]
      rfl
    · exact acl
  · have unknown : headerLength (k.input.headD 0) = none := by
      rw [headerLength, if_neg (not_or.mpr ⟨command, sco⟩), if_neg acl]
    rw [if_neg sco, serves_pure, pcBoundary_unknown unknown]
    exact ⟨kept, rfl, loaded.input⟩

theorem relayerRead_empty (empty : k.input = []) :
    Serves (relayEnv send) (Quiet k.sent) (relayerRead fd 512 0) (fun out k' =>
      out = (false, 0) ∧ k'.input = [] ∧ Kept k k') k := by
  unfold relayerRead
  rw [serves_bind]
  apply (receiveHeader_empty empty 2 0 rfl).mono
  intro received k₁ failed
  obtain ⟨rfl, drained, kept⟩ := failed
  exact serves_pure.mpr ⟨rfl, drained, kept⟩

/-! One turn of the loop. -/

structure Opened (k : Link) : Prop where
  handle : k.globals.glib_handle = true
  chip : 0 ≤ k.globals.bt_fd

theorem Kept.opened {k' : Link} (kept : Kept k k') (opened : Opened k) : Opened k' := by
  constructor
  · rw [kept.globals, opened.handle]
  · rw [kept.globals]
    exact opened.chip

theorem emBTWrite_sends (succeeds : ∀ buffer, 0 ≤ send buffer) (opened : Opened k)
    (loaded : Loaded stream n k) (found : pcBoundary stream = .packet n) :
    Serves (relayEnv send) (Quiet k.sent) (emBTWrite n) (fun written k' => written = true ∧
      k' = { k with sent := k.sent ++ [stream.take n] }) k := by
  obtain ⟨header, known, size, room, present⟩ := pcBoundary_packet found
  have bounds := headerLength_pos known
  have accepted := succeeds (k.window n)
  have chip := opened.chip
  have first : k.ucTxBuf 0 = stream.headD 0 := by
    rw [loaded.byte (by omega) present, List.headD_eq_head?_getD, List.getD_eq_getElem?_getD,
      List.head?_eq_getElem?]
  have typed : ¬(k.ucTxBuf 0 ≠ 0x01 ∧ k.ucTxBuf 0 ≠ 0x02 ∧ k.ucTxBuf 0 ≠ 0x03) := by
    rw [first]
    intro none
    rw [headerLength, if_neg (by tauto), if_neg none.2.1] at known
    cases known
  unfold emBTWrite
  rw [serves_bind, serves_peek, if_neg typed, serves_bind, serves_globals, if_neg (by simp [opened.handle]),
    if_neg (by omega), serves_bind, serves_btSendData, if_neg (by omega),
    serves_pure, loaded.window]
  exact ⟨⟨(by decide : 0 < 512), rfl⟩, ⟨trivial, rfl⟩, ⟨room, rfl⟩, rfl, rfl⟩

theorem forwardRead_nothing : Serves (relayEnv send) (Quiet k.sent) (forwardRead (false, 0))
    (fun next k' => next = .inl () ∧ k' = k) k := by
  unfold forwardRead
  rw [if_neg (by decide), serves_bind, serves_when]
  exact ⟨fun some => absurd rfl some, fun _ => serves_pure.mpr ⟨rfl, rfl⟩⟩

/-- A packet that was begun but not read ends the forwarding. -/
theorem forwardRead_broken {read : Bool × Nat} (failed : read.1 = false) (begun : read.2 ≠ 0) :
    Serves (relayEnv send) (Quiet k.sent) (forwardRead read) (fun next k' => next = .inl () ∧
      k' = { k with globals := { k.globals with fExit := true } }) k := by
  unfold forwardRead
  rw [failed, if_neg (by decide), serves_bind, serves_when]
  refine ⟨fun _ => ?_, fun none => absurd begun none⟩
  rw [serves_setExit, serves_pure]
  exact ⟨⟨trivial, rfl⟩, rfl, rfl⟩

theorem forwardRead_packet (succeeds : ∀ buffer, 0 ≤ send buffer) (opened : Opened k)
    (loaded : Loaded stream n k) (found : pcBoundary stream = .packet n) :
    Serves (relayEnv send) (Quiet k.sent) (forwardRead (true, n)) (fun next k' => next = .inl () ∧
      k' = { k with sent := k.sent ++ [stream.take n] }) k := by
  unfold forwardRead
  rw [if_pos rfl, serves_bind]
  apply (emBTWrite_sends succeeds opened loaded found).mono
  intro written k₁ sent
  obtain ⟨rfl, rfl⟩ := sent
  rw [serves_bind, serves_when]
  exact ⟨fun failed => (by cases failed), fun _ => serves_pure.mpr ⟨rfl, rfl⟩⟩

/-- Between two turns, what has been sent and what is still to be sent are the packets. -/
structure Forwarding (packets : List (List UCHAR)) (k : Link) : Prop where
  opened : Opened k
  progress : k.sent ++ (if k.globals.fExit then [] else pcFraming.packets k.input) = packets

variable {packets : List (List UCHAR)}

theorem Forwarding.sent_part (state : Forwarding packets k) : k.sent <+: packets :=
  ⟨_, state.progress⟩

/-- A turn that has read what stands at the boundary gets past it, or everything is sent. -/
theorem forwardRead_progress (succeeds : ∀ buffer, 0 ≤ send buffer) (opened : Opened k)
    (running : k.globals.fExit = false) {type : UCHAR} {rest : List UCHAR} {read : Bool × Nat}
    (reads : Reads (type :: rest) read k (pcBoundary (type :: rest)))
    (progress : k.sent ++ pcFraming.packets (type :: rest) = packets) :
    Serves (relayEnv send) (Quiet k.sent) (forwardRead read) (fun next k' => next = .inl () ∧
      Forwarding packets k' ∧ (k'.input.length < (type :: rest).length ∨ k'.sent = packets)) k := by
  cases found : pcBoundary (type :: rest) with
  | skip =>
    rw [found] at reads
    obtain ⟨rfl, input⟩ := reads
    rw [packets_skip found] at progress
    apply forwardRead_nothing.mono
    intro next k₁ nothing
    obtain ⟨rfl, rfl⟩ := nothing
    refine ⟨rfl, ⟨opened, ?_⟩, .inl ?_⟩
    · rw [running, input]
      exact progress
    · rw [input]
      exact Nat.lt_succ_self _
  | packet length =>
    rw [found] at reads
    obtain ⟨rfl, loaded⟩ := reads
    rw [packets_packet found] at progress
    have bounds := pcFraming.present _ _ found
    apply (forwardRead_packet succeeds opened loaded found).mono
    intro next k₁ sent
    obtain ⟨rfl, rfl⟩ := sent
    refine ⟨rfl, ⟨⟨opened.handle, opened.chip⟩, ?_⟩, .inl ?_⟩
    · change k.sent ++ [_] ++ (if k.globals.fExit = true then _ else pcFraming.packets k.input) = _
      rw [running, loaded.input, List.append_assoc]
      exact progress
    · change k.input.length < _
      rw [loaded.input, List.length_drop]
      omega
  | stop =>
    rw [found] at reads
    rw [packets_stop found, List.append_nil] at progress
    apply (forwardRead_broken reads.1 reads.2).mono
    intro next k₁ broken
    obtain ⟨rfl, rfl⟩ := broken
    exact ⟨rfl, ⟨⟨opened.handle, opened.chip⟩, (List.append_nil k.sent).trans progress⟩, .inr progress⟩

theorem btTxRound_forwards (succeeds : ∀ buffer, 0 ≤ send buffer) (state : Forwarding packets k) :
    Serves (relayEnv send) (Quiet k.sent) (btTxRound ()) (Sum.elim
      (fun _ k' => Forwarding packets k' ∧ (k'.input.length < k.input.length ∨ k'.sent = packets))
      (fun _ k' => k' = k ∧ k.sent = packets)) k := by
  obtain ⟨opened, progress⟩ := state
  unfold btTxRound
  rw [serves_bind, serves_globals]
  refine ⟨⟨trivial, rfl⟩, ?_⟩
  by_cases exit : k.globals.fExit = true
  · rw [if_pos exit, List.append_nil] at progress
    rw [if_pos exit, serves_pure]
    exact ⟨rfl, progress⟩
  rw [if_neg exit] at progress ⊢
  rw [serves_bind, serves_memset]
  refine ⟨⟨Nat.le_refl 512, rfl⟩, ?_⟩
  have kept₁ : Kept k (k.store (.buffer 0) (List.replicate sizeofTxBuf 0)) := ⟨rfl, rfl⟩
  have input₁ : (k.store (.buffer 0) (List.replicate sizeofTxBuf 0)).input = k.input := rfl
  generalize k.store (.buffer 0) (List.replicate sizeofTxBuf 0) = k₁ at kept₁ input₁ ⊢
  rw [serves_bind, ← kept₁.sent]
  cases stream : k.input with
  | nil =>
    rw [stream, packets_nil, List.append_nil] at progress
    apply (relayerRead_empty (input₁.trans stream)).mono
    intro read k₂ came
    obtain ⟨rfl, drained, kept₂⟩ := came
    have kept := kept₁.trans kept₂
    rw [← kept₂.sent]
    apply forwardRead_nothing.mono
    intro next k₃ nothing
    obtain ⟨rfl, rfl⟩ := nothing
    have done : k₃.sent = packets := kept.sent.trans progress
    refine ⟨⟨kept.opened opened, ?_⟩, .inr done⟩
    rw [kept.globals, if_neg exit, drained, packets_nil, List.append_nil, done]
  | cons type rest =>
    rw [stream] at progress
    apply (relayerRead_reads (input₁.trans stream)).mono
    intro read k₂ came
    obtain ⟨kept₂, reads⟩ := came
    have kept := kept₁.trans kept₂
    have running : k₂.globals.fExit = false := by
      rw [kept.globals]
      exact Bool.eq_false_of_not_eq_true exit
    rw [input₁, stream] at reads
    rw [← kept.sent] at progress
    rw [← kept₂.sent]
    apply (forwardRead_progress succeeds (kept.opened opened) running reads progress).mono
    intro next k₃ moved
    obtain ⟨rfl, moved⟩ := moved
    exact moved

/-! The loop, which goes on for ever if the stream ends at a packet boundary. -/

theorem btTxRound_safe (succeeds : ∀ buffer, 0 ≤ send buffer) (state : Forwarding packets k) :
    Serves (relayEnv send) (fun o k' => InBounds o ∧ k'.sent <+: packets) (btTxRound ())
      (Sum.elim (fun _ k' => Forwarding packets k') fun _ k' => k'.sent = packets) k := by
  have round := btTxRound_forwards succeeds state
  have safe : Safe (relayEnv send) (fun o k' => InBounds o ∧ k'.sent <+: packets) (btTxRound ()) k := by
    intro o k' visit
    obtain ⟨bound, sent⟩ := round.1 o k' visit
    rw [sent]
    exact ⟨bound, state.sent_part⟩
  refine ⟨safe, round.2.mono ?_⟩
  intro step k' reached
  cases step with
  | inl _ => exact reached.1
  | inr _ =>
    obtain ⟨rfl, done⟩ := reached
    exact done

theorem btTxMonitor_completes (succeeds : ∀ buffer, 0 ≤ send buffer) (state : Forwarding packets k) :
    ∃ o k', Visits (relayEnv send) btTxMonitor k o k' ∧ k'.sent = packets := by
  have first (k : Link) : Visits (relayEnv send) btTxMonitor k .globals k := .body .here
  induction left : k.input.length using Nat.strongRecOn generalizing k with
  | ind left ih =>
    obtain ⟨step, k₁, run, reached⟩ := (btTxRound_forwards succeeds state).2
    cases step with
    | inl _ =>
      obtain ⟨state₁, shorter | done⟩ := reached
      · obtain ⟨o, k', visit, done⟩ := ih k₁.input.length (left ▸ shorter) state₁ rfl
        exact ⟨o, k', .again run visit, done⟩
      · exact ⟨.globals, k₁, .again run (first k₁), done⟩
    | inr _ => exact ⟨.globals, k, first k, reached.2⟩

theorem btTxMonitor_forwards (succeeds : ∀ buffer, 0 ≤ send buffer) (opened : Opened k)
    (running : k.globals.fExit = false) (fresh : k.sent = []) :
    (∀ o k', Visits (relayEnv send) btTxMonitor k o k' →
      InBounds o ∧ k'.sent <+: pcFraming.packets k.input) ∧
    (∃ o k', Visits (relayEnv send) btTxMonitor k o k' ∧ k'.sent = pcFraming.packets k.input) ∧
    ∀ k', Runs (relayEnv send) btTxMonitor k () k' → k'.sent = pcFraming.packets k.input := by
  have state : Forwarding (pcFraming.packets k.input) k := by
    refine ⟨opened, ?_⟩
    rw [fresh, running]
    rfl
  have round (turn : Unit) (k₁ : Link) (between : Forwarding (pcFraming.packets k.input) k₁) :=
    btTxRound_safe succeeds between
  have returns : Ensures (relayEnv send) btTxMonitor
      (fun _ k' => k'.sent = pcFraming.packets k.input) k :=
    ensures_doWhile (fun _ => Forwarding (pcFraming.packets k.input))
      (fun turn k₁ between => (round turn k₁ between).2.ensures) state
  exact ⟨doWhile_safe (fun _ => Forwarding (pcFraming.packets k.input)) round state,
    btTxMonitor_completes succeeds state, returns ()⟩

end

/-- Garbage, a command without parameters, ACL data, and a command that is cut off. -/
def mixedStream : List UCHAR :=
  [0xFF, 0x01, 0x03, 0x0C, 0x00, 0x02, 0x01, 0x20, 0x02, 0x00, 0xAA, 0xBB, 0x01, 0x05]

def openLink (input : List UCHAR) : Link := ⟨input, 0, fun _ => 0, [], ⟨3, 4, true, false⟩⟩

theorem mixedStream_forwarded :
    (∀ o k', Visits (relayEnv fun buffer => buffer.length) btTxMonitor (openLink mixedStream) o k' →
      InBounds o ∧ k'.sent <+: pcFraming.packets mixedStream) ∧
    (∃ o k', Visits (relayEnv fun buffer => buffer.length) btTxMonitor (openLink mixedStream) o k' ∧
      k'.sent = pcFraming.packets mixedStream) ∧
    ∀ k', Runs (relayEnv fun buffer => buffer.length) btTxMonitor (openLink mixedStream) () k' →
      k'.sent = pcFraming.packets mixedStream :=
  btTxMonitor_forwards (fun buffer => Int.natCast_nonneg buffer.length) ⟨rfl, by decide⟩ rfl rfl

example : pcFraming.packets mixedStream =
    [[0x01, 0x03, 0x0C, 0x00], [0x02, 0x01, 0x20, 0x02, 0x00, 0xAA, 0xBB]] := by
  simp [mixedStream, Framing.packets, pcFraming, pcBoundary, headerLength, bodyLength]

end Yika.Relay
