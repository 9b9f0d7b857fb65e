import Yika.BtTest.Packet

/-! What `JNIMyObserver` of `bluetooth_bttest.cpp` makes of a packet: `precheckPacket` and
`parserespPacket`. Of the log, what it reads as strings is kept. -/

namespace Yika.BtTest
open Program

/-- `copyCommand` and `copyContent` are the two `memcpy` from an index of the packet on,
`endCommand` and `endContent` the stores of `'\0'`. `logPacket` and `logBuffer` print the two
strings of `mPacket`, and `buffer`. -/
inductive ParseOp where
  | peek (i : Nat)
  | copyCommand (start count : Nat)
  | copyContent (start : Nat) (count : Int)
  | endCommand (i : Nat)
  | endContent (i : Int)
  | logPacket
  | logBuffer

abbrev ParseOp.Answer : ParseOp → Type
  | .peek _ => Byte
  | _ => Unit

abbrev parseSignature : Signature := ⟨ParseOp, ParseOp.Answer⟩

abbrev Parser := Prog parseSignature

namespace Parse

def peek (i : Nat) : Parser Byte := @Prog.perform parseSignature (.peek i)
def copyCommand (start count : Nat) : Parser Unit :=
  @Prog.perform parseSignature (.copyCommand start count)
def copyContent (start : Nat) (count : Int) : Parser Unit :=
  @Prog.perform parseSignature (.copyContent start count)
def endCommand (i : Nat) : Parser Unit := @Prog.perform parseSignature (.endCommand i)
def endContent (i : Int) : Parser Unit := @Prog.perform parseSignature (.endContent i)
def logPacket : Parser Unit := @Prog.perform parseSignature .logPacket
def logBuffer : Parser Unit := @Prog.perform parseSignature .logBuffer

end Parse

/-! The program. -/

/-- `'['`, `'@'` or `'#'`. -/
def isDelimiter (c : Byte) : Bool := c = 0x5b ∨ c = 0x40 ∨ c = 0x23

/-- The loop from `i` on, with so many bytes left. -/
def searchDelimiter : Nat → Nat → Parser Nat
  | 0, i => pure i
  | left + 1, i => do
    let c ← Parse.peek i
    if isDelimiter c then pure i else searchDelimiter left (i + 1)

/-- The index at the end, and the length of the content. -/
def copyPacket (i length : Nat) : Parser (Nat × Int) := do
  let c ← Parse.peek i
  if c = 0x5b then do
    Parse.copyCommand 0 (i - 1)
    Parse.copyContent i (length - i)
    pure (i, length - i)
  else do
    Parse.copyCommand 1 (i - 1)
    Parse.copyContent (i + 1) (length - (i + 1 : Nat) - 2)
    pure (i + 1, length - (i + 1 : Nat) - 2)

def storePacket (i length : Nat) : Parser Int := do
  let copied ← copyPacket i length
  Parse.endCommand (copied.1 - 1)
  Parse.endContent copied.2
  Parse.logPacket
  pure copied.2

/-- The part that a packet of more than 3 bytes gets to. -/
def splitPacket (length : Nat) : Parser Int := do
  let i ← searchDelimiter length 0
  if i < 5 ∧ 1 < i then storePacket i length else pure 0

def parserespPacket (length : Nat) : Parser Int := do
  let ret ← if 3 < length then splitPacket length else pure 0
  Parse.logBuffer
  pure ret

/-- `'<'` and `'>'`. -/
def precheckPacket (buffer : Nat → Byte) (length : Nat) : Int :=
  let ret := 1
  if 3 < length then
    if buffer 0 = 0x3c ∧ buffer (length - 3) = 0x3e then 1 else ret
  else ret

/-! The packet and the memory of the observer. -/

/-- The memory from `buffer` on, and the packet of the observer. -/
structure Parsing where
  buffer : Nat → Byte
  mPacket : Btpack

def Parsing.copyCommand (w : Parsing) (start count : Nat) : Parsing := { w with
  mPacket.strCommand := fun k => if k < count then w.buffer (start + k) else w.mPacket.strCommand k }

/-- `memcpy` takes the count as a `size_t`. -/
def Parsing.copyContent (w : Parsing) (start : Nat) (count : Int) : Parsing := { w with
  mPacket.content := fun k => if k < (BitVec.ofInt 32 count).toNat then w.buffer (start + k)
    else w.mPacket.content k }

def Parsing.endCommand (w : Parsing) (i : Nat) : Parsing :=
  { w with mPacket.strCommand := Function.update w.mPacket.strCommand i 0 }

/-- A store in front of `content` does not reach it. -/
def Parsing.endContent (w : Parsing) (i : Int) : Parsing := { w with
  mPacket.content := if 0 ≤ i then Function.update w.mPacket.content i.toNat 0 else w.mPacket.content }

def parseEnv : Env parseSignature Parsing
  | .peek i, w => (w.buffer i, w)
  | .copyCommand start count, w => ((), w.copyCommand start count)
  | .copyContent start count, w => ((), w.copyContent start count)
  | .endCommand i, w => ((), w.endCommand i)
  | .endContent i, w => ((), w.endContent i)
  | .logPacket, w => ((), w)
  | .logBuffer, w => ((), w)

/-- An operation reads below `length` only and stays in the 6 bytes of `strCommand` and the 32 of
`content`. -/
def InBounds (length : Nat) : ParseOp → Parsing → Prop
  | .peek i, _ => i < length
  | .copyCommand start count, _ => start + count ≤ length ∧ count ≤ 6
  | .copyContent start count, _ => 0 ≤ count ∧ start + count ≤ length ∧ count ≤ 32
  | .endCommand i, _ => i < 6
  | .endContent i, _ => 0 ≤ i ∧ i < 32
  | .logPacket, w =>
    (∃ k < 6, w.mPacket.strCommand k = 0) ∧ ∃ k < 32, w.mPacket.content k = 0
  | .logBuffer, w => ∃ k < length, w.buffer k = 0

/-- A string that ends inside `strCommand`, made of bytes of the packet. -/
def OwnCommand (length : Nat) (w : Parsing) : Prop :=
  ∃ n < 6, w.mPacket.strCommand n = 0 ∧
    ∀ k < n, w.mPacket.strCommand k ≠ 0 ∧ ∃ j < length, w.mPacket.strCommand k = w.buffer j

/-- `<…>` and two more bytes. -/
def Framed (buffer : Nat → Byte) (length : Nat) : Prop :=
  3 < length ∧ buffer 0 = 0x3c ∧ buffer (length - 3) = 0x3e

structure ParsedInBounds (w : Parsing) (length : Nat) : Prop where
  framed : Framed w.buffer length
  parsed : Serves parseEnv (InBounds length) (parserespPacket length)
    (fun ret w' => ret ≠ 0 → OwnCommand length w') w

def delimiterIndex (buffer : Nat → Byte) (length : Nat) : Nat :=
  ((List.range length).find? fun i => isDelimiter (buffer i)).getD length

section
variable {w : Parsing} {length : Nat} {good : ParseOp → Parsing → Prop}
  {post : Unit → Parsing → Prop}

/-! Each operation: what makes it good, and what it does. -/

@[simp] theorem serves_peek {i : Nat} {post : Byte → Parsing → Prop} :
    Serves parseEnv good (Parse.peek i) post w ↔ good (.peek i) w ∧ post (w.buffer i) w := serves_perform
@[simp] theorem serves_copyCommand {start count : Nat} :
    Serves parseEnv good (Parse.copyCommand start count) post w ↔
      good (.copyCommand start count) w ∧ post () (w.copyCommand start count) := serves_perform
@[simp] theorem serves_copyContent {start : Nat} {count : Int} :
    Serves parseEnv good (Parse.copyContent start count) post w ↔
      good (.copyContent start count) w ∧ post () (w.copyContent start count) := serves_perform
@[simp] theorem serves_endCommand {i : Nat} : Serves parseEnv good (Parse.endCommand i) post w ↔
    good (.endCommand i) w ∧ post () (w.endCommand i) := serves_perform
@[simp] theorem serves_endContent {i : Int} : Serves parseEnv good (Parse.endContent i) post w ↔
    good (.endContent i) w ∧ post () (w.endContent i) := serves_perform
@[simp] theorem serves_logPacket :
    Serves parseEnv good Parse.logPacket post w ↔ good .logPacket w ∧ post () w := serves_perform
@[simp] theorem serves_logBuffer :
    Serves parseEnv good Parse.logBuffer post w ↔ good .logBuffer w ∧ post () w := serves_perform

theorem serves_searchDelimiter {left i : Nat} {post : Nat → Parsing → Prop} (all : i + left = length) :
    Serves parseEnv (InBounds length) (searchDelimiter left i) post w ↔
      post (((List.range' i left).find? fun k => isDelimiter (w.buffer k)).getD length) w := by
  induction left generalizing i with
  | zero =>
    rw [Nat.add_zero] at all
    simp [searchDelimiter, all]
  | succ left ih =>
    have inside : InBounds length (.peek i) w := by
      show i < length
      omega
    simp only [searchDelimiter, serves_bind, serves_peek, inside, true_and, List.range'_succ,
      List.find?_cons]
    cases found : isDelimiter (w.buffer i) with
    | true => simp
    | false =>
      simp only [Bool.false_eq_true, if_false]
      exact ih (by omega)

theorem ownCommand_of_bytes {n : Nat} (inside : n < 6) (zero : w.mPacket.strCommand n = 0)
    (bytes : ∀ k < n, ∃ j < length, w.mPacket.strCommand k = w.buffer j) : OwnCommand length w := by
  have ends : ∃ k, w.mPacket.strCommand k = 0 := ⟨n, zero⟩
  have least := Nat.find_min' ends zero
  refine ⟨Nat.find ends, by omega, Nat.find_spec ends, ?_⟩
  intro k before
  exact ⟨Nat.find_min ends before, bytes k (by omega)⟩

/-- What is left of the content, and where the command ends. -/
def Fits (w : Parsing) (length i : Nat) : Prop :=
  i < length ∧
    if w.buffer i = 0x5b then length ≤ i + 31
    else i + 3 ≤ length ∧ length ≤ i + 34 ∧
      (length = i + 3 ∨ (∃ k < i, 1 ≤ k ∧ w.buffer k = 0) ∨
        ∃ j < length, w.mPacket.strCommand (i - 1) = w.buffer j)

theorem endCommand_strCommand {start count last k : Nat} (early : k < count) (cleared : count ≤ last) :
    ((w.copyCommand start count).endCommand last).mPacket.strCommand k = w.buffer (start + k) := by
  have other : k ≠ last := by omega
  simp only [Parsing.endCommand, Parsing.copyCommand, Function.update_of_ne other, if_pos early]

/-- The command of a packet with `@` or `#` keeps one byte of the command before it. -/
theorem ownCommand_shifted_iff {i start : Nat} {count ret : Int} (short : 1 < i ∧ i < 5)
    (inside : i < length) (string : ∃ k < length, w.buffer k = 0) :
    OwnCommand length ((((w.copyCommand 1 (i - 1)).copyContent start count).endCommand i).endContent ret) ↔
      (∃ k < i, 1 ≤ k ∧ w.buffer k = 0) ∨
        ∃ j < length, w.mPacket.strCommand (i - 1) = w.buffer j := by
  obtain ⟨w', result⟩ : ∃ w', w' =
    (((w.copyCommand 1 (i - 1)).copyContent start count).endCommand i).endContent ret := ⟨_, rfl⟩
  have same : w'.buffer = w.buffer := by rw [result]; rfl
  have command : w'.mPacket.strCommand = ((w.copyCommand 1 (i - 1)).endCommand i).mPacket.strCommand := by
    rw [result]
    rfl
  rw [← result]
  have last : w'.mPacket.strCommand i = 0 := by
    rw [command]
    exact Function.update_self ..
  have stale : w'.mPacket.strCommand (i - 1) = w.mPacket.strCommand (i - 1) := by
    have other : i - 1 ≠ i := by omega
    simp only [command, Parsing.endCommand, Parsing.copyCommand, Function.update_of_ne other,
      Nat.lt_irrefl, if_false]
  have copied (k : Nat) (early : k < i - 1) : w'.mPacket.strCommand k = w.buffer (1 + k) := by
    rw [command, endCommand_strCommand early (Nat.sub_le i 1)]
  rw [← same] at copied string ⊢
  constructor
  · intro ⟨n, _, zero, bytes⟩
    have notLater : n ≤ i := by
      by_contra later
      exact (bytes i (by omega)).1 last
    by_cases early : n < i - 1
    · rw [copied n early] at zero
      exact .inl ⟨1 + n, by omega, by omega, zero⟩
    · right
      by_cases atStale : n = i - 1
      · rw [atStale, stale] at zero
        obtain ⟨k, below, nul⟩ := string
        exact ⟨k, below, by rw [zero, nul]⟩
      · obtain ⟨_, j, below, byte⟩ := bytes (i - 1) (by omega)
        exact ⟨j, below, by rw [← stale, byte]⟩
  · intro own
    have early (k : Nat) (before : k < i - 1) :
        ∃ j < length, w'.mPacket.strCommand k = w'.buffer j := ⟨1 + k, by omega, copied k before⟩
    rcases own with ⟨k, before, first, nul⟩ | byte
    · have index : 1 + (k - 1) = k := by omega
      refine ownCommand_of_bytes (n := k - 1) (by omega) ?_ ?_
      · rw [copied _ (by omega), index, nul]
      · intro k' before'
        exact early k' (by omega)
    · refine ownCommand_of_bytes (n := i) (by omega) last ?_
      intro k before
      by_cases atStale : k = i - 1
      · rw [atStale, stale]
        exact byte
      · exact early k (by omega)

def Split (length : Nat) (ret : Int) (w : Parsing) : Prop :=
  (∃ k < length, w.buffer k = 0) ∧ (ret ≠ 0 → OwnCommand length w)

theorem logPacket_inBounds {last : Nat} {ret : Int} (command : last < 6) (content : 0 ≤ ret ∧ ret < 32) :
    InBounds length .logPacket ((w.endCommand last).endContent ret) := by
  refine ⟨⟨last, command, Function.update_self ..⟩, ret.toNat, by omega, ?_⟩
  simp only [Parsing.endContent, if_pos content.1, Function.update_self]

theorem serves_storePacket_bracket {i : Nat} (short : 1 < i ∧ i < 5) (bracket : w.buffer i = 0x5b) :
    Serves parseEnv (InBounds length) (storePacket i length) (Split length) w ↔
      (∃ k < length, w.buffer k = 0) ∧ i < length ∧ length ≤ i + 31 := by
  simp only [storePacket, copyPacket, serves_bind, serves_peek, serves_ite, bracket, serves_copyCommand,
    serves_copyContent, serves_pure, serves_endCommand, serves_endContent, serves_logPacket,
    true_imp_iff, not_true_eq_false, false_imp_iff, and_true]
  constructor
  · rintro ⟨peek, _, _, _, content, _, split⟩
    have below : i < length := peek
    have ends : (length : Int) - i < 32 := content.2
    exact ⟨split.1, below, by omega⟩
  · rintro ⟨string, inside, fits⟩
    have ret : 0 ≤ (length : Int) - i ∧ (length : Int) - i < 32 := by omega
    have command : i - 1 < 6 := by omega
    refine ⟨inside, ⟨by omega, by omega⟩, ⟨ret.1, by omega, by omega⟩, command, ret,
      logPacket_inBounds command ret, string, ?_⟩
    intro _
    refine ownCommand_of_bytes (n := i - 1) command (Function.update_self ..) ?_
    intro k before
    exact ⟨0 + k, by omega, endCommand_strCommand before (Nat.le_refl _)⟩

theorem serves_storePacket_at {i : Nat} (short : 1 < i ∧ i < 5) (bracket : w.buffer i ≠ 0x5b) :
    Serves parseEnv (InBounds length) (storePacket i length) (Split length) w ↔
      (∃ k < length, w.buffer k = 0) ∧ i < length ∧ i + 3 ≤ length ∧ length ≤ i + 34 ∧
      (length = i + 3 ∨ (∃ k < i, 1 ≤ k ∧ w.buffer k = 0) ∨
        ∃ j < length, w.mPacket.strCommand (i - 1) = w.buffer j) := by
  simp only [storePacket, copyPacket, serves_bind, serves_peek, serves_ite, bracket, serves_copyCommand,
    serves_copyContent, serves_pure, serves_endCommand, serves_endContent, serves_logPacket,
    true_imp_iff, not_false_eq_true, false_imp_iff, true_and, Nat.add_sub_cancel]
  constructor
  · rintro ⟨peek, _, copied, _, content, _, split⟩
    have below : i < length := peek
    have starts : 0 ≤ (length : Int) - (i + 1 : Nat) - 2 := content.1
    have ends : (length : Int) - (i + 1 : Nat) - 2 < 32 := content.2
    have string : ∃ k < length, w.buffer k = 0 := split.1
    refine ⟨string, below, by omega, by omega, ?_⟩
    by_cases empty : length = i + 3
    · exact .inl empty
    · right
      have own := split.2 (by omega)
      exact (ownCommand_shifted_iff short below string).mp own
  · rintro ⟨string, inside, starts, ends, own⟩
    have ret : 0 ≤ (length : Int) - (i + 1 : Nat) - 2 ∧ (length : Int) - (i + 1 : Nat) - 2 < 32 := by
      omega
    have command : i < 6 := by omega
    refine ⟨inside, ⟨by omega, by omega⟩, ⟨ret.1, by omega, by omega⟩, command, ret,
      logPacket_inBounds command ret, string, ?_⟩
    intro some
    have own' := own.resolve_left (by omega)
    exact (ownCommand_shifted_iff short inside string).mpr own'

theorem serves_storePacket {i : Nat} (short : 1 < i ∧ i < 5) :
    Serves parseEnv (InBounds length) (storePacket i length) (Split length) w ↔
      (∃ k < length, w.buffer k = 0) ∧ Fits w length i := by
  unfold Fits
  by_cases bracket : w.buffer i = 0x5b
  · rw [serves_storePacket_bracket short bracket, if_pos bracket]
  · rw [serves_storePacket_at short bracket, if_neg bracket]

theorem serves_splitPacket :
    Serves parseEnv (InBounds length) (splitPacket length) (Split length) w ↔
      (∃ k < length, w.buffer k = 0) ∧ (1 < delimiterIndex w.buffer length ∧
        delimiterIndex w.buffer length < 5 → Fits w length (delimiterIndex w.buffer length)) := by
  have search : ((List.range' 0 length).find? fun k => isDelimiter (w.buffer k)).getD length =
      delimiterIndex w.buffer length := by rw [delimiterIndex, List.range_eq_range']
  simp only [splitPacket, serves_bind, serves_searchDelimiter (Nat.zero_add length), search,
    serves_ite, serves_pure]
  by_cases short : 1 < delimiterIndex w.buffer length ∧ delimiterIndex w.buffer length < 5
  · simp only [short, serves_storePacket short, true_imp_iff, not_true_eq_false, false_imp_iff, and_true]
  · have short' : ¬ (delimiterIndex w.buffer length < 5 ∧ 1 < delimiterIndex w.buffer length) :=
      fun other => short ⟨other.2, other.1⟩
    simp only [short, short', false_imp_iff, true_and, not_false_eq_true, true_imp_iff, and_true, Split,
      ne_eq, not_true_eq_false]

/-- A packet is parsed in bounds exactly when it is framed, a NUL ends it for the log, and its
delimiter either is not looked at or leaves a content of fewer than 32 bytes, and no foreign byte in
the command. -/
theorem parserespPacket_bounds_iff (w : Parsing) (length : Nat) :
    (precheckPacket w.buffer length = 1 → ParsedInBounds w length) ↔
      Framed w.buffer length ∧ (∃ k < length, w.buffer k = 0) ∧
        (1 < delimiterIndex w.buffer length ∧ delimiterIndex w.buffer length < 5 →
          Fits w length (delimiterIndex w.buffer length)) := by
  have admitted : precheckPacket w.buffer length = 1 := by
    simp only [precheckPacket, ite_self]
  have whole (framed : Framed w.buffer length) : Serves parseEnv (InBounds length)
      (parserespPacket length) (fun ret w' => ret ≠ 0 → OwnCommand length w') w ↔
      Serves parseEnv (InBounds length) (splitPacket length) (Split length) w := by
    simp only [parserespPacket, serves_bind, if_pos framed.1, serves_logBuffer, serves_pure]
    rfl
  constructor
  · intro bounds
    obtain ⟨framed, parsed⟩ := bounds admitted
    exact ⟨framed, serves_splitPacket.mp ((whole framed).mp parsed)⟩
  · rintro ⟨framed, fits⟩ _
    exact ⟨framed, (whole framed).mpr (serves_splitPacket.mpr fits)⟩

end

/-- `AAAA` is admitted, and `<>@` with a NUL makes the second copy one of -1 bytes. -/
theorem short_packet_overruns :
    ¬ (precheckPacket (fun _ => 0x41) 4 = 1 →
      ParsedInBounds ⟨fun _ => 0x41, ⟨fun _ => 0, fun _ => 0⟩⟩ 4) ∧
    ¬ (precheckPacket (fun k => ([0x3c, 0x3e, 0x40, 0x00] : List Byte).getD k 0) 4 = 1 →
      ParsedInBounds ⟨fun k => ([0x3c, 0x3e, 0x40, 0x00] : List Byte).getD k 0,
        ⟨fun _ => 0, fun _ => 0⟩⟩ 4) := by
  constructor
  · intro bounds
    have framed := (bounds (by decide)).framed
    exact absurd framed.2.1 (by decide)
  · intro bounds
    have parsed := (bounds (by decide)).parsed
    have copies : Visits parseEnv (parserespPacket 4)
        ⟨fun k => ([0x3c, 0x3e, 0x40, 0x00] : List Byte).getD k 0, ⟨fun _ => 0, fun _ => 0⟩⟩
        (.copyContent 3 (-1)) _ := .op (.op (.op (.op (.op .here))))
    have inside := parsed.1 _ _ copies
    exact absurd inside.1 (by decide)

end Yika.BtTest
