import Mathlib.Data.Nat.Find
import Yika.BtTest.Listener

/-! How `JNIMyObserver` of `bluetooth_bttest.cpp` puts a packet together from what arrives in chunks,
`prepacketDeal`. The log is left out. -/

namespace Yika.BtTest

/-- The bytes of `strCommand`, 6 of them, and of `content`, 32. -/
structure Btpack where
  strCommand : Nat → Byte
  content : Nat → Byte

/-- `buf` has 64 bytes. -/
structure JNIMyObserver where
  mPacket : Btpack
  curPos : BitVec 8
  buf : Nat → Byte

/-- The constructor leaves the packet as it is. -/
def JNIMyObserver.fresh (garbage : Btpack) : JNIMyObserver := ⟨garbage, 0, fun _ => 0⟩

/-- The loop of `prepacketDeal`: the index it ends with. -/
def crlfIndex : List Byte → Nat
  | first :: second :: rest =>
    if first = 0x0d ∧ second = 0x0a then 0 else crlfIndex (second :: rest) + 1
  | _ => 0

/-- `memcpy(buf + curPos, buffer, length)` -/
def JNIMyObserver.append (o : JNIMyObserver) (buffer : List Byte) (i : Nat) : Byte :=
  if o.curPos.toNat ≤ i ∧ i < o.curPos.toNat + buffer.length then
    buffer.getD (i - o.curPos.toNat) 0
  else o.buf i

/-- No `buffer` is an empty one. -/
def prepacketDeal (o : JNIMyObserver) (buffer : List Byte) : Nat × JNIMyObserver :=
  if 0 < buffer.length ∧ o.curPos.toNat + buffer.length < 64 then
    (if crlfIndex buffer < buffer.length - 1 then o.curPos.toNat + crlfIndex buffer + 2 else 0,
      { o with
        buf := o.append buffer
        curPos := o.curPos + BitVec.ofNat 8 buffer.length })
  else (0, o)

def receive (o : JNIMyObserver) (chunks : List (List Byte)) : JNIMyObserver :=
  chunks.foldl (fun o' chunk => (prepacketDeal o' chunk).2) o

def JNIMyObserver.held (o : JNIMyObserver) : List Byte := (List.range o.curPos.toNat).map o.buf

def PairAt (bytes : List Byte) (p : Nat) : Prop := bytes[p]? = some 0x0d ∧ bytes[p + 1]? = some 0x0a

def FirstPair (bytes : List Byte) (p : Nat) : Prop :=
  PairAt bytes p ∧ ∀ q, q < p → ¬ PairAt bytes q

section
variable {o : JNIMyObserver} {garbage : Btpack} {bytes more chunk : List Byte}
  {before chunks : List (List Byte)} {p : Nat}

theorem pairAt_lt (pair : PairAt bytes p) : p + 1 < bytes.length :=
  (List.getElem?_eq_some_iff.mp pair.2).1

theorem pairAt_append (inside : p + 1 < bytes.length) : PairAt (bytes ++ more) p ↔ PairAt bytes p := by
  have first : p < bytes.length := by omega
  simp only [PairAt, List.getElem?_append_left first, List.getElem?_append_left inside]

theorem pairAt_append_right (after : bytes.length ≤ p) :
    PairAt (bytes ++ more) p ↔ PairAt more (p - bytes.length) := by
  have next : p + 1 - bytes.length = p - bytes.length + 1 := by omega
  have after' : bytes.length ≤ p + 1 := by omega
  simp only [PairAt, List.getElem?_append_right after, List.getElem?_append_right after', next]

theorem firstPair_append (first : FirstPair bytes p) : FirstPair (bytes ++ more) p := by
  have inside := pairAt_lt first.1
  refine ⟨(pairAt_append inside).mpr first.1, ?_⟩
  intro q earlier pair
  exact first.2 q earlier ((pairAt_append (by omega)).mp pair)

theorem firstPair_of_append (first : FirstPair (bytes ++ more) p) (inside : p + 1 < bytes.length) :
    FirstPair bytes p := by
  refine ⟨(pairAt_append inside).mp first.1, ?_⟩
  intro q earlier pair
  exact first.2 q earlier ((pairAt_append (by omega)).mpr pair)

/-- The loop ends in front of the end exactly at the first pair. -/
theorem firstPair_iff : FirstPair bytes p ↔ crlfIndex bytes = p ∧ p < bytes.length - 1 := by
  induction bytes generalizing p with
  | nil => simp [FirstPair, PairAt]
  | cons first rest ih =>
    cases rest with
    | nil => simp [FirstPair, PairAt]
    | cons second rest =>
      have here : PairAt (first :: second :: rest) 0 ↔ first = 0x0d ∧ second = 0x0a := by
        simp [PairAt]
      have next (q : Nat) : PairAt (first :: second :: rest) (q + 1) ↔ PairAt (second :: rest) q := by
        simp [PairAt]
      unfold crlfIndex
      by_cases crlf : first = 0x0d ∧ second = 0x0a
      · rw [if_pos crlf]
        cases p with
        | zero =>
          refine iff_of_true ⟨here.mpr crlf, ?_⟩ ⟨rfl, by simp⟩
          intro q earlier
          omega
        | succ p =>
          refine iff_of_false ?_ (by omega)
          intro pair
          exact pair.2 0 (by omega) (here.mpr crlf)
      · rw [if_neg crlf]
        cases p with
        | zero =>
          refine iff_of_false ?_ (by omega)
          intro pair
          exact crlf (here.mp pair.1)
        | succ p =>
          have shifted : FirstPair (first :: second :: rest) (p + 1) ↔ FirstPair (second :: rest) p := by
            unfold FirstPair
            rw [next]
            refine and_congr_right fun _ => ?_
            constructor
            · intro none q earlier pair
              exact none (q + 1) (by omega) ((next q).mpr pair)
            · intro none q earlier pair
              cases q with
              | zero => exact crlf (here.mp pair)
              | succ q => exact none q (by omega) ((next q).mp pair)
          rw [shifted, ih]
          simp only [List.length_cons]
          omega

@[simp] theorem held_fresh : (JNIMyObserver.fresh garbage).held = [] := rfl

@[simp] theorem length_held : o.held.length = o.curPos.toNat := by simp [JNIMyObserver.held]

theorem held_prepacketDeal (room : (o.held ++ chunk).length < 64) :
    (prepacketDeal o chunk).2.held = o.held ++ chunk := by
  rw [List.length_append, length_held] at room
  unfold prepacketDeal
  by_cases some : 0 < chunk.length
  · rw [if_pos ⟨some, room⟩]
    have advanced : (o.curPos + BitVec.ofNat 8 chunk.length).toNat = o.curPos.toNat + chunk.length := by
      simp only [BitVec.toNat_add, BitVec.toNat_ofNat]
      omega
    simp only [JNIMyObserver.held, advanced, List.range_add, List.map_append, List.map_map]
    congr 1
    · apply List.map_congr_left
      intro i inside
      rw [List.mem_range] at inside
      exact if_neg (by omega)
    · apply List.ext_getElem (by simp)
      intro i _ inside
      have copied : o.curPos.toNat ≤ o.curPos.toNat + i ∧
          o.curPos.toNat + i < o.curPos.toNat + chunk.length := by omega
      simp [JNIMyObserver.append, inside]
  · have nothing : chunk = [] := List.eq_nil_of_length_eq_zero (by omega)
    simp [nothing]

theorem held_receive (room : (o.held ++ chunks.flatten).length < 64) :
    (receive o chunks).held = o.held ++ chunks.flatten := by
  induction chunks generalizing o with
  | nil => simp [receive]
  | cons chunk chunks ih =>
    rw [List.flatten_cons, ← List.append_assoc] at room ⊢
    have fits : (o.held ++ chunk).length < 64 := by
      rw [List.length_append] at room
      omega
    have step := held_prepacketDeal fits
    rw [← step] at room ⊢
    exact ih room

theorem prepacketDeal_returns (room : (o.held ++ chunk).length < 64) :
    (∀ p, FirstPair chunk p → (prepacketDeal o chunk).1 = o.held.length + p + 2) ∧
      ((∀ p, ¬ FirstPair chunk p) → (prepacketDeal o chunk).1 = 0) := by
  rw [List.length_append, length_held] at room
  rw [length_held]
  unfold prepacketDeal
  constructor
  · intro p first
    obtain ⟨index, inside⟩ := firstPair_iff.mp first
    have some : 0 < chunk.length := by omega
    rw [if_pos ⟨some, room⟩, index, if_pos inside]
  · intro none
    have last : ¬ crlfIndex chunk < chunk.length - 1 := by
      intro inside
      exact none _ (firstPair_iff.mpr ⟨rfl, inside⟩)
    by_cases some : 0 < chunk.length ∧ o.curPos.toNat + chunk.length < 64
    · rw [if_pos some, if_neg last]
    · rw [if_neg some]

end

def Border (chunks : List (List Byte)) (n : Nat) : Prop :=
  ∃ before after, chunks = before ++ after ∧ before.flatten.length = n

/-- What is to hold of the calls up to the one that completes a pair. -/
structure FramesStream (garbage : Btpack) (chunks : List (List Byte)) : Prop where
  held : ∀ before chunk after, chunks = before ++ chunk :: after →
    (prepacketDeal (receive (.fresh garbage) before) chunk).2.held = (before ++ [chunk]).flatten
  waits : ∀ before chunk after, chunks = before ++ chunk :: after →
    (∀ p, ¬ FirstPair (before ++ [chunk]).flatten p) →
    (prepacketDeal (receive (.fresh garbage) before) chunk).1 = 0
  completes : ∀ before chunk after p, chunks = before ++ chunk :: after →
    (∀ q, ¬ FirstPair before.flatten q) → FirstPair (before ++ [chunk]).flatten p →
    (prepacketDeal (receive (.fresh garbage) before) chunk).1 = p + 2

section
variable {garbage : Btpack} {before after chunks : List (List Byte)} {chunk : List Byte} {p : Nat}

/-- A pair that a chunk completes and that does not begin at the end of the chunks before it. -/
theorem firstPair_chunk (first : FirstPair (before.flatten ++ chunk) p)
    (none : ∀ q, ¬ FirstPair before.flatten q) (whole : before.flatten.length ≠ p + 1) :
    before.flatten.length ≤ p ∧ FirstPair chunk (p - before.flatten.length) := by
  have late : before.flatten.length ≤ p := by
    by_contra early
    exact none p (firstPair_of_append first (by omega))
  refine ⟨late, (pairAt_append_right late).mp first.1, ?_⟩
  intro q earlier pair
  refine first.2 (q + before.flatten.length) (by omega) ((pairAt_append_right (by omega)).mpr ?_)
  rwa [Nat.add_sub_cancel]

theorem exists_firstPair {bytes : List Byte} (pair : PairAt bytes p) : ∃ q, FirstPair bytes q := by
  classical
  have pairs : ∃ q, PairAt bytes q := ⟨p, pair⟩
  exact ⟨Nat.find pairs, Nat.find_spec pairs, fun q earlier => Nat.find_min pairs earlier⟩

theorem no_firstPair_chunk (none : ∀ p, ¬ FirstPair (before.flatten ++ chunk) p) :
    ¬ FirstPair chunk p := by
  intro first
  have pair : PairAt (before.flatten ++ chunk) (before.flatten.length + p) := by
    rw [pairAt_append_right (by omega), Nat.add_sub_cancel_left]
    exact first.1
  obtain ⟨q, firstPair⟩ := exists_firstPair pair
  exact none q firstPair

theorem firstPair_unique {bytes : List Byte} {q : Nat} (first : FirstPair bytes p)
    (first' : FirstPair bytes q) : p = q := by
  by_contra distinct
  by_cases earlier : p < q
  · exact first'.2 p earlier first.1
  · exact first.2 q (by omega) first'.1

theorem held_before (garbage : Btpack) (room : chunks.flatten.length < 64) (split : chunks = before ++ chunk :: after) :
    (receive (.fresh garbage) before).held = before.flatten ∧
      ((receive (.fresh garbage) before).held ++ chunk).length < 64 := by
  rw [split, List.flatten_append, List.flatten_cons, List.length_append, List.length_append] at room
  have fresh : ((JNIMyObserver.fresh garbage).held ++ before.flatten).length < 64 := by
    rw [held_fresh, List.nil_append]
    omega
  have held := held_receive fresh
  rw [held_fresh, List.nil_append] at held
  refine ⟨held, ?_⟩
  rw [held, List.length_append]
  omega

theorem flatten_snoc : (before ++ [chunk]).flatten = before.flatten ++ chunk := by simp

theorem not_border_of_frames (frames : FramesStream garbage chunks) (some : ∀ chunk ∈ chunks, chunk ≠ [])
    (room : chunks.flatten.length < 64) (first : FirstPair chunks.flatten p) :
    ¬ Border chunks (p + 1) := by
  intro ⟨before, after, split, meets⟩
  have inside := pairAt_lt first.1
  cases after with
  | nil =>
    rw [split, List.append_nil] at inside
    omega
  | cons chunk after =>
    have ⟨held, room'⟩ := held_before garbage room split
    have ⟨found, missed⟩ := prepacketDeal_returns room'
    have size : 0 < chunk.length := List.length_pos_iff.mpr (some chunk (by simp [split]))
    have whole : chunks.flatten = before.flatten ++ chunk ++ after.flatten := by simp [split]
    have none (q : Nat) : ¬ FirstPair before.flatten q := by
      intro first'
      have same : p = q := by
        rw [whole, List.append_assoc] at first
        exact firstPair_unique first (firstPair_append first')
      have inside' := pairAt_lt first'.1
      omega
    have completed : FirstPair (before ++ [chunk]).flatten p := by
      rw [flatten_snoc]
      rw [whole] at first
      refine firstPair_of_append first ?_
      rw [List.length_append]
      omega
    have returns := frames.completes before chunk after p split none completed
    by_cases pair : ∃ q, FirstPair chunk q
    · obtain ⟨q, firstPair⟩ := pair
      have returns' := found q firstPair
      rw [held] at returns'
      omega
    · have returns' := missed (not_exists.mp pair)
      omega

/-- The calls put the packet together as if it came in one piece exactly when the CR and the LF of
its first pair come in one chunk. -/
theorem prepacketDeal_frames_iff (garbage : Btpack) (chunks : List (List Byte))
    (some : ∀ chunk ∈ chunks, chunk ≠ []) (room : chunks.flatten.length < 64) :
    FramesStream garbage chunks ↔
      ∀ p, FirstPair chunks.flatten p → ¬ Border chunks (p + 1) := by
  constructor
  · intro frames p first
    exact not_border_of_frames frames some room first
  · intro whole
    exact {
      held := fun before chunk after split => by
        have ⟨held, room'⟩ := held_before garbage room split
        rw [held_prepacketDeal room', held, flatten_snoc]
      waits := fun before chunk after split none => by
        have ⟨_, room'⟩ := held_before garbage room split
        rw [flatten_snoc] at none
        exact (prepacketDeal_returns room').2 fun p => no_firstPair_chunk none
      completes := fun before chunk after p split none first => by
        have ⟨held, room'⟩ := held_before garbage room split
        rw [flatten_snoc] at first
        have all : FirstPair chunks.flatten p := by
          have joined : chunks.flatten = before.flatten ++ chunk ++ after.flatten := by simp [split]
          rw [joined]
          exact firstPair_append first
        have apart : before.flatten.length ≠ p + 1 := fun meets =>
          whole p all ⟨before, chunk :: after, split, meets⟩
        have ⟨late, inChunk⟩ := firstPair_chunk first none apart
        rw [(prepacketDeal_returns room').1 _ inChunk, held]
        omega }

end

/-- CR LF in one piece and in two. -/
theorem ok_framed : (∀ chunk ∈ ([[0x6f, 0x6b], [0x0d, 0x0a]] : List (List Byte)), chunk ≠ []) ∧
    ([[0x6f, 0x6b], [0x0d, 0x0a]] : List (List Byte)).flatten.length < 64 ∧
    (FramesStream ⟨fun _ => 0, fun _ => 0⟩ [[0x6f, 0x6b], [0x0d, 0x0a]] ↔
      ∀ p, FirstPair ([[0x6f, 0x6b], [0x0d, 0x0a]] : List (List Byte)).flatten p →
        ¬ Border [[0x6f, 0x6b], [0x0d, 0x0a]] (p + 1)) :=
  ⟨by decide, by decide, prepacketDeal_frames_iff _ _ (by decide) (by decide)⟩

/-- A CR and an LF that come apart are not seen, though they stand in `buf`. -/
theorem split_pair_missed : ¬ FramesStream ⟨fun _ => 0, fun _ => 0⟩ [[0x0d], [0x0a]] ∧
    (prepacketDeal (prepacketDeal (.fresh ⟨fun _ => 0, fun _ => 0⟩) [0x0d]).2 [0x0a]).1 = 0 ∧
    (prepacketDeal (prepacketDeal (.fresh ⟨fun _ => 0, fun _ => 0⟩) [0x0d]).2 [0x0a]).2.held =
      [0x0d, 0x0a] := by
  refine ⟨?_, by decide, by decide⟩
  intro frames
  have none (q : Nat) : ¬ FirstPair [0x0d] q := by
    intro first
    have inside := pairAt_lt first.1
    simp at inside
  have pair : FirstPair [0x0d, 0x0a] 0 := ⟨⟨rfl, rfl⟩, fun q earlier => absurd earlier (Nat.not_lt_zero q)⟩
  have returns := frames.completes [[0x0d]] [0x0a] [] 0 rfl none pair
  exact absurd returns (by decide)

end Yika.BtTest
