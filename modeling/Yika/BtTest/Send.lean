import Mathlib.Algebra.Group.Nat.Defs
import Mathlib.Algebra.Ring.Int.Defs
import Yika.BtTest.Listener

/-! `BtTest_senddata` and `BtTest_sendbin` of `bluetooth_bttest.cpp`: the frame that they hand to
`send`, and what they read of the Java array for it. The log and the release of the array are left
out. -/

namespace Yika.BtTest

/-- A Java `int`, and an `int` of the code. -/
abbrev Jint := BitVec 32

/-- Whether `GetByteArrayElements` returns the elements, whether `malloc` returns so many bytes,
and what `send` returns for a frame. -/
structure SendHost where
  elements : Bool
  malloc : BitVec 32 → Bool
  send : List Byte → Int

/-- What has been handed to `send`, and the range of indexes read for it. -/
structure SendCall where
  ret : Int
  handed : List (List Byte)
  copied : Option (Int × Nat)

def SendCall.nothing : SendCall := ⟨0, [], none⟩

/-- The memory around the elements of an array. -/
def memory (array : List Byte) (around : Int → Byte) (i : Int) : Byte :=
  if 0 ≤ i ∧ i < array.length then array.getD i.toNat 0 else around i

/-- `memcpy` into the cleared block, and the two assignments `pb[len++]`. -/
def framed (source : Int → Byte) (offset len : Jint) : Int → Byte :=
  let pb (i : Int) := if 0 ≤ i ∧ i < len.toNat then source (offset.toInt + i) else 0
  Function.update (Function.update pb len.toInt 0x0d) (len + 1).toInt 0x0a

def bytes (pb : Int → Byte) (len : Jint) : List Byte :=
  (List.range len.toInt.toNat).map fun (i : Nat) => pb i

/-- What both functions do with `len` bytes from `offset` on. -/
def sendFrame (host : SendHost) (source : Int → Byte) (offset len : Jint) : SendCall :=
  if host.malloc (len + 4) then
    let frame := bytes (framed source offset len) (len + 2)
    ⟨host.send frame, [frame], some (offset.toInt, len.toNat)⟩
  else .nothing

def btTestSenddata (host : SendHost) (around : Int → Byte) (buffer : Option (List Byte))
    (start tlen : Jint) : SendCall :=
  match buffer with
  | none => .nothing
  | some array =>
    let len : Jint := BitVec.ofNat 32 array.length
    if host.elements = false ∨ len.sle (start + tlen) ∨ tlen.slt 1 then .nothing
    else if (0#32).slt tlen then sendFrame host (memory array around) start tlen
    else .nothing

def btTestSendbin (host : SendHost) (around : Int → Byte) (buffer : Option (List Byte)) : SendCall :=
  match buffer with
  | none => .nothing
  | some array =>
    let len : Jint := BitVec.ofNat 32 array.length
    if host.elements = false then .nothing
    else if (0#32).slt len then sendFrame host (memory array around) 0 len
    else .nothing

section
variable {host : SendHost} {around : Int → Byte} {array : List Byte} {start tlen : Jint}

def InArray (array : List Byte) (start tlen : Jint) : Prop :=
  0 ≤ start.toInt ∧ 1 ≤ tlen.toInt ∧ start.toInt + tlen.toInt ≤ array.length

def sliceFrame (array : List Byte) (start tlen : Jint) : List Byte :=
  (array.drop start.toInt.toNat).take tlen.toInt.toNat ++ [0x0d, 0x0a]

def SendHost.Grants (host : SendHost) (len : Jint) : Prop :=
  host.elements = true ∧ host.malloc (len + 4) = true

structure SendsSlice (host : SendHost) (around : Int → Byte) (array : List Byte)
    (start tlen : Jint) : Prop where
  exactly : InArray array start tlen →
    (btTestSenddata host around (some array) start tlen).handed = [sliceFrame array start tlen]
  whole : start = 0 → tlen.toInt = array.length → array ≠ [] →
    (btTestSenddata host around (some array) start tlen).handed =
      (btTestSendbin host around (some array)).handed
  nothing : ¬ InArray array start tlen →
    (btTestSenddata host around (some array) start tlen).handed = [] ∧
      (btTestSenddata host around (some array) start tlen).ret = 0
  inside : ∀ range ∈ (btTestSenddata host around (some array) start tlen).copied,
    0 ≤ range.1 ∧ range.1 + range.2 ≤ array.length

theorem toInt_ofNat_small {n : Nat} (small : n < 2 ^ 31) : (BitVec.ofNat 32 n).toInt = n := by
  rw [BitVec.toInt_eq_toNat_of_lt]
  · simp only [BitVec.toNat_ofNat]
    omega
  · simp only [BitVec.toNat_ofNat]
    omega

theorem toInt_add_cases (a b : Jint) :
    ((a + b).toInt = a.toInt + b.toInt ∧ -2 ^ 31 ≤ a.toInt + b.toInt ∧ a.toInt + b.toInt < 2 ^ 31) ∨
      ((a + b).toInt = a.toInt + b.toInt - 2 ^ 32 ∧ 2 ^ 31 ≤ a.toInt + b.toInt) ∨
      ((a + b).toInt = a.toInt + b.toInt + 2 ^ 32 ∧ a.toInt + b.toInt < -2 ^ 31) := by
  have lowA := BitVec.le_toInt a
  have highA := BitVec.toInt_lt (x := a)
  have lowB := BitVec.le_toInt b
  have highB := BitVec.toInt_lt (x := b)
  rw [BitVec.toInt_add, Int.bmod_eq_emod]
  split
  · omega
  · omega

/-- The comparison of the range check, which wraps. -/
theorem len_le_iff (java : array.length < 2 ^ 31) (wanted : 1 ≤ tlen.toInt) :
    (BitVec.ofNat 32 array.length).sle (start + tlen) = true ↔
      array.length ≤ start.toInt + tlen.toInt ∧ start.toInt + tlen.toInt < 2 ^ 31 := by
  have low := BitVec.le_toInt start
  have high := BitVec.toInt_lt (x := start)
  have high' := BitVec.toInt_lt (x := tlen)
  rw [BitVec.sle_iff_toInt_le, toInt_ofNat_small java]
  -- a sum that wraps is negative, and less than any length
  obtain ⟨sum, _, _⟩ | ⟨sum, _⟩ | ⟨sum, _⟩ := toInt_add_cases start tlen
  · omega
  · omega
  · omega

def Accepted (array : List Byte) (start tlen : Jint) : Prop :=
  1 ≤ tlen.toInt ∧
    (start.toInt + tlen.toInt < array.length ∨ 2 ^ 31 ≤ start.toInt + tlen.toInt)

theorem btTestSenddata_accepted (java : array.length < 2 ^ 31) (accepted : Accepted array start tlen)
    (grants : host.Grants tlen) : btTestSenddata host around (some array) start tlen =
      ⟨host.send (bytes (framed (memory array around) start tlen) (tlen + 2)),
        [bytes (framed (memory array around) start tlen) (tlen + 2)],
        some (start.toInt, tlen.toNat)⟩ := by
  have checked : ¬ (host.elements = false ∨
      (BitVec.ofNat 32 array.length).sle (start + tlen) = true ∨ tlen.slt 1 = true) := by
    rw [len_le_iff java accepted.1, BitVec.slt_iff_toInt_lt, grants.1]
    have one : (1 : Jint).toInt = 1 := by decide
    have fits := accepted.2
    have wanted := accepted.1
    simp only [Bool.true_eq_false, false_or]
    omega
  have wanted : (0#32).slt tlen = true := by
    rw [BitVec.slt_iff_toInt_lt]
    exact accepted.1
  simp only [btTestSenddata, if_neg checked, if_pos wanted, sendFrame, if_pos grants.2]

theorem btTestSenddata_refused (java : array.length < 2 ^ 31)
    (refused : ¬ (Accepted array start tlen ∧ host.Grants tlen)) :
    btTestSenddata host around (some array) start tlen = .nothing := by
  simp only [btTestSenddata]
  split
  · rfl
  · next checked =>
    simp only [not_or] at checked
    split
    · next wanted =>
      unfold sendFrame
      rw [BitVec.slt_iff_toInt_lt] at wanted
      have some : 1 ≤ tlen.toInt := wanted
      have accepted : Accepted array start tlen := by
        have fits := checked.2.1
        rw [len_le_iff java some] at fits
        refine ⟨some, ?_⟩
        omega
      have denied : ¬ host.malloc (tlen + 4) = true := by
        intro granted
        exact refused ⟨accepted, by simpa using checked.1, granted⟩
      rw [if_neg denied]
    · rfl

theorem toInt_add_small (positive : 1 ≤ tlen.toInt) {n : Nat} (few : n ≤ 2)
    (counted : tlen.toInt + n < 2 ^ 31) : (tlen + BitVec.ofNat 32 n).toInt = tlen.toInt + n := by
  have small : (BitVec.ofNat 32 n).toInt = n := toInt_ofNat_small (by omega)
  have cases := toInt_add_cases tlen (BitVec.ofNat 32 n)
  rw [small] at cases
  omega

theorem toNat_of_positive (positive : 1 ≤ tlen.toInt) : (tlen.toNat : Int) = tlen.toInt := by
  have cond := BitVec.toInt_eq_toNat_cond tlen
  have size := tlen.isLt
  split at cond
  · omega
  · omega

/-- The frame of a range of the array, when its length can be counted. -/
theorem framed_slice (inArray : InArray array start tlen) (counted : tlen.toInt + 2 < 2 ^ 31) :
    bytes (framed (memory array around) start tlen) (tlen + 2) = sliceFrame array start tlen := by
  obtain ⟨low, positive, high⟩ := inArray
  have one : (tlen + 1).toInt = tlen.toInt + 1 := toInt_add_small positive (n := 1) (by decide) (by omega)
  have two : (tlen + 2).toInt = tlen.toInt + 2 := toInt_add_small positive (n := 2) (by decide) counted
  have unsigned := toNat_of_positive positive
  obtain ⟨t, ht⟩ : ∃ t : Nat, tlen.toInt = t := ⟨tlen.toInt.toNat, by omega⟩
  obtain ⟨s, hs⟩ : ∃ s : Nat, start.toInt = s := ⟨start.toInt.toNat, by omega⟩
  have copied : (List.range t).map (fun (i : Nat) =>
      framed (memory array around) start tlen i) = (array.drop s).take t := by
    apply List.ext_getElem
    · simp only [List.length_map, List.length_range, List.length_take, List.length_drop]
      omega
    · intro i inside inside'
      simp only [List.length_map, List.length_range] at inside
      have notLf : (i : Int) ≠ (tlen + 1).toInt := by omega
      have notCr : (i : Int) ≠ tlen.toInt := by omega
      have taken : 0 ≤ (i : Int) ∧ (i : Int) < tlen.toNat := by omega
      have held : 0 ≤ start.toInt + i ∧ start.toInt + i < array.length := by omega
      have index : (start.toInt + i).toNat = s + i := by omega
      have short : s + i < array.length := by omega
      simp only [List.getElem_map, List.getElem_range, List.getElem_take, List.getElem_drop, framed,
        Function.update_of_ne notLf, Function.update_of_ne notCr, if_pos taken, memory, if_pos held,
        index, List.getD_eq_getElem?_getD, List.getElem?_eq_getElem short, Option.getD_some]
  have cr : framed (memory array around) start tlen t = 0x0d := by
    have notLf : tlen.toInt ≠ (tlen + 1).toInt := by omega
    rw [← ht]
    simp only [framed, Function.update_of_ne notLf, Function.update_self]
  have lf : framed (memory array around) start tlen (t + 1 : Nat) = 0x0a := by
    have last : ((t + 1 : Nat) : Int) = (tlen + 1).toInt := by omega
    simp only [framed, last, Function.update_self]
  have last : (tlen + 2).toInt.toNat = t + 1 + 1 := by omega
  have first : start.toInt.toNat = s := by omega
  have count : tlen.toInt.toNat = t := by omega
  unfold bytes sliceFrame
  rw [last, List.range_succ, List.range_succ, List.map_append, List.map_append, copied, List.map_singleton,
    List.map_singleton, cr, lf, first, count, List.append_assoc, List.singleton_append]

/-- Otherwise `send` is called with a negative length. -/
theorem counted_of_slice (counts : bytes (framed (memory array around) start tlen) (tlen + 2) =
    sliceFrame array start tlen) : tlen.toInt + 2 < 2 ^ 31 := by
  have lengths := congrArg List.length counts
  simp only [bytes, sliceFrame, List.length_map, List.length_range, List.length_append,
    List.length_cons, List.length_nil] at lengths
  have positive : 2 ≤ (tlen + 2).toInt := by omega
  have two : (2 : Jint).toInt = 2 := by decide
  have high := BitVec.toInt_lt (x := tlen)
  have cases := toInt_add_cases tlen 2
  rw [two] at cases
  omega

theorem sendsSlice_of_accepted (java : array.length < 2 ^ 31) (accepted : Accepted array start tlen)
    (grants : host.Grants tlen) : SendsSlice host around array start tlen ↔
      InArray array start tlen ∧ start.toInt + tlen.toInt < array.length ∧
        tlen.toInt + 2 < 2 ^ 31 := by
  have call : btTestSenddata host around (some array) start tlen = _ :=
    btTestSenddata_accepted java accepted grants
  constructor
  · intro sends
    have inArray : InArray array start tlen := by
      by_contra outside
      have none := (sends.nothing outside).1
      simp only [call, List.cons_ne_nil] at none
    have slice := sends.exactly inArray
    simp only [call, List.cons.injEq, and_true] at slice
    have ends := inArray.2.2
    have fits := accepted.2
    exact ⟨inArray, by omega, counted_of_slice slice⟩
  · rintro ⟨inArray, ends, counted⟩
    exact {
      exactly := fun _ => by rw [call, framed_slice inArray counted]
      whole := fun zero all _ => by
        have start0 : (0 : Jint).toInt = 0 := by decide
        rw [zero, start0] at ends
        omega
      nothing := fun outside => absurd inArray outside
      inside := by
        intro range copied
        simp only [call, Option.mem_def, Option.some.injEq] at copied
        subst copied
        obtain ⟨low, _, high⟩ := inArray
        have count := toNat_of_positive accepted.1
        exact ⟨low, by dsimp only; omega⟩ }

theorem sendsSlice_of_refused (java : array.length < 2 ^ 31)
    (refused : ¬ (Accepted array start tlen ∧ host.Grants tlen)) :
    SendsSlice host around array start tlen ↔ ¬ InArray array start tlen := by
  have call : btTestSenddata host around (some array) start tlen = .nothing :=
    btTestSenddata_refused java refused
  constructor
  · intro sends inArray
    have none := sends.exactly inArray
    simp only [call, SendCall.nothing, List.ne_cons_self] at none
  · intro outside
    exact {
      exactly := fun inArray => absurd inArray outside
      whole := fun zero all some => by
        have start0 : (0 : Jint).toInt = 0 := by decide
        have length := List.length_pos_iff.mpr some
        have inArray : InArray array start tlen := by
          unfold InArray
          rw [zero, start0]
          omega
        exact absurd inArray outside
      nothing := fun _ => by rw [call]; exact ⟨rfl, rfl⟩
      inside := by simp [call, SendCall.nothing] }

/-- A call sends what it is to send, and nothing else, exactly when the sum of the range check
neither ends the array nor wraps. -/
theorem senddata_slice_iff (host : SendHost) (around : Int → Byte) (array : List Byte)
    (java : array.length < 2 ^ 31) (start tlen : Jint) :
    SendsSlice host around array start tlen ↔
      (InArray array start tlen → start.toInt + tlen.toInt < array.length ∧
        tlen.toInt + 2 < 2 ^ 31 ∧ host.Grants tlen) ∧
      (¬ InArray array start tlen → tlen.toInt < 1 ∨
        (array.length ≤ start.toInt + tlen.toInt ∧ start.toInt + tlen.toInt < 2 ^ 31) ∨
        ¬ host.Grants tlen) := by
  by_cases sent : Accepted array start tlen ∧ host.Grants tlen
  · obtain ⟨accepted, grants⟩ := sent
    have wanted := accepted.1
    have fits := accepted.2
    rw [sendsSlice_of_accepted java accepted grants]
    constructor
    · rintro ⟨inArray, ends, counted⟩
      exact ⟨fun _ => ⟨ends, counted, grants⟩, fun outside => absurd inArray outside⟩
    · rintro ⟨allowed, refused⟩
      have inArray : InArray array start tlen := by
        by_contra outside
        have check := refused outside
        simp only [grants, not_true_eq_false, or_false] at check
        omega
      exact ⟨inArray, (allowed inArray).1, (allowed inArray).2.1⟩
  · rw [sendsSlice_of_refused java sent]
    constructor
    · intro outside
      refine ⟨fun inArray => absurd inArray outside, fun _ => ?_⟩
      by_cases grants : host.Grants tlen
      · simp only [grants, and_true, Accepted] at sent
        omega
      · exact .inr (.inr grants)
    · rintro ⟨allowed, _⟩ inArray
      obtain ⟨ends, _, grants⟩ := allowed inArray
      exact sent ⟨⟨inArray.2.1, .inl ends⟩, grants⟩

end

/-- There is memory, and `send` writes the whole frame. -/
def roomyHost : SendHost := ⟨true, fun _ => true, fun frame => frame.length⟩

theorem hello_sends_slice : ([0x68, 0x65, 0x6c, 0x6c, 0x6f] : List Byte).length < 2 ^ 31 ∧
    (SendsSlice roomyHost (fun _ => 0) [0x68, 0x65, 0x6c, 0x6c, 0x6f] 1 3 ↔
      (InArray [0x68, 0x65, 0x6c, 0x6c, 0x6f] 1 3 →
        (1 : Jint).toInt + (3 : Jint).toInt < ([0x68, 0x65, 0x6c, 0x6c, 0x6f] : List Byte).length ∧
        (3 : Jint).toInt + 2 < 2 ^ 31 ∧ roomyHost.Grants 3) ∧
      (¬ InArray [0x68, 0x65, 0x6c, 0x6c, 0x6f] 1 3 → (3 : Jint).toInt < 1 ∨
        (([0x68, 0x65, 0x6c, 0x6c, 0x6f] : List Byte).length ≤ (1 : Jint).toInt + (3 : Jint).toInt ∧
          (1 : Jint).toInt + (3 : Jint).toInt < 2 ^ 31) ∨ ¬ roomyHost.Grants 3)) :=
  ⟨by decide, senddata_slice_iff roomyHost (fun _ => 0) [0x68, 0x65, 0x6c, 0x6c, 0x6f] (by decide) 1 3⟩

/-- A range that ends the array is not sent, though `BtTest_sendbin` sends the array; and the byte in
front of the array is. -/
theorem last_byte_not_sent : ¬ SendsSlice roomyHost (fun _ => 0x7f) [0x41, 0x42] 0 2 ∧
    (btTestSenddata roomyHost (fun _ => 0x7f) (some [0x41, 0x42]) 0 2).handed = [] ∧
    (btTestSendbin roomyHost (fun _ => 0x7f) (some [0x41, 0x42])).handed = [[0x41, 0x42, 0x0d, 0x0a]] ∧
    (btTestSenddata roomyHost (fun _ => 0x7f) (some [0x41, 0x42]) (-1) 2).handed =
      [[0x7f, 0x41, 0x0d, 0x0a]] := by
  refine ⟨?_, by decide, by decide, by decide⟩
  intro sends
  have frame := sends.whole rfl (by decide) (by decide)
  exact absurd frame (by decide)

end Yika.BtTest
