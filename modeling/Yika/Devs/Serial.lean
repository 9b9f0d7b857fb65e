import Mathlib.Tactic.IntervalCases

/-! The serial number that `get_serial` of `mt_devs.c` makes of the hardware key and the chip
id. -/

namespace Yika.Devs

/-- `HASH_ARRAY_SIZE` -/
def hashArraySize : Nat := 4

/-- `SERIALNO_LEN` -/
def serialnoLen : Nat := 32

def udcChr : List Char := "ABCDEFGHIJKLMNOPQRSTUVWSYZ456789".toList

/-- The loop that splits the key: `hashkey[idx] = (uint16_t)(tmp & 0xffff)`, `tmp >>= 16`. -/
def splitKey : Nat → BitVec 64 → List (BitVec 16)
  | 0, _ => []
  | rounds + 1, tmp => (tmp &&& 0xffff#64).setWidth 16 :: splitKey rounds (tmp >>> 16)

/-- The shifts are those of an `int`, which is then cut to sixteen bits. -/
def hashWord (digit : Nat) (word : BitVec 16) : BitVec 16 :=
  ((word.setWidth 32 >>> digit) ||| (word.setWidth 32 <<< (16 - digit))).setWidth 16

/-- The loop that hashes the key with the chip id, a decimal digit for each word. -/
def hashKey : Nat → List (BitVec 16) → List (BitVec 16)
  | _, [] => []
  | id, word :: words => hashWord (id % 10) word :: hashKey (id / 10) words

/-- The four indexes that a word leaves in `ser`. -/
def slices (word : BitVec 16) : List (BitVec 16) :=
  [word &&& 0x001f#16, (word &&& 0x00f8#16) >>> 3, (word &&& 0x1f00#16) >>> 8,
    (word &&& 0xf800#16) >>> 11]

/-- `udc_chr[(int)ser[idx]]` -/
def letter (index : BitVec 16) : Char := udcChr.getD index.toNat '\x00'

/-- The whole array `ser`, the bytes that `memset` has cleared included. -/
def getSerial (hwkey : BitVec 64) (chipid : BitVec 32) : List Char :=
  let hashkey := hashKey chipid.toNat (splitKey hashArraySize hwkey)
  let ser := (hashkey.flatMap slices).map letter
  ser ++ List.replicate (serialnoLen - ser.length) '\x00'

/-- What a reader of the array takes it for. -/
def cString (ser : List Char) : List Char := ser.takeWhile (· ≠ '\x00')

theorem hashWord_rotate {digit : Nat} (decimal : digit < 10) (word : BitVec 16) :
    hashWord digit word = word.rotateRight digit := by
  apply BitVec.eq_of_getLsbD_eq
  intro i bound
  have wide : i < 32 := by omega
  simp only [hashWord, BitVec.getLsbD_setWidth, BitVec.getLsbD_or, BitVec.getLsbD_ushiftRight,
    BitVec.getLsbD_shiftLeft, BitVec.getLsbD_rotateRight, bound, wide, decide_true, Bool.true_and,
    Nat.mod_eq_of_lt (show digit < 16 by omega)]
  have inside : digit + i < 32 := by omega
  have back : i - (16 - digit) < 32 := by omega
  by_cases low : i < 16 - digit
  · simp [low, inside]
  · have beyond : word.getLsbD (digit + i) = false := BitVec.getLsbD_of_ge word _ (by omega)
    simp [low, back, beyond]

/-- `S` stands twice in the alphabet, at 18 and at 23, where an `X` is missing. -/
def SameLetter (i j : BitVec 5) : Prop :=
  i = j ∨ i = 18#5 ∧ j = 23#5 ∨ i = 23#5 ∧ j = 18#5

instance (i j : BitVec 5) : Decidable (SameLetter i j) := by
  unfold SameLetter
  infer_instance

theorem letter_eq_iff : ∀ i j : BitVec 5,
    letter (i.setWidth 16) = letter (j.setWidth 16) ↔ SameLetter i j := by
  decide +kernel

theorem letter_ne_nul : ∀ i : BitVec 5, letter (i.setWidth 16) ≠ '\x00' := by
  decide +kernel

def field (start : Nat) (word : BitVec 16) : BitVec 5 := word.extractLsb' start 5

theorem slices_fields (word : BitVec 16) :
    slices word = ([0, 3, 8, 11].map (field · word)).map (·.setWidth 16) := by
  simp only [slices, List.map_cons, List.map_nil, List.cons.injEq, and_true]
  refine ⟨?_, ?_, ?_, ?_⟩
  all_goals
    apply BitVec.eq_of_getLsbD_eq
    intro i bound
    interval_cases i <;> simp [field]

def letters (word : BitVec 16) : List Char := (slices word).map letter

theorem letters_fields (word : BitVec 16) :
    letters word = [0, 3, 8, 11].map fun start => letter ((field start word).setWidth 16) := by
  simp [letters, slices_fields]

theorem letters_length (word : BitVec 16) : (letters word).length = 4 := rfl

/-- The index three bits further on ends with the first two of the bits before. -/
theorem field_overlap (start : Nat) (word : BitVec 16) :
    field (start + 3) word =
      word.extractLsb' (start + 5) 3 ++ (field start word).extractLsb' 3 2 := by
  apply BitVec.eq_of_getLsbD_eq
  intro i bound
  simp only [field, BitVec.getLsbD_append, BitVec.getLsbD_extractLsb']
  by_cases low : i < 2
  · have within : 3 + i < 5 := by omega
    simp [low, bound, within, Nat.add_assoc]
  · have within : i - 2 < 3 := by omega
    have position : start + 5 + (i - 2) = start + 3 + i := by omega
    simp [low, bound, within, position]

theorem SameLetter.top : ∀ {i j : BitVec 5}, SameLetter i j →
    i.extractLsb' 3 2 = j.extractLsb' 3 2 := by
  decide +kernel

theorem sameLetter_append : ∀ (t t' : BitVec 3) (l : BitVec 2),
    SameLetter (t ++ l) (t' ++ l) ↔ t = t' := by
  decide +kernel

/-- The two bits shared with the letter before keep the second letter of a byte unambiguous. -/
theorem sameLetter_overlap {start : Nat} {w₁ w₂ : BitVec 16}
    (same : SameLetter (field start w₁) (field start w₂)) :
    SameLetter (field (start + 3) w₁) (field (start + 3) w₂) ↔
      w₁.extractLsb' (start + 5) 3 = w₂.extractLsb' (start + 5) 3 := by
  rw [field_overlap, field_overlap, same.top]
  exact sameLetter_append _ _ _

/-- The words differ at most in the low five bits of a byte, and there as 10010 and 10111 do. -/
structure Twins (w₁ w₂ : BitVec 16) : Prop where
  low : SameLetter (field 0 w₁) (field 0 w₂)
  lowTop : w₁.extractLsb' 5 3 = w₂.extractLsb' 5 3
  high : SameLetter (field 8 w₁) (field 8 w₂)
  highTop : w₁.extractLsb' 13 3 = w₂.extractLsb' 13 3

theorem letters_eq_iff {w₁ w₂ : BitVec 16} : letters w₁ = letters w₂ ↔ Twins w₁ w₂ := by
  simp only [letters_fields, List.map_cons, List.map_nil, List.cons.injEq, and_true, letter_eq_iff]
  constructor
  · intro same
    obtain ⟨low, lowNext, high, highNext⟩ := same
    exact ⟨low, (sameLetter_overlap low).mp lowNext, high, (sameLetter_overlap high).mp highNext⟩
  · intro twins
    exact ⟨twins.low, (sameLetter_overlap twins.low).mpr twins.lowTop, twins.high,
      (sameLetter_overlap twins.high).mpr twins.highTop⟩

def keyWord (hwkey : BitVec 64) (idx : Nat) : BitVec 16 := hwkey.extractLsb' (16 * idx) 16

/-- A decimal digit of the chip id, the last one first. -/
def chipDigit (id idx : Nat) : Nat := id / 10 ^ idx % 10

theorem hashKey_splitKey (rounds id : Nat) (tmp : BitVec 64) :
    hashKey id (splitKey rounds tmp) =
      (List.range rounds).map fun idx => (keyWord tmp idx).rotateRight (chipDigit id idx) := by
  induction rounds generalizing id tmp with
  | zero => rfl
  | succ rounds ih =>
    have first : (tmp &&& 0xffff#64).setWidth 16 = keyWord tmp 0 := by
      apply BitVec.eq_of_getLsbD_eq
      intro i bound
      interval_cases i <;> simp [keyWord]
    have next (idx : Nat) : keyWord (tmp >>> 16) idx = keyWord tmp (idx + 1) := by
      apply BitVec.eq_of_getLsbD_eq
      intro i bound
      simp only [keyWord, BitVec.getLsbD_extractLsb', BitVec.getLsbD_ushiftRight]
      congr 2
      omega
    have digits (idx : Nat) : chipDigit (id / 10) idx = chipDigit id (idx + 1) := by
      rw [chipDigit, chipDigit, Nat.div_div_eq_div_mul, Nat.pow_succ']
    rw [splitKey, hashKey, ih, hashWord_rotate (Nat.mod_lt _ (by decide)), first,
      List.range_succ_eq_map, List.map_cons, List.map_map]
    simp only [next, digits]
    congr 1
    simp [chipDigit]

theorem flatMap_eq_iff {ι α : Type} {f g : ι → List α} (even : ∀ i, (f i).length = (g i).length)
    (indexes : List ι) :
    indexes.flatMap f = indexes.flatMap g ↔ ∀ i ∈ indexes, f i = g i := by
  induction indexes with
  | nil => simp
  | cons i indexes ih =>
    rw [List.flatMap_cons, List.flatMap_cons, List.forall_mem_cons, ← ih]
    constructor
    · intro same
      exact List.append_inj same (even i)
    · intro same
      rw [same.1, same.2]

def serialLetters (hwkey : BitVec 64) (chipid : BitVec 32) : List Char :=
  (List.range hashArraySize).flatMap fun idx =>
    letters ((keyWord hwkey idx).rotateRight (chipDigit chipid.toNat idx))

theorem serialLetters_length (hwkey : BitVec 64) (chipid : BitVec 32) :
    (serialLetters hwkey chipid).length = 16 := by
  simp only [serialLetters, List.length_flatMap, letters_length]
  rfl

theorem getSerial_letters (hwkey : BitVec 64) (chipid : BitVec 32) :
    getSerial hwkey chipid = serialLetters hwkey chipid ++ List.replicate 16 '\x00' := by
  have joined : ((hashKey chipid.toNat (splitKey hashArraySize hwkey)).flatMap slices).map letter =
      serialLetters hwkey chipid := by
    rw [hashKey_splitKey, List.map_flatMap, List.flatMap_map]
    rfl
  rw [getSerial, joined, serialLetters_length]
  rfl

theorem cString_getSerial (hwkey : BitVec 64) (chipid : BitVec 32) :
    cString (getSerial hwkey chipid) = serialLetters hwkey chipid := by
  have printable : ∀ c ∈ serialLetters hwkey chipid, c ≠ '\x00' := by
    intro c member
    rw [serialLetters, List.mem_flatMap] at member
    obtain ⟨idx, _, member⟩ := member
    rw [letters_fields, List.mem_map] at member
    obtain ⟨start, _, rfl⟩ := member
    exact letter_ne_nul _
  rw [getSerial_letters, cString, List.takeWhile_append_of_pos (by simpa using printable)]
  simp

/-- Some word of the keys, rotated by its digit of the chip id, tells them apart. -/
def Apart (chipid : BitVec 32) (k₁ k₂ : BitVec 64) : Prop :=
  ∃ idx < hashArraySize, ¬ Twins ((keyWord k₁ idx).rotateRight (chipDigit chipid.toNat idx))
    ((keyWord k₂ idx).rotateRight (chipDigit chipid.toNat idx))

/-- Two keys have different serial numbers exactly when they are apart. -/
theorem serial_unique_iff (k₁ k₂ : BitVec 64) (chipid : BitVec 32) :
    (k₁ ≠ k₂ → cString (getSerial k₁ chipid) ≠ cString (getSerial k₂ chipid)) ↔
      (k₁ ≠ k₂ → Apart chipid k₁ k₂) := by
  have apart : cString (getSerial k₁ chipid) ≠ cString (getSerial k₂ chipid) ↔
      Apart chipid k₁ k₂ := by
    rw [cString_getSerial, cString_getSerial, serialLetters, serialLetters, Ne,
      flatMap_eq_iff fun idx => by rw [letters_length, letters_length]]
    simp only [letters_eq_iff, List.mem_range, Apart, not_forall, exists_prop]
  rw [apart]

/-- Both keys are `SCAAAAAAAAAAAAAA`. -/
theorem serial_shared : (18#64 : BitVec 64) ≠ 23#64 ∧
    cString (getSerial 18#64 0#32) = cString (getSerial 23#64 0#32) := by
  decide +kernel

end Yika.Devs
