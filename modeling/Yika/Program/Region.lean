import Mathlib.Data.BitVec
import Mathlib.Data.List.GetD

/-! Memories that are lists of cells: copying from one region to another, and the words that four
bytes in a row make, the lowest byte first. Reads behind the end give a fixed value, and writes there
are lost. -/

namespace Yika.Program

section
variable {α : Type} {fill : α}

/-- Copies cell by cell, from the lowest address on. -/
def copyCells (fill : α) : (count dst src : Nat) → List α → List α
  | 0, _, _, mem => mem
  | count + 1, dst, src, mem => copyCells fill count (dst + 1) (src + 1) (mem.set dst (mem.getD src fill))

theorem getD_length_append {before rest : List α} : (before ++ rest).getD before.length fill = rest.getD 0 fill := by
  rw [List.getD_append_right _ _ _ _ (Nat.le_refl _), Nat.sub_self]

theorem set_length_append {before rest : List α} {value : α} :
    (before ++ rest).set before.length value = before ++ rest.set 0 value := by
  rw [List.set_append_right _ _ (Nat.le_refl _), Nat.sub_self]

/-- A block that is copied down arrives as it was, also where it overlaps with itself. -/
theorem copyCells_down (fill : α) (before gap block after : List α) : ∃ stale, stale.length = gap.length ∧
    copyCells fill block.length before.length (before.length + gap.length)
        (before ++ (gap ++ (block ++ after))) = before ++ (block ++ (stale ++ after)) := by
  induction block generalizing before gap with
  | nil => exact ⟨gap, rfl, rfl⟩
  | cons first block ih =>
    obtain ⟨stale, size, copied⟩ := ih (before ++ [first]) ((gap ++ [first]).drop 1)
    have moved : (gap ++ [first]).drop 1 = gap.drop 1 ++ (if gap = [] then [] else [first]) := by
      cases gap with
      | nil => rfl
      | cons _ _ => rfl
    have length : ((gap ++ [first]).drop 1).length = gap.length := by
      simp
    refine ⟨stale, size.trans length, ?_⟩
    have read : (before ++ (gap ++ (first :: block ++ after))).getD (before.length + gap.length) fill = first := by
      rw [← List.append_assoc, ← List.length_append, getD_length_append]
      rfl
    have written : (before ++ (gap ++ (first :: block ++ after))).set before.length first =
        before ++ [first] ++ ((gap ++ [first]).drop 1 ++ (block ++ after)) := by
      rw [set_length_append]
      cases gap with
      | nil => simp
      | cons _ _ => simp
    have source : before.length + gap.length + 1 = (before ++ [first]).length + ((gap ++ [first]).drop 1).length := by
      rw [length, List.length_append, List.length_singleton]
      omega
    have target : before.length + 1 = (before ++ [first]).length := by simp
    calc copyCells fill (first :: block).length before.length (before.length + gap.length)
          (before ++ (gap ++ (first :: block ++ after)))
        = copyCells fill block.length (before.length + 1) (before.length + gap.length + 1)
            ((before ++ (gap ++ (first :: block ++ after))).set before.length first) := by
          rw [List.length_cons, copyCells, read]
      _ = before ++ [first] ++ (block ++ (stale ++ after)) := by
          rw [written, source, target, copied]
      _ = before ++ (first :: block ++ (stale ++ after)) := by
          simp

end

/-- The bytes of a word, the lowest first. -/
def wordBytes (w : BitVec 32) : List (BitVec 8) :=
  [w.extractLsb' 0 8, w.extractLsb' 8 8, w.extractLsb' 16 8, w.extractLsb' 24 8]

def loadWord (mem : List (BitVec 8)) (a : Nat) : BitVec 32 :=
  mem.getD (a + 3) 0 ++ mem.getD (a + 2) 0 ++ mem.getD (a + 1) 0 ++ mem.getD a 0

def storeWord (mem : List (BitVec 8)) (a : Nat) (w : BitVec 32) : List (BitVec 8) :=
  (((mem.set a (w.extractLsb' 0 8)).set (a + 1) (w.extractLsb' 8 8)).set (a + 2) (w.extractLsb' 16 8)).set
    (a + 3) (w.extractLsb' 24 8)

section
variable {before block after rest : List (BitVec 8)} {w w' : BitVec 32} {i j : Nat}

@[simp] theorem length_wordBytes : (wordBytes w).length = 4 := rfl

@[simp] theorem length_storeWord : (storeWord block i w).length = block.length := by
  simp only [storeWord, List.length_set]

theorem loadWord_append (before rest : List (BitVec 8)) (i : Nat) :
    loadWord (before ++ rest) (before.length + i) = loadWord rest i := by
  have cell : ∀ j, (before ++ rest).getD (before.length + i + j) 0 = rest.getD (i + j) 0 := by
    intro j
    rw [List.getD_append_right _ _ _ _ (by omega)]
    congr 1
    omega
  rw [loadWord, loadWord, cell, cell, cell]
  exact congrArg _ (cell 0)

theorem loadWord_left (bound : i + 4 ≤ block.length) : loadWord (block ++ after) i = loadWord block i := by
  simp only [loadWord]
  rw [List.getD_append _ _ _ _ (by omega), List.getD_append _ _ _ _ (by omega),
    List.getD_append _ _ _ _ (by omega), List.getD_append _ _ _ _ (by omega)]

theorem storeWord_append (before rest : List (BitVec 8)) (i : Nat) (w : BitVec 32) :
    storeWord (before ++ rest) (before.length + i) w = before ++ storeWord rest i w := by
  have cell : ∀ j value, ∀ row : List (BitVec 8),
      (before ++ row).set (before.length + i + j) value = before ++ row.set (i + j) value := by
    intro j value row
    rw [List.set_append_right _ _ (by omega)]
    congr 2
    omega
  have first := cell 0 (w.extractLsb' 0 8) rest
  rw [Nat.add_zero, Nat.add_zero] at first
  rw [storeWord, storeWord, first, cell, cell, cell]

theorem storeWord_left (bound : i + 4 ≤ block.length) :
    storeWord (block ++ after) i w = storeWord block i w ++ after := by
  simp only [storeWord]
  rw [List.set_append_left _ _ (by omega), List.set_append_left _ _ (by rw [List.length_set]; omega),
    List.set_append_left _ _ (by simp only [List.length_set]; omega),
    List.set_append_left _ _ (by simp only [List.length_set]; omega)]

theorem loadWord_wordBytes : loadWord (wordBytes w ++ rest) 0 = w := by
  change w.extractLsb' 24 8 ++ w.extractLsb' 16 8 ++ w.extractLsb' 8 8 ++ w.extractLsb' 0 8 = w
  have high : 24 = 16 + 8 := rfl
  have middle : 16 = 8 + 8 := rfl
  have low : 8 = 0 + 8 := rfl
  rw [BitVec.extractLsb'_append_extractLsb'_eq_extractLsb' high,
    BitVec.extractLsb'_append_extractLsb'_eq_extractLsb' middle,
    BitVec.extractLsb'_append_extractLsb'_eq_extractLsb' low]
  exact BitVec.extractLsb'_eq_self

theorem loadWord_storeWord (bound : i + 4 ≤ block.length) : loadWord (storeWord block i w) i = w := by
  have split : block = block.take i ++ block.drop i := (List.take_append_drop i block).symm
  have size : (block.take i).length = i := List.length_take_of_le (by omega)
  obtain ⟨a, b, c, d, rest, four⟩ : ∃ a b c d rest, block.drop i = a :: b :: c :: d :: rest := by
    match found : block.drop i with
    | a :: b :: c :: d :: rest => exact ⟨a, b, c, d, rest, rfl⟩
    | [] | [_] | [_, _] | [_, _, _] =>
      have length := congrArg List.length found
      simp only [List.length_drop, List.length_cons, List.length_nil] at length
      omega
  have stored : storeWord block i w = block.take i ++ (wordBytes w ++ rest) := by
    have moved := storeWord_append (block.take i) (block.drop i) 0 w
    rw [Nat.add_zero, size, ← split, four] at moved
    exact moved
  have loaded := loadWord_append (block.take i) (wordBytes w ++ rest) 0
  rw [Nat.add_zero, size, loadWord_wordBytes] at loaded
  rw [stored, loaded]

theorem loadWord_storeWord_of_apart (apart : i + 4 ≤ j ∨ j + 4 ≤ i) :
    loadWord (storeWord block i w) j = loadWord block j := by
  have other : ∀ k value, ∀ row : List (BitVec 8), k < j ∨ j + 4 ≤ k →
      loadWord (row.set k value) j = loadWord row j := by
    intro k value row outside
    simp only [loadWord, List.getD_eq_getElem?_getD]
    rw [List.getElem?_set_ne (by omega), List.getElem?_set_ne (by omega), List.getElem?_set_ne (by omega),
      List.getElem?_set_ne (by omega)]
  rw [storeWord, other _ _ _ (by omega), other _ _ _ (by omega), other _ _ _ (by omega), other _ _ _ (by omega)]

end

end Yika.Program
