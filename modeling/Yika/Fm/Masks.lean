import Mathlib.Data.BitVec

/-! Masked updates of a register: what `(s & ~mask) | (val & mask)` does to the bits inside
the mask, to the bits outside it, and to a register some of whose bits are not tracked. -/

namespace Yika.Fm
variable {n : Nat} {clears mask part : BitVec n}

theorem keep_mask (apart : clears &&& mask = 0) (s : BitVec n) :
    s &&& ~~~clears &&& mask = s &&& mask := by
  ext i inside
  have bit : (clears &&& mask)[i] = false := by simp [apart]
  simp only [BitVec.getElem_and, BitVec.getElem_not] at bit ⊢
  grind

theorem mask_write (s val clears mask : BitVec n) :
    ((s &&& ~~~clears &&& ~~~mask) ||| (val &&& mask)) &&& ~~~clears =
      ((s &&& ~~~mask) ||| (val &&& mask)) &&& ~~~clears := by
  ext i inside
  simp only [BitVec.getElem_and, BitVec.getElem_or, BitVec.getElem_not]
  grind

theorem mask_read (s val part mask : BitVec n) :
    ((s &&& part &&& ~~~mask) ||| (val &&& mask)) &&& part =
      ((s &&& ~~~mask) ||| (val &&& mask)) &&& part := by
  ext i inside
  simp only [BitVec.getElem_and, BitVec.getElem_or, BitVec.getElem_not]
  grind

theorem mask_inside (inside : mask &&& part = part) (s val : BitVec n) :
    ((s &&& ~~~mask) ||| (val &&& mask)) &&& part = val &&& part := by
  ext i bound
  have bit : (mask &&& part)[i] = part[i] := by rw [inside]
  simp only [BitVec.getElem_and, BitVec.getElem_or, BitVec.getElem_not] at bit ⊢
  grind

theorem mask_outside (apart : mask &&& part = 0) (s val : BitVec n) :
    ((s &&& ~~~mask) ||| (val &&& mask)) &&& part = s &&& part := by
  ext i bound
  have bit : (mask &&& part)[i] = false := by simp [apart]
  simp only [BitVec.getElem_and, BitVec.getElem_or, BitVec.getElem_not] at bit ⊢
  grind

end Yika.Fm
