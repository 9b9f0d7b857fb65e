import Mathlib.Data.BitVec
import Mathlib.Logic.Function.Basic

/-! Cells that are written under masks. After any number of updates a bit of a cell is the one that
the last update touching it has given, so what the cells hold in the end is told by these last
updates alone. -/

namespace Yika.Program
variable {κ : Type} [DecidableEq κ] {n : Nat}

/-- The bits of `mask` in the cell at `key` become those of `value`. -/
structure Update (κ : Type) (n : Nat) where
  key : κ
  mask : BitVec n
  value : BitVec n
  deriving DecidableEq

def Update.apply (u : Update κ n) (cells : κ → BitVec n) : κ → BitVec n :=
  Function.update cells u.key ((cells u.key &&& ~~~u.mask) ||| (u.value &&& u.mask))

def applyAll (us : List (Update κ n)) (cells : κ → BitVec n) : κ → BitVec n :=
  us.foldl (fun cells u => u.apply cells) cells

@[simp] theorem applyAll_nil (cells : κ → BitVec n) : applyAll [] cells = cells := rfl

@[simp] theorem applyAll_cons (u : Update κ n) (us : List (Update κ n)) (cells : κ → BitVec n) :
    applyAll (u :: us) cells = applyAll us (u.apply cells) := rfl

theorem applyAll_append (us us' : List (Update κ n)) (cells : κ → BitVec n) :
    applyAll (us ++ us') cells = applyAll us' (applyAll us cells) := List.foldl_append

def Update.Touches (u : Update κ n) (key : κ) (i : Nat) : Prop := u.key = key ∧ u.mask.getLsbD i = true

instance (u : Update κ n) (key : κ) (i : Nat) : Decidable (u.Touches key i) :=
  inferInstanceAs (Decidable (_ ∧ _))

/-- What the last update that touches the bit makes of it. -/
def lastWrite (key : κ) (i : Nat) : List (Update κ n) → Option Bool
  | [] => none
  | u :: us => (lastWrite key i us).or (if u.Touches key i then some (u.value.getLsbD i) else none)

theorem lastWrite_append (key : κ) (i : Nat) (us us' : List (Update κ n)) :
    lastWrite key i (us ++ us') = (lastWrite key i us').or (lastWrite key i us) := by
  induction us with
  | nil => simp [lastWrite]
  | cons u us ih => rw [List.cons_append, lastWrite, ih, Option.or_assoc, lastWrite]

theorem lastWrite_untouched {key : κ} {i : Nat} {us : List (Update κ n)}
    (none : ∀ u ∈ us, ¬u.Touches key i) : lastWrite key i us = .none := by
  induction us with
  | nil => rfl
  | cons u us ih =>
    rw [List.forall_mem_cons] at none
    rw [lastWrite, ih none.2, if_neg none.1]
    rfl

theorem apply_bit (u : Update κ n) (cells : κ → BitVec n) (key : κ) (i : Nat) :
    (u.apply cells key).getLsbD i =
      if u.Touches key i then u.value.getLsbD i else (cells key).getLsbD i := by
  by_cases here : key = u.key
  · subst here
    rw [Update.apply, Function.update_self, BitVec.getLsbD_or, BitVec.getLsbD_and, BitVec.getLsbD_and,
      BitVec.getLsbD_not]
    cases touched : u.mask.getLsbD i with
    | true =>
      rw [if_pos ⟨rfl, touched⟩]
      simp
    | false =>
      rw [if_neg fun touches => absurd (touches.2.symm.trans touched) (by decide)]
      by_cases inside : i < n
      · simp [inside]
      · simp [BitVec.getLsbD_of_ge _ _ (Nat.le_of_not_lt inside)]
  · rw [Update.apply, Function.update_of_ne here, if_neg fun touches => here touches.1.symm]

/-- A bit is the one that the last update touching it gives, or the one that was there. -/
theorem applyAll_bit (us : List (Update κ n)) (cells : κ → BitVec n) (key : κ) (i : Nat) :
    (applyAll us cells key).getLsbD i = (lastWrite key i us).getD ((cells key).getLsbD i) := by
  induction us generalizing cells with
  | nil => rfl
  | cons u us ih =>
    rw [applyAll_cons, ih, lastWrite, apply_bit]
    cases lastWrite key i us with
    | some bit => rfl
    | none =>
      rw [Option.none_or, Option.getD_none]
      split
      next => rfl
      next => rfl

theorem applyAll_congr {us us' : List (Update κ n)}
    (same : ∀ key i, lastWrite key i us = lastWrite key i us') (cells : κ → BitVec n) :
    applyAll us cells = applyAll us' cells := by
  funext key
  apply BitVec.eq_of_getLsbD_eq
  intro i _
  rw [applyAll_bit, applyAll_bit, same]

def Apart (us us' : List (Update κ n)) : Prop :=
  ∀ u ∈ us, ∀ u' ∈ us', u.key = u'.key → u.mask &&& u'.mask = 0

instance (us us' : List (Update κ n)) : Decidable (Apart us us') :=
  inferInstanceAs (Decidable (∀ u ∈ us, ∀ u' ∈ us', u.key = u'.key → u.mask &&& u'.mask = 0))

theorem Apart.untouched {us us' : List (Update κ n)} (apart : Apart us us') (key : κ) (i : Nat) :
    lastWrite key i us = none ∨ lastWrite key i us' = none := by
  by_cases touched : ∃ u ∈ us, u.Touches key i
  · obtain ⟨u, inside, here, masked⟩ := touched
    refine .inr (lastWrite_untouched ?_)
    rintro u' inside' ⟨here', masked'⟩
    have common := congrArg (fun bits => bits.getLsbD i) (apart u inside u' inside' (here.trans here'.symm))
    rw [BitVec.getLsbD_and, masked, masked'] at common
    simp at common
  · exact .inl (lastWrite_untouched fun u inside touches => touched ⟨u, inside, touches⟩)

/-- Updates of different bits may come in either order. -/
theorem applyAll_comm {us us' : List (Update κ n)} (apart : Apart us us') (cells : κ → BitVec n) :
    applyAll us' (applyAll us cells) = applyAll us (applyAll us' cells) := by
  rw [← applyAll_append, ← applyAll_append]
  apply applyAll_congr
  intro key i
  rw [lastWrite_append, lastWrite_append]
  rcases apart.untouched key i with none | none
  · rw [none, Option.or_none, Option.none_or]
  · rw [none, Option.or_none, Option.none_or]

end Yika.Program
