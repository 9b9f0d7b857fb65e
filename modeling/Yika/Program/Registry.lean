import Mathlib.Data.Finset.Basic

/-! Objects that are registered and unregistered: each is of a kind and has a number, and numbers
are handed out once. -/

namespace Yika.Program

structure Registry (K : Type) where
  held : Finset (K × Nat)
  next : Nat

namespace Registry
variable {K : Type} {r : Registry K} {kind : K} {number : Nat}

def reserve (r : Registry K) : Registry K := { r with next := r.next + 1 }

/-- The numbers of what is registered have been handed out. -/
def Numbered (r : Registry K) : Prop := ∀ object ∈ r.held, object.2 < r.next

theorem Numbered.unused (numbered : r.Numbered) (kind : K) (later : r.next ≤ number) :
    (kind, number) ∉ r.held := fun member =>
  Nat.not_lt.mpr later (numbered (kind, number) member)

theorem Numbered.reserve (numbered : r.Numbered) : r.reserve.Numbered := fun object member =>
  Nat.lt_succ_of_lt (numbered object member)

@[simp] theorem reserve_held : r.reserve.held = r.held := rfl

@[simp] theorem reserve_next : r.reserve.next = r.next + 1 := rfl

variable [DecidableEq K]

def enter (r : Registry K) (kind : K) (number : Nat) : Registry K :=
  { r with held := insert (kind, number) r.held }

def remove (r : Registry K) (kind : K) (number : Nat) : Registry K :=
  { r with held := r.held.erase (kind, number) }

def create (r : Registry K) (kind : K) : Registry K := r.reserve.enter kind r.next

def createWhen (r : Registry K) (done : Bool) (kind : K) : Registry K :=
  if done then r.create kind else r

@[simp] theorem enter_next : (r.enter kind number).next = r.next := rfl

@[simp] theorem mem_enter {object : K × Nat} :
    object ∈ (r.enter kind number).held ↔ object = (kind, number) ∨ object ∈ r.held :=
  Finset.mem_insert

@[simp] theorem mem_remove {object : K × Nat} :
    object ∈ (r.remove kind number).held ↔ object ≠ (kind, number) ∧ object ∈ r.held :=
  Finset.mem_erase

@[simp] theorem mem_create {object : K × Nat} :
    object ∈ (r.create kind).held ↔ object = (kind, r.next) ∨ object ∈ r.held := mem_enter

@[simp] theorem mem_createWhen {done : Bool} {object : K × Nat} :
    object ∈ (r.createWhen done kind).held ↔
      (done = true ∧ object = (kind, r.next)) ∨ object ∈ r.held := by
  unfold createWhen
  cases done <;> simp

theorem next_le_createWhen {done : Bool} : r.next ≤ (r.createWhen done kind).next := by
  unfold createWhen
  split
  next => exact Nat.le_succ _
  next => exact Nat.le_refl _

/-- Through a pointer, what is registered can be removed, and nothing else. -/
def drop (r : Registry K) (kind : K) : Option Nat → Option (Registry K)
  | some number => if (kind, number) ∈ r.held then some (r.remove kind number) else none
  | none => none

theorem Numbered.enter (numbered : r.Numbered) (kind : K) (used : number < r.next) :
    (r.enter kind number).Numbered := by
  intro object member
  obtain rfl | before := Finset.mem_insert.mp member
  · exact used
  · exact numbered object before

theorem Numbered.create (numbered : r.Numbered) (kind : K) : (r.create kind).Numbered :=
  numbered.reserve.enter kind (Nat.lt_succ_self _)

theorem Numbered.createWhen (numbered : r.Numbered) (done : Bool) (kind : K) :
    (r.createWhen done kind).Numbered := by
  cases done
  · exact numbered
  · exact numbered.create kind

theorem Numbered.remove (numbered : r.Numbered) (kind : K) (number : Nat) :
    (r.remove kind number).Numbered := fun object member =>
  numbered object (Finset.mem_of_mem_erase member)

theorem drop_keeps {pointer : Option Nat} {r' : Registry K} {object : K × Nat}
    (dropped : r.drop kind pointer = some r') (other : object.1 ≠ kind) :
    object ∈ r'.held ↔ object ∈ r.held := by
  cases pointer with
  | none => cases dropped
  | some number =>
    simp only [Registry.drop] at dropped
    split at dropped
    next =>
      obtain rfl := Option.some.inj dropped
      rw [mem_remove]
      exact and_iff_right fun same => other (congrArg Prod.fst same)
    next => cases dropped

theorem Numbered.drop {pointer : Option Nat} {r' : Registry K} (numbered : r.Numbered)
    (dropped : r.drop kind pointer = some r') : r'.Numbered := by
  cases pointer with
  | none => cases dropped
  | some number =>
    simp only [Registry.drop] at dropped
    split at dropped
    next =>
      obtain rfl := Option.some.inj dropped
      exact numbered.remove kind number
    next => cases dropped

theorem drop_next {pointer : Option Nat} {r' : Registry K}
    (dropped : r.drop kind pointer = some r') : r'.next = r.next := by
  cases pointer with
  | none => cases dropped
  | some number =>
    simp only [Registry.drop] at dropped
    split at dropped
    next =>
      obtain rfl := Option.some.inj dropped
      rfl
    next => cases dropped

end Registry

end Yika.Program
