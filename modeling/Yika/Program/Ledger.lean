import Mathlib.Data.List.Count

/-! Things that are acquired and have to be released: what has been acquired and what has been
released so far, each with its multiplicity. -/

namespace Yika.Program

structure Ledger (α : Type) where
  acquired : List α
  released : List α
  deriving DecidableEq

namespace Ledger
variable {α : Type} [DecidableEq α]

def empty : Ledger α := ⟨[], []⟩

def acquire (l : Ledger α) (a : α) : Ledger α := { l with acquired := a :: l.acquired }

def release (l : Ledger α) (a : α) : Ledger α := { l with released := a :: l.released }

def Held (l : Ledger α) (a : α) : Prop := l.released.count a < l.acquired.count a

instance (l : Ledger α) (a : α) : Decidable (l.Held a) := Nat.decLt _ _

def Settled (l : Ledger α) : Prop := ∀ a, l.released.count a = l.acquired.count a

/-- Everything has been released as often as acquired, except one thing, if there is one, that has
been released once less. -/
def Owes (l : Ledger α) (owed : Option α) : Prop :=
  ∀ a, l.acquired.count a = l.released.count a + if owed = some a then 1 else 0

variable {l : Ledger α} {a b : α} {owed : Option α}

theorem owes_empty : (empty : Ledger α).Owes none := fun _ => rfl

theorem Owes.settled (nothing : l.Owes none) : l.Settled := fun a => (nothing a).symm

theorem Owes.held (owes : l.Owes owed) : l.Held a ↔ owed = some a := by
  unfold Held
  rw [owes a]
  split
  next same => exact iff_of_true (Nat.lt_succ_self _) same
  next other => exact iff_of_false (Nat.lt_irrefl _) other

theorem Owes.acquire (nothing : l.Owes none) (a : α) : (l.acquire a).Owes (some a) := by
  intro b
  have before := nothing b
  simp only [Ledger.acquire, List.count_cons, beq_iff_eq, Option.some.injEq, reduceCtorEq, if_false,
    Nat.add_zero] at before ⊢
  rw [before]

theorem Owes.release (owes : l.Owes (some a)) : (l.release a).Owes none := by
  intro b
  have before := owes b
  simp only [Ledger.release, List.count_cons, beq_iff_eq, Option.some.injEq, reduceCtorEq, if_false,
    Nat.add_zero] at before ⊢
  rw [before]

theorem Held.acquire (held : l.Held a) (b : α) : (l.acquire b).Held a := by
  unfold Held at held ⊢
  exact Nat.lt_of_lt_of_le held (List.count_le_count_cons ..)

theorem Held.exchange (held : l.Held a) (b : α) : ((l.acquire b).release b).Held a := by
  unfold Held at held ⊢
  simp only [Ledger.acquire, Ledger.release, List.count_cons]
  omega

theorem Held.unsettled (held : l.Held a) : ¬l.Settled := fun settled =>
  Nat.ne_of_lt held (settled a)

end Ledger

end Yika.Program
