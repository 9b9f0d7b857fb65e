import Yika.Program.Spec

/-! What holds throughout an execution: after each of its operations, or after those that count. A
condition that no part of a program brings about holds at the end only if it has held throughout. -/

namespace Yika.Program
variable {S : Signature} {W : Type} {α β : Type}

/-- When `p` returns in a good state, it started in one and they were good throughout. -/
def Backward (env : Env S W) (counts : S.Op → Prop) (good : W → Prop) (p : Prog S α) : Prop :=
  ∀ w, Ensures env p (fun _ w' => good w' → good w ∧ Throughout env counts good p w) w

/-- When the states were good throughout, `p` returns in a good one. -/
def Forward (env : Env S W) (counts : S.Op → Prop) (good : W → Prop) (p : Prog S α) : Prop :=
  ∀ w, Ensures env p (fun _ w' => Throughout env counts good p w → good w') w

variable {env : Env S W} {counts : S.Op → Prop} {good : W → Prop} {p q : Prog S α}
  {f : α → Prog S β} {w w' : W}

/-! Backwards. -/

theorem Backward.bind (first : Backward env counts good p)
    (rest : ∀ value, Backward env counts good (f value)) : Backward env counts good (p >>= f) := by
  intro w
  rw [ensures_bind]
  intro value w₁ run out w' later last
  obtain ⟨mid, behind⟩ := rest value w₁ out w' later last
  obtain ⟨now, before⟩ := first w value w₁ run mid
  refine ⟨now, throughout_bind.mpr ⟨before, ?_⟩⟩
  intro value' w₁' run'
  obtain ⟨rfl, rfl⟩ := run.det run'
  exact behind

theorem backward_ite {c : Prop} [Decidable c] (yes : Backward env counts good p)
    (no : Backward env counts good q) : Backward env counts good (if c then p else q) := by
  split
  next => exact yes
  next => exact no

/-- A program whose operations do not bring the condition about. -/
theorem Uses.backward {allowed : S.Op → Prop} (uses : Uses allowed p)
    (back : ∀ o w, allowed o → good (env o w).2 → good w) : Backward env counts good p := by
  intro w out w' run last
  induction run with
  | ret =>
    refine ⟨last, ?_⟩
    intro o w' visit
    cases visit
  | op _ ih =>
    obtain ⟨next, behind⟩ := ih (uses.2 _) last
    refine ⟨back _ _ uses.1 next, ?_⟩
    intro o w' visit counted
    cases visit with
    | here => exact next
    | op visit => exact behind o w' visit counted
  | again round _ ihBody ih =>
    obtain ⟨mid, behind⟩ := ih uses last
    obtain ⟨now, before⟩ := ihBody (uses.1 _) mid
    refine ⟨now, ?_⟩
    intro o w' visit counted
    cases visit with
    | body visit => exact before o w' visit counted
    | again round' visit =>
      obtain ⟨same, rfl⟩ := round.det round'
      cases same
      exact behind o w' visit counted
    | leave round' => cases (round.det round').1
  | leave round _ ihBody ih =>
    obtain ⟨mid, behind⟩ := ih (uses.2 _) last
    obtain ⟨now, before⟩ := ihBody (uses.1 _) mid
    refine ⟨now, ?_⟩
    intro o w' visit counted
    cases visit with
    | body visit => exact before o w' visit counted
    | again round' => cases (round.det round').1
    | leave round' visit =>
      obtain ⟨same, rfl⟩ := round.det round'
      cases same
      exact behind o w' visit counted

/-! Forwards: only the last operation matters. -/

theorem Forward.after (rest : ∀ value, Forward env counts good (f value)) :
    Forward env counts good (p >>= f) := by
  intro w
  rw [ensures_bind]
  intro value w₁ run out w' later held
  exact rest value w₁ out w' later ((throughout_bind.mp held).2 value w₁ run)

theorem forward_ite {c : Prop} [Decidable c] (yes : Forward env counts good p)
    (no : Forward env counts good q) : Forward env counts good (if c then p else q) := by
  split
  next => exact yes
  next => exact no

theorem forward_perform {o : S.Op} (counted : counts o) :
    Forward env counts good (Prog.perform o) :=
  fun w => ensures_perform.mpr fun held => held o w .here counted

end Yika.Program
