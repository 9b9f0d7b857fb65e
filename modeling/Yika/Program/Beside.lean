import Yika.Program.Lower

/-! Two environments side by side: a program that performs operations of both, its parts over one of
them alone, and the refinement of one of them with the other left as it is. -/

namespace Yika.Program
variable {S T U : Signature} {V W X : Type} {α β : Type}

abbrev Signature.beside (S T : Signature) : Signature := ⟨S.Op ⊕ T.Op, Sum.elim S.Answer T.Answer⟩

def Env.beside (first : Env S V) (second : Env T W) : Env (S.beside T) (V × W)
  | .inl o, s => ((first o s.1).1, ((first o s.1).2, s.2))
  | .inr o, s => ((second o s.2).1, (s.1, (second o s.2).2))

def Prog.left (T : Signature) (p : Prog S α) : Prog (S.beside T) α :=
  p.lower fun o => @Prog.perform (S.beside T) (.inl o)

def Prog.right (S : Signature) (p : Prog T α) : Prog (S.beside T) α :=
  p.lower fun o => @Prog.perform (S.beside T) (.inr o)

@[simp] theorem left_pure {value : α} : (pure value : Prog S α).left T = pure value := rfl

@[simp] theorem right_pure {value : α} : (pure value : Prog T α).right S = pure value := rfl

@[simp] theorem left_bind {p : Prog S α} {f : α → Prog S β} :
    (p >>= f).left T = p.left T >>= fun value => (f value).left T := lower_bind

@[simp] theorem right_bind {p : Prog T α} {f : α → Prog T β} :
    (p >>= f).right S = p.right S >>= fun value => (f value).right S := lower_bind

section
variable {first : Env S V} {second : Env T W} {v : V} {w : W} {out : α} {s' : V × W}

theorem left_refines (first : Env S V) (second : Env T W) (w : W) :
    Refines (first.beside second) first (fun o => @Prog.perform (S.beside T) (.inl o))
      (fun s => s.2 = w) Prod.fst :=
  fun _ _ same => achieves_perform.mpr ⟨rfl, same, rfl⟩

theorem right_refines (first : Env S V) (second : Env T W) (v : V) :
    Refines (first.beside second) second (fun o => @Prog.perform (S.beside T) (.inr o))
      (fun s => s.1 = v) Prod.snd :=
  fun _ _ same => achieves_perform.mpr ⟨rfl, same, rfl⟩

/-- A part over the first environment leaves the second one alone. -/
theorem runs_left {p : Prog S α} : Runs (first.beside second) (p.left T) (v, w) out s' ↔
    ∃ v', Runs first p v out v' ∧ s' = (v', w) := by
  constructor
  · intro run
    obtain ⟨raised, same⟩ := run.raise (left_refines first second w) rfl
    exact ⟨s'.1, raised, Prod.ext rfl same⟩
  · rintro ⟨v', run, rfl⟩
    obtain ⟨s', lowered, same, here⟩ :=
      run.lower (left_refines first second w) rfl (rfl : Prod.fst (v, w) = v)
    have there : s' = (v', w) := Prod.ext here same
    exact there ▸ lowered

theorem runs_right {p : Prog T α} : Runs (first.beside second) (p.right S) (v, w) out s' ↔
    ∃ w', Runs second p w out w' ∧ s' = (v, w') := by
  constructor
  · intro run
    obtain ⟨raised, same⟩ := run.raise (right_refines first second v) rfl
    exact ⟨s'.2, raised, Prod.ext same rfl⟩
  · rintro ⟨w', run, rfl⟩
    obtain ⟨s', lowered, same, here⟩ :=
      run.lower (right_refines first second v) rfl (rfl : Prod.snd (v, w) = w)
    have there : s' = (v, w') := Prod.ext same here
    exact there ▸ lowered

end

/-- The operations of the second environment are performed by programs, those of the first as they are. -/
def behind (S : Signature) (impl : (o : T.Op) → Prog U (T.Answer o)) :
    (o : (S.beside T).Op) → Prog (S.beside U) ((S.beside T).Answer o)
  | .inl o => @Prog.perform (S.beside U) (.inl o)
  | .inr o => (impl o).right S

/-- What refines an environment refines it beside another one. -/
theorem Refines.beside {low : Env U X} {high : Env T W} {impl : (o : T.Op) → Prog U (T.Answer o)}
    {good : X → Prop} {view : X → W} (refines : Refines low high impl good view) (first : Env S V) :
    Refines (first.beside low) (first.beside high) (behind S impl) (fun s => good s.2)
      (fun s => (s.1, view s.2)) := by
  rintro (o | o) ⟨v, x⟩ holds
  · exact achieves_perform.mpr ⟨rfl, holds, rfl⟩
  · obtain ⟨answer, x', run, same, holds', there⟩ := refines o x holds
    exact ⟨answer, (v, x'), runs_right.mpr ⟨x', run, rfl⟩, same, holds', congrArg (Prod.mk v) there⟩

end Yika.Program
