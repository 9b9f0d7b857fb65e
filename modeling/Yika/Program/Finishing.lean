import Mathlib.Order.GameAdd
import Yika.Program.Lower
import Yika.Program.Threads

/-! Programs that come to an end from wherever they have got to: every loop does, whatever has been
answered before it. What is left of such a program is finite, and at its end it has returned. -/

namespace Yika.Program
variable {S : Signature} {W : Type} {α β σ : Type} {env : Env S W} {good : W → Prop}

/-- Every loop of the program returns from any good state. -/
def Finishing (env : Env S W) (good : W → Prop) : {α : Type} → Prog S α → Prop
  | _, .ret _ => True
  | _, .op _ next => ∀ answer, Finishing env good (next answer)
  | _, .loop body _ next => (∀ x, Finishing env good (body x)) ∧
    (∀ x w, good w → Achieves env (Prog.doWhile body x) (fun _ _ => True) w) ∧
    ∀ out, Finishing env good (next out)

section
variable {p q : Prog S α} {f : α → Prog S β}

@[simp] theorem finishing_pure (value : α) : Finishing env good (pure value : Prog S α) := trivial

@[simp] theorem finishing_perform {o : S.Op} : Finishing env good (Prog.perform o) := fun _ => trivial

theorem Finishing.seq (first : Finishing env good p) (rest : ∀ value, Finishing env good (f value)) :
    Finishing env good (p.bind f) := by
  induction p with
  | ret value => exact rest value
  | op o next ih => exact fun answer => ih answer (first answer) rest
  | loop body x next _ ih => exact ⟨first.1, first.2.1, fun out => ih out (first.2.2 out) rest⟩

theorem finishing_bind (first : Finishing env good p) (rest : ∀ value, Finishing env good (f value)) :
    Finishing env good (p >>= f) := first.seq rest

theorem finishing_ite {c : Prop} [Decidable c] (yes : Finishing env good p) (no : Finishing env good q) :
    Finishing env good (if c then p else q) := by
  split
  next => exact yes
  next => exact no

theorem finishing_when {c : Prop} [Decidable c] {p : Prog S Unit} (yes : Finishing env good p) :
    Finishing env good (Prog.when c p) := finishing_ite yes trivial

theorem finishing_doWhile {body : σ → Prog S (σ ⊕ α)} (rounds : ∀ x, Finishing env good (body x))
    (ends : ∀ x w, good w → Achieves env (Prog.doWhile body x) (fun _ _ => True) w) (x : σ) :
    Finishing env good (Prog.doWhile body x) := ⟨rounds, ends, fun _ => trivial⟩

theorem Finishing.taken {e : Event S} (finishing : Finishing env good p) (takes : Takes p e q) :
    Finishing env good q := by
  induction takes with
  | op => exact finishing _
  | loop _ ih =>
    refine ih ((finishing.1 _).seq fun step => ?_)
    cases step with
    | inl y => exact finishing
    | inr out => exact finishing.2.2 out

theorem Finishing.achieves (keeps : ∀ o w, good w → good (env o w).2) (finishing : Finishing env good p) {w : W}
    (holds : good w) : Achieves env p (fun _ w' => good w') w := by
  have kept {α : Type} {p : Prog S α} {out : α} {w w' : W} (run : Runs env p w out w') (holds : good w) : good w' :=
    (uses_anything p).preserves (fun o w _ => keeps o w) run holds
  induction p generalizing w with
  | ret value => exact ⟨value, w, .ret, holds⟩
  | op o next ih =>
    obtain ⟨out, w', run, reached⟩ := ih _ (finishing (env o w).1) (keeps o w holds)
    exact ⟨out, w', .op run, reached⟩
  | loop body x next _ ih =>
    obtain ⟨out, w₁, looped, _⟩ := finishing.2.1 x w holds
    obtain ⟨value, w', run, reached⟩ := ih out (finishing.2.2 out) (kept looped holds)
    exact ⟨value, w', looped.seq run, reached⟩

/-- Operations that programs of the lower level perform. -/
theorem Finishing.lower {T : Signature} {V : Type} {low : Env T V} {holds : V → Prop} {view : V → W}
    {impl : (o : S.Op) → Prog T (S.Answer o)} (refines : Refines low env impl holds view)
    (impls : ∀ o, Finishing low holds (impl o)) (sees : ∀ v, holds v → good (view v))
    (finishing : Finishing env good p) : Finishing low holds (p.lower impl) := by
  induction p with
  | ret value => exact trivial
  | op o next ih => exact (impls o).seq fun answer => ih answer (finishing answer)
  | loop body x next ihBody ih =>
    refine ⟨fun x => ihBody x (finishing.1 x), fun x v here => ?_, fun out => ih out (finishing.2.2 out)⟩
    have ends := finishing.2.1 x (view v) (sees v here)
    exact ((refines.achieves_iff here).mpr ends).mono fun _ _ _ => trivial

section
variable {T : Signature} {V : Type} {low : Env T V} {holds : V → Prop} {impl : (o : S.Op) → Prog T (S.Answer o)}

theorem finishing_lower_perform {o : S.Op} (performs : Finishing low holds (impl o)) :
    Finishing low holds ((Prog.perform o).lower impl) := by
  rw [lower_perform]
  exact performs

theorem finishing_lower_bind (first : Finishing low holds (p.lower impl))
    (rest : ∀ value, Finishing low holds ((f value).lower impl)) : Finishing low holds ((p >>= f).lower impl) := by
  rw [lower_bind]
  exact finishing_bind first rest

theorem finishing_lower_ite {c : Prop} [Decidable c] (yes : Finishing low holds (p.lower impl))
    (no : Finishing low holds (q.lower impl)) : Finishing low holds ((if c then p else q).lower impl) := by
  rw [lower_ite]
  exact finishing_ite yes no

end

/-- A program with a run performs finitely many operations. -/
theorem Runs.accessible {out : α} {w w' : W} (run : Runs env p w out w') :
    Acc (fun c' c => Advance env c c') (p, w) := by
  obtain ⟨events, traces, path⟩ := run.traced
  clear run
  induction events generalizing p w with
  | nil =>
    refine ⟨_, fun c step => ?_⟩
    obtain ⟨o, takes, _⟩ := step
    obtain ⟨rest, none, _⟩ := takes.traces traces path rfl
    cases none
  | cons e events ih =>
    refine ⟨_, fun c step => ?_⟩
    obtain ⟨q, w₁⟩ := c
    obtain ⟨o, takes, rfl⟩ := step
    obtain ⟨rest, same, later, onward⟩ := takes.traces traces path rfl
    cases same
    exact ih later onward

theorem Runs.returned {out : α} {w w' : W} (run : Runs env p w out w') (stuck : ∀ c, ¬Advance env (p, w) c) :
    Returned p out := by
  obtain ⟨q, reaches, returned⟩ := run.reaches
  rcases Relation.ReflTransGen.cases_head reaches with here | ⟨c, step, _⟩
  · cases here
    exact returned
  · exact absurd step (stuck c)

end

/-- Steps that a well-founded relation sees come to an end. -/
theorem accessible_of {A B : Type*} {step : A → A → Prop} {less : B → B → Prop} {good : A → Prop} {view : A → B}
    (each : ∀ a a', good a → step a a' → good a' ∧ less (view a') (view a)) {a : A}
    (accessible : Acc less (view a)) (holds : good a) : Acc (fun a' a => step a a') a := by
  generalize here : view a = b at accessible
  induction accessible generalizing a with
  | intro b _ ih =>
    refine ⟨a, fun a' stepped => ?_⟩
    obtain ⟨holds', falls⟩ := each a a' holds stepped
    exact ih _ (here ▸ falls) holds' rfl

end Yika.Program
