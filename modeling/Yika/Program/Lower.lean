import Yika.Program.Spec

/-! Programs lowered onto another signature: every operation is replaced by a program that
performs it there. When each of these programs does what its operation does, as seen through a
view of the lower state, the lowered program does what the program does. -/

namespace Yika.Program
variable {S T : Signature} {V W : Type} {α β σ : Type}

def Prog.lower (impl : (o : S.Op) → Prog T (S.Answer o)) : {α : Type} → Prog S α → Prog T α
  | _, .ret value => .ret value
  | _, .op o next => (impl o).bind fun answer => (next answer).lower impl
  | _, .loop body locals next =>
    .loop (fun x => (body x).lower impl) locals fun out => (next out).lower impl

section
variable {impl : (o : S.Op) → Prog T (S.Answer o)}

@[simp] theorem lower_pure {value : α} : (pure value : Prog S α).lower impl = pure value := rfl

@[simp] theorem lower_perform {o : S.Op} : (Prog.perform o).lower impl = impl o := Prog.bind_ret (impl o)

@[simp] theorem lower_bind {p : Prog S α} {f : α → Prog S β} :
    (p >>= f).lower impl = p.lower impl >>= fun value => (f value).lower impl := by
  change (p.bind f).lower impl = (p.lower impl).bind fun value => (f value).lower impl
  induction p with
  | ret value => rfl
  | op o next ih => simp only [Prog.bind, Prog.lower, ih, Prog.bind_assoc]
  | loop body x next _ ih => simp only [Prog.bind, Prog.lower, ih]

@[simp] theorem lower_ite {c : Prop} [Decidable c] {p q : Prog S α} :
    (if c then p else q).lower impl = if c then p.lower impl else q.lower impl := by
  split
  next => rfl
  next => rfl

theorem lower_congr {impl' : (o : S.Op) → Prog T (S.Answer o)} {p : Prog S α}
    (same : Uses (fun o => impl o = impl' o) p) : p.lower impl = p.lower impl' := by
  induction p with
  | ret value => rfl
  | op o next ih =>
    have rest : (fun answer => (next answer).lower impl) = fun answer => (next answer).lower impl' :=
      funext fun answer => ih answer (same.2 answer)
    simp only [Prog.lower, same.1, rest]
  | loop body x next ihBody ih =>
    have round : (fun x => (body x).lower impl) = fun x => (body x).lower impl' :=
      funext fun x => ihBody x (same.1 x)
    have rest : (fun out => (next out).lower impl) = fun out => (next out).lower impl' :=
      funext fun out => ih out (same.2 out)
    simp only [Prog.lower, round, rest]

end

/-- Every operation is performed by a program, from the good states of the lower level and as seen
through `view`. -/
def Refines (low : Env T V) (high : Env S W) (impl : (o : S.Op) → Prog T (S.Answer o))
    (good : V → Prop) (view : V → W) : Prop :=
  ∀ o v, good v → Achieves low (impl o) (fun answer v' =>
    answer = (high o (view v)).1 ∧ good v' ∧ view v' = (high o (view v)).2) v

variable {low : Env T V} {high : Env S W} {impl : (o : S.Op) → Prog T (S.Answer o)}
  {good : V → Prop} {view : V → W} {p : Prog S α} {out : α} {v v' : V} {w w' : W}

/-- A run of the program is one of the lowered program. -/
theorem Runs.lower (refines : Refines low high impl good view) (run : Runs high p w out w')
    (holds : good v) (here : view v = w) :
    ∃ v', Runs low (p.lower impl) v out v' ∧ good v' ∧ view v' = w' := by
  induction run generalizing v with
  | ret => exact ⟨v, .ret, holds, here⟩
  | op _ ih =>
    obtain ⟨answer, v₁, first, rfl, holds₁, next⟩ := refines _ v holds
    rw [here] at first next
    obtain ⟨v', rest, holds', there⟩ := ih holds₁ next
    exact ⟨v', first.seq rest, holds', there⟩
  | again _ _ ihRound ih =>
    obtain ⟨v₁, round, holds₁, next⟩ := ihRound holds here
    obtain ⟨v', rest, holds', there⟩ := ih holds₁ next
    exact ⟨v', .again round rest, holds', there⟩
  | leave _ _ ihRound ih =>
    obtain ⟨v₁, round, holds₁, next⟩ := ihRound holds here
    obtain ⟨v', rest, holds', there⟩ := ih holds₁ next
    exact ⟨v', .leave round rest, holds', there⟩

/-- A run of the lowered program is one of the program. -/
theorem Runs.raise (refines : Refines low high impl good view) (run : Runs low (p.lower impl) v out v')
    (holds : good v) : Runs high p (view v) out (view v') ∧ good v' := by
  induction p generalizing v v' with
  | ret value =>
    obtain ⟨rfl, rfl⟩ := runs_ret.mp run
    exact ⟨.ret, holds⟩
  | op o next ih =>
    obtain ⟨answer, v₁, first, rest⟩ := Runs.split run
    obtain ⟨answer', v₁', first', same, holds₁, there⟩ := refines o v holds
    obtain ⟨rfl, rfl⟩ := first.det first'
    obtain ⟨later, holds'⟩ := ih answer rest holds₁
    rw [there, same] at later
    exact ⟨.op later, holds'⟩
  | @loop σ β α body x next ihBody ih =>
    obtain ⟨last, v₁, looped, rest⟩ := Runs.loop_split run
    -- the rounds that have been made are those of the loop above
    let made (y : σ) (u : V) : Prop := good u ∧ ∀ w',
      Runs high (.loop body y next) (view u) out w' → Runs high (.loop body x next) (view v) out w'
    let left (last : β) (u : V) : Prop := good u ∧ ∀ w',
      Runs high (next last) (view u) out w' → Runs high (.loop body x next) (view v) out w'
    have again : ∀ y u z u', made y u → Runs low ((body y).lower impl) u (.inl z) u' → made z u' := by
      intro y u z u' so round
      obtain ⟨round', holds'⟩ := ihBody y round so.1
      exact ⟨holds', fun w' later => so.2 w' (.again round' later)⟩
    have leave : ∀ y u last u', made y u → Runs low ((body y).lower impl) u (.inr last) u' → left last u' := by
      intro y u last u' so round
      obtain ⟨round', holds'⟩ := ihBody y round so.1
      exact ⟨holds', fun w' later => so.2 w' (.leave round' later)⟩
    have rounds : left last v₁ := Runs.invariant again leave looped ⟨holds, fun _ run => run⟩
    obtain ⟨later, holds'⟩ := ih last rest rounds.1
    exact ⟨rounds.2 _ later, holds'⟩

section
variable {post : α → W → Prop}

/-- A lowered program returns with whatever the program returns with, and only then. -/
theorem Refines.achieves_iff (refines : Refines low high impl good view) (holds : good v) :
    Achieves low (p.lower impl) (fun out v' => good v' ∧ post out (view v')) v ↔
      Achieves high p post (view v) := by
  constructor
  · rintro ⟨out, v', run, _, reached⟩
    exact ⟨out, view v', (run.raise refines holds).1, reached⟩
  · rintro ⟨out, w', run, reached⟩
    obtain ⟨v', lowered, holds', rfl⟩ := run.lower refines holds rfl
    exact ⟨out, v', lowered, holds', reached⟩

theorem Refines.ensures_iff (refines : Refines low high impl good view) (holds : good v) :
    Ensures low (p.lower impl) (fun out v' => good v' ∧ post out (view v')) v ↔
      Ensures high p post (view v) := by
  constructor
  · intro whole out w' run
    obtain ⟨v', lowered, _, rfl⟩ := run.lower refines holds rfl
    exact (whole out v' lowered).2
  · intro whole out v' run
    obtain ⟨raised, holds'⟩ := run.raise refines holds
    exact ⟨holds', whole out _ raised⟩

end

end Yika.Program
