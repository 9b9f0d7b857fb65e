import Yika.Program.Guard
import Yika.Program.Threads

/-! Programs that are disturbed: some of their operations may get other answers than they would get
if the program were left alone. One that heeds the disturbance only by returning performs, until it
does, just what it would have performed. -/

namespace Yika.Program
variable {S : Signature} {W V : Type} {α β σ : Type}

/-- For answers that are related by `R`, the one that is seen first, the program does the same or
returns at once, with a value that is for that. -/
def Heeds (R : (o : S.Op) → S.Answer o → S.Answer o → Prop) : {α : Type} → (α → Prop) → Prog S α → Prop
  | _, _, .ret _ => True
  | _, quit, .op o next =>
    (∀ seen own, R o seen own → next seen = next own ∨ ∃ value, next seen = .ret value ∧ quit value) ∧
      ∀ answer, Heeds R quit (next answer)
  | _, quit, .loop body _ next =>
    (∀ x, Heeds R (fun step => ∃ out value, step = .inr out ∧ next out = .ret value ∧ quit value) (body x)) ∧
      ∀ out, Heeds R quit (next out)

section
variable {R : (o : S.Op) → S.Answer o → S.Answer o → Prop} {quit other : α → Prop} {last : β → Prop}
  {p q : Prog S α} {f : α → Prog S β} {o : S.Op}

@[simp] theorem heeds_pure (value : α) : Heeds R quit (pure value : Prog S α) := trivial

theorem Heeds.mono (heeds : Heeds R quit p) (weaker : ∀ value, quit value → other value) : Heeds R other p := by
  induction p with
  | ret => trivial
  | op o next ih =>
    refine ⟨fun seen own related => ?_, fun answer => ih answer (heeds.2 answer) weaker⟩
    rcases heeds.1 seen own related with same | ⟨value, returned, quits⟩
    · exact .inl same
    · exact .inr ⟨value, returned, weaker value quits⟩
  | loop body x next ihBody ih =>
    refine ⟨fun y => ihBody y (heeds.1 y) ?_, fun out => ih out (heeds.2 out) weaker⟩
    rintro step ⟨out, value, left, returned, quits⟩
    exact ⟨out, value, left, returned, weaker value quits⟩

theorem Heeds.seq (first : Heeds R quit p) (stops : ∀ value, quit value → ∃ out, f value = .ret out ∧ last out)
    (rest : ∀ value, Heeds R last (f value)) : Heeds R last (p.bind f) := by
  induction p with
  | ret value => exact rest value
  | op o next ih =>
    refine ⟨fun seen own related => ?_, fun answer => ih answer (first.2 answer) stops rest⟩
    rcases first.1 seen own related with same | ⟨value, returned, quits⟩
    · exact .inl (congrArg (fun p => Prog.bind p f) same)
    · obtain ⟨out, stopped, lasts⟩ := stops value quits
      refine .inr ⟨out, ?_, lasts⟩
      change (next seen).bind f = _
      rw [returned]
      exact stopped
  | loop body x next _ ih =>
    refine ⟨fun y => (first.1 y).mono ?_, fun out => ih out (first.2 out) stops rest⟩
    rintro step ⟨out, value, left, returned, quits⟩
    obtain ⟨end', stopped, lasts⟩ := stops value quits
    refine ⟨out, end', left, ?_, lasts⟩
    change (next out).bind f = _
    rw [returned]
    exact stopped

/-- A part that does not heed the disturbance at all. -/
theorem heeds_bind (first : Heeds R (fun _ => False) p) (rest : ∀ value, Heeds R last (f value)) :
    Heeds R last (p >>= f) := first.seq (fun _ never => never.elim) rest

theorem heeds_perform_bind {f : S.Answer o → Prog S α}
    (reacts : ∀ seen own, R o seen own → f seen = f own ∨ ∃ value, f seen = pure value ∧ quit value)
    (rest : ∀ answer, Heeds R quit (f answer)) : Heeds R quit (Prog.perform o >>= f) := ⟨reacts, rest⟩

theorem heeds_ite {c : Prop} [Decidable c] (yes : Heeds R quit p) (no : Heeds R quit q) :
    Heeds R quit (if c then p else q) := by
  split
  next => exact yes
  next => exact no

theorem heeds_doWhile {body : σ → Prog S (σ ⊕ α)} {x : σ}
    (rounds : ∀ y, Heeds R (fun step => ∃ out, step = .inr out ∧ quit out) (body y)) :
    Heeds R quit (Prog.doWhile body x) := by
  refine ⟨fun y => (rounds y).mono ?_, fun _ => trivial⟩
  rintro step ⟨out, left, quits⟩
  exact ⟨out, out, left, rfl, quits⟩

theorem Heeds.turn {body : σ → Prog S (σ ⊕ β)} {x : σ} {next : β → Prog S α}
    (heeds : Heeds R quit (.loop body x next)) : Heeds R quit (Prog.turn body x next) := by
  refine (heeds.1 x).seq ?_ fun step => ?_
  · rintro step ⟨out, value, rfl, returned, quits⟩
    exact ⟨value, returned, quits⟩
  · cases step with
    | inl y => exact heeds
    | inr out => exact heeds.2 out

theorem Heeds.left {e : Event S} (heeds : Heeds R quit p) (takes : Takes p e q) : Heeds R quit q := by
  induction takes with
  | op => exact heeds.2 _
  | loop _ ih => exact ih heeds.turn

/-- The operation taken is the program's own, and what is left is, unless it is to return. -/
theorem Heeds.taken {seen own : S.Answer o} (heeds : Heeds R quit p) (takes : Takes p ⟨o, seen⟩ q)
    (related : R o seen own) : ∃ r, Takes p ⟨o, own⟩ r ∧ (q = r ∨ ∃ value, q = .ret value ∧ quit value) := by
  generalize event : (⟨o, seen⟩ : Event S) = e at takes
  induction takes with
  | op =>
    cases event
    exact ⟨_, .op, heeds.1 seen own related⟩
  | loop _ ih =>
    obtain ⟨r, taken, reacts⟩ := ih heeds.turn event
    exact ⟨r, .loop taken, reacts⟩

end

/-- A program in its environment and the same program left alone: its operations have the same effect
and related answers, the same ones as long as it is not told to stop. -/
structure Disturbance (S : Signature) (W V : Type) where
  env : Env S W
  own : Env S V
  sim : W → V → Prop
  stop : W → Prop
  related : (o : S.Op) → S.Answer o → S.Answer o → Prop
  answer : ∀ o w v, sim w v → related o (env o w).1 (own o v).1
  calm : ∀ o w v, sim w v → ¬stop w → (env o w).1 = (own o v).1
  state : ∀ o w v, sim w v → sim (env o w).2 (own o v).2
  keeps : ∀ o w, stop w → stop (env o w).2

variable {d : Disturbance S W V} {quit : α → Prop} {p q r : Prog S α} {w w' : W} {v v₀ v' : V} {out : α}

/-! A program that is disturbed, on its way. -/

theorem Reaches.heeds {env : Env S W} {w₀ : W} {related : (o : S.Op) → S.Answer o → S.Answer o → Prop}
    (reaches : Reaches env (p, w₀) (q, w)) (heeds : Heeds related quit p) : Heeds related quit q :=
  reaches.invariant (fun q _ => Heeds related quit q) (fun _ _ _ _ before takes => before.left takes) heeds

/-- What is left of the program is what would be left of it, at the same place, if it had been left
alone, unless it has returned because it was told to. -/
def Disturbance.Follows (d : Disturbance S W V) (quit : α → Prop) (p : Prog S α) (v₀ : V) (q : Prog S α)
    (w : W) : Prop :=
  ∃ r v, Reaches d.own (p, v₀) (r, v) ∧ d.sim w v ∧ (q = r ∨ (∃ value, q = .ret value ∧ quit value) ∧ d.stop w)

theorem Disturbance.Follows.start (here : d.sim w v₀) : d.Follows quit p v₀ p w :=
  ⟨p, v₀, .refl, here, .inl rfl⟩

theorem Disturbance.Follows.taken {o : S.Op} (follows : d.Follows quit p v₀ q w) (heeds : Heeds d.related quit p)
    (takes : Takes q ⟨o, (d.env o w).1⟩ r) : d.Follows quit p v₀ r (d.env o w).2 := by
  obtain ⟨q, v, reaches, here, rfl | ⟨⟨value, rfl, _⟩, _⟩⟩ := follows
  · obtain ⟨r', taken, reacts⟩ := (reaches.heeds heeds).taken takes (d.answer o w v here)
    refine ⟨r', (d.own o v).2, reaches.tail ⟨o, taken, rfl⟩, d.state o w v here, ?_⟩
    by_cases stopped : d.stop w
    · exact reacts.imp id fun quits => ⟨quits, d.keeps o w stopped⟩
    · rw [d.calm o w v here stopped] at takes
      exact .inl ((takes.same taken).2 rfl)
  · cases takes

theorem Disturbance.Follows.frame (follows : d.Follows quit p v₀ q w) (keeps : ∀ v, d.sim w v → d.sim w' v)
    (stops : d.stop w → d.stop w') : d.Follows quit p v₀ q w' := by
  obtain ⟨r, v, reaches, here, left⟩ := follows
  exact ⟨r, v, reaches, keeps v here, left.imp id fun quits => ⟨quits.1, stops quits.2⟩⟩

/-- What is performed is performed if the program is left alone. -/
theorem Disturbance.Follows.safe {good : S.Op → V → Prop} {e : Event S} (follows : d.Follows quit p v₀ q w)
    (safe : Safe d.own good p v₀) (takes : Takes q e r) : ∃ v, d.sim w v ∧ good e.1 v := by
  obtain ⟨q, v, reaches, here, rfl | ⟨⟨value, rfl, _⟩, _⟩⟩ := follows
  · exact ⟨v, here, safe e.1 v (reaches.visits (takes.visit v))⟩
  · cases takes

/-- What holds at every operation and at the end holds all the way. -/
theorem Disturbance.Follows.holds {good : V → Prop} (follows : d.Follows quit p v₀ q w)
    (productive : Productive p) (safe : Safe d.own (fun _ v => good v) p v₀)
    (ends : Ensures d.own p (fun _ v => good v) v₀) : ∃ v, d.sim w v ∧ good v := by
  obtain ⟨r, v, reaches, here, _⟩ := follows
  refine ⟨v, here, ?_⟩
  rcases (reaches.productive productive).next with ⟨value, returned⟩ | ⟨o, each⟩
  · exact ends value v (reaches.runs.mpr (returned.runs d.own v))
  · obtain ⟨q, taken⟩ := each (d.own o v).1
    exact safe o v (reaches.visits (taken.visit v))

end Yika.Program
