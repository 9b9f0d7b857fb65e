import Yika.Program.Spec

/-! How much a program does on its way: a measure of the state stays below some bound for as
long as the program goes on, whether it returns or not. -/

namespace Yika.Program
variable {S : Signature} {W : Type} {α β σ : Type} {env : Env S W} {μ : W → Nat}
  {p q : Prog S α} {f : α → Prog S β} {post other : α → W → Prop} {w : W}

/-- No operation that `p` performs from `w` finds the measure above some bound. -/
def Bounded (env : Env S W) (μ : W → Nat) (p : Prog S α) (w : W) : Prop :=
  ∃ bound, ∀ o w', Visits env p w o w' → μ w' ≤ bound

theorem bounded_union {γ : Type} {r : Prog S γ} {w₁ w₂ : W} {q : Prog S β}
    (first : Bounded env μ p w₁) (second : Bounded env μ q w₂)
    (parts : ∀ o w', Visits env r w o w' → Visits env p w₁ o w' ∨ Visits env q w₂ o w') :
    Bounded env μ r w := by
  obtain ⟨bound, first⟩ := first
  obtain ⟨bound', second⟩ := second
  refine ⟨max bound bound', ?_⟩
  intro o w' visit
  rcases parts o w' visit with early | late
  · exact Nat.le_trans (first o w' early) (Nat.le_max_left _ _)
  · exact Nat.le_trans (second o w' late) (Nat.le_max_right _ _)

/-- A program that returns performs finitely many operations. -/
theorem Runs.bounded {out : α} {w' : W} (run : Runs env p w out w') : Bounded env μ p w := by
  induction run with
  | ret =>
    refine ⟨0, ?_⟩
    intro o w' visit
    cases visit
  | @op _ o next w w' value _ ih =>
    obtain ⟨bound, rest⟩ := ih
    refine ⟨max (μ w) bound, ?_⟩
    intro o' w'' visit
    cases visit with
    | here => exact Nat.le_max_left _ _
    | op visit => exact Nat.le_trans (rest _ _ visit) (Nat.le_max_right _ _)
  | again first _ ihFirst ihRest =>
    apply bounded_union ihFirst ihRest
    intro o w'' visit
    cases visit with
    | body visit => exact Or.inl visit
    | again second visit =>
      obtain ⟨same, rfl⟩ := first.det second
      cases same
      exact Or.inr visit
    | leave second visit => cases (first.det second).1
  | leave first _ ihFirst ihRest =>
    apply bounded_union ihFirst ihRest
    intro o w'' visit
    cases visit with
    | body visit => exact Or.inl visit
    | again second visit => cases (first.det second).1
    | leave second visit =>
      obtain ⟨same, rfl⟩ := first.det second
      cases same
      exact Or.inr visit

theorem Achieves.bounded (returns : Achieves env p post w) : Bounded env μ p w := by
  obtain ⟨_, _, run, _⟩ := returns
  exact run.bounded

@[simp] theorem bounded_pure {value : α} : Bounded env μ (pure value) w :=
  (Runs.ret : Runs env (.ret value) w value w).bounded

@[simp] theorem bounded_perform {o : S.Op} : Bounded env μ (Prog.perform o) w :=
  (runs_perform.mpr ⟨rfl, rfl⟩).bounded

@[simp] theorem bounded_bind : Bounded env μ (p >>= f) w ↔
    Bounded env μ p w ∧ Ensures env p (fun value w₁ => Bounded env μ (f value) w₁) w := by
  constructor
  · intro whole
    obtain ⟨bound, whole⟩ := whole
    exact ⟨⟨bound, fun o w' visit => whole o w' visit.early⟩,
      fun value w₁ run => ⟨bound, fun o w' visit => whole o w' (run.visits visit)⟩⟩
  · intro parts
    obtain ⟨first, rest⟩ := parts
    by_cases returns : ∃ value w₁, Runs env p w value w₁
    · obtain ⟨value, w₁, run⟩ := returns
      apply bounded_union first (rest value w₁ run)
      intro o w' visit
      rcases visits_bind.mp visit with early | ⟨value', w₂, run', late⟩
      · exact Or.inl early
      · obtain ⟨rfl, rfl⟩ := run.det run'
        exact Or.inr late
    · apply bounded_union first first
      intro o w' visit
      rcases visits_bind.mp visit with early | ⟨value, w₁, run, _⟩
      · exact Or.inl early
      · exact absurd ⟨value, w₁, run⟩ returns

@[simp] theorem bounded_map {g : α → β} : Bounded env μ (g <$> p) w ↔ Bounded env μ p w := by
  rw [← bind_pure_comp, bounded_bind]
  exact and_iff_left fun _ _ _ => bounded_pure

@[simp] theorem bounded_ite {c : Prop} [Decidable c] :
    Bounded env μ (if c then p else q) w ↔ (c → Bounded env μ p w) ∧ (¬c → Bounded env μ q w) := by
  by_cases h : c
  · simp [h]
  · simp [h]

@[simp] theorem bounded_when {c : Prop} [Decidable c] {p : Prog S Unit} :
    Bounded env μ (Prog.when c p) w ↔ (c → Bounded env μ p w) :=
  bounded_ite.trans (and_iff_left fun _ => bounded_pure)

theorem ensures_anything : Ensures env p (fun _ _ => True) w := fun _ _ _ => trivial

/-- What a program ensures when it is known how it returns. -/
theorem Achieves.ensures_iff {c : Prop} (returns : Achieves env p post w)
    (agree : ∀ value w₁, post value w₁ → (other value w₁ ↔ c)) : Ensures env p other w ↔ c := by
  obtain ⟨value, w₁, run, reached⟩ := returns
  constructor
  · intro holds
    exact (agree value w₁ reached).mp (holds value w₁ run)
  · intro holds value' w₂ second
    obtain ⟨rfl, rfl⟩ := run.det second
    exact (agree value w₁ reached).mpr holds

/-! Loops. -/

variable {body : σ → Prog S (σ ⊕ β)} {x : σ}

theorem bounded_doWhile : Bounded env μ (Prog.doWhile body x) w ↔ Bounded env μ (body x) w ∧
    ∀ y w₁, Runs env (body x) w (.inl y) w₁ → Bounded env μ (Prog.doWhile body y) w₁ := by
  constructor
  · intro whole
    obtain ⟨bound, whole⟩ := whole
    exact ⟨⟨bound, fun o w' visit => whole o w' (.body visit)⟩,
      fun y w₁ round => ⟨bound, fun o w' visit => whole o w' (.again round visit)⟩⟩
  · intro parts
    obtain ⟨first, rest⟩ := parts
    by_cases further : ∃ y w₁, Runs env (body x) w (.inl y) w₁
    · obtain ⟨y, w₁, round⟩ := further
      apply bounded_union first (rest y w₁ round)
      intro o w' visit
      cases visit with
      | body visit => exact Or.inl visit
      | again round' visit =>
        obtain ⟨same, rfl⟩ := round.det round'
        cases same
        exact Or.inr visit
      | leave _ visit => cases visit
    · apply bounded_union first first
      intro o w' visit
      cases visit with
      | body visit => exact Or.inl visit
      | again round _ => exact absurd ⟨_, _, round⟩ further
      | leave _ visit => cases visit

/-- The invariant of a loop, with a measure of its locals that falls in every round that goes on. -/
theorem Bounded.loop (inv : σ → W → Prop) (falls : σ → Nat)
    (round : ∀ x w, inv x w → Bounded env μ (body x) w ∧
      Ensures env (body x) (Sum.elim (fun y w' => inv y w' ∧ falls y < falls x) fun _ _ => True) w)
    (start : inv x w) : Bounded env μ (Prog.doWhile body x) w := by
  induction left : falls x using Nat.strongRecOn generalizing x w with
  | ind n ih =>
    obtain ⟨first, next⟩ := round x w start
    refine bounded_doWhile.mpr ⟨first, ?_⟩
    intro y w₁ run
    obtain ⟨holds, less⟩ : inv y w₁ ∧ falls y < falls x := next _ _ run
    exact ih _ (left ▸ less) holds rfl

/-- A loop that goes on for ever and does something in every round. -/
theorem doWhile_unbounded (inv : σ → W → Prop)
    (round : ∀ x w, inv x w → (∃ o, Visits env (body x) w o w) ∧
      Achieves env (body x) (Sum.elim (fun y w' => inv y w' ∧ μ w < μ w') fun _ _ => False) w)
    (start : inv x w) : ¬Bounded env μ (Prog.doWhile body x) w := by
  intro bounded
  obtain ⟨bound, below⟩ := bounded
  have reaches (n : Nat) {x : σ} {w : W} (holds : inv x w) :
      ∃ o w', Visits env (Prog.doWhile body x) w o w' ∧ μ w + n ≤ μ w' := by
    induction n generalizing x w with
    | zero =>
      obtain ⟨⟨o, here⟩, _⟩ := round x w holds
      exact ⟨o, w, .body here, Nat.le_refl _⟩
    | succ n ih =>
      obtain ⟨_, next, w₁, run, after⟩ := round x w holds
      cases next with
      | inr _ => cases after
      | inl y =>
        obtain ⟨o, w', visit, climbed⟩ := ih after.1
        have step : μ w < μ w₁ := after.2
        exact ⟨o, w', .again run visit, by omega⟩
  obtain ⟨o, w', visit, high⟩ := reaches (bound + 1) start
  have low := below o w' visit
  omega

end Yika.Program
