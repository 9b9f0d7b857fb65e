import Yika.Program.Spec

/-! What a program does on its way: every operation it performs meets a condition, whether
it returns or not. -/

namespace Yika.Program
variable {S : Signature} {W : Type} {α β σ : Type} {env : Env S W} {good : S.Op → W → Prop}
  {p q : Prog S α} {f : α → Prog S β} {post other : α → W → Prop} {after : β → W → Prop} {w : W}

/-- Every operation that `p` performs from `w` is performed in a state in which it is good. -/
def Safe (env : Env S W) (good : S.Op → W → Prop) (p : Prog S α) (w : W) : Prop :=
  ∀ o w', Visits env p w o w' → good o w'

/-- `p` is safe from `w` and returns, with `post`. -/
def Serves (env : Env S W) (good : S.Op → W → Prop) (p : Prog S α) (post : α → W → Prop) (w : W) :
    Prop :=
  Safe env good p w ∧ Achieves env p post w

theorem Serves.mono (holds : Serves env good p post w)
    (weaker : ∀ out w', post out w' → other out w') : Serves env good p other w :=
  ⟨holds.1, holds.2.mono weaker⟩

theorem Serves.weaken {looser : S.Op → W → Prop} (holds : Serves env good p post w)
    (weaker : ∀ o w', good o w' → looser o w') : Serves env looser p post w :=
  ⟨fun o w' visit => weaker o w' (holds.1 o w' visit), holds.2⟩

@[simp] theorem safe_pure {value : α} : Safe env good (pure value) w := by
  intro o w' visit
  cases visit

@[simp] theorem safe_perform {o : S.Op} : Safe env good (Prog.perform o) w ↔ good o w := by
  constructor
  · intro whole
    exact whole o w .here
  · intro holds o' w' visit
    cases visit with
    | here => exact holds
    | op visit => cases visit

@[simp] theorem safe_bind : Safe env good (p >>= f) w ↔
    Safe env good p w ∧ Ensures env p (fun value w₁ => Safe env good (f value) w₁) w := by
  constructor
  · intro whole
    exact ⟨fun o w' visit => whole o w' visit.early,
      fun value w₁ run o w' visit => whole o w' (run.visits visit)⟩
  · intro parts o w' visit
    rcases visits_bind.mp visit with first | ⟨value, w₁, run, rest⟩
    · exact parts.1 o w' first
    · exact parts.2 value w₁ run o w' rest

@[simp] theorem safe_ite {c : Prop} [Decidable c] :
    Safe env good (if c then p else q) w ↔
      (c → Safe env good p w) ∧ (¬c → Safe env good q w) := by
  by_cases h : c
  · simp [h]
  · simp [h]

@[simp] theorem safe_when {c : Prop} [Decidable c] {p : Prog S Unit} :
    Safe env good (Prog.when c p) w ↔ (c → Safe env good p w) :=
  safe_ite.trans (and_iff_left fun _ => safe_pure)

/-- A program all of whose operations are good ones is safe. -/
theorem Uses.safe {allowed : S.Op → Prop} (uses : Uses allowed p) :
    Safe env (fun o _ => allowed o) p w := fun _ _ visit => uses.visits_allowed visit

@[simp] theorem serves_pure {value : α} : Serves env good (pure value) post w ↔ post value w := by
  rw [Serves, achieves_pure]
  exact and_iff_right safe_pure

theorem serves_perform {o : S.Op} {post : S.Answer o → W → Prop} :
    Serves env good (Prog.perform o) post w ↔ good o w ∧ post (env o w).1 (env o w).2 := by
  rw [Serves, safe_perform, achieves_perform]

@[simp] theorem serves_bind :
    Serves env good (p >>= f) after w ↔
      Serves env good p (fun value w₁ => Serves env good (f value) after w₁) w := by
  constructor
  · intro whole
    obtain ⟨safe, returns⟩ := whole
    obtain ⟨value, w₁, run, rest⟩ := achieves_bind.mp returns
    obtain ⟨first, later⟩ := safe_bind.mp safe
    exact ⟨first, value, w₁, run, later value w₁ run, rest⟩
  · intro parts
    obtain ⟨first, value, w₁, run, late, rest⟩ := parts
    refine ⟨safe_bind.mpr ⟨first, ?_⟩, run.then_achieves rest⟩
    intro other w₂ second
    obtain ⟨rfl, rfl⟩ := run.det second
    exact late

@[simp] theorem serves_ite {c : Prop} [Decidable c] :
    Serves env good (if c then p else q) post w ↔
      (c → Serves env good p post w) ∧ (¬c → Serves env good q post w) := by
  by_cases h : c
  · simp [h]
  · simp [h]

@[simp] theorem serves_when {c : Prop} [Decidable c] {p : Prog S Unit} {post : Unit → W → Prop} :
    Serves env good (Prog.when c p) post w ↔ (c → Serves env good p post w) ∧ (¬c → post () w) :=
  serves_ite.trans (and_congr_right fun _ => imp_congr_right fun _ => serves_pure)

/-! Loops. -/

variable {body : σ → Prog S (σ ⊕ β)} {x : σ}

theorem safe_doWhile :
    Safe env good (Prog.doWhile body x) w ↔ Safe env good (body x) w ∧
      ∀ y w₁, Runs env (body x) w (.inl y) w₁ → Safe env good (Prog.doWhile body y) w₁ := by
  constructor
  · intro whole
    exact ⟨fun o w' visit => whole o w' (.body visit),
      fun y w₁ round o w' visit => whole o w' (.again round visit)⟩
  · intro parts o w' visit
    cases visit with
    | body visit => exact parts.1 o w' visit
    | again round visit => exact parts.2 _ _ round o w' visit
    | leave _ visit => cases visit

theorem Serves.doWhile (round : Serves env good (body x)
    (Sum.elim (fun y w₁ => Serves env good (Prog.doWhile body y) after w₁) after) w) :
    Serves env good (Prog.doWhile body x) after w := by
  obtain ⟨safe, returns⟩ := round
  constructor
  · rw [safe_doWhile]
    refine ⟨safe, ?_⟩
    intro y w₁ run
    exact (returns.ensures (.inl y) w₁ run).1
  · refine Achieves.doWhile (returns.mono ?_)
    intro step w₁ rest
    cases step with
    | inl y => exact rest.2
    | inr out => exact rest

/-- The invariant of a loop that may go on for ever. -/
theorem Safe.loop (inv : σ → W → Prop)
    (round : ∀ x w, inv x w → Safe env good (body x) w ∧
      Ensures env (body x) (Sum.elim inv fun _ _ => True) w)
    (start : inv x w) : Safe env good (Prog.doWhile body x) w := by
  intro o w' visit
  generalize whole : Prog.doWhile body x = p at visit
  induction visit generalizing x with
  | here => cases whole
  | op => cases whole
  | body visit _ =>
    cases whole
    exact (round _ _ start).1 _ _ visit
  | again first _ ih =>
    cases whole
    exact ih round ((round _ _ start).2 _ _ first) rfl
  | leave _ visit _ =>
    cases whole
    cases visit

theorem Safe.loop_mono {other : S.Op → W → Prop} (inv : σ → W → Prop)
    (round : ∀ x w, inv x w → Safe env good (body x) w →
      Safe env other (body x) w ∧ Ensures env (body x) (Sum.elim inv fun _ _ => True) w)
    (start : inv x w) (safe : Safe env good (Prog.doWhile body x) w) :
    Safe env other (Prog.doWhile body x) w := by
  refine Safe.loop (fun x w => inv x w ∧ Safe env good (Prog.doWhile body x) w) ?_ ⟨start, safe⟩
  intro x w before
  obtain ⟨first, later⟩ := safe_doWhile.mp before.2
  obtain ⟨holds, next⟩ := round x w before.1 first
  refine ⟨holds, ?_⟩
  intro out w' run
  cases out with
  | inl y => exact ⟨next _ _ run, later y w' run⟩
  | inr _ => trivial

/-- What a loop leaves behind that is safe all the way. -/
theorem Safe.loop_ensures (inv : σ → W → Prop)
    (round : ∀ x w, inv x w → Safe env good (body x) w →
      Ensures env (body x) (Sum.elim inv after) w)
    (start : inv x w) (safe : Safe env good (Prog.doWhile body x) w) :
    Ensures env (Prog.doWhile body x) after w := by
  refine ensures_doWhile (fun x w => inv x w ∧ Safe env good (Prog.doWhile body x) w) ?_
    ⟨start, safe⟩
  intro x w before out w' run
  obtain ⟨first, later⟩ := safe_doWhile.mp before.2
  have next := round x w before.1 first out w' run
  cases out with
  | inl y => exact ⟨next, later y w' run⟩
  | inr _ => exact next

theorem doWhile_safe (inv : σ → W → Prop)
    (round : ∀ x w, inv x w → Serves env good (body x) (Sum.elim inv after) w)
    (start : inv x w) : Safe env good (Prog.doWhile body x) w := by
  refine Safe.loop inv (fun y w₁ holds => ⟨(round y w₁ holds).1, ?_⟩) start
  refine (round y w₁ holds).2.ensures.mono fun next w₂ reached => ?_
  cases next with
  | inl _ => exact reached
  | inr _ => trivial

end Yika.Program
