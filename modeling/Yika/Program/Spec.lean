import Yika.Program.Rules

/-! Specifications of programs as conditions on the starting state: what holds whenever the
program returns, and what it does return with. Both compute through sequencing, so a
straight line is specified by `simp`. -/

namespace Yika.Program
variable {S : Signature} {W : Type} {α β σ : Type}

/-- Whenever `p` returns from `w`, it does so with `post`. -/
def Ensures (env : Env S W) (p : Prog S α) (post : α → W → Prop) (w : W) : Prop :=
  ∀ out w', Runs env p w out w' → post out w'

/-- `p` returns from `w`, with `post`. -/
def Achieves (env : Env S W) (p : Prog S α) (post : α → W → Prop) (w : W) : Prop :=
  ∃ out w', Runs env p w out w' ∧ post out w'

variable {env : Env S W} {p q : Prog S α} {f : α → Prog S β} {post other : α → W → Prop}
  {after : β → W → Prop} {w : W}

/-! Partial correctness. -/

@[simp] theorem ensures_pure {value : α} : Ensures env (pure value) post w ↔ post value w := by
  simp [Ensures]

@[simp] theorem ensures_bind :
    Ensures env (p >>= f) after w ↔
      Ensures env p (fun value w₁ => Ensures env (f value) after w₁) w := by
  constructor
  · intro whole value w₁ first out w' rest
    exact whole out w' (first.seq rest)
  · intro parts out w' run
    obtain ⟨value, w₁, first, rest⟩ := runs_bind.mp run
    exact parts value w₁ first out w' rest

@[simp] theorem ensures_map {f : α → β} :
    Ensures env (f <$> p) after w ↔ Ensures env p (fun value w₁ => after (f value) w₁) w := by
  rw [← bind_pure_comp, ensures_bind]
  simp only [ensures_pure]

theorem ensures_perform {o : S.Op} {post : S.Answer o → W → Prop} :
    Ensures env (Prog.perform o) post w ↔ post (env o w).1 (env o w).2 := by
  simp [Ensures]

@[simp] theorem ensures_ite {c : Prop} [Decidable c] :
    Ensures env (if c then p else q) post w ↔
      (c → Ensures env p post w) ∧ (¬c → Ensures env q post w) := by
  by_cases h : c
  · simp [h]
  · simp [h]

@[simp] theorem ensures_when {c : Prop} [Decidable c] {p : Prog S Unit} {post : Unit → W → Prop} :
    Ensures env (Prog.when c p) post w ↔ (c → Ensures env p post w) ∧ (¬c → post () w) :=
  ensures_ite.trans (and_congr_right fun _ => imp_congr_right fun _ => ensures_pure)

theorem Ensures.mono (holds : Ensures env p post w) (weaker : ∀ out w', post out w' → other out w') :
    Ensures env p other w := fun out w' run => weaker out w' (holds out w' run)

/-- The invariant of a loop. -/
theorem ensures_doWhile {body : σ → Prog S (σ ⊕ β)} (inv : σ → W → Prop)
    (round : ∀ x w, inv x w → Ensures env (body x) (Sum.elim inv after) w)
    {x : σ} (start : inv x w) : Ensures env (Prog.doWhile body x) after w := by
  intro out w' run
  have again : ∀ x w y w', inv x w → Runs env (body x) w (.inl y) w' → inv y w' :=
    fun x w y w' holds step => round x w holds (.inl y) w' step
  have leave : ∀ x w out w', inv x w → Runs env (body x) w (.inr out) w' → after out w' :=
    fun x w out w' holds step => round x w holds (.inr out) w' step
  exact Runs.invariant again leave run start

/-! Quantities a program does not change. -/

/-- From every state, whenever `p` returns, `view` has the value it had. -/
def Keeps {δ : Type} (env : Env S W) (view : W → δ) (p : Prog S α) : Prop :=
  ∀ w, Ensures env p (fun _ w' => view w' = view w) w

section
variable {δ : Type} {view : W → δ}

theorem keeps_pure (value : α) : Keeps env view (pure value : Prog S α) :=
  fun _ => ensures_pure.mpr rfl

theorem Keeps.bind (first : Keeps env view p) (rest : ∀ value, Keeps env view (f value)) :
    Keeps env view (p >>= f) := by
  intro w
  rw [ensures_bind]
  intro value w₁ run₁ out w' run
  exact (rest value w₁ out w' run).trans (first w value w₁ run₁)

theorem keeps_ite {c : Prop} [Decidable c] (yes : Keeps env view p) (no : Keeps env view q) :
    Keeps env view (if c then p else q) := by
  split
  next => exact yes
  next => exact no

theorem keeps_when {c : Prop} [Decidable c] {p : Prog S Unit} (holds : Keeps env view p) :
    Keeps env view (Prog.when c p) := keeps_ite holds (keeps_pure ())

theorem keeps_doWhile {body : σ → Prog S (σ ⊕ β)} (rounds : ∀ x, Keeps env view (body x)) (x : σ) :
    Keeps env view (Prog.doWhile body x) := by
  intro w
  have round : ∀ y w₁, view w₁ = view w → Ensures env (body y)
      (Sum.elim (fun _ w' => view w' = view w) (fun _ w' => view w' = view w)) w₁ := by
    intro y w₁ same step w' run
    have kept := (rounds y w₁ step w' run).trans same
    cases step with
    | inl _ => exact kept
    | inr _ => exact kept
  exact ensures_doWhile (fun _ w' => view w' = view w) round rfl

theorem Uses.keeps {allowed : S.Op → Prop} (uses : Uses allowed p)
    (keeps : ∀ o w, allowed o → view (env o w).2 = view w) : Keeps env view p :=
  fun _ _ _ run => uses.frame view keeps run

end

/-! What holds throughout an execution. -/

/-- After every operation that counts and that `p` performs from `w`, the state is good. -/
def Throughout (env : Env S W) (counts : S.Op → Prop) (good : W → Prop) (p : Prog S α) (w : W) : Prop :=
  ∀ o w', Visits env p w o w' → counts o → good (env o w').2

theorem throughout_bind {counts : S.Op → Prop} {good : W → Prop} :
    Throughout env counts good (p >>= f) w ↔ Throughout env counts good p w ∧
      Ensures env p (fun value w₁ => Throughout env counts good (f value) w₁) w := by
  constructor
  · intro whole
    have rest : Ensures env p (fun value w₁ => Throughout env counts good (f value) w₁) w :=
      fun value w₁ run o w' visit => whole o w' (run.visits visit)
    exact ⟨fun o w' visit => whole o w' visit.early, rest⟩
  · intro parts o w' visit
    rcases visits_bind.mp visit with early | ⟨value, w₁, run, late⟩
    · exact parts.1 o w' early
    · exact parts.2 value w₁ run o w' late

/-! Operations a program does not perform from a state. -/

/-- The execution of `p` from `w` performs no operation with `bad`. -/
def Avoids (env : Env S W) (bad : S.Op → Prop) (p : Prog S α) (w : W) : Prop :=
  ∀ o w', Visits env p w o w' → ¬bad o

section
variable {bad : S.Op → Prop}

theorem avoids_pure (value : α) : Avoids env bad (pure value : Prog S α) w := by
  intro o w' visit
  cases visit

theorem avoids_bind :
    Avoids env bad (p >>= f) w ↔
      Avoids env bad p w ∧ Ensures env p (fun value w₁ => Avoids env bad (f value) w₁) w :=
  @throughout_bind S W α β env p f w bad fun _ => False

theorem Uses.avoids {allowed : S.Op → Prop} (uses : Uses allowed p)
    (good : ∀ o, allowed o → ¬bad o) : Avoids env bad p w :=
  fun o _ visit => good o (uses.visits_allowed visit)

end

/-! Total correctness. -/

@[simp] theorem achieves_pure {value : α} : Achieves env (pure value) post w ↔ post value w := by
  constructor
  · intro given
    obtain ⟨out, w', run, holds⟩ := given
    obtain ⟨rfl, rfl⟩ := runs_pure.mp run
    exact holds
  · exact fun holds => ⟨value, w, runs_pure.mpr ⟨rfl, rfl⟩, holds⟩

@[simp] theorem achieves_bind :
    Achieves env (p >>= f) after w ↔
      Achieves env p (fun value w₁ => Achieves env (f value) after w₁) w := by
  constructor
  · intro given
    obtain ⟨out, w', run, holds⟩ := given
    obtain ⟨value, w₁, first, rest⟩ := runs_bind.mp run
    exact ⟨value, w₁, first, out, w', rest, holds⟩
  · intro given
    obtain ⟨value, w₁, first, out, w', rest, holds⟩ := given
    exact ⟨out, w', first.seq rest, holds⟩

theorem Runs.then_achieves {value : α} {w₁ : W} (first : Runs env p w value w₁)
    (rest : Achieves env (f value) after w₁) : Achieves env (p >>= f) after w :=
  achieves_bind.mpr ⟨value, w₁, first, rest⟩

@[simp] theorem achieves_map {f : α → β} :
    Achieves env (f <$> p) after w ↔ Achieves env p (fun value w₁ => after (f value) w₁) w := by
  rw [← bind_pure_comp, achieves_bind]
  simp only [achieves_pure]

theorem achieves_perform {o : S.Op} {post : S.Answer o → W → Prop} :
    Achieves env (Prog.perform o) post w ↔ post (env o w).1 (env o w).2 := by
  constructor
  · intro given
    obtain ⟨out, w', run, holds⟩ := given
    obtain ⟨rfl, rfl⟩ := runs_perform.mp run
    exact holds
  · exact fun holds => ⟨_, _, runs_perform.mpr ⟨rfl, rfl⟩, holds⟩

@[simp] theorem achieves_ite {c : Prop} [Decidable c] :
    Achieves env (if c then p else q) post w ↔
      (c → Achieves env p post w) ∧ (¬c → Achieves env q post w) := by
  by_cases h : c
  · simp [h]
  · simp [h]

@[simp] theorem achieves_when {c : Prop} [Decidable c] {p : Prog S Unit} {post : Unit → W → Prop} :
    Achieves env (Prog.when c p) post w ↔ (c → Achieves env p post w) ∧ (¬c → post () w) :=
  achieves_ite.trans (and_congr_right fun _ => imp_congr_right fun _ => achieves_pure)

theorem Achieves.mono (holds : Achieves env p post w)
    (weaker : ∀ out w', post out w' → other out w') : Achieves env p other w := by
  obtain ⟨out, w', run, reached⟩ := holds
  exact ⟨out, w', run, weaker out w' reached⟩

/-- The only return is the one that is achieved. -/
theorem Achieves.ensures (returns : Achieves env p post w) : Ensures env p post w := by
  obtain ⟨out, w', run, reached⟩ := returns
  intro other w'' second
  obtain ⟨rfl, rfl⟩ := run.det second
  exact reached

/-- The invariant of a loop, with a measure that falls in every round that goes on. -/
theorem achieves_doWhile {body : σ → Prog S (σ ⊕ β)} (inv : σ → W → Prop)
    (measure : σ → W → Nat) (round : ∀ x w, inv x w → Achieves env (body x)
      (Sum.elim (fun y w' => inv y w' ∧ measure y w' < measure x w) after) w)
    {x : σ} (start : inv x w) : Achieves env (Prog.doWhile body x) after w := by
  refine doWhile_returns measure ?_ start
  intro x w holds
  obtain ⟨step, w', run, reached⟩ := round x w holds
  cases step with
  | inl y => exact .inl ⟨y, w', run, reached⟩
  | inr out => exact .inr ⟨out, w', run, reached⟩

/-- A loop, from what its first round leaves of it. -/
theorem Achieves.doWhile {body : σ → Prog S (σ ⊕ β)} {x : σ} (round : Achieves env (body x)
    (Sum.elim (fun y w₁ => Achieves env (Prog.doWhile body y) after w₁) after) w) :
    Achieves env (Prog.doWhile body x) after w := by
  obtain ⟨step, w₁, run, rest⟩ := round
  cases step with
  | inl y =>
    obtain ⟨out, w', later, holds⟩ := rest
    exact ⟨out, w', runs_doWhile.mpr (.inr ⟨y, w₁, run, later⟩), holds⟩
  | inr out => exact ⟨out, w₁, runs_doWhile.mpr (.inl run), rest⟩

theorem achieves_forRange {body : Nat → Prog S Unit} (inv : Nat → W → Prop) {first count : Nat}
    (each : ∀ i w, first ≤ i → i < first + count → inv i w →
      Achieves env (body i) (fun _ w' => inv (i + 1) w') w)
    (start : inv first w) :
    Achieves env (Prog.forRange body first count) (fun _ w' => inv (first + count) w') w := by
  induction count generalizing first w with
  | zero => exact achieves_pure.mpr start
  | succ count ih =>
    rw [forRange_succ, achieves_bind]
    apply (each first w (Nat.le_refl first) (by omega) start).mono
    intro _ w₁ next
    have later : ∀ i w, first + 1 ≤ i → i < first + 1 + count → inv i w →
        Achieves env (body i) (fun _ w' => inv (i + 1) w') w :=
      fun i w low high => each i w (by omega) (by omega)
    rw [show first + (count + 1) = first + 1 + count by omega]
    exact ih later next

end Yika.Program
