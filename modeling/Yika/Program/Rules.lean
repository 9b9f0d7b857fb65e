import Yika.Program.Basic

/-! Rules for the runs of interactive programs: sequencing, loops, frames read off the
operations a program uses, and the executor. -/

namespace Yika.Program
variable {S : Signature} {W : Type} {α β γ σ : Type} {env : Env S W}

/-! Sequencing. -/

@[simp] theorem runs_ret {value out : α} {w w' : W} :
    Runs env (.ret value) w out w' ↔ out = value ∧ w' = w := by
  constructor
  · intro run
    cases run
    exact ⟨rfl, rfl⟩
  · intro given
    obtain ⟨rfl, rfl⟩ := given
    exact .ret

@[simp] theorem runs_pure {value out : α} {w w' : W} :
    Runs env (pure value) w out w' ↔ out = value ∧ w' = w := runs_ret

@[simp] theorem runs_op {o : S.Op} {next : S.Answer o → Prog S α} {out : α} {w w' : W} :
    Runs env (.op o next) w out w' ↔ Runs env (next (env o w).1) (env o w).2 out w' := by
  constructor
  · intro run
    cases run
    assumption
  · exact .op

@[simp] theorem runs_perform {o : S.Op} {out : S.Answer o} {w w' : W} :
    Runs env (Prog.perform o) w out w' ↔ out = (env o w).1 ∧ w' = (env o w).2 := by
  simp only [Prog.perform, runs_op, runs_ret]

theorem Runs.seq {p : Prog S α} {f : α → Prog S β} {value : α} {out : β} {w w₁ w' : W}
    (first : Runs env p w value w₁) (rest : Runs env (f value) w₁ out w') :
    Runs env (p.bind f) w out w' := by
  induction first with
  | ret => exact rest
  | op _ ih => exact .op (ih rest)
  | again body _ _ ih => exact .again body (ih rest)
  | leave body _ _ ih => exact .leave body (ih rest)

/-- A loop with a continuation is the loop, then the continuation. -/
theorem Runs.loop_split {body : σ → Prog S (σ ⊕ β)} {x : σ} {next : β → Prog S α} {out : α}
    {w w' : W} (run : Runs env (.loop body x next) w out w') :
    ∃ last w₁, Runs env (Prog.doWhile body x) w last w₁ ∧ Runs env (next last) w₁ out w' := by
  generalize whole : Prog.loop body x next = p at run
  induction run generalizing x with
  | ret => cases whole
  | op => cases whole
  | again round _ _ ih =>
    cases whole
    obtain ⟨last, w₁, looped, rest⟩ := ih rfl
    exact ⟨last, w₁, .again round looped, rest⟩
  | leave round rest _ _ =>
    cases whole
    exact ⟨_, _, .leave round .ret, rest⟩

theorem Runs.split {p : Prog S α} {f : α → Prog S β} {out : β} {w w' : W}
    (run : Runs env (p.bind f) w out w') :
    ∃ value w₁, Runs env p w value w₁ ∧ Runs env (f value) w₁ out w' := by
  induction p generalizing w with
  | ret value => exact ⟨value, w, .ret, run⟩
  | op o next ih =>
    simp only [Prog.bind, runs_op] at run
    obtain ⟨value, w₁, first, last⟩ := ih _ run
    exact ⟨value, w₁, .op first, last⟩
  | loop body x next _ ih =>
    obtain ⟨out, w₁, looped, rest⟩ := Runs.loop_split run
    obtain ⟨value, w₂, first, last⟩ := ih out rest
    exact ⟨value, w₂, looped.seq first, last⟩

@[simp] theorem runs_bind {p : Prog S α} {f : α → Prog S β} {out : β} {w w' : W} :
    Runs env (p >>= f) w out w' ↔
      ∃ value w₁, Runs env p w value w₁ ∧ Runs env (f value) w₁ out w' :=
  ⟨Runs.split, fun ⟨_, _, first, rest⟩ => first.seq rest⟩

@[simp] theorem runs_map {p : Prog S α} {f : α → β} {out : β} {w w' : W} :
    Runs env (f <$> p) w out w' ↔ ∃ value, Runs env p w value w' ∧ out = f value := by
  rw [← bind_pure_comp, runs_bind]
  constructor
  · intro given
    obtain ⟨value, w₁, run, last⟩ := given
    obtain ⟨same, rfl⟩ := runs_pure.mp last
    exact ⟨value, run, same⟩
  · intro given
    obtain ⟨value, run, same⟩ := given
    exact ⟨value, w', run, runs_pure.mpr ⟨same, rfl⟩⟩

theorem Visits.early {p : Prog S α} {f : α → Prog S β} {o : S.Op} {w w' : W}
    (visit : Visits env p w o w') : Visits env (p.bind f) w o w' := by
  induction visit with
  | here => exact .here
  | op _ ih => exact .op ih
  | body visit _ => exact .body visit
  | again round _ ih => exact .again round ih
  | leave round _ ih => exact .leave round ih

theorem Runs.visits {p : Prog S α} {f : α → Prog S β} {value : α} {o : S.Op} {w w₁ w' : W}
    (run : Runs env p w value w₁) (visit : Visits env (f value) w₁ o w') :
    Visits env (p.bind f) w o w' := by
  induction run with
  | ret => exact visit
  | op _ ih => exact .op (ih visit)
  | again round _ _ ih => exact .again round (ih visit)
  | leave round _ _ ih => exact .leave round (ih visit)

/-- An operation of a loop with a continuation is one of the loop or of the continuation. -/
theorem Visits.loop_split {body : σ → Prog S (σ ⊕ β)} {x : σ} {next : β → Prog S α} {o : S.Op}
    {w w' : W} (visit : Visits env (.loop body x next) w o w') :
    Visits env (Prog.doWhile body x) w o w' ∨
      ∃ out w₁, Runs env (Prog.doWhile body x) w out w₁ ∧ Visits env (next out) w₁ o w' := by
  generalize whole : Prog.loop body x next = p at visit
  induction visit generalizing x with
  | here => cases whole
  | op => cases whole
  | body visit _ =>
    cases whole
    exact .inl (.body visit)
  | again round _ ih =>
    cases whole
    rcases ih rfl with visit | ⟨out, w₁, looped, visit⟩
    · exact .inl (.again round visit)
    · exact .inr ⟨out, w₁, .again round looped, visit⟩
  | leave round visit _ =>
    cases whole
    exact .inr ⟨_, _, .leave round .ret, visit⟩

theorem Visits.split {p : Prog S α} {f : α → Prog S β} {o : S.Op} {w w' : W}
    (visit : Visits env (p.bind f) w o w') :
    Visits env p w o w' ∨ ∃ value w₁, Runs env p w value w₁ ∧ Visits env (f value) w₁ o w' := by
  induction p generalizing w with
  | ret value => exact .inr ⟨value, w, .ret, visit⟩
  | op o' next ih =>
    cases visit with
    | here => exact .inl .here
    | op visit =>
      rcases ih _ visit with early | ⟨value, w₁, run, late⟩
      · exact .inl (.op early)
      · exact .inr ⟨value, w₁, .op run, late⟩
  | loop body x next _ ih =>
    rcases Visits.loop_split visit with looping | ⟨out, w₁, looped, visit⟩
    · exact .inl looping.early
    · rcases ih out visit with early | ⟨value, w₂, run, late⟩
      · exact .inl (looped.visits early)
      · exact .inr ⟨value, w₂, looped.seq run, late⟩

theorem visits_bind {p : Prog S α} {f : α → Prog S β} {o : S.Op} {w w' : W} :
    Visits env (p >>= f) w o w' ↔
      Visits env p w o w' ∨ ∃ value w₁, Runs env p w value w₁ ∧ Visits env (f value) w₁ o w' := by
  constructor
  · exact Visits.split
  · intro visit
    rcases visit with early | ⟨value, w₁, run, late⟩
    · exact early.early
    · exact run.visits late

theorem runs_when {c : Prop} [Decidable c] {p : Prog S Unit} {w w' : W} :
    Runs env (Prog.when c p) w () w' ↔ if c then Runs env p w () w' else w' = w := by
  unfold Prog.when
  split <;> simp

/-- An environment is deterministic, so a program has at most one run from a state. -/
theorem Runs.det {p : Prog S α} {value other : α} {w w' w'' : W}
    (run : Runs env p w value w') (second : Runs env p w other w'') :
    value = other ∧ w' = w'' := by
  induction run generalizing w'' with
  | ret =>
    cases second
    exact ⟨rfl, rfl⟩
  | op _ ih =>
    cases second with
    | op rest => exact ih rest
  | again _ _ ihBody ih =>
    cases second with
    | again body rest =>
      obtain ⟨same, rfl⟩ := ihBody body
      cases same
      exact ih rest
    | leave body rest => cases (ihBody body).1
  | leave _ _ ihBody ih =>
    cases second with
    | again body rest => cases (ihBody body).1
    | leave body rest =>
      obtain ⟨same, rfl⟩ := ihBody body
      cases same
      exact ih rest

/-! Loops. -/

theorem runs_doWhile {body : σ → Prog S (σ ⊕ β)} {x : σ} {out : β} {w w' : W} :
    Runs env (Prog.doWhile body x) w out w' ↔
      Runs env (body x) w (.inr out) w' ∨
        ∃ y w₁, Runs env (body x) w (.inl y) w₁ ∧ Runs env (Prog.doWhile body y) w₁ out w' := by
  constructor
  · intro run
    cases run with
    | again round rest => exact .inr ⟨_, _, round, rest⟩
    | leave round rest =>
      obtain ⟨rfl, rfl⟩ := runs_ret.mp rest
      exact .inl round
  · intro given
    rcases given with round | ⟨y, w₁, round, rest⟩
    · exact .leave round .ret
    · exact .again round rest

/-- What every round preserves holds when the loop is left. -/
theorem Runs.invariant {body : σ → Prog S (σ ⊕ β)} {inv : σ → W → Prop} {post : β → W → Prop}
    (again : ∀ x w y w', inv x w → Runs env (body x) w (.inl y) w' → inv y w')
    (leave : ∀ x w out w', inv x w → Runs env (body x) w (.inr out) w' → post out w')
    {x : σ} {w w' : W} {out : β} (run : Runs env (Prog.doWhile body x) w out w')
    (start : inv x w) : post out w' := by
  generalize whole : Prog.doWhile body x = p at run
  induction run generalizing x with
  | ret => cases whole
  | op => cases whole
  | again round _ _ ih =>
    cases whole
    exact ih again leave (again _ _ _ _ start round) rfl
  | leave round rest _ _ =>
    cases whole
    obtain ⟨rfl, rfl⟩ := runs_ret.mp rest
    exact leave _ _ _ _ start round

/-- A loop whose rounds all return and decrease a measure returns. -/
theorem doWhile_returns {body : σ → Prog S (σ ⊕ β)} {inv : σ → W → Prop} {post : β → W → Prop}
    (measure : σ → W → Nat)
    (round : ∀ x w, inv x w →
      (∃ y w', Runs env (body x) w (.inl y) w' ∧ inv y w' ∧ measure y w' < measure x w) ∨
        ∃ out w', Runs env (body x) w (.inr out) w' ∧ post out w')
    {x : σ} {w : W} (start : inv x w) :
    ∃ out w', Runs env (Prog.doWhile body x) w out w' ∧ post out w' := by
  induction bound : measure x w using Nat.strongRecOn generalizing x w with
  | ind n ih =>
    rcases round x w start with ⟨y, w₁, run, next, smaller⟩ | ⟨out, w', run, holds⟩
    · obtain ⟨out, w', rest, holds⟩ := ih (measure y w₁) (bound ▸ smaller) next rfl
      exact ⟨out, w', runs_doWhile.mpr (.inr ⟨y, w₁, run, rest⟩), holds⟩
    · exact ⟨out, w', runs_doWhile.mpr (.inl run), holds⟩

@[simp] theorem forRange_zero (body : Nat → Prog S Unit) (first : Nat) :
    Prog.forRange body first 0 = pure () := rfl

@[simp] theorem forRange_succ (body : Nat → Prog S Unit) (first count : Nat) :
    Prog.forRange body first (count + 1) =
      (body first >>= fun _ => Prog.forRange body (first + 1) count) := rfl

/-! Frames. -/

section
variable {allowed other : S.Op → Prop}

@[simp] theorem uses_ret (value : α) : Uses allowed (.ret value : Prog S α) := trivial

@[simp] theorem uses_pure (value : α) : Uses allowed (pure value : Prog S α) := trivial

@[simp] theorem uses_perform {o : S.Op} : Uses allowed (Prog.perform o) ↔ allowed o :=
  ⟨fun uses => uses.1, fun permitted => ⟨permitted, fun _ => trivial⟩⟩

theorem Uses.seq {p : Prog S α} {f : α → Prog S β} (first : Uses allowed p)
    (rest : ∀ value, Uses allowed (f value)) : Uses allowed (p.bind f) := by
  induction p with
  | ret value => exact rest value
  | op o next ih => exact ⟨first.1, fun answer => ih answer (first.2 answer) rest⟩
  | loop body locals next _ ih => exact ⟨first.1, fun out => ih out (first.2 out) rest⟩

theorem uses_bind {p : Prog S α} {f : α → Prog S β} (first : Uses allowed p)
    (rest : ∀ value, Uses allowed (f value)) : Uses allowed (p >>= f) := first.seq rest

@[simp] theorem uses_map {p : Prog S α} {f : α → β} :
    Uses allowed (f <$> p) ↔ Uses allowed p := by
  rw [← bind_pure_comp]
  constructor
  · intro uses
    induction p with
    | ret => trivial
    | op o next ih => exact ⟨uses.1, fun answer => ih answer (uses.2 answer)⟩
    | loop body locals next _ ih => exact ⟨uses.1, fun out => ih out (uses.2 out)⟩
  · exact fun uses => uses_bind uses (fun _ => trivial)

theorem uses_perform_bind {o : S.Op} {f : S.Answer o → Prog S α} :
    Uses allowed (Prog.perform o >>= f) ↔ allowed o ∧ ∀ answer, Uses allowed (f answer) := Iff.rfl

@[simp] theorem uses_doWhile {body : σ → Prog S (σ ⊕ β)} {x : σ} :
    Uses allowed (Prog.doWhile body x) ↔ ∀ y, Uses allowed (body y) :=
  ⟨fun uses => uses.1, fun rounds => ⟨rounds, fun _ => trivial⟩⟩

@[simp] theorem uses_doWhile_bind {body : σ → Prog S (σ ⊕ β)} {x : σ} {f : β → Prog S α} :
    Uses allowed (Prog.doWhile body x >>= f) ↔
      (∀ y, Uses allowed (body y)) ∧ ∀ out, Uses allowed (f out) := Iff.rfl

@[simp] theorem uses_ite {c : Prop} [Decidable c] {p q : Prog S α} :
    Uses allowed (if c then p else q) ↔ (c → Uses allowed p) ∧ (¬c → Uses allowed q) := by
  by_cases h : c
  · simp [h]
  · simp [h]

@[simp] theorem uses_when {c : Prop} [Decidable c] {p : Prog S Unit} :
    Uses allowed (Prog.when c p) ↔ (c → Uses allowed p) := by
  simp [Prog.when]

@[simp] theorem uses_ite_bind {c : Prop} [Decidable c] {p q : Prog S α} {f : α → Prog S β} :
    Uses allowed ((if c then p else q) >>= f) ↔
      (c → Uses allowed (p >>= f)) ∧ (¬c → Uses allowed (q >>= f)) := by
  by_cases h : c
  · simp [h]
  · simp [h]

@[simp] theorem uses_when_bind {c : Prop} [Decidable c] {p : Prog S Unit} {f : Unit → Prog S β} :
    Uses allowed (Prog.when c p >>= f) ↔
      (c → Uses allowed (p >>= f)) ∧ (¬c → Uses allowed (f ())) := uses_ite_bind

theorem uses_forRange {body : Nat → Prog S Unit} {first count : Nat}
    (each : ∀ i, first ≤ i → i < first + count → Uses allowed (body i)) :
    Uses allowed (Prog.forRange body first count) := by
  induction count generalizing first with
  | zero => trivial
  | succ count ih =>
    refine (each first (Nat.le_refl first) (by omega)).seq (fun _ => ih ?_)
    intro i low high
    exact each i (by omega) (by omega)

theorem Uses.mono {p : Prog S α} (uses : Uses allowed p) (weaker : ∀ o, allowed o → other o) :
    Uses other p := by
  induction p with
  | ret => trivial
  | op o next ih => exact ⟨weaker o uses.1, fun answer => ih answer (uses.2 answer)⟩
  | loop body locals next ihBody ih =>
    exact ⟨fun x => ihBody x (uses.1 x), fun out => ih out (uses.2 out)⟩

theorem uses_anything (p : Prog S α) : Uses (fun _ => True) p := by
  induction p with
  | ret => trivial
  | op o next ih => exact ⟨trivial, ih⟩
  | loop body locals next ihBody ih => exact ⟨ihBody, ih⟩

/-- An invariant of the allowed operations is an invariant of the program. -/
theorem Uses.preserves {p : Prog S α} (uses : Uses allowed p) {inv : W → Prop}
    (keeps : ∀ o w, allowed o → inv w → inv (env o w).2) {w w' : W} {out : α}
    (run : Runs env p w out w') (start : inv w) : inv w' := by
  induction run with
  | ret => exact start
  | op _ ih => exact ih (uses.2 _) (keeps _ _ uses.1 start)
  | again _ _ ihBody ih => exact ih uses (ihBody (uses.1 _) start)
  | leave _ _ ihBody ih => exact ih (uses.2 _) (ihBody (uses.1 _) start)

/-- A quantity no allowed operation changes is not changed by the program. -/
theorem Uses.frame {p : Prog S α} (uses : Uses allowed p) {δ : Type} (view : W → δ)
    (keeps : ∀ o w, allowed o → view (env o w).2 = view w) {w w' : W} {out : α}
    (run : Runs env p w out w') : view w' = view w := by
  have keepsView : ∀ o w₁, allowed o → view w₁ = view w → view (env o w₁).2 = view w :=
    fun o w₁ permitted same => (keeps o w₁ permitted).trans same
  exact uses.preserves keepsView run rfl

/-- The program performs allowed operations only, and the invariant holds at each. -/
theorem Uses.visits {p : Prog S α} (uses : Uses allowed p) {inv : W → Prop}
    (keeps : ∀ o w, allowed o → inv w → inv (env o w).2) {w w' : W} {o : S.Op}
    (visit : Visits env p w o w') (start : inv w) : allowed o ∧ inv w' := by
  induction visit with
  | here => exact ⟨uses.1, start⟩
  | op _ ih => exact ih (uses.2 _) (keeps _ _ uses.1 start)
  | body _ ih => exact ih (uses.1 _) start
  | again round _ ih => exact ih uses ((uses.1 _).preserves keeps round start)
  | leave round _ ih => exact ih (uses.2 _) ((uses.1 _).preserves keeps round start)

theorem Uses.visits_allowed {p : Prog S α} (uses : Uses allowed p) {w w' : W} {o : S.Op}
    (visit : Visits env p w o w') : allowed o := by
  induction visit with
  | here => exact uses.1
  | op _ ih => exact ih (uses.2 _)
  | body _ ih => exact ih (uses.1 _)
  | again _ _ ih => exact ih uses
  | leave _ _ ih => exact ih (uses.2 _)

end

/-! The executor is sound for runs. -/

theorem spin_runs {body : σ → Prog S (σ ⊕ β)} {step : σ → W → Option ((σ ⊕ β) × W)}
    (sound : ∀ x w out w', step x w = some (out, w') → Runs env (body x) w out w')
    (rounds : Nat) {x : σ} {w w' : W} {out : β} (result : spin step rounds x w = some (out, w')) :
    Runs env (Prog.doWhile body x) w out w' := by
  induction rounds generalizing x w with
  | zero => simp [spin] at result
  | succ rounds ih =>
    cases round : step x w with
    | none => simp [spin, round] at result
    | some pair =>
      rcases pair with ⟨y | last, w₁⟩
      · simp only [spin, round] at result
        exact runs_doWhile.mpr (.inr ⟨y, w₁, sound _ _ _ _ round, ih result⟩)
      · simp only [spin, round, Option.some.injEq, Prod.mk.injEq] at result
        obtain ⟨rfl, rfl⟩ := result
        exact runs_doWhile.mpr (.inl (sound _ _ _ _ round))

theorem exec_runs (rounds : Nat) {p : Prog S α} {w w' : W} {out : α}
    (result : exec env rounds p w = some (out, w')) : Runs env p w out w' := by
  induction p generalizing w w' with
  | ret value =>
    simp only [exec, Option.some.injEq, Prod.mk.injEq] at result
    obtain ⟨rfl, rfl⟩ := result
    exact .ret
  | op o next ih => exact .op (ih _ result)
  | loop body x next ihBody ih =>
    simp only [exec] at result
    split at result
    next => cases result
    next last w₁ looped =>
      have round := spin_runs (fun x _ _ _ => ihBody x) rounds looped
      exact round.seq (ih last result)

/-- A run observed through the executor. -/
theorem exec_observe (rounds : Nat) {p : Prog S α} {w : W} {δ : Type} (view : α × W → δ) {seen : δ}
    (result : (exec env rounds p w).map view = some seen) :
    ∃ out w', Runs env p w out w' ∧ view (out, w') = seen := by
  cases ran : exec env rounds p w with
  | none => simp [ran] at result
  | some pair =>
    rcases pair with ⟨out, w'⟩
    simp only [ran, Option.map_some, Option.some.injEq] at result
    exact ⟨out, w', exec_runs rounds ran, result⟩

end Yika.Program
