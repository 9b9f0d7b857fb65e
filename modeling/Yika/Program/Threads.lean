import Mathlib.Logic.Relation
import Yika.Program.Concurrent

/-! Programs taken operation by operation, so that several of them may run at once: what is left of a
program after an operation, and what its runs and visits say about it. -/

namespace Yika.Program
variable {S : Signature} {W : Type} {α β γ σ : Type}

/-- A loop, as its first round and then what that round decides on. -/
def Prog.turn (body : σ → Prog S (σ ⊕ β)) (x : σ) (next : β → Prog S α) : Prog S α :=
  (body x).bind (Sum.elim (fun y => .loop body y next) next)

/-- `Takes p e q`: the first operation of `p` is that of `e`, and with its answer `q` is left. -/
inductive Takes : {α : Type} → Prog S α → Event S → Prog S α → Prop where
  | op {α : Type} {o : S.Op} {next : S.Answer o → Prog S α} {answer : S.Answer o} :
      Takes (.op o next) ⟨o, answer⟩ (next answer)
  | loop {σ β α : Type} {body : σ → Prog S (σ ⊕ β)} {x : σ} {next : β → Prog S α} {e : Event S}
      {q : Prog S α} : Takes (Prog.turn body x next) e q → Takes (.loop body x next) e q

variable {env : Env S W} {p q : Prog S α} {f : α → Prog S β} {e : Event S} {o o' : S.Op} {w w' : W}

/-! A loop and its first round. -/

section
variable {body : σ → Prog S (σ ⊕ β)} {x : σ} {next : β → Prog S α}

theorem runs_turn {out : α} :
    Runs env (Prog.turn body x next) w out w' ↔ Runs env (.loop body x next) w out w' := by
  constructor
  · intro run
    obtain ⟨step, w₁, round, rest⟩ := Runs.split run
    cases step with
    | inl y => exact .again round rest
    | inr last => exact .leave round rest
  · intro run
    cases run with
    | again round rest => exact round.seq rest
    | leave round rest => exact round.seq rest

theorem visits_turn :
    Visits env (Prog.turn body x next) w o w' ↔ Visits env (.loop body x next) w o w' := by
  constructor
  · intro visit
    rcases Visits.split visit with early | ⟨step, w₁, round, late⟩
    · exact .body early
    · cases step with
      | inl y => exact .again round late
      | inr last => exact .leave round late
  · intro visit
    cases visit with
    | body visit => exact visit.early
    | again round visit => exact round.visits visit
    | leave round visit => exact round.visits visit

theorem Traces.seq {events later : List (Event S)} {value : α} {out : β} (first : Traces p events value)
    (rest : Traces (f value) later out) : Traces (p.bind f) (events ++ later) out := by
  induction first with
  | ret => exact rest
  | op _ ih => exact .op (ih rest)
  | again round _ _ ih =>
    rw [List.append_assoc]
    exact .again round (ih rest)
  | leave round _ _ ih =>
    rw [List.append_assoc]
    exact .leave round (ih rest)

theorem Traces.turn {events : List (Event S)} {out : α} (traces : Traces (.loop body x next) events out) :
    Traces (Prog.turn body x next) events out := by
  cases traces with
  | again round rest => exact round.seq rest
  | leave round rest => exact round.seq rest

end

/-! One operation. -/

theorem Takes.visit (takes : Takes p e q) (w : W) : Visits env p w e.1 w := by
  induction takes with
  | op => exact .here
  | loop _ ih => exact visits_turn.mp ih

theorem Takes.runs {out : α} (takes : Takes p e q) (answer : e.2 = (env e.1 w).1) :
    Runs env p w out w' ↔ Runs env q (env e.1 w).2 out w' := by
  induction takes with
  | op =>
    dsimp only at answer
    subst answer
    exact runs_op
  | loop _ ih => exact runs_turn.symm.trans (ih answer)

/-- What is performed is the first operation or performed by what is left. -/
theorem Takes.visits (takes : Takes p e q) (answer : e.2 = (env e.1 w).1) :
    Visits env p w o w' ↔ o = e.1 ∧ w' = w ∨ Visits env q (env e.1 w).2 o w' := by
  induction takes with
  | op =>
    dsimp only at answer ⊢
    subst answer
    constructor
    · intro visit
      cases visit with
      | here => exact .inl ⟨rfl, rfl⟩
      | op visit => exact .inr visit
    · intro given
      rcases given with ⟨rfl, rfl⟩ | visit
      · exact .here
      · exact .op visit
  | loop _ ih => exact visits_turn.symm.trans (ih answer)

/-- The first operation does not depend on its answer. -/
theorem Takes.answered (takes : Takes p e q) (answer : S.Answer e.1) : ∃ r, Takes p ⟨e.1, answer⟩ r := by
  induction takes with
  | op => exact ⟨_, .op⟩
  | loop _ ih =>
    obtain ⟨r, taken⟩ := ih answer
    exact ⟨r, .loop taken⟩

theorem Takes.same {e' : Event S} {r : Prog S α} (takes : Takes p e q) (other : Takes p e' r) :
    e.1 = e'.1 ∧ (e = e' → q = r) := by
  induction takes with
  | op =>
    cases other
    refine ⟨rfl, fun equal => ?_⟩
    cases equal
    rfl
  | loop _ ih =>
    cases other with
    | loop taken => exact ih taken

/-- A trace with the answers of an environment begins with the operation that is taken. -/
theorem Takes.traces {events : List (Event S)} {value : α} (takes : Takes p e q)
    (traces : Traces p events value) (path : Path (Performs env) w events w')
    (answer : e.2 = (env e.1 w).1) :
    ∃ rest, events = e :: rest ∧ Traces q rest value ∧ Path (Performs env) (env e.1 w).2 rest w' := by
  induction takes generalizing events with
  | op =>
    cases traces with
    | op later =>
      obtain ⟨w₁, performed, rest⟩ := path_cons.mp path
      obtain ⟨answered, rfl⟩ := performed
      dsimp only at answer answered
      subst answer answered
      exact ⟨_, rfl, later, rest⟩
  | loop _ ih => exact ih traces.turn path answer

/-- A run is one of the traces. -/
theorem Runs.traced {out : α} (run : Runs env p w out w') :
    ∃ events, Traces p events out ∧ Path (Performs env) w events w' := by
  induction run with
  | ret => exact ⟨[], .ret, .nil _⟩
  | op _ ih =>
    obtain ⟨events, traces, path⟩ := ih
    exact ⟨_, .op traces, .cons ⟨rfl, rfl⟩ path⟩
  | again _ _ ihRound ih =>
    obtain ⟨events, traces, path⟩ := ihRound
    obtain ⟨later, rest, path'⟩ := ih
    exact ⟨_, .again traces rest, path_append.mpr ⟨_, path, path'⟩⟩
  | leave _ _ ihRound ih =>
    obtain ⟨events, traces, path⟩ := ihRound
    obtain ⟨later, rest, path'⟩ := ih
    exact ⟨_, .leave traces rest, path_append.mpr ⟨_, path, path'⟩⟩

/-! Programs whose loops do something in every round. -/

/-- The program begins with an operation. -/
def Acts : {α : Type} → Prog S α → Prop
  | _, .ret _ => False
  | _, .op _ _ => True
  | _, .loop body x _ => Acts (body x)

/-- A round of a loop begins with an operation, or it leaves the loop at once. -/
def Productive : {α : Type} → Prog S α → Prop
  | _, .ret _ => True
  | _, .op _ next => ∀ answer, Productive (next answer)
  | _, .loop body _ next =>
    (∀ x, Productive (body x) ∧ (Acts (body x) ∨ ∃ out, body x = .ret (.inr out))) ∧
      ∀ out, Productive (next out)

@[simp] theorem productive_pure (value : α) : Productive (pure value : Prog S α) := trivial

@[simp] theorem productive_perform : Productive (Prog.perform o) := fun _ => trivial

theorem Productive.seq (first : Productive p) (rest : ∀ value, Productive (f value)) :
    Productive (p.bind f) := by
  induction p with
  | ret value => exact rest value
  | op o next ih => exact fun answer => ih answer (first answer) rest
  | loop body x next _ ih => exact ⟨first.1, fun out => ih out (first.2 out) rest⟩

theorem productive_bind (first : Productive p) (rest : ∀ value, Productive (f value)) :
    Productive (p >>= f) := first.seq rest

theorem productive_ite {c : Prop} [Decidable c] (yes : Productive p) (no : Productive q) :
    Productive (if c then p else q) := by
  split
  next => exact yes
  next => exact no

theorem productive_when {c : Prop} [Decidable c] {p : Prog S Unit} (yes : Productive p) :
    Productive (Prog.when c p) := productive_ite yes trivial

theorem productive_doWhile {body : σ → Prog S (σ ⊕ β)} {x : σ}
    (rounds : ∀ y, Productive (body y) ∧ (Acts (body y) ∨ ∃ out, body y = .ret (.inr out))) :
    Productive (Prog.doWhile body x) := ⟨rounds, fun _ => trivial⟩

theorem Productive.turn {body : σ → Prog S (σ ⊕ β)} {x : σ} {next : β → Prog S α}
    (productive : Productive (.loop body x next)) : Productive (Prog.turn body x next) := by
  refine (productive.1 x).1.seq fun step => ?_
  cases step with
  | inl y => exact productive
  | inr out => exact productive.2 out

theorem Productive.taken (productive : Productive p) (takes : Takes p e q) : Productive q := by
  induction takes with
  | op => exact productive _
  | loop _ ih => exact ih productive.turn

/-- What follows a loop may be put into it. -/
theorem turn_bind {body : σ → Prog S (σ ⊕ γ)} {next : γ → Prog S α} (q : Prog S (σ ⊕ γ)) :
    (q.bind (Sum.elim (fun y => .loop body y next) next)).bind f =
      q.bind (Sum.elim (fun y => .loop body y fun out => (next out).bind f) fun out => (next out).bind f) := by
  rw [Prog.bind_assoc]
  congr 1
  funext step
  cases step with
  | inl y => rfl
  | inr out => rfl

/-- What follows a program does not matter to its operations. -/
theorem Takes.seq (takes : Takes p e q) : Takes (p.bind f) e (q.bind f) := by
  induction takes with
  | op => exact .op
  | loop _ ih =>
    have taken := ih (f := f)
    rw [Prog.turn, turn_bind] at taken
    exact .loop taken

theorem Acts.takes (acts : Acts p) : ∃ o, ∀ answer : S.Answer o, ∃ q, Takes p ⟨o, answer⟩ q := by
  induction p with
  | ret => cases acts
  | op o next _ => exact ⟨o, fun answer => ⟨next answer, .op⟩⟩
  | loop body x next ihBody _ =>
    obtain ⟨o, each⟩ := ihBody x acts
    refine ⟨o, fun answer => ?_⟩
    obtain ⟨q, taken⟩ := each answer
    exact ⟨_, .loop taken.seq⟩

/-- Nothing is left to be done but to return. -/
structure Returned (p : Prog S α) (value : α) : Prop where
  runs : ∀ {W : Type} (env : Env S W) w, Runs env p w value w
  takes : ∀ {β : Type} {f : α → Prog S β} {e : Event S} {r : Prog S β},
    Takes (p.bind f) e r ↔ Takes (f value) e r

theorem returned_ret (value : α) : Returned (.ret value : Prog S α) value := ⟨fun _ _ => .ret, Iff.rfl⟩

theorem Returned.seq {value : α} {out : β} (first : Returned p value) (rest : Returned (f value) out) :
    Returned (p.bind f) out := by
  refine ⟨fun env w => (first.runs env w).seq (rest.runs env w), ?_⟩
  intro γ g e r
  rw [Prog.bind_assoc, first.takes, rest.takes]

theorem takes_loop_bind {body : σ → Prog S (σ ⊕ γ)} {x : σ} {next : γ → Prog S α} {r : Prog S β} :
    Takes ((Prog.loop body x next).bind f) e r ↔ Takes ((Prog.turn body x next).bind f) e r := by
  rw [Prog.turn, turn_bind]
  constructor
  · intro takes
    cases takes with
    | loop taken => exact taken
  · exact fun taken => .loop taken

theorem Returned.loop {body : σ → Prog S (σ ⊕ γ)} {x : σ} {next : γ → Prog S α} {value : α}
    (returned : Returned (Prog.turn body x next) value) : Returned (.loop body x next) value :=
  ⟨fun env w => runs_turn.mp (returned.runs env w), takes_loop_bind.trans returned.takes⟩

theorem Productive.next (productive : Productive p) :
    (∃ value, Returned p value) ∨ ∃ o, ∀ answer : S.Answer o, ∃ q, Takes p ⟨o, answer⟩ q := by
  induction p with
  | ret value => exact .inl ⟨value, returned_ret value⟩
  | op o next _ => exact .inr ⟨o, fun answer => ⟨next answer, .op⟩⟩
  | loop body x next _ ih =>
    rcases (productive.1 x).2 with acts | ⟨out, left⟩
    · obtain ⟨o, each⟩ := acts.takes
      refine .inr ⟨o, fun answer => ?_⟩
      obtain ⟨q, taken⟩ := each answer
      exact ⟨_, .loop taken.seq⟩
    · have turn : Prog.turn body x next = next out := by
        rw [Prog.turn, left]
        rfl
      rcases ih out (productive.2 out) with ⟨value, returned⟩ | ⟨o, each⟩
      · rw [← turn] at returned
        exact .inl ⟨value, returned.loop⟩
      · refine .inr ⟨o, fun answer => ?_⟩
        obtain ⟨q, taken⟩ := each answer
        rw [← turn] at taken
        exact ⟨q, .loop taken⟩

/-! A program on its way. -/

section
variable {w₀ : W} {out : α}

def Advance (env : Env S W) (c c' : Prog S α × W) : Prop :=
  ∃ o, Takes c.1 ⟨o, (env o c.2).1⟩ c'.1 ∧ c'.2 = (env o c.2).2

/-- From the start of the program to what is left of it. -/
abbrev Reaches (env : Env S W) : Prog S α × W → Prog S α × W → Prop := Relation.ReflTransGen (Advance env)

theorem Reaches.invariant (inv : Prog S α → W → Prop) (reaches : Reaches env (p, w₀) (q, w))
    (keeps : ∀ p w o q, inv p w → Takes p ⟨o, (env o w).1⟩ q → inv q (env o w).2) (start : inv p w₀) :
    inv q w := by
  generalize there : (q, w) = c at reaches
  induction reaches generalizing q w with
  | refl =>
    cases there
    exact start
  | tail _ step ih =>
    cases there
    obtain ⟨o, takes, same⟩ := step
    dsimp only at takes same
    subst same
    exact keeps _ _ o q (ih rfl) takes

theorem Reaches.runs (reaches : Reaches env (p, w₀) (q, w)) :
    Runs env p w₀ out w' ↔ Runs env q w out w' := by
  apply reaches.invariant (fun q w => Runs env p w₀ out w' ↔ Runs env q w out w') _ Iff.rfl
  intro r w₁ o r' before takes
  exact before.trans (takes.runs rfl)

theorem Reaches.visits (reaches : Reaches env (p, w₀) (q, w)) (visit : Visits env q w o w') :
    Visits env p w₀ o w' := by
  refine reaches.invariant (fun q w => Visits env q w o w' → Visits env p w₀ o w') ?_ id visit
  intro r w₁ o' r' before takes visit
  exact before ((takes.visits rfl).mpr (.inr visit))

theorem Reaches.productive (reaches : Reaches env (p, w₀) (q, w)) (productive : Productive p) :
    Productive q :=
  reaches.invariant (fun q _ => Productive q) (fun _ _ _ _ before takes => before.taken takes) productive

/-- An operation that is performed lies behind or ahead. -/
theorem Reaches.pending {done : W → Prop} (keeps : ∀ o w, done w → done (env o w).2)
    (reaches : Reaches env (p, w₀) (q, w)) (visit : Visits env p w₀ o w') (there : done w') :
    done w ∨ ∃ o w', Visits env q w o w' ∧ done w' := by
  apply reaches.invariant (fun q w => done w ∨ ∃ o w', Visits env q w o w' ∧ done w') _
    (.inr ⟨o, w', visit, there⟩)
  intro r w₁ o' r' before takes
  rcases before with behind | ⟨o, w', visit, there⟩
  · exact .inl (keeps o' w₁ behind)
  · rcases (takes.visits rfl).mp visit with ⟨rfl, rfl⟩ | ahead
    · exact .inl (keeps _ _ there)
    · exact .inr ⟨o, w', ahead, there⟩

theorem Reaches.seq {f : α → Prog S β} (reaches : Reaches env (p, w₀) (q, w)) :
    Reaches env (p.bind f, w₀) (q.bind f, w) := by
  apply reaches.invariant (fun q w => Reaches env (p.bind f, w₀) (q.bind f, w)) _ .refl
  intro r w₁ o r' before takes
  exact before.tail ⟨o, takes.seq, rfl⟩

/-- Of two programs that take the same operations, what one reaches the other does. -/
theorem Reaches.of_takes (same : ∀ {e : Event S} {r : Prog S α}, Takes p e r → Takes q e r)
    (ends : ∀ value, Returned p value → Returned q value) (reaches : Reaches env (p, w₀) (r, w)) :
    ∃ r', Reaches env (q, w₀) (r', w) ∧ ∀ value, Returned r value → Returned r' value := by
  rcases Relation.ReflTransGen.cases_head reaches with here | ⟨c, ⟨o, takes, there⟩, rest⟩
  · cases here
    exact ⟨q, .refl, ends⟩
  · exact ⟨r, .head ⟨o, same takes, there⟩ rest, fun _ => id⟩

theorem Reaches.loop {body : σ → Prog S (σ ⊕ β)} {x : σ} {next : β → Prog S α}
    (reaches : Reaches env (Prog.turn body x next, w₀) (r, w)) :
    ∃ r', Reaches env (.loop body x next, w₀) (r', w) ∧ ∀ value, Returned r value → Returned r' value :=
  reaches.of_takes .loop fun _ returned => returned.loop

/-- A round of a loop, and what comes after it. -/
theorem Reaches.round {body : σ → Prog S (σ ⊕ β)} {x : σ} {next : β → Prog S α} {s : Prog S (σ ⊕ β)} {w₁ : W}
    {step : σ ⊕ β} (round : Reaches env (body x, w₀) (s, w₁)) (ended : Returned s step)
    (rest : Reaches env (Sum.elim (fun y => .loop body y next) next step, w₁) (r, w)) :
    ∃ r', Reaches env (.loop body x next, w₀) (r', w) ∧ ∀ value, Returned r value → Returned r' value := by
  obtain ⟨r₁, later, ends⟩ := rest.of_takes (q := s.bind (Sum.elim (fun y => .loop body y next) next))
    ended.takes.mpr fun value returned => ended.seq returned
  obtain ⟨r', whole, ends'⟩ := Reaches.loop (round.seq.trans later)
  exact ⟨r', whole, fun value returned => ends' value (ends value returned)⟩

theorem Runs.reaches (run : Runs env p w out w') : ∃ q, Reaches env (p, w) (q, w') ∧ Returned q out := by
  induction run with
  | ret => exact ⟨_, .refl, returned_ret _⟩
  | op _ ih =>
    obtain ⟨q, rest, returned⟩ := ih
    exact ⟨q, .head ⟨_, .op, rfl⟩ rest, returned⟩
  | again _ _ ihRound ih =>
    obtain ⟨s, round, ended⟩ := ihRound
    obtain ⟨q, rest, returned⟩ := ih
    obtain ⟨r, whole, ends⟩ := Reaches.round round ended rest
    exact ⟨r, whole, ends _ returned⟩
  | leave _ _ ihRound ih =>
    obtain ⟨s, round, ended⟩ := ihRound
    obtain ⟨q, rest, returned⟩ := ih
    obtain ⟨r, whole, ends⟩ := Reaches.round round ended rest
    exact ⟨r, whole, ends _ returned⟩

theorem Visits.reaches (visit : Visits env p w o w') : ∃ q, Reaches env (p, w) (q, w') := by
  induction visit with
  | here => exact ⟨_, .refl⟩
  | op _ ih =>
    obtain ⟨q, rest⟩ := ih
    exact ⟨q, .head ⟨_, .op, rfl⟩ rest⟩
  | body _ ih =>
    obtain ⟨q, inside⟩ := ih
    obtain ⟨r, whole, _⟩ := Reaches.loop inside.seq
    exact ⟨r, whole⟩
  | again round _ ih =>
    obtain ⟨s, first, ended⟩ := round.reaches
    obtain ⟨q, rest⟩ := ih
    obtain ⟨r, whole, _⟩ := Reaches.round first ended rest
    exact ⟨r, whole⟩
  | leave round _ ih =>
    obtain ⟨s, first, ended⟩ := round.reaches
    obtain ⟨q, rest⟩ := ih
    obtain ⟨r, whole, _⟩ := Reaches.round first ended rest
    exact ⟨r, whole⟩

end

end Yika.Program
