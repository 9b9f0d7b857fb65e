import Yika.Program.Path
import Yika.Program.Rules

/-! Two programs that share one state. Their operations are interleaved one by one, and a
schedule may be reordered as long as operations that depend on each other keep their order. -/

namespace Yika.Program
variable {S : Signature} {W α : Type}

abbrev Event (S : Signature) := (o : S.Op) × S.Answer o

/-- `Traces p events value`: given the answers of `events`, the program performs exactly these
operations, in this order, and returns. -/
inductive Traces : {α : Type} → Prog S α → List (Event S) → α → Prop where
  | ret {α : Type} {value : α} : Traces (.ret value) [] value
  | op {α : Type} {o : S.Op} {next : S.Answer o → Prog S α} {answer : S.Answer o}
      {events : List (Event S)} {value : α} :
      Traces (next answer) events value → Traces (.op o next) (⟨o, answer⟩ :: events) value
  | again {σ β α : Type} {body : σ → Prog S (σ ⊕ β)} {x y : σ} {next : β → Prog S α}
      {events later : List (Event S)} {value : α} :
      Traces (body x) events (.inl y) → Traces (.loop body y next) later value →
      Traces (.loop body x next) (events ++ later) value
  | leave {σ β α : Type} {body : σ → Prog S (σ ⊕ β)} {x : σ} {out : β} {next : β → Prog S α}
      {events later : List (Event S)} {value : α} :
      Traces (body x) events (.inr out) → Traces (next out) later value →
      Traces (.loop body x next) (events ++ later) value

def Performs (env : Env S W) (w : W) (e : Event S) (w' : W) : Prop :=
  e.2 = (env e.1 w).1 ∧ w' = (env e.1 w).2

theorem Traces.runs {env : Env S W} {p : Prog S α} {events : List (Event S)} {value : α}
    (traces : Traces p events value) {w w' : W} (path : Path (Performs env) w events w') :
    Runs env p w value w' := by
  induction traces generalizing w w' with
  | ret =>
    rw [path_nil] at path
    exact runs_ret.mpr ⟨rfl, path⟩
  | @op _ o next answer events value _ ih =>
    obtain ⟨w₁, performed, rest⟩ := path_cons.mp path
    obtain ⟨answered, rfl⟩ := performed
    change answer = (env o w).1 at answered
    subst answered
    exact .op (ih rest)
  | again _ _ ihBody ih =>
    obtain ⟨w₁, round, rest⟩ := path_append.mp path
    exact .again (ihBody round) (ih rest)
  | leave _ _ ihBody ih =>
    obtain ⟨w₁, round, rest⟩ := path_append.mp path
    exact .leave (ihBody round) (ih rest)

theorem Traces.uses {allowed : S.Op → Prop} {p : Prog S α} {events : List (Event S)} {value : α}
    (traces : Traces p events value) (uses : Uses allowed p) : ∀ e ∈ events, allowed e.1 := by
  induction traces with
  | ret => exact nofun
  | @op _ o next answer events value _ ih =>
    exact List.forall_mem_cons.mpr ⟨uses.1, ih (uses.2 answer)⟩
  | again _ _ ihBody ih => exact List.forall_mem_append.mpr ⟨ihBody (uses.1 _), ih uses⟩
  | leave _ _ ihBody ih => exact List.forall_mem_append.mpr ⟨ihBody (uses.1 _), ih (uses.2 _)⟩

@[simp] theorem traces_pure {x value : α} {events : List (Event S)} :
    Traces (pure x : Prog S α) events value ↔ events = [] ∧ value = x := by
  constructor
  · intro traces
    cases traces
    exact ⟨rfl, rfl⟩
  · rintro ⟨rfl, rfl⟩
    exact .ret

theorem traces_op {o : S.Op} {next : S.Answer o → Prog S α} {events : List (Event S)} {value : α} :
    Traces (.op o next) events value ↔
      ∃ answer later, events = ⟨o, answer⟩ :: later ∧ Traces (next answer) later value := by
  constructor
  · intro traces
    cases traces with
    | op rest => exact ⟨_, _, rfl, rest⟩
  · rintro ⟨answer, later, rfl, rest⟩
    exact .op rest

theorem Traces.of_ret {β : Type} {x : α} {f : α → Prog S β} {q : Prog S β} {events : List (Event S)} {value : β}
    (rest : Traces q events value) (whole : (Prog.ret x).bind f = q) : Traces (f x) events value := by
  subst whole
  exact rest

/-- The trace of a program in two parts is in two parts. -/
theorem Traces.split {β : Type} {p : Prog S α} {f : α → Prog S β} {events : List (Event S)} {value : β}
    (traces : Traces (p >>= f) events value) : ∃ early late x, events = early ++ late ∧ Traces p early x ∧
      Traces (f x) late value := by
  change Traces (p.bind f) events value at traces
  generalize whole : p.bind f = both at traces
  induction traces generalizing p with
  | ret =>
    cases p with
    | ret x => exact ⟨[], [], x, rfl, .ret, Traces.ret.of_ret whole⟩
    | op o next => cases whole
    | loop body locals next => cases whole
  | @op _ o next answer events value rest ih =>
    cases p with
    | ret x => exact ⟨[], _, x, rfl, .ret, (Traces.op rest).of_ret whole⟩
    | op o' next' =>
      cases whole
      obtain ⟨early, late, x, rfl, first, last⟩ := ih rfl
      exact ⟨⟨o, answer⟩ :: early, late, x, rfl, .op first, last⟩
    | loop body locals next => cases whole
  | @again σ β' _ body x y next events later value round rest _ ih =>
    cases p with
    | ret x => exact ⟨[], _, x, rfl, .ret, (Traces.again round rest).of_ret whole⟩
    | op o' next' => cases whole
    | loop body' locals' next' =>
      cases whole
      obtain ⟨early, late, x, rfl, first, last⟩ := ih (p := .loop body y next') rfl
      exact ⟨events ++ early, late, x, (List.append_assoc _ _ _).symm, .again round first, last⟩
  | @leave σ β' _ body x out next events later value round rest _ ih =>
    cases p with
    | ret x => exact ⟨[], _, x, rfl, .ret, (Traces.leave round rest).of_ret whole⟩
    | op o' next' => cases whole
    | loop body' locals' next' =>
      cases whole
      obtain ⟨early, late, x, rfl, first, last⟩ := ih rfl
      exact ⟨events ++ early, late, x, (List.append_assoc _ _ _).symm, .leave round first, last⟩

def eventsOf (client : Bool) (schedule : List (Bool × Event S)) : List (Event S) :=
  (schedule.filter fun l => l.1 == client).map Prod.snd

/-- The clients run `p false` and `p true` to their ends, interleaved as the schedule says. -/
structure Concurrent (env : Bool → Env S W) (p : Bool → Prog S α) (w : W)
    (schedule : List (Bool × Event S)) (value : Bool → α) (w' : W) : Prop where
  path : Path (fun w l w' => Performs (env l.1) w l.2 w') w schedule w'
  traces : ∀ client, Traces (p client) (eventsOf client schedule) (value client)

/-- In either order the operations get the same answers and lead to the same state. -/
structure Independent (env env' : Env S W) (o o' : S.Op) : Prop where
  first : ∀ w, (env o (env' o' w).2).1 = (env o w).1
  second : ∀ w, (env' o' (env o w).2).1 = (env' o' w).1
  state : ∀ w, (env' o' (env o w).2).2 = (env o (env' o' w).2).2

section
variable {env env' : Env S W} {w w₁ w₂ : W} {e e' : Event S}

theorem Performs.swap (independent : Independent env env' e.1 e'.1) (first : Performs env w e w₁)
    (second : Performs env' w₁ e' w₂) : ∃ m, Performs env' w e' m ∧ Performs env m e w₂ := by
  obtain ⟨answer, rfl⟩ := first
  obtain ⟨answer', rfl⟩ := second
  refine ⟨(env' e'.1 w).2, ⟨?_, rfl⟩, ?_, independent.state w⟩
  · rw [answer', independent.second]
  · rw [answer, independent.first]

/-- An event that is independent of all those after it may come last. -/
theorem Performs.postpone {events : List (Event S)}
    (independent : ∀ e' ∈ events, Independent env env' e.1 e'.1) (first : Performs env w e w₁)
    (rest : Path (Performs env') w₁ events w₂) :
    ∃ m, Path (Performs env') w events m ∧ Performs env m e w₂ := by
  induction events generalizing w w₁ with
  | nil =>
    rw [path_nil] at rest
    subst rest
    exact ⟨w, .nil w, first⟩
  | cons e' events ih =>
    rw [List.forall_mem_cons] at independent
    obtain ⟨w', head, tail⟩ := path_cons.mp rest
    obtain ⟨m, head', first'⟩ := first.swap independent.1 head
    obtain ⟨m', tail', last⟩ := ih independent.2 first' tail
    exact ⟨m', .cons head' tail', last⟩

end

section
variable {env : Bool → Env S W} {w w' : W} {schedule : List (Bool × Event S)}

/-- No event of the other client comes before an event of `first` that depends on it. -/
def OrderedFor (env : Bool → Env S W) (first : Bool) (schedule : List (Bool × Event S)) : Prop :=
  schedule.Pairwise fun l l' => l.1 = !first → l'.1 = first →
    Independent (env !first) (env first) l.2.1 l'.2.1

@[simp] theorem eventsOf_cons_self (client : Bool) (e : Event S) :
    eventsOf client ((client, e) :: schedule) = e :: eventsOf client schedule := by
  simp [eventsOf]

@[simp] theorem eventsOf_cons_other (client : Bool) (e : Event S) :
    eventsOf client ((!client, e) :: schedule) = eventsOf client schedule := by
  simp [eventsOf]

theorem mem_eventsOf {client : Bool} {e : Event S} (member : e ∈ eventsOf client schedule) :
    (client, e) ∈ schedule := by
  obtain ⟨l, inside, rfl⟩ := List.mem_map.mp member
  obtain ⟨listed, same⟩ := List.mem_filter.mp inside
  have owner : l.1 = client := by simpa using same
  rw [← owner]
  exact listed

/-- A schedule whose dependent events are ordered leads where the serial one does. -/
theorem OrderedFor.serial {first : Bool} (ordered : OrderedFor env first schedule)
    (path : Path (fun w l w' => Performs (env l.1) w l.2 w') w schedule w') :
    ∃ m, Path (Performs (env first)) w (eventsOf first schedule) m ∧
      Path (Performs (env !first)) m (eventsOf (!first) schedule) w' := by
  induction schedule generalizing w with
  | nil =>
    rw [path_nil] at path
    subst path
    exact ⟨w', .nil _, .nil _⟩
  | cons l schedule ih =>
    obtain ⟨before, later⟩ := List.pairwise_cons.mp ordered
    obtain ⟨w₁, head, rest⟩ := path_cons.mp path
    obtain ⟨m, early, late⟩ := ih later rest
    obtain ⟨client, e⟩ := l
    by_cases own : client = first
    · subst own
      have skip : eventsOf (!client) ((!!client, e) :: schedule) = eventsOf (!client) schedule :=
        eventsOf_cons_other (!client) e
      rw [Bool.not_not] at skip
      rw [eventsOf_cons_self, skip]
      exact ⟨m, .cons head early, late⟩
    · have other : client = !first := Bool.eq_not.mpr own
      subst other
      have independent : ∀ e' ∈ eventsOf first schedule,
          Independent (env !first) (env first) e.1 e'.1 :=
        fun e' member => before _ (mem_eventsOf member) rfl rfl
      obtain ⟨m', early', last⟩ := Performs.postpone independent head early
      rw [eventsOf_cons_self, eventsOf_cons_other]
      exact ⟨m', early', .cons last late⟩

/-- So a concurrent run with such a schedule does what the serial run does. -/
theorem Concurrent.serial {p : Bool → Prog S α} {value : Bool → α}
    (run : Concurrent env p w schedule value w') {first : Bool}
    (ordered : OrderedFor env first schedule) :
    ∃ m, Runs (env first) (p first) w (value first) m ∧
      Runs (env !first) (p !first) m (value !first) w' := by
  obtain ⟨m, early, late⟩ := ordered.serial run.path
  exact ⟨m, (run.traces first).runs early, (run.traces !first).runs late⟩

end

end Yika.Program
