import Mathlib.Data.List.Basic

/-! Runs of a labelled step relation: sessions of commands, sequences of calls. -/

namespace Yika.Program
variable {W L : Type} {step other : W → L → W → Prop}

/-- `Path step w ls w'`: the labels `ls`, one step after the other, lead from `w` to `w'`. -/
inductive Path (step : W → L → W → Prop) : W → List L → W → Prop where
  | nil (w : W) : Path step w [] w
  | cons {w w₁ w' : W} {l : L} {ls : List L} :
      step w l w₁ → Path step w₁ ls w' → Path step w (l :: ls) w'

@[simp] theorem path_nil {w w' : W} : Path step w [] w' ↔ w' = w := by
  constructor
  · intro path
    cases path
    rfl
  · intro given
    subst given
    exact .nil _

@[simp] theorem path_cons {w w' : W} {l : L} {ls : List L} :
    Path step w (l :: ls) w' ↔ ∃ w₁, step w l w₁ ∧ Path step w₁ ls w' := by
  constructor
  · intro path
    cases path with
    | cons first rest => exact ⟨_, first, rest⟩
  · intro given
    obtain ⟨w₁, first, rest⟩ := given
    exact .cons first rest

theorem path_append {w w' : W} {first rest : List L} :
    Path step w (first ++ rest) w' ↔ ∃ w₁, Path step w first w₁ ∧ Path step w₁ rest w' := by
  induction first generalizing w with
  | nil => simp
  | cons l ls ih =>
    simp only [List.cons_append, path_cons, ih]
    constructor
    · intro given
      obtain ⟨w₁, head, w₂, middle, last⟩ := given
      exact ⟨w₂, ⟨w₁, head, middle⟩, last⟩
    · intro given
      obtain ⟨w₂, ⟨w₁, head, middle⟩, last⟩ := given
      exact ⟨w₁, head, w₂, middle, last⟩

/-- What every step preserves holds in every state reached. -/
theorem Path.invariant {inv : W → Prop} (keeps : ∀ w l w', inv w → step w l w' → inv w')
    {w w' : W} {ls : List L} (path : Path step w ls w') (start : inv w) : inv w' := by
  induction path with
  | nil => exact start
  | cons first _ ih => exact ih (keeps _ _ _ start first)

/-- Steps that are determined by their labels make runs that are. -/
theorem Path.det (functional : ∀ w l w₁ w₂, step w l w₁ → step w l w₂ → w₁ = w₂) {w w₁ w₂ : W}
    {ls : List L} (path : Path step w ls w₁) (other : Path step w ls w₂) : w₁ = w₂ := by
  induction path with
  | nil => exact (path_nil.mp other).symm
  | cons first _ ih =>
    obtain ⟨w', second, rest⟩ := path_cons.mp other
    rw [← functional _ _ _ _ first second] at rest
    exact ih rest

theorem Path.mono (weaker : ∀ w l w', step w l w' → other w l w') {w w' : W} {ls : List L}
    (path : Path step w ls w') : Path other w ls w' := by
  induction path with
  | nil w => exact .nil w
  | cons first _ ih => exact .cons (weaker _ _ _ first) ih

theorem path_of_foldlM {f : W → L → Option W} {w w' : W} {ls : List L} (run : ls.foldlM f w = some w') :
    Path (fun w l w' => f w l = some w') w ls w' := by
  induction ls generalizing w with
  | nil =>
    cases run
    exact .nil _
  | cons l ls ih =>
    rw [List.foldlM_cons] at run
    obtain ⟨w₁, first, rest⟩ := Option.bind_eq_some_iff.mp run
    exact .cons first (ih rest)

/-- A property of all the labels may be read as one of the steps. -/
theorem Path.with_labels {ok : L → Prop} {w w' : W} {ls : List L} (path : Path step w ls w')
    (all : ∀ l ∈ ls, ok l) : Path (fun w l w' => step w l w' ∧ ok l) w ls w' := by
  induction path with
  | nil w => exact .nil w
  | cons first _ ih =>
    rw [List.forall_mem_cons] at all
    exact .cons ⟨first, all.1⟩ (ih all.2)

/-- An invariant of the labels so far and the state they lead to. -/
theorem Path.history {inv : List L → W → Prop}
    (keeps : ∀ ls w l w', inv ls w → step w l w' → inv (ls ++ [l]) w') {w w' : W} {ls before : List L}
    (path : Path step w ls w') (start : inv before w) : inv (before ++ ls) w' := by
  induction path generalizing before with
  | nil => simpa using start
  | cons first _ ih =>
    have next := ih (keeps _ _ _ _ start first)
    rwa [List.append_assoc] at next

/-- Two properties of the steps that agree wherever an invariant holds, which a step with
the first property keeps, select the same runs. -/
theorem path_congr {inv : W → Prop} {first second : W → L → W → Prop}
    (agree : ∀ w l w', inv w → step w l w' → (first w l w' ↔ second w l w'))
    (keeps : ∀ w l w', inv w → step w l w' → first w l w' → inv w') {w w' : W} {ls : List L}
    (start : inv w) :
    Path (fun w l w' => step w l w' ∧ first w l w') w ls w' ↔
      Path (fun w l w' => step w l w' ∧ second w l w') w ls w' := by
  induction ls generalizing w with
  | nil => simp only [path_nil]
  | cons l ls ih =>
    simp only [path_cons]
    constructor
    · intro given
      obtain ⟨w₁, ⟨taken, holds⟩, rest⟩ := given
      have next := keeps w l w₁ start taken holds
      exact ⟨w₁, ⟨taken, (agree w l w₁ start taken).mp holds⟩, (ih next).mp rest⟩
    · intro given
      obtain ⟨w₁, ⟨taken, holds⟩, rest⟩ := given
      have same := (agree w l w₁ start taken).mpr holds
      exact ⟨w₁, ⟨taken, same⟩, (ih (keeps w l w₁ start taken same)).mpr rest⟩

end Yika.Program
