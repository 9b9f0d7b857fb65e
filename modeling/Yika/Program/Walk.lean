import Mathlib.Logic.Function.Iterate
import Yika.Program.Spec

/-! Walks: a point that moves until it leaves a region, loops that look along the walk for a point
they accept, and the rounds they take. -/

namespace Yika.Program

/-- The points of the walk from `x`, up to the first one outside the region. -/
inductive Walk {α : Type} (move : α → α) (inside : α → Prop) : α → List α → Prop where
  | beyond {x : α} : ¬inside x → Walk move inside x []
  | point {x : α} {rest : List α} :
      inside x → Walk move inside (move x) rest → Walk move inside x (x :: rest)

/-- The first points of a walk from `x`, all inside the region. -/
inductive Trail {α : Type} (move : α → α) (inside : α → Prop) : α → List α → Prop where
  | start {x : α} : Trail move inside x []
  | point {x : α} {rest : List α} :
      inside x → Trail move inside (move x) rest → Trail move inside x (x :: rest)

section
variable {α : Type} {move : α → α} {inside : α → Prop} {x y : α} {points : List α}

theorem Trail.iterate (n : Nat) (stays : ∀ i < n, inside (move^[i] x)) :
    Trail move inside x ((List.range n).map fun i => move^[i] x) := by
  induction n generalizing x with
  | zero => exact .start
  | succ n ih =>
    rw [List.range_succ_eq_map, List.map_cons, List.map_map]
    exact .point (stays 0 (Nat.succ_pos n)) (ih fun i below => stays (i + 1) (Nat.succ_lt_succ below))

/-- A trail that leads out of the region is the whole walk. -/
theorem Trail.walk (trail : Trail move inside x points) (out : ¬inside (move^[points.length] x)) :
    Walk move inside x points := by
  induction trail with
  | start => exact .beyond out
  | point here _ ih => exact .point here (ih out)

/-- The first point of a trail that is not over is inside. -/
theorem Trail.begins (trail : Trail move inside x points) (on : inside (move^[points.length] x)) :
    inside x := by
  cases trail with
  | start => exact on
  | point here _ => exact here

theorem Walk.trail (walk : Walk move inside x points) :
    Trail move inside x points ∧ ¬inside (move^[points.length] x) := by
  induction walk with
  | beyond out => exact ⟨.start, out⟩
  | point here _ ih => exact ⟨.point here ih.1, ih.2⟩

theorem Walk.unique {other : List α} (walk : Walk move inside x points)
    (second : Walk move inside x other) : points = other := by
  induction walk generalizing other with
  | beyond outside =>
    cases second with
    | beyond => rfl
    | point here => exact absurd here outside
  | point here _ ih =>
    cases second with
    | beyond outside => exact absurd here outside
    | point _ later => rw [ih later]

theorem Walk.inside_iff (walk : Walk move inside x points) : inside x ↔ points ≠ [] := by
  cases walk with
  | beyond outside => simp [outside]
  | point here later => simp [here]

/-- The first accepted point splits the accepted points of the walk: it comes first, and the
others are those of the walk from the point after it. -/
theorem Walk.find (walk : Walk move inside x points) {accept : α → Bool}
    (found : points.find? accept = some y) :
    ∃ rest, Walk move inside (move y) rest ∧ y :: rest <:+ points ∧
      points.filter accept = y :: rest.filter accept := by
  induction walk with
  | beyond => cases found
  | @point x rest here later ih =>
    by_cases accepted : accept x
    · rw [List.find?_cons_of_pos accepted, Option.some.injEq] at found
      subst found
      exact ⟨rest, later, List.suffix_refl _, List.filter_cons_of_pos accepted⟩
    · rw [List.find?_cons_of_neg accepted] at found
      obtain ⟨rest', walk', tail, split⟩ := ih found
      rw [List.filter_cons_of_neg accepted]
      exact ⟨rest', walk', tail.trans (List.suffix_cons x rest), split⟩

/-- A looser search of an ordered list finds something that is no later. -/
theorem find?_looser {order : α → α → Prop} {strict loose : α → Bool} (sorted : points.Pairwise order)
    (looser : ∀ x, strict x = true → loose x = true) (found : points.find? strict = some y) :
    ∃ x, points.find? loose = some x ∧ (x = y ∨ order x y) := by
  induction points with
  | nil => cases found
  | cons x rest ih =>
    obtain ⟨first, sorted⟩ := List.pairwise_cons.mp sorted
    by_cases accepted : loose x = true
    · refine ⟨x, List.find?_cons_of_pos accepted, ?_⟩
      rcases List.mem_cons.mp (List.mem_of_find?_eq_some found) with same | later
      · exact .inl same.symm
      · exact .inr (first y later)
    · have refused : ¬strict x = true := fun strict => accepted (looser x strict)
      rw [List.find?_cons_of_neg refused] at found
      rw [List.find?_cons_of_neg accepted]
      exact ih sorted found

end

variable {S : Signature} {W α : Type} {env : Env S W} {move : α → α} {inside : α → Prop}
  {accept : α → Bool} {inv : W → Prop} {none : α} {body : α → Prog S (α ⊕ α)}

/-- The loop leaves with `out` after `n` rounds. -/
inductive Rounds {S : Signature} {W σ β : Type} (env : Env S W) (body : σ → Prog S (σ ⊕ β)) :
    Nat → σ → W → β → W → Prop where
  | last {x : σ} {w w' : W} {out : β} :
      Runs env (body x) w (.inr out) w' → Rounds env body 1 x w out w'
  | more {n : Nat} {x y : σ} {w w₁ w' : W} {out : β} : Runs env (body x) w (.inl y) w₁ →
      Rounds env body n y w₁ out w' → Rounds env body (n + 1) x w out w'

theorem Rounds.runs {σ β : Type} {body : σ → Prog S (σ ⊕ β)} {n : Nat} {x : σ} {w w' : W} {out : β}
    (rounds : Rounds env body n x w out w') : Runs env (Prog.doWhile body x) w out w' := by
  induction rounds with
  | last run => exact runs_doWhile.mpr (.inl run)
  | more run _ ih => exact runs_doWhile.mpr (.inr ⟨_, _, run, ih⟩)

theorem Runs.rounds {σ β : Type} {body : σ → Prog S (σ ⊕ β)} {x : σ} {w w' : W} {out : β}
    (run : Runs env (Prog.doWhile body x) w out w') : ∃ n, Rounds env body n x w out w' := by
  generalize whole : Prog.doWhile body x = p at run
  induction run generalizing x with
  | ret => cases whole
  | op => cases whole
  | again round _ _ ih =>
    cases whole
    obtain ⟨n, rounds⟩ := ih rfl
    exact ⟨n + 1, .more round rounds⟩
  | leave round rest _ _ =>
    cases whole
    obtain ⟨rfl, rfl⟩ := runs_ret.mp rest
    exact ⟨1, .last round⟩

/-- The last turn of the loop from `x` in `w` is taken at `z` in `w'`. -/
inductive LastTurn {S : Signature} {W σ β : Type} (env : Env S W) (body : σ → Prog S (σ ⊕ β)) :
    σ → W → σ → W → Prop where
  | last {x : σ} {w w' : W} {out : β} :
      Runs env (body x) w (.inr out) w' → LastTurn env body x w x w
  | more {x y z : σ} {w w₁ w' : W} : Runs env (body x) w (.inl y) w₁ →
      LastTurn env body y w₁ z w' → LastTurn env body x w z w'

section
variable {σ β : Type} {body : σ → Prog S (σ ⊕ β)} {x z : σ} {w w₁ w' : W} {out : β}

theorem Rounds.lastTurn {n : Nat} (rounds : Rounds env body n x w out w') :
    ∃ z w₁, LastTurn env body x w z w₁ ∧ Runs env (body z) w₁ (.inr out) w' := by
  induction rounds with
  | last run => exact ⟨_, _, .last run, run⟩
  | more run _ ih =>
    obtain ⟨z, w₁, turn, last⟩ := ih
    exact ⟨z, w₁, .more run turn, last⟩

theorem Runs.lastTurn (run : Runs env (Prog.doWhile body x) w out w') :
    ∃ z w₁, LastTurn env body x w z w₁ ∧ Runs env (body z) w₁ (.inr out) w' := by
  obtain ⟨_, rounds⟩ := run.rounds
  exact rounds.lastTurn

theorem LastTurn.unique {other : σ} (turn : LastTurn env body x w z w₁)
    (second : LastTurn env body x w other w') : z = other ∧ w₁ = w' := by
  induction turn with
  | last run =>
    cases second with
    | last => exact ⟨rfl, rfl⟩
    | more run' => cases (run.det run').1
  | more run _ ih =>
    cases second with
    | last run' => cases (run.det run').1
    | more run' later =>
      obtain ⟨same, rfl⟩ := run.det run'
      cases same
      exact ih later

/-- What every turn that goes on preserves holds in the last one. -/
theorem LastTurn.invariant {inv : W → Prop} (turn : LastTurn env body x w z w₁)
    (again : ∀ x w y w', inv w → Runs env (body x) w (.inl y) w' → inv w') (start : inv w) :
    inv w₁ := by
  induction turn with
  | last => exact start
  | more run _ ih => exact ih (again _ _ _ _ start run)

end

/-- A turn of a loop that looks for a point: it leaves with a point it accepts, with `hit` about the
state, otherwise it moves on, or leaves with `none` when the next point is outside. -/
structure Looks (env : Env S W) (body : α → Prog S (α ⊕ α)) (move : α → α) (inside : α → Prop)
    (accept : α → Bool) (inv : W → Prop) (hit : α → W → Prop) (none x : α) (w : W) (next : α ⊕ α)
    (w' : W) : Prop where
  run : Runs env (body x) w next w'
  hit : accept x = true → next = .inr x ∧ hit x w'
  miss : accept x = false → inv w'
  on : accept x = false → inside (move x) → next = .inl (move x)
  out : accept x = false → ¬inside (move x) → next = .inr none

section
variable {hit : α → W → Prop} {x y : α} {points : List α} {w : W}
  (looks : ∀ x w, inside x → inv w →
    ∃ next w', Looks env body move inside accept inv hit none x w next w')
include looks

/-- A loop that comes to a point it accepts leaves with it, at the latest in the last round of the
trail. -/
theorem Trail.found (trail : Trail move inside x points) (start : inv w)
    (found : points.find? accept = some y) :
    ∃ n w', n ≤ points.length ∧ Rounds env body n x w y w' ∧ hit y w' := by
  induction trail generalizing w with
  | start => cases found
  | @point x rest here later ih =>
    obtain ⟨next, w₁, look⟩ := looks x w here start
    by_cases accepted : accept x = true
    · rw [List.find?_cons_of_pos accepted, Option.some.injEq] at found
      subst found
      obtain ⟨rfl, holds⟩ := look.hit accepted
      exact ⟨1, w₁, Nat.succ_pos _, .last look.run, holds⟩
    · rw [List.find?_cons_of_neg accepted] at found
      rw [Bool.not_eq_true] at accepted
      have further : inside (move x) := by
        cases later with
        | start => cases found
        | point there => exact there
      obtain rfl := look.on accepted further
      obtain ⟨n, w', bound, rounds, holds⟩ := ih (look.miss accepted) found
      exact ⟨n + 1, w', Nat.succ_le_succ bound, .more look.run rounds, holds⟩

/-- A loop that accepts no point of its walk leaves in the last round. -/
theorem Walk.missed (walk : Walk move inside x points) (here : inside x) (start : inv w)
    (missed : points.find? accept = .none) :
    ∃ w', Rounds env body points.length x w none w' ∧ inv w' := by
  induction walk generalizing w with
  | beyond outside => exact absurd here outside
  | @point x rest _ later ih =>
    obtain ⟨next, w₁, look⟩ := looks x w here start
    have refused : ¬accept x = true := List.find?_eq_none.mp missed x List.mem_cons_self
    rw [List.find?_cons_of_neg refused] at missed
    rw [Bool.not_eq_true] at refused
    by_cases further : inside (move x)
    · obtain rfl := look.on refused further
      obtain ⟨w', rounds, holds⟩ := ih further (look.miss refused) missed
      exact ⟨w', .more look.run rounds, holds⟩
    · obtain rfl := look.out refused further
      cases later with
      | beyond => exact ⟨w₁, .last look.run, look.miss refused⟩
      | point there => exact absurd there further

/-- A loop that accepts no point of a trail that is not over takes more rounds. -/
theorem Trail.longer (trail : Trail move inside x points) (on : inside (move^[points.length] x))
    (start : inv w) (missed : points.find? accept = .none) {n : Nat} {out : α} {w' : W}
    (rounds : Rounds env body n x w out w') : points.length < n := by
  induction trail generalizing w n with
  | start =>
    cases rounds with
    | last => exact Nat.one_pos
    | more => exact Nat.succ_pos _
  | @point x rest here later ih =>
    obtain ⟨next, w₁, look⟩ := looks x w here start
    have refused : ¬accept x = true := List.find?_eq_none.mp missed x List.mem_cons_self
    rw [List.find?_cons_of_neg refused] at missed
    rw [Bool.not_eq_true] at refused
    obtain rfl := look.on refused (later.begins on)
    cases rounds with
    | last run => cases (look.run.det run).1
    | more run rounds =>
      obtain ⟨same, rfl⟩ := look.run.det run
      cases same
      exact Nat.succ_lt_succ (ih on (look.miss refused) missed rounds)

end

/-- A loop that leaves with the first point it accepts, and with `none` at the end of the walk. -/
theorem achieves_search
    (round : ∀ x w, inside x → inv w → Achieves env (body x) (fun next w' => inv w' ∧
      (accept x → next = .inr x) ∧ (¬accept x → inside (move x) → next = .inl (move x)) ∧
      (¬accept x → ¬inside (move x) → next = .inr none)) w)
    {x : α} {points : List α} (walk : Walk move inside x points) (here : inside x) {w : W}
    (start : inv w) :
    Achieves env (Prog.doWhile body x)
      (fun found w' => inv w' ∧ found = (points.find? accept).getD none) w := by
  have looks : ∀ x w, inside x → inv w →
      ∃ next w', Looks env body move inside accept inv (fun _ => inv) none x w next w' := by
    intro x w here start
    obtain ⟨next, w', run, kept, hit, on, out⟩ := round x w here start
    refine ⟨next, w', run, fun accepted => ⟨hit accepted, kept⟩, fun _ => kept, ?_, ?_⟩
    · exact fun refused => on (Bool.eq_false_iff.mp refused)
    · exact fun refused => out (Bool.eq_false_iff.mp refused)
  cases found : points.find? accept with
  | none =>
    obtain ⟨w', rounds, kept⟩ := walk.missed looks here start found
    exact ⟨none, w', rounds.runs, kept, rfl⟩
  | some y =>
    obtain ⟨_, w', _, rounds, kept⟩ := walk.trail.1.found looks start found
    exact ⟨y, w', rounds.runs, kept, rfl⟩

/-- A loop that appends to `listed` the first accepted point from `x` on, goes on from the
point after it, and leaves at the end of the walk or when `cap` points are listed. -/
theorem achieves_collect {body : α → Prog S (α ⊕ Unit)} {listed : W → List α} {cap : Nat}
    {whole : List α}
    (miss : ∀ x points w, points <:+ whole → Walk move inside x points → inside x → inv w →
      points.find? accept = .none → Achieves env (body x)
        (fun next w' => inv w' ∧ listed w' = listed w ∧ next = .inr ()) w)
    (hit : ∀ x points w y, points <:+ whole → Walk move inside x points → inside x → inv w →
      (listed w).length < cap → points.find? accept = some y → Achieves env (body x)
        (fun next w' => inv w' ∧ listed w' = listed w ++ [y] ∧
          (inside (move y) ∧ (listed w').length < cap → next = .inl (move y)) ∧
          (¬(inside (move y) ∧ (listed w').length < cap) → next = .inr ())) w)
    {x : α} {points : List α} (part : points <:+ whole) (walk : Walk move inside x points)
    (here : inside x) {w : W} (room : (listed w).length < cap) (start : inv w) :
    Achieves env (Prog.doWhile body x)
      (fun _ w' => inv w' ∧ listed w' = (listed w ++ points.filter accept).take cap) w := by
  induction size : points.length using Nat.strongRecOn generalizing x points w with
  | ind n ih =>
    cases found : points.find? accept with
    | none =>
      obtain ⟨next, w₁, run, kept, same, rfl⟩ := miss x points w part walk here start found
      have nothing : points.filter accept = [] :=
        List.filter_eq_nil_iff.mpr (List.find?_eq_none.mp found)
      refine ⟨(), w₁, runs_doWhile.mpr (.inl run), kept, ?_⟩
      rw [nothing, List.append_nil, same, List.take_of_length_le (Nat.le_of_lt room)]
    | some y =>
      obtain ⟨next, w₁, run, kept, grown, on, out⟩ := hit x points w y part walk here start room found
      obtain ⟨rest, walk', tail, split⟩ := walk.find found
      have shorter : rest.length < points.length := tail.length_le
      have part' : rest <:+ whole := ((List.suffix_cons y rest).trans tail).trans part
      have assembled : listed w ++ points.filter accept = listed w₁ ++ rest.filter accept := by
        rw [split, grown, List.append_assoc]
        rfl
      rw [assembled]
      by_cases further : inside (move y) ∧ (listed w₁).length < cap
      · obtain rfl := on further
        obtain ⟨_, w', looped, reached⟩ := ih rest.length (size ▸ shorter) part' walk' further.1
          further.2 kept rfl
        exact ⟨(), w', runs_doWhile.mpr (.inr ⟨_, w₁, run, looped⟩), reached⟩
      · obtain rfl := out further
        refine ⟨(), w₁, runs_doWhile.mpr (.inl run), kept, ?_⟩
        by_cases full : (listed w₁).length < cap
        · -- the walk is over, so nothing is left to list
          have ended : rest = [] := by
            by_contra more
            exact further ⟨walk'.inside_iff.mpr more, full⟩
          rw [ended, List.filter_nil, List.append_nil, List.take_of_length_le (Nat.le_of_lt full)]
        · have filled : (listed w₁).length = cap := by
            rw [grown, List.length_append, List.length_singleton] at full ⊢
            omega
          rw [List.take_append_of_le_length (Nat.le_of_eq filled.symm), List.take_of_length_le (Nat.le_of_eq filled)]

end Yika.Program
