import Mathlib.Algebra.BigOperators.Group.Finset.Basic
import Mathlib.Algebra.Order.BigOperators.Group.Finset
import Yika.Program.Bounded

/-! Loops that move a number of items in as many pieces as it takes. The results of the turns are
given in advance: a piece, possibly empty, or a failure, which ends the loop. -/

namespace Yika.Program

inductive Piece where
  | moved (count : Nat)
  | failed
  deriving DecidableEq

def Piece.count : Piece → Nat
  | .moved count => count
  | .failed => 0

/-- What the first `turns` turns can move. -/
def movedBy (pieces : Nat → Piece) (turns : Nat) : Nat :=
  ∑ turn ∈ Finset.range turns, (pieces turn).count

/-- No turn before `turns` fails. -/
def Unbroken (pieces : Nat → Piece) (turns : Nat) : Prop := ∀ turn < turns, pieces turn ≠ .failed

/-- `len` items are moved before a turn fails. -/
def Completes (pieces : Nat → Piece) (len : Nat) : Prop :=
  ∃ turns, Unbroken pieces turns ∧ len ≤ movedBy pieces turns

/-- A turn fails before `len` items are moved. -/
def Breaks (pieces : Nat → Piece) (len : Nat) : Prop :=
  ∃ turns, Unbroken pieces turns ∧ movedBy pieces turns < len ∧ pieces turns = .failed

/-- From some turn on nothing is moved any more, before `len` items are and before a turn fails. -/
def Stalls (pieces : Nat → Piece) (len : Nat) : Prop :=
  ∃ turns, Unbroken pieces turns ∧ movedBy pieces turns < len ∧
    ∀ turn, turns ≤ turn → pieces turn = .moved 0

/-- There is always a turn to come that moves something or fails. -/
def Moving (pieces : Nat → Piece) : Prop := ∀ turn, ∃ later, turn ≤ later ∧ pieces later ≠ .moved 0

section
variable {pieces : Nat → Piece} {len turns : Nat}

@[simp] theorem movedBy_zero : movedBy pieces 0 = 0 := rfl

theorem movedBy_succ : movedBy pieces (turns + 1) = movedBy pieces turns + (pieces turns).count :=
  Finset.sum_range_succ _ _

theorem movedBy_mono : Monotone (movedBy pieces) := by
  refine monotone_nat_of_le_succ fun turns => ?_
  rw [movedBy_succ]
  exact Nat.le_add_right _ _

theorem unbroken_zero : Unbroken pieces 0 := fun _ below => absurd below (Nat.not_lt_zero _)

theorem unbroken_succ :
    Unbroken pieces (turns + 1) ↔ Unbroken pieces turns ∧ pieces turns ≠ .failed := by
  constructor
  · intro unbroken
    exact ⟨fun turn below => unbroken turn (by omega), unbroken turns (Nat.lt_succ_self turns)⟩
  · intro given turn below
    rcases Nat.lt_succ_iff_lt_or_eq.mp below with earlier | rfl
    · exact given.1 turn earlier
    · exact given.2

theorem Unbroken.le {earlier : Nat} (unbroken : Unbroken pieces turns) (before : earlier ≤ turns) :
    Unbroken pieces earlier := fun turn below => unbroken turn (by omega)

/-- A rising sequence of numbers that stays below a bound settles. -/
theorem settles {f : Nat → Nat} {bound : Nat} (rises : Monotone f) (below : ∀ n, f n < bound) :
    ∃ n, ∀ m, n ≤ m → f m = f n := by
  have gaps : ∃ gap n, bound - f n = gap := ⟨_, 0, rfl⟩
  classical
  obtain ⟨n, least⟩ := Nat.find_spec gaps
  refine ⟨n, fun m later => ?_⟩
  have smallest := Nat.find_min' gaps ⟨m, rfl⟩
  have up := rises later
  have inside := below m
  omega

/-- One of three things happens. -/
theorem completes_or_breaks_or_stalls (pieces : Nat → Piece) (len : Nat) :
    Completes pieces len ∨ Breaks pieces len ∨ Stalls pieces len := by
  by_cases completes : Completes pieces len
  · exact .inl completes
  by_cases breaks : Breaks pieces len
  · exact .inr (.inl breaks)
  have going (turns : Nat) : Unbroken pieces turns ∧ movedBy pieces turns < len := by
    induction turns with
    | zero =>
      refine ⟨unbroken_zero, Nat.lt_of_not_le fun enough => ?_⟩
      exact completes ⟨0, unbroken_zero, enough⟩
    | succ turns ih =>
      have next : Unbroken pieces (turns + 1) :=
        unbroken_succ.mpr ⟨ih.1, fun failed => breaks ⟨turns, ih.1, ih.2, failed⟩⟩
      exact ⟨next, Nat.lt_of_not_le fun enough => completes ⟨turns + 1, next, enough⟩⟩
  obtain ⟨turns, settled⟩ := settles movedBy_mono fun turns => (going turns).2
  refine .inr (.inr ⟨turns, (going turns).1, (going turns).2, fun turn later => ?_⟩)
  have unbroken := (unbroken_succ.mp (going (turn + 1)).1).2
  have same : movedBy pieces (turn + 1) = movedBy pieces turn :=
    (settled (turn + 1) (by omega)).trans (settled turn later).symm
  rw [movedBy_succ] at same
  cases result : pieces turn with
  | failed => exact absurd result unbroken
  | moved count =>
    rw [result] at same
    have empty : count = 0 := Nat.add_eq_left.mp same
    rw [empty]

theorem Stalls.movedBy_lt (stalls : Stalls pieces len) (turns : Nat) : movedBy pieces turns < len := by
  obtain ⟨last, _, below, idle⟩ := stalls
  rcases Nat.le_total turns last with early | late
  · exact Nat.lt_of_le_of_lt (movedBy_mono early) below
  · induction turns, late using Nat.le_induction with
    | base => exact below
    | succ turns late ih => rw [movedBy_succ, idle turns late]; exact ih

theorem Stalls.unbroken (stalls : Stalls pieces len) (turns : Nat) : Unbroken pieces turns := by
  obtain ⟨last, unbroken, _, idle⟩ := stalls
  intro turn _
  rcases Nat.lt_or_ge turn last with early | late
  · exact unbroken turn early
  · rw [idle turn late]
    exact Piece.noConfusion

end

/-- A loop that goes by the results: in `inv turn`, with the locals of that turn, it leaves with
`done` when enough has been moved, with `broken` when the turn fails, and goes on when a piece is
moved. -/
structure Pumps {S : Signature} {W σ β : Type} (env : Env S W) (body : σ → Prog S (σ ⊕ β))
    (pieces : Nat → Piece) (len : Nat) (locals : Nat → σ) (done broken : β) (inv : Nat → W → Prop) :
    Prop where
  finish : ∀ turn w, inv turn w → len ≤ movedBy pieces turn →
    Achieves env (body (locals turn)) (fun next w' => next = .inr done ∧ inv turn w') w
  fail : ∀ turn w, inv turn w → movedBy pieces turn < len → pieces turn = .failed →
    Achieves env (body (locals turn)) (fun next w' => next = .inr broken ∧ inv (turn + 1) w') w
  go : ∀ turn w count, inv turn w → movedBy pieces turn < len → pieces turn = .moved count →
    Achieves env (body (locals turn))
      (fun next w' => next = .inl (locals (turn + 1)) ∧ inv (turn + 1) w') w

section
variable {S : Signature} {W σ β : Type} {env : Env S W} {body : σ → Prog S (σ ⊕ β)}
  {pieces : Nat → Piece} {len turn : Nat} {locals : Nat → σ} {done broken : β}
  {inv : Nat → W → Prop} {w : W}

/-- From a turn on, up to a later one before which nothing ends the loop. -/
theorem Pumps.reach (pumps : Pumps env body pieces len locals done broken inv) {last : Nat}
    {post : β → W → Prop} (before : turn ≤ last) (unbroken : Unbroken pieces last)
    (wanting : ∀ t < last, movedBy pieces t < len)
    (rest : ∀ w, inv last w → Achieves env (Prog.doWhile body (locals last)) post w)
    (start : inv turn w) : Achieves env (Prog.doWhile body (locals turn)) post w := by
  induction left : last - turn generalizing turn w with
  | zero =>
    obtain rfl : turn = last := by omega
    exact rest w start
  | succ left ih =>
    have early : turn < last := by omega
    cases result : pieces turn with
    | failed => exact absurd result (unbroken turn early)
    | moved count =>
      apply Achieves.doWhile
      apply (pumps.go turn w count start (wanting turn early) result).mono
      intro next w' moved
      obtain ⟨rfl, holds⟩ := moved
      exact ih early holds (by omega)

theorem Completes.first (completes : Completes pieces len) : ∃ turns, Unbroken pieces turns ∧
    len ≤ movedBy pieces turns ∧ ∀ t < turns, movedBy pieces t < len := by
  obtain ⟨turns, unbroken, enough⟩ := completes
  have some : ∃ turns, len ≤ movedBy pieces turns := ⟨turns, enough⟩
  classical
  refine ⟨Nat.find some, unbroken.le (Nat.find_min' some enough), Nat.find_spec some, ?_⟩
  exact fun t early => Nat.lt_of_not_le (Nat.find_min some early)

theorem Pumps.completes (pumps : Pumps env body pieces len locals done broken inv)
    (completes : Completes pieces len) (start : inv 0 w) :
    Achieves env (Prog.doWhile body (locals 0)) (fun out w' => out = done ∧
      ∃ turns, inv turns w' ∧ len ≤ movedBy pieces turns) w := by
  obtain ⟨turns, unbroken, enough, wanting⟩ := completes.first
  refine pumps.reach (Nat.zero_le turns) unbroken wanting ?_ start
  intro w' here
  apply Achieves.doWhile
  apply (pumps.finish turns w' here enough).mono
  intro next w'' left
  obtain ⟨rfl, holds⟩ := left
  exact ⟨rfl, turns, holds, enough⟩

theorem Pumps.breaks (pumps : Pumps env body pieces len locals done broken inv)
    (breaks : Breaks pieces len) (start : inv 0 w) :
    Achieves env (Prog.doWhile body (locals 0)) (fun out w' => out = broken ∧
      ∃ turns, inv turns w' ∧ movedBy pieces turns < len) w := by
  obtain ⟨turns, unbroken, below, failed⟩ := breaks
  have wanting : ∀ t < turns, movedBy pieces t < len :=
    fun t early => Nat.lt_of_le_of_lt (movedBy_mono (Nat.le_of_lt early)) below
  refine pumps.reach (Nat.zero_le turns) unbroken wanting ?_ start
  intro w' here
  apply Achieves.doWhile
  apply (pumps.fail turns w' here below failed).mono
  intro next w'' left
  obtain ⟨rfl, holds⟩ := left
  refine ⟨rfl, turns + 1, holds, ?_⟩
  rwa [movedBy_succ, failed]

theorem Pumps.stalls (pumps : Pumps env body pieces len locals done broken inv)
    (stalls : Stalls pieces len) (start : inv 0 w) :
    Ensures env (Prog.doWhile body (locals 0)) (fun _ _ => False) w := by
  refine ensures_doWhile (fun x w => ∃ turn, x = locals turn ∧ inv turn w) ?_ ⟨0, rfl, start⟩
  intro x w given
  obtain ⟨turn, rfl, here⟩ := given
  cases result : pieces turn with
  | failed => exact absurd result (stalls.unbroken (turn + 1) turn (Nat.lt_succ_self turn))
  | moved count =>
    have goes := (pumps.go turn w count here (stalls.movedBy_lt turn) result).ensures
    intro next w' run
    obtain ⟨rfl, holds⟩ := goes next w' run
    exact ⟨turn + 1, rfl, holds⟩

theorem Pumps.ensures (pumps : Pumps env body pieces len locals done broken inv) (start : inv 0 w) :
    Ensures env (Prog.doWhile body (locals 0)) (fun out w' =>
      (out = done ∧ ∃ turns, inv turns w' ∧ len ≤ movedBy pieces turns) ∨
        out = broken ∧ ∃ turns, inv turns w' ∧ movedBy pieces turns < len) w := by
  rcases completes_or_breaks_or_stalls pieces len with completes | breaks | stalls
  · exact (pumps.completes completes start).ensures.mono fun _ _ reached => .inl reached
  · exact (pumps.breaks breaks start).ensures.mono fun _ _ reached => .inr reached
  · exact (pumps.stalls stalls start).mono fun _ _ never => never.elim

theorem Pumps.returns_iff (pumps : Pumps env body pieces len locals done broken inv)
    (start : inv 0 w) : Achieves env (Prog.doWhile body (locals 0)) (fun _ _ => True) w ↔
      ¬Stalls pieces len := by
  constructor
  · intro returns stalls
    obtain ⟨out, w', run, _⟩ := returns
    exact pumps.stalls stalls start out w' run
  · intro moving
    rcases completes_or_breaks_or_stalls pieces len with completes | breaks | stalls
    · exact (pumps.completes completes start).mono fun _ _ _ => trivial
    · exact (pumps.breaks breaks start).mono fun _ _ _ => trivial
    · exact absurd stalls moving

theorem Pumps.done_iff (pumps : Pumps env body pieces len locals done broken inv)
    (apart : broken ≠ done) (start : inv 0 w) :
    Achieves env (Prog.doWhile body (locals 0)) (fun out _ => out = done) w ↔
      Completes pieces len := by
  constructor
  · intro returns
    rcases completes_or_breaks_or_stalls pieces len with completes | breaks | stalls
    · exact completes
    · obtain ⟨out, w', run, rfl⟩ := returns
      have other := (pumps.breaks breaks start).ensures out w' run
      exact absurd other.1.symm apart
    · obtain ⟨out, w', run, _⟩ := returns
      exact (pumps.stalls stalls start out w' run).elim
  · intro completes
    exact (pumps.completes completes start).mono fun _ _ reached => reached.1

end

end Yika.Program
