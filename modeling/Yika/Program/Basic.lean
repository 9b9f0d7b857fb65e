import Mathlib.Logic.Function.Basic

/-! Interactive programs over a signature of atomic operations. A program is a tree: it
returns, performs one operation and continues with the answer, or runs a loop. Nothing
bounds a loop, so a program may diverge, and every statement about what a program does is
about its runs in an environment that answers the operations. -/

namespace Yika.Program

/-- The atomic operations of a program and the type of the answer each one gets. -/
structure Signature where
  Op : Type
  Answer : Op → Type

/-- `loop` runs its body on the current locals until the body leaves with `inr`. -/
inductive Prog (S : Signature) : Type → Type 1 where
  | ret {α : Type} (value : α) : Prog S α
  | op {α : Type} (o : S.Op) (next : S.Answer o → Prog S α) : Prog S α
  | loop {σ β α : Type} (body : σ → Prog S (σ ⊕ β)) (locals : σ) (next : β → Prog S α) : Prog S α

namespace Prog
variable {S : Signature} {α β γ σ : Type}

def bind : {α : Type} → Prog S α → (α → Prog S β) → Prog S β
  | _, .ret value, f => f value
  | _, .op o next, f => .op o (fun answer => (next answer).bind f)
  | _, .loop body locals next, f => .loop body locals (fun value => (next value).bind f)

instance : Monad (Prog S) where
  pure := .ret
  bind := bind

def perform (o : S.Op) : Prog S (S.Answer o) := .op o .ret

/-- A `do { .. } while (..)` loop; the body says whether to go round again. -/
def doWhile (body : σ → Prog S (σ ⊕ β)) (locals : σ) : Prog S β := .loop body locals .ret

/-- An `if` without an `else`. -/
def when (c : Prop) [Decidable c] (p : Prog S Unit) : Prog S Unit := if c then p else .ret ()

/-- `for (i = first; i < first + count; i++)`. -/
def forRange (body : Nat → Prog S Unit) : (first count : Nat) → Prog S Unit
  | _, 0 => .ret ()
  | first, count + 1 => bind (body first) (fun _ => forRange body (first + 1) count)

theorem bind_ret (p : Prog S α) : p.bind .ret = p := by
  induction p with
  | ret value => rfl
  | op o next ih => simp only [bind, ih]
  | loop body locals next _ ih => simp only [bind, ih]

theorem bind_assoc (p : Prog S α) (f : α → Prog S β) (g : β → Prog S γ) :
    (p.bind f).bind g = p.bind (fun value => (f value).bind g) := by
  induction p with
  | ret value => rfl
  | op o next ih => simp only [bind, ih]
  | loop body locals next _ ih => simp only [bind, ih]

instance : LawfulMonad (Prog S) where
  map_const := rfl
  id_map := bind_ret
  seqLeft_eq p q := by
    change bind p (fun a => bind q (fun _ => .ret a)) =
      bind (bind p (fun a => .ret (Function.const _ a))) (fun f => bind q (fun b => .ret (f b)))
    rw [bind_assoc]
    rfl
  seqRight_eq p q := by
    change bind p (fun _ => q) =
      bind (bind p (fun _ => .ret id)) (fun f => bind q (fun b => .ret (f b)))
    rw [bind_assoc]
    exact congrArg (bind p) (funext fun _ => (bind_ret q).symm)
  pure_seq f p := rfl
  bind_pure_comp f p := rfl
  bind_map f p := rfl
  pure_bind value f := rfl
  bind_assoc := bind_assoc

end Prog

/-- An environment answers every operation and moves to its next state. -/
abbrev Env (S : Signature) (W : Type) := (o : S.Op) → W → S.Answer o × W

variable {S : Signature} {W : Type} {α β σ : Type}

/-- `Runs env p w value w'`: in state `w` the program returns `value` in state `w'`. A
program that diverges from `w` has no run there. -/
inductive Runs (env : Env S W) : {α : Type} → Prog S α → W → α → W → Prop where
  | ret {α : Type} {value : α} {w : W} : Runs env (.ret value) w value w
  | op {α : Type} {o : S.Op} {next : S.Answer o → Prog S α} {w w' : W} {value : α} :
      Runs env (next (env o w).1) (env o w).2 value w' → Runs env (.op o next) w value w'
  | again {σ β α : Type} {body : σ → Prog S (σ ⊕ β)} {x y : σ} {next : β → Prog S α}
      {w w₁ w' : W} {value : α} :
      Runs env (body x) w (.inl y) w₁ → Runs env (.loop body y next) w₁ value w' →
      Runs env (.loop body x next) w value w'
  | leave {σ β α : Type} {body : σ → Prog S (σ ⊕ β)} {x : σ} {out : β} {next : β → Prog S α}
      {w w₁ w' : W} {value : α} :
      Runs env (body x) w (.inr out) w₁ → Runs env (next out) w₁ value w' →
      Runs env (.loop body x next) w value w'

/-- `Visits env p w o w'`: the execution of `p` from `w` performs `o` in state `w'`. It
covers executions that never return. -/
inductive Visits (env : Env S W) : {α : Type} → Prog S α → W → S.Op → W → Prop where
  | here {α : Type} {o : S.Op} {next : S.Answer o → Prog S α} {w : W} :
      Visits env (.op o next) w o w
  | op {α : Type} {o o' : S.Op} {next : S.Answer o → Prog S α} {w w' : W} :
      Visits env (next (env o w).1) (env o w).2 o' w' → Visits env (.op o next) w o' w'
  | body {σ β α : Type} {body : σ → Prog S (σ ⊕ β)} {x : σ} {next : β → Prog S α}
      {o' : S.Op} {w w' : W} :
      Visits env (body x) w o' w' → Visits env (.loop body x next) w o' w'
  | again {σ β α : Type} {body : σ → Prog S (σ ⊕ β)} {x y : σ} {next : β → Prog S α}
      {o' : S.Op} {w w₁ w' : W} :
      Runs env (body x) w (.inl y) w₁ → Visits env (.loop body y next) w₁ o' w' →
      Visits env (.loop body x next) w o' w'
  | leave {σ β α : Type} {body : σ → Prog S (σ ⊕ β)} {x : σ} {out : β} {next : β → Prog S α}
      {o' : S.Op} {w w₁ w' : W} :
      Runs env (body x) w (.inr out) w₁ → Visits env (next out) w₁ o' w' →
      Visits env (.loop body x next) w o' w'

/-- `Uses allowed p`: every operation anywhere in the program is an allowed one. -/
def Uses (allowed : S.Op → Prop) : {α : Type} → Prog S α → Prop
  | _, .ret _ => True
  | _, .op o next => allowed o ∧ ∀ answer, Uses allowed (next answer)
  | _, .loop body _ next => (∀ locals, Uses allowed (body locals)) ∧ ∀ out, Uses allowed (next out)

def spin (step : σ → W → Option ((σ ⊕ β) × W)) : Nat → σ → W → Option (β × W)
  | 0, _, _ => none
  | rounds + 1, x, w =>
    match step x w with
    | none => none
    | some (.inl y, w₁) => spin step rounds y w₁
    | some (.inr out, w₁) => some (out, w₁)

/-- Executes a program, giving every loop at most `rounds` rounds. -/
def exec (env : Env S W) (rounds : Nat) : {α : Type} → Prog S α → W → Option (α × W)
  | _, .ret value, w => some (value, w)
  | _, .op o next, w => exec env rounds (next (env o w).1) (env o w).2
  | _, .loop body locals next, w =>
    match spin (fun x w => exec env rounds (body x) w) rounds locals w with
    | none => none
    | some (out, w₁) => exec env rounds (next out) w₁

end Yika.Program
