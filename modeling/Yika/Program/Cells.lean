import Mathlib.Data.Fin.Tuple.Basic
import Mathlib.Logic.Function.Basic
import Yika.Program.Spec

/-! A memory of cells that are loaded and stored one at a time, and values that are laid out over
several cells in a row. -/

namespace Yika.Program
variable {V τ : Type}

inductive CellOp (V : Type) where
  | load (a : Nat)
  | store (a : Nat) (value : V)

abbrev CellOp.Answer : CellOp V → Type
  | .load _ => V
  | .store _ _ => Unit

abbrev cellSignature (V : Type) : Signature := ⟨CellOp V, CellOp.Answer⟩

def cellEnv (V : Type) : Env (cellSignature V) (Nat → V)
  | .load a, m => (m a, m)
  | .store a value, m => ((), Function.update m a value)

def loadCell (a : Nat) : Prog (cellSignature V) V := @Prog.perform (cellSignature V) (.load a)

def storeCell (a : Nat) (value : V) : Prog (cellSignature V) Unit :=
  @Prog.perform (cellSignature V) (.store a value)

def loadCells : (n a : Nat) → Prog (cellSignature V) (Fin n → V)
  | 0, _ => pure Fin.elim0
  | n + 1, a => do
    let first ← loadCell a
    let rest ← loadCells n (a + 1)
    pure (Fin.cons first rest)

def storeCells : (n a : Nat) → (Fin n → V) → Prog (cellSignature V) Unit
  | 0, _, _ => pure ()
  | n + 1, a, values => do
    storeCell a (values 0)
    storeCells n (a + 1) (Fin.tail values)

def cellsAt (m : Nat → V) (n a : Nat) : Fin n → V := fun i => m (a + i)

/-- The memory with these values in the cells from `a` on. -/
def overwrite {n : Nat} (m : Nat → V) (a : Nat) (values : Fin n → V) : Nat → V := fun c =>
  if inside : a ≤ c ∧ c - a < n then values ⟨c - a, inside.2⟩ else m c

section
variable {n a c : Nat} {m m' : Nat → V} {value : V} {values : Fin n → V}

theorem runs_loadCell : Runs (cellEnv V) (loadCell a) m value m' ↔ value = m a ∧ m' = m := runs_perform

theorem runs_storeCell : Runs (cellEnv V) (storeCell a value) m () m' ↔ m' = Function.update m a value := by
  constructor
  · intro run
    exact (runs_perform.mp run).2
  · rintro rfl
    exact runs_perform.mpr ⟨rfl, rfl⟩

theorem overwrite_inside (i : Fin n) : overwrite m a values (a + i) = values i := by
  have inside : a ≤ a + i ∧ a + i - a < n := by omega
  have offset : (⟨a + i - a, inside.2⟩ : Fin n) = i := Fin.ext (Nat.add_sub_cancel_left a i)
  rw [overwrite, dif_pos inside, offset]

theorem overwrite_outside (outside : c < a ∨ a + n ≤ c) : overwrite m a values c = m c :=
  dif_neg (by omega)

theorem cellsAt_overwrite : cellsAt (overwrite m a values) n a = values :=
  funext overwrite_inside

theorem overwrite_cellsAt : overwrite m a (cellsAt m n a) = m := by
  funext c
  by_cases inside : a ≤ c ∧ c - a < n
  · rw [overwrite, dif_pos inside, cellsAt, Nat.add_sub_cancel' inside.1]
  · exact overwrite_outside (by omega)

theorem overwrite_none {values : Fin 0 → V} : overwrite m a values = m :=
  funext fun _ => overwrite_outside (by omega)

theorem overwrite_succ {values : Fin (n + 1) → V} :
    overwrite (Function.update m a (values 0)) (a + 1) (Fin.tail values) = overwrite m a values := by
  funext c
  rcases Nat.lt_trichotomy c a with below | rfl | above
  · rw [overwrite_outside (by omega), overwrite_outside (by omega), Function.update_of_ne (by omega)]
  · rw [overwrite_outside (by omega), Function.update_self]
    exact (overwrite_inside (0 : Fin (n + 1))).symm
  · by_cases within : c < a + (n + 1)
    · have later := @overwrite_inside V n (a + 1) (Function.update m a (values 0)) (Fin.tail values)
        ⟨c - (a + 1), by omega⟩
      have there := @overwrite_inside V (n + 1) a m values ⟨c - a, by omega⟩
      have place : a + 1 + (c - (a + 1)) = c := by omega
      have place' : a + (c - a) = c := by omega
      have index : (⟨c - (a + 1), by omega⟩ : Fin n).succ = ⟨c - a, by omega⟩ :=
        Fin.ext (by simp only [Fin.val_succ]; omega)
      simp only [place] at later
      simp only [place'] at there
      rw [later, there, Fin.tail, index]
    · rw [overwrite_outside (by omega), overwrite_outside (by omega), Function.update_of_ne (by omega)]

theorem runs_loadCells : Runs (cellEnv V) (loadCells n a) m values m' ↔ values = cellsAt m n a ∧ m' = m := by
  induction n generalizing a m m' with
  | zero =>
    have none : (Fin.elim0 : Fin 0 → V) = cellsAt m 0 a := funext fun i => i.elim0
    rw [← none]
    exact runs_pure
  | succ n ih =>
    have cells : Fin.cons (m a) (cellsAt m n (a + 1)) = cellsAt m (n + 1) a := by
      funext i
      cases i using Fin.cases with
      | zero => rfl
      | succ i =>
        rw [Fin.cons_succ, cellsAt, cellsAt, Fin.val_succ]
        congr 1
        omega
    rw [← cells]
    constructor
    · intro run
      obtain ⟨first, m₁, one, rest⟩ := runs_bind.mp run
      obtain ⟨rfl, rfl⟩ := runs_loadCell.mp one
      obtain ⟨others, m₂, many, last⟩ := runs_bind.mp rest
      obtain ⟨rfl, rfl⟩ := ih.mp many
      exact runs_pure.mp last
    · rintro ⟨rfl, rfl⟩
      exact (runs_loadCell.mpr ⟨rfl, rfl⟩).seq ((ih.mpr ⟨rfl, rfl⟩).seq (runs_pure.mpr ⟨rfl, rfl⟩))

theorem runs_storeCells : Runs (cellEnv V) (storeCells n a values) m () m' ↔ m' = overwrite m a values := by
  induction n generalizing a m with
  | zero =>
    rw [overwrite_none]
    exact runs_pure.trans (and_iff_right rfl)
  | succ n ih =>
    rw [← overwrite_succ]
    constructor
    · intro run
      obtain ⟨_, m₁, one, rest⟩ := runs_bind.mp run
      obtain rfl := runs_storeCell.mp one
      exact ih.mp rest
    · rintro rfl
      exact (runs_storeCell.mpr rfl).seq (ih.mpr rfl)

end

/-- A type whose values are made of cells, one for each field. -/
structure Layout (V τ : Type) where
  size : Nat
  fields : τ ≃ (Fin size → V)

namespace Layout
variable (l : Layout V τ)

def read (m : Nat → V) (a : Nat) : τ := l.fields.symm (cellsAt m l.size a)

def write (m : Nat → V) (a : Nat) (value : τ) : Nat → V := overwrite m a (l.fields value)

def load (a : Nat) : Prog (cellSignature V) τ := do
  let values ← loadCells l.size a
  pure (l.fields.symm values)

def store (a : Nat) (value : τ) : Prog (cellSignature V) Unit := storeCells l.size a (l.fields value)

variable {l} {a c : Nat} {m m' : Nat → V} {value : τ}

theorem read_write : l.read (l.write m a value) a = value := by
  rw [read, write, cellsAt_overwrite, Equiv.symm_apply_apply]

theorem write_read : l.write m a (l.read m a) = m := by
  rw [read, write, Equiv.apply_symm_apply, overwrite_cellsAt]

theorem write_outside (outside : c < a ∨ a + l.size ≤ c) : l.write m a value c = m c :=
  overwrite_outside outside

theorem runs_load : Runs (cellEnv V) (l.load a) m value m' ↔ value = l.read m a ∧ m' = m := by
  constructor
  · intro run
    obtain ⟨values, m₁, cells, last⟩ := runs_bind.mp run
    obtain ⟨rfl, rfl⟩ := runs_loadCells.mp cells
    exact runs_pure.mp last
  · rintro ⟨rfl, rfl⟩
    exact (runs_loadCells.mpr ⟨rfl, rfl⟩).seq (runs_pure.mpr ⟨rfl, rfl⟩)

theorem runs_store : Runs (cellEnv V) (l.store a value) m () m' ↔ m' = l.write m a value := runs_storeCells

end Layout

end Yika.Program
