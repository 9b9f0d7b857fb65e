import Mathlib.Data.List.Forall2

/-! The tokens of a list: its maximal runs without a separator. -/

namespace Yika.Program

variable {α : Type} (separates : α → Bool)

def tokens (l : List α) : List (List α) := (l.splitOnP separates).filter fun run => !run.isEmpty

/-- The same entry, or two separators. -/
def Alike (a b : α) : Prop := b = a ∨ separates a = true ∧ separates b = true

variable {separates} {l m run word : List α} {s : α}

@[simp] theorem tokens_nil : tokens separates [] = [] := by
  rw [tokens, List.splitOnP_nil]
  rfl

theorem tokens_cons (sep : separates s = true) : tokens separates (s :: l) = tokens separates l := by
  rw [tokens, List.splitOnP_cons_eq_if_modifyHead, if_pos sep]
  rfl

theorem tokens_run (some : run ≠ []) (whole : ∀ c ∈ run, separates c = false)
    (sep : separates s = true) : tokens separates (run ++ s :: l) = run :: tokens separates l := by
  rw [tokens, List.splitOnP_append_cons_of_forall_mem whole s sep, List.filter_cons_of_pos]
  · rfl
  · simpa using some

theorem Alike.separates_eq {a b : α} (alike : Alike separates a b) : separates b = separates a := by
  rcases alike with same | ⟨sep, sep'⟩
  · rw [same]
  · rw [sep, sep']

theorem alike_refl : List.Forall₂ (Alike separates) l l :=
  List.forall₂_same.mpr fun _ _ => .inl rfl

theorem Alike.trans {a b c : α} (first : Alike separates a b) (second : Alike separates b c) :
    Alike separates a c := by
  rcases second with rfl | ⟨sep, sep'⟩
  · exact first
  · exact .inr ⟨first.separates_eq ▸ sep, sep'⟩

theorem alike_trans {n : List α} (first : List.Forall₂ (Alike separates) l m)
    (second : List.Forall₂ (Alike separates) m n) : List.Forall₂ (Alike separates) l n := by
  induction first generalizing n with
  | nil =>
    cases second
    exact .nil
  | cons here _ ih =>
    cases second with
    | cons here' rest => exact .cons (here.trans here') (ih rest)

/-- Which separators stand between the tokens does not matter. -/
theorem tokens_congr (alike : List.Forall₂ (Alike separates) l m) :
    tokens separates l = tokens separates m := by
  have split : l.splitOnP separates = m.splitOnP separates := by
    induction alike with
    | nil => rfl
    | cons first _ ih =>
      rw [List.splitOnP_cons_eq_if_modifyHead, List.splitOnP_cons_eq_if_modifyHead, ih, first.separates_eq]
      rcases first with rfl | ⟨sep, _⟩
      · rfl
      · rw [if_pos sep, if_pos sep]
  rw [tokens, split, tokens]

theorem Alike.getD {i : Nat} {a : α} (alike : List.Forall₂ (Alike separates) l m) :
    separates (m.getD i a) = separates (l.getD i a) := by
  induction alike generalizing i with
  | nil => rfl
  | cons first _ ih =>
    cases i with
    | zero => exact first.separates_eq
    | succ i => exact ih

theorem Alike.set {i : Nat} {a : α} (alike : List.Forall₂ (Alike separates) l m)
    (sep : separates (m.getD i a) = true) (sep' : separates s = true) :
    List.Forall₂ (Alike separates) l (m.set i s) := by
  induction alike generalizing i with
  | nil => exact .nil
  | cons first rest ih =>
    cases i with
    | zero => exact .cons (.inr ⟨first.separates_eq ▸ sep, sep'⟩) rest
    | succ i => exact .cons first (ih sep)

/-- A word without separators begins a run and what follows it exactly when it begins the run. -/
theorem prefix_run_iff (plain : ∀ c ∈ word, separates c = false) (sep : separates s = true) :
    word <+: run ++ s :: l ↔ word <+: run := by
  constructor
  · intro begins
    refine List.prefix_of_prefix_length_le begins (List.prefix_append run (s :: l)) ?_
    by_contra longer
    obtain ⟨rest, same⟩ := begins
    have inside : run.length < word.length := by omega
    have here : (word ++ rest)[run.length]? = some s := by simp [same]
    rw [List.getElem?_append_left inside, List.getElem?_eq_getElem inside] at here
    have member : s ∈ word := Option.some.inj here ▸ List.getElem_mem inside
    rw [plain s member] at sep
    cases sep
  · intro begins
    exact begins.trans (List.prefix_append run (s :: l))

end Yika.Program
