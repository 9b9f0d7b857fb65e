import Mathlib.Order.Lattice

/-! Finite sequences over an order: the lowest entry met so far, the bands between the edges of
a rising sequence, and grids. -/

namespace Yika.Program

section
variable {α β : Type} [LinearOrder β] (key : α → β)

/-- The entry to keep of two: the new one only if it is strictly lower. -/
def keepLower (best entry : α) : α := if key entry < key best then entry else best

/-- The first lowest entry of a list, if it is lower than the one kept so far. -/
def lowest (best : α) (entries : List α) : α := entries.foldl (keepLower key) best

theorem lowest_cons (best entry : α) (entries : List α) :
    lowest key best (entry :: entries) = lowest key (keepLower key best entry) entries := rfl

theorem keepLower_le (best entry : α) :
    key (keepLower key best entry) ≤ key best ∧ key (keepLower key best entry) ≤ key entry := by
  unfold keepLower
  split
  next lower => exact ⟨lower.le, le_rfl⟩
  next higher => exact ⟨le_rfl, not_lt.mp higher⟩

theorem lowest_le (best : α) (entries : List α) :
    key (lowest key best entries) ≤ key best ∧
      ∀ entry ∈ entries, key (lowest key best entries) ≤ key entry := by
  induction entries generalizing best with
  | nil => exact ⟨le_rfl, fun _ inside => by cases inside⟩
  | cons entry entries ih =>
    rw [lowest_cons]
    have step := keepLower_le key best entry
    have rest := ih (keepLower key best entry)
    refine ⟨rest.1.trans step.1, fun other inside => ?_⟩
    rcases List.mem_cons.mp inside with rfl | later
    · exact rest.1.trans step.2
    · exact rest.2 other later

theorem lowest_mem (best : α) (entries : List α) :
    lowest key best entries = best ∨
      (lowest key best entries ∈ entries ∧ key (lowest key best entries) < key best) := by
  induction entries generalizing best with
  | nil => exact .inl rfl
  | cons entry entries ih =>
    rw [lowest_cons]
    by_cases lower : key entry < key best
    · have kept : keepLower key best entry = entry := if_pos lower
      rw [kept]
      rcases ih entry with same | ⟨inside, below⟩
      · rw [same]
        exact .inr ⟨List.mem_cons_self, lower⟩
      · exact .inr ⟨List.mem_cons_of_mem entry inside, below.trans lower⟩
    · have kept : keepLower key best entry = best := if_neg lower
      rw [kept]
      rcases ih best with same | ⟨inside, below⟩
      · exact .inl same
      · exact .inr ⟨List.mem_cons_of_mem entry inside, below⟩

/-- The kept entry is one of the list that attains its minimum exactly when some entry was
strictly lower than the old one, or the old one is itself such an entry. -/
theorem lowest_mem_iff (best : α) (entries : List α) :
    lowest key best entries ∈ entries ↔
      (∃ entry ∈ entries, key entry < key best) ∨ best ∈ entries := by
  constructor
  · intro inside
    rcases lowest_mem key best entries with same | ⟨_, below⟩
    · rw [same] at inside
      exact .inr inside
    · exact .inl ⟨_, inside, below⟩
  · intro reached
    rcases lowest_mem key best entries with same | ⟨inside, _⟩
    · rcases reached with ⟨entry, inside, below⟩ | inside
      · have bound := (lowest_le key best entries).2 entry inside
        rw [same] at bound
        exact absurd below (not_lt.mpr bound)
      · rwa [same]
    · exact inside

end

/-- Between the ends of a rising sequence, everything is between two neighbours, and only two. -/
theorem existsUnique_band {α : Type} [LinearOrder α] {e : Nat → α} {n : Nat} {c : α}
    (rises : ∀ i < n, e i ≤ e (i + 1)) (low : e 0 ≤ c) (high : c < e n) :
    ∃! i, i < n ∧ e i ≤ c ∧ c < e (i + 1) := by
  induction n with
  | zero => exact absurd low (not_le.mpr high)
  | succ n ih =>
    by_cases below : c < e n
    · obtain ⟨i, ⟨bound, here⟩, only⟩ := ih (fun i h => rises i (by omega)) below
      refine ⟨i, ⟨by omega, here⟩, ?_⟩
      intro j given
      obtain ⟨bound', there⟩ := given
      by_cases last : j = n
      · subst last
        exact absurd there.1 (not_le.mpr below)
      · exact only j ⟨by omega, there⟩
    · refine ⟨n, ⟨by omega, not_lt.mp below, high⟩, ?_⟩
      intro j given
      obtain ⟨bound, there⟩ := given
      by_contra other
      have mono : ∀ k, j + 1 + k ≤ n → e (j + 1) ≤ e (j + 1 + k) := by
        intro k
        induction k with
        | zero => intro _; exact le_rfl
        | succ k ihk => intro h; exact (ihk (by omega)).trans (rises _ (by omega))
      have reach := mono (n - (j + 1)) (by omega)
      rw [show j + 1 + (n - (j + 1)) = n by omega] at reach
      exact below (lt_of_lt_of_le there.2 reach)

/-- The first upper edge that is above bounds the band. -/
theorem find_band {α : Type} [LinearOrder α] {e : Nat → α} {n : Nat} {c : α} (low : e 0 ≤ c)
    (high : c < e n) : ∃ i, (List.range n).find? (fun i => decide (c < e (i + 1))) = some i ∧
      i < n ∧ e i ≤ c ∧ c < e (i + 1) := by
  cases found : (List.range n).find? fun i => decide (c < e (i + 1)) with
  | none =>
    cases n with
    | zero => exact absurd low (not_le.mpr high)
    | succ n =>
      have last := List.find?_eq_none.mp found n (List.mem_range.mpr (Nat.lt_succ_self n))
      exact absurd high (by simpa using last)
  | some i =>
    obtain ⟨below, inside, before⟩ := List.find?_range_eq_some.mp found
    refine ⟨i, rfl, List.mem_range.mp inside, ?_, by simpa using below⟩
    cases i with
    | zero => exact low
    | succ k => simpa using before k (Nat.lt_succ_self k)

/-- On a grid, what is below a point is at least one step below it. -/
theorem grid_lt_iff {start step k m : Nat} (moves : 0 < step) :
    start + k * step < start + m * step ↔ start + k * step + step ≤ start + m * step := by
  constructor
  · intro below
    have fewer : k + 1 ≤ m := by
      by_contra more
      have back : m * step ≤ k * step := Nat.mul_le_mul_right step (by omega)
      omega
    calc start + k * step + step = start + (k + 1) * step := by rw [Nat.succ_mul, Nat.add_assoc]
      _ ≤ start + m * step := Nat.add_le_add_left (Nat.mul_le_mul_right step fewer) start
  · intro below
    omega

end Yika.Program
