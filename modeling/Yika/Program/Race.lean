import Yika.Program.Fields
import Yika.Program.Path

/-! Two clients that update cells with nothing to keep them apart: each reads a cell, changes bits of
what it has read and writes the cell back, and the other one may write in between. Where both
change the same bits of a cell none of the updates is lost. -/

namespace Yika.Program
variable {κ : Type} {n : Nat}

def Update.merge (u : Update κ n) (seen : BitVec n) : BitVec n := (seen &&& ~~~u.mask) ||| (u.value &&& u.mask)

inductive Access (κ : Type) (n : Nat) where
  | read (key : κ) (seen : BitVec n)
  | write (key : κ) (value : BitVec n)

def Access.Happens [DecidableEq κ] (cells : κ → BitVec n) : Access κ n → (κ → BitVec n) → Prop
  | .read key seen, cells' => seen = cells key ∧ cells' = cells
  | .write key value, cells' => cells' = Function.update cells key value

/-- The accesses are those of these updates, one after the other. The first of them has been begun
if its cell has been `held`. -/
inductive Updating : Option (BitVec n) → List (Update κ n) → List (Access κ n) → Prop where
  | done : Updating none [] []
  | read {u : Update κ n} {us : List (Update κ n)} {seen : BitVec n} {rest : List (Access κ n)} :
      Updating (some seen) (u :: us) rest → Updating none (u :: us) (.read u.key seen :: rest)
  | written {u : Update κ n} {us : List (Update κ n)} {seen : BitVec n} {rest : List (Access κ n)} :
      Updating none us rest → Updating (some seen) (u :: us) (.write u.key (u.merge seen) :: rest)
  | replaced {u : Update κ n} {us : List (Update κ n)} {rest : List (Access κ n)} :
      u.mask = BitVec.allOnes n → Updating none us rest → Updating none (u :: us) (.write u.key u.value :: rest)

def accessesOf (client : Bool) (schedule : List (Bool × Access κ n)) : List (Access κ n) :=
  (schedule.filter fun l => l.1 == client).map Prod.snd

section
variable {client client' : Bool} {schedule : List (Bool × Access κ n)}

@[simp] theorem accessesOf_self (a : Access κ n) :
    accessesOf client ((client, a) :: schedule) = a :: accessesOf client schedule := by
  simp [accessesOf]

theorem accessesOf_other (other : client' ≠ client) (a : Access κ n) :
    accessesOf client' ((client, a) :: schedule) = accessesOf client' schedule := by
  simp [accessesOf, other.symm]

end

section
variable {u u' : Update κ n} {us us' : List (Update κ n)} {seen : BitVec n} {held : Option (BitVec n)}
  {first rest : List (Access κ n)} {cells cells' cells₀ : κ → BitVec n} {key : κ}

theorem Updating.append (early : Updating held us first) (late : Updating none us' rest) :
    Updating held (us ++ us') (first ++ rest) := by
  induction early with
  | done => exact late
  | read _ ih => exact .read ih
  | written _ ih => exact .written ih
  | replaced all _ ih => exact .replaced all ih

theorem merge_allOnes (all : u.mask = BitVec.allOnes n) : u.merge seen = u.value := by
  rw [Update.merge, all, BitVec.not_allOnes, BitVec.and_zero, BitVec.zero_or, BitVec.and_allOnes]

/-- An update of the same bits leaves nothing of the one before. -/
theorem merge_merge (same : u.mask = u'.mask) : u.merge (u'.merge seen) = u.merge seen := by
  apply BitVec.eq_of_getLsbD_eq
  intro i inside
  simp only [Update.merge, BitVec.getLsbD_or, BitVec.getLsbD_and, BitVec.getLsbD_not, same, inside, decide_true,
    Bool.true_and]
  cases u'.mask.getLsbD i with
  | true => simp
  | false => simp

theorem merge_congr (mask : u.mask = u'.mask) (value : u.value &&& u.mask = u'.value &&& u'.mask) :
    u.merge seen = u'.merge seen := by
  rw [Update.merge, value, mask, Update.merge]

variable [DecidableEq κ]

theorem apply_self : u.apply cells u.key = u.merge (cells u.key) := Function.update_self ..

theorem apply_of_ne (other : key ≠ u.key) : u.apply cells key = cells key := Function.update_of_ne other ..

theorem applyAll_of_ne (others : ∀ u ∈ us, u.key ≠ key) : applyAll us cells key = cells key := by
  induction us generalizing cells with
  | nil => rfl
  | cons u us ih =>
    rw [List.forall_mem_cons] at others
    rw [applyAll_cons, ih others.2, apply_of_ne others.1.symm]

/-- Where no cell is updated twice, a cell is what its update makes of it. -/
theorem applyAll_at (once : (us.map Update.key).Nodup) (member : u ∈ us) :
    applyAll us cells u.key = u.merge (cells u.key) := by
  induction us generalizing cells with
  | nil => cases member
  | cons u' us ih =>
    rw [List.map_cons, List.nodup_cons] at once
    rw [applyAll_cons]
    rcases List.mem_cons.mp member with rfl | later
    · rw [applyAll_of_ne, apply_self]
      intro other inside same
      exact once.1 (same ▸ List.mem_map_of_mem inside)
    · rw [ih once.2 later, apply_of_ne]
      intro same
      exact once.1 (same ▸ List.mem_map_of_mem later)

end

/-! The race. -/

/-- Whatever updates the same cell updates the same bits of it. -/
def SameBits (us : List (Update κ n)) : Prop := ∀ u ∈ us, ∀ u' ∈ us, u.key = u'.key → u.mask = u'.mask

/-- The cell is as one of the updates makes it of what it was. -/
def Merged (all : List (Update κ n)) (cells₀ cells : κ → BitVec n) (key : κ) : Prop :=
  ∃ u ∈ all, u.key = key ∧ cells key = u.merge (cells₀ key)

/-- While the clients run: `left` is what each has still to do, and `held` what it has read for the
first of it. -/
structure Racing (all : List (Update κ n)) (cells₀ : κ → BitVec n) (left : Bool → List (Update κ n))
    (held : Bool → Option (BitVec n)) (cells : κ → BitVec n) : Prop where
  listed : ∀ client, ∀ u ∈ left client, u ∈ all
  known : ∀ key, cells key = cells₀ key ∨ Merged all cells₀ cells key
  made : ∀ u ∈ all, (∃ client, u ∈ left client) ∨ Merged all cells₀ cells u.key
  fresh : ∀ client seen, held client = some seen → ∀ u ∈ (left client).head?,
    u.merge seen = u.merge (cells₀ u.key)

section
variable [DecidableEq κ] {all : List (Update κ n)} {cells cells' cells₀ : κ → BitVec n} {left : Bool → List (Update κ n)}
  {held : Bool → Option (BitVec n)} {schedule : List (Bool × Access κ n)} {u : Update κ n}
  {us : List (Update κ n)} {client : Bool} {key : κ} {value : BitVec n}

theorem Merged.update (member : u ∈ all) (merged : value = u.merge (cells₀ u.key))
    (before : Merged all cells₀ cells key) : Merged all cells₀ (Function.update cells u.key value) key := by
  by_cases here : key = u.key
  · subst here
    exact ⟨u, member, rfl, by rw [Function.update_self, merged]⟩
  · obtain ⟨u', member', same, there⟩ := before
    exact ⟨u', member', same, by rw [Function.update_of_ne here, there]⟩

omit [DecidableEq κ] in
theorem Racing.read (racing : Racing all cells₀ left held cells) (same : SameBits all)
    (next : left client = u :: us) :
    Racing all cells₀ left (Function.update held client (some (cells u.key))) cells where
  listed := racing.listed
  known := racing.known
  made := racing.made
  fresh client' seen now u' first := by
    by_cases own : client' = client
    · subst own
      rw [Function.update_self] at now
      rw [next] at first
      obtain rfl := Option.some.inj now
      obtain rfl := Option.some.inj first
      rcases racing.known u.key with untouched | ⟨u', member, there, merged⟩
      · rw [untouched]
      · rw [merged]
        exact merge_merge (same u (racing.listed client' u (next ▸ List.mem_cons_self)) u' member there.symm)
    · rw [Function.update_of_ne own] at now
      exact racing.fresh client' seen now u' first

theorem Racing.write (racing : Racing all cells₀ left held cells) (next : left client = u :: us)
    (merged : value = u.merge (cells₀ u.key)) :
    Racing all cells₀ (Function.update left client us) (Function.update held client none)
      (Function.update cells u.key value) := by
  have member : u ∈ all := racing.listed client u (next ▸ List.mem_cons_self)
  have here : Merged all cells₀ (Function.update cells u.key value) u.key :=
    ⟨u, member, rfl, by rw [Function.update_self, merged]⟩
  constructor
  · intro client' u' member'
    by_cases own : client' = client
    · subst own
      rw [Function.update_self] at member'
      exact racing.listed client' u' (next ▸ List.mem_cons_of_mem u member')
    · rw [Function.update_of_ne own] at member'
      exact racing.listed client' u' member'
  · intro key
    by_cases own : key = u.key
    · exact .inr (own ▸ here)
    · rcases racing.known key with untouched | before
      · exact .inl ((Function.update_of_ne own ..).trans untouched)
      · exact .inr (before.update member merged)
  · intro u' member'
    rcases racing.made u' member' with ⟨client', waiting⟩ | before
    · by_cases own : client' = client
      · subst own
        rw [next] at waiting
        rcases List.mem_cons.mp waiting with rfl | later
        · exact .inr here
        · exact .inl ⟨client', by rwa [Function.update_self]⟩
      · exact .inl ⟨client', by rwa [Function.update_of_ne own]⟩
    · exact .inr (before.update member merged)
  · intro client' seen now u' first
    by_cases own : client' = client
    · subst own
      rw [Function.update_self] at now
      cases now
    · rw [Function.update_of_ne own] at now first
      exact racing.fresh client' seen now u' first

/-- In the end every cell is as it was, or as one of its updates makes it, and the latter where there
is one. -/
theorem Racing.ends (racing : Racing all cells₀ left held cells) (same : SameBits all)
    (updating : ∀ client, Updating (held client) (left client) (accessesOf client schedule))
    (path : Path (fun cells l cells' => l.2.Happens cells cells') cells schedule cells') :
    Racing all cells₀ (fun _ => []) (fun _ => none) cells' := by
  induction schedule generalizing left held cells with
  | nil =>
    obtain rfl := path_nil.mp path
    have finished (client : Bool) : left client = [] ∧ held client = none := by
      have ended : Updating (held client) (left client) [] := updating client
      generalize left client = us at ended ⊢
      generalize held client = seen at ended ⊢
      cases ended
      exact ⟨rfl, rfl⟩
    have nothing : left = fun _ => [] := funext fun client => (finished client).1
    have free : held = fun _ => none := funext fun client => (finished client).2
    rwa [nothing, free] at racing
  | cons l schedule ih =>
    obtain ⟨client, a⟩ := l
    obtain ⟨cells₁, happens, later⟩ := path_cons.mp path
    have own := updating client
    rw [accessesOf_self] at own
    have others (client' : Bool) (other : client' ≠ client) :
        Updating (held client') (left client') (accessesOf client' schedule) := by
      have waiting := updating client'
      rwa [accessesOf_other other] at waiting
    generalize hleft : left client = us at own
    generalize hheld : held client = seen at own
    cases own with
    | @read u us seen rest more =>
      obtain ⟨rfl, rfl⟩ := happens
      refine ih (racing.read same hleft) (fun client' => ?_) later
      by_cases here : client' = client
      · subst here
        rwa [Function.update_self, hleft]
      · rw [Function.update_of_ne here]
        exact others client' here
    | @written u us seen rest more =>
      obtain rfl := happens
      have merged : u.merge seen = u.merge (cells₀ u.key) := racing.fresh client seen hheld u (by rw [hleft]; rfl)
      refine ih (racing.write hleft merged) (fun client' => ?_) later
      by_cases here : client' = client
      · subst here
        rwa [Function.update_self, Function.update_self]
      · rw [Function.update_of_ne here, Function.update_of_ne here]
        exact others client' here
    | @replaced u us rest whole more =>
      obtain rfl := happens
      refine ih (racing.write hleft (merge_allOnes whole).symm) (fun client' => ?_) later
      by_cases here : client' = client
      · subst here
        rwa [Function.update_self, Function.update_self]
      · rw [Function.update_of_ne here, Function.update_of_ne here]
        exact others client' here

end

/-! What the race leaves, and which serial order it is. -/

def Disagree (us us' : List (Update κ n)) (key : κ) : Prop :=
  ∃ u ∈ us, ∃ u' ∈ us', u.key = key ∧ u'.key = key ∧ u.value &&& u.mask ≠ u'.value &&& u'.mask

theorem Disagree.symm {us us' : List (Update κ n)} {key : κ} (disagree : Disagree us us' key) : Disagree us' us key := by
  obtain ⟨u, member, u', member', here, here', values⟩ := disagree
  exact ⟨u', member', u, member, here', here, values.symm⟩

section
variable [DecidableEq κ] {us : Bool → List (Update κ n)} {cells cells' : κ → BitVec n} {schedule : List (Bool × Access κ n)}

/-- A cell that both clients, or one, or none update is as one of these updates makes it. -/
theorem race_merged (same : SameBits (us false ++ us true))
    (updating : ∀ client, Updating none (us client) (accessesOf client schedule))
    (path : Path (fun cells l cells' => l.2.Happens cells cells') cells schedule cells') :
    (∀ client, ∀ u ∈ us client, Merged (us false ++ us true) cells cells' u.key) ∧
      ∀ key, (∀ client, ∀ u ∈ us client, u.key ≠ key) → cells' key = cells key := by
  have listed (client : Bool) : ∀ u ∈ us client, u ∈ us false ++ us true := by
    intro u member
    cases client with
    | false => exact List.mem_append_left _ member
    | true => exact List.mem_append_right _ member
  have start : Racing (us false ++ us true) cells us (fun _ => none) cells := {
    listed := listed
    known := fun _ => .inl rfl
    made := fun u member => .inl (by
      rcases List.mem_append.mp member with first | second
      · exact ⟨false, first⟩
      · exact ⟨true, second⟩)
    fresh := nofun }
  have ended := start.ends same updating path
  refine ⟨fun client u member => ?_, fun key untouched => ?_⟩
  · exact (ended.made u (listed client u member)).resolve_left fun ⟨_, waiting⟩ => nomatch waiting
  · refine (ended.known key).resolve_right fun ⟨u, member, here, _⟩ => ?_
    rcases List.mem_append.mp member with first | second
    · exact untouched false u first here
    · exact untouched true u second here

/-- Each bit is as one of the updates that touch it gives it, and as before where there is none. -/
def NoneLost (us : List (Update κ n)) (cells cells' : κ → BitVec n) : Prop :=
  ∀ key i, (∃ u ∈ us, u.Touches key i ∧ (cells' key).getLsbD i = u.value.getLsbD i) ∨
    (∀ u ∈ us, ¬u.Touches key i) ∧ (cells' key).getLsbD i = (cells key).getLsbD i

theorem race_noneLost (same : SameBits (us false ++ us true))
    (updating : ∀ client, Updating none (us client) (accessesOf client schedule))
    (path : Path (fun cells l cells' => l.2.Happens cells cells') cells schedule cells') :
    NoneLost (us false ++ us true) cells cells' := by
  obtain ⟨merged, untouched⟩ := race_merged same updating path
  have kept {u : Update κ n} (member : u ∈ us false ++ us true) :
      Merged (us false ++ us true) cells cells' u.key := by
    rcases List.mem_append.mp member with first | second
    · exact merged false u first
    · exact merged true u second
  intro key i
  by_cases updated : ∃ u ∈ us false ++ us true, u.key = key
  · obtain ⟨u, member, rfl⟩ := updated
    obtain ⟨u', member', here, made⟩ := kept member
    have bit : (cells' u.key).getLsbD i =
        if u'.Touches u.key i then u'.value.getLsbD i else (cells u.key).getLsbD i := by
      rw [made, ← apply_bit u' cells u.key i, ← here, apply_self]
    by_cases touched : u'.Touches u.key i
    · exact .inl ⟨u', member', touched, bit.trans (if_pos touched)⟩
    · refine .inr ⟨fun v inside touches => touched ⟨here, ?_⟩, bit.trans (if_neg touched)⟩
      rw [same u' member' v inside (here.trans touches.1.symm)]
      exact touches.2
  · refine .inr ⟨fun u member touches => updated ⟨u, member, touches.1⟩, ?_⟩
    rw [untouched key]
    intro client u member here
    refine updated ⟨u, ?_, here⟩
    cases client with
    | false => exact List.mem_append_left _ member
    | true => exact List.mem_append_right _ member

/-- No update is overwritten, but by one that wants other values for the same bits. -/
theorem race_kept (once : ∀ client, ((us client).map Update.key).Nodup) (same : SameBits (us false ++ us true))
    (updating : ∀ client, Updating none (us client) (accessesOf client schedule))
    (path : Path (fun cells l cells' => l.2.Happens cells cells') cells schedule cells') {client : Bool}
    {u : Update κ n} (member : u ∈ us client) :
    cells' u.key = u.merge (cells u.key) ∨ Disagree (us client) (us !client) u.key := by
  obtain ⟨u', inside, here, merged⟩ := (race_merged same updating path).1 client u member
  have listed : ∀ v, v ∈ us false ++ us true ↔ v ∈ us client ∨ v ∈ us !client := by
    intro v
    cases client with
    | false => exact List.mem_append
    | true => exact List.mem_append.trans or_comm
  rcases (listed u').mp inside with own | other
  · obtain rfl := List.inj_on_of_nodup_map (once client) own member here
    exact .inl merged
  · by_cases values : u'.value &&& u'.mask = u.value &&& u.mask
    · have mask := same u' inside u ((listed u).mpr (.inl member)) here
      exact .inl (merged.trans (merge_congr mask values))
    · exact .inr ⟨u, member, u', other, rfl, here, fun agree => values agree.symm⟩

/-- What the second of two clients in a row makes of a cell. -/
theorem serial_last (once : ∀ client, ((us client).map Update.key).Nodup) (same : SameBits (us false ++ us true))
    {first : Bool} {u : Update κ n} (member : u ∈ us !first) :
    applyAll (us !first) (applyAll (us first) cells) u.key = u.merge (cells u.key) := by
  rw [applyAll_at (once !first) member]
  by_cases both : ∃ v ∈ us first, v.key = u.key
  · obtain ⟨v, before, here⟩ := both
    have mask : u.mask = v.mask := by
      cases first with
      | false => exact same u (List.mem_append_right _ member) v (List.mem_append_left _ before) here.symm
      | true => exact same u (List.mem_append_left _ member) v (List.mem_append_right _ before) here.symm
    rw [← here, applyAll_at (once first) before, merge_merge mask]
  · rw [applyAll_of_ne fun v before here => both ⟨v, before, here⟩]

/-- Where the two disagree about one cell at most, one went after the other as far as the cells can
tell: the one whose values that cell has. -/
theorem race_serial (once : ∀ client, ((us client).map Update.key).Nodup)
    (same : SameBits (us false ++ us true))
    (single : ∀ key key', Disagree (us false) (us true) key → Disagree (us false) (us true) key' → key = key')
    (updating : ∀ client, Updating none (us client) (accessesOf client schedule))
    (path : Path (fun cells l cells' => l.2.Happens cells cells') cells schedule cells') :
    ∃ first, cells' = applyAll (us !first) (applyAll (us first) cells) := by
  obtain ⟨merged, untouched⟩ := race_merged same updating path
  have either (client : Bool) {key : κ} (disagree : Disagree (us client) (us !client) key) :
      Disagree (us false) (us true) key := by
    cases client with
    | false => exact disagree
    | true => exact disagree.symm
  have second : ∃ first, ∀ u ∈ us !first, cells' u.key = u.merge (cells u.key) := by
    by_cases agree : ∀ key, ¬Disagree (us false) (us true) key
    · refine ⟨false, fun u member => ?_⟩
      exact (race_kept once same updating path member).resolve_right fun disagree => agree _ (either true disagree)
    · push Not at agree
      obtain ⟨key, disagree⟩ := agree
      obtain ⟨u, member, u', member', here, more⟩ := disagree
      obtain ⟨x, inside, there, kept⟩ := merged false u member
      obtain ⟨client, own⟩ : ∃ client, x ∈ us client := by
        rcases List.mem_append.mp inside with left | right
        · exact ⟨false, left⟩
        · exact ⟨true, right⟩
      refine ⟨!client, fun v late => ?_⟩
      rw [Bool.not_not] at late
      rcases race_kept once same updating path late with done | another
      · exact done
      · have only : v.key = key := single _ _ (either client another) ⟨u, member, u', member', here, more⟩
        obtain rfl := List.inj_on_of_nodup_map (once client) late own (only.trans (there.trans here).symm)
        rw [there, kept]
  obtain ⟨first, last⟩ := second
  refine ⟨first, funext fun key => ?_⟩
  by_cases late : ∃ u ∈ us !first, u.key = key
  · obtain ⟨u, member, rfl⟩ := late
    rw [last u member, serial_last once same member]
  have nothing : ∀ u ∈ us !first, u.key ≠ key := fun u member here => late ⟨u, member, here⟩
  rw [applyAll_of_ne nothing]
  by_cases early : ∃ v ∈ us first, v.key = key
  · obtain ⟨v, member, rfl⟩ := early
    rw [applyAll_at (once first) member]
    apply (race_kept once same updating path member).resolve_right
    rintro ⟨_, _, u, other, _, here, _⟩
    exact nothing u other here
  · rw [applyAll_of_ne fun v member here => early ⟨v, member, here⟩]
    refine untouched key fun client v member here => ?_
    by_cases own : client = first
    · exact early ⟨v, own ▸ member, here⟩
    · exact nothing v (Bool.eq_not.mpr own ▸ member) here

end

end Yika.Program
