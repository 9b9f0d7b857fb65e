import Yika.Program.Spec
import Yika.Program.Tokens

/-! `cmdline_filter` of `mt_devs.c`, which passes the wanted arguments of a command-line tag on. -/

namespace Yika.Devs
open Program

abbrev Byte := BitVec 8

/-- Addresses count from the payload of the tag on. `strcatText` appends a literal to
`default_cmdline`, and `strcat` the string at an address. -/
inductive FilterOp where
  | peek (p : Nat)
  | poke (p : Nat) (c : Byte)
  | memcmp (p : Nat) (s : List Byte)
  | strcatText (s : List Byte)
  | strcat (p : Nat)
  | strlen
  | panic

abbrev FilterOp.Answer : FilterOp → Type
  | .peek _ => Byte
  | .memcmp _ _ => Int
  | .strlen => Nat
  | _ => Unit

abbrev filterSignature : Signature := ⟨FilterOp, FilterOp.Answer⟩

abbrev Filter := Prog filterSignature

namespace Filter

def peek (p : Nat) : Filter Byte := @Prog.perform filterSignature (.peek p)
def poke (p : Nat) (c : Byte) : Filter Unit := @Prog.perform filterSignature (.poke p c)
def memcmp (p : Nat) (s : List Byte) : Filter Int := @Prog.perform filterSignature (.memcmp p s)
def strcatText (s : List Byte) : Filter Unit := @Prog.perform filterSignature (.strcatText s)
def strcat (p : Nat) : Filter Unit := @Prog.perform filterSignature (.strcat p)
/-- `strlen(default_cmdline)` -/
def strlen : Filter Nat := @Prog.perform filterSignature .strlen
def panic : Filter Unit := @Prog.perform filterSignature .panic

end Filter

/-! The program. -/

/-- `"console="` and `"root="`. -/
def undesiredCmds : List (List Byte) :=
  [[0x63, 0x6f, 0x6e, 0x73, 0x6f, 0x6c, 0x65, 0x3d], [0x72, 0x6f, 0x6f, 0x74, 0x3d]]

/-- `' '` or `'\0'`. -/
def isSeparator (c : Byte) : Bool := c = 0x20 ∨ c = 0

/-- The variables of the loop; `ckF` is `ck_f`. -/
structure FilterVars where
  cs : Nat
  ce : Nat
  ckF : Bool

/-- The inner loop, on `cs` and `ce`. -/
def skipSeparators : Nat × Nat → Filter (Nat × Nat) :=
  Prog.doWhile fun v => do
    let c ← Filter.peek v.1
    if isSeparator c then pure (.inl (v.1 + 1, v.1 + 1)) else pure (.inr v)

/-- The loop over `undesired_cmds`. -/
def checkUndesired (cs : Nat) (ckF : Bool) : List (List Byte) → Filter Bool
  | [] => pure ckF
  | cmd :: cmds => do
    let order ← Filter.memcmp cs cmd
    if order = 0 then pure true else checkUndesired cs ckF cmds

/-- A separator at `ce`. -/
def endToken (v : FilterVars) : Filter FilterVars := do
  let ckF ← checkUndesired v.cs v.ckF undesiredCmds
  Prog.when (ckF = false) (do
    Filter.poke v.ce 0
    Filter.strcatText [0x20]
    Filter.strcat v.cs)
  pure ⟨v.ce + 1, v.ce, false⟩

/-- One turn of the loop over the payload, which ends at `tagNext`. -/
def filterRound (tagNext : Nat) (v : FilterVars) : Filter (FilterVars ⊕ Unit) :=
  if v.ce < tagNext then do
    let skipped ← skipSeparators (v.cs, v.ce)
    let c ← Filter.peek skipped.2
    let v ← if isSeparator c then endToken ⟨skipped.1, skipped.2, v.ckF⟩
      else pure ⟨skipped.1, skipped.2, v.ckF⟩
    pure (.inl { v with ce := v.ce + 1 })
  else pure (.inr ())

def cmdlineFilter (commandLineSize tagNext : Nat) : Filter Unit := do
  Prog.doWhile (filterRound tagNext) ⟨0, 0, false⟩
  let length ← Filter.strlen
  Prog.when (commandLineSize ≤ length) Filter.panic

/-! The memory and the command line. -/

/-- `mem` is the memory from the payload on, and `defaultCmdline` a string. -/
structure FilterState where
  mem : List Byte
  defaultCmdline : List Byte
  panicked : Bool

def stringAt (mem : List Byte) (p : Nat) : List Byte := (mem.drop p).takeWhile (· ≠ 0)

def filterEnv : Env filterSignature FilterState
  | .peek p, w => (w.mem.getD p 0, w)
  | .poke p c, w => ((), { w with mem := w.mem.set p c })
  | .memcmp p s, w => (if s <+: w.mem.drop p then 0 else 1, w)
  | .strcatText s, w => ((), { w with defaultCmdline := w.defaultCmdline ++ s })
  | .strcat p, w => ((), { w with defaultCmdline := w.defaultCmdline ++ stringAt w.mem p })
  | .strlen, w => (w.defaultCmdline.length, w)
  | .panic, w => ((), { w with panicked := true })

def wantedArguments (payload : List Byte) : List Byte :=
  (tokens isSeparator payload).flatMap fun run =>
    if undesiredCmds.any (·.isPrefixOf run) then [] else 0x20 :: run

section
variable {w : FilterState} {post : Unit → FilterState → Prop}

@[simp] theorem achieves_peek {p : Nat} {post : Byte → FilterState → Prop} :
    Achieves filterEnv (Filter.peek p) post w ↔ post (w.mem.getD p 0) w := achieves_perform
@[simp] theorem achieves_poke {p : Nat} {c : Byte} : Achieves filterEnv (Filter.poke p c) post w ↔
    post () { w with mem := w.mem.set p c } := achieves_perform
@[simp] theorem achieves_memcmp {p : Nat} {s : List Byte} {post : Int → FilterState → Prop} :
    Achieves filterEnv (Filter.memcmp p s) post w ↔ post (if s <+: w.mem.drop p then 0 else 1) w :=
  achieves_perform
@[simp] theorem achieves_strcatText {s : List Byte} :
    Achieves filterEnv (Filter.strcatText s) post w ↔
      post () { w with defaultCmdline := w.defaultCmdline ++ s } := achieves_perform
@[simp] theorem achieves_strcat {p : Nat} : Achieves filterEnv (Filter.strcat p) post w ↔
    post () { w with defaultCmdline := w.defaultCmdline ++ stringAt w.mem p } := achieves_perform
@[simp] theorem achieves_strlen {post : Nat → FilterState → Prop} :
    Achieves filterEnv Filter.strlen post w ↔ post w.defaultCmdline.length w := achieves_perform
@[simp] theorem achieves_panic :
    Achieves filterEnv Filter.panic post w ↔ post () { w with panicked := true } := achieves_perform

/-- A command without separators is looked for in the token only. -/
theorem achieves_checkUndesired {cs : Nat} {run rest : List Byte} {c : Byte} {ckF : Bool}
    {cmds : List (List Byte)} {post : Bool → FilterState → Prop}
    (plain : ∀ cmd ∈ cmds, ∀ b ∈ cmd, isSeparator b = false) (here : w.mem.drop cs = run ++ c :: rest)
    (sep : isSeparator c = true) : Achieves filterEnv (checkUndesired cs ckF cmds) post w ↔
      post (cmds.any (·.isPrefixOf run) || ckF) w := by
  induction cmds with
  | nil => simp [checkUndesired]
  | cons cmd cmds ih =>
    have plain' : ∀ b ∈ cmd, isSeparator b = false := plain cmd List.mem_cons_self
    have others := ih fun other member => plain other (List.mem_cons_of_mem cmd member)
    simp only [checkUndesired, achieves_bind, achieves_memcmp, here, prefix_run_iff plain' sep,
      achieves_ite, achieves_pure, others, List.any_cons]
    by_cases begins : cmd <+: run
    · simp [begins, List.isPrefixOf_iff_prefix.mpr begins]
    · have differs : cmd.isPrefixOf run = false := by
        rw [← Bool.not_eq_true, List.isPrefixOf_iff_prefix]
        exact begins
      simp [begins, differs]

/-- Between two turns: the bytes from `cs` up to `ce` begin a token, and what has been appended and
what is still to be appended make the result. -/
structure Filtering (mem : List Byte) (tagNext : Nat) (result : List Byte) (cs ce : Nat)
    (w : FilterState) : Prop where
  order : cs ≤ ce
  begun : ∀ i, cs ≤ i → i < ce → isSeparator (w.mem.getD i 0) = false
  alike : List.Forall₂ (Alike isSeparator) mem w.mem
  left : w.defaultCmdline ++ wantedArguments ((w.mem.take tagNext).drop cs) = result
  calm : w.panicked = false

variable {mem result : List Byte} {tagNext cs ce : Nat}

theorem Filtering.separator (filtering : Filtering mem tagNext result cs ce w) (i : Nat) :
    isSeparator (w.mem.getD i 0) = isSeparator (mem.getD i 0) := Alike.getD filtering.alike

theorem wantedArguments_nil : wantedArguments [] = [] := by
  simp [wantedArguments]

theorem wantedArguments_drop (sep : isSeparator (mem.getD cs 0) = true) :
    wantedArguments ((mem.take tagNext).drop cs) = wantedArguments ((mem.take tagNext).drop (cs + 1)) := by
  by_cases inside : cs < (mem.take tagNext).length
  · have bound : cs < mem.length := by
      rw [List.length_take] at inside
      omega
    have first : isSeparator (mem.take tagNext)[cs] = true := by
      rw [List.getElem_take]
      simpa [List.getD_eq_getElem?_getD, List.getElem?_eq_getElem bound] using sep
    rw [List.drop_eq_getElem_cons inside, wantedArguments, tokens_cons first, wantedArguments]
  · rw [List.drop_eq_nil_of_le (by omega), List.drop_eq_nil_of_le (by omega)]

/-- The separators from `cs` on are skipped, also beyond the payload. -/
theorem achieves_skipSeparators {stop : Nat} (filtering : Filtering mem tagNext result cs ce w)
    (stops : isSeparator (mem.getD stop 0) = false) (before : ce ≤ stop) :
    Achieves filterEnv (skipSeparators (cs, ce)) (fun v w' => w' = w ∧ ce ≤ v.2 ∧
      (v.2 = ce ∨ v.2 = v.1) ∧ isSeparator (w.mem.getD v.1 0) = false ∧
      Filtering mem tagNext result v.1 v.2 w) w := by
  unfold skipSeparators
  refine achieves_doWhile (fun v w' => w' = w ∧ v.1 ≤ stop ∧ ce ≤ v.2 ∧ (v.2 = ce ∨ v.2 = v.1) ∧
    Filtering mem tagNext result v.1 v.2 w) (fun v _ => stop - v.1) ?_
    ⟨rfl, Nat.le_trans filtering.order before, Nat.le_refl _, .inl rfl, filtering⟩
  intro v w' inv
  obtain ⟨rfl, short, later, ends, filtering'⟩ := inv
  simp only [achieves_bind, achieves_peek, achieves_ite, achieves_pure, Sum.elim_inl, Sum.elim_inr,
    true_and]
  constructor
  · intro sep
    -- no token has begun, and the byte to stop at is further on
    have same : v.2 = v.1 := by
      by_contra apart
      have plain := filtering'.begun v.1 (Nat.le_refl _) (by have := filtering'.order; omega)
      rw [sep] at plain
      cases plain
    have further : v.1 ≠ stop := by
      intro here
      rw [here, filtering'.separator, stops] at sep
      cases sep
    refine ⟨⟨by omega, by omega, .inr trivial, ?_⟩, by omega⟩
    exact {
      order := Nat.le_refl _
      begun := fun i low high => by omega
      alike := filtering'.alike
      left := by rw [← wantedArguments_drop sep]; exact filtering'.left
      calm := filtering'.calm }
  · intro plain
    rw [Bool.not_eq_true] at plain
    exact ⟨later, ends, plain, filtering'⟩

def token (mem : List Byte) (cs ce : Nat) : List Byte := (mem.drop cs).take (ce - cs)

theorem drop_token (begun : cs < ce) (inside : ce < mem.length) :
    mem.drop cs = token mem cs ce ++ mem.getD ce 0 :: mem.drop (ce + 1) := by
  have ahead : cs + (ce - cs) = ce := by omega
  calc mem.drop cs
      = token mem cs ce ++ (mem.drop cs).drop (ce - cs) := (List.take_append_drop _ _).symm
    _ = token mem cs ce ++ mem.drop ce := by rw [List.drop_drop, ahead]
    _ = token mem cs ce ++ mem.getD ce 0 :: mem.drop (ce + 1) := by
      rw [List.drop_eq_getElem_cons inside, List.getD_eq_getElem?_getD, List.getElem?_eq_getElem inside]
      rfl

theorem drop_payload_token (begun : cs < ce) (inside : ce < tagNext) (known : tagNext ≤ mem.length) :
    (mem.take tagNext).drop cs =
      token mem cs ce ++ mem.getD ce 0 :: (mem.take tagNext).drop (ce + 1) := by
  have size : ce < (mem.take tagNext).length := by
    rw [List.length_take]
    omega
  have same : token (mem.take tagNext) cs ce = token mem cs ce := by
    have shorter : min (ce - cs) (tagNext - cs) = ce - cs := by omega
    rw [token, List.drop_take, List.take_take, shorter, token]
  have last : (mem.take tagNext).getD ce 0 = mem.getD ce 0 := by
    rw [List.getD_eq_getElem?_getD, List.getElem?_take_of_lt inside, List.getD_eq_getElem?_getD]
  rw [drop_token begun size, same, last]

theorem token_plain (begun : ∀ i, cs ≤ i → i < ce → isSeparator (mem.getD i 0) = false) :
    ∀ b ∈ token mem cs ce, isSeparator b = false := by
  intro b member
  obtain ⟨i, inside, rfl⟩ := List.mem_take_iff_getElem.mp member
  rw [List.getElem_drop]
  have bound : cs + i < mem.length := by
    rw [List.length_drop] at inside
    omega
  have plain := begun (cs + i) (by omega) (by omega)
  rwa [List.getD_eq_getElem?_getD, List.getElem?_eq_getElem bound] at plain

theorem length_token (known : ce ≤ mem.length) : (token mem cs ce).length = ce - cs := by
  rw [token, List.length_take, List.length_drop]
  omega

theorem stringAt_token (begun : cs < ce) (inside : ce < mem.length)
    (plain : ∀ b ∈ token mem cs ce, isSeparator b = false) :
    stringAt (mem.set ce 0) cs = token mem cs ce := by
  have inside' : ce < (mem.set ce 0).length := by rwa [List.length_set]
  have same : token (mem.set ce 0) cs ce = token mem cs ce := by
    rw [token, token, List.drop_set, if_neg (by omega), List.take_set_of_le (Nat.le_refl _)]
  have nul : (mem.set ce 0).getD ce 0 = 0 := by
    simp [List.getD_eq_getElem?_getD, inside]
  have some : ∀ b ∈ token mem cs ce, decide (b ≠ 0) = true := by
    intro b member
    have plain' := plain b member
    simp [isSeparator] at plain' ⊢
    exact plain'.2
  rw [stringAt, drop_token begun inside', same, nul, List.takeWhile_append_of_pos some]
  simp

theorem wantedArguments_run {run rest : List Byte} {c : Byte} (some : run ≠ [])
    (whole : ∀ b ∈ run, isSeparator b = false) (sep : isSeparator c = true) :
    wantedArguments (run ++ c :: rest) =
      (if undesiredCmds.any (·.isPrefixOf run) then [] else 0x20 :: run) ++ wantedArguments rest := by
  rw [wantedArguments, tokens_run some whole sep, List.flatMap_cons]
  rfl

/-- No undesired command has a separator in it. -/
theorem undesiredCmds_plain : ∀ cmd ∈ undesiredCmds, ∀ b ∈ cmd, isSeparator b = false := by
  decide

/-- A token is appended, or not, and the next one may begin behind its separator. -/
theorem achieves_endToken (filtering : Filtering mem tagNext result cs ce w) (begun : cs < ce)
    (inside : ce < tagNext) (known : tagNext ≤ w.mem.length) (sep : isSeparator (w.mem.getD ce 0) = true) :
    Achieves filterEnv (endToken ⟨cs, ce, false⟩) (fun v w' => v = ⟨ce + 1, ce, false⟩ ∧
      Filtering mem tagNext result (ce + 1) (ce + 1) w') w := by
  have bound : ce < w.mem.length := Nat.lt_of_lt_of_le inside known
  have plain := token_plain filtering.begun
  have some : token w.mem cs ce ≠ [] := by
    intro empty
    have length : (token w.mem cs ce).length = ce - cs := length_token (Nat.le_of_lt bound)
    rw [empty, List.length_nil] at length
    omega
  have left := filtering.left
  rw [drop_payload_token begun inside known, wantedArguments_run some plain sep] at left
  simp only [endToken, achieves_bind,
    achieves_checkUndesired undesiredCmds_plain (drop_token begun bound) sep, Bool.or_false,
    achieves_when, achieves_poke, achieves_strcatText, achieves_strcat, achieves_pure, true_and,
    stringAt_token begun bound plain]
  constructor
  · intro wanted
    rw [wanted, if_neg Bool.false_ne_true] at left
    exact {
      order := Nat.le_refl _
      begun := fun i low high => by omega
      alike := Alike.set filtering.alike sep rfl
      left := by
        rw [List.take_set, List.drop_set_of_lt (by omega), ← left]
        simp
      calm := filtering.calm }
  · intro undesired
    rw [Bool.not_eq_false] at undesired
    rw [undesired, if_pos rfl, List.nil_append] at left
    exact {
      order := Nat.le_refl _
      begun := fun i low high => by omega
      alike := filtering.alike
      left := left
      calm := filtering.calm }

/-- What is known of the memory behind a tag and of the last byte of its payload. -/
structure Ended (mem : List Byte) (tagNext : Nat) : Prop where
  known : tagNext ≤ mem.length
  last : ∀ i, i + 1 = tagNext → isSeparator (mem.getD i 0) = true
  stops : ∃ stop, tagNext ≤ stop ∧ isSeparator (mem.getD stop 0) = false

theorem Filtering.extend (filtering : Filtering mem tagNext result cs ce w)
    (plain : isSeparator (w.mem.getD ce 0) = false) :
    Filtering mem tagNext result cs (ce + 1) w :=
  { filtering with
    order := Nat.le_succ_of_le filtering.order
    begun := by
      intro i low high
      by_cases here : i = ce
      · rw [here]
        exact plain
      · exact filtering.begun i low (by omega) }

/-- Behind the payload nothing is left to be appended. -/
theorem Filtering.finished (filtering : Filtering mem tagNext result cs ce w) (ended : Ended mem tagNext)
    (done : tagNext ≤ ce) : w.defaultCmdline = result := by
  -- the last byte of the payload would stand in a token
  have all : tagNext ≤ cs := by
    by_contra short
    have plain := filtering.begun (tagNext - 1) (by omega) (by omega)
    rw [filtering.separator, ended.last (tagNext - 1) (by omega)] at plain
    cases plain
  have left := filtering.left
  have nothing : (w.mem.take tagNext).length ≤ cs := by
    rw [List.length_take]
    omega
  rwa [List.drop_eq_nil_of_le nothing, wantedArguments_nil, List.append_nil] at left

theorem achieves_filterRound (ended : Ended mem tagNext) {v : FilterVars} (flag : v.ckF = false)
    (filtering : Filtering mem tagNext result v.cs v.ce w) :
    Achieves filterEnv (filterRound tagNext v) (Sum.elim (fun v' w' =>
      (v'.ckF = false ∧ Filtering mem tagNext result v'.cs v'.ce w') ∧ tagNext - v'.ce < tagNext - v.ce)
      fun _ w' => w'.defaultCmdline = result ∧ w'.panicked = false ∧
        List.Forall₂ (Alike isSeparator) mem w'.mem) w := by
  obtain ⟨stop, beyond, stops⟩ := ended.stops
  unfold filterRound
  simp only [achieves_ite, achieves_bind, achieves_pure, achieves_peek, flag, Sum.elim_inl, Sum.elim_inr]
  constructor
  · intro inside
    refine (achieves_skipSeparators filtering stops (by omega)).mono ?_
    rintro skipped w' ⟨same, later, ends, plain, filtering'⟩
    subst same
    constructor
    · intro sep
      -- a token has begun, and its separator is in the payload
      have apart : skipped.2 ≠ skipped.1 := by
        intro here
        rw [here, plain] at sep
        cases sep
      have begun : skipped.1 < skipped.2 := by
        have order := filtering'.order
        omega
      have inside' : skipped.2 < tagNext := by
        rwa [ends.resolve_right apart]
      have known : tagNext ≤ w'.mem.length := by
        rw [← filtering'.alike.length_eq]
        exact ended.known
      refine (achieves_endToken filtering' begun inside' known sep).mono ?_
      rintro v' w₁ ⟨next, filtering₁⟩
      rw [next]
      exact ⟨⟨rfl, filtering₁⟩, by dsimp only; omega⟩
    · intro running
      rw [Bool.not_eq_true] at running
      exact ⟨⟨trivial, filtering'.extend running⟩, by omega⟩
  · intro done
    exact ⟨filtering.finished ended (by omega), filtering.calm, filtering.alike⟩

theorem achieves_cmdlineFilter (commandLineSize : Nat) (ended : Ended mem tagNext) (d : List Byte) :
    Achieves filterEnv (cmdlineFilter commandLineSize tagNext) (fun _ w =>
      w.defaultCmdline = d ++ wantedArguments (mem.take tagNext) ∧
      (w.panicked = true ↔ commandLineSize ≤ (d ++ wantedArguments (mem.take tagNext)).length) ∧
      List.Forall₂ (Alike isSeparator) mem w.mem) ⟨mem, d, false⟩ := by
  have start : Filtering mem tagNext (d ++ wantedArguments (mem.take tagNext)) 0 0 ⟨mem, d, false⟩ := {
    order := Nat.le_refl _
    begun := fun i low high => by omega
    alike := alike_refl
    left := rfl
    calm := rfl }
  unfold cmdlineFilter
  rw [achieves_bind]
  refine (achieves_doWhile (fun (v : FilterVars) w' => v.ckF = false ∧
    Filtering mem tagNext (d ++ wantedArguments (mem.take tagNext)) v.cs v.ce w')
    (fun v _ => tagNext - v.ce) (fun v w' inv => achieves_filterRound ended inv.1 inv.2)
    (x := ⟨0, 0, false⟩) ⟨rfl, start⟩).mono ?_
  intro _ w ⟨result, calm, alike⟩
  simp only [achieves_bind, achieves_strlen, achieves_when, achieves_panic, result, calm, true_and]
  constructor
  · intro long
    exact ⟨iff_of_true trivial long, alike⟩
  · intro fits
    exact ⟨iff_of_false Bool.false_ne_true fits, alike⟩

/-- The filter leaves a tag for which the same holds. -/
theorem Ended.alike {mem' : List Byte} (ended : Ended mem tagNext)
    (alike : List.Forall₂ (Alike isSeparator) mem mem') : Ended mem' tagNext where
  known := alike.length_eq ▸ ended.known
  last i last := (Alike.getD alike).trans (ended.last i last)
  stops := by
    obtain ⟨stop, beyond, stops⟩ := ended.stops
    exact ⟨stop, beyond, (Alike.getD alike).trans stops⟩

theorem ended_append {payload beyond : List Byte} (ended : ∀ c ∈ payload.getLast?, isSeparator c = true)
    (stops : ∃ c ∈ beyond, isSeparator c = false) : Ended (payload ++ beyond) payload.length where
  known := by simp
  last i last := by
    have inside : i < payload.length := by omega
    have index : payload.length - 1 = i := by omega
    refine ended _ ?_
    rw [Option.mem_def, List.getLast?_eq_getElem?, index, List.getD_eq_getElem?_getD,
      List.getElem?_append_left inside, List.getElem?_eq_getElem inside, Option.getD_some]
  stops := by
    obtain ⟨c, member, plain⟩ := stops
    obtain ⟨i, inside, here⟩ := List.getElem_of_mem member
    refine ⟨payload.length + i, by omega, ?_⟩
    rwa [List.getD_eq_getElem?_getD, List.getElem?_append_right (by omega), Nat.add_sub_cancel_left,
      List.getElem?_eq_getElem inside, here]

/-- Only the wanted arguments are passed on, and once more by a second filter of the same tag. -/
theorem cmdlineFilter_wanted (commandLineSize : Nat) (payload beyond d : List Byte)
    (ended : ∀ c ∈ payload.getLast?, isSeparator c = true)
    (stops : ∃ c ∈ beyond, isSeparator c = false)
    (short : (d ++ wantedArguments payload).length < commandLineSize) :
    Achieves filterEnv (cmdlineFilter commandLineSize payload.length) (fun _ w =>
      w.defaultCmdline = d ++ wantedArguments payload ∧ w.panicked = false ∧
      ∀ d', Achieves filterEnv (cmdlineFilter commandLineSize payload.length) (fun _ w' =>
          w'.defaultCmdline = d' ++ wantedArguments payload ∧
          (w'.panicked = true ↔ commandLineSize ≤ (d' ++ wantedArguments payload).length))
        { w with defaultCmdline := d' }) ⟨payload ++ beyond, d, false⟩ := by
  have ended' := ended_append ended stops
  have all : (payload ++ beyond).take payload.length = payload := List.take_left' rfl
  refine (achieves_cmdlineFilter commandLineSize ended' d).mono ?_
  intro _ w ⟨result, panics, alike⟩
  rw [all] at result panics
  have calm : w.panicked = false := by
    rw [← Bool.not_eq_true, panics]
    omega
  refine ⟨result, calm, ?_⟩
  intro d'
  have again := achieves_cmdlineFilter commandLineSize (ended'.alike alike) d'
  have same : wantedArguments (w.mem.take payload.length) = wantedArguments payload := by
    rw [wantedArguments, ← tokens_congr (List.forall₂_take payload.length alike), all, wantedArguments]
  rw [same] at again
  rw [calm]
  refine again.mono ?_
  intro _ w' ⟨result', panics', _⟩
  exact ⟨result', panics'⟩

end

/-- `a root=x  b` and a NUL. -/
def rootPayload : List Byte :=
  [0x61, 0x20, 0x72, 0x6f, 0x6f, 0x74, 0x3d, 0x78, 0x20, 0x20, 0x62, 0x00]

example : wantedArguments rootPayload = [0x20, 0x61, 0x20, 0x62] := by decide

theorem rootPayload_wanted : (∀ c ∈ rootPayload.getLast?, isSeparator c = true) ∧
    (∃ c ∈ ([0x08] : List Byte), isSeparator c = false) ∧
    ([0x71] ++ wantedArguments rootPayload).length < 1024 ∧
    Achieves filterEnv (cmdlineFilter 1024 rootPayload.length) (fun _ w =>
      w.defaultCmdline = [0x71] ++ wantedArguments rootPayload ∧ w.panicked = false ∧
      ∀ d', Achieves filterEnv (cmdlineFilter 1024 rootPayload.length) (fun _ w' =>
          w'.defaultCmdline = d' ++ wantedArguments rootPayload ∧
          (w'.panicked = true ↔ 1024 ≤ (d' ++ wantedArguments rootPayload).length))
        { w with defaultCmdline := d' }) ⟨rootPayload ++ [0x08], [0x71], false⟩ :=
  ⟨by decide, by decide, by decide,
    cmdlineFilter_wanted 1024 rootPayload [0x08] [0x71] (by decide) (by decide) (by decide)⟩

end Yika.Devs
