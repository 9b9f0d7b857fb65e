import Yika.Devs.Boot

/-! What `mt_fixup` leaves in memory: again a list of tags, with the banks that the abstract
`Devs.mtFixup` makes of them and without the last command line. -/

namespace Yika.Devs
open Program

/-! `cmdline_filter` writes nothing but NULs, and nothing behind the payload. -/

/-- Nothing behind the payload has changed, and no NUL has. -/
structure Nulled (tagNext : Nat) (mem mem' : List Byte) : Prop where
  behind : mem'.drop tagNext = mem.drop tagNext
  nuls : ∀ i, mem.getD i 0 = 0 → mem'.getD i 0 = 0

section
variable {mem mem' mem₁ : List Byte} {tagNext i : Nat} {w : FilterState}

theorem nulled_refl : Nulled tagNext mem mem := ⟨rfl, fun _ nul => nul⟩

theorem Nulled.set (nulled : Nulled tagNext mem mem') (inside : i < tagNext) :
    Nulled tagNext mem (mem'.set i 0) where
  behind := by rw [List.drop_set_of_lt inside, nulled.behind]
  nuls j nul := by
    rw [List.getD_eq_getElem?_getD, List.getElem?_set]
    by_cases here : i = j
    · rw [if_pos here]
      split
      next => rfl
      next => rfl
    · rw [if_neg here, ← List.getD_eq_getElem?_getD]
      exact nulled.nuls j nul

@[simp] theorem ensures_peek {p : Nat} {post : Byte → FilterState → Prop} :
    Ensures filterEnv (Filter.peek p) post w ↔ post (w.mem.getD p 0) w := ensures_perform
@[simp] theorem ensures_poke {p : Nat} {b : Byte} {post : Unit → FilterState → Prop} :
    Ensures filterEnv (Filter.poke p b) post w ↔ post () { w with mem := w.mem.set p b } := ensures_perform
@[simp] theorem ensures_memcmp {p : Nat} {s : List Byte} {post : Int → FilterState → Prop} :
    Ensures filterEnv (Filter.memcmp p s) post w ↔ post (if s <+: w.mem.drop p then 0 else 1) w := ensures_perform
@[simp] theorem ensures_strcatText {s : List Byte} {post : Unit → FilterState → Prop} :
    Ensures filterEnv (Filter.strcatText s) post w ↔ post () { w with defaultCmdline := w.defaultCmdline ++ s } :=
  ensures_perform
@[simp] theorem ensures_strcat {p : Nat} {post : Unit → FilterState → Prop} :
    Ensures filterEnv (Filter.strcat p) post w ↔
      post () { w with defaultCmdline := w.defaultCmdline ++ stringAt w.mem p } := ensures_perform
@[simp] theorem ensures_strlen {post : Nat → FilterState → Prop} :
    Ensures filterEnv Filter.strlen post w ↔ post w.defaultCmdline.length w := ensures_perform
@[simp] theorem ensures_panic {post : Unit → FilterState → Prop} :
    Ensures filterEnv Filter.panic post w ↔ post () { w with panicked := true } := ensures_perform

/-- Separators are skipped up to a byte that is none, or nothing is. -/
theorem ensures_skipSeparators {cs ce : Nat} : Ensures filterEnv (skipSeparators (cs, ce))
    (fun v w' => w' = w ∧ (v.2 = ce ∨ v.2 = v.1) ∧ isSeparator (w.mem.getD v.1 0) = false) w := by
  refine ensures_doWhile (fun v w' => w' = w ∧ (v.2 = ce ∨ v.2 = v.1)) ?_ ⟨rfl, .inl rfl⟩
  intro v w' inv
  obtain ⟨rfl, ends⟩ := inv
  simp only [ensures_bind, ensures_peek, ensures_ite, ensures_pure, Sum.elim_inl, Sum.elim_inr, true_and]
  exact ⟨fun _ => .inr trivial, fun plain => ⟨ends, by simpa using plain⟩⟩

theorem ensures_checkUndesired {cs : Nat} {ckF : Bool} {cmds : List (List Byte)} :
    Ensures filterEnv (checkUndesired cs ckF cmds) (fun _ w' => w' = w) w := by
  induction cmds with
  | nil => exact ensures_pure.mpr rfl
  | cons cmd cmds ih =>
    simp only [checkUndesired, ensures_bind, ensures_memcmp, ensures_ite, ensures_pure, implies_true, true_and]
    exact fun _ => ih

theorem ensures_endToken {v : FilterVars} (nulled : Nulled tagNext mem w.mem) (inside : v.ce < tagNext) :
    Ensures filterEnv (endToken v) (fun _ w' => Nulled tagNext mem w'.mem) w := by
  simp only [endToken, ensures_bind]
  refine ensures_checkUndesired.mono ?_
  rintro ckF w' rfl
  simp only [ensures_when, ensures_bind, ensures_poke, ensures_strcatText, ensures_strcat, ensures_pure]
  exact ⟨fun _ => nulled.set inside, fun _ => nulled⟩

theorem ensures_filterRound {v : FilterVars} (nulled : Nulled tagNext mem w.mem) :
    Ensures filterEnv (filterRound tagNext v)
      (Sum.elim (fun _ w' => Nulled tagNext mem w'.mem) fun _ w' => Nulled tagNext mem w'.mem) w := by
  simp only [filterRound, ensures_ite, ensures_bind, ensures_peek, ensures_pure, Sum.elim_inl, Sum.elim_inr]
  refine ⟨fun inside => ensures_skipSeparators.mono ?_, fun _ => nulled⟩
  rintro skipped w' ⟨rfl, ends, plain⟩
  constructor
  · intro sep
    -- a separator that is seen is not behind the payload
    have same : skipped.2 = v.ce := by
      refine ends.resolve_right fun here => ?_
      rw [here, plain] at sep
      cases sep
    exact ensures_endToken nulled (same ▸ inside)
  · exact fun _ => nulled

theorem ensures_cmdlineFilter {commandLineSize : Nat} :
    Ensures filterEnv (cmdlineFilter commandLineSize tagNext) (fun _ w' => Nulled tagNext w.mem w'.mem) w := by
  simp only [cmdlineFilter, ensures_bind, ensures_strlen, ensures_when, ensures_panic]
  refine (ensures_doWhile (fun _ w' => Nulled tagNext w.mem w'.mem)
    (fun _ _ nulled => ensures_filterRound nulled) nulled_refl).mono ?_
  exact fun _ _ nulled => ⟨fun _ => nulled, fun _ => nulled⟩

end

namespace Boot

section
variable {x : Externals} {w : State} {line : Line} {tag : Nat} {f f' : FilterState}

theorem filtering_filtered (inside : tag + 8 ≤ w.mem.length) : (w.filtered line tag f).filtering line tag = f := by
  have skipped : (w.mem.take (tag + 8) ++ f.mem).drop (tag + 8) = f.mem :=
    List.drop_left' (List.length_take_of_le inside)
  cases line with
  | temp => simp only [State.filtering, State.filtered, skipped, Globals.setLine, Globals.line]
  | kernel => simp only [State.filtering, State.filtered, skipped, Globals.setLine, Globals.line]

theorem filtered_filtered (inside : tag + 8 ≤ w.mem.length) :
    (w.filtered line tag f).filtered line tag f' = w.filtered line tag f' := by
  have kept : (w.mem.take (tag + 8) ++ f.mem).take (tag + 8) = w.mem.take (tag + 8) :=
    List.take_left' (List.length_take_of_le inside)
  cases line with
  | temp => simp only [State.filtered, kept, Globals.setLine]
  | kernel => simp only [State.filtered, kept, Globals.setLine]

theorem filtered_filtering : w.filtered line tag (w.filtering line tag) = w := by
  cases line with
  | temp => simp only [State.filtered, State.filtering, List.take_append_drop, Globals.setLine, Globals.line]
  | kernel => simp only [State.filtered, State.filtering, List.take_append_drop, Globals.setLine, Globals.line]

/-- The operations of the filter work on the memory from the payload on and on one command line. -/
theorem filter_refines (x : Externals) (line : Line) (inside : tag + 8 ≤ w.mem.length) :
    Refines (env x) filterEnv (fun o => @Prog.perform signature (.filter line tag o))
      (fun v => ∃ f, v = w.filtered line tag f) (fun v => v.filtering line tag) := by
  rintro o v ⟨f, rfl⟩
  refine achieves_perform.mpr ⟨rfl, ⟨_, filtered_filtered inside⟩, ?_⟩
  change ((w.filtered line tag f).filtered line tag _).filtering line tag = _
  rw [filtered_filtered inside, filtering_filtered inside]

end

structure Filtered (t t' : Atag) : Prop where
  tag : t'.tag = t.tag
  alike : List.Forall₂ (Alike isSeparator) t.payload t'.payload
  nul : t.payload.getLast? = some 0 → t'.payload.getLast? = some 0

section
variable {x : Externals} {c : Config} {w : State} {line : Line} {t t' : Atag} {before after : List Byte}

theorem Filtered.length (filtered : Filtered t t') : t'.bytes.length = t.bytes.length := by
  rw [Atag.length_bytes, Atag.length_bytes, filtered.alike.length_eq]

theorem getLast?_nul {l : List Byte} : l.getLast? = some 0 ↔ l ≠ [] ∧ l.getD (l.length - 1) 0 = 0 := by
  rw [List.getLast?_eq_getElem?, List.getD_eq_getElem?_getD]
  cases l with
  | nil => simp
  | cons b l => simp

theorem filtered_replace {mem : List Byte} (alike : List.Forall₂ (Alike isSeparator) (t.payload ++ after) mem)
    (nulled : Nulled t.payload.length (t.payload ++ after) mem) :
    ∃ t', Filtered t t' ∧ mem = t'.payload ++ after ∧ t'.size = t.size := by
  have size : (mem.take t.payload.length).length = t.payload.length := by
    rw [List.length_take, ← alike.length_eq, List.length_append]
    omega
  have rest : mem = mem.take t.payload.length ++ after := by
    have behind := nulled.behind
    rw [List.drop_left] at behind
    rw [← behind, List.take_append_drop]
  have alike' := List.forall₂_take t.payload.length alike
  rw [List.take_left] at alike'
  refine ⟨t.replace (mem.take t.payload.length) size, ⟨rfl, alike', ?_⟩, rest, ?_⟩
  · intro nul
    obtain ⟨some, last⟩ := getLast?_nul.mp nul
    have inside : t.payload.length - 1 < t.payload.length := Nat.sub_one_lt (by simpa using some)
    have there := nulled.nuls (t.payload.length - 1) (by rwa [List.getD_append _ _ _ _ inside])
    refine getLast?_nul.mpr ⟨fun empty => ?_, ?_⟩
    · rw [show mem.take t.payload.length = [] from empty, List.length_nil] at size
      omega
    · change (mem.take t.payload.length).getD ((mem.take t.payload.length).length - 1) 0 = 0
      rw [rest, List.getD_append _ _ _ _ (size.symm ▸ inside)] at there
      rwa [size]
  · change BitVec.ofNat 32 ((8 + (mem.take t.payload.length).length) / 4) = _
    rw [size]
    rfl

theorem achieves_filterTag (mem : w.mem = before ++ (t.bytes ++ after)) (nul : t.payload.getLast? = some 0)
    (stops : ∃ b ∈ after, isSeparator b = false) (calm : w.globals.panicked = false) :
    Achieves (env x) (filterTag c line before.length) (fun returned w' => returned = !w'.globals.panicked ∧
      ∃ t', Filtered t t' ∧ w'.mem = before ++ (t'.bytes ++ after) ∧
      w'.globals = { w.globals.setLine (w.globals.line line ++ wantedArguments t.payload) line with
        panicked := decide (c.commandLineSize ≤ (w.globals.line line ++ wantedArguments t.payload).length) }) w := by
  have split : w.mem = before ++ (wordBytes t.size ++ wordBytes t.tag) ++ (t.payload ++ after) := by
    rw [mem, bytes_append]
    simp only [List.append_assoc]
  have header : (before ++ (wordBytes t.size ++ wordBytes t.tag)).length = before.length + 8 := by simp
  have inside : before.length + 8 ≤ w.mem.length := by
    rw [split, List.length_append, header]
    exact Nat.le_add_right _ _
  have payload : before.length + 4 * t.size.toNat - (before.length + 8) = t.payload.length := by
    rw [Atag.four_size]
    omega
  have start : w.filtering line before.length = ⟨t.payload ++ after, w.globals.line line, false⟩ := by
    rw [State.filtering, split, List.drop_left' header, calm]
  have separator : ∀ b ∈ t.payload.getLast?, isSeparator b = true := by
    rw [nul]
    simp [isSeparator]
  obtain ⟨_, f, run, result, panics, alike⟩ :=
    achieves_cmdlineFilter c.commandLineSize (ended_append separator stops) (w.globals.line line)
  have nulled := ensures_cmdlineFilter _ f run
  rw [List.take_left] at result panics
  obtain ⟨t', filtered, there, size⟩ := filtered_replace alike nulled
  obtain ⟨w', lowered, ⟨f', rfl⟩, seen⟩ := run.lower (filter_refines x line inside)
    ⟨w.filtering line before.length, filtered_filtering.symm⟩ start
  rw [filtering_filtered inside] at seen
  subst seen
  simp only [filterTag, tagNext, achieves_bind, achieves_load, achieves_globals, achieves_pure]
  rw [mem, load_size, payload]
  refine ⟨_, _, lowered, trivial, t', filtered, ?_, ?_⟩
  · change w.mem.take (before.length + 8) ++ f'.mem = _
    rw [there, split, List.take_left' header, bytes_append, size, filtered.tag, List.append_assoc]
  · have panicked : f'.panicked = decide (c.commandLineSize ≤ (w.globals.line line ++ wantedArguments t.payload).length) := by
      rw [Bool.eq_iff_iff, panics, decide_eq_true_iff]
    change { w.globals.setLine f'.defaultCmdline line with panicked := f'.panicked } = _
    rw [result, panicked]

end

def wanted (ids : TagIds) (t : Atag) : List Byte :=
  if t.tag = ids.cmdline then wantedArguments t.payload else []

/-- What the loop on `temp_tags` makes of a tag. -/
def Passed (ids : TagIds) (t t' : Atag) : Prop := Filtered t t' ∧ (t.tag ≠ ids.cmdline → t' = t)

section
variable {x : Externals} {c : Config} {w : State} {line : Line} {t t' : Atag} {before post : List Byte}
  {tags tags' : List Atag} {ids : TagIds}

theorem filtered_refl : Filtered t t := ⟨rfl, alike_refl, id⟩

theorem passed_refl : Passed ids t t := ⟨filtered_refl, fun _ => rfl⟩

theorem Atag.size_ne_zero : t.size ≠ 0 := by
  intro none
  have four := t.four_size
  have zero : (0 : Word).toNat = 0 := rfl
  rw [none, zero] at four
  omega

theorem achieves_filterOne {after : List Byte} (mem : w.mem = before ++ (t.bytes ++ after))
    (nul : t.tag = c.ids.cmdline → t.payload.getLast? = some 0) (stops : ∃ b ∈ after, isSeparator b = false)
    (calm : w.globals.panicked = false)
    (short : (w.globals.tempCommandLine ++ wanted c.ids t).length < c.commandLineSize) :
    Achieves (env x) (if t.tag = c.ids.cmdline then filterTag c .temp before.length else pure true)
      (fun returned w' => returned = true ∧ ∃ t', Passed c.ids t t' ∧ w'.mem = before ++ (t'.bytes ++ after) ∧
        w'.globals = { w.globals with tempCommandLine := w.globals.tempCommandLine ++ wanted c.ids t }) w := by
  rw [achieves_ite]
  constructor
  · intro here
    refine (achieves_filterTag mem (nul here) stops calm).mono ?_
    rintro _ w' ⟨rfl, t', filtered, mem', globals⟩
    rw [wanted, if_pos here] at short ⊢
    have fits : decide (c.commandLineSize ≤ (w.globals.line .temp ++ wantedArguments t.payload).length) =
        w.globals.panicked := by
      rw [calm]
      exact decide_eq_false (Nat.not_le_of_lt short)
    rw [fits] at globals
    have calm' : w'.globals.panicked = false := by rw [globals]; exact calm
    exact ⟨by rw [calm']; rfl, t', ⟨filtered, fun other => absurd here other⟩, mem', globals⟩
  · intro other
    refine achieves_pure.mpr ⟨rfl, t, ⟨filtered_refl, fun _ => rfl⟩, mem, ?_⟩
    rw [wanted, if_neg other, List.append_nil]

theorem achieves_filterTags (mem : w.mem = before ++ (tagBytes tags ++ (atagNone ++ post)))
    (nul : ∀ t ∈ tags, t.tag = c.ids.cmdline → t.payload.getLast? = some 0)
    (stops : ∃ b ∈ post, isSeparator b = false) (calm : w.globals.panicked = false)
    (short : (w.globals.tempCommandLine ++ tags.flatMap (wanted c.ids)).length < c.commandLineSize) :
    Achieves (env x) (filterTags c before.length) (fun returned w' => returned = true ∧
      ∃ tags', List.Forall₂ (Passed c.ids) tags tags' ∧ w'.mem = before ++ (tagBytes tags' ++ (atagNone ++ post)) ∧ w'.globals = { w.globals with
        tempCommandLine := w.globals.tempCommandLine ++ tags.flatMap (wanted c.ids) }) w := by
  induction tags generalizing before w with
  | nil =>
    refine Achieves.doWhile ?_
    have ends : loadWord w.mem before.length = 0 := mem ▸ load_none.1
    simp only [achieves_bind, achieves_load, ends, if_true, achieves_pure, Sum.elim_inr]
    refine ⟨trivial, [], .nil, mem, ?_⟩
    rw [List.flatMap_nil, List.append_nil]
  | cons t tags ih =>
    rw [tagBytes_cons, List.append_assoc] at mem
    rw [List.flatMap_cons, ← List.append_assoc, List.length_append] at short
    have size : loadWord w.mem before.length = t.size := mem ▸ load_size
    have tag : loadWord w.mem (before.length + 4) = t.tag := mem ▸ load_tag
    have stops' : ∃ b ∈ tagBytes tags ++ (atagNone ++ post), isSeparator b = false := by
      obtain ⟨b, member, plain⟩ := stops
      exact ⟨b, by simp [member], plain⟩
    refine Achieves.doWhile ?_
    simp only [achieves_bind, achieves_load, size, if_neg Atag.size_ne_zero, tag]
    refine (achieves_filterOne mem (nul t List.mem_cons_self) stops' calm (by omega)).mono ?_
    rintro _ w₁ ⟨rfl, t', passed, mem', globals⟩
    simp only [if_true, tagNext, achieves_bind, achieves_load, achieves_pure, Sum.elim_inl]
    have next : before.length + 4 * (loadWord w₁.mem before.length).toNat = (before ++ t'.bytes).length := by
      rw [mem', load_size, Atag.four_size, List.length_append, Atag.length_bytes]
    have line : w₁.globals.tempCommandLine = w.globals.tempCommandLine ++ wanted c.ids t := by rw [globals]
    have calm' : w₁.globals.panicked = false := by rw [globals]; exact calm
    rw [next]
    refine (ih (by rw [mem', List.append_assoc]) (fun t member => nul t (List.mem_cons_of_mem _ member)) calm'
      (by rw [line, List.length_append]; exact short)).mono ?_
    rintro returned w' ⟨ended, tags', passes, mem'', globals'⟩
    refine ⟨ended, t' :: tags', .cons passed passes, ?_, ?_⟩
    · rw [mem'', tagBytes_cons, List.append_assoc, List.append_assoc]
    · rw [globals', line, globals, List.flatMap_cons, List.append_assoc]

end

/-! The loop on `tags`. -/

def Config.dram (c : Config) (totalReservedMemSize : Word) : DramConfig where
  maxDramSizeSupport := c.maxDramSizeSupport
  physOffset := c.physOffset
  dramPhysAddrStart := c.dramPhysAddrStart
  totalReservedMemSize := totalReservedMemSize

/-- The payload of a tag has what is read of it, and a command line is a string. -/
structure Sound (c : Config) (t : Atag) : Prop where
  mem : t.tag = c.ids.mem → 8 ≤ t.payload.length
  cmdline : t.tag = c.ids.cmdline → t.payload.getLast? = some 0
  boot : t.tag = c.ids.boot → 4 ≤ t.payload.length
  videolfb : t.tag = c.ids.videolfb → 16 ≤ t.payload.length
  devinfoData : t.tag = c.ids.devinfoData → c.devinfoDataSizeAt + 4 ≤ t.payload.length ∧
    4 * (t.word c.devinfoDataSizeAt).toInt.toNat ≤ t.payload.length
  metaCom : t.tag = c.ids.metaCom → 8 ≤ t.payload.length

def note (c : Config) (a : Nat) (t : Atag) (g : Globals) : Globals :=
  if t.tag = c.ids.mem then { g with blMemSz := g.blMemSz + t.word 0 }
  else if t.tag = c.ids.cmdline then g
  else if t.tag = c.ids.boot then { g with gBootMode := t.word 0 }
  else if t.tag = c.ids.videolfb then
    { g with blFbBase := t.word 8, blFbSize := t.word 12, useBlFb := g.useBlFb + 1 }
  else if t.tag = c.ids.devinfoData then { g with
    gDevinfoData := fun i =>
      if i < (t.word c.devinfoDataSizeAt).toInt.toNat then t.word (4 * i) else g.gDevinfoData i
    gDevinfoDataSize := t.word c.devinfoDataSizeAt }
  else if t.tag = c.ids.metaCom then { g with gMetaComType := t.word 0, gMetaComId := t.word 4 }
  else if t.tag = c.ids.dfoData then { g with dfo := g.dfo ++ [some (a + 8)] }
  else g

def notes (c : Config) : Nat → List Atag → Globals → Globals
  | _, [], g => g
  | a, t :: ts, g => notes c (a + t.bytes.length) ts (note c a t g)

structure Resized (ids : TagIds) (t t' : Atag) : Prop where
  tag : t'.tag = t.tag
  length : t'.payload.length = t.payload.length
  rest : t'.payload.drop 4 = t.payload.drop 4
  other : t.tag ≠ ids.mem → t' = t

/-- The variables of the kernel are those of the abstract loop; a bank is named by its address. -/
structure Agrees (address : Nat → Nat) (s : Limiting) (v : Vars) (g : Globals) : Prop where
  limit : v.maxLimitSize = s.maxLimitSize
  avail : v.availDram = s.availDram
  reserved : v.reservedMemBankTag = s.reservedMemBankTag.map address
  blMemSz : g.blMemSz = s.blMemSz
  gBootMode : g.gBootMode = s.gBootMode
  useBlFb : g.useBlFb = s.useBlFb

section
variable {x : Externals} {c : Config} {w : State} {t t' : Atag} {before after post : List Byte}
  {tags : List Atag} {ids : TagIds} {address : Nat → Nat} {s : Limiting} {v : Vars} {i : Nat} {total size : Word}

theorem resized_refl : Resized ids t t := ⟨rfl, rfl, rfl, fun _ => rfl⟩

theorem resized_resize (here : t.tag = ids.mem) : Resized ids t (t.resize size) where
  tag := rfl
  length := length_storeWord
  rest := by
    change (storeWord t.payload 0 size).drop 4 = _
    simp only [storeWord]
    rw [List.drop_set_of_lt (by omega), List.drop_set_of_lt (by omega), List.drop_set_of_lt (by omega),
      List.drop_set_of_lt (by omega)]
  other other := absurd here other

theorem view_mem (here : t.tag = ids.mem) : t.view ids = .mem (t.word 0) (t.word 4) := if_pos here

theorem view_resize (here : t.tag = ids.mem) (sound : 8 ≤ t.payload.length) :
    (t.resize size).view ids = .mem size (t.word 4) := by
  have first : (t.resize size).word 0 = size := loadWord_storeWord (by omega)
  have second : (t.resize size).word 4 = t.word 4 := loadWord_storeWord_of_apart (by omega)
  rw [view_mem (t := t.resize size) here, first, second]

theorem achieves_fixupMem (total : Word) (mem : w.mem = before ++ (t.bytes ++ after)) (start : v.tags = before.length)
    (here : t.tag = c.ids.mem) (sound : 8 ≤ t.payload.length) (agrees : Agrees address s v w.globals)
    (place : address i = before.length) :
    Achieves (env x) (fixupMem c v) (fun v' w' => ∃ t', Resized c.ids t t' ∧
      t'.view c.ids = .mem (limitMem (c.dram total) i (t.word 0) s).1 (t.word 4) ∧
      w'.mem = before ++ (t'.bytes ++ after) ∧
      w'.globals = { w.globals with blMemSz := w.globals.blMemSz + t.word 0 } ∧
      Agrees address (limitMem (c.dram total) i (t.word 0) s).2 v' w'.globals ∧
      v'.tags = v.tags ∧ v'.cmdlineTag = v.cmdlineTag) w := by
  have size : loadWord w.mem (v.tags + 8) = t.word 0 := by
    rw [mem, start]
    exact load_word (i := 0) (by omega)
  have stored : ∀ size, storeWord w.mem (v.tags + 8) size = before ++ ((t.resize size).bytes ++ after) := by
    intro size
    rw [mem, start]
    exact store_resize (by omega)
  have bank : some v.tags = (some i).map address := by
    rw [start, ← place]
    rfl
  simp only [fixupMem, achieves_bind, achieves_load, achieves_update, achieves_ite, achieves_pure, achieves_store,
    size, stored, agrees.limit]
  refine ⟨fun opened => ⟨fun fits => ?_, fun exceeds => ?_⟩, fun full => ?_⟩
  · simp only [limitMem, if_pos opened, if_pos fits]
    exact ⟨t, resized_refl, view_mem here, mem, trivial, {
      limit := rfl
      avail := congrArg (· + t.word 0) agrees.avail
      reserved := bank
      blMemSz := congrArg (· + t.word 0) agrees.blMemSz
      gBootMode := agrees.gBootMode
      useBlFb := agrees.useBlFb }, trivial, trivial⟩
  · simp only [limitMem, if_pos opened, if_neg exceeds]
    exact ⟨_, resized_resize here, view_resize here sound, rfl, trivial, {
      limit := rfl
      avail := congrArg (· + _) agrees.avail
      reserved := bank
      blMemSz := congrArg (· + t.word 0) agrees.blMemSz
      gBootMode := agrees.gBootMode
      useBlFb := agrees.useBlFb }, trivial, trivial⟩
  · simp only [limitMem, if_neg full]
    exact ⟨_, resized_resize here, view_resize here sound, rfl, trivial, {
      limit := agrees.limit
      avail := agrees.avail
      reserved := agrees.reserved
      blMemSz := congrArg (· + t.word 0) agrees.blMemSz
      gBootMode := agrees.gBootMode
      useBlFb := agrees.useBlFb }, trivial, trivial⟩

theorem achieves_parseTagVideofbFixup (mem : w.mem = before ++ (t.bytes ++ after))
    (sound : 16 ≤ t.payload.length) :
    Achieves (env x) (parseTagVideofbFixup before.length) (fun _ w' => w' = { w with globals := { w.globals with
      blFbBase := t.word 8, blFbSize := t.word 12, useBlFb := w.globals.useBlFb + 1 } }) w := by
  have base : loadWord w.mem (before.length + (8 + 8)) = t.word 8 := mem ▸ load_word (by omega)
  have size : loadWord w.mem (before.length + (8 + 12)) = t.word 12 := mem ▸ load_word (by omega)
  simp only [parseTagVideofbFixup, achieves_bind, achieves_load, achieves_update, base, size]

/-- The loop of `parse_tag_devinfo_data_fixup` copies the words. -/
theorem achieves_parseTagDevinfoDataFixup (mem : w.mem = before ++ (t.bytes ++ after))
    (sound : c.devinfoDataSizeAt + 4 ≤ t.payload.length ∧
      4 * (t.word c.devinfoDataSizeAt).toInt.toNat ≤ t.payload.length) :
    Achieves (env x) (parseTagDevinfoDataFixup c before.length) (fun _ w' => w' = { w with globals := { w.globals with
      gDevinfoData := fun i =>
        if i < (t.word c.devinfoDataSizeAt).toInt.toNat then t.word (4 * i) else w.globals.gDevinfoData i
      gDevinfoDataSize := t.word c.devinfoDataSizeAt } }) w := by
  have size : loadWord w.mem (before.length + (8 + c.devinfoDataSizeAt)) = t.word c.devinfoDataSizeAt :=
    mem ▸ load_word sound.1
  simp only [parseTagDevinfoDataFixup, achieves_bind, achieves_load, size]
  refine Achieves.mono (achieves_forRange (fun n w' => w' = { w with globals := { w.globals with
    gDevinfoData := fun i => if i < n then t.word (4 * i) else w.globals.gDevinfoData i } }) ?_ ?_) ?_
  · rintro n w' - last rfl
    have word : loadWord w.mem (before.length + (8 + 4 * n)) = t.word (4 * n) := mem ▸ load_word (by omega)
    simp only [achieves_bind, achieves_load, achieves_update, word]
    congr 2
    funext i
    rcases Nat.lt_trichotomy i n with below | rfl | above
    · rw [Function.update_of_ne (by omega), if_pos below, if_pos (by omega)]
    · rw [Function.update_self, if_pos (by omega)]
    · rw [Function.update_of_ne (by omega), if_neg (by omega), if_neg (by omega)]
  · simp
  · rintro _ w' rfl
    simp only [achieves_update, Nat.zero_add]

/-- What one tag makes of the variables of the kernel and of the abstract loop. -/
structure Fixed (c : Config) (address : Nat → Nat) (total : Word) (i : Nat) (s : Limiting) (before after : List Byte)
    (t t' : Atag) (v v' : Vars) (w w' : State) : Prop where
  resized : Resized c.ids t t'
  view : t'.view c.ids = (limitTag (c.dram total) i s (t.view c.ids)).1
  mem : w'.mem = before ++ (t'.bytes ++ after)
  globals : w'.globals = note c before.length t w.globals
  agrees : Agrees address (limitTag (c.dram total) i s (t.view c.ids)).2 v' w'.globals
  tags : v'.tags = v.tags
  cmdlineTag : v'.cmdlineTag = if t.tag = c.ids.cmdline then some before.length else v.cmdlineTag

theorem achieves_fixupTag_mem (mem : w.mem = before ++ (t.bytes ++ after)) (start : v.tags = before.length)
    (isMem : t.tag = c.ids.mem) (sound : 8 ≤ t.payload.length) (agrees : Agrees address s v w.globals)
    (place : address i = before.length) : Achieves (env x) (fixupMem c v)
      (fun v' w' => ∃ t', Fixed c address total i s before after t t' v v' w w') w := by
  refine (achieves_fixupMem total mem start isMem sound agrees place).mono ?_
  rintro v' w' ⟨t', resized, view, mem', globals, agrees', tags, cmdlineTag⟩
  exact ⟨t', {
    resized := resized
    view := by rw [view_mem isMem]; exact view
    mem := mem'
    globals := by rw [globals, note, if_pos isMem]
    agrees := by rw [view_mem isMem]; exact agrees'
    tags := tags
    cmdlineTag := by rw [cmdlineTag, if_neg (isMem ▸ c.ids.mem_ne_cmdline)] }⟩

theorem fixed_cmdline (mem : w.mem = before ++ (t.bytes ++ after)) (start : v.tags = before.length)
    (isCmdline : t.tag = c.ids.cmdline) (agrees : Agrees address s v w.globals) :
    Fixed c address total i s before after t t v { v with cmdlineTag := some v.tags } w w := by
  have noMem : t.tag ≠ c.ids.mem := isCmdline ▸ c.ids.mem_ne_cmdline.symm
  have view : t.view c.ids = .other := by rw [Atag.view, if_neg noMem, if_pos isCmdline]
  exact {
    resized := resized_refl
    view := by rw [view]; rfl
    mem := mem
    globals := by rw [note, if_neg noMem, if_pos isCmdline]
    agrees := by rw [view]; exact { agrees with }
    tags := rfl
    cmdlineTag := by rw [if_pos isCmdline, start] }

theorem fixed_boot (mem : w.mem = before ++ (t.bytes ++ after)) (noMem : t.tag ≠ c.ids.mem)
    (noCmdline : t.tag ≠ c.ids.cmdline) (isBoot : t.tag = c.ids.boot) (agrees : Agrees address s v w.globals) :
    Fixed c address total i s before after t t v v w
      { w with globals := { w.globals with gBootMode := t.word 0 } } := by
  have view : t.view c.ids = .boot (t.word 0) := by
    rw [Atag.view, if_neg noMem, if_neg noCmdline, if_pos isBoot]
  exact {
    resized := resized_refl
    view := by rw [view]; rfl
    mem := mem
    globals := by rw [note, if_neg noMem, if_neg noCmdline, if_pos isBoot]
    agrees := by rw [view]; exact { agrees with gBootMode := rfl }
    tags := rfl
    cmdlineTag := (if_neg noCmdline).symm }

theorem fixed_videolfb (mem : w.mem = before ++ (t.bytes ++ after)) (noMem : t.tag ≠ c.ids.mem)
    (noCmdline : t.tag ≠ c.ids.cmdline) (noBoot : t.tag ≠ c.ids.boot) (isVideolfb : t.tag = c.ids.videolfb)
    (agrees : Agrees address s v w.globals) :
    Fixed c address total i s before after t t v v w { w with globals := { w.globals with
      blFbBase := t.word 8, blFbSize := t.word 12, useBlFb := w.globals.useBlFb + 1 } } := by
  have view : t.view c.ids = .videolfb := by
    rw [Atag.view, if_neg noMem, if_neg noCmdline, if_neg noBoot, if_pos isVideolfb]
  exact {
    resized := resized_refl
    view := by rw [view]; rfl
    mem := mem
    globals := by rw [note, if_neg noMem, if_neg noCmdline, if_neg noBoot, if_pos isVideolfb]
    agrees := by rw [view]; exact { agrees with useBlFb := congrArg (· + 1) agrees.useBlFb }
    tags := rfl
    cmdlineTag := (if_neg noCmdline).symm }

theorem fixed_other (mem : w.mem = before ++ (t.bytes ++ after)) (noMem : t.tag ≠ c.ids.mem)
    (noCmdline : t.tag ≠ c.ids.cmdline) (noBoot : t.tag ≠ c.ids.boot) (noVideolfb : t.tag ≠ c.ids.videolfb)
    (agrees : Agrees address s v w.globals) {g : Globals} (globals : g = note c before.length t w.globals)
    (blMemSz : g.blMemSz = w.globals.blMemSz) (gBootMode : g.gBootMode = w.globals.gBootMode)
    (useBlFb : g.useBlFb = w.globals.useBlFb) :
    Fixed c address total i s before after t t v v w { w with globals := g } := by
  have view : t.view c.ids = .other := by
    rw [Atag.view, if_neg noMem, if_neg noCmdline, if_neg noBoot, if_neg noVideolfb]
  exact {
    resized := resized_refl
    view := by rw [view]; rfl
    mem := mem
    globals := globals
    agrees := by
      rw [view]
      exact { agrees with
        blMemSz := blMemSz.trans agrees.blMemSz
        gBootMode := gBootMode.trans agrees.gBootMode
        useBlFb := useBlFb.trans agrees.useBlFb }
    tags := rfl
    cmdlineTag := (if_neg noCmdline).symm }

theorem achieves_fixupTag (total : Word) (mem : w.mem = before ++ (t.bytes ++ after)) (start : v.tags = before.length)
    (sound : Sound c t) (agrees : Agrees address s v w.globals) (place : address i = before.length) :
    Achieves (env x) (fixupTag c v)
      (fun v' w' => ∃ t', Fixed c address total i s before after t t' v v' w w') w := by
  have tag : loadWord w.mem (v.tags + 4) = t.tag := by
    rw [mem, start]
    exact load_tag
  have word : ∀ k, k + 4 ≤ t.payload.length → loadWord w.mem (v.tags + (8 + k)) = t.word k := by
    intro k bound
    rw [mem, start]
    exact load_word bound
  rw [fixupTag, achieves_bind, achieves_load, tag]
  by_cases isMem : t.tag = c.ids.mem
  · rw [if_pos isMem]
    exact achieves_fixupTag_mem mem start isMem (sound.mem isMem) agrees place
  rw [if_neg isMem]
  by_cases isCmdline : t.tag = c.ids.cmdline
  · rw [if_pos isCmdline, achieves_pure]
    exact ⟨t, fixed_cmdline mem start isCmdline agrees⟩
  rw [if_neg isCmdline]
  by_cases isBoot : t.tag = c.ids.boot
  · simp only [if_pos isBoot, achieves_bind, achieves_load, achieves_update, achieves_pure, word 0 (sound.boot isBoot)]
    exact ⟨t, fixed_boot mem isMem isCmdline isBoot agrees⟩
  rw [if_neg isBoot]
  by_cases isVideolfb : t.tag = c.ids.videolfb
  · rw [if_pos isVideolfb, achieves_bind, start]
    refine (achieves_parseTagVideofbFixup mem (sound.videolfb isVideolfb)).mono ?_
    rintro _ w' rfl
    exact achieves_pure.mpr ⟨t, fixed_videolfb mem isMem isCmdline isBoot isVideolfb agrees⟩
  rw [if_neg isVideolfb]
  have noted : ∀ g, note c before.length t g = (if t.tag = c.ids.devinfoData then _ else _) := fun g => by
    rw [note, if_neg isMem, if_neg isCmdline, if_neg isBoot, if_neg isVideolfb]
  by_cases isDevinfo : t.tag = c.ids.devinfoData
  · rw [if_pos isDevinfo, achieves_bind, start]
    refine (achieves_parseTagDevinfoDataFixup mem (sound.devinfoData isDevinfo)).mono ?_
    rintro _ w' rfl
    refine achieves_pure.mpr ⟨t, fixed_other mem isMem isCmdline isBoot isVideolfb agrees ?_ rfl rfl rfl⟩
    rw [noted, if_pos isDevinfo]
  rw [if_neg isDevinfo]
  by_cases isMeta : t.tag = c.ids.metaCom
  · have long := sound.metaCom isMeta
    simp only [if_pos isMeta, achieves_bind, achieves_load, achieves_update, achieves_pure,
      word 0 (by omega), word 4 long]
    refine ⟨t, fixed_other mem isMem isCmdline isBoot isVideolfb agrees ?_ rfl rfl rfl⟩
    rw [noted, if_neg isDevinfo, if_pos isMeta]
  rw [if_neg isMeta]
  by_cases isDfo : t.tag = c.ids.dfoData
  · simp only [if_pos isDfo, parseCcciDfoSetting, achieves_bind, achieves_update, achieves_pure, start]
    refine ⟨t, fixed_other mem isMem isCmdline isBoot isVideolfb agrees ?_ rfl rfl rfl⟩
    rw [noted, if_neg isDevinfo, if_neg isMeta, if_pos isDfo]
  · rw [if_neg isDfo, achieves_pure]
    refine ⟨t, fixed_other mem isMem isCmdline isBoot isVideolfb agrees ?_ rfl rfl rfl⟩
    rw [noted, if_neg isDevinfo, if_neg isMeta, if_neg isDfo]

structure Walked (c : Config) (address : Nat → Nat) (total : Word) (i : Nat) (s : Limiting) (before post : List Byte)
    (tags tags' : List Atag) (v v' : Vars) (w w' : State) : Prop where
  resized : List.Forall₂ (Resized c.ids) tags tags'
  view : tags'.map (Atag.view c.ids) = (limitTags (c.dram total) i (tags.map (Atag.view c.ids)) s).1
  mem : w'.mem = before ++ (tagBytes tags' ++ (atagNone ++ post))
  globals : w'.globals = notes c before.length tags w.globals
  agrees : Agrees address (limitTags (c.dram total) i (tags.map (Atag.view c.ids)) s).2 v' w'.globals
  stop : v'.tags = before.length + (tagBytes tags).length
  cmdlineTag : v'.cmdlineTag =
    ((lastCmdline c.ids tags).map fun l => before.length + (tagBytes l.1).length).or v.cmdlineTag

theorem Fixed.walked {v' v'' : Vars} {w' w'' : State} {tags' : List Atag}
    (fixed : Fixed c address total i s before (tagBytes tags ++ (atagNone ++ post)) t t' v v' w w')
    (walked : Walked c address total (i + 1) (limitTag (c.dram total) i s (t.view c.ids)).2 (before ++ t'.bytes)
      post tags tags' { v' with tags := before.length + t.bytes.length } v'' w' w'') :
    Walked c address total i s before post (t :: tags) (t' :: tags') v v'' w w'' := by
  have length : (before ++ t'.bytes).length = before.length + t.bytes.length := by
    rw [List.length_append, Atag.length_bytes, Atag.length_bytes, fixed.resized.length]
  constructor
  · exact .cons fixed.resized walked.resized
  · rw [List.map_cons, List.map_cons, fixed.view, walked.view, limitTags]
  · rw [walked.mem, tagBytes_cons, List.append_assoc, List.append_assoc]
  · rw [walked.globals, fixed.globals, length, notes]
  · rw [List.map_cons, limitTags]
    exact walked.agrees
  · rw [walked.stop, length, tagBytes_cons, List.length_append, Nat.add_assoc]
  · rw [walked.cmdlineTag, lastCmdline_cons, fixed.cmdlineTag, length]
    cases lastCmdline c.ids tags with
    | some l =>
      change some (before.length + t.bytes.length + (tagBytes l.1).length) =
        some (before.length + (tagBytes (t :: l.1)).length)
      rw [tagBytes_cons, List.length_append, Nat.add_assoc]
    | none =>
      by_cases isCmdline : t.tag = c.ids.cmdline
      · simp [isCmdline, tagBytes]
      · simp [isCmdline]

theorem achieves_fixupTags (total : Word) (mem : w.mem = before ++ (tagBytes tags ++ (atagNone ++ post)))
    (start : v.tags = before.length) (sound : ∀ t ∈ tags, Sound c t) (agrees : Agrees address s v w.globals)
    (place : ∀ j, address (i + j) = before.length + (tagBytes (tags.take j)).length) :
    Achieves (env x) (fixupTags c v)
      (fun v' w' => ∃ tags', Walked c address total i s before post tags tags' v v' w w') w := by
  induction tags generalizing before w v s i with
  | nil =>
    refine Achieves.doWhile ?_
    have ends : loadWord w.mem v.tags = 0 := by
      rw [mem, start]
      exact load_none.1
    simp only [achieves_bind, achieves_load, ends, if_true, achieves_pure, Sum.elim_inr]
    exact ⟨[], {
      resized := .nil
      view := rfl
      mem := mem
      globals := rfl
      agrees := agrees
      stop := start
      cmdlineTag := rfl }⟩
  | cons t tags ih =>
    rw [tagBytes_cons, List.append_assoc] at mem
    have size : loadWord w.mem v.tags = t.size := by
      rw [mem, start]
      exact load_size
    refine Achieves.doWhile ?_
    simp only [achieves_bind, achieves_load, size, if_neg Atag.size_ne_zero, tagNext, achieves_pure, Sum.elim_inl]
    have here : address i = before.length := by simpa [tagBytes] using place 0
    refine (achieves_fixupTag total mem start (sound t List.mem_cons_self) agrees here).mono ?_
    rintro v₁ w₁ ⟨t', fixed⟩
    have next : v₁.tags + 4 * (loadWord w₁.mem v₁.tags).toNat = (before ++ t'.bytes).length := by
      rw [fixed.tags, start, fixed.mem, load_size, Atag.four_size, List.length_append, Atag.length_bytes]
    have length : (before ++ t'.bytes).length = before.length + t.bytes.length := by
      rw [List.length_append, Atag.length_bytes, Atag.length_bytes, fixed.resized.length]
    have places : ∀ j, address (i + 1 + j) = (before ++ t'.bytes).length + (tagBytes (tags.take j)).length := by
      intro j
      have there := place (j + 1)
      rw [List.take_succ_cons, tagBytes_cons, List.length_append] at there
      rw [length, Nat.add_assoc i, Nat.add_comm 1 j, there, Nat.add_assoc]
    rw [next]
    refine (ih (v := { v₁ with tags := (before ++ t'.bytes).length }) (by rw [fixed.mem, List.append_assoc]) rfl
      (fun t member => sound t (List.mem_cons_of_mem _ member)) { fixed.agrees with } places).mono ?_
    rintro v' w' ⟨tags', walked⟩
    rw [length] at walked
    exact ⟨t' :: tags', fixed.walked walked⟩

end

end Boot

end Yika.Devs
