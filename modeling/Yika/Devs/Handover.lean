import Yika.Devs.InPlace

/-! What the kernel takes over from the boot loader: the memory after `mt_fixup`, and the variables
that it sets. -/

namespace Yika.Devs
open Program

section
variable {c : DramConfig} {i k : Nat} {s : Limiting} {tags : List FixupTag} {size start : Word}

theorem limitMem_reserved : (limitMem c i size s).2.reservedMemBankTag = s.reservedMemBankTag ∨
    (limitMem c i size s).2.reservedMemBankTag = some i := by
  unfold limitMem
  dsimp only
  split
  next =>
    split
    next => exact .inr rfl
    next => exact .inr rfl
  next => exact .inl rfl

theorem reserved_mem (found : (limitTags c i tags s).2.reservedMemBankTag = some k) :
    s.reservedMemBankTag = some k ∨ ∃ before size start after, i + before.length = k ∧
      (limitTags c i tags s).1 = before ++ .mem size start :: after := by
  induction tags generalizing i s with
  | nil => exact .inl found
  | cons tag tags ih =>
    simp only [limitTags] at found ⊢
    rcases ih found with early | ⟨before, size, start, after, index, split⟩
    · cases tag with
      | mem size start =>
        rcases limitMem_reserved (c := c) (i := i) (s := s) with same | here
        · exact .inl (same.symm.trans early)
        · exact .inr ⟨[], _, start, _, Option.some.inj (here.symm.trans early), rfl⟩
      | boot _ => exact .inl early
      | videolfb => exact .inl early
      | other => exact .inl early
    · refine .inr ⟨(limitTag c i s tag).1 :: before, size, start, after, ?_, by rw [split, List.cons_append]⟩
      rw [List.length_cons]
      omega

end

section
variable {ids : TagIds} {R : Atag → Atag → Prop} {tags tags' : List Atag} {t t' : Atag}
  {l : List Atag × Atag × List Atag}

theorem tagBytes_length_eq (alike : List.Forall₂ R tags tags')
    (length : ∀ t t', R t t' → t'.payload.length = t.payload.length) :
    (tagBytes tags').length = (tagBytes tags).length := by
  induction alike with
  | nil => rfl
  | cons first _ ih =>
    rw [tagBytes_cons, tagBytes_cons, List.length_append, List.length_append, ih, Atag.length_bytes,
      Atag.length_bytes, length _ _ first]

theorem lastCmdline_split (found : lastCmdline ids tags = some l) :
    tags = l.1 ++ l.2.1 :: l.2.2 ∧ l.2.1.tag = ids.cmdline := by
  induction tags generalizing l with
  | nil => cases found
  | cons t tags ih =>
    rw [lastCmdline_cons] at found
    cases later : lastCmdline ids tags with
    | some l' =>
      rw [later] at found
      obtain rfl := Option.some.inj found
      obtain ⟨split, tag⟩ := ih later
      exact ⟨congrArg (t :: ·) split, tag⟩
    | none =>
      rw [later] at found
      by_cases here : t.tag = ids.cmdline
      · rw [if_pos here] at found
        obtain rfl := Option.some.inj found
        exact ⟨rfl, here⟩
      · rw [if_neg here] at found
        cases found

theorem lastCmdline_congr (ids : TagIds) (alike : List.Forall₂ R tags tags') (tag : ∀ t t', R t t' → t'.tag = t.tag) :
    (lastCmdline ids tags = none ∧ lastCmdline ids tags' = none) ∨
      ∃ before t after before' t' after', lastCmdline ids tags = some (before, t, after) ∧
        lastCmdline ids tags' = some (before', t', after') ∧ List.Forall₂ R before before' ∧ R t t' ∧
        List.Forall₂ R after after' := by
  induction alike with
  | nil => exact .inl ⟨rfl, rfl⟩
  | @cons first first' rest rest' related others ih =>
    rw [lastCmdline_cons, lastCmdline_cons]
    rcases ih with ⟨none, none'⟩ | ⟨before, t, after, before', t', after', found, found', front, last, back⟩
    · rw [none, none', tag _ _ related]
      by_cases here : first.tag = ids.cmdline
      · rw [if_pos here, if_pos here]
        exact .inr ⟨[], first, rest, [], first', rest', rfl, rfl, .nil, related, others⟩
      · rw [if_neg here, if_neg here]
        exact .inl ⟨rfl, rfl⟩
    · rw [found, found']
      exact .inr ⟨first :: before, t, after, first' :: before', t', after', rfl, rfl, .cons related front, last, back⟩

theorem forall₂_trans {R' T : Atag → Atag → Prop} {tags'' : List Atag} (first : List.Forall₂ R tags tags')
    (second : List.Forall₂ R' tags' tags'') (both : ∀ t t' t'', R t t' → R' t' t'' → T t t'') :
    List.Forall₂ T tags tags'' := by
  induction first generalizing tags'' with
  | nil =>
    cases second
    exact .nil
  | cons related _ ih =>
    cases second with
    | cons related' rest => exact .cons (both _ _ _ related related') (ih rest)

theorem forall₂_mem {α : Type} {R : α → α → Prop} {l l' : List α} {b : α} (related : List.Forall₂ R l l')
    (member : b ∈ l') : ∃ a ∈ l, R a b := by
  induction related with
  | nil => cases member
  | @cons first _ _ _ here _ ih =>
    rcases List.mem_cons.mp member with rfl | later
    · exact ⟨first, List.mem_cons_self, here⟩
    · obtain ⟨a, member', there⟩ := ih later
      exact ⟨a, List.mem_cons_of_mem _ member', there⟩

end

namespace Boot

/-- What `TOTAL_RESERVED_MEM_SIZE` evaluates to. -/
def reserved (c : Config) (x : Externals) (tempCommandLine : List Byte) : Word :=
  if c.mtkFb = true then x.dispGetVRamSizeBoot tempCommandLine else 0x400000

/-- The ports that `fiq_uart_fixup` is called with. -/
def consolePorts (cmdline : List Byte) : List Int :=
  match strstr ttyMT cmdline with
  | some consolePtr => [if 3 < digitAt consolePtr 5 then -1 else digitAt consolePtr 5]
  | none => []

/-- What a command line says about the reason, if it does. -/
def reasonOf (cmdline : List Byte) : Option Int :=
  (strstr bootReasonText cmdline).map fun brPtr => digitAt brPtr 12

/-- What the last command line of the boot loader sets. -/
def taken (c : Config) (x : Externals) (payload : List Byte) (g : Globals) : Globals :=
  let adjusted := x.adjustKernelCmdLineSettingForConsole (stringAt payload 0) g.cmdline
  let cmdline := adjusted ++ wantedArguments payload
  { g with
    cmdline := cmdline
    uartPorts := if c.fiqDebugger = true then g.uartPorts ++ consolePorts adjusted else g.uartPorts
    gBootReason := if c.commandLineSize ≤ cmdline.length then g.gBootReason
      else (reasonOf cmdline).getD g.gBootReason
    panicked := decide (c.commandLineSize ≤ cmdline.length) }

section
variable {x : Externals} {c : Config} {w : State} {t : Atag} {before after post : List Byte} {back : List Atag}

theorem achieves_totalReservedMemSize {post : Word → State → Prop} :
    Achieves (env x) (totalReservedMemSize c) post w ↔ post (reserved c x w.globals.tempCommandLine) w := by
  unfold totalReservedMemSize reserved
  by_cases fb : c.mtkFb = true
  · rw [if_pos fb, if_pos fb, achieves_dispGetVRamSizeBoot]
  · rw [if_neg fb, if_neg fb, achieves_pure]

theorem achieves_reserveBank (mem : w.mem = before ++ (t.bytes ++ after)) (long : 8 ≤ t.payload.length) :
    Achieves (env x) (reserveBank c before.length) (fun _ w' =>
      w' = ⟨before ++ ((t.resize (t.word 0 - reserved c x w.globals.tempCommandLine)).bytes ++ after),
        { w.globals with pmemStart := t.word 4 + (t.word 0 - reserved c x w.globals.tempCommandLine) }⟩) w := by
  have size : loadWord w.mem (before.length + 8) = t.word 0 := by
    rw [mem]
    exact load_word (i := 0) (by omega)
  have stored : ∀ size, storeWord w.mem (before.length + 8) size = before ++ ((t.resize size).bytes ++ after) := by
    intro size
    rw [mem]
    exact store_resize (by omega)
  have resized : ∀ size, (t.resize size).payload.length = t.payload.length := fun _ => length_storeWord
  have start' : ∀ size, loadWord (before ++ ((t.resize size).bytes ++ after)) (before.length + (8 + 4)) = t.word 4 := by
    intro size
    rw [load_word (by rw [resized]; exact long)]
    exact loadWord_storeWord_of_apart (by omega)
  have size' : ∀ size, loadWord (before ++ ((t.resize size).bytes ++ after)) (before.length + (8 + 0)) = size := by
    intro size
    rw [load_word (by rw [resized]; omega)]
    exact loadWord_storeWord (by omega)
  simp only [reserveBank, achieves_bind, achieves_totalReservedMemSize, achieves_load, achieves_store, size, stored,
    start', size', achieves_update]

theorem achieves_fiqFixup : Achieves (env x) fiqFixup (fun _ w' => w' = { w with globals := { w.globals with
    uartPorts := w.globals.uartPorts ++ consolePorts w.globals.cmdline } }) w := by
  rw [fiqFixup, achieves_bind, achieves_globals, consolePorts]
  cases strstr ttyMT w.globals.cmdline with
  | some consolePtr => exact achieves_update.mpr rfl
  | none =>
    refine achieves_pure.mpr ?_
    rw [List.append_nil]

theorem achieves_console : Achieves (env x) (Prog.when (c.fiqDebugger = true) fiqFixup) (fun _ w' =>
    w' = { w with globals := { w.globals with
      uartPorts := if c.fiqDebugger = true then w.globals.uartPorts ++ consolePorts w.globals.cmdline
        else w.globals.uartPorts } }) w := by
  by_cases fiq : c.fiqDebugger = true
  · rw [Prog.when, if_pos fiq, if_pos fiq]
    exact achieves_fiqFixup
  · rw [Prog.when, if_neg fiq, if_neg fiq]
    exact achieves_pure.mpr rfl

theorem achieves_bootReason : Achieves (env x) bootReason (fun _ w' => w' = { w with globals := { w.globals with
    gBootReason := (reasonOf w.globals.cmdline).getD w.globals.gBootReason } }) w := by
  rw [bootReason, achieves_bind, achieves_globals, reasonOf]
  cases strstr bootReasonText w.globals.cmdline with
  | some brPtr => exact achieves_update.mpr rfl
  | none => exact achieves_pure.mpr rfl

theorem stringAt_payload (nul : t.payload.getLast? = some 0) :
    stringAt (before ++ (t.bytes ++ after)) (before.length + 8) = stringAt t.payload 0 := by
  obtain ⟨text, payload⟩ := List.getLast?_eq_some_iff.mp nul
  have header : (before ++ (wordBytes t.size ++ wordBytes t.tag)).length = before.length + 8 := by simp
  have split : before ++ (t.bytes ++ after) = before ++ (wordBytes t.size ++ wordBytes t.tag) ++ (t.payload ++ after) := by
    rw [bytes_append]
    simp only [List.append_assoc]
  rw [stringAt, split, List.drop_left' header, stringAt, List.drop_zero, payload, List.append_assoc]
  clear payload
  induction text with
  | nil => rfl
  | cons b text ih =>
    have same := congrArg (fun l => if decide (b ≠ 0) = true then b :: l else []) ih
    simpa only [List.cons_append, List.takeWhile_cons] using same

theorem copied_count {next k : Nat} (small : k + 8 < 2 ^ 32) :
    (BitVec.ofNat 32 (next + k) - BitVec.ofNat 32 next + 8).toNat = k + 8 := by
  have distance : BitVec.ofNat 32 (next + k) - BitVec.ofNat 32 next = BitVec.ofNat 32 k := by
    rw [BitVec.ofNat_add, BitVec.add_comm, BitVec.add_sub_cancel]
  have eight : (8 : BitVec 32) = BitVec.ofNat 32 8 := rfl
  rw [distance, eight, ← BitVec.ofNat_add, BitVec.toNat_ofNat, Nat.mod_eq_of_lt small]

theorem achieves_takeCmdline (mem : w.mem = before ++ (t.bytes ++ (tagBytes back ++ (atagNone ++ post))))
    (nul : t.payload.getLast? = some 0) (stops : ∃ b ∈ post, isSeparator b = false)
    (calm : w.globals.panicked = false) (small : (tagBytes back).length + 8 < 2 ^ 32) :
    Achieves (env x) (takeCmdline c (before.length + t.bytes.length + (tagBytes back).length) before.length)
      (fun _ w' => w'.globals = taken c x t.payload w.globals ∧
        (w'.globals.panicked = false → ∃ stale, stale.length = t.bytes.length ∧
          w'.mem = before ++ (tagBytes back ++ (atagNone ++ (stale ++ post)))) ∧
        (w'.globals.panicked = true → ∃ t', Filtered t t' ∧
          w'.mem = before ++ (t'.bytes ++ (tagBytes back ++ (atagNone ++ post))))) w := by
  have stops' : ∃ b ∈ tagBytes back ++ (atagNone ++ post), isSeparator b = false := by
    obtain ⟨b, member, plain⟩ := stops
    exact ⟨b, by simp [member], plain⟩
  have string : stringAt w.mem (before.length + 8) = stringAt t.payload 0 := by rw [mem, stringAt_payload nul]
  rw [takeCmdline, achieves_bind, achieves_adjust, string, achieves_bind]
  generalize adjusts : x.adjustKernelCmdLineSettingForConsole (stringAt t.payload 0) w.globals.cmdline = adjusted
  refine achieves_console.mono ?_
  rintro _ w₁ console
  have mem₁ : w₁.mem = w.mem := by rw [console]
  have calm₁ : w₁.globals.panicked = w.globals.panicked := by rw [console]
  rw [achieves_bind]
  refine (achieves_filterTag (mem₁.trans mem) nul stops' (calm₁.trans calm)).mono ?_
  rintro _ w₂ ⟨rfl, t', filtered, mem', globals'⟩
  rw [achieves_when]
  constructor
  swap
  · -- the kernel has stopped in the filter
    intro stopped
    have panicked : w₂.globals.panicked = true := by simpa using stopped
    have long : c.commandLineSize ≤ (adjusted ++ wantedArguments t.payload).length := by
      rw [globals', console] at panicked
      exact of_decide_eq_true panicked
    refine ⟨?_, fun calm => absurd (panicked.symm.trans calm) Bool.noConfusion, fun _ => ⟨t', filtered, mem'⟩⟩
    rw [globals', taken, adjusts, if_pos long, console]
    rfl
  intro returned
  have calm₂ : w₂.globals.panicked = false := by simpa using returned
  have fits : ¬ c.commandLineSize ≤ (adjusted ++ wantedArguments t.payload).length := by
    rw [globals', console] at calm₂
    exact of_decide_eq_false calm₂
  rw [achieves_bind]
  refine achieves_bootReason.mono ?_
  rintro _ w₃ rfl
  have next : before.length + 4 * (loadWord w₂.mem before.length).toNat = before.length + t'.bytes.length := by
    rw [mem', load_size, Atag.four_size, Atag.length_bytes]
  obtain ⟨stale, size, copied⟩ := copyCells_down 0 before t'.bytes (tagBytes back ++ atagNone) post
  have count : (tagBytes back ++ atagNone).length = (tagBytes back).length + 8 := List.length_append
  simp only [tagNext, achieves_bind, achieves_load, achieves_pure, achieves_memcpy, next]
  rw [← filtered.length, copied_count small]
  rw [count, List.append_assoc, ← mem'] at copied
  refine ⟨?_, fun _ => ⟨stale, size, ?_⟩, fun panicked => absurd (panicked.symm.trans calm₂) Bool.noConfusion⟩
  · rw [globals', taken, adjusts, if_neg fits, console]
    rfl
  · rw [copied]
    simp only [List.append_assoc]

/-! What follows the loop. -/

theorem achieves_when_update {p : Prop} [Decidable p] {f : Globals → Globals} {post : Unit → State → Prop} :
    Achieves (env x) (Prog.when p (Fixup.update f)) post w ↔
      post () { w with globals := if p then f w.globals else w.globals } := by
  by_cases holds : p
  · rw [Prog.when, if_pos holds, achieves_update, if_pos holds]
  · rw [Prog.when, if_neg holds, if_neg holds]
    exact achieves_pure

/-- The variables before a bank is reserved. -/
def summed (c : Config) (availDram : Word) (g : Globals) : Globals :=
  { g with
    dfo := if g.gBootMode = c.metaBoot ∨ g.gBootMode = c.advmetaBoot then g.dfo ++ [none] else g.dfo
    kernelMemSz := availDram
    useBlFb := if c.maxDramSizeSupport - reservedMemModem ≤ g.blMemSz then g.useBlFb + 1 else g.useBlFb }

theorem achieves_sumUp {v : Vars} : Achieves (env x) (sumUp c v)
    (fun _ w' => w' = { w with globals := summed c v.availDram w.globals }) w := by
  simp only [sumUp, parseCcciDfoSetting, achieves_bind, achieves_globals, achieves_when_update, achieves_update,
    summed]
  by_cases isMeta : w.globals.gBootMode = c.metaBoot ∨ w.globals.gBootMode = c.advmetaBoot
  · simp only [if_pos isMeta]
    split
    next => rfl
    next => rfl
  · simp only [if_neg isMeta]
    split
    next => rfl
    next => rfl

theorem view_eq_mem {ids : TagIds} {size start : Word} (view : t.view ids = .mem size start) :
    t.tag = ids.mem ∧ t.word 0 = size ∧ t.word 4 = start := by
  rw [Atag.view] at view
  split at view
  next here =>
    injection view with first second
    exact ⟨here, first, second⟩
  next =>
    split at view
    next => cases view
    next =>
      split at view
      next => cases view
      next =>
        split at view
        next => cases view
        next => cases view

/-- The variables after a bank has been reserved and before the command line is taken. -/
def banked (c : Config) (r : Devs.Fixed) (g : Globals) : Globals :=
  { summed c r.kernelMemSz g with pmemStart := r.pmemStart }

/-- What is in memory at the end: the tags without the last command line, or, where the kernel has
stopped in the filter, with it. -/
structure Left (c : Config) (before post : List Byte) (tags' : List Atag) (w' : State) : Prop where
  returned : w'.globals.panicked = false → ∃ stale,
    w'.mem = before ++ (tagList (withoutCmdline c.ids tags') ++ (stale ++ post)) ∧
    (tagList (withoutCmdline c.ids tags')).length + stale.length = (tagList tags').length
  stopped : w'.globals.panicked = true → ∃ filtered, List.Forall₂ (Passed c.ids) tags' filtered ∧
    w'.mem = before ++ (tagList filtered ++ post)

/-- `tags` are the tags before the loop, `g` the variables after it and `tags'` the tags after the
bank has been reserved. -/
structure Finished (c : Config) (x : Externals) (r : Devs.Fixed) (before post : List Byte)
    (tags tags' : List Atag) (g : Globals) (w' : State) : Prop where
  resized : List.Forall₂ (Resized c.ids) tags tags'
  view : tags'.map (Atag.view c.ids) = r.tags
  left : Left c before post tags' w'
  globals : w'.globals = match lastCmdline c.ids tags with
    | some l => taken c x l.2.1.payload (banked c r g)
    | none => banked c r g
  blMemSz : g.blMemSz = r.blMemSz
  gBootMode : g.gBootMode = r.gBootMode
  useBlFb : (banked c r g).useBlFb = r.useBlFb

theorem achieves_removeCmdline {tags tags' : List Atag} {v : Vars}
    (resized : List.Forall₂ (Resized c.ids) tags tags')
    (mem : w.mem = before ++ (tagBytes tags' ++ (atagNone ++ post)))
    (stop : v.tags = before.length + (tagBytes tags).length)
    (cmdlineTag : v.cmdlineTag = (lastCmdline c.ids tags).map fun l => before.length + (tagBytes l.1).length)
    (nul : ∀ t ∈ tags, t.tag = c.ids.cmdline → t.payload.getLast? = some 0)
    (stops : ∃ b ∈ post, isSeparator b = false) (calm : w.globals.panicked = false)
    (small : (tagList tags).length < 2 ^ 32) :
    Achieves (env x) (removeCmdline c v) (fun _ w' => Left c before post tags' w' ∧
      w'.globals = match lastCmdline c.ids tags with
        | some l => taken c x l.2.1.payload w.globals
        | none => w.globals) w := by
  have size : (tagBytes tags').length = (tagBytes tags).length :=
    tagBytes_length_eq resized fun _ _ related => related.length
  have ends : loadWord w.mem (v.tags + 4) = 0 := by
    rw [mem, stop, ← size, ← List.append_assoc, ← List.length_append]
    exact load_none.2
  rw [removeCmdline, achieves_bind, achieves_load, ends, if_pos rfl, cmdlineTag]
  have total : (tagList tags).length = (tagBytes tags).length + 8 := List.length_append
  have total' : (tagList tags').length = (tagBytes tags).length + 8 := List.length_append.trans (by rw [size]; rfl)
  rcases lastCmdline_congr c.ids resized fun _ _ related => related.tag with
    ⟨none, none'⟩ | ⟨front, t, back, front', t', back', found, found', fronts, related, backs⟩
  · rw [none]
    have same : withoutCmdline c.ids tags' = tags' := by rw [withoutCmdline, none']
    refine achieves_pure.mpr ⟨⟨fun _ => ⟨[], ?_, ?_⟩, fun panicked => ?_⟩, ?_⟩
    · rw [mem, same, tagList, List.nil_append, List.append_assoc]
    · rw [same, List.length_nil, Nat.add_zero]
    · exact absurd (panicked.symm.trans calm) Bool.noConfusion
    · rfl
  · obtain ⟨split, isCmdline⟩ := lastCmdline_split found
    obtain ⟨split', _⟩ := lastCmdline_split found'
    have same : t' = t := related.other (isCmdline ▸ c.ids.mem_ne_cmdline.symm)
    subst same
    have removed : withoutCmdline c.ids tags' = front' ++ back' := by rw [withoutCmdline, found']
    have frontSize : (tagBytes front').length = (tagBytes front).length :=
      tagBytes_length_eq fronts fun _ _ related => related.length
    have backSize : (tagBytes back').length = (tagBytes back).length :=
      tagBytes_length_eq backs fun _ _ related => related.length
    have whole : (tagBytes tags).length = (tagBytes front).length + (t'.bytes.length + (tagBytes back).length) := by
      rw [split, tagBytes_append, List.length_append]
      exact congrArg _ (List.length_append)
    have place : before.length + (tagBytes front).length = (before ++ tagBytes front').length := by
      rw [List.length_append, frontSize]
    have none : v.tags = (before ++ tagBytes front').length + t'.bytes.length + (tagBytes back').length := by
      rw [stop, whole, ← place, backSize]
      omega
    rw [found]
    change Achieves (env x) (takeCmdline c v.tags (before.length + (tagBytes front).length)) _ w
    rw [place, none]
    have member : t' ∈ tags := by
      rw [split]
      simp
    refine (achieves_takeCmdline ?_ (nul t' member isCmdline) stops calm ?_).mono ?_
    · rw [mem, split', tagBytes_append]
      change before ++ (tagBytes front' ++ (t'.bytes ++ tagBytes back') ++ (atagNone ++ post)) = _
      simp only [List.append_assoc]
    · omega
    · rintro _ w' ⟨globals, returned, stopped⟩
      refine ⟨⟨fun calm => ?_, fun panicked => ?_⟩, globals⟩
      · obtain ⟨stale, length, mem'⟩ := returned calm
        refine ⟨stale, ?_, ?_⟩
        · rw [mem', removed, tagList, tagBytes_append]
          simp only [List.append_assoc]
        · rw [removed, tagList, tagBytes_append, List.length_append, List.length_append, frontSize, backSize, length,
            total', whole, length_atagNone]
          omega
      · obtain ⟨t'', filtered, mem'⟩ := stopped panicked
        refine ⟨front' ++ t'' :: back', ?_, ?_⟩
        · rw [split']
          refine List.rel_append (List.forall₂_same.mpr fun _ _ => passed_refl) (.cons ⟨filtered, ?_⟩
            (List.forall₂_same.mpr fun _ _ => passed_refl))
          exact fun other => absurd isCmdline other
        · rw [mem', tagList, tagBytes_append, tagBytes_cons]
          simp only [List.append_assoc]

def place (start : Nat) (tags : List Atag) (i : Nat) : Nat := start + (tagBytes (tags.take i)).length

/-- After a walk the reserved bank is in memory where its address says. -/
theorem Walked.bank {tags tags' : List Atag} {v₀ v : Vars} {w₀ : State} {total : Word} {s : Limiting} {k : Nat}
    (walked : Walked c (place before.length tags) total 0 s before post tags tags' v₀ v w₀ w)
    (none : s.reservedMemBankTag = none) (found :
      (limitTags (c.dram total) 0 (tags.map (Atag.view c.ids)) s).2.reservedMemBankTag = some k) :
    ∃ front t back, tags' = front ++ t :: back ∧ front.length = k ∧ t.tag = c.ids.mem ∧
      place before.length tags k = (before ++ tagBytes front).length ∧
      (limitTags (c.dram total) 0 (tags.map (Atag.view c.ids)) s).1 =
        front.map (Atag.view c.ids) ++ .mem (t.word 0) (t.word 4) :: back.map (Atag.view c.ids) := by
  rcases reserved_mem found with early | ⟨views, size, start, views', index, split⟩
  · rw [none] at early
    cases early
  have view := walked.view
  rw [split] at view
  obtain ⟨front, rest, here, fronts, rests⟩ := List.map_eq_append_iff.mp view
  obtain ⟨t, back, there, mem, backs⟩ := List.map_eq_cons_iff.mp rests
  obtain ⟨tag, rfl, rfl⟩ := view_eq_mem mem
  have length : front.length = k := by
    rw [← List.length_map, fronts, ← index, Nat.zero_add]
  have prefixes := List.forall₂_take k walked.resized
  rw [here, ← length, List.take_left] at prefixes
  refine ⟨front, t, back, by rw [here, there], length, tag, ?_, by rw [split, fronts, backs]⟩
  rw [place, List.length_append, tagBytes_length_eq prefixes fun _ _ related => related.length, length]

theorem Resized.trans {ids : TagIds} {t t' t'' : Atag} (first : Resized ids t t') (second : Resized ids t' t'') :
    Resized ids t t'' where
  tag := second.tag.trans first.tag
  length := second.length.trans first.length
  rest := second.rest.trans first.rest
  other other := (second.other (first.tag ▸ other)).trans (first.other other)

theorem resized_at {ids : TagIds} {tags front back : List Atag}
    (walk : List.Forall₂ (Resized ids) tags (front ++ t :: back)) (here : t.tag = ids.mem) (size : Word) :
    List.Forall₂ (Resized ids) tags (front ++ t.resize size :: back) := by
  have same : ∀ ts : List Atag, List.Forall₂ (Resized ids) ts ts :=
    fun ts => List.forall₂_same.mpr fun _ _ => resized_refl
  exact forall₂_trans walk (List.rel_append (same front) (.cons (resized_resize here) (same back)))
    fun _ _ _ => Resized.trans

/-- What becomes of the tags and of the variables after the loop, for any end of the abstract call. -/
def Outcome (c : Config) (x : Externals) (before post : List Byte) (tags : List Atag) (g : Globals)
    (w' : State) : Option Devs.Fixed → Prop
  | none => w'.globals.bug = true
  | some r => ∃ tags', Finished c x r before post tags tags' g w'

theorem achieves_handOver {tags tags' : List Atag} {v₀ v : Vars} {w₀ : State} {bootMode : Word} {useBlFb : Nat}
    {total : Word} (amount : reserved c x w.globals.tempCommandLine = total)
    (walked : Walked c (place before.length tags) total 0 (.start (c.dram total) bootMode useBlFb) before post
      tags tags' v₀ v w₀ w)
    (first : v₀.cmdlineTag = none) (long : ∀ t ∈ tags', t.tag = c.ids.mem → 8 ≤ t.payload.length)
    (nul : ∀ t ∈ tags, t.tag = c.ids.cmdline → t.payload.getLast? = some 0)
    (stops : ∃ b ∈ post, isSeparator b = false) (calm : w.globals.panicked = false)
    (small : (tagList tags).length < 2 ^ 32) :
    Achieves (env x) (handOver c v) (fun _ w' => Outcome c x before post tags w.globals w'
      (Devs.mtFixup (c.dram total) bootMode useBlFb (tags.map (Atag.view c.ids))))
      { w with globals := summed c v.availDram w.globals } := by
  have agrees := walked.agrees
  cases bank : v.reservedMemBankTag with
  | none =>
    have none : (limitTags (c.dram total) 0 (tags.map (Atag.view c.ids))
        (.start (c.dram total) bootMode useBlFb)).2.reservedMemBankTag = none := by
      have mapped := agrees.reserved
      rw [bank] at mapped
      exact Option.map_eq_none_iff.mp mapped.symm
    simp only [handOver, bank, achieves_update, Devs.mtFixup, none]
    trivial
  | some address =>
    have mapped := agrees.reserved
    rw [bank] at mapped
    obtain ⟨k, found, there⟩ := Option.map_eq_some_iff.mp mapped.symm
    obtain ⟨front, t, back, split, index, isMem, placed, limited⟩ := walked.bank rfl found
    subst there
    rw [placed] at bank
    simp only [handOver, bank, achieves_bind, Devs.mtFixup, found]
    have mem : w.mem = before ++ tagBytes front ++ (t.bytes ++ (tagBytes back ++ (atagNone ++ post))) := by
      rw [walked.mem, split, tagBytes_append, tagBytes_cons]
      simp only [List.append_assoc]
    have big : 8 ≤ t.payload.length := long t (by simp [split]) isMem
    refine (achieves_reserveBank (w := { w with globals := summed c v.availDram w.globals }) mem big).mono ?_
    rintro _ w₁ rfl
    change Achieves (env x) (removeCmdline c v) _ ⟨before ++ tagBytes front ++
        ((t.resize (t.word 0 - reserved c x w.globals.tempCommandLine)).bytes ++ (tagBytes back ++ (atagNone ++ post))),
      { summed c v.availDram w.globals with
        pmemStart := t.word 4 + (t.word 0 - reserved c x w.globals.tempCommandLine) }⟩
    rw [amount]
    have resized := resized_at (split ▸ walked.resized) isMem (t.word 0 - total)
    have view : (front ++ t.resize (t.word 0 - total) :: back).map (Atag.view c.ids) =
        (limitTags (c.dram total) 0 (tags.map (Atag.view c.ids)) (.start (c.dram total) bootMode useBlFb)).1.modify k
          (.reserve (c.dram total)) := by
      rw [limited, ← index, ← List.length_map, modify_at, List.map_append, List.map_cons, view_resize isMem big]
      rfl
    have last : (limitTags (c.dram total) 0 (tags.map (Atag.view c.ids))
        (.start (c.dram total) bootMode useBlFb)).1.getD k .other = .mem (t.word 0) (t.word 4) := by
      rw [limited, ← index, ← List.length_map, getD_length_append]
      rfl
    refine (achieves_removeCmdline resized ?_ walked.stop ?_ nul stops ?_ small).mono ?_
    · simp only [tagBytes_append, tagBytes_cons, List.append_assoc]
    · rw [walked.cmdlineTag, first, Option.or_none]
    · exact calm
    · rintro _ w' ⟨left, globals⟩
      refine ⟨_, {
        resized := resized
        view := view
        left := left
        globals := ?_
        blMemSz := agrees.blMemSz
        gBootMode := agrees.gBootMode
        useBlFb := ?_ }⟩
      · rw [globals, banked, ← agrees.avail, last]
        rfl
      · simp only [banked, summed, agrees.blMemSz, agrees.useBlFb]
        rfl

end

/-! The whole call. -/

/-- `temp_command_line` after the loop on `temp_tags`. -/
def firstLine (c : Config) (tags : List Atag) (tempCommandLine : List Byte) : List Byte :=
  if c.mtkFb = true then tempCommandLine ++ tags.flatMap (wanted c.ids) else tempCommandLine

/-- The kernel is started with a list of tags in memory, and something that is neither a space nor a
NUL is behind it. -/
structure Booted (c : Config) (before post : List Byte) (tags : List Atag) (w : State) : Prop where
  mem : w.mem = before ++ (tagList tags ++ post)
  sound : ∀ t ∈ tags, Sound c t
  stops : ∃ b ∈ post, isSeparator b = false
  small : (tagList tags).length < 2 ^ 32
  fresh : w.globals.blMemSz = 0
  calm : w.globals.panicked = false
  short : (firstLine c tags w.globals.tempCommandLine).length < c.commandLineSize

section
variable {x : Externals} {c : Config} {w : State} {t t' : Atag} {before after post : List Byte}
  {tags tags' : List Atag} {g : Globals}

theorem Passed.length {ids : TagIds} (passed : Passed ids t t') : t'.payload.length = t.payload.length :=
  passed.1.alike.length_eq.symm

theorem Passed.view {ids : TagIds} (passed : Passed ids t t') : t'.view ids = t.view ids := by
  by_cases isCmdline : t.tag = ids.cmdline
  · have other : t.tag ≠ ids.mem := isCmdline ▸ ids.mem_ne_cmdline.symm
    rw [Atag.view, Atag.view, passed.1.tag, if_neg other, if_neg other, if_pos isCmdline, if_pos isCmdline]
  · rw [passed.2 isCmdline]

theorem passed_views {ids : TagIds} (passed : List.Forall₂ (Passed ids) tags tags') :
    tags'.map (Atag.view ids) = tags.map (Atag.view ids) := by
  induction passed with
  | nil => rfl
  | cons first _ ih => rw [List.map_cons, List.map_cons, first.view, ih]

theorem Passed.sound (passed : Passed c.ids t t') (sound : Sound c t) : Sound c t' := by
  by_cases isCmdline : t.tag = c.ids.cmdline
  · have distinct := c.ids.distinct
    simp only [List.nodup_cons, List.mem_cons, not_or] at distinct
    have tag := passed.1.tag
    have length := passed.length
    exact {
      mem := fun here => length ▸ sound.mem (tag ▸ here)
      cmdline := fun here => passed.1.nul (sound.cmdline (tag ▸ here))
      boot := fun here => length ▸ sound.boot (tag ▸ here)
      videolfb := fun here => length ▸ sound.videolfb (tag ▸ here)
      devinfoData := fun here => absurd (isCmdline.symm.trans (tag.symm.trans here)) distinct.2.2.1.2.2.1
      metaCom := fun here => length ▸ sound.metaCom (tag ▸ here) }
  · rw [passed.2 isCmdline]
    exact sound

theorem notes_congr {a : Nat} (passed : List.Forall₂ (Passed c.ids) tags tags') :
    notes c a tags' g = notes c a tags g := by
  induction passed generalizing a g with
  | nil => rfl
  | @cons t t' tags tags' first rest ih =>
    have noted : note c a t' g = note c a t g := by
      by_cases isCmdline : t.tag = c.ids.cmdline
      · have other : t.tag ≠ c.ids.mem := isCmdline ▸ c.ids.mem_ne_cmdline.symm
        rw [note, note, first.1.tag, if_neg other, if_neg other, if_pos isCmdline, if_pos isCmdline]
      · rw [first.2 isCmdline]
    rw [notes, notes, first.1.length, noted, ih]

theorem achieves_firstPass (booted : Booted c before post tags w) :
    Achieves (env x) (if c.mtkFb = true then filterTags c before.length else pure true)
      (fun returned w' => returned = true ∧ ∃ tags₁,
      List.Forall₂ (Passed c.ids) tags tags₁ ∧ (c.mtkFb = false → tags₁ = tags) ∧
      w'.mem = before ++ (tagBytes tags₁ ++ (atagNone ++ post)) ∧
      w'.globals = { w.globals with tempCommandLine := firstLine c tags w.globals.tempCommandLine }) w := by
  have mem : w.mem = before ++ (tagBytes tags ++ (atagNone ++ post)) := by
    rw [booted.mem, tagList, List.append_assoc]
  have short := booted.short
  rw [achieves_ite]
  constructor
  · intro fb
    rw [firstLine, if_pos fb] at short ⊢
    refine (achieves_filterTags mem (fun t member => (booted.sound t member).cmdline) booted.stops booted.calm
      short).mono ?_
    rintro returned w' ⟨ended, tags₁, passed, mem', globals⟩
    exact ⟨ended, tags₁, passed, fun plain => absurd (fb.symm.trans plain) (by decide), mem', globals⟩
  · intro plain
    refine achieves_pure.mpr ⟨rfl, tags, List.forall₂_same.mpr fun _ _ => passed_refl, fun _ => rfl, mem, ?_⟩
    rw [firstLine, if_neg plain]

def noted (c : Config) (a : Nat) (tags : List Atag) (g : Globals) : Globals :=
  notes c a tags { g with tempCommandLine := firstLine c tags g.tempCommandLine, dfo := g.dfo ++ [none] }

theorem note_keeps {a : Nat} : (note c a t g).tempCommandLine = g.tempCommandLine ∧
    (note c a t g).panicked = g.panicked ∧ (note c a t g).cmdline = g.cmdline ∧
    (note c a t g).gBootReason = g.gBootReason ∧ (note c a t g).uartPorts = g.uartPorts ∧
    (note c a t g).bug = g.bug := by
  unfold note
  repeat'
    first
    | split
    | exact ⟨rfl, rfl, rfl, rfl, rfl, rfl⟩

theorem notes_keeps (c : Config) (a : Nat) (tags : List Atag) (g : Globals) :
    (notes c a tags g).tempCommandLine = g.tempCommandLine ∧
    (notes c a tags g).panicked = g.panicked ∧ (notes c a tags g).cmdline = g.cmdline ∧
    (notes c a tags g).gBootReason = g.gBootReason ∧ (notes c a tags g).uartPorts = g.uartPorts ∧
    (notes c a tags g).bug = g.bug := by
  induction tags generalizing a g with
  | nil => exact ⟨rfl, rfl, rfl, rfl, rfl, rfl⟩
  | cons t tags ih =>
    have ⟨line, panicked, cmdline, reason, ports, bug⟩ := note_keeps (c := c) (t := t) (g := g) (a := a)
    rw [notes, ← line, ← panicked, ← cmdline, ← reason, ← ports, ← bug]
    exact ih _ _

/-- The whole call, by the abstract one. -/
theorem achieves_mtFixup (booted : Booted c before post tags w) :
    Achieves (env x) (mtFixup c before.length) (fun _ w' => ∃ tags₁, List.Forall₂ (Passed c.ids) tags tags₁ ∧
      (c.mtkFb = false → tags₁ = tags) ∧
      Outcome c x before post tags₁ (noted c before.length tags w.globals) w'
        (Devs.mtFixup (c.dram (reserved c x (firstLine c tags w.globals.tempCommandLine))) w.globals.gBootMode
          w.globals.useBlFb (tags.map (Atag.view c.ids)))) w := by
  rw [mtFixup, achieves_bind]
  refine (achieves_firstPass booted).mono ?_
  rintro _ w₁ ⟨rfl, tags₁, passed, plain, mem, globals⟩
  have bytes : (tagBytes tags₁).length = (tagBytes tags).length :=
    tagBytes_length_eq passed fun _ _ passed => passed.length
  have sound : ∀ t ∈ tags₁, Sound c t := by
    intro t' member
    obtain ⟨t, member', first⟩ := forall₂_mem passed member
    exact first.sound (booted.sound t member')
  generalize amount : reserved c x (firstLine c tags w.globals.tempCommandLine) = total
  rw [Prog.when, if_pos rfl, parseCcciDfoSetting, achieves_bind, achieves_update, achieves_bind]
  let g₁ : Globals := { w₁.globals with dfo := w₁.globals.dfo ++ [none] }
  have start : Agrees (place before.length tags₁) (.start (c.dram total) w.globals.gBootMode w.globals.useBlFb)
      (.start c before.length) g₁ := {
    limit := rfl
    avail := rfl
    reserved := rfl
    blMemSz := by
      change w₁.globals.blMemSz = 0
      rw [globals]
      exact booted.fresh
    gBootMode := by
      change w₁.globals.gBootMode = w.globals.gBootMode
      rw [globals]
    useBlFb := by
      change w₁.globals.useBlFb = w.globals.useBlFb
      rw [globals] }
  have places : ∀ j, place before.length tags₁ (0 + j) = before.length + (tagBytes (tags₁.take j)).length := by
    intro j
    rw [Nat.zero_add, place]
  refine (achieves_fixupTags (w := ⟨w₁.mem, g₁⟩) total mem rfl sound start places).mono ?_
  rintro v w₂ ⟨tags₂, walked⟩
  have after : w₂.globals = noted c before.length tags w.globals := by
    rw [walked.globals, notes_congr passed, noted]
    change notes c before.length tags { w₁.globals with dfo := w₁.globals.dfo ++ [none] } = _
    rw [globals]
  have kept := notes_keeps c before.length tags
    { w.globals with tempCommandLine := firstLine c tags w.globals.tempCommandLine, dfo := w.globals.dfo ++ [none] }
  have line : reserved c x w₂.globals.tempCommandLine = total := by
    rw [after, noted, kept.1, ← amount]
  have calm : w₂.globals.panicked = false := by
    rw [after, noted, kept.2.1]
    exact booted.calm
  have long : ∀ t ∈ tags₂, t.tag = c.ids.mem → 8 ≤ t.payload.length := by
    intro t' member isMem
    obtain ⟨t, member', resized⟩ := forall₂_mem walked.resized member
    exact resized.length ▸ (sound t member').mem (resized.tag ▸ isMem)
  have small : (tagList tags₁).length < 2 ^ 32 := by
    have small := booted.small
    rw [tagList, List.length_append] at small ⊢
    rwa [bytes]
  rw [achieves_bind]
  refine achieves_sumUp.mono ?_
  rintro _ w₃ rfl
  refine (achieves_handOver line walked rfl long (fun t member => (sound t member).cmdline) booted.stops calm
    small).mono ?_
  intro _ w' outcome
  rw [after, passed_views passed] at outcome
  exact ⟨tags₁, passed, plain, outcome⟩

/-- Before and after the banks have been resized, command lines may have been filtered. -/
theorem rewritten_of_passed {ids : TagIds} {t'' : Atag} (passed : Passed ids t t') (resized : Resized ids t' t'') :
    Rewritten ids t t'' where
  tag := resized.tag.trans passed.1.tag
  length := resized.length.trans passed.length
  mem isMem := by
    rw [resized.rest, passed.2 (isMem ▸ ids.mem_ne_cmdline)]
  cmdline isCmdline := by
    rw [resized.other (passed.1.tag ▸ isCmdline ▸ ids.mem_ne_cmdline.symm)]
    exact passed.1.alike
  other noMem noCmdline := (resized.other (passed.1.tag ▸ noMem)).trans (passed.2 noCmdline)

theorem Rewritten.passed {ids : TagIds} {t'' : Atag} (rewritten : Rewritten ids t t') (passed : Passed ids t' t'') :
    Rewritten ids t t'' where
  tag := passed.1.tag.trans rewritten.tag
  length := passed.length.trans rewritten.length
  mem isMem := by
    rw [passed.2 (rewritten.tag ▸ isMem ▸ ids.mem_ne_cmdline), rewritten.mem isMem]
  cmdline isCmdline := alike_trans (rewritten.cmdline isCmdline) passed.1.alike
  other noMem noCmdline := (passed.2 (rewritten.tag ▸ noCmdline)).trans (rewritten.other noMem noCmdline)

theorem tagList_length_eq {ids : TagIds} (rewritten : List.Forall₂ (Rewritten ids) tags tags') :
    (tagList tags').length = (tagList tags).length := by
  rw [tagList, tagList, List.length_append, List.length_append,
    tagBytes_length_eq rewritten fun _ _ related => related.length]

/-- The tags that remain: all of them where the kernel has stopped. -/
def leftTags (ids : TagIds) (panicked : Bool) : List Atag → List Atag :=
  if panicked = true then id else withoutCmdline ids

/-- What is handed over: the tags in memory with the banks of the abstract call, of which `left` remain,
and the variables that the abstract call gives. -/
structure HandedOver (c : Config) (before post : List Byte) (tags : List Atag) (g : Globals) (r : Devs.Fixed)
    (left : List Atag → List Atag) (w' : State) : Prop where
  mem : ∃ fixed stale, List.Forall₂ (Rewritten c.ids) tags fixed ∧ fixed.map (Atag.view c.ids) = r.tags ∧
    w'.mem = before ++ (tagList (left fixed) ++ (stale ++ post)) ∧
    (tagList (left fixed)).length + stale.length = (tagList tags).length
  kernelMemSz : w'.globals.kernelMemSz = r.kernelMemSz
  blMemSz : w'.globals.blMemSz = r.blMemSz
  pmemStart : w'.globals.pmemStart = r.pmemStart
  gBootMode : w'.globals.gBootMode = r.gBootMode
  useBlFb : w'.globals.useBlFb = r.useBlFb
  bug : w'.globals.bug = g.bug

/-- What may have become of the tags before they are taken, and which of them remain. -/
theorem Finished.left_tags {r : Devs.Fixed} {tags₁ : List Atag} {w' : State}
    (passed : List.Forall₂ (Passed c.ids) tags tags₁) (finished : Finished c x r before post tags₁ tags' g w') :
    ∃ fixed stale, List.Forall₂ (Rewritten c.ids) tags fixed ∧ fixed.map (Atag.view c.ids) = r.tags ∧
      w'.mem = before ++ (tagList (leftTags c.ids w'.globals.panicked fixed) ++ (stale ++ post)) ∧
      (tagList (leftTags c.ids w'.globals.panicked fixed)).length + stale.length = (tagList tags).length := by
  have rewritten : List.Forall₂ (Rewritten c.ids) tags tags' :=
    forall₂_trans passed finished.resized fun _ _ _ => rewritten_of_passed
  cases panicked : w'.globals.panicked with
  | false =>
    obtain ⟨stale, mem, length⟩ := finished.left.returned panicked
    exact ⟨tags', stale, rewritten, finished.view, mem, length.trans (tagList_length_eq rewritten)⟩
  | true =>
    obtain ⟨filtered, again, mem⟩ := finished.left.stopped panicked
    have twice : List.Forall₂ (Rewritten c.ids) tags filtered :=
      forall₂_trans rewritten again fun _ _ _ => Rewritten.passed
    exact ⟨filtered, [], twice, (passed_views again).trans finished.view, mem, tagList_length_eq twice⟩

theorem Finished.handedOver {r : Devs.Fixed} {tags₁ : List Atag} {w' : State}
    (passed : List.Forall₂ (Passed c.ids) tags tags₁)
    (finished : Finished c x r before post tags₁ tags' (noted c before.length tags g) w') :
    HandedOver c before post tags g r (leftTags c.ids w'.globals.panicked) w' := by
  have kept := notes_keeps c before.length tags
    { g with tempCommandLine := firstLine c tags g.tempCommandLine, dfo := g.dfo ++ [none] }
  have globals := finished.globals
  -- the command line that is taken changes none of these
  have same : w'.globals.kernelMemSz = r.kernelMemSz ∧
      w'.globals.blMemSz = (noted c before.length tags g).blMemSz ∧ w'.globals.pmemStart = r.pmemStart ∧
      w'.globals.gBootMode = (noted c before.length tags g).gBootMode ∧
      w'.globals.useBlFb = (banked c r (noted c before.length tags g)).useBlFb ∧
      w'.globals.bug = (noted c before.length tags g).bug := by
    rw [globals]
    cases lastCmdline c.ids tags₁ with
    | some l => exact ⟨rfl, rfl, rfl, rfl, rfl, rfl⟩
    | none => exact ⟨rfl, rfl, rfl, rfl, rfl, rfl⟩
  obtain ⟨kernelMemSz, blMemSz, pmemStart, gBootMode, useBlFb, bug⟩ := same
  exact {
    mem := finished.left_tags passed
    kernelMemSz := kernelMemSz
    blMemSz := blMemSz.trans finished.blMemSz
    pmemStart := pmemStart
    gBootMode := gBootMode.trans finished.gBootMode
    useBlFb := useBlFb.trans finished.useBlFb
    bug := bug.trans kept.2.2.2.2.2 }

/-- `mt_fixup` returns with a list of tags in memory again, from which the last command line is gone
and in which the banks are those of the abstract call, and with the variables of that; without a
bank it comes to `BUG()`. Where it comes to `panic()` instead, which is in the filter of the last
command line, that tag is still there. -/
theorem mtFixup_inPlace (x : Externals) (booted : Booted c before post tags w) :
    Achieves (env x) (mtFixup c before.length) (fun _ w' =>
      match Devs.mtFixup (c.dram (reserved c x (firstLine c tags w.globals.tempCommandLine))) w.globals.gBootMode
        w.globals.useBlFb (tags.map (Atag.view c.ids)) with
      | none => w'.globals.bug = true
      | some r =>
        (w'.globals.panicked = false → HandedOver c before post tags w.globals r (withoutCmdline c.ids) w') ∧
        (w'.globals.panicked = true → HandedOver c before post tags w.globals r id w')) w := by
  refine (achieves_mtFixup booted).mono ?_
  rintro _ w' ⟨tags₁, passed, -, outcome⟩
  generalize Devs.mtFixup _ _ _ _ = call at outcome ⊢
  cases call with
  | none => exact outcome
  | some r =>
    obtain ⟨tags', finished⟩ := outcome
    have handed := finished.handedOver passed
    constructor
    · intro returned
      rwa [returned] at handed
    · intro stopped
      rwa [stopped] at handed

end

/-- 512 MiB, without a frame buffer. -/
def plainConfig : Config where
  ids := {
    mem := 0x54410002
    cmdline := 0x54410009
    boot := 0x41000802
    videolfb := 0x54410008
    devinfoData := 0x41000804
    metaCom := 0x41000803
    dfoData := 0x41000805
    distinct := by decide }
  maxDramSizeSupport := 0x20000000
  physOffset := 0x80100000
  dramPhysAddrStart := 0x80000000
  commandLineSize := 1024
  mtkFb := false
  fiqDebugger := false
  metaBoot := 1
  advmetaBoot := 5
  devinfoDataSizeAt := 200

/-- 511 MiB, and `a root=x  b`. -/
def bankAndLine : List Atag :=
  [{ tag := 0x54410002
     payload := wordBytes 0x1ff00000 ++ wordBytes 0x80100000
     whole := by decide
     short := by decide },
   { tag := 0x54410009
     payload := rootPayload
     whole := by decide
     short := by decide }]

/-- The kernel keeps its command line, and the frame buffer needs no memory. -/
def plainExternals : Externals := ⟨fun _ cmdline => cmdline, fun _ => 0⟩

def bootedState : State where
  mem := tagList bankAndLine ++ [0x41]
  globals := {
    blMemSz := 0
    kernelMemSz := 0
    pmemStart := 0x12345678
    gBootMode := 0
    blFbBase := 0
    blFbSize := 0
    useBlFb := 0
    gDevinfoData := fun _ => 0
    gDevinfoDataSize := 0
    gMetaComType := 0
    gMetaComId := 0
    gBootReason := 0
    tempCommandLine := []
    cmdline := [0x71]
    dfo := []
    uartPorts := []
    bug := false
    panicked := false }

theorem bankAndLine_booted : Booted plainConfig [] [0x41] bankAndLine bootedState where
  mem := rfl
  sound t member := by
    rcases List.mem_cons.mp member with rfl | later
    · exact {
        mem := fun _ => by decide
        cmdline := fun here => absurd here (by decide)
        boot := fun here => absurd here (by decide)
        videolfb := fun here => absurd here (by decide)
        devinfoData := fun here => absurd here (by decide)
        metaCom := fun here => absurd here (by decide) }
    · obtain rfl := List.mem_singleton.mp later
      exact {
        mem := fun here => absurd here (by decide)
        cmdline := fun _ => by decide
        boot := fun here => absurd here (by decide)
        videolfb := fun here => absurd here (by decide)
        devinfoData := fun here => absurd here (by decide)
        metaCom := fun here => absurd here (by decide) }
  stops := ⟨0x41, List.mem_singleton_self _, by decide⟩
  small := by decide
  fresh := rfl
  calm := rfl
  short := by decide

theorem bankAndLine_inPlace : Booted plainConfig [] [0x41] bankAndLine bootedState ∧
    Achieves (env plainExternals) (mtFixup plainConfig 0) (fun _ w' =>
      match Devs.mtFixup (plainConfig.dram (reserved plainConfig plainExternals (firstLine plainConfig bankAndLine [])))
        0 0 (bankAndLine.map (Atag.view plainConfig.ids)) with
      | none => w'.globals.bug = true
      | some r =>
        (w'.globals.panicked = false →
          HandedOver plainConfig [] [0x41] bankAndLine bootedState.globals r (withoutCmdline plainConfig.ids) w') ∧
        (w'.globals.panicked = true → HandedOver plainConfig [] [0x41] bankAndLine bootedState.globals r id w'))
      bootedState :=
  ⟨bankAndLine_booted, mtFixup_inPlace plainExternals bankAndLine_booted⟩

end Boot

end Yika.Devs
