import Yika.Devs.Handover

/-! The command lines after `mt_fixup`: the one that the size of the frame buffer is told by, and the
one that the kernel is started with. -/

namespace Yika.Devs.Boot
open Program

section
variable {x : Externals} {c : Config} {w : State} {t t' : Atag} {before after post : List Byte}
  {tags tags' : List Atag} {g : Globals}

def dfoTags (ids : TagIds) : Nat → List Atag → List (Option Nat)
  | _, [] => []
  | a, t :: ts => (if t.tag = ids.dfoData then [some (a + 8)] else []) ++ dfoTags ids (a + t.bytes.length) ts

theorem note_dfo {a : Nat} : (note c a t g).dfo = g.dfo ++ if t.tag = c.ids.dfoData then [some (a + 8)] else [] := by
  by_cases isDfo : t.tag = c.ids.dfoData
  · have distinct := c.ids.distinct
    simp only [List.nodup_cons, List.mem_cons, not_or] at distinct
    obtain ⟨-, mem, cmdline, boot, videolfb, devinfo, metaCom, -⟩ := distinct
    rw [if_pos isDfo, note, isDfo, if_neg (Ne.symm mem.2.2.2.2.2.1), if_neg (Ne.symm cmdline.2.2.2.2.1),
      if_neg (Ne.symm boot.2.2.2.1), if_neg (Ne.symm videolfb.2.2.1), if_neg (Ne.symm devinfo.2.1),
      if_neg (Ne.symm metaCom.1), if_pos rfl]
  · simp only [note, if_neg isDfo, List.append_nil]
    repeat'
      first
      | split
      | rfl

theorem notes_dfo {a : Nat} : (notes c a tags g).dfo = g.dfo ++ dfoTags c.ids a tags := by
  induction tags generalizing a g with
  | nil => exact (List.append_nil _).symm
  | cons t tags ih => rw [notes, ih, note_dfo, dfoTags, List.append_assoc]

/-- What is known of the texts and of the settings after the call. `text` is what the loop on
`temp_tags` has left of the last command line; with it the kernel adjusts its own one. -/
structure Lines (c : Config) (x : Externals) (start : Nat) (tags : List Atag) (g g' : Globals) : Prop where
  temp : g'.tempCommandLine = firstLine c tags g.tempCommandLine
  dfo : g'.dfo = g.dfo ++ none :: dfoTags c.ids start tags ++
    if g'.gBootMode = c.metaBoot ∨ g'.gBootMode = c.advmetaBoot then [none] else []
  kept : lastCmdline c.ids tags = none → g'.cmdline = g.cmdline ∧ g'.gBootReason = g.gBootReason ∧
    g'.uartPorts = g.uartPorts ∧ g'.panicked = false
  appended : ∀ l, lastCmdline c.ids tags = some l → ∃ text,
    List.Forall₂ (Alike isSeparator) l.2.1.payload text ∧ (c.mtkFb = false → text = l.2.1.payload) ∧
    g'.cmdline = x.adjustKernelCmdLineSettingForConsole (stringAt text 0) g.cmdline ++
      wantedArguments l.2.1.payload ∧
    g'.gBootReason = (if g'.panicked = true then g.gBootReason
      else (reasonOf g'.cmdline).getD g.gBootReason) ∧
    g'.uartPorts = g.uartPorts ++ (if c.fiqDebugger = true then
      consolePorts (x.adjustKernelCmdLineSettingForConsole (stringAt text 0) g.cmdline) else []) ∧
    (g'.panicked = true ↔ c.commandLineSize ≤ g'.cmdline.length)

theorem wantedArguments_congr {payload text : List Byte} (alike : List.Forall₂ (Alike isSeparator) payload text) :
    wantedArguments text = wantedArguments payload := by
  rw [wantedArguments, wantedArguments, tokens_congr alike]

theorem summed_dfo {availDram : Word} : (summed c availDram g).dfo = g.dfo ++
    if g.gBootMode = c.metaBoot ∨ g.gBootMode = c.advmetaBoot then [none] else [] := by
  rw [summed]
  dsimp only
  split
  next => rfl
  next => exact (List.append_nil _).symm

theorem Finished.lines {r : Devs.Fixed} {tags₁ : List Atag} {w' : State} (calm : g.panicked = false)
    (passed : List.Forall₂ (Passed c.ids) tags tags₁) (plain : c.mtkFb = false → tags₁ = tags)
    (finished : Finished c x r before post tags₁ tags' (noted c before.length tags g) w') :
    Lines c x before.length tags g w'.globals := by
  have kept := notes_keeps c before.length tags
    { g with tempCommandLine := firstLine c tags g.tempCommandLine, dfo := g.dfo ++ [none] }
  have dfo : (noted c before.length tags g).dfo = g.dfo ++ none :: dfoTags c.ids before.length tags := by
    rw [noted, notes_dfo, List.append_assoc]
    rfl
  obtain ⟨temp, panicked, cmdline, reason, ports, -⟩ := kept
  have globals := finished.globals
  rcases lastCmdline_congr c.ids passed fun _ _ passed => passed.1.tag with
    ⟨none, none'⟩ | ⟨front, t, back, front', t', back', found, found', -, related, -⟩
  · rw [none'] at globals
    rw [globals]
    exact {
      temp := temp
      dfo := by
        change (summed c r.kernelMemSz (noted c before.length tags g)).dfo = _
        rw [summed_dfo, dfo]
        rfl
      kept := fun _ => ⟨cmdline, reason, ports, panicked.trans calm⟩
      appended := fun l found => absurd (none.symm.trans found) (Option.some_ne_none l).symm }
  · rw [found'] at globals
    rw [globals]
    exact {
      temp := temp
      dfo := by
        change (summed c r.kernelMemSz (noted c before.length tags g)).dfo = _
        rw [summed_dfo, dfo]
        rfl
      kept := fun none => absurd (none.symm.trans found) (Option.some_ne_none _).symm
      appended := by
        intro l found''
        obtain rfl := Option.some.inj (found.symm.trans found'')
        have line : (banked c r (noted c before.length tags g)).cmdline = g.cmdline := cmdline
        have reason' : (banked c r (noted c before.length tags g)).gBootReason = g.gBootReason := reason
        have ports' : (banked c r (noted c before.length tags g)).uartPorts = g.uartPorts := ports
        refine ⟨t'.payload, related.1.alike, ?_, ?_, ?_, ?_, ?_⟩
        · intro off
          rw [plain off] at found'
          exact congrArg (fun l => l.2.1.payload) (Option.some.inj (found'.symm.trans found))
        · change x.adjustKernelCmdLineSettingForConsole (stringAt t'.payload 0)
            (banked c r (noted c before.length tags g)).cmdline ++ wantedArguments t'.payload = _
          rw [line, wantedArguments_congr related.1.alike]
        · rw [← reason']
          simp only [taken, decide_eq_true_eq]
        · dsimp only [taken]
          rw [line, ports']
          split
          next => rfl
          next => exact (List.append_nil _).symm
        · exact decide_eq_true_iff }

/-- After a call that has found a bank the command line of the kernel ends with the wanted arguments
of the last command line of the boot loader and of no other, whether or not the others have been
filtered for the frame buffer; in META mode the default settings are the last to be parsed. -/
theorem mtFixup_lines (x : Externals) (booted : Booted c before post tags w) :
    Achieves (env x) (mtFixup c before.length) (fun _ w' =>
      ((Devs.mtFixup (c.dram (reserved c x (firstLine c tags w.globals.tempCommandLine))) w.globals.gBootMode
        w.globals.useBlFb (tags.map (Atag.view c.ids))).isSome = true →
      Lines c x before.length tags w.globals w'.globals)) w := by
  refine (achieves_mtFixup booted).mono ?_
  rintro _ w' ⟨tags₁, passed, plain, outcome⟩ some
  obtain ⟨r, call⟩ := Option.isSome_iff_exists.mp some
  rw [call] at outcome
  obtain ⟨tags', finished⟩ := outcome
  exact finished.lines booted.calm passed plain

end

theorem bankAndLine_lines : Booted plainConfig [] [0x41] bankAndLine bootedState ∧
    Achieves (env plainExternals) (mtFixup plainConfig 0) (fun _ w' =>
      ((Devs.mtFixup (plainConfig.dram (reserved plainConfig plainExternals (firstLine plainConfig bankAndLine [])))
        0 0 (bankAndLine.map (Atag.view plainConfig.ids))).isSome = true →
      Lines plainConfig plainExternals 0 bankAndLine bootedState.globals w'.globals)) bootedState :=
  ⟨bankAndLine_booted, mtFixup_lines plainExternals bankAndLine_booted⟩

end Yika.Devs.Boot
