import Yika.Devs.Atags
import Yika.Program.Lower

/-! `mt_fixup` of `mt_devs.c` on the memory that holds the tags. -/

namespace Yika.Devs.Boot
open Program

/-- What the file is built with. `devinfoDataSizeAt` is the offset of `devinfo_data_size` in the
payload of its tag. -/
structure Config where
  ids : TagIds
  maxDramSizeSupport : Word
  physOffset : Word
  dramPhysAddrStart : Word
  commandLineSize : Nat
  mtkFb : Bool
  fiqDebugger : Bool
  metaBoot : Word
  advmetaBoot : Word
  devinfoDataSizeAt : Nat

/-- The functions of other files whose results matter. -/
structure Externals where
  /-- from `u_boot_cmd_line` and `kernel_cmd_line`, what becomes of the latter -/
  adjustKernelCmdLineSettingForConsole : List Byte → List Byte → List Byte
  dispGetVRamSizeBoot : List Byte → Word

/-- `dfo` are the settings that `parse_ccci_dfo_setting` has been called with, `none` being
`dfo_boot_default` and the others addresses, and `uartPorts` the ports of `fiq_uart_fixup`. -/
structure Globals where
  blMemSz : Word
  kernelMemSz : Word
  pmemStart : Word
  gBootMode : Word
  blFbBase : Word
  blFbSize : Word
  useBlFb : Nat
  gDevinfoData : Nat → Word
  gDevinfoDataSize : Word
  gMetaComType : Word
  gMetaComId : Word
  gBootReason : Int
  tempCommandLine : List Byte
  cmdline : List Byte
  dfo : List (Option Nat)
  uartPorts : List Int
  bug : Bool
  panicked : Bool

/-- The command line that `cmdline_filter` appends to: `temp_command_line` or `*cmdline`. -/
inductive Line where
  | temp
  | kernel

/-- `filter` is an operation of `cmdline_filter` on the tag at an address. -/
inductive Op where
  | load (a : Nat)
  | store (a : Nat) (value : Word)
  | filter (line : Line) (tag : Nat) (o : FilterOp)
  | memcpy (dst src count : Nat)
  | globals
  | update (f : Globals → Globals)
  | adjust (cmdlineTag : Nat)
  | dispGetVRamSizeBoot

abbrev Op.Answer : Op → Type
  | .load _ => Word
  | .filter _ _ o => o.Answer
  | .globals => Globals
  | .dispGetVRamSizeBoot => Word
  | _ => Unit

abbrev signature : Signature := ⟨Op, Op.Answer⟩

abbrev Fixup := Prog signature

namespace Fixup

def load (a : Nat) : Fixup Word := @Prog.perform signature (.load a)
def store (a : Nat) (value : Word) : Fixup Unit := @Prog.perform signature (.store a value)
def memcpy (dst src count : Nat) : Fixup Unit := @Prog.perform signature (.memcpy dst src count)
def globals : Fixup Globals := @Prog.perform signature .globals
def update (f : Globals → Globals) : Fixup Unit := @Prog.perform signature (.update f)
def adjust (cmdlineTag : Nat) : Fixup Unit := @Prog.perform signature (.adjust cmdlineTag)
def dispGetVRamSizeBoot : Fixup Word := @Prog.perform signature .dispGetVRamSizeBoot

end Fixup

/-! The program. -/

def tagNext (tag : Nat) : Fixup Nat := do
  let size ← Fixup.load tag
  pure (tag + 4 * size.toNat)

/-- `cmdline_filter` of the tag at an address; its payload begins behind the header. The value is
whether it returns: `panic()`, which is the last thing in it, does not. -/
def filterTag (c : Config) (line : Line) (tag : Nat) : Fixup Bool := do
  let next ← tagNext tag
  (cmdlineFilter c.commandLineSize (next - (tag + 8))).lower fun o => @Prog.perform signature (.filter line tag o)
  let g ← Fixup.globals
  pure !g.panicked

/-- The loop on `temp_tags`, and whether it has come to its end. -/
def filterTags (c : Config) : Nat → Fixup Bool :=
  Prog.doWhile fun tempTags => do
    let size ← Fixup.load tempTags
    if size = 0 then pure (.inr true) else do
      let tag ← Fixup.load (tempTags + 4)
      let returned ← (if tag = c.ids.cmdline then filterTag c .temp tempTags else pure true)
      if returned = true then do
        let next ← tagNext tempTags
        pure (.inl next)
      else pure (.inr false)

structure Vars where
  tags : Nat
  maxLimitSize : Word
  availDram : Word
  reservedMemBankTag : Option Nat
  cmdlineTag : Option Nat

def Vars.start (c : Config) (tags : Nat) : Vars where
  tags := tags
  maxLimitSize := c.maxDramSizeSupport - reservedMemModem
  availDram := 0
  reservedMemBankTag := none
  cmdlineTag := none

/-- The `ATAG_MEM` case of the loop. -/
def fixupMem (c : Config) (v : Vars) : Fixup Vars := do
  let size ← Fixup.load (v.tags + 8)
  Fixup.update fun g => { g with blMemSz := g.blMemSz + size }
  if 0 < v.maxLimitSize then
    if size ≤ v.maxLimitSize then
      pure { v with
        maxLimitSize := v.maxLimitSize - size
        availDram := v.availDram + size
        reservedMemBankTag := some v.tags }
    else do
      let maxLimitSizeAdjusted := v.maxLimitSize - (c.physOffset - c.dramPhysAddrStart)
      Fixup.store (v.tags + 8) maxLimitSizeAdjusted
      pure { v with
        maxLimitSize := 0
        availDram := v.availDram + maxLimitSizeAdjusted
        reservedMemBankTag := some v.tags }
  else do
    Fixup.store (v.tags + 8) 0
    pure v

def parseTagVideofbFixup (tags : Nat) : Fixup Unit := do
  let base ← Fixup.load (tags + (8 + 8))
  Fixup.update fun g => { g with blFbBase := base }
  let size ← Fixup.load (tags + (8 + 12))
  Fixup.update fun g => { g with blFbSize := size }
  Fixup.update fun g => { g with useBlFb := g.useBlFb + 1 }

/-- `size` is an `int`. -/
def parseTagDevinfoDataFixup (c : Config) (tags : Nat) : Fixup Unit := do
  let size ← Fixup.load (tags + (8 + c.devinfoDataSizeAt))
  Prog.forRange (fun i => do
    let word ← Fixup.load (tags + (8 + 4 * i))
    Fixup.update fun g => { g with gDevinfoData := Function.update g.gDevinfoData i word }) 0 size.toInt.toNat
  Fixup.update fun g => { g with gDevinfoDataSize := size }

def parseCcciDfoSetting (dfo : Option Nat) : Fixup Unit :=
  Fixup.update fun g => { g with dfo := g.dfo ++ [dfo] }

def fixupTag (c : Config) (v : Vars) : Fixup Vars := do
  let tag ← Fixup.load (v.tags + 4)
  if tag = c.ids.mem then fixupMem c v
  else if tag = c.ids.cmdline then pure { v with cmdlineTag := some v.tags }
  else if tag = c.ids.boot then do
    let bootmode ← Fixup.load (v.tags + (8 + 0))
    Fixup.update fun g => { g with gBootMode := bootmode }
    pure v
  else if tag = c.ids.videolfb then do
    parseTagVideofbFixup v.tags
    pure v
  else if tag = c.ids.devinfoData then do
    parseTagDevinfoDataFixup c v.tags
    pure v
  else if tag = c.ids.metaCom then do
    let type ← Fixup.load (v.tags + (8 + 0))
    Fixup.update fun g => { g with gMetaComType := type }
    let id ← Fixup.load (v.tags + (8 + 4))
    Fixup.update fun g => { g with gMetaComId := id }
    pure v
  else if tag = c.ids.dfoData then do
    parseCcciDfoSetting (some (v.tags + 8))
    pure v
  else pure v

def fixupTags (c : Config) : Vars → Fixup Vars :=
  Prog.doWhile fun v => do
    let size ← Fixup.load v.tags
    if size = 0 then pure (.inr v) else do
      let v ← fixupTag c v
      let next ← tagNext v.tags
      pure (.inl { v with tags := next })

/-- `TOTAL_RESERVED_MEM_SIZE` -/
def totalReservedMemSize (c : Config) : Fixup Word :=
  if c.mtkFb = true then Fixup.dispGetVRamSizeBoot else pure 0x400000

/-- What is done with `reserved_mem_bank_tag`. -/
def reserveBank (c : Config) (bank : Nat) : Fixup Unit := do
  let total ← totalReservedMemSize c
  let size ← Fixup.load (bank + 8)
  Fixup.store (bank + 8) (size - total)
  let start ← Fixup.load (bank + (8 + 4))
  let size ← Fixup.load (bank + (8 + 0))
  Fixup.update fun g => { g with pmemStart := start + size }

def strstr (needle : List Byte) : List Byte → Option (List Byte)
  | [] => if needle.isEmpty then some [] else none
  | b :: rest => if needle.isPrefixOf (b :: rest) then some (b :: rest) else strstr needle rest

/-- `"ttyMT"` -/
def ttyMT : List Byte := [0x74, 0x74, 0x79, 0x4d, 0x54]

/-- `"boot_reason="` -/
def bootReasonText : List Byte := [0x62, 0x6f, 0x6f, 0x74, 0x5f, 0x72, 0x65, 0x61, 0x73, 0x6f, 0x6e, 0x3d]

/-- A character of a string, less `'0'`. -/
def digitAt (text : List Byte) (i : Nat) : Int := (text.getD i 0).toNat - 0x30

/-- `fiq_uart_fixup` with the console of the command line. -/
def fiqFixup : Fixup Unit := do
  let g ← Fixup.globals
  match strstr ttyMT g.cmdline with
  | some consolePtr =>
    let uartPort := if 3 < digitAt consolePtr 5 then -1 else digitAt consolePtr 5
    Fixup.update fun g => { g with uartPorts := g.uartPorts ++ [uartPort] }
  | none => pure ()

def bootReason : Fixup Unit := do
  let g ← Fixup.globals
  match strstr bootReasonText g.cmdline with
  | some brPtr => Fixup.update fun g => { g with gBootReason := digitAt brPtr 12 }
  | none => pure ()

/-- The last `ATAG_CMDLINE` goes into the command line of the kernel and is removed. -/
def takeCmdline (c : Config) (noneTag cmdlineTag : Nat) : Fixup Unit := do
  Fixup.adjust cmdlineTag
  Prog.when (c.fiqDebugger = true) fiqFixup
  let returned ← filterTag c .kernel cmdlineTag
  Prog.when (returned = true) do
    bootReason
    let next ← tagNext cmdlineTag
    Fixup.memcpy cmdlineTag next (BitVec.ofNat 32 noneTag - BitVec.ofNat 32 next + 8).toNat

/-- What follows the loop, up to `reserved_mem_bank_tag`. -/
def sumUp (c : Config) (v : Vars) : Fixup Unit := do
  let g ← Fixup.globals
  Prog.when (g.gBootMode = c.metaBoot ∨ g.gBootMode = c.advmetaBoot) (parseCcciDfoSetting none)
  Fixup.update fun g => { g with kernelMemSz := v.availDram }
  let g ← Fixup.globals
  Prog.when (c.maxDramSizeSupport - reservedMemModem ≤ g.blMemSz)
    (Fixup.update fun g => { g with useBlFb := g.useBlFb + 1 })

/-- What is done with `cmdline_tag`. -/
def removeCmdline (c : Config) (v : Vars) : Fixup Unit := do
  let tag ← Fixup.load (v.tags + 4)
  let noneTag := if tag = 0 then v.tags else 0
  match v.cmdlineTag with
  | none => pure ()
  | some cmdlineTag => takeCmdline c noneTag cmdlineTag

/-- `BUG()` does not return. -/
def handOver (c : Config) (v : Vars) : Fixup Unit :=
  match v.reservedMemBankTag with
  | none => Fixup.update fun g => { g with bug := true }
  | some bank => do
    reserveBank c bank
    removeCmdline c v

def mtFixup (c : Config) (tags : Nat) : Fixup Unit := do
  let returned ← (if c.mtkFb = true then filterTags c tags else pure true)
  Prog.when (returned = true) do
    parseCcciDfoSetting none
    let v ← fixupTags c (.start c tags)
    sumUp c v
    handOver c v

/-! The memory and the variables of the kernel. -/

structure State where
  mem : List Byte
  globals : Globals

def Globals.line (g : Globals) : Line → List Byte
  | .temp => g.tempCommandLine
  | .kernel => g.cmdline

def Globals.setLine (g : Globals) (text : List Byte) : Line → Globals
  | .temp => { g with tempCommandLine := text }
  | .kernel => { g with cmdline := text }

/-- What `cmdline_filter` works on. -/
def State.filtering (w : State) (line : Line) (tag : Nat) : FilterState where
  mem := w.mem.drop (tag + 8)
  defaultCmdline := w.globals.line line
  panicked := w.globals.panicked

def State.filtered (w : State) (line : Line) (tag : Nat) (f : FilterState) : State where
  mem := w.mem.take (tag + 8) ++ f.mem
  globals := { w.globals.setLine f.defaultCmdline line with panicked := f.panicked }

def env (x : Externals) : Env signature State
  | .load a, w => (loadWord w.mem a, w)
  | .store a value, w => ((), { w with mem := storeWord w.mem a value })
  | .filter line tag o, w =>
    ((filterEnv o (w.filtering line tag)).1, w.filtered line tag (filterEnv o (w.filtering line tag)).2)
  | .memcpy dst src count, w => ((), { w with mem := copyCells 0 count dst src w.mem })
  | .globals, w => (w.globals, w)
  | .update f, w => ((), { w with globals := f w.globals })
  | .adjust cmdlineTag, w => ((), { w with globals := { w.globals with
      cmdline := x.adjustKernelCmdLineSettingForConsole (stringAt w.mem (cmdlineTag + 8)) w.globals.cmdline } })
  | .dispGetVRamSizeBoot, w => (x.dispGetVRamSizeBoot w.globals.tempCommandLine, w)

section
variable {x : Externals} {w : State}

@[simp] theorem achieves_load {a : Nat} {post : Word → State → Prop} :
    Achieves (env x) (Fixup.load a) post w ↔ post (loadWord w.mem a) w := achieves_perform
@[simp] theorem achieves_store {a : Nat} {value : Word} {post : Unit → State → Prop} :
    Achieves (env x) (Fixup.store a value) post w ↔ post () { w with mem := storeWord w.mem a value } :=
  achieves_perform
@[simp] theorem achieves_memcpy {dst src count : Nat} {post : Unit → State → Prop} :
    Achieves (env x) (Fixup.memcpy dst src count) post w ↔
      post () { w with mem := copyCells 0 count dst src w.mem } := achieves_perform
@[simp] theorem achieves_globals {post : Globals → State → Prop} :
    Achieves (env x) Fixup.globals post w ↔ post w.globals w := achieves_perform
@[simp] theorem achieves_update {f : Globals → Globals} {post : Unit → State → Prop} :
    Achieves (env x) (Fixup.update f) post w ↔ post () { w with globals := f w.globals } := achieves_perform
@[simp] theorem achieves_adjust {cmdlineTag : Nat} {post : Unit → State → Prop} :
    Achieves (env x) (Fixup.adjust cmdlineTag) post w ↔ post () { w with globals := { w.globals with
      cmdline := x.adjustKernelCmdLineSettingForConsole (stringAt w.mem (cmdlineTag + 8)) w.globals.cmdline } } :=
  achieves_perform
@[simp] theorem achieves_dispGetVRamSizeBoot {post : Word → State → Prop} :
    Achieves (env x) Fixup.dispGetVRamSizeBoot post w ↔ post (x.dispGetVRamSizeBoot w.globals.tempCommandLine) w :=
  achieves_perform

end

end Yika.Devs.Boot
