import Yika.Program.Spec

/-! A two-wire bus driven by general purpose pins: what an observer of the lines decodes, and
how the pins of a master and the level of a slave make the lines. -/

namespace Yika.I2c
open Program

/-! The observer. -/

inductive Symbol where
  | start
  | stop
  | bit (level : Bool)
  deriving DecidableEq, Repr

structure Lines where
  scl : Bool
  sda : Bool
  deriving DecidableEq

/-- `pending` is the bit of the clock pulse in progress. -/
structure Observer where
  lines : Lines
  pending : Option Bool
  symbols : List Symbol

/-- While SCL is high, SDA falling is a START and SDA rising a STOP. The level of SDA when SCL
rises is a bit of the clock pulse, unless the pulse turns out to be that of a START or a
STOP. -/
def Observer.see (o : Observer) (now : Lines) : Observer :=
  if o.lines.scl && now.scl then
    if o.lines.sda && !now.sda then ⟨now, none, o.symbols ++ [.start]⟩
    else if !o.lines.sda && now.sda then ⟨now, none, o.symbols ++ [.stop]⟩
    else { o with lines := now }
  else if now.scl then ⟨now, some now.sda, o.symbols⟩
  else if o.lines.scl then ⟨now, none, o.symbols ++ (o.pending.map Symbol.bit).toList⟩
  else { o with lines := now }

/-- The observer of a bus that was idle before the first sample. -/
def observe (wave : List Lines) : Observer := wave.foldl Observer.see ⟨⟨true, true⟩, none, []⟩

def decode (wave : List Lines) : List Symbol := (observe wave).symbols

theorem observe_concat (wave : List Lines) (now : Lines) :
    observe (wave ++ [now]) = (observe wave).see now := by
  simp [observe]

/-- The bits of a byte, most significant first. -/
def byteBits (data : BitVec 8) : List Symbol := (List.range 8).map fun i => .bit (data.getMsbD i)

def framed (data : BitVec 8) (ack : Bool) : List Symbol := byteBits data ++ [.bit ack]

def shiftIn (data : BitVec 8) (level : Bool) : BitVec 8 := (data <<< 1) ||| (if level then 1 else 0)

/-- The byte whose bits these are, most significant first. -/
def assemble (bits : List Bool) : BitVec 8 := bits.foldl shiftIn 0

theorem byteBits_assemble (level : Nat → Bool) :
    byteBits (assemble ((List.range 8).map level)) = (List.range 8).map fun i => .bit (level i) := by
  have all : ∀ a b c d e f g h : Bool, byteBits (assemble [a, b, c, d, e, f, g, h]) =
      [.bit a, .bit b, .bit c, .bit d, .bit e, .bit f, .bit g, .bit h] := by decide
  exact all (level 0) (level 1) (level 2) (level 3) (level 4) (level 5) (level 6) (level 7)

/-! The master's pins. -/

inductive Pin where
  | scl
  | sda
  deriving DecidableEq

inductive PinOp where
  | mode (pin : Pin)
  | dir (pin : Pin) (output : Bool)
  | set (pin : Pin) (level : Bool)
  | readSda
  deriving DecidableEq

abbrev PinOp.Answer : PinOp → Type
  | .readSda => Bool
  | .mode _ => Unit
  | .dir _ _ => Unit
  | .set _ _ => Unit

abbrev pinSignature : Signature := ⟨PinOp, PinOp.Answer⟩

abbrev Master := Prog pinSignature

def pinMode (pin : Pin) : Master Unit := @Prog.perform pinSignature (.mode pin)
def pinDir (pin : Pin) (output : Bool) : Master Unit := @Prog.perform pinSignature (.dir pin output)
def pinSet (pin : Pin) (level : Bool) : Master Unit := @Prog.perform pinSignature (.set pin level)
def readSda : Master Bool := @Prog.perform pinSignature .readSda

/-- The directions and the output latches of the pins, the number of falling edges of SCL so
far, and the lines after each operation. -/
structure Bus where
  sclOut : Bool
  sdaOut : Bool
  scl : Bool
  sda : Bool
  clock : Nat
  wave : List Lines

/-- A pin that is an input is pulled up. -/
def Bus.sclLine (k : Bus) : Bool := !k.sclOut || k.scl

/-- SDA has the slave's level while the pin is an input. -/
def Bus.lines (slave : Nat → Bool) (k : Bus) : Lines :=
  ⟨k.sclLine, if k.sdaOut then k.sda else slave k.clock⟩

/-- The bus once its pins have changed. The slave moves on when SCL falls. -/
def Bus.settle (slave : Nat → Bool) (before after : Bus) : Bus :=
  let clock := if before.sclLine && !after.sclLine then before.clock + 1 else before.clock
  { after with
    clock := clock
    wave := before.wave ++ [Bus.lines slave { after with clock := clock }] }

/-- A slave holds the level `slave n` from the `n`-th falling edge of SCL to the next. -/
def busEnv (slave : Nat → Bool) : Env pinSignature Bus
  | .mode _, k => ((), k.settle slave k)
  | .dir .scl output, k => ((), k.settle slave { k with sclOut := output })
  | .dir .sda output, k => ((), k.settle slave { k with sdaOut := output })
  | .set .scl level, k => ((), k.settle slave { k with scl := level })
  | .set .sda level, k => ((), k.settle slave { k with sda := level })
  | .readSda, k => ((k.lines slave).sda, k)

section
variable {slave : Nat → Bool} {k : Bus} {post : Unit → Bus → Prop} {postBool : Bool → Bus → Prop}

@[simp] theorem achieves_pinMode {pin : Pin} :
    Achieves (busEnv slave) (pinMode pin) post k ↔ post () (k.settle slave k) := achieves_perform

@[simp] theorem achieves_sclDir {output : Bool} :
    Achieves (busEnv slave) (pinDir .scl output) post k ↔
      post () (k.settle slave { k with sclOut := output }) := achieves_perform

@[simp] theorem achieves_sdaDir {output : Bool} :
    Achieves (busEnv slave) (pinDir .sda output) post k ↔
      post () (k.settle slave { k with sdaOut := output }) := achieves_perform

@[simp] theorem achieves_setScl {level : Bool} :
    Achieves (busEnv slave) (pinSet .scl level) post k ↔
      post () (k.settle slave { k with scl := level }) := achieves_perform

@[simp] theorem achieves_setSda {level : Bool} :
    Achieves (busEnv slave) (pinSet .sda level) post k ↔
      post () (k.settle slave { k with sda := level }) := achieves_perform

@[simp] theorem achieves_readSda :
    Achieves (busEnv slave) readSda postBool k ↔ postBool (k.lines slave).sda k := achieves_perform

/-! The phases of a transfer. -/

/-- Both lines are high, and stay so when the pins become outputs. -/
structure Rest (slave : Nat → Bool) (symbols : List Symbol) (n : Nat) (k : Bus) : Prop where
  scl : k.scl = true
  sda : k.sda = true
  clock : k.clock = n
  lines : k.lines slave = ⟨true, true⟩
  seen : observe k.wave = ⟨⟨true, true⟩, none, symbols⟩

/-- SCL is low. -/
structure Low (slave : Nat → Bool) (symbols : List Symbol) (n : Nat) (k : Bus) : Prop where
  sclOut : k.sclOut = true
  scl : k.scl = false
  clock : k.clock = n
  seen : observe k.wave = ⟨k.lines slave, none, symbols⟩

/-- SCL is high during a transfer, and `pending` is what the pulse carries so far. -/
structure High (slave : Nat → Bool) (symbols : List Symbol) (n : Nat) (level : Bool)
    (pending : Option Bool) (k : Bus) : Prop where
  sclOut : k.sclOut = true
  scl : k.scl = true
  clock : k.clock = n
  lines : k.lines slave = ⟨true, level⟩
  seen : observe k.wave = ⟨⟨true, level⟩, pending, symbols⟩

variable {symbols : List Symbol} {n : Nat} {level : Bool}

/-- While SCL stays low nothing that SDA does is seen. -/
theorem Low.settle (low : Low slave symbols n k) {after : Bus} (out : after.sclOut = true)
    (stays : after.scl = false) : Low slave symbols n (k.settle slave after) := by
  obtain ⟨sclOut, scl, clock, seen⟩ := low
  constructor
  case seen =>
    simp [Bus.settle, observe_concat, seen, Observer.see, Bus.lines, Bus.sclLine, sclOut, scl, out, stays]
  all_goals simp [Bus.settle, Bus.sclLine, sclOut, scl, clock, out, stays]

/-- The rising edge of SCL takes the level of SDA. -/
theorem Low.rise (low : Low slave symbols n k) :
    High slave symbols n (k.lines slave).sda (some (k.lines slave).sda)
      (k.settle slave { k with scl := true }) := by
  obtain ⟨sclOut, scl, clock, seen⟩ := low
  constructor
  case seen => simp [Bus.settle, observe_concat, seen, Observer.see, Bus.lines, Bus.sclLine, sclOut, scl]
  all_goals simp [Bus.settle, Bus.lines, Bus.sclLine, sclOut, scl, clock]

variable {pending : Option Bool}

/-- The falling edge ends the pulse, with the bit it carries. -/
theorem High.fall (high : High slave symbols n level pending k) :
    Low slave (symbols ++ (pending.map Symbol.bit).toList) (n + 1)
      (k.settle slave { k with scl := false }) := by
  obtain ⟨sclOut, scl, clock, lines, seen⟩ := high
  constructor
  case seen => simp [Bus.settle, observe_concat, seen, Observer.see, Bus.lines, Bus.sclLine, sclOut, scl]
  all_goals simp [Bus.settle, Bus.sclLine, sclOut, scl, clock]

theorem High.stop (high : High slave symbols n false pending k) (driven : k.sdaOut = true) :
    Rest slave (symbols ++ [.stop]) n (k.settle slave { k with sda := true }) := by
  obtain ⟨sclOut, scl, clock, lines, seen⟩ := high
  constructor
  case seen =>
    simp [Bus.settle, observe_concat, seen, Observer.see, Bus.lines, Bus.sclLine, scl, driven]
  all_goals simp [Bus.settle, Bus.lines, Bus.sclLine, sclOut, scl, clock, driven]

theorem Rest.settle (rest : Rest slave symbols n k) {after : Bus} (scl' : after.scl = true)
    (sda' : after.sda = true) (held : after.sdaOut = true ∨ after.sdaOut = k.sdaOut) :
    Rest slave symbols n (k.settle slave after) := by
  obtain ⟨scl, sda, clock, lines, seen⟩ := rest
  have level : (if after.sdaOut then true else slave k.clock) = true := by
    have before : (if k.sdaOut then k.sda else slave k.clock) = true := congrArg Lines.sda lines
    rw [sda] at before
    rcases held with output | same
    · rw [output, if_pos rfl]
    · rw [same, before]
  constructor
  case seen =>
    simp [Bus.settle, observe_concat, seen, Observer.see, Bus.lines, Bus.sclLine, scl, scl', sda', level]
  case lines => simpa [Bus.settle, Bus.lines, Bus.sclLine, scl, scl', sda'] using level
  all_goals simp [Bus.settle, Bus.sclLine, scl, clock, scl', sda']

theorem Rest.start (rest : Rest slave symbols n k) (output : k.sclOut = true)
    (driven : k.sdaOut = true) :
    High slave (symbols ++ [.start]) n false none (k.settle slave { k with sda := false }) := by
  obtain ⟨scl, sda, clock, lines, seen⟩ := rest
  constructor
  case seen => simp [Bus.settle, observe_concat, seen, Observer.see, Bus.lines, Bus.sclLine, scl, driven]
  all_goals simp [Bus.settle, Bus.lines, Bus.sclLine, scl, clock, output, driven]

end

end Yika.I2c
