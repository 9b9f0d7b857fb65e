import Yika.Relay.Relayer

/-! The thread of `bt_relayer.cpp` that forwards what the chip sends to the PC, with
`EM_BT_read` of `bt_em.c`, over its calls of `bt_receive_data` and `write`. The log and
`sched_yield` are left out. -/

namespace Yika.Relay
open Program

/-- What `write` returns, and the `errno` it leaves. -/
structure Written where
  bytesWritten : Int
  errno : Nat

inductive ChipOp where
  | btReceiveData (fd : Int) (dest : Dest) (len : Nat)
  | write (fd : Int) (index len : Nat)
  | header
  | peek (i : Nat)
  | poke (i : Nat) (value : UCHAR)
  | memset (len : Nat)
  | globals
  | setExit
  deriving DecidableEq

abbrev ChipOp.Answer : ChipOp → Type
  | .btReceiveData _ _ _ => Int
  | .write _ _ _ => Written
  | .header => UCHAR
  | .peek _ => UCHAR
  | .poke _ _ => Unit
  | .memset _ => Unit
  | .globals => Globals
  | .setExit => Unit

abbrev chipSignature : Signature := ⟨ChipOp, ChipOp.Answer⟩

abbrev RxThread := Prog chipSignature

namespace Rx

def btReceiveData (fd : Int) (dest : Dest) (len : Nat) : RxThread Int :=
  @Prog.perform chipSignature (.btReceiveData fd dest len)
/-- `len` bytes of the buffer are written, from the one at `index` on. -/
def write (fd : Int) (index len : Nat) : RxThread Written :=
  @Prog.perform chipSignature (.write fd index len)
def header : RxThread UCHAR := @Prog.perform chipSignature .header
def peek (i : Nat) : RxThread UCHAR := @Prog.perform chipSignature (.peek i)
def poke (i : Nat) (value : UCHAR) : RxThread Unit := @Prog.perform chipSignature (.poke i value)
def memset (len : Nat) : RxThread Unit := @Prog.perform chipSignature (.memset len)
def globals : RxThread Globals := @Prog.perform chipSignature .globals
def setExit : RxThread Unit := @Prog.perform chipSignature .setExit

end Rx

/-! The program. A buffer is never `NULL`. -/

/-- A case of the switch of `EM_BT_read`: `more` bytes complete the header, from which `pkt_len`
is then computed. The value is what is returned and `*piResultLen`. -/
def receiveCase (fd : Int) (peerLen more : Nat) (pktLen : RxThread Nat) : RxThread (Bool × Nat) :=
  receiveInto (fun index len => Rx.btReceiveData fd (.buffer index) len) peerLen more pktLen

/-- `pkt_len` of an event. -/
def eventLength : RxThread Nat := do
  let length ← Rx.peek 2
  pure length.toNat

/-- `pkt_len` of ACL data, little endian. -/
def aclLength : RxThread Nat := do
  let high ← Rx.peek 4
  let low ← Rx.peek 3
  pure (high.toNat <<< 8 + low.toNat)

/-- `pkt_len` of SCO data. -/
def scoLength : RxThread Nat := do
  let length ← Rx.peek 3
  pure length.toNat

/-- The switch of `EM_BT_read`. -/
def receiveSwitch (fd : Int) (peerLen : Nat) (ucHeader : UCHAR) : RxThread (Bool × Nat) :=
  if ucHeader = 0x04 then receiveCase fd peerLen 2 eventLength
  else if ucHeader = 0x02 then receiveCase fd peerLen 4 aclLength
  else if ucHeader = 0x03 then receiveCase fd peerLen 3 scoLength
  else pure (false, 1)

def debugEvent : RxThread Bool := do
  let type ← Rx.peek 0
  if type = 0x04 then do
    let code ← Rx.peek 1
    pure (decide (code = 0xE0))
  else pure false

/-- `LOOP` of `EM_BT_read`, where `iLen` is 0 whichever way it is entered; the local is `count`.
It leaves with what is returned and `*piResultLen`. -/
def emBTReadLoop (fd : Int) (peerLen count : Nat) : RxThread (Nat ⊕ (Bool × Nat)) := do
  let ret ← Rx.btReceiveData fd .header 1
  if ret < 0 then
    if count + 1 < 3 then pure (.inl (count + 1)) else pure (.inr (false, 0))
  else do
    let ucHeader ← Rx.header
    Rx.poke 0 ucHeader
    let read ← receiveSwitch fd peerLen ucHeader
    if read.1 then do
      let dropped ← debugEvent
      if dropped then do
        Rx.memset peerLen
        pure (.inl 0)
      else pure (.inr read)
    else pure (.inr read)

/-- The value is what is returned and `*piResultLen`, which is `piResultLen` at the call. -/
def emBTRead (peerLen piResultLen : Nat) : RxThread (Bool × Nat) := do
  let g ← Rx.globals
  if g.glib_handle = false then pure (false, piResultLen)
  else if g.bt_fd < 0 then pure (false, piResultLen)
  else Prog.doWhile (emBTReadLoop g.bt_fd peerLen) 0

def EINTR : Nat := 4
def EAGAIN : Nat := 11

/-- The loop of `write_data_to_pc`; the locals are `buffer`, as an index, and `bytesToWrite`. -/
def writeRest (fd : Int) (rest : Nat × Int) : RxThread ((Nat × Int) ⊕ Int) :=
  if 0 < rest.2 then do
    let written ← Rx.write fd rest.1 rest.2.toNat
    if written.bytesWritten < 0 then
      if written.errno = EINTR ∨ written.errno = EAGAIN then pure (.inl rest) else pure (.inr (-1))
    else pure (.inl (rest.1 + written.bytesWritten.toNat, rest.2 - written.bytesWritten))
  else pure (.inr 0)

def writeDataToPc (fd : Int) (len : Nat) : RxThread Int :=
  if fd < 0 then pure (-1) else Prog.doWhile (writeRest fd) (0, len)

def relayerWrite (fd : Int) (peerLen : Nat) : RxThread Bool := do
  let type ← Rx.peek 0
  if type ≠ 0x04 ∧ type ≠ 0x02 ∧ type ≠ 0x03 then pure false
  else do
    let ret ← writeDataToPc fd peerLen
    if ret < 0 then pure false else pure true

/-- `sizeof(ucRxBuf)` -/
def sizeofRxBuf : Nat := 512

/-- What `bt_rx_monitor` does with what `EM_BT_read` has returned and left in `iPktLen`. -/
def forwardReceived (read : Bool × Nat) : RxThread (Unit ⊕ Unit) :=
  if read.1 then do
    let g ← Rx.globals
    let written ← relayerWrite g.uart_fd read.2
    Prog.when (written = false) Rx.setExit
    pure (.inl ())
  else do
    Prog.when (read.2 ≠ 0) Rx.setExit
    pure (.inl ())

/-- One turn of the loop of `bt_rx_monitor`. -/
def btRxRound (_ : Unit) : RxThread (Unit ⊕ Unit) := do
  let g ← Rx.globals
  if g.fExit then pure (.inr ())
  else do
    Rx.memset sizeofRxBuf
    let read ← emBTRead sizeofRxBuf 0
    forwardReceived read

def btRxMonitor : RxThread Unit := Prog.doWhile btRxRound ()

/-! The world of the thread is a `Link` the other way round: what the chip has still to deliver,
`ucRxBuf`, and the pieces that the PC has been written. -/

def Link.slice (k : Link) (index len : Nat) : List UCHAR :=
  (List.range len).map fun i => k.ucTxBuf (index + i)

/-- `bt_receive_data` delivers the stream in order, and fails when not enough of it is left: what
there is has then been stored. `accept` is what `write` returns for a number of bytes. -/
def chipEnv (accept : Link → Nat → Written) : Env chipSignature Link
  | .btReceiveData _ dest len, k =>
    (if len ≤ k.input.length then 0 else -1,
      { k.store dest (k.input.take len) with input := k.input.drop len })
  | .write _ index len, k =>
    (accept k len, { k with sent := k.sent ++ [k.slice index (accept k len).bytesWritten.toNat] })
  | .header, k => (k.ucHeader, k)
  | .peek i, k => (k.ucTxBuf i, k)
  | .poke i value, k => ((), k.store (.buffer i) [value])
  | .memset len, k => ((), k.store (.buffer 0) (List.replicate len 0))
  | .globals, k => (k.globals, k)
  | .setExit, k => ((), { k with globals := { k.globals with fExit := true } })

section
variable {accept : Link → Nat → Written} {good : ChipOp → Link → Prop} {k : Link} {fd : Int}
  {postInt : Int → Link → Prop} {postByte : UCHAR → Link → Prop} {post : Unit → Link → Prop}
  {postGlobals : Globals → Link → Prop} {postWritten : Written → Link → Prop}

@[simp] theorem serves_rxReceive {dest : Dest} {len : Nat} :
    Serves (chipEnv accept) good (Rx.btReceiveData fd dest len) postInt k ↔
      good (.btReceiveData fd dest len) k ∧ postInt (if len ≤ k.input.length then 0 else -1)
        { k.store dest (k.input.take len) with input := k.input.drop len } := serves_perform

@[simp] theorem serves_rxWrite {index len : Nat} :
    Serves (chipEnv accept) good (Rx.write fd index len) postWritten k ↔
      good (.write fd index len) k ∧ postWritten (accept k len) { k with
        sent := k.sent ++ [k.slice index (accept k len).bytesWritten.toNat] } := serves_perform

@[simp] theorem serves_rxHeader : Serves (chipEnv accept) good Rx.header postByte k ↔
    good .header k ∧ postByte k.ucHeader k := serves_perform

@[simp] theorem serves_rxPeek {i : Nat} : Serves (chipEnv accept) good (Rx.peek i) postByte k ↔
    good (.peek i) k ∧ postByte (k.ucTxBuf i) k := serves_perform

@[simp] theorem serves_rxPoke {i : Nat} {value : UCHAR} :
    Serves (chipEnv accept) good (Rx.poke i value) post k ↔
      good (.poke i value) k ∧ post () (k.store (.buffer i) [value]) := serves_perform

@[simp] theorem serves_rxMemset {len : Nat} :
    Serves (chipEnv accept) good (Rx.memset len) post k ↔
      good (.memset len) k ∧ post () (k.store (.buffer 0) (List.replicate len 0)) := serves_perform

@[simp] theorem serves_rxGlobals : Serves (chipEnv accept) good Rx.globals postGlobals k ↔
    good .globals k ∧ postGlobals k.globals k := serves_perform

@[simp] theorem serves_rxSetExit : Serves (chipEnv accept) good Rx.setExit post k ↔
    good .setExit k ∧ post () { k with globals := { k.globals with fExit := true } } :=
  serves_perform

end

end Yika.Relay
