import Mathlib.Data.BitVec
import Yika.Program.Guard

/-! The thread of `bt_relayer.cpp` that forwards what the PC sends to the chip, over its calls
of `read_data_from_pc` and `bt_send_data`. The log and `sched_yield` are left out. -/

namespace Yika.Relay
open Program

abbrev UCHAR := BitVec 8

/-- Where a byte is stored: in `ucHeader`, or in the buffer of the thread from an index on. -/
inductive Dest where
  | header
  | buffer (index : Nat)
  deriving DecidableEq

/-- The globals of the two files. `glib_handle` tells whether the library is loaded. -/
structure Globals where
  uart_fd : Int
  bt_fd : Int
  glib_handle : Bool
  fExit : Bool

inductive RelayOp where
  | readDataFromPc (fd : Int) (dest : Dest) (len : Nat)
  | btSendData (fd : Int) (len : Nat)
  | header
  | peek (i : Nat)
  | poke (i : Nat) (value : UCHAR)
  | memset (len : Nat)
  | globals
  | setExit
  deriving DecidableEq

abbrev RelayOp.Answer : RelayOp → Type
  | .readDataFromPc _ _ _ => Int
  | .btSendData _ _ => Int
  | .header => UCHAR
  | .peek _ => UCHAR
  | .poke _ _ => Unit
  | .memset _ => Unit
  | .globals => Globals
  | .setExit => Unit

abbrev relaySignature : Signature := ⟨RelayOp, RelayOp.Answer⟩

abbrev Thread := Prog relaySignature

def readDataFromPc (fd : Int) (dest : Dest) (len : Nat) : Thread Int :=
  @Prog.perform relaySignature (.readDataFromPc fd dest len)
/-- The first `len` bytes of the buffer are sent. -/
def btSendData (fd : Int) (len : Nat) : Thread Int :=
  @Prog.perform relaySignature (.btSendData fd len)
def header : Thread UCHAR := @Prog.perform relaySignature .header
def peek (i : Nat) : Thread UCHAR := @Prog.perform relaySignature (.peek i)
def poke (i : Nat) (value : UCHAR) : Thread Unit := @Prog.perform relaySignature (.poke i value)
def memset (len : Nat) : Thread Unit := @Prog.perform relaySignature (.memset len)
def globals : Thread Globals := @Prog.perform relaySignature .globals
def setExit : Thread Unit := @Prog.perform relaySignature .setExit

/-! The program. A buffer is never `NULL`. -/

/-- `LOOP` of `RELAYER_read`; the locals are `count`. It leaves with whether a header came. -/
def receiveHeader (fd : Int) (count : Nat) : Thread (Nat ⊕ Bool) := do
  let ret ← readDataFromPc fd .header 1
  if ret < 0 then
    if count + 1 < 3 then pure (.inl (count + 1)) else pure (.inr false)
  else pure (.inr true)

/-- How both threads receive a packet of whose header they have the first byte: with `read` for an
index and a number of bytes, `more` bytes complete the header, from which `pkt_len` is then
computed. -/
def receiveInto {S : Signature} (read : Nat → Nat → Prog S Int) (peerLen more : Nat)
    (pktLen : Prog S Nat) : Prog S (Bool × Nat) := do
  let ret ← read 1 more
  if ret < 0 then pure (false, 1)
  else do
    let pktLen ← pktLen
    if peerLen < 1 + more + pktLen then pure (false, 1 + more)
    else do
      let ret ← read (1 + more) pktLen
      if ret < 0 then pure (false, 1 + more) else pure (true, 1 + more + pktLen)

/-- A case of `RELAYER_read`: `more` bytes complete the header, from which `pkt_len` is then
computed. The value is what is returned and `*piResultLen`. -/
def receivePacket (fd : Int) (peerLen more : Nat) (pktLen : Thread Nat) : Thread (Bool × Nat) :=
  receiveInto (fun index len => readDataFromPc fd (.buffer index) len) peerLen more pktLen

/-- `pkt_len` of a command and of SCO data. -/
def shortLength : Thread Nat := do
  let length ← peek 3
  pure length.toNat

/-- `pkt_len` of ACL data, little endian. -/
def longLength : Thread Nat := do
  let high ← peek 4
  let low ← peek 3
  pure (high.toNat <<< 8 + low.toNat)

/-- The value is what is returned and `*piResultLen`, which is `piResultLen` at the call. -/
def relayerRead (fd : Int) (peerLen piResultLen : Nat) : Thread (Bool × Nat) := do
  let received ← Prog.doWhile (receiveHeader fd) 0
  if received then do
    let ucHeader ← header
    poke 0 ucHeader
    if ucHeader = 0x01 then receivePacket fd peerLen 3 shortLength
    else if ucHeader = 0x02 then receivePacket fd peerLen 4 longLength
    else if ucHeader = 0x03 then receivePacket fd peerLen 3 shortLength
    else pure (false, piResultLen)
  else pure (false, piResultLen)

def emBTWrite (peerLen : Nat) : Thread Bool := do
  let type ← peek 0
  if type ≠ 0x01 ∧ type ≠ 0x02 ∧ type ≠ 0x03 then pure false
  else do
    let g ← globals
    if g.glib_handle = false then pure false
    else if g.bt_fd < 0 then pure false
    else do
      let ret ← btSendData g.bt_fd peerLen
      if ret < 0 then pure false else pure true

/-- `sizeof(ucTxBuf)` -/
def sizeofTxBuf : Nat := 512

/-- What `bt_tx_monitor` does with what `RELAYER_read` has returned and left in `iPktLen`. -/
def forwardRead (read : Bool × Nat) : Thread (Unit ⊕ Unit) :=
  if read.1 then do
    let written ← emBTWrite read.2
    Prog.when (written = false) setExit
    pure (.inl ())
  else do
    Prog.when (read.2 ≠ 0) setExit
    pure (.inl ())

/-- One turn of the loop of `bt_tx_monitor`. -/
def btTxRound (_ : Unit) : Thread (Unit ⊕ Unit) := do
  let g ← globals
  if g.fExit then pure (.inr ())
  else do
    memset sizeofTxBuf
    let read ← relayerRead g.uart_fd sizeofTxBuf 0
    forwardRead read

def btTxMonitor : Thread Unit := Prog.doWhile btTxRound ()

/-! The world of the thread. -/

/-- `input` is what the PC has still to deliver, `sent` what the chip has been handed. -/
structure Link where
  input : List UCHAR
  ucHeader : UCHAR
  ucTxBuf : Nat → UCHAR
  sent : List (List UCHAR)
  globals : Globals

def Link.store (k : Link) : Dest → List UCHAR → Link
  | .header, bytes => { k with ucHeader := bytes.headD k.ucHeader }
  | .buffer index, bytes =>
    { k with ucTxBuf := fun i =>
      if index ≤ i then bytes.getD (i - index) (k.ucTxBuf i) else k.ucTxBuf i }

def Link.window (k : Link) (len : Nat) : List UCHAR := (List.range len).map k.ucTxBuf

/-- `read_data_from_pc` delivers the stream in order, and fails when not enough of it is left:
what there is has then been stored. `send` is what `bt_send_data` returns for a buffer. -/
def relayEnv (send : List UCHAR → Int) : Env relaySignature Link
  | .readDataFromPc _ dest len, k =>
    (if len ≤ k.input.length then 0 else -1,
      { k.store dest (k.input.take len) with input := k.input.drop len })
  | .btSendData _ len, k => (send (k.window len), { k with sent := k.sent ++ [k.window len] })
  | .header, k => (k.ucHeader, k)
  | .peek i, k => (k.ucTxBuf i, k)
  | .poke i value, k => ((), k.store (.buffer i) [value])
  | .memset len, k => ((), k.store (.buffer 0) (List.replicate len 0))
  | .globals, k => (k.globals, k)
  | .setExit, k => ((), { k with globals := { k.globals with fExit := true } })

section
variable {send : List UCHAR → Int} {good : RelayOp → Link → Prop} {k : Link} {fd : Int}
  {postInt : Int → Link → Prop} {postByte : UCHAR → Link → Prop} {post : Unit → Link → Prop}
  {postGlobals : Globals → Link → Prop}

@[simp] theorem serves_readDataFromPc {dest : Dest} {len : Nat} :
    Serves (relayEnv send) good (readDataFromPc fd dest len) postInt k ↔
      good (.readDataFromPc fd dest len) k ∧ postInt (if len ≤ k.input.length then 0 else -1)
        { k.store dest (k.input.take len) with input := k.input.drop len } := serves_perform

@[simp] theorem serves_btSendData {len : Nat} :
    Serves (relayEnv send) good (btSendData fd len) postInt k ↔ good (.btSendData fd len) k ∧
      postInt (send (k.window len)) { k with sent := k.sent ++ [k.window len] } := serves_perform

@[simp] theorem serves_header : Serves (relayEnv send) good header postByte k ↔
    good .header k ∧ postByte k.ucHeader k := serves_perform

@[simp] theorem serves_peek {i : Nat} : Serves (relayEnv send) good (peek i) postByte k ↔
    good (.peek i) k ∧ postByte (k.ucTxBuf i) k := serves_perform

@[simp] theorem serves_poke {i : Nat} {value : UCHAR} :
    Serves (relayEnv send) good (poke i value) post k ↔
      good (.poke i value) k ∧ post () (k.store (.buffer i) [value]) := serves_perform

@[simp] theorem serves_memset {len : Nat} :
    Serves (relayEnv send) good (memset len) post k ↔
      good (.memset len) k ∧ post () (k.store (.buffer 0) (List.replicate len 0)) := serves_perform

@[simp] theorem serves_globals : Serves (relayEnv send) good globals postGlobals k ↔
    good .globals k ∧ postGlobals k.globals k := serves_perform

@[simp] theorem serves_setExit : Serves (relayEnv send) good setExit post k ↔
    good .setExit k ∧ post () { k with globals := { k.globals with fExit := true } } :=
  serves_perform

end

end Yika.Relay
