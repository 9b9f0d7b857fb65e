import Yika.Program.Ledger
import Yika.Relay.Relayer

/-! How `bt_relayer.cpp` and `bt_em.c` acquire and release the two devices of the relay: the
Bluetooth driver, by `mtk` and `bt_restore` of the library, and the UART, by `open` and `close`.
The log, `sleep` and the threads are left out. -/

namespace Yika.Relay
open Program

inductive Fault where
  /-- released without being held -/
  | invalid (fd : Int)
  /-- overwritten in its global while held -/
  | overwritten (fd : Int)
  deriving DecidableEq

/-- The globals, the descriptors that `mtk` returned and `bt_restore` was given, and those that
`open` returned and `close` was given. -/
structure Devices where
  globals : Globals
  mOpen : Int
  bt : Ledger Int
  uart : Ledger Int
  faults : List Fault

def Devices.initial : Devices where
  globals := { uart_fd := -1, bt_fd := -1, glib_handle := false, fExit := false }
  mOpen := 0
  bt := .empty
  uart := .empty
  faults := []

/-- The results of `dlopen`, of the four `dlsym` together, and of `mtk`. -/
structure BtOutcome where
  dlopen : Bool
  dlsym : Bool
  mtk : Int

/-- The results of `open`, `tcgetattr` and `tcsetattr`. -/
structure UartOutcome where
  fd : Int
  tcgetattr : Int
  tcsetattr : Int

/-! The calls to the system, and the assignments to the globals. -/

namespace Devices

def fault (d : Devices) (c : Prop) [Decidable c] (f : Fault) : Devices :=
  if c then { d with faults := f :: d.faults } else d

def setGlib (d : Devices) (loaded : Bool) : Devices :=
  { d with globals := { d.globals with glib_handle := loaded } }

def mtk (d : Devices) (result : Int) : Devices :=
  if result < 0 then d else { d with bt := d.bt.acquire result }

def btRestore (d : Devices) (fd : Int) : Devices :=
  { d.fault (¬d.bt.Held fd) (.invalid fd) with bt := d.bt.release fd }

def setBtFd (d : Devices) (fd : Int) : Devices :=
  { d.fault (d.bt.Held d.globals.bt_fd) (.overwritten d.globals.bt_fd) with
    globals := { d.globals with bt_fd := fd } }

def opened (d : Devices) (fd : Int) : Devices := { d with uart := d.uart.acquire fd }

def close (d : Devices) (fd : Int) : Devices :=
  { d.fault (¬d.uart.Held fd) (.invalid fd) with uart := d.uart.release fd }

def setUartFd (d : Devices) (fd : Int) : Devices :=
  { d.fault (d.uart.Held d.globals.uart_fd) (.overwritten d.globals.uart_fd) with
    globals := { d.globals with uart_fd := fd } }

def setFExit (d : Devices) (exit : Bool) : Devices :=
  { d with globals := { d.globals with fExit := exit } }

def setMOpen (d : Devices) (value : Int) : Devices := { d with mOpen := value }

end Devices

/-! The functions. -/

/-- The label `error` of `EM_BT_init`. -/
def emBTInitError (d : Devices) : Devices := if d.globals.glib_handle then d.setGlib false else d

def emBTInit (o : BtOutcome) (d : Devices) : Bool × Devices :=
  let d := d.setGlib o.dlopen
  if d.globals.glib_handle = false then (false, emBTInitError d)
  else if o.dlsym = false then (false, emBTInitError d)
  else
    let d := (d.mtk o.mtk).setBtFd o.mtk
    if d.globals.bt_fd < 0 then (false, emBTInitError d) else (true, d)

def emBTDeinit (d : Devices) : Devices :=
  if d.globals.glib_handle = false then d
  else if d.globals.bt_fd < 0 then d.setGlib false
  else ((d.btRestore d.globals.bt_fd).setBtFd (-1)).setGlib false

/-- `B57600` and its like, by their rates. -/
def uartSpeed (s : Int) : Int :=
  if s ∈ [9600, 19200, 38400, 57600, 115200, 230400, 460800, 500000, 576000, 921600] then s
  else 57600

/-- The port only names the device that is opened. -/
def initUart2pc (speed : Int) (o : UartOutcome) (d : Devices) : Int × Devices :=
  if o.fd < 0 then (-1, d)
  else
    let d := d.opened o.fd
    if o.tcgetattr < 0 then (-1, d.close o.fd)
    else if uartSpeed speed = 57600 ∧ speed ≠ 57600 then (-1, d.close o.fd)
    else if o.tcsetattr < 0 then (-1, d.close o.fd)
    else (o.fd, d)

def relayerStart (speed : Int) (bt : BtOutcome) (uart : UartOutcome) (d : Devices) :
    Bool × Devices :=
  let init := emBTInit bt d
  if init.1 then
    let port := initUart2pc speed uart init.2
    let d := port.2.setUartFd port.1
    if d.globals.uart_fd < 0 then (false, emBTDeinit d) else (true, d.setFExit false)
  else (false, init.2)

def relayerClose (d : Devices) : Devices :=
  let d := if d.globals.uart_fd > -1 then (d.setMOpen 0).close d.globals.uart_fd else d
  d.setUartFd (-1)

def relayerOpen (speed : Int) (uart : UartOutcome) (d : Devices) : Bool × Devices :=
  let port := initUart2pc speed uart (relayerClose d)
  let d := port.2.setUartFd port.1
  if d.globals.uart_fd < 0 then (false, d.setMOpen 0) else (true, d.setMOpen 1)

def relayerExit (d : Devices) : Devices :=
  let d := d.setFExit true
  emBTDeinit ((d.close d.globals.uart_fd).setUartFd (-1))

inductive RelayerCall where
  | start (speed : Int) (bt : BtOutcome) (uart : UartOutcome)
  | exit
  | open (speed : Int) (uart : UartOutcome)
  | close

def Devices.step (d : Devices) : RelayerCall → Devices
  | .start speed bt uart => (relayerStart speed bt uart d).2
  | .exit => relayerExit d
  | .open speed uart => (relayerOpen speed uart d).2
  | .close => relayerClose d

def Devices.calls (d : Devices) (calls : List RelayerCall) : Devices := calls.foldl Devices.step d

/-- Every descriptor acquired has been released once, none was overwritten while held, and nothing
was released that was not held. -/
structure Devices.Paired (d : Devices) : Prop where
  clean : d.faults = []
  bt : d.bt.Settled
  uart : d.uart.Settled

def BtOutcome.Succeeds (o : BtOutcome) : Prop := o.dlopen = true ∧ o.dlsym = true ∧ 0 ≤ o.mtk

/-- RELAYER_start is called without the Bluetooth driver in use and, when that can be initialised,
without a UART in use; RELAYER_exit is called with a UART in use. -/
def Devices.Ready (d : Devices) : RelayerCall → Prop
  | .start _ bt _ => d.globals.bt_fd < 0 ∧ (bt.Succeeds → d.globals.uart_fd < 0)
  | .exit => 0 ≤ d.globals.uart_fd
  | .open .. | .close => True

def Devices.AllReady (d : Devices) : List RelayerCall → Prop
  | [] => True
  | call :: calls => d.Ready call ∧ (d.step call).AllReady calls

/-- What a global stands for. -/
def descriptor (fd : Int) : Option Int := if fd < 0 then none else some fd

/-- The globals name what is held, and the library is loaded while the driver is. -/
structure Devices.Sound (d : Devices) : Prop where
  clean : d.faults = []
  bt : d.bt.Owes (descriptor d.globals.bt_fd)
  loaded : d.globals.glib_handle = true ↔ 0 ≤ d.globals.bt_fd
  uart : d.uart.Owes (descriptor d.globals.uart_fd)

/-- A fault has been made, or the library is gone while the driver is held. -/
def Devices.Spoilt (d : Devices) : Prop :=
  d.faults ≠ [] ∨ d.globals.glib_handle = false ∧ d.bt.Held d.globals.bt_fd

/-- What the functions for the UART leave alone. -/
def Devices.btView (d : Devices) : Bool × Int × Ledger Int :=
  (d.globals.glib_handle, d.globals.bt_fd, d.bt)

end Yika.Relay
