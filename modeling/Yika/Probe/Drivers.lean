import Yika.Program.Path
import Yika.Program.Registry

/-! `probe` and `remove` of `qn8006_driver.c` and `bt803_driver.c`, over what the kernel has
registered for the driver. The log and the pins are left out. -/

namespace Yika.Probe
open Program

inductive Resource where
  | region
  | cdev
  | deviceClass
  | device
  | proc
  | input
  | wakeLock
  | thread
  | sysfs
  | interrupt
  deriving DecidableEq

/-- What the two drivers have in common: the device number, and three pointers; `none` is `NULL`
or an error pointer. -/
structure CharDriver where
  registry : Registry Resource
  devno : Nat
  cdev : Option Nat
  devClass : Option Nat
  norDevice : Option Nat

/-- The results of `alloc_chrdev_region`, `cdev_alloc`, `cdev_add`, `class_create` and
`device_create`: 0 or an error, or whether there is a valid pointer. -/
structure CharOutcome where
  allocChrdevRegion : Int
  cdevAlloc : Bool
  cdevAdd : Int
  classCreate : Int
  deviceCreate : Bool

def ENOMEM : Int := 12
def ENXIO : Int := 6

namespace CharDriver

def allocChrdevRegion (d : CharDriver) (ret : Int) : CharDriver :=
  if ret = 0 then { d with registry := d.registry.create .region, devno := d.registry.next } else d

/-- A device number that is not registered is left alone. -/
def unregisterChrdevRegion (d : CharDriver) : CharDriver :=
  { d with registry := d.registry.remove .region d.devno }

/-- `cdev_alloc` takes memory, `cdev_add` registers. -/
def cdevAlloc (d : CharDriver) : CharDriver :=
  { d with registry := d.registry.reserve, cdev := some d.registry.next }

def cdevAdd (d : CharDriver) : CharDriver :=
  match d.cdev with
  | some number => { d with registry := d.registry.enter .cdev number }
  | none => d

def classCreate (d : CharDriver) (ret : Int) : CharDriver :=
  if ret = 0 then { d with registry := d.registry.create .deviceClass, devClass := some d.registry.next }
  else { d with devClass := none }

def deviceCreate (d : CharDriver) (valid : Bool) : CharDriver :=
  if valid then { d with registry := d.registry.create .device, norDevice := some d.registry.next }
  else { d with norDevice := none }

/-! What has not been registered cannot be deleted through its pointer: the kernel has no defined
outcome then. Only `class_destroy` checks the pointer. -/

def deviceDel (d : CharDriver) : Option CharDriver :=
  (d.registry.drop .device d.norDevice).map fun registry => { d with registry := registry }

def classDestroy (d : CharDriver) : Option CharDriver :=
  match d.devClass with
  | none => some d
  | some number =>
    (d.registry.drop .deviceClass (some number)).map fun registry => { d with registry := registry }

def cdevDel (d : CharDriver) : Option CharDriver :=
  (d.registry.drop .cdev d.cdev).map fun registry => { d with registry := registry }

end CharDriver

/-- The beginning of both probes, which is the same: `some` is what it returns with. -/
def probeChar (o : CharOutcome) (d : CharDriver) : CharDriver × Option Int :=
  let d := d.allocChrdevRegion o.allocChrdevRegion
  if o.cdevAlloc = false then ({ d.unregisterChrdevRegion with cdev := none }, some (-ENOMEM))
  else
    let d := d.cdevAlloc
    if o.cdevAdd ≠ 0 then (d.unregisterChrdevRegion, some (-ENOMEM))
    else
      let d := d.cdevAdd.classCreate o.classCreate
      if o.classCreate ≠ 0 then (d, some o.classCreate)
      else (d.deviceCreate o.deviceCreate, none)

/-! The driver of the QN8006. -/

/-- `ret` is what `cdev_add` has returned. -/
def qn8006Probe (o : CharOutcome) (d : CharDriver) : CharDriver × Int :=
  match probeChar o d with
  | (d, some ret) => (d, ret)
  | (d, none) => (d, 0)

def qn8006Remove (d : CharDriver) : Option CharDriver := do
  let d ← d.deviceDel
  let d ← d.classDestroy
  d.unregisterChrdevRegion.cdevDel

/-! The driver of the BT803. -/

structure Bt803Driver where
  char : CharDriver
  inputDev : Option Nat
  sysDevice : Option Nat
  first : Bool

structure Bt803Outcome where
  char : CharOutcome
  procCreate : Bool
  inputAllocateDevice : Bool
  inputRegisterDevice : Int
  kthreadRun : Bool
  kobjectCreateAndAdd : Bool
  sysfsCreateFile : Int

namespace Bt803Driver

def setRegistry (d : Bt803Driver) (registry : Registry Resource) : Bt803Driver :=
  { d with char := { d.char with registry := registry } }

def createWhen (d : Bt803Driver) (done : Bool) (kind : Resource) : Bt803Driver :=
  d.setRegistry (d.char.registry.createWhen done kind)

/-- The wake lock and the interrupt are objects of their own, which can be entered again. -/
def enterStatic (d : Bt803Driver) (kind : Resource) : Bt803Driver :=
  d.setRegistry (d.char.registry.enter kind 0)

def inputAllocateDevice (d : Bt803Driver) : Bt803Driver :=
  { d.setRegistry d.char.registry.reserve with inputDev := some d.char.registry.next }

def inputRegisterDevice (d : Bt803Driver) (ret : Int) : Bt803Driver :=
  d.setRegistry (match d.inputDev with
    | some number => if ret = 0 then d.char.registry.enter .input number else d.char.registry
    | none => d.char.registry)

def inputUnregisterDevice (d : Bt803Driver) : Option Bt803Driver :=
  (d.char.registry.drop .input d.inputDev).map d.setRegistry

def kobjectCreateAndAdd (d : Bt803Driver) : Bt803Driver :=
  { d.setRegistry (d.char.registry.create .sysfs) with sysDevice := some d.char.registry.next }

/-- `kobject_del` if there is no file for it. -/
def sysfsCreateFile (d : Bt803Driver) (ret : Int) : Bt803Driver :=
  match d.sysDevice with
  | some number => if ret ≠ 0 then d.setRegistry (d.char.registry.remove .sysfs number) else d
  | none => d

end Bt803Driver

/-- The part of the probe that is only gone through until it has succeeded once. -/
def bt803ProbeFirst (o : Bt803Outcome) (d : Bt803Driver) : Bt803Driver × Int :=
  if d.first then
    if o.kobjectCreateAndAdd = false then ({ d with sysDevice := none }, - ENXIO)
    else
      let d := d.kobjectCreateAndAdd.sysfsCreateFile o.sysfsCreateFile
      ({ d.enterStatic .interrupt with first := false }, 0)
  else (d, 0)

/-- The probe from the proc entry on. -/
def bt803ProbeRest (o : Bt803Outcome) (d : Bt803Driver) : Bt803Driver × Int :=
  let d := d.createWhen o.procCreate .proc
  if o.inputAllocateDevice = false then ({ d with inputDev := none }, -ENOMEM)
  else
    let d := d.inputAllocateDevice.inputRegisterDevice o.inputRegisterDevice
    let d := (d.enterStatic .wakeLock).createWhen o.kthreadRun .thread
    bt803ProbeFirst o d

def bt803Probe (o : Bt803Outcome) (d : Bt803Driver) : Bt803Driver × Int :=
  match probeChar o.char d.char with
  | (char, some ret) => ({ d with char := char }, ret)
  | (char, none) => bt803ProbeRest o { d with char := char }

def bt803Remove (d : Bt803Driver) : Option Bt803Driver := do
  let char ← d.char.deviceDel
  let char ← char.classDestroy
  let char ← char.cdevDel
  { d with char := char.unregisterChrdevRegion }.inputUnregisterDevice

/-! Any driver, over runs of probes and removals, and what its `remove` has to undo. -/

/-- A driver of the platform bus: `probe` with the results of its calls, and `remove`, which may
have no defined outcome. -/
structure PlatformDriver (δ ω : Type) where
  probe : ω → δ → δ × Int
  remove : δ → Option δ
  registry : δ → Registry Resource

inductive Action (ω : Type) where
  | probe (outcome : ω)
  | remove

namespace PlatformDriver
variable {δ ω : Type} (driver : PlatformDriver δ ω)

def Step (d : δ) : Action ω → δ → Prop
  | .probe o, d' => (driver.probe o d).1 = d'
  | .remove, d' => driver.remove d = some d'

/-- A probe that fails leaves the registered objects as they were, and one that succeeds can be
undone by `remove`. -/
def Restores (d : δ) : Action ω → Prop
  | .probe o =>
    ((driver.probe o d).2 ≠ 0 → (driver.registry (driver.probe o d).1).held = (driver.registry d).held) ∧
    ((driver.probe o d).2 = 0 → ∃ d', driver.remove (driver.probe o d).1 = some d' ∧
      (driver.registry d').held = (driver.registry d).held)
  | .remove => True

variable {driver} {d : δ} {o : ω}

theorem restores_failed (failed : (driver.probe o d).2 ≠ 0) : driver.Restores d (.probe o) ↔
    (driver.registry (driver.probe o d).1).held = (driver.registry d).held := by
  simp [Restores, failed]

theorem restores_done (done : (driver.probe o d).2 = 0) : driver.Restores d (.probe o) ↔
    ∃ d', driver.remove (driver.probe o d).1 = some d' ∧
      (driver.registry d').held = (driver.registry d).held := by
  simp [Restores, done]

/-- A probe that is to be undone, where `remove` has an outcome. -/
theorem restores_removed {d' : δ} (done : (driver.probe o d).2 = 0)
    (removed : driver.remove (driver.probe o d).1 = some d') : driver.Restores d (.probe o) ↔
      (driver.registry d').held = (driver.registry d).held := by
  rw [restores_done done]
  constructor
  · intro some
    obtain ⟨d'', removed', same⟩ := some
    obtain rfl := Option.some.inj (removed.symm.trans removed')
    exact same
  · intro same
    exact ⟨d', removed, same⟩

end PlatformDriver

def qn8006Driver : PlatformDriver CharDriver CharOutcome := ⟨qn8006Probe, qn8006Remove, (·.registry)⟩

def bt803Driver : PlatformDriver Bt803Driver Bt803Outcome :=
  ⟨bt803Probe, bt803Remove, (·.char.registry)⟩

def CharDriver.initial : CharDriver := ⟨⟨∅, 1⟩, 0, none, none, none⟩

def Bt803Driver.initial : Bt803Driver := ⟨.initial, none, none, true⟩

/-- A new device number has been allocated, or the one that is unregistered in its place is not
registered. -/
def RegionSafe (o : CharOutcome) (d : CharDriver) : Prop :=
  o.allocChrdevRegion = 0 ∨ (Resource.region, d.devno) ∉ d.registry.held

def CharOutcome.Added (o : CharOutcome) : Prop := o.cdevAlloc = true ∧ o.cdevAdd = 0

def Qn8006Ready (d : CharDriver) : Action CharOutcome → Prop
  | .probe o => RegionSafe o d ∧ (o.Added → o.classCreate = 0 ∧ o.deviceCreate = true)
  | .remove => True

def Bt803Ready (d : Bt803Driver) : Action Bt803Outcome → Prop
  | .probe o => RegionSafe o.char d.char ∧ (o.char.Added → d.first = false ∧
      o.char.classCreate = 0 ∧ o.char.deviceCreate = true ∧ o.inputAllocateDevice = true ∧
      o.inputRegisterDevice = 0 ∧ o.procCreate = false ∧ o.kthreadRun = false)
  | .remove => True

end Yika.Probe
