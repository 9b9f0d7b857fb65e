import Yika.Probe.CharDevice

/-! Which probes leave nothing behind when they fail, and can be undone when they do not. -/

namespace Yika.Probe
open Program

/-! The driver of the QN8006. -/

section
variable {d d' : CharDriver} {o : CharOutcome}

theorem qn8006Remove_registered {device devClass cdev : Nat} (node : d.norDevice = some device)
    (class' : d.devClass = some devClass) (char : d.cdev = some cdev)
    (heldDevice : (.device, device) ∈ d.registry.held)
    (heldClass : (.deviceClass, devClass) ∈ d.registry.held) (heldCdev : (.cdev, cdev) ∈ d.registry.held) :
    qn8006Remove d = some { d with registry := (((d.registry.remove .device device).remove .deviceClass
      devClass).remove .region d.devno).remove .cdev cdev } := by
  simp [qn8006Remove, CharDriver.deviceDel, CharDriver.classDestroy, CharDriver.cdevDel,
    CharDriver.unregisterChrdevRegion, Registry.drop, Registry.remove, node, class', char, heldDevice,
    heldClass, heldCdev]

theorem qn8006Probe_char : qn8006Probe o d = ((probeChar o d).1, (probeChar o d).2.getD 0) := by
  unfold qn8006Probe
  split
  next same => rw [same]; rfl
  next same => rw [same]; rfl

/-- Removing what has been attached leaves what was there, without the device number. -/
theorem attached_removed {before : CharDriver} (attached : Attached before true d)
    (numbered : before.registry.Numbered) : ∃ d', qn8006Remove d = some d' ∧
      d'.registry.held = before.unregisterChrdevRegion.registry.held := by
  have heldDevice := (attached.held (.device, before.registry.next + 2)).mpr (by simp)
  have heldClass := (attached.held (.deviceClass, before.registry.next + 1)).mpr (by simp)
  have heldCdev := (attached.held (.cdev, before.registry.next)).mpr (by simp)
  refine ⟨_, qn8006Remove_registered attached.norDevice attached.devClass attached.cdev heldDevice
    heldClass heldCdev, ?_⟩
  have noDevice := numbered.unused .device (Nat.le_add_right before.registry.next 2)
  have noClass := numbered.unused .deviceClass (Nat.le_add_right before.registry.next 1)
  have noCdev := numbered.unused .cdev (Nat.le_refl before.registry.next)
  ext object
  simp only [Registry.remove, CharDriver.unregisterChrdevRegion, Finset.mem_erase, attached.held,
    attached.devno]
  grind

theorem qn8006_restores_iff (numbered : d.registry.Numbered) (action : Action CharOutcome) :
    qn8006Driver.Restores d action ↔ Qn8006Ready d action := by
  cases action with
  | remove => exact Iff.rfl
  | probe o =>
    have probe : qn8006Driver.probe o d = ((probeChar o d).1, (probeChar o d).2.getD 0) :=
      qn8006Probe_char
    show qn8006Driver.Restores d (.probe o) ↔ RegionSafe o d ∧ _
    by_cases added : o.Added
    · by_cases created : o.classCreate = 0
      · obtain ⟨ret, attached⟩ := @probeChar_attached d o added created
        have done : (qn8006Driver.probe o d).2 = 0 := by simp [probe, ret]
        cases node : o.deviceCreate with
        | false =>
          rw [node] at attached
          have gone : qn8006Remove (probeChar o d).1 = none := by
            simp [qn8006Remove, CharDriver.deviceDel, Registry.drop, attached.norDevice]
          rw [PlatformDriver.restores_done done, probe]
          simp [qn8006Driver, gone, added]
        | true =>
          rw [node] at attached
          obtain ⟨d', removed, held⟩ := attached_removed attached (allocChrdevRegion_numbered numbered)
          have region : d'.registry.held = d.registry.held ↔ RegionSafe o d := by
            rw [held, region_undone numbered]
          have undone : qn8006Driver.remove (qn8006Driver.probe o d).1 = some d' := by
            rw [probe]
            exact removed
          rw [PlatformDriver.restores_removed done undone, and_iff_left fun _ => ⟨created, rfl⟩]
          exact region
      · obtain ⟨ret, member⟩ := @probeChar_unclassed d o added created
        have failed : (qn8006Driver.probe o d).2 ≠ 0 := by simpa [probe, ret] using created
        rw [PlatformDriver.restores_failed failed, probe]
        exact iff_of_false (not_before numbered allocChrdevRegion_next member)
          fun ready => created (ready.2 added).1
    · obtain ⟨ret, held⟩ := probeChar_early numbered added
      have failed : (qn8006Driver.probe o d).2 ≠ 0 := by simp [probe, ret, ENOMEM]
      rw [PlatformDriver.restores_failed failed, probe, and_iff_left fun reached => absurd reached added]
      exact held

theorem qn8006_numbered (action : Action CharOutcome) (numbered : d.registry.Numbered)
    (step : qn8006Driver.Step d action d') : d'.registry.Numbered := by
  cases action with
  | probe o =>
    obtain rfl : (qn8006Probe o d).1 = d' := step
    rw [qn8006Probe_char]
    exact (probeChar_later o d).numbered numbered
  | remove =>
    have removed : qn8006Remove d = some d' := step
    simp only [qn8006Remove, Option.bind_eq_bind, Option.bind_eq_some_iff] at removed
    obtain ⟨d₁, device, d₂, devClass, cdev⟩ := removed
    have region : Later d₂.registry d₂.unregisterChrdevRegion.registry :=
      later_remove _ (Or.inl rfl) _
    exact ((deviceDel_later device).trans ((classDestroy_later devClass).trans
      (region.trans (cdevDel_later cdev)))).numbered numbered

end

/-! The driver of the BT803. -/

section
variable {d d' : Bt803Driver} {o : Bt803Outcome}

theorem bt803Probe_early {ret : Int} (early : (probeChar o.char d.char).2 = some ret) :
    bt803Probe o d = ({ d with char := (probeChar o.char d.char).1 }, ret) := by
  unfold bt803Probe
  split
  next same => rw [same] at early; cases early; rw [same]
  next same => rw [same] at early; cases early

theorem bt803Probe_rest (late : (probeChar o.char d.char).2 = none) :
    bt803Probe o d = bt803ProbeRest o { d with char := (probeChar o.char d.char).1 } := by
  unfold bt803Probe
  split
  next same => rw [same] at late; cases late
  next same => rw [same]

structure Reached (o : Bt803Outcome) (before d : Bt803Driver) (input thread : Nat) : Prop where
  first : d.first = before.first
  devno : d.char.devno = before.char.devno
  cdev : d.char.cdev = before.char.cdev
  devClass : d.char.devClass = before.char.devClass
  norDevice : d.char.norDevice = before.char.norDevice
  inputDev : d.inputDev = some input
  inputNew : before.char.registry.next ≤ input
  threadNew : before.char.registry.next ≤ thread
  held (object : Resource × Nat) : object ∈ d.char.registry.held ↔
    object ∈ before.char.registry.held ∨
      (o.procCreate = true ∧ object = (.proc, before.char.registry.next)) ∨
      (o.inputRegisterDevice = 0 ∧ object = (.input, input)) ∨ object = (.wakeLock, 0) ∨
      (o.kthreadRun = true ∧ object = (.thread, thread))

theorem bt803ProbeRest_reached (allocated : o.inputAllocateDevice = true) :
    ∃ d' input thread, bt803ProbeRest o d = bt803ProbeFirst o d' ∧ Reached o d d' input thread := by
  unfold bt803ProbeRest
  dsimp only
  rw [if_neg (by simp [allocated])]
  have proc : d.char.registry.next ≤ (d.createWhen o.procCreate .proc).char.registry.next :=
    Registry.next_le_createWhen
  refine ⟨_, (d.createWhen o.procCreate .proc).char.registry.next,
    (d.createWhen o.procCreate .proc).char.registry.next + 1, rfl,
    ⟨rfl, rfl, rfl, rfl, rfl, rfl, proc, Nat.le_succ_of_le proc, ?_⟩⟩
  intro object
  by_cases registered : o.inputRegisterDevice = 0
  · simp only [Bt803Driver.createWhen, Bt803Driver.inputAllocateDevice, Bt803Driver.inputRegisterDevice,
      Bt803Driver.enterStatic, Bt803Driver.setRegistry, registered, if_true, true_and,
      Registry.mem_createWhen, Registry.mem_enter, Registry.enter_next, Registry.reserve_next,
      Registry.reserve_held]
    tauto
  · simp only [Bt803Driver.createWhen, Bt803Driver.inputAllocateDevice, Bt803Driver.inputRegisterDevice,
      Bt803Driver.enterStatic, Bt803Driver.setRegistry, registered, if_false, false_and, false_or,
      Registry.mem_createWhen, Registry.mem_enter, Registry.enter_next, Registry.reserve_next,
      Registry.reserve_held]
    tauto

theorem bt803ProbeFirst_first (first : d.first = true) (state : o.kobjectCreateAndAdd = true) :
    (bt803ProbeFirst o d).2 = 0 ∧
      (Resource.interrupt, 0) ∈ (bt803ProbeFirst o d).1.char.registry.held := by
  unfold bt803ProbeFirst
  rw [if_pos first, if_neg (by simp [state])]
  exact ⟨rfl, Finset.mem_insert_self _ _⟩

theorem bt803Remove_later (removed : bt803Remove d = some d') :
    d'.first = d.first ∧ Later d.char.registry d'.char.registry := by
  simp only [bt803Remove, Option.bind_eq_bind, Option.bind_eq_some_iff] at removed
  obtain ⟨c₁, device, c₂, devClass, c₃, cdev, input⟩ := removed
  obtain ⟨r, dropped, rfl⟩ := Option.map_eq_some_iff.mp input
  have region : Later c₃.registry c₃.unregisterChrdevRegion.registry :=
    later_remove _ (Or.inl rfl) _
  exact ⟨rfl, (deviceDel_later device).trans ((classDestroy_later devClass).trans
    ((cdevDel_later cdev).trans (region.trans (later_drop (Or.inr rfl) dropped))))⟩

theorem bt803Remove_registered {device devClass cdev input : Nat}
    (node : d.char.norDevice = some device) (class' : d.char.devClass = some devClass)
    (char : d.char.cdev = some cdev) (pointer : d.inputDev = some input)
    (heldDevice : (.device, device) ∈ d.char.registry.held)
    (heldClass : (.deviceClass, devClass) ∈ d.char.registry.held)
    (heldCdev : (.cdev, cdev) ∈ d.char.registry.held) :
    bt803Remove d = if (.input, input) ∈ d.char.registry.held then
      some (d.setRegistry ((((d.char.registry.remove .device device).remove .deviceClass
        devClass).remove .cdev cdev).remove .region d.char.devno |>.remove .input input))
    else none := by
  simp [bt803Remove, CharDriver.deviceDel, CharDriver.classDestroy, CharDriver.cdevDel,
    CharDriver.unregisterChrdevRegion, Bt803Driver.inputUnregisterDevice, Bt803Driver.setRegistry,
    Registry.drop, node, class', char, pointer, heldDevice, heldClass, heldCdev]

structure Bt803Driver.Sound (d : Bt803Driver) : Prop where
  numbered : d.char.registry.Numbered
  positive : 0 < d.char.registry.next
  unhandled : d.first = true → (Resource.interrupt, 0) ∉ d.char.registry.held
  locked : d.first = false → (Resource.wakeLock, 0) ∈ d.char.registry.held

/-- What `remove` leaves of a probe that has got to its end, not for the first time. -/
theorem bt803_left {before : CharDriver} {input thread : Nat} (numbered : before.registry.Numbered)
    (attached : Attached before true d.char) (reached : Reached o d d' input thread)
    (locked : (Resource.wakeLock, 0) ∈ before.registry.held) :
    if o.inputRegisterDevice = 0 then ∃ d'', bt803Remove d' = some d'' ∧
      ∀ object, object ∈ d''.char.registry.held ↔
        object ∈ before.unregisterChrdevRegion.registry.held ∨
          (o.procCreate = true ∧ object = (.proc, d.char.registry.next)) ∨
          (o.kthreadRun = true ∧ object = (.thread, thread))
    else bt803Remove d' = none := by
  have later : before.registry.next ≤ d.char.registry.next := attached.next
  have heldDevice := (reached.held (.device, before.registry.next + 2)).mpr
    (Or.inl ((attached.held _).mpr (by simp)))
  have heldClass := (reached.held (.deviceClass, before.registry.next + 1)).mpr
    (Or.inl ((attached.held _).mpr (by simp)))
  have heldCdev := (reached.held (.cdev, before.registry.next)).mpr
    (Or.inl ((attached.held _).mpr (by simp)))
  have noInput := numbered.unused .input (Nat.le_trans later reached.inputNew)
  have noDevice := numbered.unused .device (Nat.le_add_right before.registry.next 2)
  have noClass := numbered.unused .deviceClass (Nat.le_add_right before.registry.next 1)
  have noCdev := numbered.unused .cdev (Nat.le_refl before.registry.next)
  have registered : (Resource.input, input) ∈ d'.char.registry.held ↔ o.inputRegisterDevice = 0 := by
    rw [reached.held, attached.held]
    simp [noInput]
  have result := bt803Remove_registered (reached.norDevice.trans attached.norDevice)
    (reached.devClass.trans attached.devClass) (reached.cdev.trans attached.cdev) reached.inputDev
    heldDevice heldClass heldCdev
  split
  next ok =>
    rw [if_pos (registered.mpr ok)] at result
    refine ⟨_, result, ?_⟩
    intro object
    simp only [Bt803Driver.setRegistry, CharDriver.unregisterChrdevRegion, Registry.mem_remove,
      reached.held, attached.held, reached.devno, attached.devno, ok]
    grind
  next failed =>
    rw [result, if_neg fun member => failed (registered.mp member)]

theorem allocChrdevRegion_grows {c : CharDriver} {ret : Int} {object : Resource × Nat}
    (member : object ∈ c.registry.held) : object ∈ (c.allocChrdevRegion ret).registry.held := by
  unfold CharDriver.allocChrdevRegion
  split
  next => exact Finset.mem_insert_of_mem member
  next => exact member

/-- A probe that leaves an object with a new number, or the interrupt, behind. -/
theorem bt803_unrestored_early (failed : (bt803Driver.probe o d).2 ≠ 0) {object : Resource × Nat}
    (member : object ∈ (bt803Driver.probe o d).1.char.registry.held)
    (absent : object ∉ d.char.registry.held) : ¬bt803Driver.Restores d (.probe o) := by
  rw [PlatformDriver.restores_failed failed]
  intro same
  have held : (bt803Driver.probe o d).1.char.registry.held = d.char.registry.held := same
  exact absent (held ▸ member)

theorem bt803_unrestored_late (done : (bt803Driver.probe o d).2 = 0) {object : Resource × Nat}
    (member : object ∈ (bt803Driver.probe o d).1.char.registry.held) (other : ¬CharKind object.1)
    (other' : object.1 ≠ .input) (absent : object ∉ d.char.registry.held) :
    ¬bt803Driver.Restores d (.probe o) := by
  rw [PlatformDriver.restores_done done]
  intro some
  obtain ⟨d', removed, same⟩ := some
  have kept := ((bt803Remove_later removed).2.kept _ other other').mpr member
  have held : d'.char.registry.held = d.char.registry.held := same
  exact absent (held ▸ kept)

/-- A probe that has got to its end, not for the first time, can be undone when nothing has been
registered that `remove` does not know of. -/
theorem bt803_undone_iff {before : CharDriver} {input thread : Nat} (numbered : before.registry.Numbered)
    (attached : Attached (before.allocChrdevRegion o.char.allocChrdevRegion) true d.char)
    (reached : Reached o d d' input thread) (locked : (Resource.wakeLock, 0) ∈ before.registry.held) :
    (∃ d'', bt803Remove d' = some d'' ∧ d''.char.registry.held = before.registry.held) ↔
      RegionSafe o.char before ∧ o.inputRegisterDevice = 0 ∧ o.procCreate = false ∧
        o.kthreadRun = false := by
  have left := bt803_left (allocChrdevRegion_numbered numbered) attached reached
    (allocChrdevRegion_grows locked)
  split at left
  next ok =>
    obtain ⟨d'', removed, left⟩ := left
    have only (proc : o.procCreate = false) (started : o.kthreadRun = false) :
        d''.char.registry.held = (before.allocChrdevRegion
          o.char.allocChrdevRegion).unregisterChrdevRegion.registry.held := by
      ext object
      simp [left, proc, started]
    constructor
    · intro restores
      obtain ⟨_, removed', same⟩ := restores
      obtain rfl := Option.some.inj (removed.symm.trans removed')
      have absent (kind : Resource) (number : Nat)
          (later : (before.allocChrdevRegion o.char.allocChrdevRegion).registry.next ≤ number) :
          (kind, number) ∉ d''.char.registry.held :=
        same ▸ numbered.unused kind (Nat.le_trans allocChrdevRegion_next later)
      have proc : o.procCreate = false := by
        by_contra created
        refine absent .proc _ attached.next ((left _).mpr (Or.inr (Or.inl ⟨?_, rfl⟩)))
        simpa using created
      have started : o.kthreadRun = false := by
        by_contra started
        refine absent .thread thread (Nat.le_trans attached.next reached.threadNew)
          ((left _).mpr (Or.inr (Or.inr ⟨?_, rfl⟩)))
        simpa using started
      exact ⟨(region_undone numbered).mp ((only proc started).symm.trans same), ok, proc, started⟩
    · intro ready
      obtain ⟨safe, _, proc, started⟩ := ready
      exact ⟨d'', removed, (only proc started).trans ((region_undone numbered).mpr safe)⟩
  next failed => simp [left, failed]

/-- The character device is registered with its class: what else has to go well. -/
theorem bt803_attached_iff (sound : d.Sound)
    (late : (probeChar o.char d.char).2 = none)
    (attached : Attached (d.char.allocChrdevRegion o.char.allocChrdevRegion) o.char.deviceCreate
      (probeChar o.char d.char).1) :
    bt803Driver.Restores d (.probe o) ↔ RegionSafe o.char d.char ∧ d.first = false ∧
      o.char.deviceCreate = true ∧ o.inputAllocateDevice = true ∧ o.inputRegisterDevice = 0 ∧
      o.procCreate = false ∧ o.kthreadRun = false := by
  have rest : bt803Driver.probe o d = _ := bt803Probe_rest late
  have cdev := (attached.held (.cdev, _)).mpr (Or.inr (Or.inl rfl))
  have newer : d.char.registry.next ≤
      (d.char.allocChrdevRegion o.char.allocChrdevRegion).registry.next := allocChrdevRegion_next
  have noCdev := sound.numbered.unused .cdev newer
  cases allocated : o.inputAllocateDevice with
  | false =>
    have result : bt803ProbeRest o { d with char := (probeChar o.char d.char).1 } =
        ({ ({ d with char := (probeChar o.char d.char).1 } : Bt803Driver).createWhen o.procCreate
          .proc with inputDev := none }, -ENOMEM) := by
      simp [bt803ProbeRest, allocated]
    rw [result] at rest
    refine iff_of_false (bt803_unrestored_early (by simp [rest, ENOMEM]) ?_ noCdev) (by simp)
    rw [rest]
    exact Registry.mem_createWhen.mpr (Or.inr cdev)
  | true =>
    obtain ⟨d₂, input, thread, finish, reached⟩ := bt803ProbeRest_reached allocated
    rw [finish] at rest
    cases first : d.first with
    | true =>
      have first₂ : d₂.first = true := reached.first.trans first
      refine iff_of_false ?_ (by simp)
      cases state : o.kobjectCreateAndAdd with
      | false =>
        have result : bt803ProbeFirst o d₂ = ({ d₂ with sysDevice := none }, - ENXIO) := by
          simp [bt803ProbeFirst, first₂, state]
        rw [result] at rest
        refine bt803_unrestored_early (by simp [rest, ENXIO]) ?_ noCdev
        rw [rest]
        exact (reached.held _).mpr (Or.inl cdev)
      | true =>
        obtain ⟨done, interrupt⟩ := bt803ProbeFirst_first first₂ state
        rw [← rest] at done interrupt
        exact bt803_unrestored_late done interrupt (by simp [CharKind]) (by simp)
          (sound.unhandled first)
    | false =>
      have first₂ : d₂.first = false := reached.first.trans first
      have result : bt803ProbeFirst o d₂ = (d₂, 0) := by simp [bt803ProbeFirst, first₂]
      rw [result] at rest
      rw [PlatformDriver.restores_done (by rw [rest]), rest]
      show (∃ d', bt803Remove d₂ = some d' ∧ d'.char.registry.held = d.char.registry.held) ↔ _
      cases node : o.char.deviceCreate with
      | false =>
        rw [node] at attached
        have pointer : d₂.char.norDevice = none := reached.norDevice.trans attached.norDevice
        have gone : bt803Remove d₂ = none := by
          simp [bt803Remove, CharDriver.deviceDel, Registry.drop, pointer]
        simp [gone]
      | true =>
        rw [node] at attached
        rw [bt803_undone_iff sound.numbered attached reached (sound.locked first)]
        simp

theorem bt803_restores_iff (sound : d.Sound) (action : Action Bt803Outcome) :
    bt803Driver.Restores d action ↔ Bt803Ready d action := by
  cases action with
  | remove => exact Iff.rfl
  | probe o =>
    show bt803Driver.Restores d (.probe o) ↔ RegionSafe o.char d.char ∧ _
    by_cases added : o.char.Added
    · by_cases created : o.char.classCreate = 0
      · obtain ⟨late, attached⟩ := @probeChar_attached d.char o.char added created
        rw [bt803_attached_iff sound late attached]
        tauto
      · obtain ⟨ret, member⟩ := @probeChar_unclassed d.char o.char added created
        have result : bt803Driver.probe o d = _ := bt803Probe_early ret
        refine iff_of_false ?_ fun ready => created (ready.2 added).2.1
        apply bt803_unrestored_early (by rwa [result]) (by rwa [result])
        exact sound.numbered.unused .cdev allocChrdevRegion_next
    · obtain ⟨ret, held⟩ := probeChar_early sound.numbered added
      have result : bt803Driver.probe o d = _ := bt803Probe_early ret
      have failed : (bt803Driver.probe o d).2 ≠ 0 := by simp [result, ENOMEM]
      rw [PlatformDriver.restores_failed failed, result, and_iff_left fun reached => absurd reached added]
      exact held

/-! The invariant of the BT803 driver. -/

theorem Bt803Driver.Sound.setChar {c : CharDriver} (sound : d.Sound)
    (later : Later d.char.registry c.registry) : ({ d with char := c } : Bt803Driver).Sound where
  numbered := later.numbered sound.numbered
  positive := Nat.lt_of_lt_of_le sound.positive later.next
  unhandled first := by
    rw [later.kept _ (by simp [CharKind]) (by simp)]
    exact sound.unhandled first
  locked first := by
    rw [later.kept _ (by simp [CharKind]) (by simp)]
    exact sound.locked first

/-- A step of the probe that adds no interrupt and takes no wake lock away. -/
structure Adds (before after : Registry Resource) : Prop where
  numbered : before.Numbered → after.Numbered
  next : before.next ≤ after.next
  unhandled : (Resource.interrupt, 0) ∈ after.held → (Resource.interrupt, 0) ∈ before.held
  locked : (Resource.wakeLock, 0) ∈ before.held → (Resource.wakeLock, 0) ∈ after.held

theorem Adds.trans {r₁ r₂ r₃ : Registry Resource} (first : Adds r₁ r₂) (second : Adds r₂ r₃) :
    Adds r₁ r₃ where
  numbered numbered := second.numbered (first.numbered numbered)
  next := Nat.le_trans first.next second.next
  unhandled member := first.unhandled (second.unhandled member)
  locked member := second.locked (first.locked member)

theorem Adds.sound {r : Registry Resource} (adds : Adds d.char.registry r) (sound : d.Sound) :
    (d.setRegistry r).Sound where
  numbered := adds.numbered sound.numbered
  positive := Nat.lt_of_lt_of_le sound.positive adds.next
  unhandled first member := sound.unhandled first (adds.unhandled member)
  locked first := adds.locked (sound.locked first)

theorem adds_reserve (r : Registry Resource) : Adds r r.reserve :=
  ⟨fun numbered => numbered.reserve, Nat.le_succ _, id, id⟩

theorem adds_enter {r : Registry Resource} {kind : Resource} {number : Nat}
    (other : kind ≠ .interrupt) (used : number < r.next) : Adds r (r.enter kind number) := by
  refine ⟨fun numbered => numbered.enter kind used, Nat.le_refl _, fun member => ?_, fun member =>
    Registry.mem_enter.mpr (Or.inr member)⟩
  obtain same | before := Registry.mem_enter.mp member
  · exact absurd (congrArg Prod.fst same).symm other
  · exact before

theorem adds_createWhen (r : Registry Resource) {kind : Resource} (other : kind ≠ .interrupt)
    (done : Bool) : Adds r (r.createWhen done kind) := by
  unfold Registry.createWhen
  split
  next => exact (adds_reserve r).trans (adds_enter other (Nat.lt_succ_self _))
  next => exact ⟨id, Nat.le_refl _, id, id⟩

theorem bt803ProbeFirst_sound (sound : d.Sound)
    (locked : (Resource.wakeLock, 0) ∈ d.char.registry.held) : (bt803ProbeFirst o d).1.Sound := by
  unfold bt803ProbeFirst
  split
  next first =>
    split
    next => exact ⟨sound.numbered, sound.positive, sound.unhandled, sound.locked⟩
    next =>
      have created : Adds d.char.registry d.kobjectCreateAndAdd.char.registry :=
        (adds_reserve _).trans (adds_enter (by simp) (Nat.lt_succ_self _))
      have adds : Adds d.char.registry
          (d.kobjectCreateAndAdd.sysfsCreateFile o.sysfsCreateFile).char.registry := by
        apply created.trans
        show Adds _ ((if o.sysfsCreateFile ≠ 0 then d.kobjectCreateAndAdd.setRegistry _ else _) :
          Bt803Driver).char.registry
        split
        next =>
          refine ⟨fun numbered => numbered.remove _ _, Nat.le_refl _, fun member =>
            (Registry.mem_remove.mp member).2, fun member => Registry.mem_remove.mpr ⟨by simp, member⟩⟩
        next => exact ⟨id, Nat.le_refl _, id, id⟩
      have positive := Nat.lt_of_lt_of_le sound.positive adds.next
      have kept : (Resource.wakeLock, 0) ∈ (((d.kobjectCreateAndAdd.sysfsCreateFile
          o.sysfsCreateFile).enterStatic .interrupt).char.registry).held :=
        Registry.mem_enter.mpr (Or.inr (adds.locked locked))
      exact ⟨(adds.numbered sound.numbered).enter _ positive, positive, fun first => (by cases first),
        fun _ => kept⟩
  next => exact sound

theorem bt803ProbeRest_sound (sound : d.Sound) : (bt803ProbeRest o d).1.Sound := by
  unfold bt803ProbeRest
  dsimp only
  have proc : (d.createWhen o.procCreate .proc).Sound := (adds_createWhen _ (by simp) _).sound sound
  split
  next => exact ⟨proc.numbered, proc.positive, proc.unhandled, proc.locked⟩
  next =>
    have allocated : (d.createWhen o.procCreate .proc).inputAllocateDevice.Sound := by
      have reserved := (adds_reserve _).sound proc
      exact ⟨reserved.numbered, reserved.positive, reserved.unhandled, reserved.locked⟩
    have registered : ((d.createWhen o.procCreate .proc).inputAllocateDevice.inputRegisterDevice
        o.inputRegisterDevice).Sound := by
      refine Adds.sound ?_ allocated
      show Adds _ (if o.inputRegisterDevice = 0 then _ else _)
      split
      next => exact adds_enter (by simp) (Nat.lt_succ_self _)
      next => exact ⟨id, Nat.le_refl _, id, id⟩
    generalize (d.createWhen o.procCreate .proc).inputAllocateDevice.inputRegisterDevice
      o.inputRegisterDevice = d₁ at registered
    have lock : Adds d₁.char.registry (d₁.char.registry.enter .wakeLock 0) :=
      adds_enter (by simp) registered.positive
    have thread := @adds_createWhen (d₁.char.registry.enter .wakeLock 0) .thread (by simp) o.kthreadRun
    apply bt803ProbeFirst_sound ((lock.trans thread).sound registered)
    exact thread.locked (Finset.mem_insert_self _ _)

theorem bt803_sound (action : Action Bt803Outcome) (sound : d.Sound)
    (step : bt803Driver.Step d action d') : d'.Sound := by
  cases action with
  | probe o =>
    obtain rfl : (bt803Probe o d).1 = d' := step
    have char : ({ d with char := (probeChar o.char d.char).1 } : Bt803Driver).Sound :=
      sound.setChar (probeChar_later o.char d.char)
    cases result : (probeChar o.char d.char).2 with
    | some ret =>
      rw [bt803Probe_early result]
      exact char
    | none =>
      rw [bt803Probe_rest result]
      exact bt803ProbeRest_sound char
  | remove =>
    obtain ⟨first, later⟩ := bt803Remove_later step
    have moved := sound.setChar later
    exact ⟨moved.numbered, moved.positive, fun unhandled => moved.unhandled (first ▸ unhandled),
      fun locked => moved.locked (first ▸ locked)⟩

end

theorem initial_numbered : CharDriver.initial.registry.Numbered := fun _ member => by
  simp [CharDriver.initial] at member

theorem initial_sound : Bt803Driver.initial.Sound :=
  ⟨initial_numbered, Nat.one_pos, fun _ => by simp [Bt803Driver.initial, CharDriver.initial],
    fun first => by cases first⟩

/-- For either driver and any calls of `probe` and `remove`: every failed probe leaves nothing behind
and every other one can be undone exactly when the results of the kernel's calls are as they have
to be. -/
theorem probes_restore_iff (charActions : List (Action CharOutcome)) (char : CharDriver)
    (actions : List (Action Bt803Outcome)) (d : Bt803Driver) :
    (Path (fun d action d' => qn8006Driver.Step d action d' ∧ qn8006Driver.Restores d action)
        .initial charActions char ↔
      Path (fun d action d' => qn8006Driver.Step d action d' ∧ Qn8006Ready d action)
        .initial charActions char) ∧
      (Path (fun d action d' => bt803Driver.Step d action d' ∧ bt803Driver.Restores d action)
          .initial actions d ↔
        Path (fun d action d' => bt803Driver.Step d action d' ∧ Bt803Ready d action)
          .initial actions d) := by
  constructor
  · have agree (d : CharDriver) (action : Action CharOutcome) (d' : CharDriver)
        (numbered : d.registry.Numbered) (_ : qn8006Driver.Step d action d') :
        qn8006Driver.Restores d action ↔ Qn8006Ready d action := qn8006_restores_iff numbered action
    have keeps (d : CharDriver) (action : Action CharOutcome) (d' : CharDriver)
        (numbered : d.registry.Numbered) (step : qn8006Driver.Step d action d')
        (_ : qn8006Driver.Restores d action) : d'.registry.Numbered :=
      qn8006_numbered action numbered step
    exact path_congr agree keeps initial_numbered
  · have agree (d : Bt803Driver) (action : Action Bt803Outcome) (d' : Bt803Driver) (sound : d.Sound)
        (_ : bt803Driver.Step d action d') :
        bt803Driver.Restores d action ↔ Bt803Ready d action := bt803_restores_iff sound action
    have keeps (d : Bt803Driver) (action : Action Bt803Outcome) (d' : Bt803Driver) (sound : d.Sound)
        (step : bt803Driver.Step d action d') (_ : bt803Driver.Restores d action) : d'.Sound :=
      bt803_sound action sound step
    exact path_congr agree keeps initial_sound

/-- A QN8006 probe without a class leaves the device number and the character device behind; a
BT803 probe in which every call succeeds is not undone. -/
theorem probes_leave :
    ¬qn8006Driver.Restores .initial (.probe ⟨0, true, 0, -12, true⟩) ∧
      ¬bt803Driver.Restores .initial (.probe ⟨⟨0, true, 0, 0, true⟩, true, true, 0, true, true, 0⟩) := by
  constructor
  · intro restores
    exact absurd (restores.1 (by decide)) (by decide)
  · intro restores
    obtain ⟨d', removed, same⟩ := restores.2 (by decide)
    have handled : ((bt803Driver.remove (bt803Driver.probe
        ⟨⟨0, true, 0, 0, true⟩, true, true, 0, true, true, 0⟩ .initial).1).map fun d =>
        decide ((Resource.interrupt, 0) ∈ d.char.registry.held)) = some true := by decide
    rw [removed] at handled
    have member : (Resource.interrupt, 0) ∈ d'.char.registry.held := by simpa using handled
    rw [show d'.char.registry.held = ∅ from same] at member
    cases member

end Yika.Probe
