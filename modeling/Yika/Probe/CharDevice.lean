import Yika.Probe.Drivers

/-! What the beginning that both probes share does to the registry. -/

namespace Yika.Probe
open Program

/-- The objects of the character device, which both drivers have. -/
def CharKind (kind : Resource) : Prop :=
  kind = .region ∨ kind = .cdev ∨ kind = .deviceClass ∨ kind = .device

/-! What the calls do to the registry. -/

structure Later (before after : Registry Resource) : Prop where
  numbered : before.Numbered → after.Numbered
  next : before.next ≤ after.next
  kept (object : Resource × Nat) : ¬CharKind object.1 → object.1 ≠ .input →
    (object ∈ after.held ↔ object ∈ before.held)

theorem Later.trans {r₁ r₂ r₃ : Registry Resource} (first : Later r₁ r₂) (second : Later r₂ r₃) :
    Later r₁ r₃ where
  numbered numbered := second.numbered (first.numbered numbered)
  next := Nat.le_trans first.next second.next
  kept object other other' := (second.kept object other other').trans (first.kept object other other')

theorem Later.refl (r : Registry Resource) : Later r r := ⟨id, Nat.le_refl _, fun _ _ _ => Iff.rfl⟩

theorem later_reserve (r : Registry Resource) : Later r r.reserve :=
  ⟨fun numbered => numbered.reserve, Nat.le_succ _, fun _ _ _ => Iff.rfl⟩

theorem later_remove (r : Registry Resource) {kind : Resource} (char : CharKind kind) (number : Nat) :
    Later r (r.remove kind number) := by
  refine ⟨fun numbered => numbered.remove kind number, Nat.le_refl _, fun object other _ => ?_⟩
  rw [Registry.mem_remove]
  exact and_iff_right fun same => other (by rwa [congrArg Prod.fst same])

theorem later_enter (r : Registry Resource) {kind : Resource} (char : CharKind kind) {number : Nat}
    (used : number < r.next) : Later r (r.enter kind number) := by
  refine ⟨fun numbered => numbered.enter kind used, Nat.le_refl _, fun object other _ => ?_⟩
  rw [Registry.mem_enter]
  exact or_iff_right fun same => other (by rwa [congrArg Prod.fst same])

theorem later_create (r : Registry Resource) {kind : Resource} (char : CharKind kind) :
    Later r (r.create kind) :=
  (later_reserve r).trans (later_enter r.reserve char (Nat.lt_succ_self _))

theorem later_drop {r r' : Registry Resource} {kind : Resource} (char : CharKind kind ∨ kind = .input)
    {pointer : Option Nat} (dropped : r.drop kind pointer = some r') : Later r r' := by
  refine ⟨fun numbered => numbered.drop dropped, Nat.le_of_eq (Registry.drop_next dropped).symm, ?_⟩
  intro object other other'
  apply Registry.drop_keeps dropped
  intro same
  obtain char | input := char
  · exact other (by rwa [same])
  · exact other' (same.trans input)

section
variable {d : CharDriver} {o : CharOutcome} {ret : Int}

theorem allocChrdevRegion_numbered (numbered : d.registry.Numbered) :
    (d.allocChrdevRegion ret).registry.Numbered := by
  unfold CharDriver.allocChrdevRegion
  split
  next => exact numbered.create _
  next => exact numbered

/-- The device number can be given back exactly when it is safe to. -/
theorem region_undone (numbered : d.registry.Numbered) :
    (d.allocChrdevRegion o.allocChrdevRegion).unregisterChrdevRegion.registry.held =
      d.registry.held ↔ RegionSafe o d := by
  unfold CharDriver.allocChrdevRegion RegionSafe
  split
  next allocated =>
    exact iff_of_true (Finset.erase_insert (numbered.unused _ (Nat.le_refl _))) (Or.inl allocated)
  next failed =>
    rw [or_iff_right failed]
    exact Finset.erase_eq_self

/-- What the beginning of a probe leaves where it stops early. -/
theorem probeChar_early (numbered : d.registry.Numbered) (early : ¬o.Added) :
    (probeChar o d).2 = some (-ENOMEM) ∧
      ((probeChar o d).1.registry.held = d.registry.held ↔ RegionSafe o d) := by
  rw [← region_undone numbered]
  unfold probeChar
  dsimp only
  cases allocated : o.cdevAlloc with
  | false => exact ⟨rfl, Iff.rfl⟩
  | true =>
    have failed : o.cdevAdd ≠ 0 := fun added => early ⟨allocated, added⟩
    rw [if_neg (by simp), if_pos failed]
    exact ⟨rfl, Iff.rfl⟩

/-- The character device has been registered with the number `number`, its class with the next
one and, if there is one, its device node with the one after that. -/
structure Attached (before : CharDriver) (node : Bool) (d : CharDriver) : Prop where
  devno : d.devno = before.devno
  cdev : d.cdev = some before.registry.next
  devClass : d.devClass = some (before.registry.next + 1)
  norDevice : d.norDevice = if node then some (before.registry.next + 2) else none
  next : before.registry.next ≤ d.registry.next
  held (object : Resource × Nat) : object ∈ d.registry.held ↔ object ∈ before.registry.held ∨
    object = (.cdev, before.registry.next) ∨ object = (.deviceClass, before.registry.next + 1) ∨
      (node = true ∧ object = (.device, before.registry.next + 2))

theorem probeChar_attached (added : o.Added) (created : o.classCreate = 0) :
    (probeChar o d).2 = none ∧
      Attached (d.allocChrdevRegion o.allocChrdevRegion) o.deviceCreate (probeChar o d).1 := by
  unfold probeChar
  generalize d.allocChrdevRegion o.allocChrdevRegion = d₁
  dsimp only
  rw [if_neg (by simp [added.1]), if_neg (by simp [added.2]), if_neg (by simp [created])]
  have next : d₁.cdevAlloc.cdevAdd.classCreate o.classCreate = { d₁ with
      registry := ((d₁.registry.reserve.enter .cdev d₁.registry.next)).create .deviceClass
      cdev := some d₁.registry.next
      devClass := some (d₁.registry.next + 1) } := by
    unfold CharDriver.classCreate
    rw [if_pos created]
    rfl
  rw [next]
  cases o.deviceCreate with
  | false =>
    refine ⟨rfl, rfl, rfl, rfl, rfl, ?_, ?_⟩
    · show d₁.registry.next ≤ d₁.registry.next + 2
      omega
    · intro object
      simp [CharDriver.deviceCreate, Registry.create, Registry.reserve, Registry.enter]
      tauto
  | true =>
    refine ⟨rfl, rfl, rfl, rfl, rfl, ?_, ?_⟩
    · show d₁.registry.next ≤ d₁.registry.next + 3
      omega
    · intro object
      simp [CharDriver.deviceCreate, Registry.create, Registry.reserve, Registry.enter]
      tauto

/-- Without a class the character device is left behind. -/
theorem probeChar_unclassed (added : o.Added) (failed : o.classCreate ≠ 0) :
    (probeChar o d).2 = some o.classCreate ∧
      (Resource.cdev, (d.allocChrdevRegion o.allocChrdevRegion).registry.next) ∈
        (probeChar o d).1.registry.held := by
  unfold probeChar
  generalize d.allocChrdevRegion o.allocChrdevRegion = d₁
  dsimp only
  rw [if_neg (by simp [added.1]), if_neg (by simp [added.2]), if_pos failed]
  refine ⟨rfl, ?_⟩
  unfold CharDriver.classCreate
  rw [if_neg failed]
  exact Finset.mem_insert_self _ _

theorem allocChrdevRegion_next : d.registry.next ≤ (d.allocChrdevRegion ret).registry.next := by
  unfold CharDriver.allocChrdevRegion
  split
  next => exact Nat.le_succ _
  next => exact Nat.le_refl _

theorem not_before {kind : Resource} {number : Nat} {held : Finset (Resource × Nat)}
    (numbered : d.registry.Numbered) (later : d.registry.next ≤ number)
    (member : (kind, number) ∈ held) : held ≠ d.registry.held := fun same =>
  numbered.unused kind later (same ▸ member)

end

section
variable {d d' : CharDriver}

theorem probeChar_later (o : CharOutcome) (d : CharDriver) :
    Later d.registry (probeChar o d).1.registry := by
  have region : CharKind .region := Or.inl rfl
  have allocated : Later d.registry (d.allocChrdevRegion o.allocChrdevRegion).registry := by
    unfold CharDriver.allocChrdevRegion
    split
    next => exact later_create _ region
    next => exact .refl _
  apply allocated.trans
  unfold probeChar
  generalize d.allocChrdevRegion o.allocChrdevRegion = d₁
  dsimp only
  split
  next => exact later_remove _ region _
  next =>
    have reserved : Later d₁.registry d₁.cdevAlloc.registry := later_reserve _
    split
    next => exact reserved.trans (later_remove _ region _)
    next =>
      have added : Later d₁.registry d₁.cdevAlloc.cdevAdd.registry :=
        reserved.trans (later_enter _ (by simp [CharKind]) (Nat.lt_succ_self _))
      have created : Later d₁.registry (d₁.cdevAlloc.cdevAdd.classCreate o.classCreate).registry := by
        apply added.trans
        unfold CharDriver.classCreate
        split
        next => exact later_create _ (by simp [CharKind])
        next => exact .refl _
      split
      next => exact created
      next =>
        apply created.trans
        unfold CharDriver.deviceCreate
        split
        next => exact later_create _ (by simp [CharKind])
        next => exact .refl _

theorem deviceDel_later (deleted : d.deviceDel = some d') : Later d.registry d'.registry := by
  obtain ⟨r, dropped, rfl⟩ := Option.map_eq_some_iff.mp deleted
  exact later_drop (by simp [CharKind]) dropped

theorem classDestroy_later (deleted : d.classDestroy = some d') : Later d.registry d'.registry := by
  unfold CharDriver.classDestroy at deleted
  split at deleted
  next => cases deleted; exact .refl _
  next =>
    obtain ⟨r, dropped, rfl⟩ := Option.map_eq_some_iff.mp deleted
    exact later_drop (by simp [CharKind]) dropped

theorem cdevDel_later (deleted : d.cdevDel = some d') : Later d.registry d'.registry := by
  obtain ⟨r, dropped, rfl⟩ := Option.map_eq_some_iff.mp deleted
  exact later_drop (by simp [CharKind]) dropped

end

end Yika.Probe
