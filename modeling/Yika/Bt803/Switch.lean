import Yika.Bt803.KeyEvent

/-! The switch of `bt803_driver.c`: its interrupt flips `cur_bt803_status` and arms the other
level, and the attribute `bt803_status` may be written by anyone. -/

namespace Yika.Bt803
open Program

inductive EintLevel where
  | low
  | high
  deriving DecidableEq

/-- The level that an armed polarity waits for, `EINTF_TRIGGER_LOW` being 0 as an argument of
`mt_eint_set_polarity`. -/
def eintLevel (polarity : BitVec 8) : EintLevel := if polarity = 0 then .low else .high

/-- `polarity` is the last one armed. `notified` are the events, each with the level that raised
its interrupt, the oldest first. -/
structure SwitchState where
  curBt803Status : BitVec 32
  polarity : BitVec 8
  notified : List (McuEvent × EintLevel)
  deriving DecidableEq

/-- After `mt_eint_registration` with `BT803_SWITCH_TYPE`. -/
def SwitchState.registered : SwitchState where
  curBt803Status := 1
  polarity := 0
  notified := []

/-- `isspace` of the kernel. -/
def isspace (c : Char) : Bool :=
  c ∈ [' ', '\t', '\n', '\x0b', '\x0c', '\r', '\xa0']

/-- `sscanf(buf, "%u", &value)`, `none` where it does not return 1. -/
def scanUnsigned (buf : List Char) : Option (BitVec 32) :=
  let digits := (buf.dropWhile isspace).takeWhile Char.isDigit
  if digits = [] then none
  else some (BitVec.ofNat 32 (digits.foldl (fun value c => 10 * value + (c.toNat - '0'.toNat)) 0))

/-- `-EINVAL` -/
def invalid : Int := -22

def bt803StatusInfoStore (s : SwitchState) (buf : List Char) : SwitchState × Int :=
  match scanUnsigned buf with
  | none => (s, invalid)
  | some value => ({ s with curBt803Status := value }, buf.length)

/-- The interrupt of the armed level, with everything that the handler does. -/
def bt803EintHandler (s : SwitchState) : SwitchState :=
  let oldBt803State : BitVec 8 := s.curBt803Status.setWidth 8
  let status : BitVec 32 := if s.curBt803Status = 0 then 1 else 0
  let event : McuEvent := if status ≠ 0 then .wakeup else .sleep
  { curBt803Status := status
    -- for detecting the return to `old_bt803_state`
    polarity := oldBt803State
    notified := s.notified ++ [(event, eintLevel s.polarity)] }

inductive SwitchAction where
  | interrupt
  /-- a write of this text to the attribute -/
  | store (buf : List Char)

def switchStep (s : SwitchState) : SwitchAction → SwitchState
  | .interrupt => bt803EintHandler s
  | .store buf => (bt803StatusInfoStore s buf).1

def SwitchStep (s : SwitchState) (action : SwitchAction) (s' : SwitchState) : Prop :=
  s' = switchStep s action

def McuEvent.level : McuEvent → EintLevel
  | .sleep => .low
  | .wakeup => .high

/-- The armed polarity complements the status, and every event has come from its own level. -/
structure SwitchState.Complements (s : SwitchState) : Prop where
  binary : s.curBt803Status = 0 ∨ s.curBt803Status = 1
  complement : s.polarity.toNat + s.curBt803Status.toNat = 1
  levels : ∀ raised ∈ s.notified, raised.2 = raised.1.level

theorem registered_complements : SwitchState.registered.Complements where
  binary := .inr rfl
  complement := rfl
  levels := by simp [SwitchState.registered]

section
variable {s : SwitchState}

theorem SwitchState.Complements.cases (lockstep : s.Complements) :
    s.curBt803Status = 0 ∧ s.polarity = 1 ∨ s.curBt803Status = 1 ∧ s.polarity = 0 := by
  have complement := lockstep.complement
  obtain zero | one := lockstep.binary
  · rw [zero] at complement
    exact .inl ⟨zero, BitVec.eq_of_toNat_eq complement⟩
  · rw [one] at complement
    exact .inr ⟨one, BitVec.eq_of_toNat_eq (Nat.add_right_cancel complement)⟩

theorem bt803EintHandler_complements (lockstep : s.Complements) :
    (bt803EintHandler s).Complements := by
  obtain ⟨status, polarity⟩ | ⟨status, polarity⟩ := lockstep.cases
  all_goals
    constructor
    · simp [bt803EintHandler, status]
    · simp [bt803EintHandler, status]
    · intro raised member
      obtain earlier | last := List.mem_append.mp member
      · exact lockstep.levels raised earlier
      · rw [List.mem_singleton.mp last, polarity, status]
        rfl

/-- A store that succeeds keeps them complementary only by writing what stands there. -/
theorem stored_complements_iff {value : BitVec 32} (lockstep : s.Complements) :
    ({ s with curBt803Status := value } : SwitchState).Complements ↔
      value = s.curBt803Status := by
  constructor
  · intro next
    apply BitVec.eq_of_toNat_eq
    apply Nat.add_left_cancel (n := s.polarity.toNat)
    calc s.polarity.toNat + value.toNat
        = 1 := next.complement
      _ = s.polarity.toNat + s.curBt803Status.toNat := lockstep.complement.symm
  · intro same
    rw [same]
    exact lockstep

def Unchanging (s : SwitchState) : SwitchAction → Prop
  | .interrupt => True
  | .store buf => ∀ value, scanUnsigned buf = some value → value = s.curBt803Status

theorem switchStep_complements_iff (lockstep : s.Complements) (action : SwitchAction) :
    (switchStep s action).Complements ↔ Unchanging s action := by
  cases action with
  | interrupt => exact iff_of_true (bt803EintHandler_complements lockstep) trivial
  | store buf =>
    simp only [switchStep, bt803StatusInfoStore, Unchanging]
    cases scanUnsigned buf with
    | none => simpa using lockstep
    | some value => simpa [eq_comm] using stored_complements_iff lockstep

end

/-- The polarity complements the status in every state of a run exactly when no store changes
the status. -/
theorem polarity_complements_iff {actions : List SwitchAction} {s : SwitchState} :
    Path (fun s action s' => SwitchStep s action s' ∧ s'.Complements) .registered actions s ↔
      Path (fun s action s' => SwitchStep s action s' ∧ Unchanging s action)
        .registered actions s := by
  have agree (s : SwitchState) (action : SwitchAction) (s' : SwitchState) (lockstep : s.Complements)
      (step : SwitchStep s action s') : s'.Complements ↔ Unchanging s action := by
    rw [step]
    exact switchStep_complements_iff lockstep action
  have keeps (s : SwitchState) (action : SwitchAction) (s' : SwitchState) (_ : s.Complements)
      (_ : SwitchStep s action s') (next : s'.Complements) : s'.Complements := next
  exact path_congr agree keeps registered_complements

/-- A `0` is written while the switch waits for the low level, which then wakes the phone up. -/
theorem wakeup_by_low : ∃ s, Path SwitchStep .registered [.store ['0', '\n'], .interrupt] s ∧
    s.notified = [(.wakeup, .low)] ∧ ¬ s.Complements := by
  have run : Path SwitchStep .registered [.store ['0', '\n'], .interrupt]
      { curBt803Status := 1, polarity := 0, notified := [(.wakeup, .low)] } :=
    .cons rfl (.cons rfl (.nil _))
  refine ⟨_, run, rfl, ?_⟩
  intro lockstep
  cases lockstep.levels (.wakeup, .low) List.mem_cons_self

end Yika.Bt803
