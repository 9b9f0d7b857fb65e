import Yika.Bt803.Switch

/-! The hall switch as a whole: its pin and the interrupt controller, the tasklet
`bt803_eint_handler` access by access with the notification in it, the thread `sendKeyEvent`, and
those who write to the attribute `bt803_status`, in any order. -/

namespace Yika.Bt803
open Program

/-- What `bt803_eint_handler` does next; `old` is its `old_bt803_state`. -/
inductive EintHandler where
  | idle
  /-- `mt_eint_mask(BT803_SWITCH_EINT)` -/
  | mask (old : BitVec 8)
  /-- `cur_bt803_status = !cur_bt803_status`, which reads -/
  | negate (old : BitVec 8)
  /-- and writes -/
  | assign (old : BitVec 8) (value : BitVec 32)
  /-- `if(cur_bt803_status)` -/
  | test (old : BitVec 8)
  /-- `bt803_key_event = event` -/
  | notify (old : BitVec 8) (event : McuEvent)
  /-- `atomic_set(&send_event_flag, 1)` -/
  | raise (old : BitVec 8)
  /-- `mt_eint_set_polarity(BT803_SWITCH_EINT, old_bt803_state)` -/
  | arm (old : BitVec 8)
  /-- `mt_eint_unmask(BT803_SWITCH_EINT)` -/
  | unmask
  deriving DecidableEq

/-- `scheduled` says whether `bt803_tasklet` is to run, and `begun` how often it has begun to. -/
structure Hall where
  pin : EintLevel
  masked : Bool
  scheduled : Bool
  handler : EintHandler
  curBt803Status : BitVec 32
  polarity : BitVec 8
  keys : KeyState
  begun : Nat
  deriving DecidableEq

/-- After the first probe, with the switch in either position. -/
def Hall.registered (pin : EintLevel) : Hall where
  pin := pin
  masked := false
  scheduled := false
  handler := .idle
  curBt803Status := 1
  polarity := 0
  keys := .started
  begun := 0

inductive HallAction where
  /-- the switch moves -/
  | move (pin : EintLevel)
  /-- the level that is armed raises the interrupt: `switch_bt803_eint_handler` -/
  | interrupt
  /-- the next access of `bt803_eint_handler` -/
  | tasklet
  /-- the next step of `sendKeyEvent` -/
  | thread
  /-- a write of this text to the attribute -/
  | store (buf : List Char)
  deriving DecidableEq

def Hall.Due (s : Hall) : Prop := s.pin = eintLevel s.polarity

instance (s : Hall) : Decidable s.Due := inferInstanceAs (Decidable (s.pin = eintLevel s.polarity))

def Hall.tasklet (s : Hall) : Option Hall :=
  match s.handler with
  | .idle =>
    if s.scheduled then some { s with
      scheduled := false
      handler := .mask (s.curBt803Status.setWidth 8)
      begun := s.begun + 1 }
    else none
  | .mask old => some { s with masked := true, handler := .negate old }
  | .negate old => some { s with handler := .assign old (if s.curBt803Status = 0 then 1 else 0) }
  | .assign old value => some { s with curBt803Status := value, handler := .test old }
  | .test old =>
    some { s with handler := .notify old (if s.curBt803Status ≠ 0 then .wakeup else .sleep) }
  | .notify old event =>
    (keyStep s.keys (.storeEvent event)).map fun keys => { s with keys := keys, handler := .raise old }
  | .raise old => (keyStep s.keys .raiseFlag).map fun keys => { s with keys := keys, handler := .arm old }
  | .arm old => some { s with polarity := old, handler := .unmask }
  | .unmask => some { s with masked := false, handler := .idle }

/-- One step of the system. Whether the controller masks the interrupt itself before it calls
`switch_bt803_eint_handler` is left open: it may come again until `mt_eint_mask`. -/
def hallStep (s : Hall) : HallAction → Option Hall
  | .move pin => some { s with pin := pin }
  | .interrupt => if s.masked = false ∧ s.Due then some { s with scheduled := true } else none
  | .tasklet => s.tasklet
  | .thread => (sendKeyEvent s.keys).map fun keys => { s with keys := keys }
  | .store buf => some { s with curBt803Status := (scanUnsigned buf).getD s.curBt803Status }

def HallStep (s : Hall) (action : HallAction) (s' : Hall) : Prop := hallStep s action = some s'

/-- No interrupt is being handled and none is due. -/
structure Hall.Settled (s : Hall) : Prop where
  idle : s.handler = .idle
  unscheduled : s.scheduled = false
  quiet : ¬ s.Due

/-- The action leaves `cur_bt803_status` to the tasklet. -/
def HallAction.Unwritten : HallAction → Prop
  | .store buf => scanUnsigned buf = none
  | _ => True

/-- The status that the position of the switch calls for. -/
def EintLevel.status : EintLevel → BitVec 32
  | .low => 0
  | .high => 1

section
variable {s s' s₁ : Hall} {action : HallAction}

/-- What one step can do: it is one of the tasklet, or a write to the attribute, or it leaves what
the tasklet works on as it is. -/
theorem hallStep_cases (step : HallStep s action s') :
    action = .tasklet ∧ s.tasklet = some s' ∨
      (∃ buf, action = .store buf ∧
        s' = { s with curBt803Status := (scanUnsigned buf).getD s.curBt803Status }) ∨
      action.Unwritten ∧ s'.handler = s.handler ∧ s'.curBt803Status = s.curBt803Status ∧
        s'.polarity = s.polarity ∧ s'.begun = s.begun ∧
        (s'.keys = s.keys ∨ action = .thread ∧ sendKeyEvent s.keys = some s'.keys) := by
  cases action with
  | move pin =>
    cases step
    exact .inr (.inr ⟨trivial, rfl, rfl, rfl, rfl, .inl rfl⟩)
  | interrupt =>
    simp only [HallStep, hallStep, Option.ite_none_right_eq_some, Option.some.injEq] at step
    obtain ⟨_, rfl⟩ := step
    exact .inr (.inr ⟨trivial, rfl, rfl, rfl, rfl, .inl rfl⟩)
  | tasklet => exact .inl ⟨rfl, step⟩
  | thread =>
    simp only [HallStep, hallStep, Option.map_eq_some_iff] at step
    obtain ⟨keys, taken, rfl⟩ := step
    exact .inr (.inr ⟨trivial, rfl, rfl, rfl, rfl, .inr ⟨rfl, taken⟩⟩)
  | store buf => exact .inr (.inl ⟨buf, rfl, (Option.some.inj step).symm⟩)

/-! What the status and the armed polarity have to do with each other. -/

/-- The status is 0 or 1, and a polarity taken from the other one. -/
def Opposes (polarity : BitVec 8) (status : BitVec 32) : Prop :=
  status = 0 ∧ polarity ≠ 0 ∨ status = 1 ∧ polarity = 0

/-- As an `unsigned char` the status is 0 only where it is 0. -/
def Fits (status : BitVec 32) : Prop := status.setWidth 8 = (0 : BitVec 8) → status = 0

theorem Opposes.fits {polarity : BitVec 8} {status : BitVec 32} (opposes : Opposes polarity status) :
    Fits status := by
  obtain ⟨rfl, _⟩ | ⟨rfl, _⟩ := opposes
  · exact fun _ => rfl
  · intro cut
    exact absurd cut (by decide)

theorem opposes_negated {status : BitVec 32} (fits : Fits status) :
    Opposes (status.setWidth 8) (if status = 0 then 1 else 0) := by
  by_cases zero : status = 0
  · subst zero
    exact .inr ⟨rfl, rfl⟩
  · rw [if_neg zero]
    exact .inl ⟨rfl, mt fits zero⟩

theorem fits_negated {status : BitVec 32} : Fits (if status = 0 then 1 else 0) := by
  intro cut
  split at cut
  · exact absurd cut (by decide)
  · next nonzero => rw [if_neg nonzero]

/-- Where the pin is not at the level that a polarity arms, the status opposed to it is that of the pin. -/
theorem Opposes.status_eq {polarity : BitVec 8} {status : BitVec 32} {pin : EintLevel}
    (opposes : Opposes polarity status) (quiet : pin ≠ eintLevel polarity) : status = pin.status := by
  obtain ⟨rfl, armed⟩ | ⟨rfl, rfl⟩ := opposes
  · cases pin with
    | low => rfl
    | high => exact absurd (if_neg armed).symm quiet
  · cases pin with
    | low => exact absurd rfl quiet
    | high => rfl

/-- The tasklet is about to oppose the polarity to the status, or has done so. -/
def Hall.InStep (s : Hall) : Prop :=
  match s.handler with
  | .idle | .unmask => Opposes s.polarity s.curBt803Status
  | .mask old | .negate old => Fits s.curBt803Status ∧ old = s.curBt803Status.setWidth 8
  | .assign old value => Opposes old value
  | .test old | .notify old _ | .raise old | .arm old => Opposes old s.curBt803Status

def Hall.Negated (s : Hall) : Prop :=
  match s.handler with
  | .mask _ | .negate _ => True
  | .assign _ value => Fits value
  | _ => Fits s.curBt803Status

def Hall.Assigns (s : Hall) : Prop := ∀ old value, s.handler = .assign old value → Fits value

/-- Since a state after which nothing is stored: a status that fitted still does; from the second
run of the tasklet on that has begun since then, or the first one if the status fitted, polarity
and status are in step. -/
structure Hall.Since (s₁ s : Hall) : Prop where
  later : s₁.begun ≤ s.begun
  assigns : s.Assigns
  fits : Fits s₁.curBt803Status → Fits s.curBt803Status
  negated : s₁.begun < s.begun → s.Negated
  inStep : s₁.begun < s.begun ∧ Fits s₁.curBt803Status ∨ s₁.begun + 2 ≤ s.begun → s.InStep

theorem Hall.Since.refl (assigns : s.Assigns) : s.Since s where
  later := Nat.le_refl _
  assigns := assigns
  fits := id
  negated := fun later => absurd later (Nat.lt_irrefl _)
  inStep := by
    rintro (⟨later, _⟩ | later)
    · exact absurd later (Nat.lt_irrefl _)
    · omega

structure TaskletKeeps (s s' : Hall) : Prop where
  inStep : s.InStep → s'.InStep
  negated : s.Negated → s'.Negated
  assigns : s'.Assigns
  fits : s.Assigns → Fits s.curBt803Status → Fits s'.curBt803Status
  begun : s'.begun = s.begun ∨ s'.begun = s.begun + 1 ∧ s.handler = .idle ∧
    s'.handler = .mask (s'.curBt803Status.setWidth 8) ∧ s'.curBt803Status = s.curBt803Status

theorem tasklet_keeps (step : s.tasklet = some s') : TaskletKeeps s s' := by
  unfold Hall.tasklet at step
  split at step
  next idle =>
    split at step
    · cases step
      refine ⟨?_, fun _ => trivial, nofun, fun _ => id, .inr ⟨rfl, idle, rfl, rfl⟩⟩
      simp only [Hall.InStep, idle]
      exact fun opposes => ⟨opposes.fits, trivial⟩
    · cases step
  next old mask =>
    cases step
    refine ⟨?_, fun _ => trivial, nofun, fun _ => id, .inl rfl⟩
    simp only [Hall.InStep, mask]
    exact id
  next old negate =>
    cases step
    refine ⟨?_, fun _ => fits_negated, ?_, fun _ => id, .inl rfl⟩
    · simp only [Hall.InStep, negate]
      rintro ⟨fits, rfl⟩
      exact opposes_negated fits
    · intro _ _ same
      cases same
      exact fits_negated
  next old value assign =>
    cases step
    refine ⟨?_, ?_, nofun, fun assigns _ => assigns old value assign, .inl rfl⟩
    · simp only [Hall.InStep, assign]
      exact id
    · simp only [Hall.Negated, assign]
      exact id
  next old test =>
    cases step
    refine ⟨?_, ?_, nofun, fun _ => id, .inl rfl⟩
    · simp only [Hall.InStep, test]
      exact id
    · simp only [Hall.Negated, test]
      exact id
  next old event notify =>
    obtain ⟨keys, _, rfl⟩ := Option.map_eq_some_iff.mp step
    refine ⟨?_, ?_, nofun, fun _ => id, .inl rfl⟩
    · simp only [Hall.InStep, notify]
      exact id
    · simp only [Hall.Negated, notify]
      exact id
  next old raise =>
    obtain ⟨keys, _, rfl⟩ := Option.map_eq_some_iff.mp step
    refine ⟨?_, ?_, nofun, fun _ => id, .inl rfl⟩
    · simp only [Hall.InStep, raise]
      exact id
    · simp only [Hall.Negated, raise]
      exact id
  next old arm =>
    cases step
    refine ⟨?_, ?_, nofun, fun _ => id, .inl rfl⟩
    · simp only [Hall.InStep, arm]
      exact id
    · simp only [Hall.Negated, arm]
      exact id
  next unmask =>
    cases step
    refine ⟨?_, ?_, nofun, fun _ => id, .inl rfl⟩
    · simp only [Hall.InStep, unmask]
      exact id
    · simp only [Hall.Negated, unmask]
      exact id

theorem Hall.Since.frame (since : s₁.Since s) (handler : s'.handler = s.handler)
    (status : s'.curBt803Status = s.curBt803Status) (polarity : s'.polarity = s.polarity)
    (begun : s'.begun = s.begun) : s₁.Since s' where
  later := begun ▸ since.later
  assigns := by
    unfold Hall.Assigns
    rw [handler]
    exact since.assigns
  fits := by
    rw [status]
    exact since.fits
  negated := by
    unfold Hall.Negated
    rw [handler, status, begun]
    exact since.negated
  inStep := by
    unfold Hall.InStep
    rw [handler, status, polarity, begun]
    exact since.inStep

theorem Hall.Since.tasklet (since : s₁.Since s) (step : s.tasklet = some s') : s₁.Since s' := by
  have keeps : TaskletKeeps s s' := tasklet_keeps step
  have fits : Fits s₁.curBt803Status → Fits s'.curBt803Status := keeps.fits since.assigns ∘ since.fits
  obtain same | ⟨next, idle, masks, status⟩ := keeps.begun
  · refine ⟨same ▸ since.later, keeps.assigns, fits, ?_, ?_⟩
    · rw [same]
      exact keeps.negated ∘ since.negated
    · rw [same]
      exact keeps.inStep ∘ since.inStep
  · have later := since.later
    refine ⟨by omega, keeps.assigns, fits, ?_, ?_⟩
    · intro _
      unfold Hall.Negated
      rw [masks]
      trivial
    · -- the run that begins takes its polarity from the status it finds
      intro runs
      have fitting : Fits s'.curBt803Status := by
        obtain ⟨_, fitted⟩ | twice := runs
        · exact fits fitted
        · have negated : s.Negated := since.negated (by omega)
          unfold Hall.Negated at negated
          rw [idle] at negated
          rw [status]
          exact negated
      unfold Hall.InStep
      rw [masks]
      exact ⟨fitting, rfl⟩

theorem Hall.Since.step (since : s₁.Since s) (step : HallStep s action s') (unwritten : action.Unwritten) :
    s₁.Since s' := by
  obtain ⟨_, tasklet⟩ | ⟨buf, rfl, rfl⟩ | ⟨_, handler, status, polarity, begun, _⟩ := hallStep_cases step
  · exact since.tasklet tasklet
  · have same : (scanUnsigned buf).getD s.curBt803Status = s.curBt803Status := by
      rw [show scanUnsigned buf = none from unwritten]
      rfl
    exact since.frame rfl same rfl rfl
  · exact since.frame handler status polarity begun

/-- Whatever is stored, the tasklet assigns 0 or 1. -/
theorem HallStep.assigns (assigns : s.Assigns) (step : HallStep s action s') : s'.Assigns := by
  obtain ⟨_, tasklet⟩ | ⟨_, _, rfl⟩ | ⟨_, handler, _⟩ := hallStep_cases step
  · exact (tasklet_keeps tasklet).assigns
  · exact assigns
  · unfold Hall.Assigns
    rw [handler]
    exact assigns

/-! Runs. -/

theorem registered_assigns {pin : EintLevel} : (Hall.registered pin).Assigns := nofun

theorem registered_inStep {pin : EintLevel} : (Hall.registered pin).InStep := .inr ⟨rfl, rfl⟩

theorem Hall.Since.run {after : List HallAction} (assigns : s₁.Assigns) (run : Path HallStep s₁ after s)
    (unwritten : ∀ action ∈ after, action.Unwritten) : s₁.Since s :=
  (run.with_labels unwritten).invariant (fun _ _ _ since taken => since.step taken.1 taken.2) (.refl assigns)

theorem Hall.InStep.follows (inStep : s.InStep) (settled : s.Settled) : s.curBt803Status = s.pin.status := by
  unfold Hall.InStep at inStep
  rw [settled.idle] at inStep
  exact inStep.status_eq settled.quiet

/-! What the thread reports of events that come while it waits. -/

def McuEvent.tap (event : McuEvent) : List (Key × Int) := [(event.key, 1), (event.key, 0)]

def KeyState.owed (k : KeyState) : List (Key × Int) :=
  match k.thread with
  | .wait => if k.sendEventFlag ≠ 0 ∨ k.notifying = true then k.bt803KeyEvent.tap else []
  | .trace | .testWakeup | .testSleep => k.bt803KeyEvent.tap
  | .press key => [(key, 1), (key, 0)]
  | .release key => [(key, 0)]
  | .clear => []

def KeyState.OnEvent (k : KeyState) : Prop :=
  match k.thread with
  | .testSleep => k.bt803KeyEvent = .sleep
  | .press key | .release key => key = k.bt803KeyEvent.key
  | _ => True

/-- With what is owed, every event notified has been reported, once and in order. -/
structure KeyState.Owes (k : KeyState) : Prop where
  total : k.reports ++ k.owed = k.notified.flatMap McuEvent.tap
  onEvent : k.OnEvent
  waits : k.notifying = true → k.thread = .wait ∧ k.sendEventFlag = 0

theorem started_owes : KeyState.started.Owes := ⟨rfl, trivial, nofun⟩

section
variable {k k' : KeyState} {event : McuEvent}

theorem owed_waiting (waits : k.thread = .wait) (clear : k.sendEventFlag = 0)
    (idle : ¬ k.notifying = true) : k.owed = [] := by
  have nothing : ¬ (k.sendEventFlag ≠ 0 ∨ k.notifying = true) := by
    rintro (raised | notifying)
    · exact raised clear
    · exact idle notifying
  simp only [KeyState.owed, waits, if_neg nothing]

/-- An event that is left while the thread waits. -/
theorem storeEvent_owes (owes : k.Owes) (waits : k.thread = .wait ∧ k.sendEventFlag = 0)
    (step : keyStep k (.storeEvent event) = some k') : k'.Owes := by
  obtain ⟨action, _⟩ | ⟨_, action, idle, rfl⟩ | ⟨action, _⟩ := keyStep_cases step
  · cases action
  · cases action
    have paid : k.reports = k.notified.flatMap McuEvent.tap := by
      have total := owes.total
      rwa [owed_waiting waits.1 waits.2 (by simp [idle]), List.append_nil] at total
    refine ⟨?_, ?_, fun _ => waits⟩
    · simp [KeyState.owed, waits.1, paid]
    · simp [KeyState.OnEvent, waits.1]
  · cases action

theorem raiseFlag_owes (owes : k.Owes) (step : keyStep k .raiseFlag = some k') : k'.Owes := by
  obtain ⟨action, _⟩ | ⟨_, action, _⟩ | ⟨_, busy, rfl⟩ := keyStep_cases step
  · cases action
  · cases action
  · obtain ⟨waits, _⟩ := owes.waits busy
    refine ⟨?_, ?_, nofun⟩
    · have total := owes.total
      simpa [KeyState.owed, waits, busy] using total
    · simp [KeyState.OnEvent, waits]

theorem sendKeyEvent_owes (owes : k.Owes) (step : sendKeyEvent k = some k') : k'.Owes := by
  obtain ⟨total, onEvent, waits⟩ := owes
  have busy (away : k.thread ≠ .wait) : k.notifying = false := by
    cases notifying : k.notifying with
    | false => rfl
    | true => exact absurd (waits notifying).1 away
  unfold KeyState.owed at total
  unfold KeyState.OnEvent at onEvent
  unfold sendKeyEvent at step
  split at step
  next waiting =>
    split at step
    next raised =>
      cases step
      simp only [waiting, ne_eq, raised, not_false_eq_true, true_or, if_true] at total
      exact ⟨total, trivial, fun notifying => absurd (waits notifying).2 raised⟩
    next => cases step
  next traces =>
    cases step
    simp only [traces] at total
    refine ⟨total, trivial, fun notifying => ?_⟩
    exact absurd ((busy (by simp [traces])).symm.trans notifying) (by decide)
  next tests =>
    simp only [tests] at total
    have idle := busy (by simp [tests])
    split at step
    next wakeup =>
      cases step
      refine ⟨?_, ?_, fun notifying => absurd (idle.symm.trans notifying) (by decide)⟩
      · rw [wakeup] at total
        exact total
      · exact (congrArg McuEvent.key wakeup).symm
    next other =>
      cases step
      refine ⟨total, ?_, fun notifying => absurd (idle.symm.trans notifying) (by decide)⟩
      show k.bt803KeyEvent = .sleep
      cases event : k.bt803KeyEvent with
      | sleep => rfl
      | wakeup => exact absurd event other
  next tests =>
    simp only [tests] at total onEvent
    have idle := busy (by simp [tests])
    rw [if_pos onEvent] at step
    cases step
    refine ⟨?_, ?_, fun notifying => absurd (idle.symm.trans notifying) (by decide)⟩
    · rw [onEvent] at total
      exact total
    · exact (congrArg McuEvent.key onEvent).symm
  next key presses =>
    simp only [presses] at total onEvent
    have idle := busy (by simp [presses])
    cases step
    refine ⟨?_, onEvent, fun notifying => absurd (idle.symm.trans notifying) (by decide)⟩
    simpa [KeyState.owed, KeyState.at, KeyState.report] using total
  next key releases =>
    simp only [releases] at total onEvent
    have idle := busy (by simp [releases])
    cases step
    refine ⟨?_, trivial, fun notifying => absurd (idle.symm.trans notifying) (by decide)⟩
    simpa [KeyState.owed, KeyState.at, KeyState.report] using total
  next clears =>
    simp only [clears] at total
    have idle := busy (by simp [clears])
    cases step
    refine ⟨?_, trivial, fun notifying => absurd (idle.symm.trans notifying) (by decide)⟩
    simpa [KeyState.owed, KeyState.at, idle] using total

end

/-! Events that come in turn. -/

/-- The status after `n` runs of the tasklet from the status 1. -/
def turnStatus (n : Nat) : BitVec 32 := if n % 2 = 0 then 1 else 0

def turnEvent (n : Nat) : McuEvent := if n % 2 = 0 then .wakeup else .sleep

def turnEvents : Nat → List McuEvent
  | 0 => []
  | n + 1 => turnEvents n ++ [turnEvent (n + 1)]

theorem turnStatus_succ (n : Nat) : (if turnStatus n = 0 then 1 else 0) = turnStatus (n + 1) := by
  unfold turnStatus
  rcases Nat.mod_two_eq_zero_or_one n with even | odd
  · simp [even, Nat.add_mod]
  · simp [odd, Nat.add_mod]

theorem turnEvent_of_status (n : Nat) :
    (if turnStatus n ≠ 0 then McuEvent.wakeup else .sleep) = turnEvent n := by
  unfold turnStatus turnEvent
  by_cases even : n % 2 = 0
  · simp [even]
  · simp [even]

def Hall.InTurn (s : Hall) : Prop :=
  match s.handler with
  | .mask _ | .negate _ => ∃ n, s.begun = n + 1 ∧ s.curBt803Status = turnStatus n ∧
      s.keys.notified = turnEvents n
  | .assign _ value => ∃ n, s.begun = n + 1 ∧ value = turnStatus (n + 1) ∧ s.keys.notified = turnEvents n
  | .test _ => ∃ n, s.begun = n + 1 ∧ s.curBt803Status = turnStatus (n + 1) ∧
      s.keys.notified = turnEvents n
  | .notify _ event => ∃ n, s.begun = n + 1 ∧ s.curBt803Status = turnStatus (n + 1) ∧
      event = turnEvent (n + 1) ∧ s.keys.notified = turnEvents n
  | _ => s.curBt803Status = turnStatus s.begun ∧ s.keys.notified = turnEvents s.begun

/-- A notification comes while the thread waits and has no event before it. -/
def Hall.Paced (s : Hall) : HallAction → Prop
  | .tasklet =>
    match s.handler with
    | .notify _ _ => s.keys.thread = .wait ∧ s.keys.sendEventFlag = 0
    | _ => True
  | _ => True

instance (action : HallAction) : Decidable action.Unwritten := by
  unfold HallAction.Unwritten
  split <;> infer_instance

instance (s : Hall) (action : HallAction) : Decidable (s.Paced action) := by
  unfold Hall.Paced
  split
  · split <;> infer_instance
  · infer_instance

/-- A step that stores nothing and in which no notification comes early. -/
def CalmStep (s : Hall) (action : HallAction) (s' : Hall) : Prop :=
  HallStep s action s' ∧ action.Unwritten ∧ s.Paced action

structure Hall.Reports (s : Hall) : Prop where
  inTurn : s.InTurn
  owes : s.keys.Owes
  raises : s.keys.notifying = true → ∃ old, s.handler = .raise old

theorem registered_reports {pin : EintLevel} : (Hall.registered pin).Reports where
  inTurn := ⟨rfl, rfl⟩
  owes := started_owes
  raises := nofun

theorem tasklet_reports (reports : s.Reports) (paced : s.Paced .tasklet) (step : s.tasklet = some s') :
    s'.Reports := by
  obtain ⟨inTurn, owes, raises⟩ := reports
  have idle (other : ∀ old, s.handler ≠ .raise old) : ¬ s.keys.notifying = true := by
    intro notifying
    obtain ⟨old, raise⟩ := raises notifying
    exact other old raise
  unfold Hall.InTurn at inTurn
  unfold Hall.Paced at paced
  unfold Hall.tasklet at step
  split at step
  next idles =>
    simp only [idles] at inTurn
    split at step
    · cases step
      exact ⟨⟨s.begun, rfl, inTurn⟩, owes, fun busy => absurd busy (idle (by simp [idles]))⟩
    · cases step
  next old mask =>
    simp only [mask] at inTurn
    cases step
    exact ⟨inTurn, owes, fun busy => absurd busy (idle (by simp [mask]))⟩
  next old negate =>
    simp only [negate] at inTurn
    obtain ⟨n, begun, status, notified⟩ := inTurn
    cases step
    refine ⟨⟨n, begun, ?_, notified⟩, owes, fun busy => absurd busy (idle (by simp [negate]))⟩
    rw [status]
    exact turnStatus_succ n
  next old value assign =>
    simp only [assign] at inTurn
    cases step
    exact ⟨inTurn, owes, fun busy => absurd busy (idle (by simp [assign]))⟩
  next old test =>
    simp only [test] at inTurn
    obtain ⟨n, begun, status, notified⟩ := inTurn
    cases step
    refine ⟨⟨n, begun, status, ?_, notified⟩, owes, fun busy => absurd busy (idle (by simp [test]))⟩
    rw [status]
    exact turnEvent_of_status (n + 1)
  next old event notify =>
    simp only [notify] at inTurn paced
    obtain ⟨n, begun, status, rfl, notified⟩ := inTurn
    obtain ⟨keys, taken, rfl⟩ := Option.map_eq_some_iff.mp step
    refine ⟨⟨?_, ?_⟩, storeEvent_owes owes paced taken, fun _ => ⟨old, rfl⟩⟩
    · show s.curBt803Status = turnStatus s.begun
      rw [status, begun]
    · obtain ⟨action, _⟩ | ⟨_, action, _, rfl⟩ | ⟨action, _⟩ := keyStep_cases taken
      · cases action
      · cases action
        show s.keys.notified ++ [turnEvent (n + 1)] = turnEvents s.begun
        rw [notified, begun]
        rfl
      · cases action
  next old raise =>
    simp only [raise] at inTurn
    obtain ⟨keys, taken, rfl⟩ := Option.map_eq_some_iff.mp step
    have owes' : keys.Owes := raiseFlag_owes owes taken
    obtain ⟨action, _⟩ | ⟨_, action, _⟩ | ⟨_, _, rfl⟩ := keyStep_cases taken
    · cases action
    · cases action
    · exact ⟨inTurn, owes', nofun⟩
  next old arm =>
    simp only [arm] at inTurn
    cases step
    exact ⟨inTurn, owes, fun busy => absurd busy (idle (by simp [arm]))⟩
  next unmask =>
    simp only [unmask] at inTurn
    cases step
    exact ⟨inTurn, owes, fun busy => absurd busy (idle (by simp [unmask]))⟩

theorem CalmStep.reports (reports : s.Reports) (step : CalmStep s action s') : s'.Reports := by
  obtain ⟨taken, unwritten, paced⟩ := step
  obtain ⟨rfl, tasklet⟩ | ⟨buf, rfl, rfl⟩ | ⟨_, handler, status, _, begun, keys⟩ := hallStep_cases taken
  · exact tasklet_reports reports paced tasklet
  · rw [show scanUnsigned buf = none from unwritten]
    exact reports
  · obtain ⟨inTurn, owes, raises⟩ := reports
    obtain same | ⟨_, thread⟩ := keys
    · refine ⟨?_, same ▸ owes, ?_⟩
      · unfold Hall.InTurn
        rw [handler, status, begun, same]
        exact inTurn
      · rw [same, handler]
        exact raises
    · obtain ⟨_, notifying, notified⟩ := sendKeyEvent_frame thread
      refine ⟨?_, sendKeyEvent_owes owes thread, ?_⟩
      · unfold Hall.InTurn
        rw [handler, status, begun, notified]
        exact inTurn
      · rw [notifying, handler]
        exact raises

theorem HallStep.inStep (inStep : s.InStep) (step : HallStep s action s') (unwritten : action.Unwritten) :
    s'.InStep := by
  obtain ⟨_, tasklet⟩ | ⟨buf, rfl, rfl⟩ | ⟨_, handler, status, polarity, _⟩ := hallStep_cases step
  · exact (tasklet_keeps tasklet).inStep inStep
  · rw [show scanUnsigned buf = none from unwritten]
    exact inStep
  · unfold Hall.InStep
    rw [handler, status, polarity]
    exact inStep

theorem inStep_run {actions : List HallAction} (inStep : s₁.InStep) (run : Path HallStep s₁ actions s)
    (unwritten : ∀ action ∈ actions, action.Unwritten) : s.InStep :=
  (run.with_labels unwritten).invariant (fun _ _ _ before taken => taken.1.inStep before taken.2) inStep

/-- Settled, the status is that of the position of the switch: where nothing has been stored, and
otherwise when the tasklet has run twice since then, or once if the value stored is 0 or not a
multiple of 256. -/
theorem hall_recovers {pin : EintLevel} {before after : List HallAction}
    (first : Path HallStep (.registered pin) before s₁) (rest : Path HallStep s₁ after s)
    (unwritten : ∀ action ∈ after, action.Unwritten)
    (runs : (∀ action ∈ before, action.Unwritten) ∨ s₁.begun < s.begun ∧ Fits s₁.curBt803Status ∨
      s₁.begun + 2 ≤ s.begun)
    (settled : s.Settled) : s.curBt803Status = s.pin.status := by
  have assigns : s₁.Assigns :=
    first.invariant (fun _ _ _ before step => step.assigns before) registered_assigns
  have inStep : s.InStep := by
    obtain none | enough := runs
    · exact inStep_run (inStep_run registered_inStep first none) rest unwritten
    · exact (Hall.Since.run assigns rest unwritten).inStep enough
  exact inStep.follows settled

def oneRun : List HallAction := .interrupt :: List.replicate 9 .tasklet

/-- A 0 is written while the switch is up. When it goes down, the tasklet takes two runs to find back. -/
theorem hall_recovered : ∃ s₁ s : Hall, Path HallStep (.registered .high) [.store ['0', '\n']] s₁ ∧
    Path HallStep s₁ (.move .low :: (oneRun ++ oneRun)) s ∧ s₁.begun < s.begun ∧
      s.keys.notified = [.wakeup, .sleep] ∧ s.pin = .low ∧ s.curBt803Status = s.pin.status := by
  have store : Path HallStep (.registered .high) [.store ['0', '\n']]
      { Hall.registered .high with curBt803Status := 0 } := path_of_foldlM (f := hallStep) rfl
  have rest : Path HallStep { Hall.registered .high with curBt803Status := 0 }
      (.move .low :: (oneRun ++ oneRun)) { Hall.registered .low with
        curBt803Status := 0
        polarity := 1
        keys := { KeyState.started with sendEventFlag := 1, notified := [.wakeup, .sleep] }
        begun := 2 } := path_of_foldlM (f := hallStep) rfl
  refine ⟨_, _, store, rest, by decide, rfl, rfl, hall_recovers store rest ?_ ?_ ?_⟩
  · decide
  · exact .inr (.inl ⟨by decide, fun _ => rfl⟩)
  · exact ⟨rfl, rfl, by decide⟩

/-- With events that come while the thread waits, the keys reported are those of the positions that
the switch has had, in turn, the last one being where it is. -/
theorem hall_reports {pin : EintLevel} {actions : List HallAction}
    (run : Path CalmStep (.registered pin) actions s) (settled : s.Settled)
    (waiting : s.keys.thread = .wait) (clear : s.keys.sendEventFlag = 0) :
    s.keys.reports = (turnEvents s.begun).flatMap McuEvent.tap ∧ s.pin.status = turnStatus s.begun := by
  have reports : s.Reports := run.invariant (fun _ _ _ before step => step.reports before) registered_reports
  have inStep : s.InStep := run.invariant (fun _ _ _ before step => step.1.inStep before step.2.1) registered_inStep
  obtain ⟨inTurn, owes, raises⟩ := reports
  unfold Hall.InTurn at inTurn
  simp only [settled.idle] at inTurn
  have idle : ¬ s.keys.notifying = true := by
    intro notifying
    obtain ⟨old, raise⟩ := raises notifying
    rw [settled.idle] at raise
    cases raise
  have total := owes.total
  rw [owed_waiting waiting clear idle, List.append_nil] at total
  rw [total, inTurn.2, ← inTurn.1]
  exact ⟨rfl, (inStep.follows settled).symm⟩

def calmStep (s : Hall) (action : HallAction) : Option Hall :=
  if action.Unwritten ∧ s.Paced action then hallStep s action else none

theorem calmStep_calm (s : Hall) (action : HallAction) (s' : Hall) (step : calmStep s action = some s') :
    CalmStep s action s' := by
  rw [calmStep, Option.ite_none_right_eq_some] at step
  exact ⟨step.2, step.1⟩

/-- The switch goes down and up again. -/
theorem hall_reported : ∃ s : Hall, Path CalmStep (.registered .high)
    (.move .low :: oneRun ++ List.replicate 7 .thread ++ .move .high :: oneRun ++ List.replicate 6 .thread) s ∧
      s.keys.reports = [(.keySleep, 1), (.keySleep, 0), (.keyWakeup, 1), (.keyWakeup, 0)] ∧
      s.keys.reports = (turnEvents s.begun).flatMap McuEvent.tap ∧ s.pin.status = turnStatus s.begun := by
  have run : Path (fun s action s' => calmStep s action = some s') (.registered .high)
      (.move .low :: oneRun ++ List.replicate 7 .thread ++ .move .high :: oneRun ++ List.replicate 6 .thread)
      { Hall.registered .high with
        keys := { KeyState.started with
          bt803KeyEvent := .wakeup
          reports := [(.keySleep, 1), (.keySleep, 0), (.keyWakeup, 1), (.keyWakeup, 0)]
          notified := [.sleep, .wakeup] }
        begun := 2 } := path_of_foldlM (f := calmStep) rfl
  have calm := run.mono calmStep_calm
  exact ⟨_, calm, rfl, hall_reports calm ⟨rfl, rfl, by decide⟩ rfl rfl⟩

end

end Yika.Bt803
