import Yika.Program.Path

/-! The key events of `bt803_driver.c`: `notify_sendKeyEvent`, which the interrupt's tasklet calls,
leaves an event and raises a flag; the thread `sendKeyEvent` reports the event and lowers the
flag. -/

namespace Yika.Bt803
open Program

/-- `MCU_SLEEP` is 0 and `MCU_WAKEUP` is 1. -/
inductive McuEvent where
  | sleep
  | wakeup
  deriving DecidableEq

inductive Key where
  | keyWakeup
  | keySleep
  deriving DecidableEq

def McuEvent.key : McuEvent → Key
  | .sleep => .keySleep
  | .wakeup => .keyWakeup

inductive SendKeyEvent where
  /-- `wait_event_interruptible`, until the flag is seen set -/
  | wait
  /-- the trace line that prints `bt803_key_event` -/
  | trace
  /-- `if (MCU_WAKEUP == bt803_key_event)` -/
  | testWakeup
  /-- `else if (MCU_SLEEP == bt803_key_event)` -/
  | testSleep
  /-- `input_report_key(bt803_input_dev, key, 1)` -/
  | press (key : Key)
  /-- `input_report_key(bt803_input_dev, key, 0)` -/
  | release (key : Key)
  /-- `atomic_set(&send_event_flag, 0)` -/
  | clear
  deriving DecidableEq

/-- `notifying` says whether a notification has left its event but not yet raised the flag.
`reports` are the calls of `input_report_key` and `notified` the events, the oldest first. -/
structure KeyState where
  bt803KeyEvent : McuEvent
  sendEventFlag : Int
  thread : SendKeyEvent
  notifying : Bool
  reports : List (Key × Int)
  notified : List McuEvent
  deriving DecidableEq

def KeyState.started : KeyState where
  bt803KeyEvent := .sleep
  sendEventFlag := 0
  thread := .wait
  notifying := false
  reports := []
  notified := []

inductive KeyAction where
  /-- the next step of `sendKeyEvent` -/
  | thread
  /-- `bt803_key_event = event` -/
  | storeEvent (event : McuEvent)
  /-- `atomic_set(&send_event_flag, 1)` -/
  | raiseFlag
  deriving DecidableEq

def KeyState.at (s : KeyState) (next : SendKeyEvent) : KeyState := { s with thread := next }

def KeyState.report (s : KeyState) (key : Key) (value : Int) : KeyState :=
  { s with reports := s.reports ++ [(key, value)] }

def sendKeyEvent (s : KeyState) : Option KeyState :=
  match s.thread with
  | .wait => if s.sendEventFlag ≠ 0 then some (s.at .trace) else none
  | .trace => some (s.at .testWakeup)
  | .testWakeup =>
    if s.bt803KeyEvent = .wakeup then some (s.at (.press .keyWakeup)) else some (s.at .testSleep)
  | .testSleep =>
    if s.bt803KeyEvent = .sleep then some (s.at (.press .keySleep)) else some (s.at .clear)
  | .press key => some ((s.report key 1).at (.release key))
  | .release key => some ((s.report key 0).at .clear)
  | .clear => some ({ s with sendEventFlag := 0 }.at .wait)

/-- One atomic step. The tasklet does not run beside itself, so notifications come one after the
other. -/
def keyStep (s : KeyState) : KeyAction → Option KeyState
  | .thread => sendKeyEvent s
  | .storeEvent event =>
    if s.notifying then none
    else some { s with bt803KeyEvent := event, notifying := true, notified := s.notified ++ [event] }
  | .raiseFlag =>
    if s.notifying then some { s with sendEventFlag := 1, notifying := false } else none

def KeyStep (s : KeyState) (action : KeyAction) (s' : KeyState) : Prop := keyStep s action = some s'

def KeyState.lastKey (s : KeyState) : Option Key := s.reports.getLast?.map (·.1)

/-- The round of the thread leaves the event that stands there now as the one reported last. -/
def KeyState.Delivers (s : KeyState) : Prop :=
  match s.thread with
  | .wait => s.sendEventFlag ≠ 0 ∨ s.lastKey = some s.bt803KeyEvent.key
  | .trace | .testWakeup => True
  | .testSleep => s.bt803KeyEvent = .sleep ∨ s.lastKey = some s.bt803KeyEvent.key
  | .press key | .release key => key = s.bt803KeyEvent.key
  | .clear => s.lastKey = some s.bt803KeyEvent.key

/-- The flag is raised in time: the thread waits, or has not yet looked for the event, or the
event is the one that it reports or has reported. -/
def KeyState.InTime (s : KeyState) : Prop := s.thread = .wait ∨ s.Delivers

instance (s : KeyState) : Decidable s.Delivers := by
  unfold KeyState.Delivers
  split <;> infer_instance

theorem lastKey_report (s : KeyState) (key : Key) (value : Int) :
    (s.report key value).lastKey = some key := by
  simp [KeyState.lastKey, KeyState.report]

section
variable {s s' : KeyState}

/-- What one step can do. -/
theorem keyStep_cases {action : KeyAction} (step : KeyStep s action s') :
    action = .thread ∧ sendKeyEvent s = some s' ∨
      (∃ event, action = .storeEvent event ∧ s.notifying = false ∧ s' = { s with
        bt803KeyEvent := event, notifying := true, notified := s.notified ++ [event] }) ∨
      action = .raiseFlag ∧ s.notifying = true ∧
        s' = { s with sendEventFlag := 1, notifying := false } := by
  cases action with
  | thread => exact .inl ⟨rfl, step⟩
  | storeEvent event =>
    simp only [KeyStep, keyStep] at step
    split at step
    next => cases step
    next idle => exact .inr (.inl ⟨event, rfl, by simpa using idle, (Option.some.inj step).symm⟩)
  | raiseFlag =>
    simp only [KeyStep, keyStep] at step
    split at step
    next busy => exact .inr (.inr ⟨rfl, busy, (Option.some.inj step).symm⟩)
    next => cases step

/-- The thread touches neither the event nor the notifications. -/
theorem sendKeyEvent_frame (step : sendKeyEvent s = some s') :
    s'.bt803KeyEvent = s.bt803KeyEvent ∧ s'.notifying = s.notifying ∧
      s'.notified = s.notified := by
  unfold sendKeyEvent at step
  split at step
  all_goals first
    | (split at step <;> cases step <;> exact ⟨rfl, rfl, rfl⟩)
    | (cases step; exact ⟨rfl, rfl, rfl⟩)

/-- Left alone, the thread does not change what it will have reported in the end. -/
theorem sendKeyEvent_delivers (step : sendKeyEvent s = some s') : s'.Delivers ↔ s.Delivers := by
  unfold sendKeyEvent at step
  split at step
  next waits =>
    split at step
    next raised =>
      cases step
      exact iff_of_true trivial (by simp [KeyState.Delivers, waits, raised])
    next => cases step
  next traces =>
    cases step
    exact iff_of_true trivial (by simp [KeyState.Delivers, traces])
  next tests =>
    have reads : s.Delivers := by simp [KeyState.Delivers, tests]
    split at step
    next wakeup =>
      cases step
      exact iff_of_true (by simp [KeyState.Delivers, KeyState.at, wakeup, McuEvent.key]) reads
    next other =>
      cases step
      have sleep : s.bt803KeyEvent = .sleep := by
        cases event : s.bt803KeyEvent with
        | sleep => rfl
        | wakeup => exact absurd event other
      exact iff_of_true (Or.inl sleep) reads
  next tests =>
    split at step
    next sleep =>
      cases step
      exact iff_of_true (by simp [KeyState.Delivers, KeyState.at, sleep, McuEvent.key])
        (by simp [KeyState.Delivers, tests, sleep])
    next other =>
      cases step
      simp only [KeyState.Delivers, KeyState.at, tests, other, false_or]
      exact Iff.rfl
  next key presses =>
    cases step
    simp only [KeyState.Delivers, KeyState.at, KeyState.report, presses]
  next key releases =>
    cases step
    show (s.report key 0).lastKey = some s.bt803KeyEvent.key ↔ s.Delivers
    rw [lastKey_report, Option.some.injEq]
    simp only [KeyState.Delivers, releases]
  next clears =>
    cases step
    simp only [KeyState.Delivers, KeyState.at, clears, ne_eq, not_true_eq_false, false_or]
    exact Iff.rfl

def KeyState.Recorded (s : KeyState) : Prop := s.notified.getLast? = some s.bt803KeyEvent

theorem KeyStep.recorded {action : KeyAction} (before : s.Recorded) (step : KeyStep s action s') :
    s'.Recorded := by
  obtain ⟨_, step⟩ | ⟨event, _, _, rfl⟩ | ⟨_, _, rfl⟩ := keyStep_cases step
  · obtain ⟨event, _, notified⟩ := sendKeyEvent_frame step
    unfold KeyState.Recorded
    rwa [event, notified]
  · simp [KeyState.Recorded]
  · exact before

/-- A notification in progress has recorded its event. -/
theorem KeyStep.busy {action : KeyAction} (before : s.notifying = true → s.Recorded)
    (step : KeyStep s action s') : s'.notifying = true → s'.Recorded := by
  obtain ⟨_, thread⟩ | ⟨event, _, _, rfl⟩ | ⟨_, _, rfl⟩ := keyStep_cases step
  · rw [(sendKeyEvent_frame thread).2.1]
    exact fun busy => step.recorded (before busy)
  · simp [KeyState.Recorded]
  · intro busy
    cases busy

structure KeyState.Quiet (s : KeyState) : Prop where
  clear : s.sendEventFlag = 0
  waiting : s.thread = .wait
  silent : s.reports = []
  unnotified : s.notifying = false → s.notified = []

theorem KeyStep.quiet {action : KeyAction} (before : s.Quiet) (step : KeyStep s action s')
    (other : action ≠ .raiseFlag) : s'.Quiet := by
  obtain ⟨_, step⟩ | ⟨event, _, _, rfl⟩ | ⟨raised, _⟩ := keyStep_cases step
  · simp [sendKeyEvent, before.waiting, before.clear] at step
  · exact { before with unnotified := fun idle => by cases idle }
  · exact absurd raised other

/-- Until the next flag is raised, what will have been reported stays as it is, except while a
notification has left a new event. -/
theorem KeyStep.settled {action : KeyAction} {delivers : Prop}
    (before : s.notifying = false → (s.Delivers ↔ delivers)) (step : KeyStep s action s')
    (other : action ≠ .raiseFlag) : s'.notifying = false → (s'.Delivers ↔ delivers) := by
  obtain ⟨_, step⟩ | ⟨event, _, _, rfl⟩ | ⟨raised, _⟩ := keyStep_cases step
  · obtain ⟨_, notifying, _⟩ := sendKeyEvent_frame step
    rw [notifying, sendKeyEvent_delivers step]
    exact before
  · intro idle
    cases idle
  · exact absurd raised other

/-- Raising the flag in time is what makes the round deliver the event. -/
theorem raiseFlag_delivers : ({ s with sendEventFlag := 1, notifying := false } : KeyState).Delivers ↔
    s.InTime := by
  unfold KeyState.InTime KeyState.Delivers KeyState.lastKey
  cases s.thread <;> simp

end

/-- The last notification of a run, from the moment it raises the flag. -/
theorem last_key_after {before after : List KeyAction} {s₁ s : KeyState}
    (first : Path KeyStep .started before s₁) (rest : Path KeyStep s₁ (.raiseFlag :: after) s)
    (last : .raiseFlag ∉ after) (waiting : s.thread = .wait) (clear : s.sendEventFlag = 0)
    (idle : s.notifying = false) :
    s.lastKey = s.notified.getLast?.map McuEvent.key ↔ s₁.InTime := by
  obtain ⟨s₂, raise, rest⟩ := path_cons.mp rest
  have busy : s₁.notifying = true → s₁.Recorded :=
    first.invariant (fun _ _ _ before step => step.busy before) fun busy => by cases busy
  obtain ⟨action, _⟩ | ⟨event, action, _⟩ | ⟨_, notifying, rfl⟩ := keyStep_cases raise
  · cases action
  · cases action
  · have recorded : s.Recorded :=
      Path.invariant (fun _ _ _ before step => step.recorded before) rest (busy notifying)
    have others : ∀ action ∈ after, action ≠ .raiseFlag := fun action member same =>
      last (same ▸ member)
    have settled : s.notifying = false → (s.Delivers ↔ s₁.InTime) :=
      (rest.with_labels others).invariant (fun _ _ _ before step => step.1.settled before step.2)
        fun _ => raiseFlag_delivers
    have delivers : s.Delivers ↔ s.lastKey = some s.bt803KeyEvent.key := by
      simp [KeyState.Delivers, waiting, clear]
    calc s.lastKey = s.notified.getLast?.map McuEvent.key
        ↔ s.lastKey = some s.bt803KeyEvent.key := by rw [recorded, Option.map_some]
      _ ↔ s.Delivers := delivers.symm
      _ ↔ s₁.InTime := settled idle

/-- In a state where the thread is back and nothing is going on, the last key reported is that
of the last event exactly when the flag was raised in time for that event. -/
theorem last_key_iff {actions : List KeyAction} {s : KeyState}
    (run : Path KeyStep .started actions s) (waiting : s.thread = .wait)
    (clear : s.sendEventFlag = 0) (idle : s.notifying = false) :
    s.lastKey = s.notified.getLast?.map McuEvent.key ↔
      ∀ before after s₁, actions = before ++ .raiseFlag :: after → .raiseFlag ∉ after →
        Path KeyStep .started before s₁ → s₁.InTime := by
  have functional (s : KeyState) (action : KeyAction) (s₁ s₂ : KeyState)
      (first : KeyStep s action s₁) (second : KeyStep s action s₂) : s₁ = s₂ :=
    Option.some.inj (first.symm.trans second)
  have split {before after : List KeyAction} {s₁ : KeyState}
      (parts : actions = before ++ .raiseFlag :: after) (last : .raiseFlag ∉ after)
      (first : Path KeyStep .started before s₁) :
      s.lastKey = s.notified.getLast?.map McuEvent.key ↔ s₁.InTime := by
    rw [parts] at run
    obtain ⟨s₁', first', rest⟩ := path_append.mp run
    rw [← first.det functional first'] at rest
    exact last_key_after first rest last waiting clear idle
  constructor
  · intro matched before after s₁ parts last first
    exact (split parts last first).mp matched
  · intro inTime
    by_cases raised : .raiseFlag ∈ actions
    · obtain ⟨after, before, parts, last⟩ :=
        List.eq_append_cons_of_mem (List.mem_reverse.mpr raised)
      have parts : actions = before.reverse ++ .raiseFlag :: after.reverse := by
        rw [← List.reverse_reverse actions, parts]
        simp
      have last : .raiseFlag ∉ after.reverse := by simpa using last
      obtain ⟨s₁, first, _⟩ := path_append.mp (parts ▸ run)
      exact (split parts last first).mpr (inTime _ _ s₁ parts last first)
    · have others : ∀ action ∈ actions, action ≠ .raiseFlag := fun action member same =>
        raised (same ▸ member)
      have quiet : s.Quiet := (run.with_labels others).invariant
        (fun _ _ _ before step => step.1.quiet before step.2) ⟨rfl, rfl, rfl, fun _ => rfl⟩
      simp [KeyState.lastKey, quiet.silent, quiet.unnotified idle]

/-- A wake-up that is reported in peace. -/
theorem wakeup_reported : ∃ s, Path KeyStep .started (.storeEvent .wakeup :: .raiseFlag ::
    List.replicate 6 .thread) s ∧
      s.lastKey = s.notified.getLast?.map McuEvent.key := by
  have run : Path KeyStep .started (.storeEvent .wakeup :: .raiseFlag :: List.replicate 6 .thread)
      { KeyState.started with
        bt803KeyEvent := .wakeup
        reports := [(.keyWakeup, 1), (.keyWakeup, 0)]
        notified := [.wakeup] } :=
    .cons rfl (.cons rfl (.cons rfl (.cons rfl (.cons rfl (.cons rfl (.cons rfl (.cons rfl (.nil _))))))))
  refine ⟨_, run, (last_key_iff run rfl rfl rfl).mpr ?_⟩
  intro before after s₁ parts last first
  cases before with
  | nil => cases parts
  | cons action before =>
    rw [List.cons_append, List.cons.injEq] at parts
    obtain ⟨rfl, parts⟩ := parts
    cases before with
    | nil =>
      obtain ⟨s₂, store, nothing⟩ := path_cons.mp first
      rw [path_nil.mp nothing]
      cases store
      exact Or.inl rfl
    | cons action before =>
      have member : KeyAction.raiseFlag ∈ List.replicate 6 KeyAction.thread := by
        rw [(List.cons.inj parts).2]
        exact List.mem_append_right _ List.mem_cons_self
      cases List.eq_of_mem_replicate member

/-- The sleep event arrives when the thread has reported the wake-up and not yet cleared the
flag. -/
theorem sleep_lost : ∃ s, Path KeyStep .started ([.storeEvent .wakeup, .raiseFlag] ++
    List.replicate 5 .thread ++ [.storeEvent .sleep, .raiseFlag, .thread]) s ∧
      s.thread = .wait ∧ s.sendEventFlag = 0 ∧ s.notifying = false ∧
        s.lastKey ≠ s.notified.getLast?.map McuEvent.key :=
  ⟨{ KeyState.started with
      reports := [(.keyWakeup, 1), (.keyWakeup, 0)]
      notified := [.wakeup, .sleep] },
    .cons rfl (.cons rfl (.cons rfl (.cons rfl (.cons rfl (.cons rfl (.cons rfl (.cons rfl (.cons rfl
      (.cons rfl (.nil _)))))))))), rfl, rfl, rfl, by decide⟩

end Yika.Bt803
