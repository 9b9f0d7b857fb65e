import Yika.Fm.Process
import Yika.Fm.Sought

/-! Whole sessions of the service: native methods, called one after the other by a process whose memory
stands beside the two pins of the chip, and what a caller may rely on about the frequency. -/

namespace Yika.Fm
open Program

inductive NativeCall where
  | jniInit (found opens : Bool)
  | write (op : WriteOperation)
  | read (op : ReadOperation)
  deriving DecidableEq

/-- Whether the device is open after the call; nothing closes it. -/
def NativeCall.opened (qn8006Device : Bool) : NativeCall → Bool
  | .jniInit found opens => qn8006Device || (found && opens)
  | .write _ | .read _ => qn8006Device

def NativeCall.ints : NativeCall → Nat
  | .jniInit _ _ => 0
  | .write op => op.ints
  | .read op => op.ints

def NativeCall.inProcess (qn8006Device : Bool) (frames : Frames) : NativeCall → Kernel (Option INT)
  | .jniInit found opens => pure (some (Process.Jni.qn8006JniInit found opens))
  | .write op => (fun _ => none) <$> op.inProcess qn8006Device frames
  | .read op => some <$> op.inProcess qn8006Device frames

def NativeCall.call (qn8006Device : Bool) (stack : Stack) : NativeCall → Drv (Option INT)
  | .jniInit found opens => pure (some (Process.Jni.qn8006JniInit found opens))
  | .write op => (fun _ => none) <$> op.call qn8006Device stack
  | .read op => some <$> op.call qn8006Device stack

def service : Bool → List (NativeCall × Frames) → Kernel (List (Option INT))
  | _, [] => pure []
  | qn8006Device, (call, frames) :: calls => do
    let value ← call.inProcess qn8006Device frames
    let values ← service (call.opened qn8006Device) calls
    pure (value :: values)

/-- The calls as requests to the driver, each with what its variables held. -/
def driven : Bool → List (NativeCall × Stack) → Drv (List (Option INT))
  | _, [] => pure []
  | qn8006Device, (call, stack) :: calls => do
    let value ← call.call qn8006Device stack
    let values ← driven (call.opened qn8006Device) calls
    pure (value :: values)

/-- The cell belongs to no variable that is passed to the driver. -/
def Unpassed (calls : List (NativeCall × Frames)) (c : Nat) : Prop :=
  ∀ made ∈ calls, c < made.2.address ∨ made.2.address + made.1.ints ≤ c

instance (calls : List (NativeCall × Frames)) (c : Nat) : Decidable (Unpassed calls c) :=
  inferInstanceAs (Decidable (∀ made ∈ calls, c < made.2.address ∨ made.2.address + made.1.ints ≤ c))

section
variable {κ : Type} {b : Board κ} {m : Memory} {w : Machine κ}

theorem call_follows (call : NativeCall) (qn8006Device : Bool) (frames : Frames) :
    Follows b frames.address call.ints m (call.inProcess qn8006Device frames)
      (call.call qn8006Device (frames.stack m)) := by
  cases call with
  | jniInit found opens => exact follows_pure
  | write op => exact (write_follows op qn8006Device frames).map _
  | read op => exact (read_follows op qn8006Device frames).map _

theorem service_raise {qn8006Device : Bool} {calls : List (NativeCall × Frames)} {values : List (Option INT)}
    {s' : Memory × Machine κ} (run : Runs b.callEnv (service qn8006Device calls) (m, w) values s') :
    ∃ held : List Stack, held.length = calls.length ∧
      Runs b.env (driven qn8006Device ((calls.map Prod.fst).zip held)) w values s'.2 ∧
      ∀ c, Unpassed calls c → s'.1 c = m c := by
  induction calls generalizing qn8006Device values m w with
  | nil =>
    obtain ⟨rfl, rfl⟩ := runs_pure.mp run
    exact ⟨[], rfl, runs_pure.mpr ⟨rfl, rfl⟩, fun _ _ => rfl⟩
  | cons made calls ih =>
    obtain ⟨call, frames⟩ := made
    obtain ⟨value, ⟨m₁, w₁⟩, first, rest⟩ := runs_bind.mp run
    obtain ⟨later, s₂, others, last⟩ := runs_bind.mp rest
    obtain ⟨rfl, rfl⟩ := runs_pure.mp last
    obtain ⟨raised, kept⟩ := (call_follows call qn8006Device frames).raise w value _ first
    obtain ⟨held, long, raised', kept'⟩ := ih others
    refine ⟨frames.stack m :: held, congrArg (· + 1) long, ?_, fun c elsewhere => ?_⟩
    · exact raised.seq (raised'.seq (runs_pure.mpr ⟨rfl, rfl⟩))
    · have here := elsewhere (call, frames) List.mem_cons_self
      exact (kept' c fun made member => elsewhere made (List.mem_cons_of_mem _ member)).trans (kept c here)

/-- When the driver answers all of it, whatever the variables hold, the process returns. -/
theorem service_lower {qn8006Device : Bool} {calls : List (NativeCall × Frames)}
    (answered : ∀ held : List Stack, held.length = calls.length → ∃ values w',
      Runs b.env (driven qn8006Device ((calls.map Prod.fst).zip held)) w values w') :
    ∃ values s', Runs b.callEnv (service qn8006Device calls) (m, w) values s' := by
  induction calls generalizing qn8006Device m w with
  | nil => exact ⟨[], (m, w), runs_pure.mpr ⟨rfl, rfl⟩⟩
  | cons made calls ih =>
    obtain ⟨call, frames⟩ := made
    have split (held : List Stack) (long : held.length = calls.length) : ∃ value w₁ values w',
        Runs b.env (call.call qn8006Device (frames.stack m)) w value w₁ ∧
        Runs b.env (driven (call.opened qn8006Device) ((calls.map Prod.fst).zip held)) w₁ values w' := by
      obtain ⟨all, w', run⟩ := answered (frames.stack m :: held) (congrArg (· + 1) long)
      obtain ⟨value, w₁, first, rest⟩ := runs_bind.mp run
      obtain ⟨values, w₂, others, _⟩ := runs_bind.mp rest
      exact ⟨value, w₁, values, w₂, first, others⟩
    obtain ⟨value, w₁, _, _, first, _⟩ := split (calls.map fun _ => Stack.filled 0) (List.length_map _)
    obtain ⟨m₁, lowered⟩ := (call_follows call qn8006Device frames).lower w value w₁ first
    have later (held : List Stack) (long : held.length = calls.length) : ∃ values w',
        Runs b.env (driven (call.opened qn8006Device) ((calls.map Prod.fst).zip held)) w₁ values w' := by
      obtain ⟨value', w₁', values, w', first', others⟩ := split held long
      obtain ⟨rfl, rfl⟩ := first.det first'
      exact ⟨values, w', others⟩
    obtain ⟨values, s', rest⟩ := @ih m₁ w₁ (call.opened qn8006Device) later
    exact ⟨value :: values, s', lowered.seq (rest.seq (runs_pure.mpr ⟨rfl, rfl⟩))⟩

end

/-! On the pins. -/

def serviceOnPins (qn8006Device : Bool) (calls : List (NativeCall × Frames)) :
    Prog (userSignature.beside wireSignature) (List (Option INT)) :=
  (service qn8006Device calls).lower (behind userSignature bitBanged)

def Board.pinEnv {κ : Type} (b : Board κ) : Env (userSignature.beside wireSignature) (Memory × WireMachine κ) :=
  (cellEnv INT).beside (b.wireEnv I2c.QN8006_I2C_ADDR)

section
variable {κ : Type} {b : Board κ} {m : Memory} {v : WireMachine κ} {qn8006Device : Bool}
  {calls : List (NativeCall × Frames)} {values : List (Option INT)} {s' : Memory × WireMachine κ}

theorem pins_refine_calls (b : Board κ) : Refines b.pinEnv b.callEnv (behind userSignature bitBanged)
    (fun s => I2c.Ready s.2.wired) (fun s => (s.1, s.2.machine)) := by
  have refines : Refines (b.wireEnv I2c.QN8006_I2C_ADDR) (b.seenAt I2c.QN8006_I2C_ADDR).env bitBanged
      (fun v => I2c.Ready v.wired) WireMachine.machine := bitBanged_refines b I2c.QN8006_I2C_ADDR
  have here : b.seenAt I2c.QN8006_I2C_ADDR = b := if_pos rfl
  rw [here] at refines
  exact refines.beside (cellEnv INT)

theorem onPins_raise (ready : I2c.Ready v.wired)
    (run : Runs b.pinEnv (serviceOnPins qn8006Device calls) (m, v) values s') :
    Runs b.callEnv (service qn8006Device calls) (m, v.machine) values (s'.1, s'.2.machine) ∧
      I2c.Ready s'.2.wired := run.raise (pins_refine_calls b) ready

theorem onPins_lower (ready : I2c.Ready v.wired) (answered : ∀ held : List Stack, held.length = calls.length →
      ∃ values w', Runs b.env (driven qn8006Device ((calls.map Prod.fst).zip held)) v.machine values w') :
    ∃ values s', Runs b.pinEnv (serviceOnPins qn8006Device calls) (m, v) values s' := by
  obtain ⟨values, s', run⟩ := @service_lower κ b m v.machine qn8006Device calls answered
  have start : (fun s : Memory × WireMachine κ => (s.1, s.2.machine)) (m, v) = (m, v.machine) := rfl
  obtain ⟨s', lowered, _⟩ := run.lower (pins_refine_calls b) ready start
  exact ⟨values, s', lowered⟩

/-- A session of which no request depends on what its variables held. -/
theorem onPins_values (ready : I2c.Ready v.wired) {p : Drv (List (Option INT))} {w' : Machine κ}
    (same : ∀ held : List Stack, held.length = calls.length →
      driven qn8006Device ((calls.map Prod.fst).zip held) = p)
    (run : Runs b.env p v.machine values w') :
    ∃ s', Runs b.pinEnv (serviceOnPins qn8006Device calls) (m, v) values s' := by
  obtain ⟨values', s', onPins⟩ := @onPins_lower κ b m v qn8006Device calls ready
    fun held long => ⟨values, w', same held long ▸ run⟩
  obtain ⟨held, long, requests, _⟩ := service_raise (onPins_raise ready onPins).1
  rw [same held long] at requests
  obtain ⟨rfl, _⟩ := run.det requests
  exact ⟨s', onPins⟩

/-- The whole way down: a session of native methods on the pins answers as the driver's requests on the
registers do, writes no other memory of the process than the variables that are passed, and returns if the
driver answers. -/
theorem service_on_pins (b : Board κ) (ready : I2c.Ready v.wired) (m : Memory) (qn8006Device : Bool)
    (calls : List (NativeCall × Frames)) :
    (∀ values m' v', Runs b.pinEnv (serviceOnPins qn8006Device calls) (m, v) values (m', v') →
      I2c.Ready v'.wired ∧ (∀ c, Unpassed calls c → m' c = m c) ∧
      ∃ held : List Stack, held.length = calls.length ∧
        Runs b.env (driven qn8006Device ((calls.map Prod.fst).zip held)) v.machine values v'.machine) ∧
    ((∀ held : List Stack, held.length = calls.length → ∃ values w',
        Runs b.env (driven qn8006Device ((calls.map Prod.fst).zip held)) v.machine values w') →
      ∃ values s', Runs b.pinEnv (serviceOnPins qn8006Device calls) (m, v) values s') := by
  constructor
  · intro values m' v' run
    obtain ⟨raised, ready'⟩ := onPins_raise ready run
    obtain ⟨held, long, requests, kept⟩ := service_raise raised
    exact ⟨ready', kept, held, long, requests⟩
  · exact onPins_lower ready

end

def tuning : List (NativeCall × Frames) :=
  [(.jniInit true true, ⟨40, 7⟩), (.write (.setFrequency 10130), ⟨40, 7⟩), (.read .getFrequency, ⟨48, 7⟩)]

def restingPins {κ : Type} (globals : Globals) (chip : κ) : WireMachine κ := ⟨globals, .rest chip⟩

theorem tuning_on_pins : ∃ m' v', Runs (registerFile (fun _ => 0) granted).pinEnv (serviceOnPins false tuning)
    (fun _ => 3, restingPins Globals.initial fun _ => 0) [some 0, none, some 10130] (m', v') ∧ m' 41 = 3 := by
  let p : Drv (List (Option INT)) := driven false ((tuning.map Prod.fst).zip (List.replicate 3 (.filled 0)))
  have same (held : List Stack) (long : held.length = tuning.length) :
      driven false ((tuning.map Prod.fst).zip held) = p := by
    match held, long with
    | [_, _, _], _ => rfl
  have done : (exec (registerFile (fun _ => 0) granted).env 1 p clearedChip).map (fun r => r.1) =
      some [some 0, none, some 10130] := by decide +kernel
  obtain ⟨_, w', run, rfl⟩ := exec_observe 1 _ done
  have ready : I2c.Ready (restingPins Globals.initial fun _ : UINT8 => (0 : UINT8)).wired := I2c.rest_ready
  obtain ⟨⟨m', v'⟩, onPins⟩ := @onPins_values _ _ (fun _ => 3) _ _ _ _ ready p w' same run
  have session := service_on_pins (registerFile (fun _ => 0) granted) ready (fun _ => 3) false tuning
  exact ⟨m', v', onPins, (session.1 _ m' v' onPins).2.1 41 (by decide)⟩

end Yika.Fm
