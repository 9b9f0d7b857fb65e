import Mathlib.Logic.Function.Basic
import Yika.Fm.Ioctl
import Yika.Program.Concurrent

/-! Two clients of the driver. Nothing in the driver keeps two ioctls apart: every register
transaction and every access to a global of one of them may fall between two of the other. -/

namespace Yika.Fm
open Program

/-- What two clients share: a register of the chip, or a global of the driver. -/
inductive Cell where
  | reg (adr : UINT8)
  | byte (v : Var8)
  | half (v : Var16)
  deriving DecidableEq

def FmOp.cell : FmOp → Option Cell
  | .ext (.readReg adr) => some (.reg adr)
  | .ext (.writeReg adr _) => some (.reg adr)
  | .load8 v => some (.byte v)
  | .store8 v _ => some (.byte v)
  | .load16 v => some (.half v)
  | .store16 v _ => some (.half v)
  | _ => none

def FmOp.target : FmOp → Option Cell
  | .ext (.writeReg adr _) => some (.reg adr)
  | .store8 v _ => some (.byte v)
  | .store16 v _ => some (.half v)
  | _ => none

def Conflicts (o o' : FmOp) : Prop :=
  ∃ c, (o.target = some c ∧ o'.cell = some c) ∨ (o.cell = some c ∧ o'.target = some c)

/-- A chip whose registers are memory. What a client asks of the user side is answered by
`user`, which differs from client to client. -/
def registerFile (beyond : UINT8 → UINT8) (user : (e : Ext) → e.Answer) :
    Board (UINT8 → UINT8) where
  respond
    | .readReg adr, regs => (regs adr, regs)
    | .writeReg adr value, regs => ((), Function.update regs adr value)
    | e, regs => (user e, regs)
  beyond := beyond

section
variable {beyond : UINT8 → UINT8} {user user' : (e : Ext) → e.Answer}

/-- An operation answers the same before and after one that writes another cell. -/
theorem answer_kept {o o' : FmOp} (apart : ∀ c, o'.target = some c → o.cell ≠ some c)
    (w : Machine (UINT8 → UINT8)) :
    ((registerFile beyond user).env o ((registerFile beyond user').env o' w).2).1 =
      ((registerFile beyond user).env o w).1 := by
  cases o' with
  | ext e =>
    cases e with
    | writeReg adr value =>
      have other := apart _ rfl
      cases o with
      | ext e =>
        cases e with
        | readReg adr' =>
          have different : adr' ≠ adr := fun same => other (same ▸ rfl)
          exact Function.update_of_ne different value w.world
        | _ => rfl
      | _ => rfl
    | _ => rfl
  | store8 v value =>
    have other := apart _ rfl
    cases o with
    | load8 v' =>
      have different : v' ≠ v := fun same => other (same ▸ rfl)
      exact Function.update_of_ne different value w.globals.byte
    | _ => rfl
  | store16 v value =>
    have other := apart _ rfl
    cases o with
    | load16 v' =>
      have different : v' ≠ v := fun same => other (same ▸ rfl)
      exact Function.update_of_ne different value w.globals.half
    | _ => rfl
  | _ => rfl

/-- Operations that write different cells, or do not both write, lead to the same state in
either order. -/
theorem state_commutes {o o' : FmOp} (apart : ∀ c, o.target = some c → o'.target ≠ some c)
    (w : Machine (UINT8 → UINT8)) :
    ((registerFile beyond user').env o' ((registerFile beyond user).env o w).2).2 =
      ((registerFile beyond user).env o ((registerFile beyond user').env o' w).2).2 := by
  cases o with
  | ext e =>
    cases e with
    | writeReg adr value =>
      cases o' with
      | ext e =>
        cases e with
        | writeReg adr' value' =>
          have different : adr ≠ adr' := fun same => apart _ rfl (same ▸ rfl)
          have commutes := Function.update_comm different value value' w.world
          simp only [registerFile, Board.env, commutes]
        | _ => rfl
      | _ => rfl
    | _ => rfl
  | store8 v value =>
    cases o' with
    | store8 v' value' =>
      have different : v ≠ v' := fun same => apart _ rfl (same ▸ rfl)
      have commutes := Function.update_comm different value value' w.globals.byte
      simp only [Board.env, Globals.set8, commutes]
    | _ => rfl
  | store16 v value =>
    cases o' with
    | store16 v' value' =>
      have different : v ≠ v' := fun same => apart _ rfl (same ▸ rfl)
      have commutes := Function.update_comm different value value' w.globals.half
      simp only [Board.env, Globals.set16, commutes]
    | _ => rfl
  | _ => rfl

theorem target_cell {o : FmOp} {c : Cell} (writes : o.target = some c) : o.cell = some c := by
  cases o with
  | ext e =>
    cases e with
    | writeReg adr value => exact writes
    | _ => cases writes
  | store8 v value => exact writes
  | store16 v value => exact writes
  | _ => cases writes

/-- Operations of the two clients that do not conflict may be swapped. -/
theorem independent_of_not_conflicts {o o' : FmOp} (apart : ¬Conflicts o o') :
    Independent (registerFile beyond user).env (registerFile beyond user').env o o' := by
  constructor
  case first =>
    exact answer_kept fun c writes accesses => apart ⟨c, .inr ⟨accesses, writes⟩⟩
  case second =>
    exact answer_kept fun c writes accesses => apart ⟨c, .inl ⟨writes, accesses⟩⟩
  case state =>
    exact state_commutes fun c writes other => apart ⟨c, .inl ⟨writes, target_cell other⟩⟩

end

/-- No access of the other client comes before a conflicting one of `first`. -/
def ConflictsInOrder (first : Bool) (schedule : List (Bool × Event fmSignature)) : Prop :=
  schedule.Pairwise fun l l' => l.1 = !first → l'.1 = first → ¬Conflicts l.2.1 l'.2.1

/-! Two AUDIO_CONFIG ioctls for the transmitter: soft clipping on, and the AGC gain set to 10. Both
read the register TXAGC_GAIN, change their own bits of it and write it back. -/

def granted : (e : Ext) → e.Answer
  | .readReg _ => 0
  | .peek _ => 0
  | .copyFromUser => true
  | .copyToUser => true
  | .writeReg _ _ => ()
  | .callBack _ _ => ()
  | .gpioMode _ _ => ()
  | .gpioDir _ _ => ()
  | .gpioOut _ _ => ()
  | .hwPower _ => ()
  | .poke _ _ => ()
  | .getIntArrayRegion _ _ _ => ()

def gainRequest : Bool → Ioctl
  | false => .audioConfig ⟨3, 1, 0⟩
  | true => .audioConfig ⟨5, 10, 0⟩

/-- One register update of an AUDIO_CONFIG, as events. -/
def gainEvents (old new : UINT8) : List (Event fmSignature) :=
  [⟨.ext .copyFromUser, true⟩, ⟨.ext (.readReg TXAGC_GAIN), old⟩,
    ⟨.ext (.writeReg TXAGC_GAIN new), ()⟩]

def clearedChip : Machine (UINT8 → UINT8) := ⟨Globals.initial, fun _ => 0⟩

theorem gainRequest_traces (client : Bool) (old : UINT8) :
    Traces (qn8006UnlockedIoctl 0 (gainRequest client))
      (gainEvents old (if client then (old &&& ~~~0x1f) ||| (10 &&& 0x1f)
        else (old &&& ~~~0x80) ||| (0x80 &&& 0x80))) .done := by
  cases client with
  | false => exact .op (.op (.op .ret))
  | true => exact .op (.op (.op .ret))

/-- Both clients read before either writes. -/
def crossed : List (Bool × Event fmSignature) :=
  [(false, ⟨.ext .copyFromUser, true⟩), (true, ⟨.ext .copyFromUser, true⟩),
    (false, ⟨.ext (.readReg TXAGC_GAIN), 0⟩), (true, ⟨.ext (.readReg TXAGC_GAIN), 0⟩),
    (false, ⟨.ext (.writeReg TXAGC_GAIN 0x80), ()⟩), (true, ⟨.ext (.writeReg TXAGC_GAIN 10), ()⟩)]

theorem crossed_runs : ∃ w', Concurrent (fun _ => (registerFile (fun _ => 0) granted).env)
    (fun client => qn8006UnlockedIoctl 0 (gainRequest client)) clearedChip crossed
    (fun _ => .done) w' ∧ w'.world TXAGC_GAIN = 10 := by
  refine ⟨_, ⟨.cons ⟨rfl, rfl⟩ (.cons ⟨rfl, rfl⟩ (.cons ⟨rfl, rfl⟩ (.cons ⟨rfl, rfl⟩
    (.cons ⟨rfl, rfl⟩ (.cons ⟨rfl, rfl⟩ (.nil _)))))), fun client => ?_⟩, rfl⟩
  cases client with
  | false => exact gainRequest_traces false 0
  | true => exact gainRequest_traces true 0

/-- In either serial order both updates are there. -/
theorem serial_gain (first : Bool) {r r' : Reply} {w₁ w₂ : Machine (UINT8 → UINT8)}
    (one : Runs (registerFile (fun _ => 0) granted).env
      (qn8006UnlockedIoctl 0 (gainRequest first)) clearedChip r w₁)
    (two : Runs (registerFile (fun _ => 0) granted).env
      (qn8006UnlockedIoctl 0 (gainRequest !first)) w₁ r' w₂) : w₂.world TXAGC_GAIN = 0x8a := by
  have both : Runs (registerFile (fun _ => 0) granted).env
      ((qn8006UnlockedIoctl 0 (gainRequest first)).bind
        fun _ => qn8006UnlockedIoctl 0 (gainRequest !first)) clearedChip r' w₂ := one.seq two
  cases first with
  | false =>
    obtain ⟨_, rfl⟩ := both.det (exec_runs 1 rfl)
    rfl
  | true =>
    obtain ⟨_, rfl⟩ := both.det (exec_runs 1 rfl)
    rfl

/-- Interleaved as in `crossed`, one of the updates is lost: no serial order ends like this. -/
theorem lost_update : ¬∀ (request : Bool → Ioctl) (w w' : Machine (UINT8 → UINT8))
    (schedule : List (Bool × Event fmSignature)) (reply : Bool → Reply),
    Concurrent (fun _ => (registerFile (fun _ => 0) granted).env)
      (fun client => qn8006UnlockedIoctl 0 (request client)) w schedule reply w' →
    ∃ (first : Bool) (r r' : Reply) (w₁ : Machine (UINT8 → UINT8)),
      Runs (registerFile (fun _ => 0) granted).env (qn8006UnlockedIoctl 0 (request first)) w r w₁ ∧
      Runs (registerFile (fun _ => 0) granted).env
        (qn8006UnlockedIoctl 0 (request !first)) w₁ r' w' := by
  intro serializable
  obtain ⟨w', run, gain⟩ := crossed_runs
  obtain ⟨first, r, r', w₁, one, two⟩ := serializable _ _ _ _ _ run
  rw [serial_gain first one two] at gain
  exact absurd gain (by decide)

end Yika.Fm
