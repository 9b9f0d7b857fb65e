import Yika.Fm.Access
import Yika.Fm.Settings

/-! Which requests of two clients may be interleaved as one likes. Requests that write nothing the
other one goes to end as if the one had waited for the other. Settings that share a register lose
nothing where they set the same bits of it. -/

namespace Yika.Fm
open Program

/-! What a request goes to. -/

/-- A setting goes to the registers of its updates, whatever the others of its kind go to. -/
def Ioctl.alteredRegs (cmd : Ioctl) : List UINT8 :=
  match cmd.fields with
  | some us => us.map Update.key
  | none => cmd.writtenRegs

def Ioctl.accessedRegs (cmd : Ioctl) : List UINT8 :=
  match cmd.fields with
  | some us => us.map Update.key
  | none => cmd.writtenRegs ++ cmd.readRegs

def Ioctl.Alters (cmd : Ioctl) : Cell → Prop
  | .reg adr => adr ∈ cmd.alteredRegs
  | .byte v => v ∈ cmd.bytes
  | .half v => v ∈ cmd.halves

def Ioctl.Accesses (cmd : Ioctl) : Cell → Prop
  | .reg adr => adr ∈ cmd.accessedRegs
  | .byte v => v ∈ cmd.bytes ∨ v ∈ cmd.readBytes
  | .half v => v ∈ cmd.halves ∨ v ∈ cmd.readHalves

/-- Neither may write a cell that the other may go to. -/
def Ioctl.Apart (request request' : Ioctl) : Prop :=
  ∀ c, (request.Alters c → ¬request'.Accesses c) ∧ (request'.Alters c → ¬request.Accesses c)

def WritesWithin (cells : Cell → Prop) (o : FmOp) : Prop := ∀ c, o.target = some c → cells c

def GoesWithin (cells : Cell → Prop) (o : FmOp) : Prop := ∀ c, o.cell = some c → cells c

section
variable {α : Type} {p : Drv α} {us : List RegUpdate} {cmd : Ioctl} {stackPower : INT} {cells : Cell → Prop}

theorem Updates.uses (updates : Updates us p) (listed : ∀ u ∈ us, cells (.reg u.key)) :
    Uses (GoesWithin cells) p := by
  have within {reg : UINT8} (inside : cells (.reg reg)) : ∀ c, some (Cell.reg reg) = some c → cells c := by
    rintro _ ⟨⟩
    exact inside
  induction updates with
  | ret value => exact uses_pure value
  | bits reg bitMask dataVal _ ih =>
    rw [List.forall_mem_cons] at listed
    exact ⟨within listed.1, fun _ => ⟨within listed.1, fun _ => ih listed.2⟩⟩
  | write reg value _ ih =>
    rw [List.forall_mem_cons] at listed
    exact ⟨within listed.1, fun _ => ih listed.2⟩

theorem fields_uses (listed : cmd.fields = some us) (updated : ∀ u ∈ us, cells (.reg u.key)) :
    Uses (GoesWithin cells) (qn8006UnlockedIoctl stackPower cmd) := by
  obtain ⟨command, whole, updates⟩ := fields_command stackPower listed
  rw [whole]
  refine uses_bind ⟨nofun, fun _ => trivial⟩ fun copied => uses_ite.mpr ⟨fun _ => ?_, fun _ => uses_pure _⟩
  exact uses_bind (updates.uses updated) fun _ => uses_pure _

theorem alteredRegs_mem (listed : cmd.fields = some us) {u : RegUpdate} (member : u ∈ us) :
    u.key ∈ cmd.alteredRegs := by
  rw [Ioctl.alteredRegs, listed]
  exact List.mem_map_of_mem member

theorem writes_within {o : FmOp} (writes : Writes cmd.alteredRegs cmd.bytes cmd.halves o) :
    WritesWithin cmd.Alters o := by
  intro c target
  cases o with
  | ext e =>
    cases e with
    | writeReg adr value =>
      obtain rfl := Option.some.inj target
      exact writes
    | _ => cases target
  | store8 v value =>
    obtain rfl := Option.some.inj target
    exact writes
  | store16 v value =>
    obtain rfl := Option.some.inj target
    exact writes
  | _ => cases target

theorem ioctl_alters (stackPower : INT) (cmd : Ioctl) :
    Uses (WritesWithin cmd.Alters) (qn8006UnlockedIoctl stackPower cmd) := by
  cases listed : cmd.fields with
  | some us =>
    have goes : Uses (GoesWithin cmd.Alters) (qn8006UnlockedIoctl stackPower cmd) :=
      fields_uses listed fun u member => alteredRegs_mem listed member
    exact goes.mono fun o within c target => within c (target_cell target)
  | none =>
    have same : cmd.alteredRegs = cmd.writtenRegs := by rw [Ioctl.alteredRegs, listed]
    refine (qn8006UnlockedIoctl_alters stackPower cmd).mono fun o writes => writes_within ?_
    rwa [same]

theorem reads_within {o : FmOp} (writes : Writes cmd.accessedRegs cmd.bytes cmd.halves o)
    (reads : Reads cmd.Derefs cmd.accessedRegs cmd.readBytes cmd.readHalves o) : GoesWithin cmd.Accesses o := by
  intro c cell
  cases o with
  | ext e =>
    cases e with
    | readReg adr =>
      obtain rfl := Option.some.inj cell
      exact reads
    | writeReg adr value =>
      obtain rfl := Option.some.inj cell
      exact writes
    | _ => cases cell
  | load8 v =>
    obtain rfl := Option.some.inj cell
    exact .inr reads
  | store8 v value =>
    obtain rfl := Option.some.inj cell
    exact .inl writes
  | load16 v =>
    obtain rfl := Option.some.inj cell
    exact .inr reads
  | store16 v value =>
    obtain rfl := Option.some.inj cell
    exact .inl writes
  | stepTbl index => cases cell

theorem alters_accesses {c : Cell} (alters : cmd.Alters c) : cmd.Accesses c := by
  cases c with
  | reg adr =>
    rw [Ioctl.Alters, Ioctl.alteredRegs] at alters
    rw [Ioctl.Accesses, Ioctl.accessedRegs]
    cases listed : cmd.fields with
    | some us => rwa [listed] at alters
    | none =>
      rw [listed] at alters
      exact List.mem_append_left _ alters
  | byte v => exact .inl alters
  | half v => exact .inl alters

theorem ioctl_goes {events : List (Event fmSignature)} {reply : Reply}
    (traces : Traces (qn8006UnlockedIoctl stackPower cmd) events reply) :
    ∀ e ∈ events, GoesWithin cmd.Accesses e.1 := by
  cases listed : cmd.fields with
  | some us =>
    have same : cmd.accessedRegs = cmd.alteredRegs := by rw [Ioctl.accessedRegs, Ioctl.alteredRegs, listed]
    refine traces.uses (fields_uses listed fun u member => ?_)
    rw [Ioctl.Accesses, same]
    exact alteredRegs_mem listed member
  | none =>
    have both : cmd.accessedRegs = cmd.writtenRegs ++ cmd.readRegs := by rw [Ioctl.accessedRegs, listed]
    intro e member
    apply reads_within
    · apply Writes.mono _ subset_rfl subset_rfl _ (traces.uses (qn8006UnlockedIoctl_alters stackPower cmd) e member)
      exact both ▸ List.subset_append_left ..
    · apply Reads.mono _ subset_rfl subset_rfl _ (traces.uses (qn8006UnlockedIoctl_reads stackPower cmd) e member)
      exact both ▸ List.subset_append_right ..

end

/-! Two requests that go to different cells. -/

def SameAt (w w' : Machine (UINT8 → UINT8)) : Cell → Prop
  | .reg adr => w.world adr = w'.world adr
  | .byte v => w.globals.byte v = w'.globals.byte v
  | .half v => w.globals.half v = w'.globals.half v

section
variable {beyond : UINT8 → UINT8} {user : Bool → (e : Ext) → e.Answer} {stackPower : Bool → INT}
  {request : Bool → Ioctl} {w w' : Machine (UINT8 → UINT8)}
  {schedule : List (Bool × Event fmSignature)} {reply : Bool → Reply}

def Alone (beyond : UINT8 → UINT8) (user : Bool → (e : Ext) → e.Answer) (stackPower : Bool → INT)
    (request : Bool → Ioctl) (reply : Bool → Reply) (client : Bool) (w w' : Machine (UINT8 → UINT8)) : Prop :=
  Runs (registerFile beyond (user client)).env (qn8006UnlockedIoctl (stackPower client) (request client)) w
    (reply client) w'

/-- The request of `first` is carried out, and then the other one. -/
def Serial (beyond : UINT8 → UINT8) (user : Bool → (e : Ext) → e.Answer) (stackPower : Bool → INT)
    (request : Bool → Ioctl) (reply : Bool → Reply) (first : Bool) (w w' : Machine (UINT8 → UINT8)) : Prop :=
  ∃ w₁, Alone beyond user stackPower request reply first w w₁ ∧
    Alone beyond user stackPower request reply (!first) w₁ w'

abbrev Together (beyond : UINT8 → UINT8) (user : Bool → (e : Ext) → e.Answer) (stackPower : Bool → INT)
    (request : Bool → Ioctl) (w : Machine (UINT8 → UINT8)) (schedule : List (Bool × Event fmSignature))
    (reply : Bool → Reply) (w' : Machine (UINT8 → UINT8)) : Prop :=
  Concurrent (fun client => (registerFile beyond (user client)).env)
    (fun client => qn8006UnlockedIoctl (stackPower client) (request client)) w schedule reply w'

/-- Where no access of the other client comes before a conflicting one of `first`, that order is the
serial one. -/
theorem ordered_serial (run : Together beyond user stackPower request w schedule reply w') {first : Bool}
    (ordered : ConflictsInOrder first schedule) : Serial beyond user stackPower request reply first w w' := by
  apply run.serial
  refine ordered.imp fun apart second own => ?_
  exact independent_of_not_conflicts (apart second own)

theorem apart_ordered (run : Together beyond user stackPower request w schedule reply w')
    (apart : (request false).Apart (request true)) (first : Bool) : ConflictsInOrder first schedule := by
  have either (client : Bool) : (request client).Apart (request !client) := by
    cases client with
    | false => exact apart
    | true => exact fun c => ⟨(apart c).2, (apart c).1⟩
  have listed {l : Bool × Event fmSignature} (member : l ∈ schedule) : l.2 ∈ eventsOf l.1 schedule :=
    List.mem_map_of_mem (List.mem_filter.mpr ⟨member, by simp⟩)
  have alters {l : Bool × Event fmSignature} (member : l ∈ schedule) : WritesWithin (request l.1).Alters l.2.1 :=
    (run.traces l.1).uses (ioctl_alters _ _) l.2 (listed member)
  have goes {l : Bool × Event fmSignature} (member : l ∈ schedule) : GoesWithin (request l.1).Accesses l.2.1 :=
    ioctl_goes (run.traces l.1) l.2 (listed member)
  refine List.pairwise_of_forall_mem_list fun l member l' member' second own => ?_
  rintro ⟨c, ⟨writes, accesses⟩ | ⟨accesses, writes⟩⟩
  · have here := (either l.1 c).1 (alters member c writes)
    rw [second, Bool.not_not, ← own] at here
    exact here (goes member' c accesses)
  · have here := (either l'.1 c).1 (alters member' c writes)
    rw [own, ← second] at here
    exact here (goes member c accesses)

theorem Alone.kept {client : Bool} (alone : Alone beyond user stackPower request reply client w w') {c : Cell}
    (outside : ¬(request client).Alters c) : SameAt w' w c := by
  have within := ioctl_alters (stackPower client) (request client)
  cases c with
  | reg adr =>
    refine within.frame (fun w => w.world adr) (fun o w₁ writes => ?_) alone
    cases o with
    | ext e =>
      cases e with
      | writeReg adr' value =>
        have different : adr ≠ adr' := fun same => outside (same ▸ writes _ rfl)
        exact Function.update_of_ne different value w₁.world
      | _ => rfl
    | _ => rfl
  | byte v =>
    refine within.frame (fun w => w.globals.byte v) (fun o w₁ writes => ?_) alone
    cases o with
    | store8 v' value =>
      have different : v ≠ v' := fun same => outside (same ▸ writes _ rfl)
      exact Function.update_of_ne different value w₁.globals.byte
    | _ => rfl
  | half v =>
    refine within.frame (fun w => w.globals.half v) (fun o w₁ writes => ?_) alone
    cases o with
    | store16 v' value =>
      have different : v ≠ v' := fun same => outside (same ▸ writes _ rfl)
      exact Function.update_of_ne different value w₁.globals.half
    | _ => rfl

/-! Two settings, which may share registers. -/

def accessOf : Event fmSignature → Option (Access UINT8 8)
  | ⟨.ext (.readReg adr), seen⟩ => some (.read adr seen)
  | ⟨.ext (.writeReg adr value), _⟩ => some (.write adr value)
  | _ => none

def registerAccesses (schedule : List (Bool × Event fmSignature)) : List (Bool × Access UINT8 8) :=
  schedule.filterMap fun l => (accessOf l.2).map fun a => (l.1, a)

theorem accessesOf_registerAccesses (client : Bool) :
    accessesOf client (registerAccesses schedule) = (eventsOf client schedule).filterMap accessOf := by
  induction schedule with
  | nil => rfl
  | cons l schedule ih =>
    obtain ⟨client', e⟩ := l
    by_cases own : client' = client
    · subst own
      rw [eventsOf_cons_self, List.filterMap_cons, registerAccesses, List.filterMap_cons]
      cases accessOf e with
      | none => exact ih
      | some a => exact (accessesOf_self a).trans (congrArg _ ih)
    · obtain rfl := Bool.eq_not.mpr own
      rw [eventsOf_cons_other, registerAccesses, List.filterMap_cons]
      cases accessOf e with
      | none => exact ih
      | some a => exact (accessesOf_other (by simp) a).trans ih

theorem registers_path
    (path : Path (fun w l w' => Performs (registerFile beyond (user l.1)).env w l.2 w') w schedule w') :
    Path (fun cells l cells' => l.2.Happens cells cells') w.world (registerAccesses schedule) w'.world := by
  induction schedule generalizing w with
  | nil =>
    obtain rfl := path_nil.mp path
    exact .nil _
  | cons l schedule ih =>
    obtain ⟨client, o, answer⟩ := l
    obtain ⟨w₁, ⟨answered, rfl⟩, rest⟩ := path_cons.mp path
    have later := ih rest
    cases o with
    | ext e =>
      cases e with
      | readReg adr => exact .cons ⟨answered, rfl⟩ later
      | writeReg adr value => exact .cons rfl later
      | _ => exact later
    | _ => exact later

theorem Updates.traced {α : Type} {p : Drv α} {us : List RegUpdate} {events : List (Event fmSignature)} {value : α}
    (updates : Updates us p) (traces : Traces p events value) : Updating none us (events.filterMap accessOf) := by
  induction updates generalizing events with
  | ret value =>
    obtain ⟨rfl, _⟩ := traces_pure.mp traces
    exact .done
  | bits reg bitMask dataVal _ ih =>
    obtain ⟨seen, later, rfl, second⟩ := traces_op.mp traces
    obtain ⟨_, rest, rfl, last⟩ := traces_op.mp second
    exact .read (.written (ih last))
  | write reg value _ ih =>
    obtain ⟨_, rest, rfl, last⟩ := traces_op.mp traces
    exact .replaced rfl (ih last)

def made (stackPower : Bool → INT) (request : Bool → Ioctl) (reply : Bool → Reply) (client : Bool) : List RegUpdate :=
  carriedOut ((stackPower client, request client), reply client)

theorem made_sublist {us : List RegUpdate} {client : Bool} (listed : (request client).fields = some us) :
    (made stackPower request reply client).Sublist us := by
  unfold made carriedOut
  split
  next => exact List.nil_sublist us
  next =>
    rw [fields_settings listed]
    exact List.Sublist.refl us

theorem made_updating {us : List RegUpdate} {client : Bool} {events : List (Event fmSignature)}
    (listed : (request client).fields = some us)
    (traces : Traces (qn8006UnlockedIoctl (stackPower client) (request client)) events (reply client)) :
    Updating none (made stackPower request reply client) (events.filterMap accessOf) := by
  obtain ⟨command, whole, updates⟩ := fields_command (stackPower client) listed
  rw [whole] at traces
  obtain ⟨copied, later, rfl, rest⟩ := traces_op.mp traces
  cases copied with
  | true =>
    have body : Traces (command >>= fun _ => pure .done) later (reply client) := rest
    obtain ⟨early, late, _, rfl, first, last⟩ := body.split
    obtain ⟨rfl, replied⟩ := traces_pure.mp last
    rw [List.append_nil, made, carriedOut, replied, if_neg Reply.noConfusion, fields_settings listed]
    have traced := updates.traced first
    exact traced
  | false =>
    obtain ⟨rfl, replied⟩ := traces_pure.mp rest
    rw [made, carriedOut, replied, if_pos rfl]
    exact .done

/-- Whether a setting is refused is up to the user side alone. -/
theorem setting_replied (run : Together beyond user stackPower request w schedule reply w') {us : List RegUpdate}
    {client : Bool} (listed : (request client).fields = some us) :
    reply client = if user client .copyFromUser then .done else .fault := by
  have traces : Traces (qn8006UnlockedIoctl (stackPower client) (request client)) (eventsOf client schedule)
      (reply client) := run.traces client
  obtain ⟨command, whole, updates⟩ := fields_command (stackPower client) listed
  rw [whole] at traces
  obtain ⟨copied, later, first, rest⟩ := traces_op.mp traces
  have answered : copied = user client .copyFromUser := by
    have member : (client, (⟨.ext .copyFromUser, copied⟩ : Event fmSignature)) ∈ schedule :=
      mem_eventsOf (first ▸ List.mem_cons_self)
    obtain ⟨early, late, rfl⟩ := List.append_of_mem member
    obtain ⟨w₁, _, there⟩ := path_append.mp run.path
    obtain ⟨w₂, performed, _⟩ := path_cons.mp there
    exact performed.1
  rw [← answered]
  cases copied with
  | true =>
    have body : Traces (command >>= fun _ => pure .done) later (reply client) := rest
    obtain ⟨early, late, _, rfl, _, last⟩ := body.split
    exact (traces_pure.mp last).2
  | false => exact (traces_pure.mp rest).2

def RegisterCell (c : Cell) : Prop := ∃ adr, c = .reg adr

theorem globals_left {o : FmOp} (goes : GoesWithin RegisterCell o) (b : Board (UINT8 → UINT8))
    (w : Machine (UINT8 → UINT8)) : (b.env o w).2.globals = w.globals := by
  cases o with
  | store8 v value =>
    obtain ⟨adr, other⟩ := goes _ rfl
    cases other
  | store16 v value =>
    obtain ⟨adr, other⟩ := goes _ rfl
    cases other
  | _ => rfl

theorem setting_goes (stackPower : INT) {cmd : Ioctl} {us : List RegUpdate} (listed : cmd.fields = some us) :
    Uses (GoesWithin RegisterCell) (qn8006UnlockedIoctl stackPower cmd) :=
  fields_uses listed fun _ _ => ⟨_, rfl⟩

theorem setting_alone {us : List RegUpdate} {client : Bool} (listed : (request client).fields = some us)
    (replied : reply client = if user client .copyFromUser then .done else .fault) (w : Machine (UINT8 → UINT8)) :
    Alone beyond user stackPower request reply client w
      ⟨w.globals, applyAll (made stackPower request reply client) w.world⟩ := by
  have chip : HoldsRegisters (registerFile beyond (user client)) id := registerFile_holds beyond (user client)
  obtain ⟨answer, w₁, run, _⟩ := settings_return chip (stackPower client) (fields_settings listed) w
  have kept := (setting_goes (stackPower client) listed).frame (fun w => w.globals)
    (fun _ w goes => globals_left goes _ w) run
  have set := ioctl_settings chip (stackPower client) (fields_settings listed) answer w₁ run
  obtain ⟨command, whole, updates⟩ := fields_command (stackPower client) listed
  have told : Ensures (registerFile beyond (user client)).env
      (qn8006UnlockedIoctl (stackPower client) (request client))
      (fun r _ => r = if user client .copyFromUser then .done else .fault) w := by
    rw [whole, ensures_fromUser]
    split
    next copied =>
      rw [ensures_bind]
      intro _ w₂ _
      rw [ensures_pure]
      exact (if_pos copied).symm
    next refused => exact (if_neg refused).symm
  have same : answer = reply client := (told answer w₁ run).trans replied.symm
  subst same
  have state : w₁ = ⟨w.globals, applyAll (made stackPower request reply client) w.world⟩ :=
    congrArg₂ Machine.mk kept set
  exact state ▸ run

theorem settings_globals (run : Together beyond user stackPower request w schedule reply w')
    {us : Bool → List RegUpdate} (listed : ∀ client, (request client).fields = some (us client)) :
    w'.globals = w.globals := by
  have goes : ∀ l ∈ schedule, GoesWithin RegisterCell l.2.1 := by
    intro l member
    refine (run.traces l.1).uses (setting_goes _ (listed l.1)) l.2 ?_
    exact List.mem_map_of_mem (List.mem_filter.mpr ⟨member, by simp⟩)
  have path := run.path
  clear run
  induction schedule generalizing w with
  | nil =>
    obtain rfl := path_nil.mp path
    rfl
  | cons l schedule ih =>
    rw [List.forall_mem_cons] at goes
    obtain ⟨w₁, ⟨_, rfl⟩, rest⟩ := path_cons.mp path
    exact (ih goes.2 rest).trans (globals_left goes.1 _ w)

/-- What two settings leave, in whatever way they are interleaved. -/
theorem settings_race (run : Together beyond user stackPower request w schedule reply w')
    {us : Bool → List RegUpdate} (listed : ∀ client, (request client).fields = some (us client))
    (same : SameBits (us false ++ us true)) :
    NoneLost (made stackPower request reply false ++ made stackPower request reply true) w.world w'.world ∧
      w'.globals = w.globals ∧
      ((∀ key key', Disagree (us false) (us true) key → Disagree (us false) (us true) key' → key = key') →
        ∃ first, Serial beyond user stackPower request reply first w w') := by
  have part (client : Bool) : (made stackPower request reply client).Sublist (us client) := made_sublist (listed client)
  have samePart : SameBits (made stackPower request reply false ++ made stackPower request reply true) :=
    fun u member u' member' => same u (((part false).append (part true)).subset member) u'
      (((part false).append (part true)).subset member')
  have updating (client : Bool) : Updating none (made stackPower request reply client)
      (accessesOf client (registerAccesses schedule)) := by
    rw [accessesOf_registerAccesses]
    exact made_updating (listed client) (run.traces client)
  have path := registers_path run.path
  have globals := settings_globals run listed
  refine ⟨race_noneLost samePart updating path, globals, fun single => ?_⟩
  have once (client : Bool) : ((made stackPower request reply client).map Update.key).Nodup :=
    (fields_once (listed client)).sublist ((part client).map _)
  have fewer {key : UINT8} (disagree : Disagree (made stackPower request reply false)
      (made stackPower request reply true) key) : Disagree (us false) (us true) key := by
    obtain ⟨u, member, u', member', rest⟩ := disagree
    exact ⟨u, (part false).subset member, u', (part true).subset member', rest⟩
  obtain ⟨first, cells⟩ := race_serial once samePart
    (fun key key' here there => single key key' (fewer here) (fewer there)) updating path
  refine ⟨first, _, setting_alone (listed first) (setting_replied run (listed first)) w, ?_⟩
  have state : w' = ⟨w.globals, applyAll (made stackPower request reply !first)
      (applyAll (made stackPower request reply first) w.world)⟩ := congrArg₂ Machine.mk globals cells
  rw [state]
  exact setting_alone (listed !first) (setting_replied run (listed !first)) _

/-- Two ioctls of two clients, interleaved in any way. Where neither may write a register or a global
that the other goes to, they do what they do in either order, and what each may write ends as it
leaves it on its own. Two settings that set the same bits of every register they share lose nothing,
and end like one of the two orders unless they want different values for two registers. Any two
ioctls end like the order in which their conflicting accesses come. -/
theorem ioctls_serializable (run : Together beyond user stackPower request w schedule reply w') :
    ((request false).Apart (request true) → ∀ first, ∃ w₁, Alone beyond user stackPower request reply first w w₁ ∧
      Alone beyond user stackPower request reply (!first) w₁ w' ∧ ∀ c, (request first).Alters c → SameAt w' w₁ c) ∧
    (∀ us : Bool → List RegUpdate, (∀ client, (request client).fields = some (us client)) →
      SameBits (us false ++ us true) →
      NoneLost (made stackPower request reply false ++ made stackPower request reply true) w.world w'.world ∧
        w'.globals = w.globals ∧
        ((∀ key key', Disagree (us false) (us true) key → Disagree (us false) (us true) key' → key = key') →
          ∃ first, Serial beyond user stackPower request reply first w w')) ∧
    ∀ first, ConflictsInOrder first schedule → Serial beyond user stackPower request reply first w w' := by
  refine ⟨fun apart first => ?_, fun us listed same => settings_race run listed same,
    fun first ordered => ordered_serial run ordered⟩
  obtain ⟨w₁, one, other⟩ := ordered_serial run (apart_ordered run apart first)
  refine ⟨w₁, one, other, fun c alters => ?_⟩
  apply other.kept
  intro both
  have accesses : (request !first).Accesses c := alters_accesses both
  cases first with
  | false => exact (apart c).1 alters accesses
  | true => exact (apart c).2 alters accesses

end

/-- Soft clipping on, and the pilot deviation set to 9: different registers. -/
def mixedRequest : Bool → Ioctl
  | false => gainRequest false
  | true => .cfgfmmod ⟨0x12, 9⟩

def mixed : List (Bool × Event fmSignature) :=
  [(true, ⟨.ext .copyFromUser, true⟩), (false, ⟨.ext .copyFromUser, true⟩),
    (true, ⟨.ext (.readReg 0x0f), 0⟩), (false, ⟨.ext (.readReg TXAGC_GAIN), 0⟩),
    (true, ⟨.ext (.writeReg 0x0f 0x24), ()⟩), (false, ⟨.ext (.writeReg TXAGC_GAIN 0x80), ()⟩)]

theorem mixed_runs : ∃ w', Together (fun _ => 0) (fun _ => granted) (fun _ => 0) mixedRequest clearedChip mixed
    (fun _ => .done) w' := by
  refine ⟨_, .cons ⟨rfl, rfl⟩ (.cons ⟨rfl, rfl⟩ (.cons ⟨rfl, rfl⟩ (.cons ⟨rfl, rfl⟩
    (.cons ⟨rfl, rfl⟩ (.cons ⟨rfl, rfl⟩ (.nil _)))))), fun client => ?_⟩
  cases client with
  | false => exact gainRequest_traces false 0
  | true => exact .op (.op (.op .ret))

/-- Both clients set the gain to 10, and read before either writes. -/
def alike : List (Bool × Event fmSignature) :=
  [(false, ⟨.ext .copyFromUser, true⟩), (true, ⟨.ext .copyFromUser, true⟩),
    (false, ⟨.ext (.readReg TXAGC_GAIN), 0⟩), (true, ⟨.ext (.readReg TXAGC_GAIN), 0⟩),
    (false, ⟨.ext (.writeReg TXAGC_GAIN 10), ()⟩), (true, ⟨.ext (.writeReg TXAGC_GAIN 10), ()⟩)]

theorem alike_runs : ∃ w', Together (fun _ => 0) (fun _ => granted) (fun _ => 0) (fun _ => gainRequest true)
    clearedChip alike (fun _ => .done) w' := by
  refine ⟨_, .cons ⟨rfl, rfl⟩ (.cons ⟨rfl, rfl⟩ (.cons ⟨rfl, rfl⟩ (.cons ⟨rfl, rfl⟩
    (.cons ⟨rfl, rfl⟩ (.cons ⟨rfl, rfl⟩ (.nil _)))))), fun client => ?_⟩
  cases client with
  | false => exact gainRequest_traces true 0
  | true => exact gainRequest_traces true 0

/-- The mixed requests do what they do one after the other, the second one first, and so do the two
that are alike. -/
theorem mixed_serial : (∃ w₁ w' : Machine (UINT8 → UINT8),
    Runs (registerFile (fun _ => 0) granted).env
      (qn8006UnlockedIoctl 0 (mixedRequest true)) clearedChip .done w₁ ∧
    Runs (registerFile (fun _ => 0) granted).env
      (qn8006UnlockedIoctl 0 (mixedRequest false)) w₁ .done w' ∧ w'.world 0x0f = w₁.world 0x0f) ∧
    ∃ w', NoneLost [⟨TXAGC_GAIN, 0x1f, 10⟩, ⟨TXAGC_GAIN, 0x1f, 10⟩] clearedChip.world w'.world ∧
      ∃ first, Serial (fun _ => 0) (fun _ => granted) (fun _ => 0) (fun _ => gainRequest true) (fun _ => .done) first
        clearedChip w' := by
  constructor
  · obtain ⟨w', run⟩ := mixed_runs
    have apart : (mixedRequest false).Apart (mixedRequest true) := by
      intro c
      cases c with
      | reg adr =>
        have other : adr ∈ [TXAGC_GAIN] → adr ∉ [(0x0f : UINT8)] := by
          rw [List.mem_singleton, List.mem_singleton]
          rintro rfl
          decide
        exact ⟨other, fun pilot gain => other gain pilot⟩
      | byte v => exact ⟨nofun, nofun⟩
      | half v => exact ⟨nofun, nofun⟩
    obtain ⟨w₁, one, other, kept⟩ := (ioctls_serializable run).1 apart true
    exact ⟨w₁, w', one, other, kept (.reg 0x0f) (List.mem_singleton_self _)⟩
  · obtain ⟨w', run⟩ := alike_runs
    have same : SameBits [(⟨TXAGC_GAIN, 0x1f, 10⟩ : RegUpdate), ⟨TXAGC_GAIN, 0x1f, 10⟩] := by
      simp [SameBits]
    obtain ⟨kept, _, serial⟩ := (ioctls_serializable run).2.1 (fun _ => [⟨TXAGC_GAIN, 0x1f, 10⟩]) (fun _ => rfl) same
    refine ⟨w', kept, serial fun key key' here there => ?_⟩
    obtain ⟨u, member, _, _, rfl, _⟩ := here
    obtain ⟨u', member', _, _, rfl, _⟩ := there
    rw [List.mem_singleton.mp member, List.mem_singleton.mp member']

end Yika.Fm
