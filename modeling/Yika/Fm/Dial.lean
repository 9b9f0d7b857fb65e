import Yika.Fm.Service

/-! What a caller of the service may rely on about the frequency: for a session, `Told` says what
`nativeGetQn8006Frequency` returns. -/

namespace Yika.Fm
open Program

instance (f : UINT16) : Decidable (OnGrid f) :=
  inferInstanceAs (Decidable ((7600 ≤ f.toNat ∧ f.toNat ≤ 10800) ∧ f.toNat % 5 = 0))

/-- The frequency that is set after a call that has returned this value, where it is known. The chip
may have been reset or put out of reach, tuned in passing, or to the first channel of a list that the
caller does not see. -/
def NativeCall.dial (before : Option INT) : NativeCall → Option INT → Option INT
  | .jniInit _ _, _ => before
  | .write op, _ => match op with
    | .setFrequency fq => if OnGrid (ushort fq) then some ((ushort fq).setWidth 32) else none
    | .init | .csPin _ | .powerEnable _ => none
    | .setPower _ | .setAudioMode _ | .setAudioConfig _ _ _ | .setSystemMode _ | .rdsEnable _
    | .setCountry _ | .configFMModule _ _ | .loadDefalutSetting _ => before
  | .read op, value => match op with
    | .rxSeekCH start stop step _ _ =>
      if OnGrid (ushort start) ∧ OnGrid (ushort stop) ∧ (uchar step).toNat < 3 then
        if value = some 0 then some ((ushort stop).setWidth 32) else value
      else none
    | .getRSSI _ | .rxSeekCHAll _ _ _ _ _ | .txClearChannelScan _ _ _ _ => none
    | .getFrequency | .getPower | .rdsDetectSignal | .rdsCheckBufferReady => before

/-- Each `getFrequency` of a session has returned -1 before the device was open, and after that the
frequency that was set, where it is known. -/
def Told : Bool → Option INT → List (NativeCall × Option INT) → Prop
  | _, _, [] => True
  | qn8006Device, dial, (call, value) :: session =>
    (call = .read .getFrequency → if qn8006Device then ∀ f ∈ dial, value = some f else value = some (-1)) ∧
      Told (call.opened qn8006Device) (if qn8006Device then call.dial dial value else dial) session

/-- User copies succeed, as they do when the process passes variables of its own. -/
structure Copying {κ : Type} (b : Board κ) : Prop where
  inward : ∀ k, (b.respond .copyFromUser k).1 = true
  outward : ∀ k, (b.respond .copyToUser k).1 = true

section
variable {κ : Type} {b : Board κ} {low high : κ → UINT8} {w w' : Machine κ} {α : Type} {dial value : Option INT}
  {stack : Stack}

theorem Copying.replied (copying : Copying b) {reply answer : Reply}
    (run : Runs b.env (toUser reply) w answer w') : answer = reply := by
  obtain ⟨copied, w₁, copy, last⟩ := runs_bind.mp run
  obtain ⟨rfl, rfl⟩ := runs_copyToUser.mp copy
  rw [copying.outward, if_pos rfl] at last
  exact (runs_pure.mp last).1

theorem Copying.carried (copying : Copying b) {d : Drv Reply} {answer : Reply}
    (run : Runs b.env (fromUser d) w answer w') :
    Runs b.env d (w.after b .copyFromUser) answer w' := by
  obtain ⟨copied, w₁, copy, rest⟩ := runs_bind.mp run
  obtain ⟨rfl, rfl⟩ := runs_copyFromUser.mp copy
  rwa [copying.inward, if_pos rfl] at rest

/-- The chip is tuned to the frequency, where one is known, and no scan is going on. -/
structure Shows (low high : κ → UINT8) (dial : Option INT) (w : Machine κ) : Prop where
  tuned : ∀ f ∈ dial, f = (channelOf low high w).setWidth 32
  idle : w.globals.byte .qndAutoScanAll = 0

theorem Shows.forgotten (shows : Shows low high dial w) {sp : INT} {cmd : Ioctl} {reply : Reply}
    (run : Runs b.env (qn8006UnlockedIoctl sp cmd) w reply w') : Shows low high none w' :=
  ⟨nofun, IoctlStep.idle ⟨sp, reply, run⟩ shows.idle⟩

theorem Shows.kept (shows : Shows low high dial w) (chip : HoldsChannel b low high) {sp : INT} {cmd : Ioctl}
    {reply : Reply} (run : Runs b.env (qn8006UnlockedIoctl sp cmd) w reply w')
    (outside : CH ∉ cmd.regs ∧ CH_STEP ∉ cmd.regs) : Shows low high dial w' := by
  have same : channelOf low high w' = channelOf low high w :=
    channel_kept chip (qn8006UnlockedIoctl_writes sp cmd) outside w reply w' run
  refine ⟨fun f known => ?_, IoctlStep.idle ⟨sp, reply, run⟩ shows.idle⟩
  rw [same]
  exact shows.tuned f known

theorem setFq_channel (chip : HoldsChannel b low high) (copying : Copying b) {sp fq : INT} {reply : Reply}
    (run : Runs b.env (qn8006UnlockedIoctl sp (.setFq fq)) w reply w') :
    channelOf low high w' = reported (ushort fq) := by
  obtain ⟨_, w₁, tuned, last⟩ := runs_bind.mp (copying.carried run)
  obtain ⟨_, rfl⟩ := runs_pure.mp last
  exact qndTuneToCH_channel chip (ushort fq) _ _ tuned

theorem getFq_told (chip : HoldsChannel b low high) (copying : Copying b) {sp : INT} {reply : Reply}
    (run : Runs b.env (qn8006UnlockedIoctl sp .getFq) w reply w') :
    reply = .int ((channelOf low high w).setWidth 32) := by
  obtain ⟨f, w₁, got, sent⟩ := runs_bind.mp run
  obtain rfl := (qnfGetCh_channel chip).ensures f w₁ got
  exact copying.replied sent

theorem rxseekch_shows (chip : HoldsChannel b low high) (copying : Copying b)
    (idle : w.globals.byte .qndAutoScanAll = 0) {sp : INT} {rsc : Qn8006RxSeekCH} (start : OnGrid (ushort rsc.start))
    (stop : OnGrid (ushort rsc.stop)) (index : (uchar rsc.step).toNat < 3) {reply : Reply}
    (run : Runs b.env (qn8006UnlockedIoctl sp (.rxseekch rsc)) w reply w') :
    (if (reply.seekOr rsc).ret = 0 then (ushort rsc.stop).setWidth 32 else (reply.seekOr rsc).ret) =
      (channelOf low high w').setWidth 32 := by
  obtain ⟨found, w₁, _, sent⟩ := runs_bind.mp (copying.carried run)
  obtain rfl := copying.replied sent
  have tuned := rxseekch_channel chip idle sp rsc _ w' run _ rfl
  obtain ⟨wide, grid⟩ := rxseekch_grid start stop index sp _ w' run _ rfl
  dsimp only at tuned wide grid
  change (if (found.setWidth 32 : INT) = 0 then (ushort rsc.stop).setWidth 32 else found.setWidth 32) = _
  rw [tuned]
  by_cases zero : ushort (found.setWidth 32) = 0
  · have none : (found.setWidth 32 : INT) = 0 := by rw [wide, zero]; rfl
    rw [if_pos zero, if_pos none, stop.exact]
  · have some : (found.setWidth 32 : INT) ≠ 0 := fun none => zero (by rw [none]; rfl)
    rw [if_neg zero, if_neg some, (grid zero).exact]
    exact wide

theorem write_shows (chip : HoldsChannel b low high) (copying : Copying b) (shows : Shows low high dial w)
    (op : WriteOperation) (run : Runs b.env (op.call true stack) w () w') :
    Shows low high ((NativeCall.write op).dial dial none) w' := by
  have made : Runs b.env (do
      let _ ← qn8006UnlockedIoctl stack.qnFmPower op.command
      pure ()) w () w' := run
  obtain ⟨reply, w₁, request, last⟩ := runs_bind.mp made
  obtain ⟨_, rfl⟩ := runs_pure.mp last
  cases op with
  | setFrequency fq =>
    refine ⟨fun f known => ?_, (shows.forgotten request).idle⟩
    simp only [NativeCall.dial, Option.mem_def, Option.ite_none_right_eq_some] at known
    obtain ⟨grid, known⟩ := known
    rw [setFq_channel chip copying request, grid.exact]
    exact (Option.some.inj known).symm
  | init | csPin | powerEnable => exact shows.forgotten request
  | setPower | setAudioMode | setAudioConfig | setSystemMode | rdsEnable | setCountry | configFMModule
  | loadDefalutSetting =>
    refine shows.kept chip request ?_
    simp only [WriteOperation.command, Ioctl.regs]
    decide

theorem read_shows (chip : HoldsChannel b low high) (copying : Copying b) (shows : Shows low high dial w)
    (op : ReadOperation) {value : INT} (run : Runs b.env (op.call true stack) w value w') :
    Shows low high ((NativeCall.read op).dial dial (some value)) w' ∧
      (op = .getFrequency → ∀ f ∈ dial, value = f) := by
  cases op with
  | getFrequency =>
    obtain ⟨reply, w₁, request, last⟩ := runs_bind.mp run
    obtain ⟨rfl, rfl⟩ := runs_pure.mp last
    refine ⟨shows.kept chip request (by simp [Ioctl.regs]), fun _ f known => ?_⟩
    rw [getFq_told chip copying request]
    exact (shows.tuned f known).symm
  | getPower | rdsDetectSignal | rdsCheckBufferReady =>
    obtain ⟨reply, w₁, request, last⟩ := runs_bind.mp run
    obtain ⟨rfl, rfl⟩ := runs_pure.mp last
    refine ⟨shows.kept chip request ?_, fun same => ReadOperation.noConfusion same⟩
    simp only [Ioctl.regs]
    decide
  | getRSSI | rxSeekCHAll | txClearChannelScan =>
    obtain ⟨reply, w₁, request, last⟩ := runs_bind.mp run
    obtain ⟨_, rfl⟩ := runs_pure.mp last
    exact ⟨shows.forgotten request, fun same => ReadOperation.noConfusion same⟩
  | rxSeekCH start stop step db up =>
    obtain ⟨reply, w₁, request, last⟩ := runs_bind.mp run
    obtain ⟨rfl, rfl⟩ := runs_pure.mp last
    refine ⟨⟨fun f known => ?_, (shows.forgotten request).idle⟩, fun same => ReadOperation.noConfusion same⟩
    simp only [NativeCall.dial, Option.mem_def, Option.ite_none_right_eq_some] at known
    obtain ⟨⟨first, final, index⟩, known⟩ := known
    have seek := rxseekch_shows chip copying shows.idle first final index request
    rw [← seek]
    split at known
    next zero =>
      rw [if_pos (Option.some.inj zero)]
      exact (Option.some.inj known).symm
    next found =>
      rw [if_neg fun zero => found (congrArg some zero)]
      exact (Option.some.inj known).symm

theorem closed_call {call : NativeCall} (run : Runs b.env (call.call false stack) w value w') :
    w' = w ∧ (call = .read .getFrequency → value = some (-1)) := by
  cases call with
  | jniInit => exact ⟨(runs_pure.mp run).2, nofun⟩
  | write op =>
    obtain ⟨_, made, _⟩ := runs_map.mp run
    exact ⟨(runs_pure.mp made).2, nofun⟩
  | read op =>
    obtain ⟨x, made, rfl⟩ := runs_map.mp run
    have closed : op.call false stack = pure (-1) := by cases op <;> rfl
    rw [closed] at made
    obtain ⟨rfl, rfl⟩ := runs_pure.mp made
    exact ⟨rfl, fun _ => rfl⟩

theorem open_call (chip : HoldsChannel b low high) (copying : Copying b) (shows : Shows low high dial w)
    {call : NativeCall} (run : Runs b.env (call.call true stack) w value w') :
    Shows low high (call.dial dial value) w' ∧
      (call = .read .getFrequency → ∀ f ∈ dial, value = some f) := by
  cases call with
  | jniInit =>
    obtain ⟨_, rfl⟩ := runs_pure.mp run
    exact ⟨shows, nofun⟩
  | write op =>
    obtain ⟨_, made, _⟩ := runs_map.mp run
    exact ⟨write_shows chip copying shows op made, nofun⟩
  | read op =>
    obtain ⟨x, made, rfl⟩ := runs_map.mp run
    obtain ⟨shows', told⟩ := read_shows chip copying shows op made
    exact ⟨shows', fun same f known => congrArg some (told (NativeCall.read.inj same) f known)⟩

theorem driven_told (chip : HoldsChannel b low high) (copying : Copying b) (shows : Shows low high dial w)
    {qn8006Device : Bool} {calls : List NativeCall} {held : List Stack} (long : held.length = calls.length)
    {values : List (Option INT)} (run : Runs b.env (driven qn8006Device (calls.zip held)) w values w') :
    Told qn8006Device dial (calls.zip values) := by
  induction calls generalizing qn8006Device dial w held values with
  | nil => trivial
  | cons call calls ih =>
    obtain _ | ⟨stack, held⟩ := held
    · cases long
    obtain ⟨value, w₁, first, rest⟩ := runs_bind.mp run
    obtain ⟨later, w₂, others, last⟩ := runs_bind.mp rest
    obtain ⟨rfl, rfl⟩ := runs_pure.mp last
    have long' : held.length = calls.length := Nat.succ.inj long
    cases qn8006Device with
    | true =>
      obtain ⟨shows', told⟩ := open_call chip copying shows first
      exact ⟨told, ih shows' long' others⟩
    | false =>
      obtain ⟨rfl, told⟩ := closed_call first
      exact ⟨told, ih shows long' others⟩

/-- Every session on the pins: each frequency that the service returns is the one that was set. -/
theorem frequency_told (chip : HoldsChannel b low high) (copying : Copying b) {v : WireMachine κ}
    (ready : I2c.Ready v.wired) (idle : v.globals.byte .qndAutoScanAll = 0) {m : Memory} {qn8006Device : Bool}
    {calls : List (NativeCall × Frames)} {values : List (Option INT)} {s' : Memory × WireMachine κ}
    (run : Runs b.pinEnv (serviceOnPins qn8006Device calls) (m, v) values s') :
    Told qn8006Device none ((calls.map Prod.fst).zip values) := by
  obtain ⟨held, long, requests, _⟩ := service_raise (onPins_raise ready run).1
  have shows : Shows low high none v.machine := ⟨nofun, idle⟩
  exact driven_told chip copying shows (by rw [long, List.length_map]) requests

end

/-- A session that sets the power and puts the chip to sleep between two frequencies. -/
def twice : List (NativeCall × Frames) :=
  [(.write (.setFrequency 10130), ⟨40, 7⟩), (.write (.setPower 70), ⟨40, 7⟩), (.read .getFrequency, ⟨48, 7⟩),
    (.write (.setFrequency 8800), ⟨40, 7⟩), (.write (.setSystemMode 0), ⟨40, 7⟩), (.read .getFrequency, ⟨48, 7⟩)]

theorem twice_told : Told true none ((twice.map Prod.fst).zip [none, none, some 10130, none, none, some 8800]) := by
  let p : Drv (List (Option INT)) := driven true ((twice.map Prod.fst).zip (List.replicate 6 (.filled 0)))
  have same (held : List Stack) (long : held.length = twice.length) :
      driven true ((twice.map Prod.fst).zip held) = p := by
    match held, long with
    | [_, _, _, _, _, _], _ => rfl
  have done : (exec (registerFile (fun _ => 0) granted).env 1 p clearedChip).map (fun r => r.1) =
      some [none, none, some 10130, none, none, some 8800] := by decide +kernel
  obtain ⟨_, w', run, rfl⟩ := exec_observe 1 _ done
  have ready : I2c.Ready (restingPins Globals.initial fun _ : UINT8 => (0 : UINT8)).wired := I2c.rest_ready
  obtain ⟨s', onPins⟩ := @onPins_values _ _ (fun _ => 3) _ _ _ _ ready p w' same run
  have file : HoldsRegisters (registerFile (fun _ => 0) granted) id := registerFile_holds _ _
  exact frequency_told ⟨file.register CH, file.register CH_STEP⟩ ⟨fun _ => rfl, fun _ => rfl⟩ ready rfl onPins

end Yika.Fm
