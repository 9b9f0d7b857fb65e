import Yika.Relay.Devices

/-! Which calls of the relay acquire and release its two devices in pairs. -/

namespace Yika.Relay
open Program

section
variable {d : Devices} {fd : Int}

theorem descriptor_negative (negative : fd < 0) : descriptor fd = none := if_pos negative

theorem descriptor_valid (valid : 0 ≤ fd) : descriptor fd = some fd := if_neg (by omega)

theorem descriptor_some {held : Int} (same : descriptor fd = some held) : 0 ≤ held := by
  unfold descriptor at same
  split at same
  next => cases same
  next valid =>
    obtain rfl := Option.some.inj same
    omega

/-! What each step does where nothing goes wrong. -/

theorem fault_avoided {c : Prop} [Decidable c] {f : Fault} (avoided : ¬c) : d.fault c f = d :=
  if_neg avoided

theorem close_held (held : d.uart.Held fd) : d.close fd = { d with uart := d.uart.release fd } := by
  unfold Devices.close
  rw [fault_avoided (not_not_intro held)]

theorem setUartFd_free (free : ¬d.uart.Held d.globals.uart_fd) :
    d.setUartFd fd = { d with globals := { d.globals with uart_fd := fd } } := by
  unfold Devices.setUartFd
  rw [fault_avoided free]

theorem btRestore_held (held : d.bt.Held fd) :
    d.btRestore fd = { d with bt := d.bt.release fd } := by
  unfold Devices.btRestore
  rw [fault_avoided (not_not_intro held)]

theorem setBtFd_free (free : ¬d.bt.Held d.globals.bt_fd) :
    d.setBtFd fd = { d with globals := { d.globals with bt_fd := fd } } := by
  unfold Devices.setBtFd
  rw [fault_avoided free]

theorem fault_clean {c : Prop} [Decidable c] {f : Fault} :
    (d.fault c f).faults = [] ↔ d.faults = [] ∧ ¬c := by
  unfold Devices.fault
  split
  next happened => simp [happened]
  next avoided => simp [avoided]

@[simp] theorem fault_globals {c : Prop} [Decidable c] {f : Fault} :
    (d.fault c f).globals = d.globals := by
  unfold Devices.fault
  split <;> rfl

@[simp] theorem fault_bt {c : Prop} [Decidable c] {f : Fault} : (d.fault c f).bt = d.bt := by
  unfold Devices.fault
  split <;> rfl

@[simp] theorem close_clean : (d.close fd).faults = [] ↔ d.faults = [] ∧ d.uart.Held fd :=
  fault_clean.trans (and_congr_right fun _ => not_not)

@[simp] theorem btRestore_clean : (d.btRestore fd).faults = [] ↔ d.faults = [] ∧ d.bt.Held fd :=
  fault_clean.trans (and_congr_right fun _ => not_not)

@[simp] theorem setUartFd_clean :
    (d.setUartFd fd).faults = [] ↔ d.faults = [] ∧ ¬d.uart.Held d.globals.uart_fd := fault_clean

@[simp] theorem setBtFd_clean :
    (d.setBtFd fd).faults = [] ↔ d.faults = [] ∧ ¬d.bt.Held d.globals.bt_fd := fault_clean

/-! The functions where nothing goes wrong. -/

theorem not_held_negative {ledger : Ledger Int} {owner : Int}
    (owes : ledger.Owes (descriptor owner)) (negative : fd < 0) : ¬ledger.Held fd := by
  rw [owes.held]
  intro same
  have valid := descriptor_some same
  omega

@[simp] theorem mtk_globals {result : Int} : (d.mtk result).globals = d.globals := by
  unfold Devices.mtk
  split <;> rfl

@[simp] theorem mtk_uart {result : Int} : (d.mtk result).uart = d.uart := by
  unfold Devices.mtk
  split <;> rfl

@[simp] theorem mtk_faults {result : Int} : (d.mtk result).faults = d.faults := by
  unfold Devices.mtk
  split <;> rfl

theorem mtk_owes (nothing : d.bt.Owes none) (result : Int) :
    (d.mtk result).bt.Owes (descriptor result) := by
  unfold Devices.mtk descriptor
  split
  next => exact nothing
  next => exact nothing.acquire result

/-- `bt_fd = mtk()` with the library loaded. -/
theorem mtk_assigned (sound : d.Sound) (free : d.globals.bt_fd < 0) (result : Int) :
    ((d.setGlib true).mtk result).setBtFd result = { (d.setGlib true).mtk result with
      globals := { d.globals with glib_handle := true, bt_fd := result } } := by
  have owes : ((d.setGlib true).mtk result).bt.Owes (descriptor result) :=
    mtk_owes (descriptor_negative free ▸ sound.bt) result
  rw [setBtFd_free (by simpa [Devices.setGlib] using not_held_negative owes free)]
  simp [Devices.setGlib]

theorem emBTInit_sound (sound : d.Sound) (free : d.globals.bt_fd < 0) (o : BtOutcome) :
    (emBTInit o d).2.Sound ∧ (emBTInit o d).2.uart = d.uart ∧
      (emBTInit o d).2.globals.uart_fd = d.globals.uart_fd ∧
        ((emBTInit o d).1 = true ↔ o.Succeeds) := by
  have unloaded : (d.setGlib false).Sound :=
    ⟨sound.clean, sound.bt, iff_of_false Bool.false_ne_true (Int.not_le.mpr free), sound.uart⟩
  cases library : o.dlopen with
  | false =>
    have result : emBTInit o d = (false, d.setGlib false) := by
      simp [emBTInit, emBTInitError, Devices.setGlib, library]
    rw [result]
    exact ⟨unloaded, rfl, rfl, iff_of_false (by simp) (by simp [BtOutcome.Succeeds, library])⟩
  | true =>
    cases symbols : o.dlsym with
    | false =>
      have result : emBTInit o d = (false, d.setGlib false) := by
        simp [emBTInit, emBTInitError, Devices.setGlib, library, symbols]
      rw [result]
      exact ⟨unloaded, rfl, rfl, iff_of_false (by simp) (by simp [BtOutcome.Succeeds, symbols])⟩
    | true =>
      have assigned := mtk_assigned sound free o.mtk
      have owes : ((d.setGlib true).mtk o.mtk).bt.Owes (descriptor o.mtk) :=
        mtk_owes (descriptor_negative free ▸ sound.bt) o.mtk
      have clean : ((d.setGlib true).mtk o.mtk).faults = [] := mtk_faults.trans sound.clean
      have uart : ((d.setGlib true).mtk o.mtk).uart = d.uart := mtk_uart
      by_cases failed : o.mtk < 0
      · have result : emBTInit o d = (false, { (d.setGlib true).mtk o.mtk with
            globals := { d.globals with glib_handle := false, bt_fd := o.mtk } }) := by
          simp only [emBTInit, library, symbols, assigned]
          simp [emBTInitError, Devices.setGlib, failed]
        rw [result]
        exact ⟨⟨clean, owes, iff_of_false Bool.false_ne_true (Int.not_le.mpr failed),
          uart ▸ sound.uart⟩, uart, rfl, iff_of_false (by simp) fun all => absurd all.2.2 (by omega)⟩
      · have result : emBTInit o d = (true, { (d.setGlib true).mtk o.mtk with
            globals := { d.globals with glib_handle := true, bt_fd := o.mtk } }) := by
          simp only [emBTInit, library, symbols, assigned]
          simp [Devices.setGlib, failed]
        rw [result]
        exact ⟨⟨clean, owes, iff_of_true rfl (Int.not_lt.mp failed), uart ▸ sound.uart⟩, uart, rfl,
          iff_of_true rfl ⟨library, symbols, Int.not_lt.mp failed⟩⟩

theorem emBTDeinit_sound (sound : d.Sound) : (emBTDeinit d).Sound ∧
    (emBTDeinit d).globals.bt_fd < 0 ∧ (emBTDeinit d).globals.uart_fd = d.globals.uart_fd := by
  by_cases loaded : d.globals.glib_handle = true
  · have valid := sound.loaded.mp loaded
    have owes : d.bt.Owes (some d.globals.bt_fd) := descriptor_valid valid ▸ sound.bt
    have settled := owes.release
    have free : ¬(d.bt.release d.globals.bt_fd).Held d.globals.bt_fd := by
      rw [settled.held]
      simp
    have result : emBTDeinit d = { d with
        bt := d.bt.release d.globals.bt_fd
        globals := { d.globals with bt_fd := -1, glib_handle := false } } := by
      unfold emBTDeinit
      rw [if_neg (by simp [loaded]), if_neg (by omega), btRestore_held (owes.held.mpr rfl),
        setBtFd_free free]
      rfl
    rw [result]
    exact ⟨⟨sound.clean, settled, iff_of_false Bool.false_ne_true (by simp), sound.uart⟩,
      by simp, rfl⟩
  · have unloaded : d.globals.glib_handle = false := by simpa using loaded
    have invalid : d.globals.bt_fd < 0 := by
      have := sound.loaded
      simp only [unloaded, Bool.false_eq_true, false_iff] at this
      omega
    unfold emBTDeinit
    rw [if_pos unloaded]
    exact ⟨sound, invalid, rfl⟩

/-- What `init_uart2pc` returns is what it leaves open. -/
theorem initUart2pc_owes (clean : d.faults = []) (nothing : d.uart.Owes none) (speed : Int)
    (o : UartOutcome) : (initUart2pc speed o d).2.globals = d.globals ∧
      (initUart2pc speed o d).2.bt = d.bt ∧ (initUart2pc speed o d).2.faults = [] ∧
        (initUart2pc speed o d).2.uart.Owes (descriptor (initUart2pc speed o d).1) := by
  have opened := nothing.acquire o.fd
  have closed : (d.opened o.fd).close o.fd =
      { d with uart := (d.uart.acquire o.fd).release o.fd } := close_held (opened.held.mpr rfl)
  unfold initUart2pc
  split
  next => exact ⟨rfl, rfl, clean, nothing⟩
  next valid =>
    dsimp only
    rw [closed]
    split
    next => exact ⟨rfl, rfl, clean, opened.release⟩
    next =>
      split
      next => exact ⟨rfl, rfl, clean, opened.release⟩
      next =>
        split
        next => exact ⟨rfl, rfl, clean, opened.release⟩
        next => exact ⟨rfl, rfl, clean, descriptor_valid (Int.not_lt.mp valid) ▸ opened⟩

/-- `uart_fd = init_uart2pc(..)` with no UART in use. -/
theorem uart_assigned (sound : d.Sound) (free : d.globals.uart_fd < 0) (speed : Int)
    (o : UartOutcome) : ((initUart2pc speed o d).2.setUartFd (initUart2pc speed o d).1).Sound := by
  obtain ⟨globals, bt, clean, owes⟩ := initUart2pc_owes sound.clean
    (descriptor_negative free ▸ sound.uart) speed o
  rw [setUartFd_free (globals ▸ not_held_negative owes free)]
  refine ⟨clean, ?_, ?_, owes⟩
  · simpa only [bt, globals] using sound.bt
  · simpa only [globals] using sound.loaded

/-- `close(uart_fd); uart_fd = -1` with a UART in use. -/
theorem uart_closed (sound : d.Sound) (valid : 0 ≤ d.globals.uart_fd) :
    ((d.close d.globals.uart_fd).setUartFd (-1)).Sound ∧
      ((d.close d.globals.uart_fd).setUartFd (-1)).globals = { d.globals with uart_fd := -1 } := by
  have owes : d.uart.Owes (some d.globals.uart_fd) := descriptor_valid valid ▸ sound.uart
  have settled := owes.release
  have free : ¬(d.uart.release d.globals.uart_fd).Held d.globals.uart_fd := by
    rw [settled.held]
    simp
  rw [close_held (owes.held.mpr rfl), setUartFd_free free]
  exact ⟨⟨sound.clean, sound.bt, sound.loaded, settled⟩, rfl⟩

theorem relayerClose_sound (sound : d.Sound) :
    (relayerClose d).Sound ∧ (relayerClose d).globals = { d.globals with uart_fd := -1 } := by
  unfold relayerClose
  dsimp only
  split
  next valid =>
    have sound₁ : (d.setMOpen 0).Sound := ⟨sound.clean, sound.bt, sound.loaded, sound.uart⟩
    exact uart_closed sound₁ (by show 0 ≤ d.globals.uart_fd; omega)
  next invalid =>
    have negative : d.globals.uart_fd < 0 := by omega
    have nothing : d.uart.Owes none := descriptor_negative negative ▸ sound.uart
    rw [setUartFd_free (not_held_negative sound.uart negative)]
    exact ⟨⟨sound.clean, sound.bt, sound.loaded, nothing⟩, rfl⟩

theorem relayerExit_sound (sound : d.Sound) (valid : 0 ≤ d.globals.uart_fd) :
    (relayerExit d).Sound ∧ (relayerExit d).globals.bt_fd < 0 := by
  have sound₁ : (d.setFExit true).Sound := ⟨sound.clean, sound.bt, sound.loaded, sound.uart⟩
  have closed := uart_closed sound₁ valid
  have restored := emBTDeinit_sound closed.1
  exact ⟨restored.1, restored.2.1⟩

/-! One call. -/

theorem step_sound (sound : d.Sound) {call : RelayerCall} (ready : d.Ready call) :
    (d.step call).Sound := by
  cases call with
  | start speed bt uart =>
    obtain ⟨free, unused⟩ := ready
    obtain ⟨sound₁, _, port, started⟩ := emBTInit_sound sound free bt
    show (relayerStart speed bt uart d).2.Sound
    unfold relayerStart
    dsimp only
    by_cases ok : (emBTInit bt d).1 = true
    · have assigned := uart_assigned sound₁ (port ▸ unused (started.mp ok)) speed uart
      rw [if_pos ok]
      split
      next => exact (emBTDeinit_sound assigned).1
      next => exact ⟨assigned.clean, assigned.bt, assigned.loaded, assigned.uart⟩
    · rw [if_neg ok]
      exact sound₁
  | exit => exact (relayerExit_sound sound ready).1
  | «open» speed uart =>
    obtain ⟨sound₁, closed⟩ := relayerClose_sound sound
    have free : (relayerClose d).globals.uart_fd < 0 := by simp [closed]
    have assigned := uart_assigned sound₁ free speed uart
    show (relayerOpen speed uart d).2.Sound
    unfold relayerOpen
    dsimp only
    split
    next => exact ⟨assigned.clean, assigned.bt, assigned.loaded, assigned.uart⟩
    next => exact ⟨assigned.clean, assigned.bt, assigned.loaded, assigned.uart⟩
  | close => exact (relayerClose_sound sound).1

theorem initUart2pc_frame {speed : Int} {o : UartOutcome} :
    (initUart2pc speed o d).2.globals = d.globals ∧ (initUart2pc speed o d).2.bt = d.bt ∧
      ∀ held, d.uart.Held held → (initUart2pc speed o d).2.uart.Held held := by
  unfold initUart2pc
  have opened (held : Int) (before : d.uart.Held held) :
      ((d.uart.acquire o.fd).release o.fd).Held held := before.exchange o.fd
  dsimp only
  split
  next => exact ⟨rfl, rfl, fun _ => id⟩
  next =>
    split
    next => exact ⟨fault_globals, fault_bt, opened⟩
    next =>
      split
      next => exact ⟨fault_globals, fault_bt, opened⟩
      next =>
        split
        next => exact ⟨fault_globals, fault_bt, opened⟩
        next => exact ⟨rfl, rfl, fun held before => before.acquire o.fd⟩

theorem emBTInit_loaded {o : BtOutcome} (ok : (emBTInit o d).1 = true) :
    (emBTInit o d).2.globals.glib_handle = true ∧ 0 ≤ (emBTInit o d).2.globals.bt_fd := by
  unfold emBTInit at ok ⊢
  dsimp only at ok ⊢
  split at ok
  next => cases ok
  next library =>
    split at ok
    next => cases ok
    next symbols =>
      split at ok
      next => cases ok
      next valid =>
        rw [if_neg library, if_neg symbols, if_neg valid]
        refine ⟨?_, Int.not_lt.mp valid⟩
        simpa [Devices.setBtFd, Devices.setGlib] using library

/-- What RELAYER_start gives the two threads of the relay when it returns `TRUE`. -/
theorem relayerStart_started {speed : Int} {bt : BtOutcome} {uart : UartOutcome}
    (ok : (relayerStart speed bt uart d).1 = true) :
    (relayerStart speed bt uart d).2.globals.glib_handle = true ∧
      0 ≤ (relayerStart speed bt uart d).2.globals.bt_fd ∧
      0 ≤ (relayerStart speed bt uart d).2.globals.uart_fd ∧
      (relayerStart speed bt uart d).2.globals.fExit = false := by
  unfold relayerStart at ok ⊢
  dsimp only at ok ⊢
  split at ok
  next init =>
    split at ok
    next => cases ok
    next valid =>
      rw [if_pos init, if_neg valid]
      obtain ⟨library, driver⟩ := emBTInit_loaded init
      have frame := (@initUart2pc_frame (emBTInit bt d).2 speed uart).1
      refine ⟨?_, ?_, Int.not_lt.mp valid, rfl⟩
      · simpa [Devices.setFExit, Devices.setUartFd, frame] using library
      · simpa [Devices.setFExit, Devices.setUartFd, frame] using driver
  next => cases ok

/-! What happens where something goes wrong. -/

@[simp] theorem close_btView : (d.close fd).btView = d.btView := by
  simp [Devices.close, Devices.btView]

@[simp] theorem setUartFd_btView : (d.setUartFd fd).btView = d.btView := by
  simp [Devices.setUartFd, Devices.btView]

theorem Devices.Spoilt.of_btView {d' : Devices} (spoilt : d.Spoilt) (same : d'.btView = d.btView)
    (recorded : d'.faults = [] → d.faults = []) : d'.Spoilt := by
  obtain fault | lost := spoilt
  · exact Or.inl fun clean => fault (recorded clean)
  · simp only [Devices.btView, Prod.mk.injEq] at same
    obtain ⟨library, owner, ledger⟩ := same
    apply Or.inr
    rwa [library, owner, ledger]

@[simp] theorem emBTInitError_faults : (emBTInitError d).faults = d.faults := by
  unfold emBTInitError
  split <;> rfl

theorem emBTInit_recorded {o : BtOutcome} (clean : (emBTInit o d).2.faults = []) :
    d.faults = [] := by
  unfold emBTInit at clean
  dsimp only at clean
  split at clean
  next => rwa [emBTInitError_faults] at clean
  next =>
    split at clean
    next => rwa [emBTInitError_faults] at clean
    next =>
      have assigned : (((d.setGlib o.dlopen).mtk o.mtk).setBtFd o.mtk).faults = [] := by
        split at clean
        next => rwa [emBTInitError_faults] at clean
        next => exact clean
      have before := (setBtFd_clean.mp assigned).1
      rwa [mtk_faults] at before

theorem emBTDeinit_recorded (clean : (emBTDeinit d).faults = []) : d.faults = [] := by
  unfold emBTDeinit at clean
  split at clean
  next => exact clean
  next =>
    split at clean
    next => exact clean
    next =>
      have assigned : ((d.btRestore d.globals.bt_fd).setBtFd (-1)).faults = [] := clean
      exact (btRestore_clean.mp (setBtFd_clean.mp assigned).1).1

theorem initUart2pc_recorded {speed : Int} {o : UartOutcome}
    (clean : (initUart2pc speed o d).2.faults = []) : d.faults = [] := by
  unfold initUart2pc at clean
  dsimp only at clean
  split at clean
  next => exact clean
  next =>
    split at clean
    next => exact (close_clean.mp clean).1
    next =>
      split at clean
      next => exact (close_clean.mp clean).1
      next =>
        split at clean
        next => exact (close_clean.mp clean).1
        next => exact clean

theorem initUart2pc_btView {speed : Int} {o : UartOutcome} :
    (initUart2pc speed o d).2.btView = d.btView := by
  obtain ⟨globals, bt, _⟩ := @initUart2pc_frame d speed o
  simp only [Devices.btView, globals, bt]

theorem relayerClose_spoilt (spoilt : d.Spoilt) : (relayerClose d).Spoilt := by
  unfold relayerClose
  dsimp only
  split
  next =>
    apply spoilt.of_btView
    · simp only [setUartFd_btView, close_btView]
      rfl
    · intro clean
      exact (close_clean.mp (setUartFd_clean.mp clean).1).1
  next =>
    apply spoilt.of_btView setUartFd_btView
    intro clean
    exact (setUartFd_clean.mp clean).1

theorem uart_assigned_spoilt {speed : Int} {o : UartOutcome} (spoilt : d.Spoilt) :
    ((initUart2pc speed o d).2.setUartFd (initUart2pc speed o d).1).Spoilt := by
  apply spoilt.of_btView
  · rw [setUartFd_btView, initUart2pc_btView]
  · intro clean
    exact initUart2pc_recorded (setUartFd_clean.mp clean).1

/-- The driver that is held when EM_BT_init is called is lost. -/
theorem emBTInit_held (held : d.bt.Held d.globals.bt_fd) (o : BtOutcome) :
    (emBTInit o d).2.Spoilt ∧ ((emBTInit o d).1 = true → (emBTInit o d).2.faults ≠ []) := by
  have unloaded : (d.setGlib false).Spoilt := Or.inr ⟨rfl, held⟩
  cases library : o.dlopen with
  | false =>
    have result : emBTInit o d = (false, d.setGlib false) := by
      simp [emBTInit, emBTInitError, Devices.setGlib, library]
    rw [result]
    exact ⟨unloaded, fun ok => absurd ok Bool.false_ne_true⟩
  | true =>
    cases symbols : o.dlsym with
    | false =>
      have result : emBTInit o d = (false, d.setGlib false) := by
        simp [emBTInit, emBTInitError, Devices.setGlib, library, symbols]
      rw [result]
      exact ⟨unloaded, fun ok => absurd ok Bool.false_ne_true⟩
    | true =>
      have still : ((d.setGlib true).mtk o.mtk).bt.Held d.globals.bt_fd := by
        unfold Devices.mtk
        split
        next => exact held
        next => exact held.acquire o.mtk
      have overwritten : (((d.setGlib true).mtk o.mtk).setBtFd o.mtk).faults ≠ [] := by
        intro clean
        apply (setBtFd_clean.mp clean).2
        rwa [mtk_globals]
      have faults : (emBTInit o d).2.faults ≠ [] := by
        unfold emBTInit
        simp only [library, symbols]
        rw [if_neg (by simp [Devices.setGlib]), if_neg (by simp)]
        split
        next => rwa [emBTInitError_faults]
        next => exact overwritten
      exact ⟨Or.inl faults, fun _ => faults⟩

theorem emBTDeinit_spoilt (fault : d.faults ≠ []) : (emBTDeinit d).Spoilt :=
  Or.inl fun clean => fault (emBTDeinit_recorded clean)

theorem relayerStart_spoilt {speed : Int} {bt : BtOutcome} {uart : UartOutcome}
    (spoilt : (emBTInit bt d).2.Spoilt)
    (fault : (emBTInit bt d).1 = true →
      ((initUart2pc speed uart (emBTInit bt d).2).2.setUartFd
        (initUart2pc speed uart (emBTInit bt d).2).1).faults ≠ []) :
    (relayerStart speed bt uart d).2.Spoilt := by
  unfold relayerStart
  dsimp only
  by_cases ok : (emBTInit bt d).1 = true
  · rw [if_pos ok]
    split
    next => exact emBTDeinit_spoilt (fault ok)
    next => exact Or.inl (fault ok)
  · rw [if_neg ok]
    exact spoilt

theorem relayerExit_spoilt (spoilt : d.Spoilt) : (relayerExit d).Spoilt := by
  have closed : (((d.setFExit true).close d.globals.uart_fd).setUartFd (-1)).Spoilt := by
    apply spoilt.of_btView
    · simp only [setUartFd_btView, close_btView]
      rfl
    · intro clean
      exact (close_clean.mp (setUartFd_clean.mp clean).1).1
  obtain fault | lost := closed
  · exact emBTDeinit_spoilt fault
  · show (emBTDeinit _).Spoilt
    unfold emBTDeinit
    rw [if_pos (by exact lost.1)]
    exact Or.inr lost

theorem start_held {speed : Int} {bt : BtOutcome} {uart : UartOutcome}
    (held : d.bt.Held d.globals.bt_fd) : (relayerStart speed bt uart d).2.Spoilt := by
  obtain ⟨spoilt, fault⟩ := emBTInit_held held bt
  apply relayerStart_spoilt spoilt
  intro ok clean
  exact fault ok (initUart2pc_recorded (setUartFd_clean.mp clean).1)

theorem step_spoilt (spoilt : d.Spoilt) (call : RelayerCall) : (d.step call).Spoilt := by
  cases call with
  | start speed bt uart =>
    obtain fault | lost := spoilt
    · have initialised : (emBTInit bt d).2.faults ≠ [] := fun clean => fault (emBTInit_recorded clean)
      apply relayerStart_spoilt (Or.inl initialised)
      intro _ clean
      exact initialised (initUart2pc_recorded (setUartFd_clean.mp clean).1)
    · exact start_held lost.2
  | exit => exact relayerExit_spoilt spoilt
  | «open» speed uart =>
    have assigned := @uart_assigned_spoilt _ speed uart (relayerClose_spoilt spoilt)
    show (relayerOpen speed uart d).2.Spoilt
    unfold relayerOpen
    dsimp only
    split
    next => exact assigned
    next => exact assigned
  | close => exact relayerClose_spoilt spoilt

theorem step_spoils (sound : d.Sound) {call : RelayerCall} (unready : ¬d.Ready call) :
    (d.step call).Spoilt := by
  cases call with
  | start speed bt uart =>
    by_cases free : d.globals.bt_fd < 0
    · have started : bt.Succeeds ∧ ¬d.globals.uart_fd < 0 := by
        by_contra other
        exact unready ⟨free, fun ok => by_contra fun used => other ⟨ok, used⟩⟩
      obtain ⟨sound₁, ledger, port, ok⟩ := emBTInit_sound sound free bt
      have held : (emBTInit bt d).2.uart.Held d.globals.uart_fd := by
        rw [ledger, sound.uart.held]
        exact descriptor_valid (Int.not_lt.mp started.2)
      have overwritten : ((initUart2pc speed uart (emBTInit bt d).2).2.setUartFd
          (initUart2pc speed uart (emBTInit bt d).2).1).faults ≠ [] := by
        intro clean
        obtain ⟨globals, _, kept⟩ := @initUart2pc_frame (emBTInit bt d).2 speed uart
        apply (setUartFd_clean.mp clean).2
        rw [globals, port]
        exact kept _ held
      show (relayerStart speed bt uart d).2.Spoilt
      unfold relayerStart
      dsimp only
      rw [if_pos (ok.mpr started.1)]
      split
      next => exact emBTDeinit_spoilt overwritten
      next => exact Or.inl overwritten
    · have held : d.bt.Held d.globals.bt_fd :=
        sound.bt.held.mpr (descriptor_valid (Int.not_lt.mp free))
      exact start_held held
  | exit =>
    have invalid : ¬d.uart.Held d.globals.uart_fd :=
      not_held_negative sound.uart (Int.not_le.mp unready)
    apply emBTDeinit_spoilt
    intro clean
    exact invalid (close_clean.mp (setUartFd_clean.mp clean).1).2
  | «open» speed uart => exact absurd trivial unready
  | close => exact absurd trivial unready

/-! Runs of calls. -/

theorem calls_sound (sound : d.Sound) {calls : List RelayerCall} (ready : d.AllReady calls) :
    (d.calls calls).Sound := by
  induction calls generalizing d with
  | nil => exact sound
  | cons call calls ih => exact ih (step_sound sound ready.1) ready.2

theorem calls_spoilt (spoilt : d.Spoilt) (calls : List RelayerCall) : (d.calls calls).Spoilt := by
  induction calls generalizing d with
  | nil => exact spoilt
  | cons call calls ih => exact ih (step_spoilt spoilt call)

theorem calls_spoils (sound : d.Sound) {calls : List RelayerCall} (unready : ¬d.AllReady calls) :
    (d.calls calls).Spoilt := by
  induction calls generalizing d with
  | nil => exact absurd trivial unready
  | cons call calls ih =>
    by_cases ready : d.Ready call
    · exact ih (step_sound sound ready) fun rest => unready ⟨ready, rest⟩
    · exact calls_spoilt (step_spoils sound ready) calls

theorem spoilt_unpaired (spoilt : d.Spoilt) : ¬d.Paired := by
  intro paired
  obtain fault | lost := spoilt
  · exact fault paired.clean
  · exact lost.2.unsettled paired.bt

theorem allReady_append {first rest : List RelayerCall} :
    d.AllReady (first ++ rest) ↔ d.AllReady first ∧ (d.calls first).AllReady rest := by
  induction first generalizing d with
  | nil => simp [Devices.AllReady, Devices.calls]
  | cons call first ih =>
    simp only [List.cons_append, Devices.AllReady, ih, and_assoc]
    exact Iff.rfl

theorem initial_sound : Devices.initial.Sound :=
  ⟨rfl, Ledger.owes_empty, by decide, Ledger.owes_empty⟩

end

/-- Once a RELAYER_exit and a RELAYER_close have followed any calls, every descriptor has been
released once and nothing else has been, exactly when each call was made in its place. -/
theorem calls_paired_iff (calls : List RelayerCall) :
    (Devices.initial.calls (calls ++ [.exit, .close])).Paired ↔
      Devices.initial.AllReady (calls ++ [.exit, .close]) := by
  constructor
  · intro paired
    by_contra unready
    exact spoilt_unpaired (calls_spoils initial_sound unready) paired
  · intro ready
    obtain ⟨before, valid, _⟩ := allReady_append.mp ready
    have exited := relayerExit_sound (calls_sound initial_sound before) valid
    have closed := relayerClose_sound exited.1
    have split : Devices.initial.calls (calls ++ [.exit, .close]) =
        relayerClose (relayerExit (Devices.initial.calls calls)) := List.foldl_append ..
    rw [split]
    have free : (relayerClose (relayerExit (Devices.initial.calls calls))).globals.bt_fd < 0 := by
      rw [closed.2]
      exact exited.2
    have bt := closed.1.bt
    have uart := closed.1.uart
    rw [descriptor_negative free] at bt
    rw [closed.2] at uart
    exact ⟨closed.1.clean, bt.settled, Ledger.Owes.settled uart⟩

/-- A second RELAYER_start: what the first `mtk` and the first `open` returned is lost. -/
theorem second_start_unpaired : ¬(Devices.initial.calls
    ([.start 115200 ⟨true, true, 10⟩ ⟨11, 0, 0⟩, .start 115200 ⟨true, true, 12⟩ ⟨13, 0, 0⟩] ++
      [.exit, .close])).Paired := by
  intro paired
  have restored := paired.bt 10
  exact absurd restored (by decide)

end Yika.Relay
