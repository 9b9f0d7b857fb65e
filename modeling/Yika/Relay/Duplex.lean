import Yika.Program.Heed
import Yika.Relay.Receive

/-! The relay with both of its threads: their operations interleaved in any order, and `RELAYER_exit`
of another thread at any time. The threads share the globals, of which only `fExit` is written while
they run. -/

namespace Yika.Relay
open Program

/-- The globals, what each of the two threads has for itself, and what is left of it. Of the globals
in `tx` and `rx` nothing is read. -/
structure Duplex where
  globals : Globals
  tx : Link
  rx : Link
  txLeft : Thread Unit
  rxLeft : RxThread Unit

def Duplex.txLink (r : Duplex) : Link := { r.tx with globals := r.globals }
def Duplex.rxLink (r : Duplex) : Link := { r.rx with globals := r.globals }

def Duplex.afterTx (r : Duplex) (k : Link) (left : Thread Unit) : Duplex :=
  { r with globals := k.globals, tx := k, txLeft := left }

def Duplex.afterRx (r : Duplex) (k : Link) (left : RxThread Unit) : Duplex :=
  { r with globals := k.globals, rx := k, rxLeft := left }

/-- `fExit = TRUE` of `RELAYER_exit`. -/
def Duplex.exit (r : Duplex) : Duplex := { r with globals := { r.globals with fExit := true } }

section
variable (send : List UCHAR → Int) (accept : Link → Nat → Written)

inductive DuplexStep : Duplex → Duplex → Prop where
  | tx {r : Duplex} {o : RelayOp} {left : Thread Unit} :
      Takes r.txLeft ⟨o, (relayEnv send o r.txLink).1⟩ left →
      DuplexStep r (r.afterTx (relayEnv send o r.txLink).2 left)
  | rx {r : Duplex} {o : ChipOp} {left : RxThread Unit} :
      Takes r.rxLeft ⟨o, (chipEnv accept o r.rxLink).1⟩ left →
      DuplexStep r (r.afterRx (chipEnv accept o r.rxLink).2 left)

inductive DuplexMoves : Duplex → Duplex → Prop where
  | step {r r' : Duplex} : DuplexStep send accept r r' → DuplexMoves r r'
  | exit {r : Duplex} : DuplexMoves r r.exit

end

/-- `RELAYER_start` has succeeded, and its `fExit = FALSE` came before the first operation of the threads
it had created. -/
structure Started (r : Duplex) : Prop where
  txLeft : r.txLeft = btTxMonitor
  rxLeft : r.rxLeft = btRxMonitor
  handle : r.globals.glib_handle = true
  chip : 0 ≤ r.globals.bt_fd
  pc : 0 ≤ r.globals.uart_fd
  running : r.globals.fExit = false
  txSent : r.tx.sent = []
  rxSent : r.rx.sent = []

/-! What a thread sees of the other one: `fExit` may be set. -/

/-- Up to `fExit`, which may be set, the globals are the same. -/
structure Raised (own seen : Globals) : Prop where
  same : seen = { own with fExit := seen.fExit }
  raised : own.fExit = true → seen.fExit = true

theorem Raised.refl (g : Globals) : Raised g g := ⟨rfl, id⟩

theorem Raised.trans {g g₁ g₂ : Globals} (first : Raised g g₁) (second : Raised g₁ g₂) : Raised g g₂ := by
  refine ⟨?_, second.raised ∘ first.raised⟩
  rw [second.same, first.same]

theorem Raised.exit (g : Globals) : Raised g { g with fExit := true } := ⟨rfl, fun _ => rfl⟩

theorem Raised.set {own seen : Globals} (raised : Raised own seen) :
    Raised { own with fExit := true } { seen with fExit := true } := by
  refine ⟨?_, fun _ => rfl⟩
  rw [raised.same]

theorem Raised.calm {own seen : Globals} (raised : Raised own seen) (running : ¬seen.fExit = true) :
    seen = own := by
  have both : seen.fExit = own.fExit :=
    (Bool.eq_false_of_not_eq_true running).trans (Bool.eq_false_of_not_eq_true (mt raised.raised running)).symm
  rw [raised.same, both]

/-- Once `fExit` is set the globals do not change. -/
theorem Raised.stays {own seen : Globals} (raised : Raised own seen) (exit : own.fExit = true) : seen = own := by
  rw [raised.same, raised.raised exit, ← exit]

/-- The thread's link as it would be if the other thread and `RELAYER_exit` had not set `fExit`. -/
def Unraised (k v : Link) : Prop := ∃ g, k = { v with globals := g } ∧ Raised v.globals g

theorem Unraised.frame {k k' v : Link} (unraised : Unraised k v) (same : k' = { k with globals := k'.globals })
    (raised : Raised k.globals k'.globals) : Unraised k' v := by
  obtain ⟨g, rfl, before⟩ := unraised
  exact ⟨k'.globals, same, before.trans raised⟩

section
variable {send : List UCHAR → Int} {accept : Link → Nat → Written}

/-- Only `fExit` is written. -/
theorem relayEnv_raises (o : RelayOp) (k : Link) : Raised k.globals (relayEnv send o k).2.globals := by
  cases o with
  | readDataFromPc _ dest _ => cases dest <;> exact .refl _
  | setExit => exact .exit _
  | _ => exact .refl _

theorem chipEnv_raises (o : ChipOp) (k : Link) : Raised k.globals (chipEnv accept o k).2.globals := by
  cases o with
  | btReceiveData _ dest _ => cases dest <;> exact .refl _
  | setExit => exact .exit _
  | _ => exact .refl _

/-- The answers of `bt_tx_monitor` under the disturbance. -/
def TxRelated : (o : RelayOp) → RelayOp.Answer o → RelayOp.Answer o → Prop
  | .globals, seen, own => Raised own seen
  | _, seen, own => seen = own

def RxRelated : (o : ChipOp) → ChipOp.Answer o → ChipOp.Answer o → Prop
  | .globals, seen, own => Raised own seen
  | _, seen, own => seen = own

def txDisturbance (send : List UCHAR → Int) : Disturbance relaySignature Link Link where
  env := relayEnv send
  own := relayEnv send
  sim := Unraised
  stop k := k.globals.fExit = true
  related := TxRelated
  answer := by
    rintro o k v ⟨g, rfl, raised⟩
    cases o with
    | globals => exact raised
    | _ => rfl
  calm := by
    rintro o k v ⟨g, rfl, raised⟩ running
    cases o with
    | globals => exact raised.calm running
    | _ => rfl
  state := by
    rintro o k v ⟨g, rfl, raised⟩
    cases o with
    | readDataFromPc _ dest _ => cases dest <;> exact ⟨g, rfl, raised⟩
    | setExit => exact ⟨_, rfl, raised.set⟩
    | _ => exact ⟨g, rfl, raised⟩
  keeps o k := (relayEnv_raises o k).raised

/-- What the PC takes does not depend on the globals of the relay. -/
def Unaware (accept : Link → Nat → Written) : Prop :=
  ∀ k g len, accept { k with globals := g } len = accept k len

def rxDisturbance (unaware : Unaware accept) : Disturbance chipSignature Link Link where
  env := chipEnv accept
  own := chipEnv accept
  sim := Unraised
  stop k := k.globals.fExit = true
  related := RxRelated
  answer := by
    rintro o k v ⟨g, rfl, raised⟩
    cases o with
    | globals => exact raised
    | write _ _ len => exact unaware v g len
    | _ => rfl
  calm := by
    rintro o k v ⟨g, rfl, raised⟩ running
    cases o with
    | globals => exact raised.calm running
    | write _ _ len => exact unaware v g len
    | _ => rfl
  state := by
    rintro o k v ⟨g, rfl, raised⟩
    cases o with
    | btReceiveData _ dest _ => cases dest <;> exact ⟨g, rfl, raised⟩
    | write _ _ len =>
      refine ⟨g, ?_, raised⟩
      simp only [chipEnv, unaware v g len]
      rfl
    | setExit => exact ⟨_, rfl, raised.set⟩
    | _ => exact ⟨g, rfl, raised⟩
  keeps o k := (chipEnv_raises o k).raised

end

/-! The threads heed it at the head of their loop only. -/

section
variable {fd : Int} {peerLen more n : Nat}

theorem TxRelated.same {o : RelayOp} (other : o ≠ .globals) {seen own : RelayOp.Answer o}
    (related : TxRelated o seen own) : seen = own := by
  cases o with
  | globals => exact absurd rfl other
  | _ => exact related

theorem RxRelated.same {o : ChipOp} (other : o ≠ .globals) {seen own : ChipOp.Answer o}
    (related : RxRelated o seen own) : seen = own := by
  cases o with
  | globals => exact absurd rfl other
  | _ => exact related

/-- Any operation but a look at the globals. -/
theorem heeds_txOp (o : RelayOp) {quit : RelayOp.Answer o → Prop} (other : o ≠ .globals) :
    Heeds TxRelated quit (@Prog.perform relaySignature o) := by
  refine ⟨fun seen own related => .inl ?_, fun _ => trivial⟩
  rw [TxRelated.same other related]

theorem heeds_rxOp (o : ChipOp) {quit : ChipOp.Answer o → Prop} (other : o ≠ .globals) :
    Heeds RxRelated quit (@Prog.perform chipSignature o) := by
  refine ⟨fun seen own related => .inl ?_, fun _ => trivial⟩
  rw [RxRelated.same other related]

section
variable {S : Signature} {α : Type} {f : Globals → Prog S α} {quit : α → Prop} {own seen : Globals} {value : α}

/-- A look at the globals that is not at `fExit`. -/
theorem Raised.blind (raised : Raised own seen) (blind : ∀ g exit, f { g with fExit := exit } = f g) :
    f seen = f own ∨ ∃ value, f seen = pure value ∧ quit value := by
  rw [raised.same]
  exact .inl (blind own seen.fExit)

/-- The head of a loop that is left when `fExit` is set. -/
theorem Raised.leaves (raised : Raised own seen) (leaves : ∀ g, g.fExit = true → f g = pure value)
    (quits : quit value) : f seen = f own ∨ ∃ value, f seen = pure value ∧ quit value := by
  by_cases exit : seen.fExit = true
  · exact .inr ⟨value, leaves seen exit, quits⟩
  · rw [raised.calm exit]
    exact .inl rfl

end

section
variable {α : Type} {quit : α → Prop} {value : α}

theorem heeds_globals {f : Globals → Thread α} (blind : ∀ g exit, f { g with fExit := exit } = f g)
    (rest : ∀ g, Heeds TxRelated quit (f g)) : Heeds TxRelated quit (globals >>= f) :=
  heeds_perform_bind (fun _ _ related => Raised.blind (f := f) related blind) rest

theorem heeds_fExit {f : Globals → Thread α} (leaves : ∀ g, g.fExit = true → f g = pure value)
    (quits : quit value) (rest : ∀ g, Heeds TxRelated quit (f g)) : Heeds TxRelated quit (globals >>= f) :=
  heeds_perform_bind (fun _ _ related => Raised.leaves (f := f) related leaves quits) rest

theorem heeds_rxGlobals {f : Globals → RxThread α} (blind : ∀ g exit, f { g with fExit := exit } = f g)
    (rest : ∀ g, Heeds RxRelated quit (f g)) : Heeds RxRelated quit (Rx.globals >>= f) :=
  heeds_perform_bind (fun _ _ related => Raised.blind (f := f) related blind) rest

theorem heeds_rxFExit {f : Globals → RxThread α} (leaves : ∀ g, g.fExit = true → f g = pure value)
    (quits : quit value) (rest : ∀ g, Heeds RxRelated quit (f g)) : Heeds RxRelated quit (Rx.globals >>= f) :=
  heeds_perform_bind (fun _ _ related => Raised.leaves (f := f) related leaves quits) rest

end

/-- How both threads receive a packet. -/
theorem heeds_receiveInto {S : Signature} {related : (o : S.Op) → S.Answer o → S.Answer o → Prop}
    {quit : Bool × Nat → Prop} {read : Nat → Nat → Prog S Int} {pktLen : Prog S Nat}
    (reads : ∀ index len, Heeds related (fun _ => False) (read index len))
    (length : Heeds related (fun _ => False) pktLen) :
    Heeds related quit (receiveInto read peerLen more pktLen) :=
  heeds_bind (reads _ _) fun _ => heeds_ite (heeds_pure _) <| heeds_bind length fun _ =>
    heeds_ite (heeds_pure _) <| heeds_bind (reads _ _) fun _ => heeds_ite (heeds_pure _) (heeds_pure _)

theorem productive_receiveInto {S : Signature} {read : Nat → Nat → Prog S Int} {pktLen : Prog S Nat}
    (reads : ∀ index len, Productive (read index len)) (length : Productive pktLen) :
    Productive (receiveInto read peerLen more pktLen) :=
  productive_bind (reads _ _) fun _ => productive_ite trivial <| productive_bind length fun _ =>
    productive_ite trivial <| productive_bind (reads _ _) fun _ => productive_ite trivial trivial

theorem relayerRead_heeds {quit : Bool × Nat → Prop} : Heeds TxRelated quit (relayerRead fd peerLen n) := by
  have packet {more : Nat} {pktLen : Thread Nat} (length : Heeds TxRelated (fun _ => False) pktLen) :
      Heeds TxRelated quit (receivePacket fd peerLen more pktLen) := by
    have reads (index len : Nat) : Heeds TxRelated (fun _ => False) (readDataFromPc fd (.buffer index) len) :=
      heeds_txOp (.readDataFromPc fd (.buffer index) len) nofun
    exact heeds_receiveInto reads length
  have short : Heeds TxRelated (fun _ => False) shortLength :=
    heeds_bind (heeds_txOp (.peek 3) nofun) fun _ => heeds_pure _
  have long : Heeds TxRelated (fun _ => False) longLength :=
    heeds_bind (heeds_txOp (.peek 4) nofun) fun _ => heeds_bind (heeds_txOp (.peek 3) nofun) fun _ => heeds_pure _
  refine heeds_bind (heeds_doWhile fun count => ?_) fun received => heeds_ite ?_ (heeds_pure _)
  · exact heeds_bind (heeds_txOp (.readDataFromPc fd .header 1) nofun) fun _ =>
      heeds_ite (heeds_ite (heeds_pure _) (heeds_pure _)) (heeds_pure _)
  · refine heeds_bind (heeds_txOp .header nofun) fun ucHeader => heeds_bind (heeds_txOp (.poke 0 ucHeader) nofun) fun _ => ?_
    exact heeds_ite (packet short) (heeds_ite (packet long) (heeds_ite (packet short) (heeds_pure _)))

theorem emBTWrite_heeds {quit : Bool → Prop} : Heeds TxRelated quit (emBTWrite n) := by
  refine heeds_bind (heeds_txOp (.peek 0) nofun) fun _ => heeds_ite (heeds_pure _) ?_
  refine heeds_globals (fun _ _ => rfl) fun g => heeds_ite (heeds_pure _) (heeds_ite (heeds_pure _) ?_)
  exact heeds_bind (heeds_txOp (.btSendData g.bt_fd n) nofun) fun _ => heeds_ite (heeds_pure _) (heeds_pure _)

theorem btTxRound_heeds (x : Unit) :
    Heeds TxRelated (fun step => ∃ out, step = .inr out ∧ True) (btTxRound x) := by
  have stops {c : Prop} [Decidable c] : Heeds TxRelated (fun _ => False) (Prog.when c setExit) :=
    heeds_ite (heeds_txOp .setExit nofun) trivial
  refine heeds_fExit (fun _ exit => if_pos exit) ⟨(), rfl, trivial⟩ fun g => heeds_ite (heeds_pure _) ?_
  refine heeds_bind (heeds_txOp (.memset sizeofTxBuf) nofun) fun _ => heeds_bind relayerRead_heeds fun read =>
    heeds_ite ?_ ?_
  · exact heeds_bind emBTWrite_heeds fun _ => heeds_bind stops fun _ => heeds_pure _
  · exact heeds_bind stops fun _ => heeds_pure _

theorem relayerRead_productive : Productive (relayerRead fd peerLen n) := by
  have packet {more : Nat} {pktLen : Thread Nat} (length : Productive pktLen) :
      Productive (receivePacket fd peerLen more pktLen) := by
    have reads (index len : Nat) : Productive (readDataFromPc fd (.buffer index) len) := productive_perform
    exact productive_receiveInto reads length
  have short : Productive shortLength := productive_bind productive_perform fun _ => trivial
  have long : Productive longLength :=
    productive_bind productive_perform fun _ => productive_bind productive_perform fun _ => trivial
  refine productive_bind (productive_doWhile fun count => ⟨?_, .inl trivial⟩) fun received => productive_ite ?_ trivial
  · exact productive_bind productive_perform fun _ => productive_ite (productive_ite trivial trivial) trivial
  · refine productive_bind productive_perform fun _ => productive_bind productive_perform fun _ => ?_
    exact productive_ite (packet short) (productive_ite (packet long) (productive_ite (packet short) trivial))

theorem btTxRound_productive (x : Unit) : Productive (btTxRound x) := by
  have stops {c : Prop} [Decidable c] : Productive (Prog.when c setExit) := productive_when productive_perform
  refine productive_bind productive_perform fun g => productive_ite trivial ?_
  refine productive_bind productive_perform fun _ => productive_bind relayerRead_productive fun read =>
    productive_ite ?_ (productive_bind stops fun _ => trivial)
  refine productive_bind ?_ fun _ => productive_bind stops fun _ => trivial
  refine productive_bind productive_perform fun _ => productive_ite trivial ?_
  refine productive_bind productive_perform fun _ => productive_ite trivial (productive_ite trivial ?_)
  exact productive_bind productive_perform fun _ => productive_ite trivial trivial

/-! The same of `bt_rx_monitor`. -/

theorem receiveSwitch_heeds {type : UCHAR} {quit : Bool × Nat → Prop} :
    Heeds RxRelated quit (receiveSwitch fd peerLen type) := by
  have packet {more : Nat} {pktLen : RxThread Nat} (length : Heeds RxRelated (fun _ => False) pktLen) :
      Heeds RxRelated quit (receiveCase fd peerLen more pktLen) :=
    heeds_receiveInto (fun index len => heeds_rxOp (.btReceiveData fd (.buffer index) len) nofun) length
  have event : Heeds RxRelated (fun _ => False) eventLength :=
    heeds_bind (heeds_rxOp (.peek 2) nofun) fun _ => heeds_pure _
  have acl : Heeds RxRelated (fun _ => False) aclLength :=
    heeds_bind (heeds_rxOp (.peek 4) nofun) fun _ => heeds_bind (heeds_rxOp (.peek 3) nofun) fun _ => heeds_pure _
  have sco : Heeds RxRelated (fun _ => False) scoLength :=
    heeds_bind (heeds_rxOp (.peek 3) nofun) fun _ => heeds_pure _
  exact heeds_ite (packet event) (heeds_ite (packet acl) (heeds_ite (packet sco) (heeds_pure _)))

theorem emBTRead_heeds {quit : Bool × Nat → Prop} : Heeds RxRelated quit (emBTRead peerLen n) := by
  refine heeds_rxGlobals (fun _ _ => rfl) fun g =>
    heeds_ite (heeds_pure _) (heeds_ite (heeds_pure _) (heeds_doWhile fun count => ?_))
  refine heeds_bind (heeds_rxOp (.btReceiveData g.bt_fd .header 1) nofun) fun _ =>
    heeds_ite (heeds_ite (heeds_pure _) (heeds_pure _)) ?_
  refine heeds_bind (heeds_rxOp .header nofun) fun type => heeds_bind (heeds_rxOp (.poke 0 type) nofun) fun _ => ?_
  refine heeds_bind receiveSwitch_heeds fun read => heeds_ite (heeds_bind ?_ fun dropped => ?_) (heeds_pure _)
  · exact heeds_bind (heeds_rxOp (.peek 0) nofun) fun _ =>
      heeds_ite (heeds_bind (heeds_rxOp (.peek 1) nofun) fun _ => heeds_pure _) (heeds_pure _)
  · exact heeds_ite (heeds_bind (heeds_rxOp (.memset peerLen) nofun) fun _ => heeds_pure _) (heeds_pure _)

theorem relayerWrite_heeds {quit : Bool → Prop} : Heeds RxRelated quit (relayerWrite fd peerLen) := by
  refine heeds_bind (heeds_rxOp (.peek 0) nofun) fun _ => heeds_ite (heeds_pure _) (heeds_bind ?_ fun _ => ?_)
  · refine heeds_ite (heeds_pure _) (heeds_doWhile fun rest => heeds_ite ?_ (heeds_pure _))
    exact heeds_bind (heeds_rxOp (.write fd rest.1 rest.2.toNat) nofun) fun _ =>
      heeds_ite (heeds_ite (heeds_pure _) (heeds_pure _)) (heeds_pure _)
  · exact heeds_ite (heeds_pure _) (heeds_pure _)

theorem btRxRound_heeds (x : Unit) :
    Heeds RxRelated (fun step => ∃ out, step = .inr out ∧ True) (btRxRound x) := by
  have stops {c : Prop} [Decidable c] : Heeds RxRelated (fun _ => False) (Prog.when c Rx.setExit) :=
    heeds_ite (heeds_rxOp .setExit nofun) trivial
  refine heeds_rxFExit (fun _ exit => if_pos exit) ⟨(), rfl, trivial⟩ fun g => heeds_ite (heeds_pure _) ?_
  refine heeds_bind (heeds_rxOp (.memset sizeofRxBuf) nofun) fun _ => heeds_bind emBTRead_heeds fun read =>
    heeds_ite ?_ (heeds_bind stops fun _ => heeds_pure _)
  exact heeds_rxGlobals (fun _ _ => rfl) fun g =>
    heeds_bind relayerWrite_heeds fun _ => heeds_bind stops fun _ => heeds_pure _

theorem receiveSwitch_productive {type : UCHAR} : Productive (receiveSwitch fd peerLen type) := by
  have packet {more : Nat} {pktLen : RxThread Nat} (length : Productive pktLen) :
      Productive (receiveCase fd peerLen more pktLen) :=
    productive_receiveInto (fun _ _ => productive_perform) length
  have event : Productive eventLength := productive_bind productive_perform fun _ => trivial
  have acl : Productive aclLength :=
    productive_bind productive_perform fun _ => productive_bind productive_perform fun _ => trivial
  have sco : Productive scoLength := productive_bind productive_perform fun _ => trivial
  exact productive_ite (packet event) (productive_ite (packet acl) (productive_ite (packet sco) trivial))

theorem emBTRead_productive : Productive (emBTRead peerLen n) := by
  refine productive_bind productive_perform fun g => productive_ite trivial (productive_ite trivial ?_)
  refine productive_doWhile fun count => ⟨productive_bind productive_perform fun _ => ?_, .inl trivial⟩
  refine productive_ite (productive_ite trivial trivial) ?_
  refine productive_bind productive_perform fun type => productive_bind productive_perform fun _ => ?_
  refine productive_bind receiveSwitch_productive fun read => productive_ite (productive_bind ?_ fun _ => ?_) trivial
  · exact productive_bind productive_perform fun _ =>
      productive_ite (productive_bind productive_perform fun _ => trivial) trivial
  · exact productive_ite (productive_bind productive_perform fun _ => trivial) trivial

theorem relayerWrite_productive : Productive (relayerWrite fd peerLen) := by
  refine productive_bind productive_perform fun _ => productive_ite trivial (productive_bind ?_ fun _ => ?_)
  · refine productive_ite trivial (productive_doWhile fun rest => ?_)
    unfold writeRest
    split
    next => exact ⟨productive_bind productive_perform fun _ => productive_ite (productive_ite trivial trivial) trivial, .inl trivial⟩
    next => exact ⟨trivial, .inr ⟨0, rfl⟩⟩
  · exact productive_ite trivial trivial

theorem btRxRound_productive (x : Unit) : Productive (btRxRound x) := by
  have stops {c : Prop} [Decidable c] : Productive (Prog.when c Rx.setExit) := productive_when productive_perform
  refine productive_bind productive_perform fun g => productive_ite trivial ?_
  refine productive_bind productive_perform fun _ => productive_bind emBTRead_productive fun read =>
    productive_ite ?_ (productive_bind stops fun _ => trivial)
  exact productive_bind productive_perform fun g =>
    productive_bind relayerWrite_productive fun _ => productive_bind stops fun _ => trivial

end

/-! The whole relay. -/

section
variable {send : List UCHAR → Int} {accept : Link → Nat → Written} {unaware : Unaware accept}
  {r₀ r r' : Duplex}

theorem btTxMonitor_heeds : Heeds TxRelated (fun _ => True) btTxMonitor := heeds_doWhile btTxRound_heeds
theorem btRxMonitor_heeds : Heeds RxRelated (fun _ => True) btRxMonitor := heeds_doWhile btRxRound_heeds

theorem btTxMonitor_productive : Productive btTxMonitor :=
  productive_doWhile fun x => ⟨btTxRound_productive x, .inl trivial⟩

theorem btRxMonitor_productive : Productive btRxMonitor :=
  productive_doWhile fun x => ⟨btRxRound_productive x, .inl trivial⟩

/-- Both threads are where they would be on their own, unless `fExit` has made them return. -/
structure Underway (send : List UCHAR → Int) (unaware : Unaware accept) (r₀ r : Duplex) : Prop where
  tx : (txDisturbance send).Follows (fun _ => True) btTxMonitor r₀.txLink r.txLeft r.txLink
  rx : (rxDisturbance unaware).Follows (fun _ => True) btRxMonitor r₀.rxLink r.rxLeft r.rxLink

theorem Started.underway (started : Started r₀) : Underway send unaware r₀ r₀ := by
  constructor
  · rw [started.txLeft]
    exact .start ⟨r₀.globals, rfl, .refl _⟩
  · rw [started.rxLeft]
    exact .start ⟨r₀.globals, rfl, .refl _⟩

theorem Underway.step (underway : Underway send unaware r₀ r) (step : DuplexStep send accept r r') :
    Underway send unaware r₀ r' := by
  cases step with
  | @tx o left takes =>
    have raised := @relayEnv_raises send o r.txLink
    exact ⟨underway.tx.taken btTxMonitor_heeds takes,
      underway.rx.frame (fun _ sim => Unraised.frame sim rfl raised) raised.raised⟩
  | @rx o left takes =>
    have raised := @chipEnv_raises accept o r.rxLink
    exact ⟨underway.tx.frame (fun _ sim => Unraised.frame sim rfl raised) raised.raised,
      underway.rx.taken btRxMonitor_heeds takes⟩

theorem Underway.moves (underway : Underway send unaware r₀ r) (moves : DuplexMoves send accept r r') :
    Underway send unaware r₀ r' := by
  cases moves with
  | step step => exact underway.step step
  | exit =>
    have raised := Raised.exit r.globals
    exact ⟨underway.tx.frame (fun _ sim => Unraised.frame sim rfl raised) raised.raised,
      underway.rx.frame (fun _ sim => Unraised.frame sim rfl raised) raised.raised⟩

theorem Started.reaches (started : Started r₀) (reaches : Relation.ReflTransGen (DuplexMoves send accept) r₀ r) :
    Underway send unaware r₀ r := by
  induction reaches with
  | refl => exact started.underway
  | tail _ moves ih => exact ih.moves moves

/-! What the threads do on their own. -/

theorem Started.forwarding (started : Started r₀) : Forwarding (pcFraming.packets r₀.tx.input) r₀.txLink := by
  refine ⟨⟨started.handle, started.chip⟩, ?_⟩
  have running : r₀.txLink.globals.fExit = false := started.running
  have fresh : r₀.txLink.sent = [] := started.txSent
  rw [fresh, running]
  rfl

theorem Started.relaying (started : Started r₀) : Relaying (chipPackets r₀.rx.input).flatten r₀.rxLink := by
  refine ⟨⟨started.handle, started.chip⟩, started.pc, ?_⟩
  have running : r₀.rxLink.globals.fExit = false := started.running
  have fresh : r₀.rxLink.sent = [] := started.rxSent
  rw [fresh, running]
  rfl

theorem btRxRound_safe (accepts : Accepts accept) {bytes : List UCHAR} {k : Link} (state : Relaying bytes k) :
    Serves (chipEnv accept) (Partly bytes) (btRxRound ())
      (Sum.elim (fun _ k' => Relaying bytes k') fun _ k' => k'.sent.flatten = bytes) k := by
  apply (btRxRound_forwards accepts state).mono
  intro step k' reached
  cases step with
  | inl _ => exact reached.1
  | inr _ => exact reached.1 ▸ reached.2

theorem Started.txSafe (succeeds : ∀ buffer, 0 ≤ send buffer) (started : Started r₀) :
    Safe (relayEnv send) (fun o k => InBounds o ∧ k.sent <+: pcFraming.packets r₀.tx.input) btTxMonitor r₀.txLink :=
  doWhile_safe (fun _ => Forwarding (pcFraming.packets r₀.tx.input))
    (fun _ _ state => btTxRound_safe succeeds state) started.forwarding

theorem Started.txReturns (succeeds : ∀ buffer, 0 ≤ send buffer) (started : Started r₀) :
    Ensures (relayEnv send) btTxMonitor (fun _ k => k.sent = pcFraming.packets r₀.tx.input) r₀.txLink :=
  ensures_doWhile (fun _ => Forwarding (pcFraming.packets r₀.tx.input))
    (fun _ _ state => (btTxRound_safe succeeds state).2.ensures) started.forwarding

theorem Started.rxSafe (accepts : Accepts accept) (started : Started r₀) :
    Safe (chipEnv accept) (Partly (chipPackets r₀.rx.input).flatten) btRxMonitor r₀.rxLink :=
  doWhile_safe (fun _ => Relaying (chipPackets r₀.rx.input).flatten)
    (fun _ _ state => btRxRound_safe accepts state) started.relaying

theorem Started.rxReturns (accepts : Accepts accept) (started : Started r₀) :
    Ensures (chipEnv accept) btRxMonitor (fun _ k => k.sent.flatten = (chipPackets r₀.rx.input).flatten) r₀.rxLink :=
  ensures_doWhile (fun _ => Relaying (chipPackets r₀.rx.input).flatten)
    (fun _ _ state => (btRxRound_safe accepts state).2.ensures) started.relaying

theorem Unraised.sent {k v : Link} (unraised : Unraised k v) : k.sent = v.sent := by
  obtain ⟨g, rfl, _⟩ := unraised
  rfl

theorem Underway.txSent (succeeds : ∀ buffer, 0 ≤ send buffer) (started : Started r₀)
    (underway : Underway send unaware r₀ r) : r.tx.sent <+: pcFraming.packets r₀.tx.input := by
  have safe : Safe (relayEnv send) (fun _ k => k.sent <+: pcFraming.packets r₀.tx.input) btTxMonitor r₀.txLink :=
    fun o k visit => (started.txSafe succeeds o k visit).2
  have ends : Ensures (relayEnv send) btTxMonitor (fun _ k => k.sent <+: pcFraming.packets r₀.tx.input) r₀.txLink :=
    (started.txReturns succeeds).mono fun _ _ whole => whole ▸ List.prefix_refl _
  obtain ⟨v, sim, part⟩ := underway.tx.holds btTxMonitor_productive safe ends
  rw [← sim.sent] at part
  exact part

theorem Underway.rxSent (accepts : Accepts accept) (started : Started r₀)
    (underway : Underway send unaware r₀ r) : r.rx.sent.flatten <+: (chipPackets r₀.rx.input).flatten := by
  have safe : Safe (chipEnv accept) (fun _ k => k.sent.flatten <+: (chipPackets r₀.rx.input).flatten)
      btRxMonitor r₀.rxLink := fun o k visit => (started.rxSafe accepts o k visit).2
  have ends : Ensures (chipEnv accept) btRxMonitor
      (fun _ k => k.sent.flatten <+: (chipPackets r₀.rx.input).flatten) r₀.rxLink :=
    (started.rxReturns accepts).mono fun _ _ whole => whole ▸ List.prefix_refl _
  obtain ⟨v, sim, part⟩ := underway.rx.holds btRxMonitor_productive safe ends
  rw [← sim.sent] at part
  exact part

/-! Every direction can be brought to its end, as long as `fExit` is not set. -/

theorem Unraised.calm {k v : Link} (unraised : Unraised k v) (running : ¬k.globals.fExit = true) : k = v := by
  obtain ⟨g, rfl, raised⟩ := unraised
  change ¬g.fExit = true at running
  rw [raised.calm running]

theorem tx_alone {left : Thread Unit} {k : Link} (reaches : Reaches (relayEnv send) (r.txLeft, r.txLink) (left, k)) :
    ∃ r', Relation.ReflTransGen (DuplexStep send accept) r r' ∧ r'.txLeft = left ∧ r'.txLink = k := by
  apply reaches.invariant (fun left k => ∃ r', Relation.ReflTransGen (DuplexStep send accept) r r' ∧
    r'.txLeft = left ∧ r'.txLink = k) _ ⟨r, .refl, rfl, rfl⟩
  rintro _ _ o left ⟨r', before, rfl, rfl⟩ takes
  exact ⟨_, before.tail (.tx takes), rfl, rfl⟩

theorem rx_alone {left : RxThread Unit} {k : Link}
    (reaches : Reaches (chipEnv accept) (r.rxLeft, r.rxLink) (left, k)) :
    ∃ r', Relation.ReflTransGen (DuplexStep send accept) r r' ∧ r'.rxLeft = left ∧ r'.rxLink = k := by
  apply reaches.invariant (fun left k => ∃ r', Relation.ReflTransGen (DuplexStep send accept) r r' ∧
    r'.rxLeft = left ∧ r'.rxLink = k) _ ⟨r, .refl, rfl, rfl⟩
  rintro _ _ o left ⟨r', before, rfl, rfl⟩ takes
  exact ⟨_, before.tail (.rx takes), rfl, rfl⟩

theorem relayEnv_sent (o : RelayOp) (k : Link) : k.sent <+: (relayEnv send o k).2.sent := by
  cases o with
  | readDataFromPc _ dest _ => cases dest <;> exact List.prefix_refl _
  | btSendData _ _ => exact List.prefix_append _ _
  | _ => exact List.prefix_refl _

theorem chipEnv_sent (o : ChipOp) (k : Link) : k.sent.flatten <+: (chipEnv accept o k).2.sent.flatten := by
  cases o with
  | btReceiveData _ dest _ => cases dest <;> exact List.prefix_refl _
  | write _ _ _ =>
    change _ <+: (k.sent ++ _).flatten
    rw [List.flatten_append]
    exact List.prefix_append _ _
  | _ => exact List.prefix_refl _

theorem Underway.txDelivers (succeeds : ∀ buffer, 0 ≤ send buffer) (started : Started r₀)
    (underway : Underway send unaware r₀ r) (running : ¬r.globals.fExit = true) :
    ∃ r', Relation.ReflTransGen (DuplexStep send accept) r r' ∧ pcFraming.packets r₀.tx.input <+: r'.tx.sent := by
  obtain ⟨q, v, reaches, sim, same | ⟨_, stopped⟩⟩ := underway.tx
  · obtain ⟨o, k, visit, done⟩ := btTxMonitor_completes succeeds started.forwarding
    have keeps (o : RelayOp) (k : Link) (there : pcFraming.packets r₀.tx.input <+: k.sent) :
        pcFraming.packets r₀.tx.input <+: (relayEnv send o k).2.sent := there.trans (relayEnv_sent o k)
    have here : r.txLink = v := sim.calm running
    rcases reaches.pending keeps visit (done ▸ List.prefix_refl _) with behind | ⟨o, k', ahead, there⟩
    · rw [← here] at behind
      exact ⟨r, .refl, behind⟩
    · obtain ⟨left, later⟩ := ahead.reaches
      rw [← same, ← here] at later
      obtain ⟨r', steps, _, rfl⟩ := @tx_alone _ accept _ _ _ later
      exact ⟨r', steps, there⟩
  · exact absurd stopped running

theorem Underway.rxDelivers (accepts : Accepts accept) (started : Started r₀)
    (underway : Underway send unaware r₀ r) (running : ¬r.globals.fExit = true) :
    ∃ r', Relation.ReflTransGen (DuplexStep send accept) r r' ∧
      (chipPackets r₀.rx.input).flatten <+: r'.rx.sent.flatten := by
  obtain ⟨q, v, reaches, sim, same | ⟨_, stopped⟩⟩ := underway.rx
  · obtain ⟨o, k, visit, done⟩ := btRxMonitor_completes accepts started.relaying
    have keeps (o : ChipOp) (k : Link) (there : (chipPackets r₀.rx.input).flatten <+: k.sent.flatten) :
        (chipPackets r₀.rx.input).flatten <+: (chipEnv accept o k).2.sent.flatten := there.trans (chipEnv_sent o k)
    have here : r.rxLink = v := sim.calm running
    rcases reaches.pending keeps visit (done ▸ List.prefix_refl _) with behind | ⟨o, k', ahead, there⟩
    · rw [← here] at behind
      exact ⟨r, .refl, behind⟩
    · obtain ⟨left, later⟩ := ahead.reaches
      rw [← same, ← here] at later
      obtain ⟨r', steps, _, rfl⟩ := @rx_alone send _ _ _ _ later
      exact ⟨r', steps, there⟩
  · exact absurd stopped running

theorem Underway.steps (underway : Underway send unaware r₀ r)
    (steps : Relation.ReflTransGen (DuplexStep send accept) r r') : Underway send unaware r₀ r' := by
  induction steps with
  | refl => exact underway
  | tail _ step ih => exact ih.step step

end

/-! A relay that is stopped. -/

def startedRelay (pc chip : List UCHAR) : Duplex :=
  ⟨(openLink pc).globals, openLink pc, openLink chip, btTxMonitor, btRxMonitor⟩

theorem startedRelay_started (pc chip : List UCHAR) : Started (startedRelay pc chip) where
  txLeft := rfl
  rxLeft := rfl
  handle := rfl
  chip := show (0 : Int) ≤ 4 by decide
  pc := show (0 : Int) ≤ 3 by decide
  running := rfl
  txSent := rfl
  rxSent := rfl

theorem slowPc_accepts : Accepts slowPc := by
  intro k len some
  show 0 < min 2 (len : Int) ∧ min 2 (len : Int) ≤ len
  omega

theorem slowPc_unaware : Unaware slowPc := fun _ _ _ => rfl

def lengthOf (buffer : List UCHAR) : Int := buffer.length

theorem lengthOf_succeeds (buffer : List UCHAR) : 0 ≤ lengthOf buffer := Int.natCast_nonneg buffer.length

/-- `RELAYER_exit` after all the packets of the PC. -/
theorem stopped_late : ∃ r : Duplex,
    Relation.ReflTransGen (DuplexMoves lengthOf slowPc) (startedRelay mixedStream chipStream) r ∧
    r.globals.fExit = true ∧ pcFraming.packets mixedStream <+: r.tx.sent := by
  have started := startedRelay_started mixedStream chipStream
  have unset : ¬(startedRelay mixedStream chipStream).globals.fExit = true := by decide
  obtain ⟨r, steps, sent⟩ := (@Started.underway lengthOf slowPc slowPc_unaware _ started).txDelivers lengthOf_succeeds started unset
  exact ⟨r.exit, (Relation.ReflTransGen.mono (fun _ _ => .step) _ _ steps).tail .exit, rfl, sent⟩

/-! The results. -/

section
variable {send : List UCHAR → Int} {accept : Link → Nat → Written} {r₀ r : Duplex}

/-- In every interleaving of the two threads, whenever `RELAYER_exit` is called, the chip has been handed
packets of the PC and the PC packets of the chip, in order, and no buffer is overrun. -/
theorem duplex_forwards (succeeds : ∀ buffer, 0 ≤ send buffer) (accepts : Accepts accept)
    (unaware : Unaware accept) (started : Started r₀)
    (reaches : Relation.ReflTransGen (DuplexMoves send accept) r₀ r) :
    r.tx.sent <+: pcFraming.packets r₀.tx.input ∧
      r.rx.sent.flatten <+: (chipPackets r₀.rx.input).flatten ∧
      (∀ e left, Takes r.txLeft e left → InBounds e.1) ∧ ∀ e left, Takes r.rxLeft e left → InRxBounds e.1 := by
  have underway : Underway send unaware r₀ r := started.reaches reaches
  refine ⟨underway.txSent succeeds started, underway.rxSent accepts started, ?_, ?_⟩
  · intro e left takes
    obtain ⟨_, _, bound, _⟩ := underway.tx.safe (started.txSafe succeeds) takes
    exact bound
  · intro e left takes
    obtain ⟨_, _, bound, _⟩ := underway.rx.safe (started.rxSafe accepts) takes
    exact bound

theorem stopped_forwards : ∃ r : Duplex, r.globals.fExit = true ∧ pcFraming.packets mixedStream <+: r.tx.sent ∧
    r.tx.sent <+: pcFraming.packets mixedStream ∧ r.rx.sent.flatten <+: (chipPackets chipStream).flatten ∧
      (∀ e left, Takes r.txLeft e left → InBounds e.1) ∧ ∀ e left, Takes r.rxLeft e left → InRxBounds e.1 := by
  obtain ⟨r, reaches, exit, sent⟩ := stopped_late
  exact ⟨r, exit, sent, duplex_forwards lengthOf_succeeds slowPc_accepts slowPc_unaware
    (startedRelay_started mixedStream chipStream) reaches⟩

/-- Wherever the relay has got to, as long as nothing has set `fExit` each of the two directions can
still be brought to its end. -/
theorem duplex_delivers (succeeds : ∀ buffer, 0 ≤ send buffer) (accepts : Accepts accept)
    (unaware : Unaware accept) (started : Started r₀)
    (reaches : Relation.ReflTransGen (DuplexMoves send accept) r₀ r) (running : r.globals.fExit = false) :
    (∃ r', Relation.ReflTransGen (DuplexStep send accept) r r' ∧ r'.tx.sent = pcFraming.packets r₀.tx.input) ∧
      ∃ r', Relation.ReflTransGen (DuplexStep send accept) r r' ∧
        r'.rx.sent.flatten = (chipPackets r₀.rx.input).flatten := by
  have underway : Underway send unaware r₀ r := started.reaches reaches
  have unset : ¬r.globals.fExit = true := by
    rw [running]
    decide
  obtain ⟨r₁, steps₁, whole₁⟩ := underway.txDelivers succeeds started unset
  obtain ⟨r₂, steps₂, whole₂⟩ := underway.rxDelivers accepts started unset
  have part₁ := (underway.steps steps₁).txSent succeeds started
  have part₂ := (underway.steps steps₂).rxSent accepts started
  exact ⟨⟨r₁, steps₁, part₁.eq_of_length_le whole₁.length_le⟩, r₂, steps₂, part₂.eq_of_length_le whole₂.length_le⟩

theorem started_delivers :
    (∃ r', Relation.ReflTransGen (DuplexStep lengthOf slowPc) (startedRelay mixedStream chipStream) r' ∧
      r'.tx.sent = pcFraming.packets mixedStream) ∧
    ∃ r', Relation.ReflTransGen (DuplexStep lengthOf slowPc) (startedRelay mixedStream chipStream) r' ∧
      r'.rx.sent.flatten = (chipPackets chipStream).flatten :=
  duplex_delivers lengthOf_succeeds slowPc_accepts slowPc_unaware
    (startedRelay_started mixedStream chipStream) .refl rfl

end

end Yika.Relay
