import Yika.Program.Finishing
import Yika.Relay.Duplex
import Yika.Relay.ReadPc

/-! The end of the relay: both threads with the loops of `read_data_from_pc` and `write_data_to_pc` in
them, over every sequence of results that `select`, `read` and `write` may have on the UART, and
`RELAYER_exit`, which sets `fExit` and joins them. -/

namespace Yika.Relay
open Program

/-! `bt_tx_monitor` with the loop of `read_data_from_pc`. -/

inductive LineOp where
  | pc (o : PcOp) (dest : Dest)
  | relay (o : RelayOp)
  deriving DecidableEq

abbrev LineOp.Answer : LineOp → Type
  | .pc o _ => o.Answer
  | .relay o => o.Answer

abbrev lineSignature : Signature := ⟨LineOp, LineOp.Answer⟩

abbrev LineThread := Prog lineSignature

/-- The bytes that are read go to `dest`. -/
def onLine : (o : RelayOp) → LineThread o.Answer
  | .readDataFromPc fd dest len =>
    (Pc.readDataFromPc fd (BitVec.ofNat 32 len)).lower fun o => @Prog.perform lineSignature (.pc o dest)
  | o => @Prog.perform lineSignature (.relay o)

/-- Where the bytes from an index on are stored; `ucHeader` is one byte. -/
def Dest.from : Dest → Nat → Dest
  | .header, _ => .header
  | .buffer first, index => .buffer (first + index)

structure LineState where
  pc : PortState
  link : Link

def Port.delivered (port : Port) (w w' : PortState) : List UCHAR :=
  (List.range (w'.consumed - w.consumed)).map fun i => port.stream (w.consumed + i)

def lineEnv (port : Port) (send : List UCHAR → Int) : Env lineSignature LineState
  | .pc (.select fd) _, s => ((port.env (.select fd) s.pc).1, { s with pc := (port.env (.select fd) s.pc).2 })
  | .pc (.read fd index count) dest, s =>
    ((port.env (.read fd index count) s.pc).1,
      ⟨(port.env (.read fd index count) s.pc).2,
        s.link.store (dest.from index) (port.delivered s.pc (port.env (.read fd index count) s.pc).2)⟩)
  | .relay o, s => ((relayEnv send o s.link).1, { s with link := (relayEnv send o s.link).2 })

/-! A loop that goes by the results of its calls comes to its end where these do not stand still. -/

/-- `clock` counts the calls. -/
theorem achieves_paced {S : Signature} {W : Type} {env : Env S W} {body : Nat × Int → Prog S ((Nat × Int) ⊕ Int)}
    {pieces : Nat → Piece} (clock : W → Nat) (moving : Moving pieces)
    (turn : ∀ index left w, 0 < left → Achieves env (body (index, ((left : Nat) : Int))) (fun next w' =>
      next = advance index left (pieces (clock w)) ∧ clock w' = clock w + 1) w)
    (finish : ∀ rest w, ¬0 < rest.2 → Achieves env (body rest) (fun next _ => next = .inr 0) w)
    (rest : Nat × Int) (w : W) : Achieves env (Prog.doWhile body rest) (fun _ _ => True) w := by
  have none (rest : Nat × Int) (w : W) (nothing : ¬0 < rest.2) :
      Achieves env (Prog.doWhile body rest) (fun _ _ => True) w := by
    apply Achieves.doWhile
    apply (finish rest w nothing).mono
    rintro _ w' rfl
    trivial
  have wanting (left : Nat) : ∀ index w, Achieves env (Prog.doWhile body (index, (left : Int))) (fun _ _ => True) w := by
    induction left using Nat.strongRecOn with
    | ind left ih =>
      intro index w
      rcases Nat.eq_zero_or_pos left with rfl | some
      · exact none _ w (by simp)
      obtain ⟨later, after, moves⟩ := moving (clock w)
      -- until the call that moves something or fails
      induction distance : later - clock w generalizing index w with
      | zero =>
        obtain rfl : later = clock w := by omega
        apply Achieves.doWhile
        apply (turn index left w some).mono
        rintro _ w' ⟨rfl, _⟩
        cases found : pieces (clock w) with
        | failed => trivial
        | moved count =>
          have positive : 0 < count := Nat.pos_of_ne_zero fun zero => moves (by rw [found, zero])
          exact ih (left - min count left) (by omega) _ w'
      | succ distance again =>
        apply Achieves.doWhile
        apply (turn index left w some).mono
        rintro _ w' ⟨rfl, ticked⟩
        cases found : pieces (clock w) with
        | failed => trivial
        | moved count =>
          rcases Nat.eq_zero_or_pos count with rfl | positive
          · have same : left - min 0 left = left := by omega
            simp only [advance, same]
            exact again _ w' (by omega) (by omega)
          · exact ih (left - min count left) (by omega) _ w'
  by_cases some : 0 < rest.2
  · obtain ⟨index, left⟩ := rest
    obtain ⟨left, rfl⟩ := Int.eq_ofNat_of_zero_le (Int.le_of_lt some)
    exact wanting left index w
  · exact none rest w some

section
variable {port : Port} {results : Nat → WriteResult} {send : List UCHAR → Int} {fd : Int}

/-- Interruptions come to an end, and the peer does not hang up, wherever the UART has got to. -/
structure Port.Lasting (port : Port) : Prop where
  finite : ∃ n, ∀ turn, n ≤ turn → ¬(port.turns turn).Interrupted
  stays : ∀ w len, ¬HungUp port w len

theorem Port.Lasting.moving (lasting : port.Lasting) : Moving fun turn => (port.turns turn).piece := by
  intro turn
  obtain ⟨last, calm⟩ := lasting.finite
  obtain ⟨later, after, more⟩ : ∃ later, max turn last ≤ later ∧ port.turns later ≠ .readable (.bytes 0) := by
    by_contra none
    have idle (later : Nat) (after : max turn last ≤ later) : port.turns later = .readable (.bytes 0) :=
      not_not.mp fun more => none ⟨later, after, more⟩
    refine lasting.stays ⟨max turn last, 0, fun _ => 0⟩ 1 ⟨0, unbroken_zero, Nat.zero_lt_one, fun turn _ => ?_⟩
    exact idle _ (Nat.le_add_right _ _)
  refine ⟨later, by omega, fun still => ?_⟩
  have quiet := calm later (by omega)
  change (port.turns later).piece = .moved 0 at still
  cases result : port.turns later with
  | timeout =>
    rw [result] at still
    cases still
  | selectFailed errno =>
    rw [result] at still quiet
    have ends : ¬errno = EINTR := fun again => quiet (.inl again)
    rw [Turn.piece, if_neg ends] at still
    cases still
  | readable got =>
    rw [result] at still quiet more
    cases got with
    | bytes count =>
      cases still
      exact more rfl
    | failed errno =>
      have ends : ¬Interruption errno := quiet
      rw [Turn.piece, if_neg ends] at still
      cases still

theorem readRest_ends (lasting : port.Lasting) (rest : Nat × Int) (w : PortState) :
    Achieves port.env (Prog.doWhile (Pc.readRest fd) rest) (fun _ _ => True) w := by
  refine achieves_paced PortState.turn lasting.moving ?_ ?_ rest w
  · intro index left w some
    rw [achieves_readRest some]
    exact ⟨rfl, rfl⟩
  · intro rest w none
    rw [Pc.readRest, if_neg none, achieves_pure]

theorem writeRest_ends (moving : Moving (writePieces results)) (rest : Nat × Int) (k : Link) :
    Achieves (uartEnv results) (Prog.doWhile (writeRest fd) rest) (fun _ _ => True) k := by
  refine achieves_paced (fun k : Link => k.sent.length) moving ?_ ?_ rest k
  · intro index left k some
    rw [achieves_writeRest some]
    exact ⟨rfl, List.length_append⟩
  · intro rest k none
    rw [writeRest, if_neg none, achieves_pure]

/-! Both threads come to an end once `fExit` is set. -/

def LineState.Stopped (s : LineState) : Prop := s.link.globals.fExit = true
def Link.Stopped (k : Link) : Prop := k.globals.fExit = true

theorem lineEnv_raises (o : LineOp) (s : LineState) :
    Raised s.link.globals (lineEnv port send o s).2.link.globals := by
  cases o with
  | pc o dest =>
    cases o with
    | select _ => exact .refl _
    | read _ index _ => cases dest <;> exact .refl _
  | relay o => exact relayEnv_raises o s.link

/-- The loop of `read_data_from_pc` in the thread. -/
theorem onLine_refines (dest : Dest) : Refines (lineEnv port send) port.env
    (fun o => @Prog.perform lineSignature (.pc o dest)) LineState.Stopped LineState.pc := by
  intro o s stopped
  rw [achieves_perform]
  have kept := (@lineEnv_raises port send (.pc o dest) s).raised stopped
  cases o with
  | select _ => exact ⟨rfl, kept, rfl⟩
  | read _ _ _ => exact ⟨rfl, kept, rfl⟩

theorem readDataFromPc_finishing (lasting : port.Lasting) (len : BitVec 32) :
    Finishing port.env (fun _ => True) (Pc.readDataFromPc fd len) := by
  refine finishing_ite trivial (finishing_doWhile (fun rest => ?_) (fun rest w _ => readRest_ends lasting rest w) _)
  refine finishing_ite (finishing_bind finishing_perform fun selected => finishing_ite ?_ ?_) trivial
  · exact finishing_bind finishing_perform fun got => finishing_ite (finishing_ite trivial trivial) trivial
  · exact finishing_ite trivial (finishing_ite trivial trivial)

theorem onLine_finishing (lasting : port.Lasting) (o : RelayOp) :
    Finishing (lineEnv port send) LineState.Stopped (onLine o) := by
  cases o with
  | readDataFromPc fd dest len =>
    exact (readDataFromPc_finishing lasting _).lower (onLine_refines dest)
      (fun _ => finishing_perform) fun _ _ => trivial
  | _ => exact finishing_perform

theorem lineEnv_keeps (o : LineOp) (s : LineState) (stopped : s.Stopped) :
    (lineEnv port send o s).2.Stopped := (lineEnv_raises o s).raised stopped

theorem receiveHeader_ends (lasting : port.Lasting) (count : Nat) (s : LineState) (stopped : s.Stopped) :
    Achieves (lineEnv port send) (Prog.doWhile (fun count => (receiveHeader fd count).lower onLine) count)
      (fun _ _ => True) s := by
  refine achieves_doWhile (fun _ => LineState.Stopped) (fun count _ => 3 - count) ?_ stopped
  intro count s stopped
  rw [receiveHeader, lower_bind, achieves_bind, readDataFromPc, lower_perform]
  apply ((onLine_finishing lasting _).achieves lineEnv_keeps stopped).mono
  intro ret s' stopped'
  simp only [lower_ite, lower_pure, achieves_ite, achieves_pure]
  refine ⟨fun _ => ⟨fun more => ⟨stopped', ?_⟩, fun _ => trivial⟩, fun _ => trivial⟩
  omega

theorem receivePacket_finishing (lasting : port.Lasting) {peerLen more : Nat} {pktLen : Thread Nat}
    (length : Finishing (lineEnv port send) LineState.Stopped (pktLen.lower onLine)) :
    Finishing (lineEnv port send) LineState.Stopped ((receivePacket fd peerLen more pktLen).lower onLine) := by
  have read (index len : Nat) : Finishing (lineEnv port send) LineState.Stopped
      ((readDataFromPc fd (.buffer index) len).lower onLine) :=
    finishing_lower_perform (onLine_finishing lasting _)
  refine finishing_lower_bind (read _ _) fun _ => finishing_lower_ite trivial ?_
  refine finishing_lower_bind length fun _ => finishing_lower_ite trivial ?_
  exact finishing_lower_bind (read _ _) fun _ => finishing_lower_ite trivial trivial

theorem btTxRound_finishing (lasting : port.Lasting) (x : Unit) :
    Finishing (lineEnv port send) LineState.Stopped ((btTxRound x).lower onLine) := by
  have op (o : RelayOp) : Finishing (lineEnv port send) LineState.Stopped
      ((@Prog.perform relaySignature o).lower onLine) :=
    finishing_lower_perform (onLine_finishing lasting o)
  have short : Finishing (lineEnv port send) LineState.Stopped (shortLength.lower onLine) :=
    finishing_lower_bind (op (.peek 3)) fun _ => trivial
  have long : Finishing (lineEnv port send) LineState.Stopped (longLength.lower onLine) :=
    finishing_lower_bind (op (.peek 4)) fun _ => finishing_lower_bind (op (.peek 3)) fun _ => trivial
  have stops {c : Prop} [Decidable c] : Finishing (lineEnv port send) LineState.Stopped
      ((Prog.when c setExit).lower onLine) := finishing_lower_ite (op .setExit) trivial
  refine finishing_lower_bind (op .globals) fun g => finishing_lower_ite trivial ?_
  refine finishing_lower_bind (op (.memset sizeofTxBuf)) fun _ => finishing_lower_bind ?_ fun read => ?_
  · refine finishing_lower_bind ⟨fun count => ?_, receiveHeader_ends lasting, fun _ => trivial⟩ fun received =>
      finishing_lower_ite ?_ trivial
    · refine finishing_lower_bind (op (.readDataFromPc g.uart_fd .header 1)) fun _ => ?_
      exact finishing_lower_ite (finishing_lower_ite trivial trivial) trivial
    · refine finishing_lower_bind (op .header) fun ucHeader => finishing_lower_bind (op (.poke 0 ucHeader)) fun _ => ?_
      refine finishing_lower_ite (receivePacket_finishing lasting short) ?_
      refine finishing_lower_ite (receivePacket_finishing lasting long) ?_
      exact finishing_lower_ite (receivePacket_finishing lasting short) trivial
  · refine finishing_lower_ite ?_ (finishing_lower_bind stops fun _ => trivial)
    refine finishing_lower_bind ?_ fun _ => finishing_lower_bind stops fun _ => trivial
    refine finishing_lower_bind (op (.peek 0)) fun _ => finishing_lower_ite trivial ?_
    refine finishing_lower_bind (op .globals) fun g => finishing_lower_ite trivial (finishing_lower_ite trivial ?_)
    exact finishing_lower_bind (op (.btSendData g.bt_fd read.2)) fun _ => finishing_lower_ite trivial trivial

theorem btTxMonitor_finishing (lasting : port.Lasting) :
    Finishing (lineEnv port send) LineState.Stopped (btTxMonitor.lower onLine) := by
  refine finishing_doWhile (btTxRound_finishing lasting) (fun x s stopped => ?_) ()
  -- the head of the loop looks at `fExit`
  apply Achieves.doWhile
  rw [btTxRound, lower_bind, achieves_bind, globals, lower_perform]
  apply achieves_perform.mpr
  have leaves : s.link.globals.fExit = true := stopped
  simp only [lineEnv, relayEnv, leaves, if_true, lower_pure, achieves_pure, Sum.elim_inr]

/-! The same of `bt_rx_monitor`. -/

theorem receiveSwitch_finishing {good : Link → Prop} {peerLen : Nat} {type : UCHAR} :
    Finishing (uartEnv results) good (receiveSwitch fd peerLen type) := by
  have packet {more : Nat} {pktLen : RxThread Nat} (length : Finishing (uartEnv results) good pktLen) :
      Finishing (uartEnv results) good (receiveCase fd peerLen more pktLen) :=
    finishing_bind finishing_perform fun _ => finishing_ite trivial <| finishing_bind length fun _ =>
      finishing_ite trivial <| finishing_bind finishing_perform fun _ => finishing_ite trivial trivial
  have event : Finishing (uartEnv results) good eventLength := finishing_bind finishing_perform fun _ => trivial
  have acl : Finishing (uartEnv results) good aclLength :=
    finishing_bind finishing_perform fun _ => finishing_bind finishing_perform fun _ => trivial
  have sco : Finishing (uartEnv results) good scoLength := finishing_bind finishing_perform fun _ => trivial
  exact finishing_ite (packet event) (finishing_ite (packet acl) (finishing_ite (packet sco) trivial))

theorem debugEvent_finishing {good : Link → Prop} : Finishing (uartEnv results) good debugEvent :=
  finishing_bind finishing_perform fun _ =>
    finishing_ite (finishing_bind finishing_perform fun _ => trivial) trivial

/-- Nothing but the chip adds to what it has still to deliver. -/
theorem uartEnv_input {left : Nat} (o : ChipOp) (k : Link) (bound : k.input.length ≤ left) :
    (uartEnv results o k).2.input.length ≤ left := by
  cases o with
  | btReceiveData _ dest len =>
    change (k.input.drop len).length ≤ left
    rw [List.length_drop]
    omega
  | _ => exact bound

theorem emBTReadLoop_ends {peerLen : Nat} (count : Nat) (k : Link) :
    Achieves (uartEnv results) (Prog.doWhile (emBTReadLoop fd peerLen) count) (fun _ _ => True) k := by
  refine achieves_doWhile (fun _ _ => True) (fun count k => 4 * k.input.length + (3 - count)) ?_ trivial
  intro count k _
  have receives : Achieves (uartEnv results) (Rx.btReceiveData fd .header 1)
      (fun ret k₁ => k₁.input.length = k.input.length - 1 ∧ (¬ret < 0 → 0 < k.input.length)) k := by
    refine achieves_perform.mpr ⟨List.length_drop, fun came => Nat.pos_of_ne_zero fun none => came ?_⟩
    have short : ¬1 ≤ k.input.length := by omega
    change (if 1 ≤ k.input.length then (0 : Int) else -1) < 0
    rw [if_neg short]
    decide
  rw [emBTReadLoop, achieves_bind]
  apply receives.mono
  rintro ret k₁ ⟨fewer, some⟩
  rw [achieves_ite]
  constructor
  · intro failed
    rw [achieves_ite]
    refine ⟨fun more => achieves_pure.mpr ⟨trivial, ?_⟩, fun _ => achieves_pure.mpr trivial⟩
    omega
  · intro came
    -- whatever the rest of the round does, the byte is gone
    have gone : Achieves (uartEnv results) (do
        let ucHeader ← Rx.header
        Rx.poke 0 ucHeader
        receiveSwitch fd peerLen ucHeader) (fun _ k₂ => k₂.input.length ≤ k.input.length - 1) k₁ := by
      refine Finishing.achieves uartEnv_input ?_ fewer.le
      exact finishing_bind finishing_perform fun _ => finishing_bind finishing_perform fun _ =>
        receiveSwitch_finishing
    simp only [achieves_bind] at gone ⊢
    apply gone.mono
    intro ucHeader k₂ gone
    apply gone.mono
    intro _ k₃ gone
    apply gone.mono
    intro read k₄ gone
    rw [achieves_ite]
    refine ⟨fun _ => achieves_bind.mpr ?_, fun _ => achieves_pure.mpr trivial⟩
    apply (debugEvent_finishing.achieves uartEnv_input gone).mono
    intro dropped k₅ gone
    rw [achieves_ite]
    refine ⟨fun _ => achieves_bind.mpr (achieves_perform.mpr (achieves_pure.mpr ⟨trivial, ?_⟩)), fun _ => achieves_pure.mpr trivial⟩
    have here := some came
    have left := @uartEnv_input results _ (.memset peerLen) k₅ gone
    omega

theorem btRxMonitor_finishing (moving : Moving (writePieces results)) :
    Finishing (uartEnv results) Link.Stopped btRxMonitor := by
  have stops {c : Prop} [Decidable c] : Finishing (uartEnv results) Link.Stopped (Prog.when c Rx.setExit) :=
    finishing_when finishing_perform
  have received : Finishing (uartEnv results) Link.Stopped (emBTRead sizeofRxBuf 0) := by
    refine finishing_bind finishing_perform fun g => finishing_ite trivial (finishing_ite trivial ?_)
    refine finishing_doWhile (fun count => ?_) (fun count k _ => emBTReadLoop_ends count k) 0
    refine finishing_bind finishing_perform fun _ => finishing_ite (finishing_ite trivial trivial) ?_
    refine finishing_bind finishing_perform fun _ => finishing_bind finishing_perform fun _ => ?_
    refine finishing_bind receiveSwitch_finishing fun _ => finishing_ite ?_ trivial
    refine finishing_bind debugEvent_finishing fun _ => finishing_ite ?_ trivial
    exact finishing_bind finishing_perform fun _ => trivial
  have written (fd : Int) (len : Nat) : Finishing (uartEnv results) Link.Stopped (relayerWrite fd len) := by
    refine finishing_bind finishing_perform fun _ => finishing_ite trivial (finishing_bind ?_ fun _ => finishing_ite trivial trivial)
    refine finishing_ite trivial (finishing_doWhile (fun rest => ?_) (fun rest k _ => writeRest_ends moving rest k) _)
    refine finishing_ite (finishing_bind finishing_perform fun _ => ?_) trivial
    exact finishing_ite (finishing_ite trivial trivial) trivial
  refine finishing_doWhile (fun x => ?_) (fun x k stopped => ?_) ()
  · refine finishing_bind finishing_perform fun g => finishing_ite trivial ?_
    refine finishing_bind finishing_perform fun _ => finishing_bind received fun read => ?_
    refine finishing_ite ?_ (finishing_bind stops fun _ => trivial)
    exact finishing_bind finishing_perform fun g => finishing_bind (written g.uart_fd read.2) fun _ =>
      finishing_bind stops fun _ => trivial
  · apply Achieves.doWhile
    have leaves : k.globals.fExit = true := stopped
    rw [btRxRound, achieves_bind, achieves_rxGlobals, if_pos leaves, achieves_pure]
    trivial

end

/-! The threads together. -/

/-- The relay as `Duplex` has it, with the UART of `bt_tx_monitor`. -/
structure LineDuplex where
  globals : Globals
  tx : LineState
  rx : Link
  txLeft : LineThread Unit
  rxLeft : RxThread Unit

def LineDuplex.txState (r : LineDuplex) : LineState := { r.tx with link := { r.tx.link with globals := r.globals } }
def LineDuplex.rxLink (r : LineDuplex) : Link := { r.rx with globals := r.globals }

def LineDuplex.afterTx (r : LineDuplex) (s : LineState) (left : LineThread Unit) : LineDuplex :=
  { r with globals := s.link.globals, tx := s, txLeft := left }

def LineDuplex.afterRx (r : LineDuplex) (k : Link) (left : RxThread Unit) : LineDuplex :=
  { r with globals := k.globals, rx := k, rxLeft := left }

/-- `fExit = TRUE` of `RELAYER_exit`. -/
def LineDuplex.exit (r : LineDuplex) : LineDuplex := { r with globals := { r.globals with fExit := true } }

section
variable (port : Port) (send : List UCHAR → Int) (results : Nat → WriteResult)

inductive LineStep : LineDuplex → LineDuplex → Prop where
  | tx {r : LineDuplex} {o : LineOp} {left : LineThread Unit} :
      Takes r.txLeft ⟨o, (lineEnv port send o r.txState).1⟩ left →
      LineStep r (r.afterTx (lineEnv port send o r.txState).2 left)
  | rx {r : LineDuplex} {o : ChipOp} {left : RxThread Unit} :
      Takes r.rxLeft ⟨o, (uartEnv results o r.rxLink).1⟩ left →
      LineStep r (r.afterRx (uartEnv results o r.rxLink).2 left)

inductive LineMoves : LineDuplex → LineDuplex → Prop where
  | step {r r' : LineDuplex} : LineStep port send results r r' → LineMoves r r'
  | exit {r : LineDuplex} : LineMoves r r.exit

end

section
variable {port : Port} {send : List UCHAR → Int} {results : Nat → WriteResult} {r₀ r r' : LineDuplex}

structure Winding (port : Port) (send : List UCHAR → Int) (results : Nat → WriteResult) (r : LineDuplex) : Prop where
  tx : Finishing (lineEnv port send) LineState.Stopped r.txLeft
  rx : Finishing (uartEnv results) Link.Stopped r.rxLeft

theorem Winding.step (winding : Winding port send results r) (step : LineStep port send results r r') :
    Winding port send results r' := by
  cases step with
  | tx takes => exact ⟨winding.tx.taken takes, winding.rx⟩
  | rx takes => exact ⟨winding.tx, winding.rx.taken takes⟩

theorem Winding.moves (winding : Winding port send results r)
    (reaches : Relation.ReflTransGen (LineMoves port send results) r r') : Winding port send results r' := by
  induction reaches with
  | refl => exact winding
  | tail _ moves ih =>
    cases moves with
    | step step => exact ih.step step
    | exit => exact ⟨ih.tx, ih.rx⟩

def LineDuplex.halves (r : LineDuplex) : (LineThread Unit × LineState) × (RxThread Unit × Link) :=
  ((r.txLeft, r.txState), r.rxLeft, r.rxLink)

/-- Once `fExit` is set the globals do not change, so that a step is one of either thread on its own. -/
theorem LineStep.halves (step : LineStep port send results r r') (exit : r.globals.fExit = true) :
    r'.globals.fExit = true ∧ Prod.GameAdd (fun c' c => Advance (lineEnv port send) c c')
      (fun c' c => Advance (uartEnv results) c c') r'.halves r.halves := by
  cases step with
  | @tx o left takes =>
    have globals := (@lineEnv_raises port send o r.txState).stays exit
    have same : (r.afterTx (lineEnv port send o r.txState).2 left).rxLink = r.rxLink := by
      change { r.rx with globals := (lineEnv port send o r.txState).2.link.globals } = { r.rx with globals := r.globals }
      rw [globals]
      rfl
    refine ⟨(congrArg Globals.fExit globals).trans exit, ?_⟩
    rw [LineDuplex.halves, LineDuplex.halves, same]
    exact .fst ⟨o, takes, rfl⟩
  | @rx o left takes =>
    have globals := (@chipEnv_raises (fun k len => (results k.sent.length).answer len) o r.rxLink).stays exit
    have same : (r.afterRx (uartEnv results o r.rxLink).2 left).txState = r.txState := by
      change { r.tx with link := { r.tx.link with globals := (uartEnv results o r.rxLink).2.globals } } =
        { r.tx with link := { r.tx.link with globals := r.globals } }
      rw [uartEnv, globals]
      rfl
    refine ⟨(congrArg Globals.fExit globals).trans exit, ?_⟩
    rw [LineDuplex.halves, LineDuplex.halves, same]
    exact .snd ⟨o, takes, rfl⟩

theorem Winding.runs (winding : Winding port send results r) (exit : r.globals.fExit = true) :
    (∃ s, Runs (lineEnv port send) r.txLeft r.txState () s) ∧ ∃ k, Runs (uartEnv results) r.rxLeft r.rxLink () k := by
  have txStopped : r.txState.Stopped := exit
  have rxStopped : r.rxLink.Stopped := exit
  obtain ⟨_, s, run, _⟩ := winding.tx.achieves lineEnv_keeps txStopped
  obtain ⟨_, k, run', _⟩ := winding.rx.achieves (fun o k => (chipEnv_raises o k).raised) rxStopped
  exact ⟨⟨s, run⟩, k, run'⟩

theorem Winding.finite (winding : Winding port send results r) (exit : r.globals.fExit = true) :
    Acc (fun r' r => LineStep port send results r r') r := by
  obtain ⟨⟨_, run⟩, _, run'⟩ := winding.runs exit
  exact accessible_of (fun _ _ exit step => LineStep.halves step exit) (run.accessible.prod_gameAdd run'.accessible) exit

theorem Winding.returned (winding : Winding port send results r) (exit : r.globals.fExit = true)
    (stuck : ∀ r', ¬LineStep port send results r r') : Returned r.txLeft () ∧ Returned r.rxLeft () := by
  obtain ⟨⟨_, run⟩, _, run'⟩ := winding.runs exit
  constructor
  · refine run.returned fun c step => ?_
    obtain ⟨o, takes, _⟩ := step
    exact stuck _ (.tx takes)
  · refine run'.returned fun c step => ?_
    obtain ⟨o, takes, _⟩ := step
    exact stuck _ (.rx takes)

end

/-- The relay as `RELAYER_start` leaves it, with a PC that sends a byte at a time and takes two. -/
def startedLine (chip : List UCHAR) : LineDuplex :=
  ⟨(openLink []).globals, ⟨⟨0, 0, fun _ => 0⟩, openLink []⟩, openLink chip, btTxMonitor.lower onLine, btRxMonitor⟩

theorem typist_lasting : typist.Lasting := by
  refine ⟨⟨0, fun _ _ => id⟩, fun w len hung => ?_⟩
  obtain ⟨n, _, _, idle⟩ := hung
  cases idle n (Nat.le_refl n)

end Yika.Relay
