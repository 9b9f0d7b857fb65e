import Yika.Program.Pump
import Yika.Relay.Chip

/-! The two senders of `bt_relayer.cpp` for the UART, `write_data_to_pc` and `send`, over every
sequence of results that `write` may have on it. -/

namespace Yika.Relay
open Program

/-- What a `write` finds: room for so many bytes, or an error. -/
inductive WriteResult where
  | room (bytes : Nat)
  | failed (errno : Nat)

/-- An error after which `write_data_to_pc` tries again. -/
def Interruption (errno : Nat) : Prop := errno = EINTR ∨ errno = EAGAIN

instance (errno : Nat) : Decidable (Interruption errno) := inferInstanceAs (Decidable (_ ∨ _))

def WriteResult.piece : WriteResult → Piece
  | .room bytes => .moved bytes
  | .failed errno => if Interruption errno then .moved 0 else .failed

def writePieces (results : Nat → WriteResult) (turn : Nat) : Piece := (results turn).piece

def WriteResult.answer (len : Nat) : WriteResult → Written
  | .room bytes => ⟨(min bytes len : Nat), 0⟩
  | .failed errno => ⟨-1, errno⟩

/-- The UART: each `write` has the next result, and `sent` has an entry for each. -/
def uartEnv (results : Nat → WriteResult) : Env chipSignature Link :=
  chipEnv fun k len => (results k.sent.length).answer len

def Link.sending (buffer : List UCHAR) (fd : Int) : Link where
  input := []
  ucHeader := 0
  ucTxBuf i := buffer.getD i 0
  sent := []
  globals := { uart_fd := fd, bt_fd := -1, glib_handle := false, fExit := false }

def send (len : Nat) : RxThread Int := do
  let g ← Rx.globals
  if -1 < g.uart_fd then do
    let t ← Rx.write g.uart_fd 0 len
    pure t.bytesWritten
  else do
    let g ← Rx.globals
    pure g.uart_fd

section
variable {results : Nat → WriteResult} {k : Link} {fd : Int} {buffer : List UCHAR}

@[simp] theorem achieves_rxWrite {index len : Nat} {post : Written → Link → Prop} :
    Achieves (uartEnv results) (Rx.write fd index len) post k ↔
      post ((results k.sent.length).answer len) { k with sent := k.sent ++
        [k.slice index ((results k.sent.length).answer len).bytesWritten.toNat] } := achieves_perform

@[simp] theorem achieves_rxGlobals {post : Globals → Link → Prop} :
    Achieves (uartEnv results) Rx.globals post k ↔ post k.globals k := achieves_perform

/-- The locals of a loop after a turn, or what it returns: `index` and what is left of the bytes. -/
def advance (index left : Nat) : Piece → (Nat × Int) ⊕ Int
  | .moved count => .inl (index + min count left, ((left - min count left : Nat) : Int))
  | .failed => .inr (-1)

def taken (buffer : List UCHAR) (results : Nat → WriteResult) (turn : Nat) : Nat :=
  min (movedBy (writePieces results) turn) buffer.length

theorem taken_succ (buffer : List UCHAR) (results : Nat → WriteResult) (turn : Nat) :
    taken buffer results (turn + 1) = taken buffer results turn +
      min (writePieces results turn).count (buffer.length - taken buffer results turn) := by
  rw [taken, taken, movedBy_succ]
  omega

/-- The buffer is in place, and after `turn` writes the UART has what they could take of it. -/
structure Delivered (buffer : List UCHAR) (results : Nat → WriteResult) (turn : Nat) (k : Link) :
    Prop where
  loaded : k.ucTxBuf = fun i => buffer.getD i 0
  turns : k.sent.length = turn
  sent : k.sent.flatten = buffer.take (taken buffer results turn)

theorem slice_loaded (loaded : k.ucTxBuf = fun i => buffer.getD i 0) {index len : Nat}
    (inside : index + len ≤ buffer.length) : k.slice index len = (buffer.drop index).take len := by
  apply List.ext_getElem
  · rw [Link.slice, List.length_map, List.length_range, List.length_take, List.length_drop]
    omega
  · intro i here there
    rw [Link.slice, List.length_map, List.length_range] at here
    simp only [Link.slice, loaded, List.getElem_map, List.getElem_range, List.getElem_take,
      List.getElem_drop]
    rw [List.getD_eq_getElem?_getD, List.getElem?_eq_getElem (by omega), Option.getD_some]

theorem achieves_writeRest {index left : Nat} {post : (Nat × Int) ⊕ Int → Link → Prop}
    (some : 0 < left) : Achieves (uartEnv results) (writeRest fd (index, (left : Int))) post k ↔
      post (advance index left (results k.sent.length).piece) { k with sent := k.sent ++
        [k.slice index (min (results k.sent.length).piece.count left)] } := by
  have positive : (0 : Int) < (index, (left : Int)).2 := Int.natCast_pos.mpr some
  rw [writeRest, if_pos positive, achieves_bind, achieves_rxWrite, Int.toNat_natCast]
  simp only [achieves_ite, achieves_pure]
  cases results k.sent.length with
  | room bytes =>
    have took : ¬((min bytes left : Nat) : Int) < 0 := by omega
    have rest : (left : Int) - ((min bytes left : Nat) : Int) = ((left - min bytes left : Nat) : Int) := by
      omega
    simp only [WriteResult.answer, WriteResult.piece, Piece.count, advance, took, rest,
      Int.toNat_natCast, false_implies, true_and, not_false_eq_true, forall_const]
  | failed errno =>
    have negative : (-1 : Int) < 0 := by decide
    simp only [WriteResult.answer, WriteResult.piece, negative, forall_const, not_true_eq_false,
      false_implies, and_true]
    by_cases again : Interruption errno
    · have tries : errno = EINTR ∨ errno = EAGAIN := again
      simp [if_pos again, tries, advance, Piece.count]
    · have ends : ¬(errno = EINTR ∨ errno = EAGAIN) := again
      simp [if_neg again, ends, advance, Piece.count]

theorem Delivered.next {turn : Nat} (delivered : Delivered buffer results turn k) :
    Delivered buffer results (turn + 1) { k with sent := k.sent ++
      [k.slice (taken buffer results turn)
        (min (writePieces results turn).count (buffer.length - taken buffer results turn))] } := by
  constructor
  case loaded => exact delivered.loaded
  case turns => simp [delivered.turns]
  case sent =>
    have inside : taken buffer results turn +
        min (writePieces results turn).count (buffer.length - taken buffer results turn) ≤
          buffer.length := by
      rw [← taken_succ]
      exact Nat.min_le_right _ _
    rw [slice_loaded delivered.loaded inside, List.flatten_append, List.flatten_singleton,
      delivered.sent, ← List.take_add, taken_succ]

def writeLocals (buffer : List UCHAR) (results : Nat → WriteResult) (turn : Nat) : Nat × Int :=
  (taken buffer results turn, ((buffer.length - taken buffer results turn : Nat) : Int))

theorem writeRest_pumps (fd : Int) (results : Nat → WriteResult) (buffer : List UCHAR) :
    Pumps (uartEnv results) (writeRest fd) (writePieces results) buffer.length
      (writeLocals buffer results) 0 (-1) (Delivered buffer results) := by
  have left {turn : Nat} (wanting : movedBy (writePieces results) turn < buffer.length) :
      0 < buffer.length - taken buffer results turn := by
    rw [taken]
    omega
  constructor
  case finish =>
    intro turn k delivered enough
    have none : ¬(0 : Int) < ((buffer.length - taken buffer results turn : Nat) : Int) := by
      rw [taken]
      omega
    rw [writeRest, writeLocals, if_neg none, achieves_pure]
    exact ⟨rfl, delivered⟩
  case fail =>
    intro turn k delivered wanting failed
    have next := delivered.next
    rw [writeLocals, achieves_writeRest (left wanting), delivered.turns]
    change advance _ _ (writePieces results turn) = _ ∧ _
    refine ⟨?_, next⟩
    rw [failed, advance]
  case go =>
    intro turn k count delivered wanting moved
    have next := delivered.next
    have grown := taken_succ buffer results turn
    rw [moved, Piece.count] at grown
    have rest : buffer.length - taken buffer results turn -
        min count (buffer.length - taken buffer results turn) =
          buffer.length - taken buffer results (turn + 1) := by
      omega
    rw [writeLocals, achieves_writeRest (left wanting), delivered.turns]
    change advance _ _ (writePieces results turn) = _ ∧ _
    refine ⟨?_, next⟩
    rw [moved, advance, rest, ← grown, writeLocals]

theorem delivered_sending : Delivered buffer results 0 (Link.sending buffer fd) :=
  ⟨rfl, rfl, by simp [Link.sending, taken]⟩

theorem writeDataToPc_loop (opened : 0 ≤ fd) (results : Nat → WriteResult) (buffer : List UCHAR) :
    writeDataToPc fd buffer.length = Prog.doWhile (writeRest fd) (writeLocals buffer results 0) := by
  have start : writeLocals buffer results 0 = (0, (buffer.length : Int)) := by
    simp [writeLocals, taken]
  rw [writeDataToPc, if_neg (Int.not_lt.mpr opened), start]

/-- Whatever the results of `write` are, what the UART has taken when `write_data_to_pc` returns is
the start of the buffer, and it returns 0 when that is all of it. -/
theorem writeDataToPc_exact (opened : 0 ≤ fd) :
    Ensures (uartEnv results) (writeDataToPc fd buffer.length) (fun ret k' =>
      k'.sent.flatten <+: buffer ∧ (ret = 0 ↔ k'.sent.flatten = buffer)) (Link.sending buffer fd) := by
  rw [writeDataToPc_loop opened results]
  refine ((writeRest_pumps fd results buffer).ensures delivered_sending).mono ?_
  intro ret k' left
  rcases left with ⟨rfl, turns, delivered, enough⟩ | ⟨rfl, turns, delivered, below⟩
  · have all : k'.sent.flatten = buffer := by
      rw [delivered.sent, taken, Nat.min_eq_right enough, List.take_length]
    exact ⟨all ▸ List.prefix_refl _, iff_of_true rfl all⟩
  · refine ⟨delivered.sent ▸ List.take_prefix _ _, iff_of_false (by decide) fun all => ?_⟩
    have short := congrArg List.length (delivered.sent.symm.trans all)
    rw [List.length_take, taken] at short
    omega

/-- It returns 0 when the results let all of the buffer through. -/
theorem writeDataToPc_zero_iff (opened : 0 ≤ fd) :
    Achieves (uartEnv results) (writeDataToPc fd buffer.length) (fun ret _ => ret = 0)
      (Link.sending buffer fd) ↔ Completes (writePieces results) buffer.length := by
  rw [writeDataToPc_loop opened results]
  exact (writeRest_pumps fd results buffer).done_iff (by decide) delivered_sending

/-- `send` writes once. -/
theorem achieves_send (opened : 0 ≤ fd) {post : Int → Link → Prop} :
    Achieves (uartEnv results) (send buffer.length) post (Link.sending buffer fd) ↔
      post ((results 0).answer buffer.length).bytesWritten { Link.sending buffer fd with
        sent := [buffer.take ((results 0).answer buffer.length).bytesWritten.toNat] } := by
  have valid : -1 < (Link.sending buffer fd).globals.uart_fd := Int.lt_of_lt_of_le (by decide) opened
  have fits : ((results 0).answer buffer.length).bytesWritten.toNat ≤ buffer.length := by
    cases results 0 with
    | room bytes => exact Nat.min_le_right _ _
    | failed errno => exact Nat.zero_le _
  rw [send, achieves_bind, achieves_rxGlobals, if_pos valid, achieves_bind, achieves_rxWrite,
    achieves_pure, show (Link.sending buffer fd).sent = [] from rfl, List.length_nil, List.nil_append,
    slice_loaded rfl (by omega), List.drop_zero]

/-- `send` transmits the buffer whenever `write_data_to_pc` would return 0, and returns a negative
value whenever it does not transmit all of it. -/
structure SendsWhole (results : Nat → WriteResult) (fd : Int) (buffer : List UCHAR) : Prop where
  same : Achieves (uartEnv results) (writeDataToPc fd buffer.length) (fun ret _ => ret = 0)
      (Link.sending buffer fd) →
    Achieves (uartEnv results) (send buffer.length) (fun _ k' => k'.sent.flatten = buffer)
      (Link.sending buffer fd)
  told : Achieves (uartEnv results) (send buffer.length)
    (fun ret k' => k'.sent.flatten ≠ buffer → ret < 0) (Link.sending buffer fd)

/-- The first `write` takes all of the bytes, or fails when repeating it would not help. -/
def AtOnce (results : Nat → WriteResult) (len : Nat) : Prop :=
  match results 0 with
  | .room bytes => len ≤ bytes
  | .failed _ => len = 0 ∨ ¬Completes (writePieces results) len

/-- On an open UART `send` does as the relay's path exactly when the first `write` takes all of the
bytes or fails for good. -/
theorem send_whole_iff (results : Nat → WriteResult) (buffer : List UCHAR) (opened : 0 ≤ fd) :
    SendsWhole results fd buffer ↔ AtOnce results buffer.length := by
  have parts : SendsWhole results fd buffer ↔
      (Completes (writePieces results) buffer.length →
        buffer.take ((results 0).answer buffer.length).bytesWritten.toNat = buffer) ∧
      (buffer.take ((results 0).answer buffer.length).bytesWritten.toNat ≠ buffer →
        ((results 0).answer buffer.length).bytesWritten < 0) := by
    constructor
    · intro whole
      have same := whole.same
      have told := whole.told
      rw [writeDataToPc_zero_iff opened, achieves_send opened, List.flatten_singleton] at same
      rw [achieves_send opened, List.flatten_singleton] at told
      exact ⟨same, told⟩
    · intro given
      constructor
      case same =>
        rw [writeDataToPc_zero_iff opened, achieves_send opened, List.flatten_singleton]
        exact given.1
      case told =>
        rw [achieves_send opened, List.flatten_singleton]
        exact given.2
  rw [parts, AtOnce]
  cases results 0 with
  | room bytes =>
    have whole : buffer.take (min bytes buffer.length) = buffer ↔ buffer.length ≤ bytes := by
      rw [List.take_eq_self_iff]
      omega
    have nonneg : ¬((min bytes buffer.length : Nat) : Int) < 0 := by omega
    simp only [WriteResult.answer, Int.toNat_natCast, whole, nonneg, Ne, imp_false, not_not]
    exact and_iff_right_of_imp fun all _ => all
  | failed errno =>
    have empty : buffer.take (-1 : Int).toNat = buffer ↔ buffer.length = 0 := by
      rw [List.take_eq_self_iff]
      exact Nat.le_zero
    have negative : (-1 : Int) < 0 := by decide
    simp only [WriteResult.answer, empty, negative, implies_true, and_true]
    exact imp_iff_or_not

/-- Room for the whole event. -/
theorem roomy_send_whole : SendsWhole (fun _ => .room 512) 3 [0x04, 0x0e, 0x00] :=
  (send_whole_iff (fun _ => .room 512) [0x04, 0x0e, 0x00] (by decide)).mpr
    (by decide : (3 : Nat) ≤ 512)

/-- Room for one byte at first, for 512 later. -/
def slowUart (turn : Nat) : WriteResult := .room (if turn = 0 then 1 else 512)

/-- `write_data_to_pc` writes the rest of the event, `send` returns 1. -/
theorem short_write_cut_off : ¬SendsWhole slowUart 3 [0x04, 0x0e, 0x00] := by
  intro whole
  have told := (achieves_send (by decide)).mp whole.told
  have positive : ¬((slowUart 0).answer 3).bytesWritten < 0 := by decide
  exact positive (told (by decide))

end

end Yika.Relay
