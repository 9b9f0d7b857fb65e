import Mathlib.Data.List.Basic

/-! Streams of packets without a frame around them: what stands at a packet boundary tells
where the next boundary is. -/

namespace Yika.Relay

/-- What stands at a packet boundary. -/
inductive Boundary where
  | skip
  | packet (length : Nat)
  | stop
  deriving DecidableEq

/-- A reading of the boundaries of a stream. A packet that it finds is there, and not empty. -/
structure Framing (α : Type) where
  boundary : List α → Boundary
  present : ∀ stream length, boundary stream = .packet length → 0 < length ∧ length ≤ stream.length

variable {α : Type} (framing : Framing α)

def Framing.packets : List α → List (List α)
  | [] => []
  | item :: rest =>
    match _found : framing.boundary (item :: rest) with
    | .skip => packets rest
    | .packet length => (item :: rest).take length :: packets ((item :: rest).drop length)
    | .stop => []
termination_by stream => stream.length
decreasing_by
  · exact Nat.lt_succ_self _
  · have bounds := framing.present _ _ _found
    rw [List.length_drop]
    omega

variable {framing} {stream : List α} {item : α} {length : Nat}

@[simp] theorem packets_nil : framing.packets [] = [] := by
  rw [Framing.packets]

theorem packets_skip (found : framing.boundary (item :: stream) = .skip) :
    framing.packets (item :: stream) = framing.packets stream := by
  rw [Framing.packets]
  split
  next => rfl
  next other => cases found.symm.trans other
  next other => cases found.symm.trans other

theorem packets_stop (found : framing.boundary stream = .stop) : framing.packets stream = [] := by
  cases stream with
  | nil => exact packets_nil
  | cons item rest =>
    rw [Framing.packets]
    split
    next other => cases found.symm.trans other
    next other => cases found.symm.trans other
    next => rfl

theorem packets_packet (found : framing.boundary stream = .packet length) :
    framing.packets stream = stream.take length :: framing.packets (stream.drop length) := by
  cases stream with
  | nil =>
    have bounds := framing.present _ _ found
    rw [List.length_nil] at bounds
    omega
  | cons item rest =>
    rw [Framing.packets]
    split
    next other => cases found.symm.trans other
    next other =>
      cases found.symm.trans other
      rfl
    next other => cases found.symm.trans other

end Yika.Relay
