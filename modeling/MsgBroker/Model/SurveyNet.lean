import Mathlib.Algebra.GroupWithZero.Nat
import MsgBroker.Lib.Reach
import MsgBroker.Model.FifoPipe
import MsgBroker.Model.Survey

/-!
# A SURVEYOR and its RESPONDENTs

One SURVEYOR joined to any number of RESPONDENT sockets `ρ` by pipes `π`, all attached at both ends.
-/

set_option autoImplicit false

namespace MsgBroker.Model

open Lib

variable {ρ π μ : Type}

/-- The sockets, the queues (as the SURVEYOR sees them), the number of the last survey
sent, the survey each RESPONDENT received last, and for each reply read the number of the
open survey and the number in the reply. -/
structure SurveyNet (ρ π μ : Type) where
  sv : Surveyor π
  rs : ρ → Respondent π
  wire : Delay π (μ × ℕ)
  surveys : ℕ
  lastGot : ρ → ℕ
  got : List (ℕ × ℕ)

/-- One operation, with every choice its environment makes: the readings of the clock and
the pipes that take a message. -/
inductive SurveyOp (ρ π μ : Type) where
  | svSend (m : μ) (now later : ℕ) (accept : π → Bool)
  | svRecv (now : ℕ)
  | svEvents (now : ℕ) (accept : π → Bool)
  | svDeadline (ms : ℤ)
  | rsRecv (r : ρ)
  | rsSend (r : ρ) (m : μ) (accept : π → Bool)
  | toSv (p : π)
  | toRs (p : π)

namespace SurveyNet

variable [DecidableEq ρ] [DecidableEq π]

/-- The pipes attached at both ends; `peer` tells whose RESPONDENT end a pipe has. -/
def init (peer : π → ρ) (pipes : List π) : SurveyNet ρ π μ where
  sv := { (Surveyor.create : Surveyor π) with pipes := ⟨pipes.map fun p => ⟨p, false⟩⟩ }
  rs r := { (Respondent.create : Respondent π) with
    pipes := ⟨(pipes.filter fun p => peer p = r).map fun p => ⟨p, false⟩⟩ }
  wire := .empty
  surveys := 0
  lastGot _ := 0
  got := []

/-- More replies than any pipe of the SURVEYOR has to read, as a bound for its drain. -/
def pending (s : SurveyNet ρ π μ) : ℕ :=
  (s.sv.pipes.ids.map fun p => (s.wire.arrived.inn p).length).sum + 1

/-- One operation. -/
def step (s : SurveyNet ρ π μ) : SurveyOp ρ π μ → Option (SurveyNet ρ π μ)
  | .svSend m now later accept =>
    let (rc, sv, e) := s.sv.send delayPipes s.pending now later (m, s.surveys + 1) (s.wire, accept)
    some { s with
      sv := sv, wire := e.1, surveys := if rc = .ok then s.surveys + 1 else s.surveys }
  | .svRecv now =>
    let (res, sv, e) := s.sv.recv delayPipes s.pending now (s.wire, fun _ => false)
    some { s with
      sv := sv
      wire := e.1
      got := match res with
        | .ok m => s.got ++ [(s.surveys, m.2)]
        | .error _ => s.got }
  | .svEvents now accept =>
    let (_, sv, e) := s.sv.events delayPipes s.pending now (s.wire, accept)
    some { s with sv := sv, wire := e.1 }
  | .svDeadline ms => some { s with sv := (s.sv.setDeadline ms).2 }
  | .rsRecv r =>
    let (res, x, e) := (s.rs r).recv delayPipes (s.wire.flip, fun _ => false)
    some { s with
      rs := Function.update s.rs r x
      wire := e.1.flip
      lastGot := match res with
        | .ok m => Function.update s.lastGot r m.2
        | .error _ => s.lastGot }
  | .rsSend r m accept =>
    let (_, x, e) := (s.rs r).send delayPipes (m, s.lastGot r) (s.wire.flip, accept)
    some { s with rs := Function.update s.rs r x, wire := e.1.flip }
  | .toSv p => (s.wire.deliver p).map fun w => { s with wire := w }
  | .toRs p => (s.wire.flip.deliver p).map fun w => { s with wire := w.flip }

/-- The network as a labelled system. -/
def system (peer : π → ρ) (pipes : List π) : System (SurveyNet ρ π μ) (SurveyOp ρ π μ) :=
  ⟨init peer pipes, step⟩

/-- Nothing of an older survey is left: no survey is unread, no reply is owed, and no reply
is in transit.  Replies that arrived are drained. -/
def Quiet (s : SurveyNet ρ π μ) : Prop :=
  ∀ p, s.wire.transit.out p = [] ∧ s.wire.arrived.out p = [] ∧ s.wire.transit.inn p = [] ∧
    ∀ r, (s.rs r).lastPipe ≠ some p

end SurveyNet

end MsgBroker.Model
