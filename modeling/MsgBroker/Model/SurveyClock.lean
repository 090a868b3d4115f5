import Mathlib.Algebra.Ring.Int.Defs
import MsgBroker.Lib.Reach
import MsgBroker.Model.Survey

/-!
# A SURVEYOR over time

The calls of one SURVEYOR in any order, each at its clock reading.
-/

set_option autoImplicit false

namespace MsgBroker.Model

open Lib

/-- A SURVEYOR, the last clock reading, and the time and the deadline of the last survey that was
sent. -/
structure SurveyClock (π : Type) where
  sv : Surveyor π
  time : ℕ
  sentAt : ℕ
  sentDeadline : ℤ
deriving DecidableEq, Repr

/-- A call with its clock readings and the state in which it finds the pipes. -/
inductive SurveyCall (π μ ε : Type) where
  | send (now later : ℕ) (msg : μ) (e : ε)
  | recv (now : ℕ) (e : ε)
  | events (now : ℕ) (e : ε)
  | setDeadline (ms : ℤ)
  | add (pipe : π) (alloc : Bool)
  | rm (pipe : π)

namespace SurveyClock

variable {π μ ε : Type} [DecidableEq π] (ops : Pipes π μ ε) (bound : ℕ)

/-- The clock reading with which a call checks the deadline. -/
def reading : SurveyCall π μ ε → Option ℕ
  | .send now _ _ _ => some now
  | .recv now _ => some now
  | .events now _ => some now
  | _ => none

/-- One call. -/
def step (s : SurveyClock π) : SurveyCall π μ ε → Option (SurveyClock π)
  | .send now later msg e =>
    let (rc, sv, _) := s.sv.send ops bound now later msg e
    some { sv := sv
           time := later
           sentAt := if rc = .ok then later else s.sentAt
           sentDeadline := if rc = .ok then s.sv.deadlineMs else s.sentDeadline }
  | .recv now e => some { s with sv := (s.sv.recv ops bound now e).2.1, time := now }
  | .events now e => some { s with sv := (s.sv.events ops bound now e).2.1, time := now }
  | .setDeadline ms => some { s with sv := (s.sv.setDeadline ms).2 }
  | .add pipe alloc => some { s with sv := (s.sv.add pipe alloc).2 }
  | .rm pipe => some { s with sv := s.sv.rm pipe }

/-- All calls on a new SURVEYOR. -/
def system : System (SurveyClock π) (SurveyCall π μ ε) :=
  ⟨⟨.create, 0, 0, 0⟩, step ops bound⟩

/-- The clock goes forward and reads the milliseconds of a 64-bit count of microseconds, the
option is an `int`, and a respondent stays attached. -/
def Timed (s : SurveyClock π) : SurveyCall π μ ε → Prop
  | .send now later _ _ => s.time ≤ now ∧ now ≤ later ∧ later < 2 ^ 64 / 1000
  | .recv now _ => s.time ≤ now
  | .events now _ => s.time ≤ now
  | .setDeadline ms => ms < 2 ^ 31
  | .add _ _ => True
  | .rm pipe => (s.sv.pipes.rm pipe).pipes ≠ []

instance (s : SurveyClock π) : (c : SurveyCall π μ ε) → Decidable (Timed s c)
  | .send _ _ _ _ => inferInstanceAs (Decidable (_ ∧ _))
  | .recv _ _ => inferInstanceAs (Decidable (_ ≤ _))
  | .events _ _ => inferInstanceAs (Decidable (_ ≤ _))
  | .setDeadline _ => inferInstanceAs (Decidable (_ < _))
  | .add _ _ => inferInstanceAs (Decidable True)
  | .rm _ => inferInstanceAs (Decidable (_ ≠ _))

/-- The call finds a survey open and closes it.  `mb_surveyor_send` answers `-EFSM` exactly when
it finds the survey still open behind its check of the deadline. -/
def closes (s : SurveyClock π) : SurveyCall π μ ε → Bool
  | .send now later msg e =>
    s.sv.surveying && (s.sv.send ops bound now later msg e).1 != .err .EFSM
  | .recv now e => s.sv.surveying && !(s.sv.recv ops bound now e).2.1.surveying
  | .events now e => s.sv.surveying && !(s.sv.events ops bound now e).2.1.surveying
  | .setDeadline ms => s.sv.surveying && !(s.sv.setDeadline ms).2.surveying
  | .add pipe alloc => s.sv.surveying && !(s.sv.add pipe alloc).2.surveying
  | .rm pipe => s.sv.surveying && !(s.sv.rm pipe).surveying

/-- The call checks the deadline when the one the survey was sent with is over. -/
def Due (s : SurveyClock π) (c : SurveyCall π μ ε) : Prop :=
  ∃ now, reading c = some now ∧ 0 < s.sentDeadline ∧ s.sentAt + s.sentDeadline.toNat ≤ now

end SurveyClock

end MsgBroker.Model
