import Mathlib.Algebra.GroupWithZero.Nat
import Mathlib.Data.Int.Notation
import MsgBroker.Model.Fanout
import MsgBroker.Model.LoadBalance

/-!
# The SURVEYOR and RESPONDENT protocols

`src/protocol/survey/surveyor.c` and `respondent.c`.
-/

set_option autoImplicit false

namespace MsgBroker.Model

variable {π μ ε : Type}

/-! ## SURVEYOR -/

/-- `struct mb_surveyor`.  SRC: surveyor.c:15-29 -/
structure Surveyor (π : Type) where
  pipes : Rotor π
  surveying : Bool
  timedOut : Bool
  deadlineMs : ℤ
  surveyExpireMs : ℕ
deriving DecidableEq, Repr

namespace Surveyor

/-- `mb_surveyor_create`.  SRC: surveyor.c:300-319 -/
def create : Surveyor π := ⟨.init, false, false, 1000, 0⟩

/-- `mb_surveyor_add`; `alloc` tells whether the allocation succeeds.
SRC: surveyor.c:73-89 -/
def add (self : Surveyor π) (pipe : π) (alloc : Bool) : Rc × Surveyor π :=
  if alloc then (.ok, { self with pipes := self.pipes.add pipe }) else (.err .ENOMEM, self)

/-- `mb_surveyor_rm`: without pipes there is no open survey.  SRC: surveyor.c:91-109 -/
def rm [DecidableEq π] (self : Surveyor π) (pipe : π) : Surveyor π :=
  let pipes := self.pipes.rm pipe
  { self with pipes := pipes, surveying := self.surveying && !pipes.pipes.isEmpty }

/-- `mb_surveyor_setopt` with `MB_SURVEYOR_DEADLINE`.  SRC: surveyor.c:250-261 -/
def setDeadline (self : Surveyor π) (ms : ℤ) : Rc × Surveyor π :=
  if ms < 0 then (.err .EINVAL, self) else (.ok, { self with deadlineMs := ms })

-- `bound` is a bound on the replies a drain reads from a pipe: the loop of the source
-- has none, and ends when the pipe has nothing to read
variable (ops : Pipes π μ ε) (bound : ℕ)

/-- The inner loop of `mb_surveyor_drain` on one pipe.  SRC: surveyor.c:41-46 -/
def drainPipe (pipe : π) : ℕ → ε → ε
  | 0, e => e
  | n + 1, e =>
    match ops.recv pipe e with
    | (.ok _, e') => drainPipe pipe n e'
    | (.error _, e') => e'

/-- The outer loop of `mb_surveyor_drain`.  SRC: surveyor.c:36-48 -/
def drainLoop : List (PipeData π) → ε → List (PipeData π) × ε
  | [], e => ([], e)
  | d :: rest, e =>
    let (rest', e') := drainLoop rest (drainPipe ops d.pipe bound e)
    (⟨d.pipe, false⟩ :: rest', e')

/-- `mb_surveyor_drain`.  SRC: surveyor.c:32-49 -/
def drain (self : Surveyor π) (e : ε) : Surveyor π × ε :=
  let (pipes, e') := drainLoop ops bound self.pipes.pipes e
  ({ self with pipes := ⟨pipes⟩ }, e')

/-- The deadline of the open survey has passed at the time `now`.  SRC: surveyor.c:53-57 -/
def expired (self : Surveyor π) (now : ℕ) : Bool :=
  self.surveying && 0 < self.deadlineMs && self.surveyExpireMs ≤ now

/-- `mb_surveyor_check_deadline`.  SRC: surveyor.c:51-63 -/
def checkDeadline (now : ℕ) (self : Surveyor π) (e : ε) : Surveyor π × ε :=
  if self.expired now then
    drain ops bound { self with surveying := false, timedOut := true } e
  else (self, e)

/-- The loops of `mb_surveyor_events`: is there a pipe the probe answers for? -/
def anyPipe (probe : π → ε → Bool × ε) : List (PipeData π) → ε → Bool × ε
  | [], e => (false, e)
  | d :: rest, e =>
    match probe d.pipe e with
    | (true, e') => (true, e')
    | (false, e') => anyPipe probe rest e'

/-- `mb_surveyor_events`: readable and writable.  SRC: surveyor.c:124-158 -/
def events (now : ℕ) (self : Surveyor π) (e : ε) : (Bool × Bool) × Surveyor π × ε :=
  let (self', e') := checkDeadline ops bound now self e
  if self'.surveying then
    let (evIn, e'') := anyPipe ops.hasMsg self'.pipes.pipes e'
    ((evIn, false), self', e'')
  else
    let (evOut, e'') := anyPipe ops.canSend self'.pipes.pipes e'
    ((false, evOut), self', e'')

/-- `mb_surveyor_send` behind the check of the deadline; `now` is the time when the survey
is out.  SRC: surveyor.c:168-202 -/
def sendSurvey (now : ℕ) (msg : μ) (self : Surveyor π) (e : ε) : Rc × Surveyor π × ε :=
  if self.surveying then (.err .EFSM, self, e)
  else
    let (self', e') := drain ops bound self e
    let (rcs, e'') := fanOut ops msg self'.pipes.ids e'
    if sentCount rcs = 0 then (.again, self', e'')
    else
      let expire := if 0 < self.deadlineMs then (now + self.deadlineMs.toNat) % 2 ^ 64 else 0
      (.ok, { self' with surveying := true, timedOut := false, surveyExpireMs := expire }, e'')

/-- `mb_surveyor_send`; the clock is read when the deadline is checked and when the survey
is out.  SRC: surveyor.c:160-202 -/
def send (now later : ℕ) (msg : μ) (self : Surveyor π) (e : ε) : Rc × Surveyor π × ε :=
  let (self', e') := checkDeadline ops bound now self e
  sendSurvey ops bound later msg self' e'

/-- `mb_surveyor_recv` behind the check of the deadline.  SRC: surveyor.c:211-241 -/
def recvReply (self : Surveyor π) (e : ε) : Except Errno μ × Surveyor π × ε :=
  if self.surveying then
    match Rotor.probe ops.recv [] self.pipes.pipes e with
    | (.ok (m, _), pipes, e') => (.ok m, { self with pipes := pipes }, e')
    | (.error c, pipes, e') => (.error c, { self with pipes := pipes }, e')
  else if self.timedOut then (.error .ETIMEDOUT, { self with timedOut := false }, e)
  else (.error .EFSM, self, e)

/-- `mb_surveyor_recv`.  SRC: surveyor.c:204-241 -/
def recv (now : ℕ) (self : Surveyor π) (e : ε) : Except Errno μ × Surveyor π × ε :=
  let (self', e') := checkDeadline ops bound now self e
  recvReply ops self' e'

end Surveyor

/-! ## RESPONDENT -/

/-- `struct mb_respondent`.  SRC: respondent.c:13-23 -/
structure Respondent (π : Type) where
  pipes : Rotor π
  lastPipe : Option π
deriving DecidableEq, Repr

namespace Respondent

/-- `mb_respondent_create`. -/
def create : Respondent π := ⟨.init, none⟩

/-- `mb_respondent_add`.  SRC: respondent.c:32-48 -/
def add (self : Respondent π) (pipe : π) (alloc : Bool) : Rc × Respondent π :=
  if alloc then (.ok, { self with pipes := self.pipes.add pipe }) else (.err .ENOMEM, self)

/-- `mb_respondent_rm`.  SRC: respondent.c:50-67 -/
def rm [DecidableEq π] (self : Respondent π) (pipe : π) : Respondent π :=
  { pipes := self.pipes.rm pipe
    lastPipe := if self.lastPipe = some pipe then none else self.lastPipe }

variable (ops : Pipes π μ ε)

/-- `mb_respondent_recv`.  SRC: respondent.c:108-140 -/
def recv (self : Respondent π) (e : ε) : Except Errno μ × Respondent π × ε :=
  match self.lastPipe with
  | some _ => (.error .EFSM, self, e)
  | none =>
    match Rotor.probe ops.recv [] self.pipes.pipes e with
    | (.ok (m, p), pipes, e') => (.ok m, ⟨pipes, some p⟩, e')
    | (.error c, pipes, e') => (.error c, { self with pipes := pipes }, e')

/-- `mb_respondent_send`: the route is kept on `-EAGAIN` so that the caller can retry.
SRC: respondent.c:142-155 -/
def send (self : Respondent π) (msg : μ) (e : ε) : Rc × Respondent π × ε :=
  match self.lastPipe with
  | none => (.err .EFSM, self, e)
  | some p =>
    let (rc, e') := ops.send p msg e
    (rc, if rc = .again then self else { self with lastPipe := none }, e')

end Respondent

end MsgBroker.Model
