import MsgBroker.Model.LoadBalance

/-!
# The REQ and REP protocols

`src/protocol/reqrep/req.c` and `rep.c`. A REQ spreads requests over its pipes and remembers the
pipe that took the last one; while a request is out, only that pipe is read.
-/

set_option autoImplicit false

namespace MsgBroker.Model

variable {π μ ε : Type}

/-! ## REQ -/

/-- `struct mb_req`.  SRC: req.c:14-19 -/
structure Req (π : Type) where
  lb : Rotor π
  pipe : Option π
  sending : Bool
deriving DecidableEq, Repr

namespace Req

/-- `mb_req_create`.  SRC: req.c:169-185 -/
def create : Req π := ⟨.init, none, false⟩

variable [DecidableEq π]

/-- `mb_req_add`; `alloc` tells whether the allocation succeeds.  SRC: req.c:28-45 -/
def add (self : Req π) (pipe : π) (alloc : Bool) : Rc × Req π :=
  if alloc then
    (.ok, { self with
      lb := (self.lb.add pipe).activate pipe
      pipe := self.pipe.or (some pipe) })
  else (.err .ENOMEM, self)

/-- `mb_req_rm`: when the reply path dies, the open request is dropped and the first
pipe left takes its place.  SRC: req.c:47-70 -/
def rm (self : Req π) (pipe : π) : Req π :=
  let lb := self.lb.rm pipe
  if self.pipe = some pipe then ⟨lb, lb.ids.head?, false⟩ else { self with lb := lb }

/-- `mb_req_in`.  SRC: req.c:72-78 -/
def onIn (self : Req π) (pipe : π) : Req π :=
  if pipe ∈ self.lb.ids then { self with lb := self.lb.activate pipe } else self

/-- `mb_req_events`: readable and writable, with the marks it refreshes on the way.
SRC: req.c:85-94 -/
def events (ops : Pipes π μ ε) (self : Req π) (e : ε) : (Bool × Bool) × Req π × ε :=
  if self.sending then
    match self.pipe with
    | none => ((false, false), self, e)
    | some p =>
      let (evIn, e') := ops.hasMsg p e
      ((evIn, false), self, e')
  else
    let (evOut, lb, e') := self.lb.lbCanSend ops e
    ((false, evOut), { self with lb := lb }, e')

/-- `mb_req_send`: after a successful `mb_lb_send` the pipe that took the request is the
last of the list.  SRC: req.c:96-119 -/
def send (ops : Pipes π μ ε) (self : Req π) (msg : μ) (e : ε) : Rc × Req π × ε :=
  if self.sending then (.err .EFSM, self, e)
  else
    match self.lb.lbSend ops msg e with
    | (.ok, lb, e') =>
      match lb.ids.getLast? with
      | none => (.again, { self with lb := lb }, e')
      | some p => (.ok, ⟨lb, some p, true⟩, e')
    | (.err c, lb, e') => (.err c, { self with lb := lb }, e')

/-- `mb_req_recv`.  SRC: req.c:121-134 -/
def recv (ops : Pipes π μ ε) (self : Req π) (e : ε) : Except Errno μ × Req π × ε :=
  if !self.sending then (.error .EFSM, self, e)
  else
    match self.pipe with
    | none => (.error .EAGAIN, self, e)
    | some p =>
      match ops.recv p e with
      | (.ok m, e') => (.ok m, { self with sending := false }, e')
      | (.error c, e') => (.error c, self, e')

end Req

/-! ## REP -/

/-- `struct mb_rep`.  SRC: rep.c:15-20 -/
structure Rep (π : Type) where
  fq : Rotor π
  lb : Rotor π
  lastPipe : Option π
deriving DecidableEq, Repr

namespace Rep

/-- `mb_rep_create`.  SRC: rep.c:173-190 -/
def create : Rep π := ⟨.init, .init, none⟩

variable [DecidableEq π]

/-- `mb_rep_add`; the two flags tell whether the allocations succeed.  SRC: rep.c:30-51 -/
def add (self : Rep π) (pipe : π) (allocFq allocLb : Bool) : Rc × Rep π :=
  if allocFq then
    let fq := (self.fq.add pipe).activate pipe
    if allocLb then (.ok, { self with fq := fq, lb := (self.lb.add pipe).activate pipe })
    else (.err .ENOMEM, { self with fq := fq.rm pipe })
  else (.err .ENOMEM, self)

/-- `mb_rep_rm`.  SRC: rep.c:53-85 -/
def rm (self : Rep π) (pipe : π) : Rep π :=
  { fq := self.fq.rm pipe
    lb := self.lb.rm pipe
    lastPipe := if self.lastPipe = some pipe then none else self.lastPipe }

/-- `mb_rep_events`: readable and writable.  SRC: rep.c:97-110 -/
def events (ops : Pipes π μ ε) (self : Rep π) (e : ε) : (Bool × Bool) × ε :=
  match self.lastPipe with
  | some p =>
    let (evOut, e') := ops.canSend p e
    ((false, evOut), e')
  | none =>
    let (evIn, e') := self.fq.fqCanRecv ops e
    ((evIn, false), e')

/-- `mb_rep_recv`.  SRC: rep.c:112-126 -/
def recv (ops : Pipes π μ ε) (self : Rep π) (e : ε) : Except Errno μ × Rep π × ε :=
  match self.lastPipe with
  | some _ => (.error .EFSM, self, e)
  | none =>
    match self.fq.fqRecvPipe ops e with
    | (.ok (m, p), fq, e') => (.ok m, { self with fq := fq, lastPipe := some p }, e')
    | (.error c, fq, e') => (.error c, { self with fq := fq }, e')

/-- `mb_rep_send`: the route is kept on `-EAGAIN` so that the caller can retry.
SRC: rep.c:128-138 -/
def send (ops : Pipes π μ ε) (self : Rep π) (msg : μ) (e : ε) : Rc × Rep π × ε :=
  match self.lastPipe with
  | none => (.err .EFSM, self, e)
  | some p =>
    let (rc, e') := ops.send p msg e
    if rc = .again then (rc, self, e') else (rc, { self with lastPipe := none }, e')

end Rep

end MsgBroker.Model
