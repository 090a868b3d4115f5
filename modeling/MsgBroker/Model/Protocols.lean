import MsgBroker.Model.Pub
import MsgBroker.Model.ReqRep
import MsgBroker.Model.Survey

/-!
# Sending through any protocol, and the loops that retry

The `send` functions of all protocols, behind one dispatch as `mb_sock_send` makes it through the
virtual table, and the three loops that submit a message again and again while the answer is
`-EAGAIN`: those of `mb_send`, `mb_sendmsg` and `mb_device`.
-/

set_option autoImplicit false

namespace MsgBroker.Model

variable {π μ τ ε : Type}

/-! ## The protocols without a module of their own -/

section Sends

variable (ops : Pipes π μ ε) (msg : μ)

/-- `mb_pair_send`.  SRC: pair.c:73-79 -/
def pairSend (pipe : Option π) (e : ε) : Rc × ε :=
  match pipe with
  | none => (.again, e)
  | some p => ops.send p msg e

/-- The sends that fan out and fail when no pipe took the message. -/
def fanOutSend (pipes : List π) (e : ε) : Rc × ε :=
  let (rcs, e') := fanOut ops msg pipes e
  (if sentCount rcs = 0 then .again else .ok, e')

/-- `mb_bus_send`.  SRC: bus.c:97-122 -/
def busSend (pipes : List π) (e : ε) : Rc × ε := fanOutSend ops msg pipes e

/-- `mb_xbus_send`.  SRC: xbus.c:90-114 -/
def xbusSend (pipes : List π) (e : ε) : Rc × ε := fanOutSend ops msg pipes e

/-- `mb_xpair_send`.  SRC: xpair.c:94-119 -/
def xpairSend (pipes : List π) (e : ε) : Rc × ε := fanOutSend ops msg pipes e

/-- `mb_xsurveyor_send`.  SRC: xsurveyor.c:92-117 -/
def xsurveyorSend (pipes : List π) (e : ε) : Rc × ε := fanOutSend ops msg pipes e

/-- `mb_xsub_send`, over the pipes of its fair queue.  SRC: xsub.c:72-97 -/
def xsubSend (fq : Rotor π) (e : ε) : Rc × ε := fanOutSend ops msg fq.ids e

/-- `mb_xpub_send`: without pipes the message is dropped.  SRC: xpub.c:90-116 -/
def xpubSend (pipes : List π) (e : ε) : Rc × ε :=
  let (rcs, e') := fanOut ops msg pipes e
  (if pipes ≠ [] ∧ sentCount rcs = 0 then .again else .ok, e')

/-- `mb_push_send`.  SRC: push.c:74-78 -/
def pushSend (lb : Rotor π) (e : ε) : Rc × Rotor π × ε := lb.lbSend ops msg e

/-- `mb_xpush_send`.  SRC: xpush.c:63-67 -/
def xpushSend (lb : Rotor π) (e : ε) : Rc × Rotor π × ε := lb.lbSend ops msg e

/-- `mb_xreq_send`.  SRC: xreq.c:73-77 -/
def xreqSend (lb : Rotor π) (e : ε) : Rc × Rotor π × ε := lb.lbSend ops msg e

/-- `mb_xrep_send`.  SRC: xrep.c:90-94 -/
def xrepSend (lb : Rotor π) (e : ε) : Rc × Rotor π × ε := lb.lbSend ops msg e

/-- The loop of `mb_xrespondent_send`; `seen` are the pipes before the cursor.
SRC: xrespondent.c:98-113 -/
def xrespondentLoop : List π → List π → ε → Rc × List π × ε
  | seen, [], e => (.again, seen, e)
  | seen, p :: rest, e =>
    match ops.send p msg e with
    | (.ok, e') => (.ok, seen ++ rest ++ [p], e')
    | (.err .EAGAIN, e') => xrespondentLoop (seen ++ [p]) rest e'
    | (.err c, e') => (.err c, seen ++ p :: rest, e')

/-- `mb_xrespondent_send`.  SRC: xrespondent.c:92-115 -/
def xrespondentSend (pipes : List π) (e : ε) : Rc × List π × ε :=
  xrespondentLoop ops msg [] pipes e

end Sends

/-! ## Any protocol -/

/-- The state of a socket that can send, by protocol. -/
inductive Sockbase (π τ : Type) where
  | pair (pipe : Option π)
  | push (lb : Rotor π)
  | req (self : Req π)
  | rep (self : Rep π)
  | pub (self : Pub π τ)
  | bus (pipes : List π)
  | surveyor (self : Surveyor π)
  | respondent (self : Respondent π)
  | xpair (pipes : List π)
  | xpush (lb : Rotor π)
  | xreq (lb : Rotor π)
  | xrep (lb : Rotor π)
  | xpub (pipes : List π)
  | xsub (fq : Rotor π)
  | xbus (pipes : List π)
  | xsurveyor (pipes : List π)
  | xrespondent (pipes : List π)

/-- What else a send depends on: the allocations of PUB, and for a SURVEYOR the two readings
of the clock and the bound of its drain. -/
structure SendEnv (π : Type) where
  alloc : π → Bool
  now : ℕ
  later : ℕ
  bound : ℕ

namespace Sockbase

variable [DecidableEq π]

/-- The `send` of the virtual table; the message comes back as the protocol leaves it to
its caller.  SRC: sock.c:534 -/
def send (ops : Pipes π (Msg τ) ε) (env : SendEnv π) (msg : Msg τ) :
    Sockbase π τ → ε → Rc × Msg τ × Sockbase π τ × ε
  | .pair pipe, e => let (rc, e') := pairSend ops msg pipe e; (rc, msg, .pair pipe, e')
  | .push lb, e => let (rc, lb', e') := pushSend ops msg lb e; (rc, msg, .push lb', e')
  | .req self, e => let (rc, self', e') := self.send ops msg e; (rc, msg, .req self', e')
  | .rep self, e => let (rc, self', e') := self.send ops msg e; (rc, msg, .rep self', e')
  | .pub self, e =>
    let (rc, msg', self', _, e') := self.send ops env.alloc msg e
    (rc, msg', .pub self', e')
  | .bus pipes, e => let (rc, e') := busSend ops msg pipes e; (rc, msg, .bus pipes, e')
  | .surveyor self, e =>
    let (rc, self', e') := self.send ops env.bound env.now env.later msg e
    (rc, msg, .surveyor self', e')
  | .respondent self, e =>
    let (rc, self', e') := self.send ops msg e
    (rc, msg, .respondent self', e')
  | .xpair pipes, e => let (rc, e') := xpairSend ops msg pipes e; (rc, msg, .xpair pipes, e')
  | .xpush lb, e => let (rc, lb', e') := xpushSend ops msg lb e; (rc, msg, .xpush lb', e')
  | .xreq lb, e => let (rc, lb', e') := xreqSend ops msg lb e; (rc, msg, .xreq lb', e')
  | .xrep lb, e => let (rc, lb', e') := xrepSend ops msg lb e; (rc, msg, .xrep lb', e')
  | .xpub pipes, e => let (rc, e') := xpubSend ops msg pipes e; (rc, msg, .xpub pipes, e')
  | .xsub fq, e => let (rc, e') := xsubSend ops msg fq e; (rc, msg, .xsub fq, e')
  | .xbus pipes, e => let (rc, e') := xbusSend ops msg pipes e; (rc, msg, .xbus pipes, e')
  | .xsurveyor pipes, e =>
    let (rc, e') := xsurveyorSend ops msg pipes e
    (rc, msg, .xsurveyor pipes, e')
  | .xrespondent pipes, e =>
    let (rc, pipes', e') := xrespondentSend ops msg pipes e
    (rc, msg, .xrespondent pipes', e')

/-- The messages the state of the protocol holds.  Only PUB keeps any. -/
def held : Sockbase π τ → List (Msg τ)
  | .pub self => Pub.levels.flatMap self.buckets
  | _ => []

/-- The socket is a PUB. -/
def isPub : Sockbase π τ → Bool
  | .pub _ => true
  | _ => false

/-- The pipes a fan-out goes over. -/
def fanPipes : Sockbase π τ → List π
  | .bus pipes | .xpair pipes | .xpub pipes | .xbus pipes | .xsurveyor pipes => pipes
  | .xsub fq => fq.ids
  | .surveyor self => self.pipes.ids
  | .pub self => self.pipes
  | _ => []

end Sockbase

/-! ## The loops that retry -/

/-- What happens between two attempts: the socket is being closed, the message cannot be
built again, or the socket and its pipes change in the meantime. -/
structure Round (σ : Type) where
  stopping : Bool
  rebuild : Option Errno
  between : σ → σ

section Loops

variable {σ : Type}

/-- The loop of `mb_send` and `mb_sendmsg`; `submit` is `mb_sock_send` of the message built
anew.  There is no return code if the call still waits when the rounds are over.
SRC: global.c:571-607, 787-823 -/
def sendLoop (submit : σ → Rc × σ) (dontwait : Bool) : ℤ → List (Round σ) → σ → Option Rc × σ
  | timeout, rounds, s =>
    match submit s with
    | (.err .EAGAIN, s') =>
      if dontwait ∨ timeout = 0 then (some .again, s')
      else
        match rounds with
        | [] => (none, s')
        | r :: rounds =>
          if r.stopping then (some (.err .EBADF), s')
          else if timeout = 1 then (some (.err .ETIMEDOUT), s')
          else
            match r.rebuild with
            | some c => (some (.err c), s')
            | none =>
              sendLoop submit dontwait (if 0 < timeout then timeout - 1 else timeout) rounds
                (r.between s')
    | (rc, s') => (some rc, s')

/-- The loop of `mb_device_forward`; the message stays as the last attempt left it.
SRC: device.c:28-55 -/
def forwardLoop (submit : μ → σ → Rc × μ × σ) : List (Round σ) → μ → σ → Option Rc × σ
  | [], _, s => (none, s)
  | r :: rounds, msg, s =>
    if r.stopping then (some .again, s)
    else
      match submit msg s with
      | (.err .EAGAIN, msg', s') => forwardLoop submit rounds msg' (r.between s')
      | (rc, _, s') => (some rc, s')

end Loops

end MsgBroker.Model
