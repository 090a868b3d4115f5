import MsgBroker.Lib.Reach
import MsgBroker.Model.InprocRegistry

/-!
# Pipes, endpoints and the statistics of their sockets

`mb_pipebase_start`, `mb_pipebase_stop` and `mb_pipebase_cancel` of `src/core/pipe.c`, the two ends
of an inproc connection (`sinproc.c`), and the life of an endpoint in `src/core/ep.c` and
`mb_global_create_ep`, with the counters of the socket they keep.
-/

set_option autoImplicit false

namespace MsgBroker.Model

open Lib

/-- Whose pipe and whose endpoint it is, and whether the endpoint is bound. -/
structure Wiring (S P E : Type) where
  ep : P → E
  sock : E → S
  bind : E → Bool

/-- The counters of a socket that depend on pipes and endpoints.  SRC: sock.h:62-82 -/
structure ConnStats where
  established : UInt64
  accepted : UInt64
  broken : UInt64
  current : Int32
  epErrors : Int32
deriving DecidableEq, Repr

/-- An endpoint is not there, is being created, or is in the list of its socket. -/
inductive EpPhase where
  | absent
  | creating
  | owned
deriving DecidableEq, Repr

/-- An endpoint; `last_errno` is `none` for 0. -/
structure EpState where
  phase : EpPhase
  lastErrno : Option Errno
deriving DecidableEq, Repr

/-- The pipes, the endpoints and the counters. -/
structure Conns (S P E : Type) where
  state : P → PipeState
  peer : P → Option P
  eps : E → EpState
  stats : S → ConnStats

/-- The socket of a pipe. -/
def Wiring.sockOf {S P E : Type} (w : Wiring S P E) (p : P) : S := w.sock (w.ep p)

/-- `bind` of a pipe. -/
def Wiring.bindOf {S P E : Type} (w : Wiring S P E) (p : P) : Bool := w.bind (w.ep p)

namespace ConnStats

/-- The counters after a pipe was started.  SRC: pipe.c:81-85 -/
def started (bind : Bool) (st : ConnStats) : ConnStats :=
  { st with
    current := st.current + 1
    accepted := if bind then st.accepted + 1 else st.accepted
    established := if bind then st.established else st.established + 1 }

/-- The counters after a pipe was stopped.  SRC: pipe.c:99-101 -/
def stopped (st : ConnStats) : ConnStats :=
  { st with
    broken := st.broken + 1
    current := if 0 < st.current then st.current - 1 else st.current }

/-- The counters after a start was taken back; a counter that is 0 stays 0.
SRC: pipe.c:112-119 -/
def cancelled (bind : Bool) (st : ConnStats) : ConnStats :=
  { st with
    current := if 0 < st.current then st.current - 1 else st.current
    accepted := if bind ∧ 0 < st.accepted then st.accepted - 1 else st.accepted
    established := if ¬ bind ∧ 0 < st.established then st.established - 1 else st.established }

/-- What `mb_ep_set_error` does to the gauge.  SRC: ep.c:116-119 -/
def epError (old new : Option Errno) (st : ConnStats) : ConnStats :=
  { st with
    epErrors :=
      if old = none ∧ new ≠ none then st.epErrors + 1
      else if old ≠ none ∧ new = none then st.epErrors - 1
      else st.epErrors }

end ConnStats

namespace Conns

variable {S P E : Type} [DecidableEq S] [DecidableEq P] [DecidableEq E] (w : Wiring S P E)

/-- The counters of one socket are changed. -/
def onStats (k : S) (f : ConnStats → ConnStats) (s : Conns S P E) : Conns S P E :=
  { s with stats := Function.update s.stats k (f (s.stats k)) }

/-- `mb_ep_set_error`, with `none` for 0.  SRC: ep.c:114-121 -/
def epSetError (e : E) (err : Option Errno) (s : Conns S P E) : Conns S P E :=
  { s.onStats (w.sock e) (.epError (s.eps e).lastErrno err) with
    eps := Function.update s.eps e ⟨(s.eps e).phase, err⟩ }

/-- `mb_ep_clear_error`.  SRC: ep.c:123-126 -/
def epClearError (e : E) (s : Conns S P E) : Conns S P E := s.epSetError w e none

/-- The state of a pipe is written. -/
def setState (p : P) (x : PipeState) (s : Conns S P E) : Conns S P E :=
  { s with state := Function.update s.state p x }

/-- `mb_pipebase_start`, with the answer of `mb_sock_pipe_add`.  SRC: pipe.c:58-94 -/
def pipebaseStart (p : P) (add : Rc) (s : Conns S P E) : Option (Rc × Conns S P E) :=
  if (s.eps (w.ep p)).phase = .absent then none
  else
    let s := s.setState p .active
    match add with
    | .err c => some (.err c, (s.setState p .failed).epSetError w (w.ep p) (some c))
    | .ok =>
      some (.ok, (s.epClearError w (w.ep p)).onStats (w.sockOf p) (.started (w.bindOf p)))

/-- `mb_pipebase_stop`.  SRC: pipe.c:96-106 -/
def pipebaseStop (p : P) (s : Conns S P E) : Option (Conns S P E) :=
  if s.state p = .active then some ((s.onStats (w.sockOf p) .stopped).setState p .idle) else none

/-- `mb_pipebase_cancel`.  SRC: pipe.c:108-124 -/
def pipebaseCancel (p : P) (s : Conns S P E) : Option (Conns S P E) :=
  if s.state p = .active then
    some ((s.onStats (w.sockOf p) (.cancelled (w.bindOf p))).setState p .idle)
  else none

/-- The pointers between the two ends of an inproc connection. -/
def setPeers (p q : P) (x y : Option P) (s : Conns S P E) : Conns S P E :=
  { s with peer := Function.update (Function.update s.peer p x) q y }

/-- `mb_sinproc_connect`.  SRC: sinproc.c:76-99 -/
def sinprocConnect (p q : P) (add peerAdd : Rc) (s : Conns S P E) :
    Option (Rc × Conns S P E) :=
  match (s.setPeers p q (some q) (some p)).pipebaseStart w p add with
  | none => none
  | some (.err c, s) => some (.err c, s.setPeers p q none none)
  | some (.ok, s) =>
    match s.pipebaseStart w q peerAdd with
    | none => none
    | some (.err c, s) =>
      ((s.setPeers p q none none).pipebaseCancel w p).map fun s => (.err c, s)
    | some (.ok, s) => some (.ok, s)

/-- `mb_pipebase_stop` of a pipe that is active. -/
def stopIfActive (p : P) (s : Conns S P E) : Option (Conns S P E) :=
  if s.state p = .active then s.pipebaseStop w p else some s

/-- `mb_sinproc_stop`.  SRC: sinproc.c:101-145 -/
def sinprocStop (p : P) (s : Conns S P E) : Option (Conns S P E) :=
  match s.peer p with
  | none => s.stopIfActive w p
  | some q =>
    ((s.stopIfActive w p).bind (stopIfActive w q)).map (setPeers p q none none)

/-- `mb_ep_init` up to the call of the transport.  SRC: ep.c:14-43 -/
def epInit (e : E) (s : Conns S P E) : Option (Conns S P E) :=
  if (s.eps e).phase = .absent then
    some { s with eps := Function.update s.eps e ⟨.creating, none⟩ }
  else none

/-- The transport returns: the endpoint is put into the list of its socket, or it is freed.
SRC: ep.c:45-53, global.c:439-456 -/
def epCreated (e : E) (rc : Rc) (s : Conns S P E) : Option (Conns S P E) :=
  if (s.eps e).phase = .creating then
    let phase := match rc with | .ok => EpPhase.owned | .err _ => EpPhase.absent
    some { s with eps := Function.update s.eps e ⟨phase, (s.eps e).lastErrno⟩ }
  else none

/-- `mb_ep_term`, and the endpoint is freed; an endpoint that was created for a socket that is
being stopped ends in this way too.  SRC: ep.c:58-65, global.c:446-453 -/
def epTerm (e : E) (s : Conns S P E) : Option (Conns S P E) :=
  if (s.eps e).phase = .absent then none
  else
    let s := s.epClearError w e
    some { s with eps := Function.update s.eps e ⟨.absent, (s.eps e).lastErrno⟩ }

end Conns

/-- A call. -/
inductive ConnOp (P E : Type) where
  | start (p : P) (add : Rc)
  | stop (p : P)
  | cancel (p : P)
  | sinprocConnect (p q : P) (add peerAdd : Rc)
  | sinprocStop (p : P)
  | epInit (e : E)
  | epCreated (e : E) (rc : Rc)
  | epSetError (e : E) (err : Option Errno)
  | epTerm (e : E)

namespace Conns

variable {S P E : Type} [DecidableEq S] [DecidableEq P] [DecidableEq E] (w : Wiring S P E)

/-- No endpoint, no pipe that was started, and all counters 0. -/
def init : Conns S P E :=
  ⟨fun _ => .idle, fun _ => none, fun _ => ⟨.absent, none⟩, fun _ => ⟨0, 0, 0, 0, 0⟩⟩

/-- The calls one at a time, in any order. -/
def system : System (Conns S P E) (ConnOp P E) where
  init := init
  step s
    | .start p add => (s.pipebaseStart w p add).map Prod.snd
    | .stop p => s.pipebaseStop w p
    | .cancel p => s.pipebaseCancel w p
    | .sinprocConnect p q add peerAdd => (s.sinprocConnect w p q add peerAdd).map Prod.snd
    | .sinprocStop p => s.sinprocStop w p
    | .epInit e => s.epInit e
    | .epCreated e rc => s.epCreated e rc
    | .epSetError e err =>
      if (s.eps e).phase = .absent then none else some (s.epSetError w e err)
    | .epTerm e => s.epTerm w e

end Conns

end MsgBroker.Model
