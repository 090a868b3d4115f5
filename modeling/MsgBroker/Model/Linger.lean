import MsgBroker.Model.Stream
import MsgBroker.Model.Sws

/-!
# Closing a socket that lingers

`mb_close` (`src/core/global.c`) stops the endpoints of the socket, and these stop their sessions
one after another.
-/

set_option autoImplicit false

namespace MsgBroker.Model

open Lib

/-- The values of `linger_outcome`.  SRC: sock.h:53-57 -/
inductive LingerOutcome where
  | unset
  | flushed
  | expired
deriving DecidableEq, Repr

/-- The fields of `struct mb_sock` that concern lingering. -/
structure LingerSock where
  linger : ℤ
  outcome : LingerOutcome
deriving DecidableEq, Repr

/-- A stream session: `struct mb_sipc`, `struct mb_stls` or `struct mb_sws`. -/
inductive Session where
  | stream (t : Transport) (x : Stream)
  | sws (t : Transport) (x : Sws)

namespace Session

/-- `outbuf` holds output that was accepted and is not written to its end. -/
def pending : Session → Bool
  | .stream _ x => x.outbuf.isSome
  | .sws _ x => x.outbuf.isSome

/-- The connection is open. -/
def isOpen : Session → Bool
  | .stream _ x => x.isOpen
  | .sws _ x => x.isOpen

/-- An error report of this session would call `on_error`. -/
def reports : Session → Bool
  | .stream _ x => x.isOpen && !x.disconnected && x.onError
  | .sws _ x => x.isOpen && !x.disconnected && x.onError

/-- `mb_sipc_flush_outbuf`, `mb_stls_flush_outbuf` and `mb_sws_flush_outbuf` but for the
callback. -/
def flushQuiet : Session → Port → Rc × Session × Port
  | .stream t x, c =>
    let (rc, x', c') := x.flushOutbuf t Prod.mk c
    (rc, .stream t x', c')
  | .sws t x, c =>
    let (rc, x', c') := x.flushQuiet t c
    (rc, .sws t x', c')

/-- The flush, by a thread that holds the lock of the endpoint.
SRC: sipc.c:223-262, stls.c:237-273, sws.c:369-405 -/
def flush (self : Session) (c : Port) : Option (Rc × Session × Port) :=
  let (rc, self', c') := self.flushQuiet c
  if rc ≠ .ok ∧ rc ≠ .again ∧ self.reports then none else some (rc, self', c')

/-- The code a linger flush ends with: `-ETIMEDOUT` while there is output left. -/
def lingerRc (self : Session) : Rc := if self.pending then .err .ETIMEDOUT else .ok

/-- The loop of `mb_sipc_linger_flush`, one round for each time `poll` reports the
connection writable before the deadline.  SRC: sipc.c:278-294, stls.c:294-310, sws.c:426-442 -/
def lingerLoop : List (List (Answer ℕ)) → Session → Port → Option (Rc × Session)
  | [], self, _ => some (self.lingerRc, self)
  | ans :: rounds, self, c =>
    if !self.pending then some (.ok, self)
    else
      match self.flush { c with wans := ans } with
      | none => none
      | some (.err .EAGAIN, self', c') => lingerLoop rounds self' c'
      | some (_, self', _) => some (self'.lingerRc, self')

/-- `mb_sipc_linger_flush`, `mb_stls_linger_flush`, `mb_sws_linger_flush`.
SRC: sipc.c:264-294, stls.c:275-310, sws.c:407-442 -/
def lingerFlush (linger : ℤ) (rounds : List (List (Answer ℕ))) (self : Session) :
    Option (Rc × Session) :=
  if !self.pending ∨ !self.isOpen then some (.ok, self)
  else if linger ≤ 0 then some (.ok, self)
  else lingerLoop rounds self ⟨[], [], [], []⟩

/-- What `mb_sipc_stop`, `mb_stls_stop` and `mb_sws_stop` write to `linger_outcome`.
SRC: sipc.c:296-303, stls.c:312-319, sws.c:444-451 -/
def stop (linger : ℤ) (rounds : List (List (Answer ℕ))) (self : Session) :
    Option LingerOutcome :=
  (self.lingerFlush linger rounds).map fun r => if r.1 = .ok then .flushed else .expired

end Session

/-! ## The history of a socket -/

/-- A session that got lost, and the rounds of the flush of its stop. -/
structure LostPipe where
  session : Session
  silent : session.reports = false
  rounds : List (List (Answer ℕ))

/-- What happens to the two fields before `mb_close`: `MB_LINGER` is set, or a session gets
lost and the callback of its endpoint stops it. -/
inductive LingerEvent where
  | setLinger (linger : ℤ)
  | lost (p : LostPipe)

namespace LingerSock

/-- `mb_sock_init`.  SRC: sock.c:103-105 -/
def init : LingerSock := ⟨0, .unset⟩

/-- The two fields after one event. -/
def after (self : LingerSock) : LingerEvent → LingerSock
  | .setLinger linger => { self with linger := linger }
  | .lost p =>
    { self with outcome := (p.session.stop self.linger p.rounds).getD self.outcome }

end LingerSock

/-! ## `mb_close` -/

/-- A session still attached when `mb_close` is called, and the rounds of its flush. -/
structure ClosingPipe where
  session : Session
  attached : session.reports = true
  rounds : List (List (Answer ℕ))

namespace ClosingPipe

end ClosingPipe

namespace LingerSock

/-- `mb_sock_stop`: the sessions are stopped in the order of the endpoints and of their
lists.  SRC: sock.c:146-206 -/
def stopAll : List ClosingPipe → LingerSock → Option LingerSock
  | [], self => some self
  | p :: pipes, self =>
    match p.session.stop self.linger p.rounds with
    | none => none
    | some outcome => stopAll pipes { self with outcome := outcome }

/-- What `mb_close` returns, as far as lingering is concerned.  SRC: global.c:326-343 -/
def close (self : LingerSock) (pipes : List ClosingPipe) : Option Rc :=
  (self.stopAll pipes).map fun s => if s.outcome = .expired then .err .ETIMEDOUT else .ok

end LingerSock

end MsgBroker.Model
