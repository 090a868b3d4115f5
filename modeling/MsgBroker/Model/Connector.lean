import MsgBroker.Lib.Reach
import MsgBroker.Model.Pipe

/-!
# A connecting endpoint and its reconnect thread

`src/transport/tcp/ctcp.c`. The endpoint has a session while it is connected.
-/

set_option autoImplicit false

namespace MsgBroker.Model

open Lib

/-- Where the reconnect thread stands: before it frees the zombie, at the test of the loop, with a
session it has created and not yet shown to anyone, or behind the loop. -/
inductive ReconnectAt where
  | enter
  | test
  | holds (sipc : ℕ)
  | leave
deriving DecidableEq, Repr

/-- `struct mb_ctcp`; `starters` are the calls of `mb_ctcp_on_disconnect` that are about to start
the thread.  SRC: ctcp.h:13-24 -/
structure Ctcp where
  running : Bool
  reconnecting : Bool
  sipc : Option ℕ
  zombie : Option ℕ
  thread : Option ReconnectAt
  starters : ℕ
  created : ℕ
  freed : List ℕ
deriving DecidableEq, Repr

/-- What the reconnect thread meets with: connecting is given up or fails (or one of the steps
after it does), or gives a session; and then what `mb_sipc_start` returns. -/
inductive Attempt where
  | canceled
  | failed
  | session
  | start (rc : Rc)
deriving DecidableEq, Repr

/-- A step of some thread, with what its environment decides: whether the socket has a reconnect
interval, and whether a thread can be started. -/
inductive CtcpOp where
  | onDisconnect (ivl : Bool)
  | startThread (ok : Bool)
  | loop (a : Attempt)
  | stop
deriving DecidableEq, Repr

namespace Ctcp

/-- `mb_ctcp_create`: `rc` is the result of `mb_ctcp_do_connect`, and `session` tells whether it
got as far as to create a session.  `none` if no endpoint comes of it.  SRC: ctcp.c:123-212 -/
def create (ivl thread session : Bool) : Rc → Option Ctcp
  | .ok => some ⟨true, false, some 0, none, none, 0, 1, []⟩
  | .err c =>
    if ivl ∧ c ≠ .EISCONN ∧ thread then
      if session then some ⟨true, true, none, none, some .enter, 0, 1, [0]⟩
      else some ⟨true, true, none, none, some .enter, 0, 0, []⟩
    else none

/-- `mb_ctcp_free_zombie`.  SRC: ctcp.c:30-39 -/
def freeZombie (self : Ctcp) : Ctcp :=
  { self with freed := self.freed ++ self.zombie.toList, zombie := none }

/-- `mb_ctcp_on_disconnect` up to the end of the locked part.  SRC: ctcp.c:214-238 -/
def onDisconnect (self : Ctcp) (ivl : Bool) : Ctcp :=
  if !self.running then self
  else
    let self := match self.sipc with
      | some s => { self.freeZombie with zombie := some s, sipc := none }
      | none => self
    if ivl ∧ !self.reconnecting then
      { self with reconnecting := true, starters := self.starters + 1 }
    else self

/-- The rest of it: the last thread is joined, that is, it has returned, and a new one is started;
or it cannot be.  SRC: ctcp.c:240-263 -/
def startThread (self : Ctcp) (ok : Bool) : Option Ctcp :=
  if self.starters = 0 ∨ self.thread.isSome then none
  else if ok then some { self with starters := self.starters - 1, thread := some .enter }
  else some { self with starters := self.starters - 1, reconnecting := false }

/-- `mb_ctcp_reconnect_loop`, one step.  SRC: ctcp.c:41-121 -/
def reconnectLoop (self : Ctcp) (a : Attempt) : Option Ctcp :=
  match self.thread, a with
  | none, _ => none
  | some .enter, _ => some { self.freeZombie with thread := some .test }
  | some .test, a =>
    if !self.running then some { self with thread := some .leave }
    else
      match a with
      | .canceled => some { self with thread := some .leave }
      | .failed => some self
      | .session =>
        some { self with created := self.created + 1, thread := some (.holds self.created) }
      | .start _ => none
  | some (.holds s), .start rc =>
    if !self.running then
      some { self with freed := self.freed ++ [s], reconnecting := false, thread := none }
    else
      match rc with
      | .ok => some { self with sipc := some s, reconnecting := false, thread := none }
      | .err c =>
        some { self with
          sipc := none
          freed := self.freed ++ [s]
          thread := some (if c = .EISCONN then .leave else .test) }
  | some (.holds _), _ => none
  | some .leave, _ => some { self with reconnecting := false, thread := none }

/-- `mb_ctcp_stop` up to the end of the locked part.  SRC: ctcp.c:265-278 -/
def stop (self : Ctcp) : Ctcp :=
  { self with
    running := false
    freed := self.freed ++ self.sipc.toList ++ self.zombie.toList
    sipc := none
    zombie := none }

def step (self : Ctcp) : CtcpOp → Option Ctcp
  | .onDisconnect ivl => some (self.onDisconnect ivl)
  | .startThread ok => self.startThread ok
  | .loop a => self.reconnectLoop a
  | .stop => some self.stop

/-- The endpoint as a labelled system, from the state its creation left. -/
def system (init : Ctcp) : System Ctcp CtcpOp := ⟨init, step⟩

/-- The session of the reconnect thread. -/
def threadSession (self : Ctcp) : Option ℕ :=
  match self.thread with
  | some (.holds s) => some s
  | _ => none

/-- The sessions someone still has. -/
def held (self : Ctcp) : List ℕ :=
  self.sipc.toList ++ self.zombie.toList ++ self.threadSession.toList

end Ctcp

end MsgBroker.Model
