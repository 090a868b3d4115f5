import MsgBroker.Lib.Threads
import MsgBroker.Model.Efd
import MsgBroker.Model.MsgQueue

/-!
# A socket with inproc pipes

What the threads of a program do to a socket whose pipes are all inproc: peers push messages into
the queues of its pipes (`mb_sinproc_send`), and threads that hold the lock of the socket receive
from them and bring the receive descriptor up to date (`mb_sock_recv`, `mb_sock_send`).
-/

set_option autoImplicit false

namespace MsgBroker.Model

open Lib

/-- The part of `struct mb_sock` and of its pipes that the receive descriptor depends on, with the
thread that holds the lock of the context. -/
structure InprocSock (T P μ : Type) where
  pipes : List P
  queues : P → MsgQueue μ
  rcvfd : Efd
  rcvbuf : ℤ
  rcvmaxsize : ℤ
  owner : Option T

/-- Where a thread goes on when `mb_efd_signal` returns. -/
inductive AfterSignal (P : Type) where
  | sent
  | recvMaxmem (p : P)
  | leave
deriving DecidableEq, Repr

/-- Where a thread goes on when `mb_efd_unsignal` returns. -/
inductive AfterUnsignal (P : Type) where
  | recvCheck (p : P)
  | recheck
deriving DecidableEq, Repr

/-- Where a thread is: the next step it takes. -/
inductive InprocPc (P μ : Type) where
  | idle
  /-- In `mb_sinproc_send`, before `mb_sinproc_sync_maxmem`. -/
  | sendMaxmem (p : P) (m : μ)
  /-- In `mb_sinproc_send`, before `mb_msgqueue_push`. -/
  | push (p : P) (m : μ)
  /-- In the `recv` or `send` of the protocol. -/
  | body
  /-- In `mb_sinproc_recv`, before the first `mb_msgqueue_empty`. -/
  | recvEmpty (p : P)
  /-- In `mb_sinproc_recv`, before `mb_msgqueue_pop`. -/
  | pop (p : P)
  /-- In `mb_sinproc_recv`, before the second `mb_msgqueue_empty`. -/
  | recvCheck (p : P)
  /-- In `mb_sinproc_recv`, before `mb_sinproc_sync_maxmem`. -/
  | recvMaxmem (p : P)
  /-- In an `events` of `mb_sock_sync_rcvfd`, with the pipes that are still to be asked. -/
  | events (again : Bool) (todo : List P)
  /-- In `mb_sock_sync_rcvfd`, before the second `events`. -/
  | recheck
  /-- Before `mb_ctx_leave`. -/
  | leave
  | signal (pc : SignalPc) (next : AfterSignal P)
  | unsignal (pc : UnsignalPc) (next : AfterUnsignal P)
deriving DecidableEq, Repr

/-- What a thread does: it makes a call, or it goes on with its call. -/
inductive InprocAct (P μ : Type) where
  /-- `mb_sinproc_send` on the other end of the pipe, with the `rcvmaxsize` of that end. -/
  | send (p : P) (m : μ) (max : ℤ)
  /-- `mb_msgqueue_push`, with the answers of its allocations. -/
  | push (alloc allocNext : Bool)
  /-- `mb_sock_recv` or `mb_sock_send` takes the lock. -/
  | enter
  /-- The protocol calls `mb_sinproc_recv`. -/
  | recv (p : P)
  /-- `mb_sock_sync_rcvfd` calls `events`, which asks the pipes in the given order. -/
  | sync (order : List P)
  | run
deriving DecidableEq, Repr

/-- The place after `mb_efd_signal`. -/
def AfterSignal.pc {P μ : Type} : AfterSignal P → InprocPc P μ
  | .sent => .idle
  | .recvMaxmem p => .recvMaxmem p
  | .leave => .leave

/-- The place after `mb_efd_unsignal`. -/
def AfterUnsignal.pc {P μ : Type} : AfterUnsignal P → InprocPc P μ
  | .recvCheck p => .recvCheck p
  | .recheck => .recheck

/-- `mb_sock_msg_too_large`.  SRC: sock.c:753-760 -/
def msgTooLarge (max : ℤ) (size : UInt64) : Prop := 0 ≤ max ∧ max.toNat < size.toNat

instance (max : ℤ) (size : UInt64) : Decidable (msgTooLarge max size) :=
  inferInstanceAs (Decidable (_ ∧ _))

namespace InprocSock

variable {T P μ : Type} [DecidableEq P]

/-- Writes back a queue. -/
def setQueue (p : P) (q : MsgQueue μ) (s : InprocSock T P μ) : InprocSock T P μ :=
  { s with queues := Function.update s.queues p q }

/-- The capacity that `MB_RCVBUF` stands for. -/
def capacity (rcvbuf : ℤ) : UInt64 :=
  if rcvbuf ≤ 0 then 1024 * 1024 else UInt64.ofNat rcvbuf.toNat

/-- `mb_sinproc_sync_maxmem`.  SRC: sinproc.c:29-39 -/
def syncMaxmem (p : P) (s : InprocSock T P μ) : InprocSock T P μ :=
  s.setQueue p ((s.queues p).setMaxmem (capacity s.rcvbuf))

variable [DecidableEq T] (kind : EfdKind) (size : μ → UInt64)

/-- One step of a thread in `mb_efd_signal` on the receive descriptor. -/
def signalStep (pc : SignalPc) (next : AfterSignal P) (s : InprocSock T P μ) :
    InprocPc P μ × InprocSock T P μ :=
  match s.rcvfd.signal kind pc with
  | (some pc', fd) => (.signal pc' next, { s with rcvfd := fd })
  | (none, fd) => (next.pc, { s with rcvfd := fd })

/-- One step of a thread in `mb_efd_unsignal` on the receive descriptor. -/
def unsignalStep (pc : UnsignalPc) (next : AfterUnsignal P) (s : InprocSock T P μ) :
    InprocPc P μ × InprocSock T P μ :=
  match s.rcvfd.unsignal kind pc with
  | (some pc', fd) => (.unsignal pc' next, { s with rcvfd := fd })
  | (none, fd) => (next.pc, { s with rcvfd := fd })

/-- The program of every thread.
SRC: sinproc.c:147-213, sock.c:43-60, 518-569 -/
def program (me : T) (act : InprocAct P μ) (pc : InprocPc P μ) (s : InprocSock T P μ) :
    Option (InprocPc P μ × InprocSock T P μ) :=
  match pc, act with
  -- `mb_sinproc_send`
  | .idle, .send p m max =>
    if msgTooLarge max (size m) ∨ msgTooLarge s.rcvmaxsize (size m) then some (.idle, s)
    else some (.sendMaxmem p m, s)
  | .sendMaxmem p m, .run => some (.push p m, s.syncMaxmem p)
  | .push p m, .push alloc allocNext =>
    ((s.queues p).push size alloc allocNext m).map fun r =>
      (if r.1.toOption = some true then .signal .cas .sent else .idle, s.setQueue p r.2)
  -- `mb_sock_recv` and `mb_sock_send`
  | .idle, .enter => if s.owner = none then some (.body, { s with owner := some me }) else none
  | .body, .recv p => if p ∈ s.pipes then some (.recvEmpty p, s) else none
  | .body, .sync order => if order.Perm s.pipes then some (.events false order, s) else none
  | .leave, .run => some (.idle, { s with owner := none })
  -- `mb_sinproc_recv`
  | .recvEmpty p, .run => some (if (s.queues p).empty then .body else .pop p, s)
  | .pop p, .run => ((s.queues p).pop size).map fun r =>
      (.unsignal .store (.recvCheck p), s.setQueue p r.2)
  | .recvCheck p, .run =>
    some (if (s.queues p).empty then .recvMaxmem p else .signal .cas (.recvMaxmem p), s)
  | .recvMaxmem p, .run => some (.body, s.syncMaxmem p)
  -- `mb_sock_sync_rcvfd`
  | .events again (p :: todo), .run =>
    some (if (s.queues p).empty then .events again todo else .signal .cas .leave, s)
  | .events false [], .run => some (.unsignal .store .recheck, s)
  | .events true [], .run => some (.leave, s)
  | .recheck, .sync order => if order.Perm s.pipes then some (.events true order, s) else none
  -- `mb_efd_signal` and `mb_efd_unsignal`
  | .signal c next, .run => some (s.signalStep kind c next)
  | .unsignal c next, .run => some (s.unsignalStep kind c next)
  | _, _ => none

/-- The socket as its pipes were attached, before any message. -/
def init (pipes : List P) (rcvbuf rcvmaxsize : ℤ) : InprocSock T P μ where
  pipes := pipes
  queues _ := MsgQueue.init (capacity rcvbuf)
  rcvfd := Efd.init
  rcvbuf := rcvbuf
  rcvmaxsize := rcvmaxsize
  owner := none

/-- The threads in any order. -/
def system (pipes : List P) (rcvbuf rcvmaxsize : ℤ) :
    System (Threads T (InprocSock T P μ) (InprocPc P μ)) (T × InprocAct P μ) :=
  interleave (program kind size) ⟨init pipes rcvbuf rcvmaxsize, fun _ => .idle⟩

end InprocSock

end MsgBroker.Model
