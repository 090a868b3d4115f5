import MsgBroker.Lib.Threads

/-!
# Closing a socket that is in use

One socket and any number of threads that call `mb_send`, `mb_recv`, `mb_shutdown` and `mb_close` on
its descriptor.
-/

set_option autoImplicit false

namespace MsgBroker.Model

open Lib

/-- The calls that take a hold on the socket. -/
inductive HoldOp where
  | send
  | recv
  | shutdown
deriving DecidableEq, Repr

/-- The calls that tear the socket down. -/
inductive Stopper where
  | shutdown
  | close
deriving DecidableEq, Repr

/-- Where a thread is: what it does next. -/
inductive Pc where
  /-- Not in a call. -/
  | idle
  /-- Has the mutex; reads `socks[s]`. -/
  | lookup (op : HoldOp)
  /-- Has the mutex; reads the flags. -/
  | probe (op : HoldOp)
  /-- Has the mutex, both tests passed; `mb_sock_hold`. -/
  | grab (op : HoldOp)
  /-- Has the mutex and a hold; unlocks. -/
  | grabbed (op : HoldOp)
  /-- Has the mutex, the descriptor is bad; unlocks. -/
  | refused
  /-- Sends or receives; releases when done. -/
  | operating
  /-- `mb_shutdown` sets the flag. -/
  | flag
  /-- The flag was set already; releases. -/
  | lost
  /-- `mb_shutdown` waits for `holds <= 3`. -/
  | wait
  /-- Calls `mb_sock_stop`. -/
  | stop (b : Stopper)
  /-- In `mb_sock_stop`, tearing the socket down. -/
  | stopping (b : Stopper)
  /-- `mb_shutdown` has stopped the socket; releases. -/
  | stopped
  /-- `mb_close` has the mutex; reads and clears `socks[s]`. -/
  | unpublish
  /-- `mb_close` has the mutex; unlocks. -/
  | leave
  /-- `mb_close` sets the flag. -/
  | closeFlag
  /-- `mb_close` drops the first of the two references. -/
  | drop
  /-- `mb_close` drops the second. -/
  | dropLast
  /-- `mb_close` waits for `holds <= 0`. -/
  | drain
  /-- `mb_close` calls `mb_sock_term`. -/
  | term
  /-- `mb_close` calls `mb_free`. -/
  | free
  /-- `mb_close` returns. -/
  | finish
deriving DecidableEq, Repr

/-- `sock->state`, as far as `mb_sock_stop` uses it.  SRC: sock.c:156-194 -/
inductive SockState where
  | active
  | stoppingEps
  | init
deriving DecidableEq, Repr

/-- What happened to the socket. -/
structure Ledger where
  permanent : ℤ
  terms : ℕ
  frees : ℕ
  returned : ℕ
deriving DecidableEq, Repr

/-- What the threads share.  `holds` is an `atomic int` of the source; it never exceeds the number of
threads by more than two, so an unbounded integer stands for it. -/
structure Shared (T : Type) where
  lock : Option T
  published : Bool
  stopping : Bool
  holds : ℤ
  state : SockState
  ledger : Ledger
deriving DecidableEq

/-- What a thread does: it makes a call, or it goes on with its call. -/
inductive Act where
  | hold (op : HoldOp)
  | close
  | run
deriving DecidableEq, Repr

namespace Teardown

variable {T : Type}

/-- Where a call goes on after `mb_global_hold_socket` has returned. -/
def afterHold : HoldOp → Pc
  | .send => .operating
  | .recv => .operating
  | .shutdown => .flag

/-- Where a call goes on after `mb_sock_stop` has returned. -/
def afterStop : Stopper → Pc
  | .shutdown => .stopped
  | .close => .term

/-- `mb_mutex_lock`. -/
def lock [DecidableEq T] (me : T) (c : Pc) (g : Shared T) : Option (Pc × Shared T) :=
  if g.lock = none then some (c, { g with lock := some me }) else none

/-- `mb_sock_rele` of a hold.  SRC: sock.c:681-684 -/
def release (g : Shared T) : Shared T := { g with holds := g.holds - 1 }

/-- `mb_sock_rele` of one of the references of the socket itself. -/
def dropPermanent (g : Shared T) : Shared T :=
  { release g with ledger.permanent := g.ledger.permanent - 1 }

/-- The next access of a thread inside a call.
SRC: global.c:297-344 (mb_close), 506-534 (mb_shutdown), 536-620 (mb_send),
622-690 (mb_recv), 1149-1170 (hold and release), sock.c:146-196 (mb_sock_stop) -/
def advance : Pc → Shared T → Option (Pc × Shared T)
  | .idle, _ => none
  -- mb_global_hold_socket
  | .lookup op, g => some (if g.published then .probe op else .refused, g)
  | .probe op, g => some (if g.stopping then .refused else .grab op, g)
  | .grab op, g => some (.grabbed op, { g with holds := g.holds + 1 })
  | .grabbed op, g => some (afterHold op, { g with lock := none })
  | .refused, g => some (.idle, { g with lock := none })
  -- mb_send, mb_recv
  | .operating, g => some (.idle, release g)
  -- mb_shutdown
  | .flag, g => some (if g.stopping then .lost else .wait, { g with stopping := true })
  | .lost, g => some (.idle, release g)
  | .wait, g => some (if g.holds > 3 then .wait else .stop .shutdown, g)
  | .stopped, g => some (.idle, release g)
  -- mb_sock_stop
  | .stop b, g =>
    if g.state = .active then some (.stopping b, { g with state := .stoppingEps })
    else some (afterStop b, g)
  | .stopping b, g => some (afterStop b, { g with state := .init })
  -- mb_close
  | .unpublish, g =>
    if g.published then some (.leave, { g with published := false }) else some (.refused, g)
  | .leave, g => some (.closeFlag, { g with lock := none })
  | .closeFlag, g => some (.drop, { g with stopping := true })
  | .drop, g => some (.dropLast, dropPermanent g)
  | .dropLast, g => some (.drain, dropPermanent g)
  | .drain, g => some (if g.holds > 0 then .drain else .stop .close, g)
  | .term, g => some (.free, { g with ledger.terms := g.ledger.terms + 1 })
  | .free, g => some (.finish, { g with ledger.frees := g.ledger.frees + 1 })
  | .finish, g => some (.idle, { g with ledger.returned := g.ledger.returned + 1 })

/-- The program of every thread. -/
def program [DecidableEq T] (me : T) : Act → Pc → Shared T → Option (Pc × Shared T)
  | .hold op, .idle, g => lock me (.lookup op) g
  | .close, .idle, g => lock me .unpublish g
  | .run, c, g => advance c g
  | _, _, _ => none

/-- A new socket.  SRC: sock.c:88-91 -/
def start : Threads T (Shared T) Pc where
  shared := ⟨none, true, false, 2, .active, ⟨2, 0, 0, 0⟩⟩
  pc _ := .idle

/-- The threads in any order. -/
def system [DecidableEq T] : System (Threads T (Shared T) Pc) (T × Act) :=
  interleave program start

/-- A send or recv has a hold on the socket that it has not released. -/
def inFlight : Pc → Bool
  | .grabbed .send => true
  | .grabbed .recv => true
  | .operating => true
  | _ => false

/-- A send or recv has passed the tests of `mb_global_hold_socket` and is about to take
its hold. -/
def entering : Pc → Bool
  | .grab .send => true
  | .grab .recv => true
  | _ => false

/-- The number of holds of a thread at this place. -/
def held : Pc → ℤ
  | .grabbed _ => 1
  | .operating => 1
  | .flag => 1
  | .lost => 1
  | .wait => 1
  | .stop .shutdown => 1
  | .stopping .shutdown => 1
  | .stopped => 1
  | _ => 0

/-- The order of steps under which `mb_shutdown` is safe.  It sets the flag when no send or
recv is between its test of the flag and its hold; and `mb_close` does not drop a
reference of the socket while an `mb_shutdown` waits and a send or recv is in flight. -/
def Ordered (s : Threads T (Shared T) Pc) (l : T × Act) : Prop :=
  (l.2 = .run → s.pc l.1 = .flag → s.shared.stopping = false → ∀ u, entering (s.pc u) = false) ∧
  (l.2 = .run → s.pc l.1 = .drop ∨ s.pc l.1 = .dropLast → (∃ u, s.pc u = .wait) →
    ∀ u, inFlight (s.pc u) = false)

instance [Fintype T] (s : Threads T (Shared T) Pc) (l : T × Act) : Decidable (Ordered s l) := by
  unfold Ordered
  infer_instance

end Teardown

end MsgBroker.Model
