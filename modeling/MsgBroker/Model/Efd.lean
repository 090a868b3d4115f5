import Mathlib.Tactic.Common
import MsgBroker.Lib.Threads

/-!
# Event file descriptors

`src/pal/efd.c`: a flag and an object of the kernel that a thread can wait for.
-/

set_option autoImplicit false

namespace MsgBroker.Model

/-- What the descriptor is made of.  SRC: efd.c:1-16 -/
inductive EfdKind where
  | event
  | eventfd
  | pipe
deriving DecidableEq, Repr

/-- `struct mb_efd`: the flag, and the counter of the `eventfd`, the number of bytes in the pipe,
or `1` for an event that is set.  SRC: efd.h:10-19 -/
structure Efd where
  signaled : Bool
  level : ℕ
deriving DecidableEq, Repr

/-- The next access of `mb_efd_signal`. -/
inductive SignalPc where
  | cas
  | write
deriving DecidableEq, Repr

/-- The next access of `mb_efd_unsignal`. -/
inductive UnsignalPc where
  | store
  | read
  | load
  | write
deriving DecidableEq, Repr

namespace Efd

/-- `mb_efd_init`.  SRC: efd.c:37-49 -/
def init : Efd := ⟨false, 0⟩

/-- `poll` would report the descriptor. -/
def readable (self : Efd) : Prop := 0 < self.level

instance (self : Efd) : Decidable self.readable := inferInstanceAs (Decidable (0 < self.level))

/-- `mb_efd_write_once`.  SRC: efd.c:18-35 -/
def writeOnce (kind : EfdKind) (self : Efd) : Efd :=
  match kind with
  | .event => { self with level := 1 }
  | .eventfd | .pipe => { self with level := self.level + 1 }

/-- One access of the kernel object by `mb_efd_unsignal` that empties it, and whether there is
another one: a pipe is read in pieces of 16 bytes until a read finds nothing.
SRC: efd.c:88-99 -/
def drain (kind : EfdKind) (self : Efd) : Bool × Efd :=
  match kind with
  | .event | .eventfd => (false, { self with level := 0 })
  | .pipe =>
    if self.level = 0 then (false, self) else (true, { self with level := self.level - 16 })

/-- One access of `mb_efd_signal`; `none` when it returns.  SRC: efd.c:75-83 -/
def signal (kind : EfdKind) (pc : SignalPc) (self : Efd) : Option SignalPc × Efd :=
  match pc with
  | .cas => if self.signaled then (none, self) else (some .write, { self with signaled := true })
  | .write => (none, self.writeOnce kind)

/-- One access of `mb_efd_unsignal`; `none` when it returns.  SRC: efd.c:85-104 -/
def unsignal (kind : EfdKind) (pc : UnsignalPc) (self : Efd) : Option UnsignalPc × Efd :=
  match pc with
  | .store => (some .read, { self with signaled := false })
  | .read =>
    let (more, self') := self.drain kind
    (some (if more then .read else .load), self')
  | .load => (if self.signaled then some .write else none, self)
  | .write => (none, self.writeOnce kind)

end Efd

/-! ## Any number of threads on one descriptor -/

open Lib

/-- Where a thread is: in no call, or before an access of one. -/
inductive EfdPlace where
  | outside
  | signal (pc : SignalPc)
  | unsignal (pc : UnsignalPc)
deriving DecidableEq, Repr

/-- A thread calls one of the functions, or makes the next access of its call. -/
inductive EfdMove where
  | signal
  | unsignal
  | access
deriving DecidableEq, Repr

/-- What a thread does with the descriptor. -/
def efdProgram (kind : EfdKind) : EfdMove → EfdPlace → Efd → Option (EfdPlace × Efd)
  | .signal, .outside, fd => some (.signal .cas, fd)
  | .unsignal, .outside, fd => some (.unsignal .store, fd)
  | .access, .signal pc, fd =>
    let r := fd.signal kind pc
    some (r.1.elim .outside .signal, r.2)
  | .access, .unsignal pc, fd =>
    let r := fd.unsignal kind pc
    some (r.1.elim .outside .unsignal, r.2)
  | _, _, _ => none

/-- The threads `T` on one descriptor that has just been initialised. -/
def efdThreads (T : Type) [DecidableEq T] (kind : EfdKind) :
    System (Threads T Efd EfdPlace) (T × EfdMove) :=
  interleave (fun _ => efdProgram kind) ⟨.init, fun _ => .outside⟩

end MsgBroker.Model
