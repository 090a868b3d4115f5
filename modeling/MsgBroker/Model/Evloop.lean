import Mathlib.Data.Int.Notation
import MsgBroker.Lib.Reach
import MsgBroker.Model.Pipe

/-!
# The event loop over io_uring

`mb_evloop` of `src/aio/evloop.c` with its io_uring backend: a table of entries, each of which is
watched by polls that the kernel has been given.
-/

set_option autoImplicit false

namespace MsgBroker.Model

open Lib

/-- `MB_EVLOOP_MAX_EVENTS`. -/
def evloopMaxEvents : ℕ := 64

/-- `MB_EVLOOP_IN`. -/
def evloopIn : BitVec 32 := 1

/-- `MB_EVLOOP_OUT`. -/
def evloopOut : BitVec 32 := 2

def pollIn : BitVec 32 := 0x1

def pollOut : BitVec 32 := 0x4

def pollErr : BitVec 32 := 0x8

def pollHup : BitVec 32 := 0x10

/-- `mb_evloop_uring_mask`.  SRC: evloop.c:131-137 -/
def uringMask (events : BitVec 32) : BitVec 32 :=
  (if events &&& evloopIn ≠ 0 then pollIn else 0) |||
    (if events &&& evloopOut ≠ 0 then pollOut else 0)

/-- The flags of a completion that is not an error.  SRC: evloop.c:296-299 -/
def evFlags (res : BitVec 32) : BitVec 32 :=
  (if res &&& (pollIn ||| pollHup ||| pollErr) ≠ 0 then evloopIn else 0) |||
    (if res &&& pollOut ≠ 0 then evloopOut else 0)

/-- `struct mb_evloop_entry`; `cb` is `none` where the callback or its `on_event` is `NULL`. -/
structure EvEntry (C : Type) where
  fd : ℤ
  events : BitVec 32
  cb : Option C
  active : Bool
  pending : Bool
deriving DecidableEq, Repr

/-- A poll that the kernel has been given and that has not been taken off the ring: the entry it is
for, what it is armed with, and which registration armed it. -/
structure UringPoll where
  slot : Fin evloopMaxEvents
  fd : ℤ
  mask : BitVec 32
  reg : ℕ
deriving DecidableEq, Repr

/-- The loop.  `reg` numbers the registrations of the entries, and `invoked` has the completions
that led to a callback, each with the registration whose callback it was. -/
structure Evloop (C : Type) where
  entries : Fin evloopMaxEvents → EvEntry C
  polls : List UringPoll
  reg : Fin evloopMaxEvents → ℕ
  regs : ℕ
  invoked : List (UringPoll × ℕ)

namespace Evloop

variable {C : Type}

/-- `mb_evloop_init`.  SRC: evloop.c:104-113 -/
def init : Evloop C where
  entries _ := ⟨0, 0, none, false, false⟩
  polls := []
  reg _ := 0
  regs := 0
  invoked := []

/-- `mb_evloop_find_entry`.  SRC: evloop.c:139-150 -/
def findEntry (self : Evloop C) (fd : ℤ) : Option (Fin evloopMaxEvents) :=
  (List.finRange evloopMaxEvents).find? fun i =>
    (self.entries i).active ∧ (self.entries i).fd = fd

/-- `mb_evloop_alloc_entry`.  SRC: evloop.c:152-162 -/
def allocEntry (self : Evloop C) : Option (Fin evloopMaxEvents) :=
  (List.finRange evloopMaxEvents).find? fun i =>
    (self.entries i).active = false ∧ (self.entries i).pending = false

/-- A write to an entry. -/
def modifyEntry (self : Evloop C) (i : Fin evloopMaxEvents) (f : EvEntry C → EvEntry C) :
    Evloop C :=
  { self with entries := Function.update self.entries i (f (self.entries i)) }

/-- `mb_evloop_submit_uring_poll`.  SRC: evloop.c:164-180 -/
def submitUringPoll (self : Evloop C) (i : Fin evloopMaxEvents) : Evloop C :=
  let entry := self.entries i
  let poll := ⟨i, entry.fd, uringMask entry.events, self.reg i⟩
  { self with polls := self.polls ++ [poll] }.modifyEntry i ({ · with pending := true })

/-- `mb_evloop_add`.  SRC: evloop.c:197-222 -/
def add (self : Evloop C) (fd : ℤ) (events : BitVec 32) (cb : Option C) : Rc × Evloop C :=
  if (self.findEntry fd).isSome then (.err .EEXIST, self)
  else
    match self.allocEntry with
    | none => (.err .ENOMEM, self)
    | some i =>
      let self := self.modifyEntry i fun _ => ⟨fd, events, cb, true, false⟩
      let self := { self with reg := Function.update self.reg i self.regs, regs := self.regs + 1 }
      (.ok, self.submitUringPoll i)

/-- `mb_evloop_modify`.  SRC: evloop.c:229-244 -/
def modify (self : Evloop C) (fd : ℤ) (events : BitVec 32) (cb : Option C) : Rc × Evloop C :=
  match self.findEntry fd with
  | none => (.err .ENOENT, self)
  | some i =>
    let self := self.modifyEntry i ({ · with events := events, cb := cb })
    if (self.entries i).pending then (.ok, self) else (.ok, self.submitUringPoll i)

/-- `mb_evloop_remove`.  The kernel is asked to complete the poll of an entry that is pending; until
it does, the entry stays so.  SRC: evloop.c:182-195, 252-263 -/
def remove (self : Evloop C) (fd : ℤ) : Rc × Evloop C :=
  match self.findEntry fd with
  | none => (.err .ENOENT, self)
  | some i => (.ok, self.modifyEntry i ({ · with active := false, cb := none }))

end Evloop

/-- The calls that callbacks make. -/
inductive EvOp (C : Type) where
  | add (fd : ℤ) (events : BitVec 32) (cb : Option C)
  | modify (fd : ℤ) (events : BitVec 32) (cb : Option C)
  | remove (fd : ℤ)
deriving DecidableEq, Repr

namespace Evloop

variable {C : Type}

/-- One of these calls. -/
def call (self : Evloop C) : EvOp C → Evloop C
  | .add fd events cb => (self.add fd events cb).2
  | .modify fd events cb => (self.modify fd events cb).2
  | .remove fd => (self.remove fd).2

/-- The completion of the `k`-th poll is taken off the ring.  SRC: evloop.c:288-290, 300 -/
def complete (self : Evloop C) (k : ℕ) (poll : UringPoll) : Evloop C :=
  { self with polls := self.polls.eraseIdx k }.modifyEntry poll.slot ({ · with pending := false })

/-- The callback of an active entry makes the calls `ops`.  SRC: evloop.c:291, 302-303 -/
def dispatch (self : Evloop C) (poll : UringPoll) (flags : BitVec 32) (ops : List (EvOp C)) :
    Evloop C :=
  let entry := self.entries poll.slot
  if flags ≠ 0 ∧ entry.active ∧ entry.cb.isSome then
    ops.foldl call { self with invoked := self.invoked ++ [(poll, self.reg poll.slot)] }
  else self

/-- An entry that is still active is watched again.  SRC: evloop.c:305-307 -/
def rearm (self : Evloop C) (i : Fin evloopMaxEvents) : Evloop C :=
  if (self.entries i).active then self.submitUringPoll i else self

/-- `mb_evloop_poll`: the `k`-th poll in flight completes with `res`.  If there is no such poll, the
call has timed out or has got the completion of a request to remove a poll, which has no entry.
SRC: evloop.c:267-310 -/
def poll (self : Evloop C) (k : ℕ) (res : BitVec 32) (ops : List (EvOp C)) : Bool × Evloop C :=
  match self.polls[k]? with
  | none => (false, self)
  | some poll =>
    if res.slt 0 then (false, self.complete k poll)
    else
      (decide (evFlags res ≠ 0),
        ((self.complete k poll).dispatch poll (evFlags res) ops).rearm poll.slot)

end Evloop

/-- The calls on the loop. -/
inductive EvCall (C : Type) where
  | op (o : EvOp C)
  | poll (k : ℕ) (res : BitVec 32) (ops : List (EvOp C))
deriving DecidableEq, Repr

/-- Any calls on a loop that `mb_evloop_init` made. -/
def evloop (C : Type) : System (Evloop C) (EvCall C) where
  init := Evloop.init
  step s
    | .op o => some (s.call o)
    | .poll k res ops => some (s.poll k res ops).2

end MsgBroker.Model
