import Mathlib.Algebra.GroupWithZero.Nat
import MsgBroker.Lib.Reach

/-!
# The timer set

`mb_timerset` of `src/aio/timerset.c`: handles in a doubly linked list by their expiry, and the tick
that takes the due ones off its front and calls their callbacks.
-/

set_option autoImplicit false

namespace MsgBroker.Model

open Lib

/-- `struct mb_timerset_hndl`; `inSet` says whether `set` is the timer set or `NULL`, and `fn`
whether there is a callback.  SRC: timerset.h -/
structure TimerHndl (H : Type) where
  expiry : ℕ
  inSet : Bool
  prev : Option H
  next : Option H
  fn : Bool
deriving DecidableEq, Repr

/-- `mb_clock_ms` at a reading of the clock in microseconds.  SRC: clock.c -/
def mbClockMs (us : ℕ) : ℕ := us / 1000

/-- A positive `int`. -/
abbrev Timeout := { n : ℕ // 0 < n ∧ n < 2 ^ 31 }

/-- `struct mb_timerset` and the memory of the handles. -/
structure Timerset (H : Type) where
  head : Option H
  hndls : H → TimerHndl H

namespace Timerset

variable {H : Type} [DecidableEq H]

/-- A write to the handle `h`. -/
def modify (self : Timerset H) (h : H) (f : TimerHndl H → TimerHndl H) : Timerset H :=
  { self with hndls := Function.update self.hndls h (f (self.hndls h)) }

/-- The link that leads to the place after `prev`, set to `h`. -/
def linkAfter (self : Timerset H) (prev h : Option H) : Timerset H :=
  match prev with
  | some p => self.modify p ({ · with next := h })
  | none => { self with head := h }

/-- The link that leads to the place before `next`, set to `h`. -/
def linkBefore (self : Timerset H) (next h : Option H) : Timerset H :=
  match next with
  | some n => self.modify n ({ · with prev := h })
  | none => self

/-- `mb_timerset_cancel`.  SRC: timerset.c:59-73 -/
def cancel (self : Timerset H) (h : H) : Timerset H :=
  if (self.hndls h).inSet = false then self
  else
    let self := self.linkAfter (self.hndls h).prev (self.hndls h).next
    let self := self.linkBefore (self.hndls h).next (self.hndls h).prev
    self.modify h ({ · with inSet := false, prev := none, next := none })

/-- The loop of `mb_timerset_insert_sorted`: the places before and after which the handle belongs.
SRC: timerset.c:35-38 -/
def walkSorted (self : Timerset H) (expiry : ℕ) :
    ℕ → Option H → Option H → Option (Option H × Option H)
  | 0, _, _ => none
  | _ + 1, prev, none => some (prev, none)
  | fuel + 1, prev, some it =>
    if (self.hndls it).expiry ≤ expiry then
      self.walkSorted expiry fuel (some it) (self.hndls it).next
    else some (prev, some it)

/-- `mb_timerset_insert_sorted`.  SRC: timerset.c:25-48 -/
def insertSorted (self : Timerset H) (fuel : ℕ) (h : H) : Option (Timerset H) := do
  let first := self.head
  let self := self.modify h ({ · with inSet := true, prev := none, next := none })
  let (prev, it) ← self.walkSorted (self.hndls h).expiry fuel none first
  let self := self.modify h ({ · with prev := prev, next := it })
  let self := self.linkAfter prev (some h)
  return self.linkBefore it (some h)

/-- `mb_timerset_insert` of a handle with the given timeout at a reading of the clock.
SRC: timerset.c:50-57 -/
def insert (self : Timerset H) (fuel us : ℕ) (timeout : Timeout) (h : H) : Option (Timerset H) :=
  let self := if (self.hndls h).inSet then self.cancel h else self
  let self := self.modify h ({ · with expiry := (mbClockMs us + timeout) % 2 ^ 64 })
  self.insertSorted fuel h

end Timerset

/-- What happened to a handle. -/
inductive TimerEvent (H : Type) where
  | inserted (h : H)
  | cancelled (h : H)
  /-- A tick took the handle off the list, and called its callback if there is one. -/
  | expired (h : H) (called : Bool)
deriving DecidableEq, Repr

namespace TimerEvent

variable {H : Type}

/-- The handle of an event. -/
def hndl : TimerEvent H → H
  | .inserted h => h
  | .cancelled h => h
  | .expired h _ => h

/-- The handle whose callback was called. -/
def callback : TimerEvent H → Option H
  | .expired h true => some h
  | _ => none

/-- The handle expired. -/
def isExpiry : TimerEvent H → Bool
  | .expired _ _ => true
  | _ => false

end TimerEvent

/-- The timer set with the last reading of the clock, in microseconds, and what the run has done so
far: how many insertions there were, which of them was the last one of each handle, and all the
events. -/
structure Timers (H : Type) where
  timerset : Timerset H
  clock : ℕ
  inserts : ℕ
  stamp : H → ℕ
  log : List (TimerEvent H)

/-- The calls that callbacks make; the clock is read `later` microseconds after its last reading. -/
inductive TimerOp (H : Type) where
  | insert (h : H) (timeout : Timeout) (later : ℕ)
  | cancel (h : H)
deriving DecidableEq, Repr

/-- What a call does to its handle. -/
def TimerOp.event {H : Type} : TimerOp H → TimerEvent H
  | .insert h _ _ => .inserted h
  | .cancel h => .cancelled h

namespace Timers

variable {H : Type} [DecidableEq H]

/-- The next reading of a clock that does not go back, a `uint64_t`. -/
def later (s : Timers H) (n : ℕ) : ℕ := min (s.clock + n) (2 ^ 64 - 1)

/-- One call.  The list is not longer than the number of insertions, so a walk along it ends. -/
def call (s : Timers H) : TimerOp H → Option (Timers H)
  | .insert h timeout n => do
    let timerset ← s.timerset.insert (s.inserts + 1) (s.later n) timeout h
    return { timerset := timerset, clock := s.later n, inserts := s.inserts + 1,
             stamp := Function.update s.stamp h s.inserts, log := s.log ++ [.inserted h] }
  | .cancel h =>
    some { s with timerset := s.timerset.cancel h, log := s.log ++ [.cancelled h] }

/-- The calls of one callback. -/
def calls (s : Timers H) (ops : List (TimerOp H)) : Option (Timers H) :=
  ops.foldlM call s

/-- The handle `h` taken off the list by a tick. -/
def expire (s : Timers H) (h : H) : Timers H :=
  { s with timerset := s.timerset.cancel h,
           log := s.log ++ [.expired h (s.timerset.hndls h).fn] }

/-- The loop of `mb_timerset_tick`; the callback of the `k`-th handle that it takes off makes the
calls `ops k`.  SRC: timerset.c:79-84 -/
def tickLoop (now : ℕ) (ops : ℕ → List (TimerOp H)) : ℕ → ℕ → Timers H → Option (Timers H)
  | 0, _, _ => none
  | fuel + 1, k, s =>
    match s.timerset.head with
    | none => some s
    | some h =>
      if (s.timerset.hndls h).expiry ≤ now then do
        let t ← (s.expire h).calls (if (s.timerset.hndls h).fn then ops k else [])
        tickLoop now ops fuel (k + 1) t
      else some s

/-- `mb_timerset_tick`.  SRC: timerset.c:75-85 -/
def tick (s : Timers H) (n : ℕ) (ops : ℕ → List (TimerOp H)) : Option (Timers H) :=
  tickLoop (mbClockMs (s.later n)) ops (s.inserts + 1) 0 { s with clock := s.later n }

end Timers

/-- The calls on the set. -/
inductive TimerCall (H : Type) where
  | op (o : TimerOp H)
  | tick (later : ℕ) (ops : ℕ → List (TimerOp H))

/-- Any calls on a set that `mb_timerset_init` made; the handles are in no set, and `fns` says which
of them have a callback. -/
def timerset {H : Type} [DecidableEq H] (fns : H → Bool) : System (Timers H) (TimerCall H) where
  init :=
    { timerset := { head := none, hndls := fun h => ⟨0, false, none, none, fns h⟩ }
      clock := 0, inserts := 0, stamp := fun _ => 0, log := [] }
  step s
    | .op o => s.call o
    | .tick n ops => s.tick n ops

end MsgBroker.Model
