import MsgBroker.Model.Pipe
import Mathlib.Data.List.Range

/-!
# Polling

`mb_poll` of `src/core/poll.c`. What it meets with is part of the call: in every round the answers
of `mb_getsockopt` and of `poll`, and the readings of the clock.
-/

set_option autoImplicit false

namespace MsgBroker.Model

/-- A socket by its index in `fds`, and whether `MB_POLLOUT` is meant or `MB_POLLIN`: a bit of
`events` or `revents`, and an entry for `poll` with its `map_idx` and `map_snd`. -/
abbrev PollEntry := ℕ × Bool

/-- A round of the loop; `poll` sets `POLLIN` or other bits, such as `POLLNVAL`, of an entry. -/
structure PollRound where
  getfd : PollEntry → Option Errno
  before : UInt64
  poll : Except Errno (PollEntry → Bool × Bool)
  after : UInt64

/-- The entries for `poll`.  SRC: poll.c:83-124 -/
def pollEntries (nfds : ℕ) (events : PollEntry → Bool) : List PollEntry :=
  (List.range nfds).flatMap fun i =>
    (if events (i, false) then [(i, false)] else []) ++ if events (i, true) then [(i, true)] else []

/-- What `poll` answers; without entries it is not called.  SRC: poll.c:145-151 -/
def PollRound.answer (r : PollRound) (entries : List PollEntry) :
    Except Errno (PollEntry → Bool × Bool) :=
  if entries = [] then .ok fun _ => (false, false) else r.poll

/-- The loop that sets the bits of `revents`.  SRC: poll.c:163-170 -/
def pollCollect (pollin : PollEntry → Bool) :
    List PollEntry → (PollEntry → Bool) → PollEntry → Bool
  | [], revents => revents
  | e :: es, revents =>
    pollCollect pollin es (if pollin e then Function.update revents e true else revents)

/-- The number of sockets with a bit.  SRC: poll.c:171-174 -/
def pollCount (nfds : ℕ) (revents : PollEntry → Bool) : ℕ :=
  (List.range nfds).countP fun i => revents (i, false) || revents (i, true)

/-- The time is over.  SRC: poll.c:131-132, 186-187 -/
def pollExpired (timeout : Int32) (start clock : UInt64) : Bool :=
  0 < timeout && timeout.toInt ≤ (clock - start).toNat

/-- One round: the result and `revents`, or nothing if the loop goes on.  SRC: poll.c:79-193 -/
def pollRound (nfds : ℕ) (events : PollEntry → Bool) (timeout : Int32) (start : UInt64)
    (r : PollRound) : Option (Except Errno (ℕ × (PollEntry → Bool))) :=
  let entries := pollEntries nfds events
  match entries.findSome? r.getfd with
  | some c => some (.error c)
  | none =>
    if pollExpired timeout start r.before then some (.ok (0, fun _ => false))
    else match r.answer entries with
      | .error c => some (.error c)
      | .ok ready =>
        if entries.any (fun e => ready e != (false, false)) then
          let revents := pollCollect (fun e => (ready e).1) entries fun _ => false
          some (.ok (pollCount nfds revents, revents))
        else if timeout = 0 ∨ pollExpired timeout start r.after then
          some (.ok (0, fun _ => false))
        else none

/-- `mb_poll`; there is no result if it still waits when the rounds are over.  SRC: poll.c:24-200 -/
def mbPoll (nfds : ℕ) (events : PollEntry → Bool) (timeout : Int32) (alloc : Bool)
    (start : UInt64) (rounds : List PollRound) : Option (Except Errno (ℕ × (PollEntry → Bool))) :=
  if nfds = 0 then some (.ok (0, fun _ => false))
  else if 1073741823 < nfds ∨ alloc = false then some (.error .ENOMEM)
  else rounds.findSome? (pollRound nfds events timeout start)

end MsgBroker.Model
