import MsgBroker.Lib.Reach
import MsgBroker.Model.Pub

/-!
# What a PUB socket hands to its pipes

One PUB socket with pipes of any kind. Every call of `mb_pub_send` finds the pipes in any state,
since the subscribers and the transports go on between the calls.
-/

set_option autoImplicit false

namespace MsgBroker.Model

open Lib

/-- The same pipes with a record of every message they are offered. -/
def Pipes.recorded {π μ ε : Type} (ops : Pipes π μ ε) : Pipes π μ (ε × List (π × μ)) where
  send p m e := ((ops.send p m e.1).1, (ops.send p m e.1).2, e.2 ++ [(p, m)])
  recv p e := ((ops.recv p e.1).1, (ops.recv p e.1).2, e.2)
  hasMsg p e := ((ops.hasMsg p e.1).1, (ops.hasMsg p e.1).2, e.2)
  canSend p e := ((ops.canSend p e.1).1, (ops.canSend p e.1).2, e.2)

/-- The socket and what its pipes were offered. -/
structure PubOffers (π : Type) where
  pub : Pub π Unit
  offered : List (π × Msg Unit)

/-- A call: `mb_pub_send` of a message, with the answers of the allocator and the state the pipes
are found in, or a pipe that comes or goes. -/
inductive PubCall (π ε : Type) where
  | send (msg : Msg Unit) (alloc : π → Bool) (pipes : ε)
  | add (p : π) (alloc : Bool)
  | rm (p : π)

namespace PubOffers

variable {π ε : Type} [DecidableEq π]

/-- One call of the socket. -/
def step (ops : Pipes π (Msg Unit) ε) (s : PubOffers π) : PubCall π ε → Option (PubOffers π)
  | .send msg alloc e =>
    let (_, _, pub, _, e') := s.pub.send ops.recorded alloc msg (e, s.offered)
    some ⟨pub, e'.2⟩
  | .add p alloc => some { s with pub := (s.pub.add p alloc).2 }
  | .rm p => some { s with pub := s.pub.rm p }

/-- Any calls in any order. -/
def system (ops : Pipes π (Msg Unit) ε) : System (PubOffers π) (PubCall π ε) :=
  ⟨⟨.create, []⟩, step ops⟩

end PubOffers

end MsgBroker.Model
