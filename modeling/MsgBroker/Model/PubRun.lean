import MsgBroker.Lib.Reach
import MsgBroker.Model.Pub

/-!
# A PUB socket in use

One PUB socket and its pipes over time. Pipes come and go, and every `mb_pipe_send` takes the copy
or answers `-EAGAIN`: the answers of a call are part of its label, one for each pipe in the fan-out
and one for each pipe in each attempt to drain a message.
-/

set_option autoImplicit false

namespace MsgBroker.Model

open Lib

/-- An event of the log: during the call `cur`, the pipe `p` answered a copy of the message
of the call `call`; or a pipe was detached. -/
inductive PubEvent (π : Type) where
  | offer (cur call : ℕ) (p : π) (taken : Bool)
  | detached (p : π)
deriving DecidableEq

/-- The number of copies of the message of `call` that the pipe took. -/
def copiesTaken {π : Type} [DecidableEq π] (log : List (PubEvent π)) (call : ℕ) (p : π) : ℕ :=
  log.countP fun
    | .offer _ c q true => c = call ∧ q = p
    | _ => false

/-- Every pipe that refused the message of `call` in its fan-out has since taken a copy of
it or was detached. -/
def RefusersServed {π : Type} (call : ℕ) (log : List (PubEvent π)) : Prop :=
  ∀ p l₁ l₂, log = l₁ ++ .offer call call p false :: l₂ →
    (∃ cur, .offer cur call p true ∈ l₂) ∨ .detached p ∈ l₂

/-- What stands behind the pipes during the call `cur`: the answers it will get, how often
each pipe was asked so far, and the log. -/
structure PubEnv (π : Type) where
  cur : ℕ
  can : π → Bool
  fan : π → Bool
  drain : ℕ → π → Bool
  asked : π → ℕ
  log : List (PubEvent π)

namespace PubEnv

variable {π : Type} [DecidableEq π]

/-- The answer to a copy of the message of the call `call`: the message of the current call
is in the fan-out, others are being drained. -/
def answer (e : PubEnv π) (call : ℕ) (p : π) : Bool :=
  if call = e.cur then e.fan p else e.drain (e.asked p) p

/-- A copy was offered to the pipe. -/
def offered (e : PubEnv π) (call : ℕ) (p : π) : PubEnv π :=
  { e with
    asked := Function.update e.asked p (e.asked p + 1)
    log := e.log ++ [.offer e.cur call p (e.answer call p)] }

/-- The pipes; nothing is ever received on them. -/
def pipes : Pipes π (Msg ℕ) (PubEnv π) where
  send p msg e := (if e.answer msg.tag p then .ok else .again, e.offered msg.tag p)
  recv _ e := (.error .EAGAIN, e)
  hasMsg _ e := (false, e)
  canSend p e := (e.can p, e)

end PubEnv

/-- A PUB socket and its history. -/
structure PubRun (π : Type) where
  pub : Pub π ℕ
  calls : ℕ
  log : List (PubEvent π)
  removals : List (ℕ × List (PubEvent π))

/-- What a PUB socket is used for. -/
inductive PubOp (π : Type) where
  | send (sphdr body : List UInt8) (can fan : π → Bool) (drain : ℕ → π → Bool)
      (alloc : π → Bool)
  | add (p : π) (alloc : Bool)
  | rm (p : π)

namespace PubRun

variable {π : Type} [DecidableEq π]

def init : PubRun π := ⟨.create, 0, [], []⟩

/-- One call of the socket.  A pipe is attached once, and an attached pipe detached. -/
def step (s : PubRun π) : PubOp π → Option (PubRun π)
  | .send sphdr body can fan drain alloc =>
    let (_, _, pub, removed, e) := s.pub.send PubEnv.pipes alloc ⟨sphdr, body, s.calls⟩
      ⟨s.calls, can, fan, drain, fun _ => 0, s.log⟩
    some ⟨pub, s.calls + 1, e.log, s.removals ++ removed.map fun r => (r.1.tag, r.2.log)⟩
  | .add p alloc =>
    if p ∈ s.pub.pipes then none else some { s with pub := (s.pub.add p alloc).2 }
  | .rm p =>
    if p ∈ s.pub.pipes then
      some { s with pub := s.pub.rm p, log := s.log ++ [.detached p] }
    else none

/-- The socket as a labelled system. -/
def system : System (PubRun π) (PubOp π) := ⟨init, step⟩

end PubRun

end MsgBroker.Model
