import Mathlib.Algebra.GroupWithZero.Nat
import Mathlib.Data.Finset.Card
import MsgBroker.Lib.Reach
import MsgBroker.Model.FifoPipe
import MsgBroker.Model.LoadBalance
import MsgBroker.Model.Trie

/-!
# SUB

`src/protocol/pubsub/sub.c`. A SUB socket takes messages from its pipes in turn and drops those that
no subscription matches.
-/

set_option autoImplicit false

namespace MsgBroker.Model

open Lib

/-- `MB_SUB_PROTO`. -/
def subProto : ℤ := 2

/-- `MB_SUB_SUBSCRIBE`. -/
def subSubscribe : ℤ := 1

/-- `MB_SUB_UNSUBSCRIBE`. -/
def subUnsubscribe : ℤ := 2

/-- The value of an option: a null pointer with some length, or that many bytes. -/
inductive OptVal where
  | null (len : ℕ)
  | bytes (data : List UInt8)
deriving DecidableEq

/-- The string the value stands for; a null pointer may only stand for the empty one. -/
def OptVal.data? : OptVal → Option (List UInt8)
  | .null len => if len > 0 then none else some []
  | .bytes data => some data

/-- `struct mb_sub`; `pending` holds a message exactly when `has_pending` is set. -/
structure SubSock (π : Type) where
  fq : Rotor π
  subscriptions : TrieNode
  pending : Option (List UInt8)
  hasSubscriptions : Bool
  nsubs : Int32

namespace SubSock

variable {π ε : Type}

/-- `mb_sub_create`.  SRC: sub.c:195-218 -/
def create : SubSock π := ⟨.init, .fresh, none, false, 0⟩

/-- `mb_sub_msg_matches`.  SRC: sub.c:25-32 -/
def msgMatches (self : SubSock π) (msg : List UInt8) : Bool :=
  if !self.hasSubscriptions then false else self.subscriptions.trieMatch msg

/-- `mb_sub_setopt`; `answers` tells which nodes can be allocated.  SRC: sub.c:136-171 -/
def setopt (level option : ℤ) (optval : OptVal) (answers : List Bool) (self : SubSock π) :
    Rc × SubSock π :=
  if level ≠ subProto then (.err .ENOPROTOOPT, self)
  else if option = subSubscribe then
    match optval.data? with
    | none => (.err .EINVAL, self)
    | some data =>
      match self.subscriptions.add answers data with
      | (.error e, root) => (.err e, { self with subscriptions := root })
      | (.ok true, root) =>
        (.ok, { self with
          subscriptions := root
          nsubs := self.nsubs + 1
          hasSubscriptions := true })
      | (.ok false, root) => (.ok, { self with subscriptions := root })
  else if option = subUnsubscribe then
    match optval.data? with
    | none => (.err .EINVAL, self)
    | some data =>
      match self.subscriptions.rmRec data with
      | .error e => (.err e, self)
      | .ok root =>
        let nsubs := if self.nsubs > 0 then self.nsubs - 1 else self.nsubs
        (.ok, { self with
          subscriptions := root
          nsubs := nsubs
          hasSubscriptions := decide (nsubs > 0) })
  else (.err .ENOPROTOOPT, self)

section Pipes

variable [DecidableEq π] (ops : Pipes π (List UInt8) ε)

/-- `mb_sub_add`; `alloc` tells whether its item can be allocated.  SRC: sub.c:71-84 -/
def add (alloc : Bool) (self : SubSock π) (pipe : π) : Rc × SubSock π :=
  if alloc then (.ok, { self with fq := (self.fq.add pipe).activate pipe })
  else (.err .ENOMEM, self)

/-- `mb_sub_rm`.  SRC: sub.c:86-96 -/
def rm (self : SubSock π) (pipe : π) : SubSock π := { self with fq := self.fq.rm pipe }

/-- `mb_sub_in`.  SRC: sub.c:98-104 -/
def onIn (self : SubSock π) (pipe : π) : SubSock π :=
  if pipe ∈ self.fq.ids then { self with fq := self.fq.activate pipe } else self

/-- The loop of `mb_sub_pull_deliverable`: messages are taken and dropped until one matches
or there is none to take; `fuel` bounds the rounds.  SRC: sub.c:44-58 -/
def pullLoop : ℕ → SubSock π → ε → Bool × SubSock π × ε
  | 0, self, e => (false, self, e)
  | fuel + 1, self, e =>
    match self.fq.fqRecv ops e with
    | (.error _, fq, e') => (false, { self with fq := fq }, e')
    | (.ok msg, fq, e') =>
      if self.msgMatches msg then (true, { self with fq := fq, pending := some msg }, e')
      else pullLoop fuel { self with fq := fq } e'

/-- `mb_sub_pull_deliverable`.  SRC: sub.c:35-59 -/
def pullDeliverable (fuel : ℕ) (self : SubSock π) (e : ε) : Bool × SubSock π × ε :=
  if self.pending.isSome then (true, self, e) else pullLoop ops fuel self e

/-- `mb_sub_events`: is a message deliverable?  SRC: sub.c:111-121 -/
def events (fuel : ℕ) (self : SubSock π) (e : ε) : Bool × SubSock π × ε :=
  pullDeliverable ops fuel self e

/-- `mb_sub_recv`.  SRC: sub.c:123-134 -/
def recv (fuel : ℕ) (self : SubSock π) (e : ε) : Except Errno (List UInt8) × SubSock π × ε :=
  match pullDeliverable ops fuel self e with
  | (false, self', e') => (.error .EAGAIN, self', e')
  | (true, self', e') => (.ok (self'.pending.getD []), { self' with pending := none }, e')

end Pipes

end SubSock

/-! ## A SUB socket in use -/

/-- A SUB socket, the queues of its pipes, and the strings subscribed and not unsubscribed
since. -/
structure SubRun (π : Type) where
  sub : SubSock π
  queues : Ends π (List UInt8)
  subs : Finset (List UInt8)

/-- What happens to a SUB socket; `answers` are those of the allocations or of the pipe
calls it makes. -/
inductive SubOp (π : Type) where
  | setopt (level option : ℤ) (optval : OptVal) (answers : List Bool)
  | add (alloc : Bool) (pipe : π)
  | rm (pipe : π)
  | onIn (pipe : π)
  | arrive (pipe : π) (msg : List UInt8)
  | events (answers : List Bool)
  | recv (answers : List Bool)

namespace SubRun

variable {π : Type} [DecidableEq π]

/-- A socket just opened. -/
def init : SubRun π := ⟨.create, .empty, ∅⟩

/-- The strings subscribed after a call of `mb_sub_setopt` that returned `rc`. -/
def subsAfter (rc : Rc) (option : ℤ) (optval : OptVal) (subs : Finset (List UInt8)) :
    Finset (List UInt8) :=
  if rc ≠ .ok then subs
  else if option = subSubscribe then insert (optval.data?.getD []) subs
  else subs.erase (optval.data?.getD [])

/-- `mb_sub_recv` at this point.  Each message taken uses up an answer, so their number
bounds the rounds of the loop. -/
def recv (s : SubRun π) (answers : List Bool) :
    Except Errno (List UInt8) × SubSock π × (Ends π (List UInt8) × List Bool) :=
  s.sub.recv fifoPipes (answers.length + 1) (s.queues, answers)

/-- One event. -/
def step (s : SubRun π) : SubOp π → Option (SubRun π)
  | .setopt level option optval answers =>
    let (rc, sub) := s.sub.setopt level option optval answers
    some { s with sub := sub, subs := subsAfter rc option optval s.subs }
  | .add alloc pipe => some { s with sub := (s.sub.add alloc pipe).2 }
  | .rm pipe => some { s with sub := s.sub.rm pipe }
  | .onIn pipe => some { s with sub := s.sub.onIn pipe }
  | .arrive pipe msg =>
    some { s with
      queues := { s.queues with
        inn := Function.update s.queues.inn pipe (s.queues.inn pipe ++ [msg]) } }
  | .events answers =>
    let (_, sub, e) := s.sub.events fifoPipes (answers.length + 1) (s.queues, answers)
    some { s with sub := sub, queues := e.1 }
  | .recv answers =>
    let (_, sub, e) := s.recv answers
    some { s with sub := sub, queues := e.1 }

/-- The socket as a labelled system. -/
def system (π : Type) [DecidableEq π] : System (SubRun π) (SubOp π) := ⟨init, step⟩

/-- The number of strings subscribed fits an `int`. -/
def Fits (s : SubRun π) (op : SubOp π) : Prop := ∀ s' ∈ s.step op, s'.subs.card < 2 ^ 31

instance (s : SubRun π) (op : SubOp π) : Decidable (s.Fits op) :=
  inferInstanceAs (Decidable (∀ s' ∈ s.step op, s'.subs.card < 2 ^ 31))

end SubRun

end MsgBroker.Model
