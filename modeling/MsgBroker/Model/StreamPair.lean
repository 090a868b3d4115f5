import Mathlib.Logic.Function.Basic
import MsgBroker.Model.Stream

/-!
# Two sessions joined by a byte stream

The two ends of a connection are `false` and `true`; the bytes end `i` has written and its peer has
not read are `wire i`.
-/

set_option autoImplicit false

namespace MsgBroker.Model

open Lib

/-- The two sessions, the bytes between them, and the history of each end. -/
structure StreamPair where
  ends : Bool → Stream
  wire : Bool → List UInt8
  sent : Bool → List (List UInt8)
  got : Bool → List (List UInt8)

/-- What a call of a session is. -/
inductive StreamCall where
  | send (body : List UInt8) (alloc : Bool)
  | recv (poll alloc : Bool)
  | hasMsg (poll : Bool)
  | canSend (poll : Bool)
deriving DecidableEq

/-- A call at one end, with the answers of the system calls it makes. -/
structure StreamOp where
  self : Bool
  call : StreamCall
  wans : List (Answer ℕ)
  rans : List (Answer (Option ℕ))

namespace StreamPair

/-- A fresh connection. -/
def init : StreamPair := ⟨fun _ => .create, fun _ => [], fun _ => [], fun _ => []⟩

/-- The connection as the end sees it, with the answers of this call. -/
def port (s : StreamPair) (op : StreamOp) : Port :=
  ⟨s.wire op.self, s.wire (!op.self), op.wans, op.rans⟩

/-- What a call leaves behind at its end. -/
def put (s : StreamPair) (i : Bool) (x : Stream) (c : Port) : StreamPair :=
  { s with
    ends := Function.update s.ends i x
    wire := Function.update (Function.update s.wire i c.tx) (!i) c.rx }

/-- One call at one end. -/
def step (t : Transport) (cb : Stream → Port → Stream × Port) (opts : Bool → SockOpts)
    (s : StreamPair) (op : StreamOp) : Option StreamPair :=
  let i := op.self
  match op.call with
  | .send body alloc =>
    let (rc, x, c) := (s.ends i).send t cb (opts i) body alloc (s.port op)
    let s' := s.put i x c
    some { s' with
      sent := if rc = .ok then Function.update s.sent i (s.sent i ++ [body]) else s.sent }
  | .recv poll alloc =>
    let (res, x, c) := (s.ends i).recv t cb (opts i) poll alloc (s.port op)
    let s' := s.put i x c
    some { s' with
      got := match res with
        | .ok body => Function.update s.got i (s.got i ++ [body])
        | .error _ => s.got }
  | .hasMsg poll =>
    let (_, x, c) := (s.ends i).hasMsg t cb poll (s.port op)
    some (s.put i x c)
  | .canSend poll =>
    let (_, x, c) := (s.ends i).canSend t cb poll (s.port op)
    some (s.put i x c)

/-- The pair as a labelled system. -/
def system (t : Transport) (cb : Stream → Port → Stream × Port) (opts : Bool → SockOpts) :
    System StreamPair StreamOp := ⟨init, step t cb opts⟩

/-- The calls considered: the connection never fails, allocations succeed, and the peer's
`MB_RCVMAXSIZE` permits what is sent. -/
def Orderly (opts : Bool → SockOpts) (_ : StreamPair) (op : StreamOp) : Prop :=
  Calm op.wans ∧ Calm op.rans ∧
    match op.call with
    | .send body alloc => (opts (!op.self)).msgTooLarge body.length = false ∧ alloc = true
    | .recv _ alloc => alloc = true
    | _ => True

end StreamPair

end MsgBroker.Model
