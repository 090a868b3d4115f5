import MsgBroker.Lib.Reach
import MsgBroker.Model.FifoPipe
import MsgBroker.Model.Protocols

/-!
# A network of PUSH and PULL sockets

`src/protocol/pipeline/push.c` and `pull.c` are the load balancer and the fair queue behind the
virtual table of a protocol.
-/

set_option autoImplicit false

namespace MsgBroker.Model

open Lib

variable {ρ τ π μ ε : Type}

/-! ## The two protocols -/

section Sockets

variable [DecidableEq π]

/-- `mb_push_add`, `mb_pull_add`; `alloc` tells whether the allocation succeeds.
SRC: push.c:25-38, pull.c:25-38 -/
def Rotor.attach (self : Rotor π) (pipe : π) (alloc : Bool) : Rc × Rotor π :=
  if alloc then (.ok, (self.add pipe).activate pipe) else (.err .ENOMEM, self)

/-- `mb_push_out`, `mb_pull_in`: the item is activated if the pipe has one.
SRC: push.c:57-63, pull.c:52-58 -/
def Rotor.refresh (self : Rotor π) (pipe : π) : Rotor π :=
  if pipe ∈ self.ids then self.activate pipe else self

/-- `mb_push_add`.  SRC: push.c:25-38 -/
def pushAdd (lb : Rotor π) (pipe : π) (alloc : Bool) : Rc × Rotor π := lb.attach pipe alloc

/-- `mb_push_rm`.  SRC: push.c:40-50 -/
def pushRm (lb : Rotor π) (pipe : π) : Rotor π := lb.rm pipe

/-- `mb_push_out`.  SRC: push.c:57-63 -/
def pushOut (lb : Rotor π) (pipe : π) : Rotor π := lb.refresh pipe

/-- `mb_push_events`: writable, with the marks refreshed on the way.  SRC: push.c:65-72 -/
def pushEvents (ops : Pipes π μ ε) (lb : Rotor π) (e : ε) : Bool × Rotor π × ε :=
  lb.lbCanSend ops e

/-- `mb_pull_add`.  SRC: pull.c:25-38 -/
def pullAdd (fq : Rotor π) (pipe : π) (alloc : Bool) : Rc × Rotor π := fq.attach pipe alloc

/-- `mb_pull_rm`.  SRC: pull.c:40-50 -/
def pullRm (fq : Rotor π) (pipe : π) : Rotor π := fq.rm pipe

/-- `mb_pull_in`.  SRC: pull.c:52-58 -/
def pullIn (fq : Rotor π) (pipe : π) : Rotor π := fq.refresh pipe

/-- `mb_pull_events`: readable.  SRC: pull.c:65-72 -/
def pullEvents (ops : Pipes π μ ε) (fq : Rotor π) (e : ε) : Bool × ε := fq.fqCanRecv ops e

/-- `mb_pull_recv`, with the pipe `mb_fq_recv` drops.  SRC: pull.c:74-78, fq.c:63-66 -/
def pullRecv (ops : Pipes π μ ε) (fq : Rotor π) (e : ε) : Except Errno (μ × π) × Rotor π × ε :=
  fq.fqRecvPipe ops e

end Sockets

/-! ## The network -/

/-- Which sockets the two ends of a pipe belong to. -/
structure Mesh (ρ τ π : Type) where
  pushEnd : π → ρ
  pullEnd : π → τ

/-- The sockets, the queues as the PUSH ends see them, and the history. -/
structure PipelineNet (ρ τ π μ : Type) where
  push : ρ → Rotor π
  pull : τ → Rotor π
  wire : Ends π (μ × ℕ)
  sent : List (ρ × μ)
  received : List (τ × π × (μ × ℕ))

/-- One operation, with every choice its environment makes. -/
inductive PipelineOp (ρ τ π μ : Type) where
  | pushAdd (p : π) (alloc : Bool)
  | pushRm (p : π)
  | pushOut (p : π)
  | pushEvents (q : ρ) (ans : List Bool)
  | send (q : ρ) (m : μ) (ans : List Bool)
  | pullAdd (p : π) (alloc : Bool)
  | pullRm (p : π)
  | pullIn (p : π)
  | pullEvents (r : τ) (ans : List Bool)
  | recv (r : τ) (ans : List Bool)

namespace PipelineNet

/-- All sockets created, no pipe attached.  SRC: push.c:110-125, pull.c:110-125 -/
def init : PipelineNet ρ τ π μ := ⟨fun _ => .init, fun _ => .init, .empty, [], []⟩

variable [DecidableEq ρ] [DecidableEq τ] [DecidableEq π]

/-- Replace the list of a PUSH. -/
def setPush (s : PipelineNet ρ τ π μ) (q : ρ) (lb : Rotor π) : PipelineNet ρ τ π μ :=
  { s with push := Function.update s.push q lb }

/-- Replace the list of a PULL. -/
def setPull (s : PipelineNet ρ τ π μ) (r : τ) (fq : Rotor π) : PipelineNet ρ τ π μ :=
  { s with pull := Function.update s.pull r fq }

/-- One operation; an end that is attached is not attached again. -/
def step (T : Mesh ρ τ π) (s : PipelineNet ρ τ π μ) :
    PipelineOp ρ τ π μ → Option (PipelineNet ρ τ π μ)
  | .pushAdd p alloc =>
    let q := T.pushEnd p
    if p ∈ (s.push q).ids then none else some (s.setPush q (pushAdd (s.push q) p alloc).2)
  | .pushRm p => some (s.setPush (T.pushEnd p) (pushRm (s.push (T.pushEnd p)) p))
  | .pushOut p => some (s.setPush (T.pushEnd p) (pushOut (s.push (T.pushEnd p)) p))
  | .pushEvents q ans =>
    let x := pushEvents fifoPipes (s.push q) (s.wire, ans)
    some { s.setPush q x.2.1 with wire := x.2.2.1 }
  | .send q m ans =>
    let x := pushSend fifoPipes (m, s.sent.length) (s.push q) (s.wire, ans)
    some { s.setPush q x.2.1 with
      wire := x.2.2.1
      sent := if x.1 = .ok then s.sent ++ [(q, m)] else s.sent }
  | .pullAdd p alloc =>
    let r := T.pullEnd p
    if p ∈ (s.pull r).ids then none else some (s.setPull r (pullAdd (s.pull r) p alloc).2)
  | .pullRm p => some (s.setPull (T.pullEnd p) (pullRm (s.pull (T.pullEnd p)) p))
  | .pullIn p => some (s.setPull (T.pullEnd p) (pullIn (s.pull (T.pullEnd p)) p))
  | .pullEvents r ans =>
    let x := pullEvents fifoPipes (s.pull r) (s.wire.flip, ans)
    some { s with wire := x.2.1.flip }
  | .recv r ans =>
    let x := pullRecv fifoPipes (s.pull r) (s.wire.flip, ans)
    some { s.setPull r x.2.1 with
      wire := x.2.2.1.flip
      received := match x.1 with
        | .ok (m, p) => s.received ++ [(r, p, m)]
        | .error _ => s.received }

/-- The network as a labelled system. -/
def system (T : Mesh ρ τ π) : System (PipelineNet ρ τ π μ) (PipelineOp ρ τ π μ) := ⟨init, step T⟩

/-- What a pipe carried: the messages received over it, and then those still in its queue. -/
def carried (s : PipelineNet ρ τ π μ) (p : π) : List (μ × ℕ) :=
  (s.received.filter fun e => e.2.1 = p).map (fun e => e.2.2) ++ s.wire.out p

end PipelineNet

end MsgBroker.Model
