import Mathlib.Logic.Function.Basic
import MsgBroker.Model.Pipe

/-!
# Pipes that are pairs of FIFO queues

The pipes of the system models: a pipe is one queue in each direction, and every call may be refused
with `-EAGAIN`.
-/

set_option autoImplicit false

namespace MsgBroker.Model

variable {π μ : Type}

/-- The two queues of every pipe, as one end sees them: `out` holds what this end sent
and the other end has not read, `inn` what this end has still to read. -/
structure Ends (π μ : Type) where
  out : π → List μ
  inn : π → List μ

namespace Ends

/-- No message in flight. -/
def empty : Ends π μ := ⟨fun _ => [], fun _ => []⟩

/-- The same queues as the other end sees them. -/
def flip (w : Ends π μ) : Ends π μ := ⟨w.inn, w.out⟩

@[simp] theorem flip_flip (w : Ends π μ) : w.flip.flip = w := rfl

@[simp] theorem flip_out (w : Ends π μ) : w.flip.out = w.inn := rfl

@[simp] theorem flip_inn (w : Ends π μ) : w.flip.inn = w.out := rfl

variable [DecidableEq π]

/-- Queue a message on the way out of this end. -/
def push (w : Ends π μ) (p : π) (m : μ) : Ends π μ :=
  { w with out := Function.update w.out p (w.out p ++ [m]) }

/-- Take the next message off the queue this end reads. -/
def pop (w : Ends π μ) (p : π) : Ends π μ :=
  { w with inn := Function.update w.inn p (w.inn p).tail }

@[simp] theorem push_inn (w : Ends π μ) (p : π) (m : μ) : (w.push p m).inn = w.inn := rfl

@[simp] theorem pop_out (w : Ends π μ) (p : π) : (w.pop p).out = w.out := rfl

@[simp] theorem push_out_self (w : Ends π μ) (p : π) (m : μ) :
    (w.push p m).out p = w.out p ++ [m] := by simp [push]

@[simp] theorem pop_inn_self (w : Ends π μ) (p : π) :
    (w.pop p).inn p = (w.inn p).tail := by simp [pop]

theorem push_out_of_ne (w : Ends π μ) {p p' : π} (m : μ) (h : p' ≠ p) :
    (w.push p m).out p' = w.out p' := by simp [push, h]

theorem pop_inn_of_ne (w : Ends π μ) {p p' : π} (h : p' ≠ p) :
    (w.pop p).inn p' = w.inn p' := by simp [pop, h]

end Ends

/-- The pipe calls of one end over FIFO queues; the second component of the state is the
list of answers still to be given. -/
def fifoPipes [DecidableEq π] : Pipes π μ (Ends π μ × List Bool) where
  send p m e :=
    if e.2.headD false then (.ok, (e.1.push p m, e.2.tail)) else (.again, (e.1, e.2.tail))
  recv p e :=
    match e.1.inn p with
    | [] => (.error .EAGAIN, (e.1, e.2.tail))
    | m :: _ =>
      if e.2.headD false then (.ok m, (e.1.pop p, e.2.tail))
      else (.error .EAGAIN, (e.1, e.2.tail))
  hasMsg p e := (e.2.headD false && !(e.1.inn p).isEmpty, (e.1, e.2.tail))
  canSend _ e := (e.2.headD false, (e.1, e.2.tail))

/-! ## Delivery with a delay

What was sent is in transit until it arrives, and can be read from then on. -/

/-- The queues of every pipe, as one end sees them: what is in transit and what arrived. -/
structure Delay (π μ : Type) where
  transit : Ends π μ
  arrived : Ends π μ

namespace Delay

def empty : Delay π μ := ⟨.empty, .empty⟩

/-- The same queues as the other end sees them. -/
def flip (w : Delay π μ) : Delay π μ := ⟨w.transit.flip, w.arrived.flip⟩

variable [DecidableEq π]

/-- The oldest message in transit to this end arrives. -/
def deliver (w : Delay π μ) (p : π) : Option (Delay π μ) :=
  match w.transit.inn p with
  | [] => none
  | m :: _ =>
    some ⟨w.transit.pop p,
      { w.arrived with inn := Function.update w.arrived.inn p (w.arrived.inn p ++ [m]) }⟩

end Delay

/-- The pipe calls of one end over queues with a delay; the second component of the state
tells which pipes take a message. -/
def delayPipes [DecidableEq π] : Pipes π μ (Delay π μ × (π → Bool)) where
  send p m e :=
    if e.2 p then (.ok, { e.1 with transit := e.1.transit.push p m }, e.2) else (.again, e)
  recv p e :=
    match e.1.arrived.inn p with
    | [] => (.error .EAGAIN, e)
    | m :: _ => (.ok m, { e.1 with arrived := e.1.arrived.pop p }, e.2)
  hasMsg p e := (!(e.1.arrived.inn p).isEmpty, e)
  canSend p e := (e.2 p, e)

end MsgBroker.Model
