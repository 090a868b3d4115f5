import MsgBroker.Lib.Reach
import MsgBroker.Model.MsgQueue

/-!
# A queue in use

One inproc queue over time. Every call is one critical section under the mutex of the queue, so the
calls of any number of threads are a sequence.
-/

set_option autoImplicit false

namespace MsgBroker.Model

open Lib

/-- A queue, what was pushed into it, and what was popped from it. -/
structure MsgQueueRun (μ : Type) where
  queue : MsgQueue μ
  pushed : List μ
  popped : List μ

/-- A call on the queue; a push comes with the answers of its two allocations. -/
inductive MsgQueueOp (μ : Type) where
  | push (alloc allocNext : Bool) (m : μ)
  | pop
  | setMaxmem (maxmem : UInt64)

namespace MsgQueueRun

variable {μ : Type} (size : μ → UInt64)

/-- One call. -/
def step (s : MsgQueueRun μ) : MsgQueueOp μ → Option (MsgQueueRun μ)
  | .push alloc allocNext m => (s.queue.push size alloc allocNext m).map fun r =>
      { s with
        queue := r.2
        pushed := match r.1 with
          | .ok _ => s.pushed ++ [m]
          | .error _ => s.pushed }
  | .pop => (s.queue.pop size).map fun r =>
      { s with queue := r.2, popped := s.popped ++ r.1.toList }
  | .setMaxmem maxmem => some { s with queue := s.queue.setMaxmem maxmem }

/-- The queue as a labelled system, created with this cap. -/
def system (maxmem : UInt64) : System (MsgQueueRun μ) (MsgQueueOp μ) :=
  ⟨⟨MsgQueue.init maxmem, [], []⟩, step size⟩

/-- `MB_RCVBUF` is positive, so no call sets the cap to `0`. -/
def Capped (_ : MsgQueueRun μ) : MsgQueueOp μ → Prop
  | .setMaxmem maxmem => maxmem ≠ 0
  | _ => True

instance (s : MsgQueueRun μ) : (op : MsgQueueOp μ) → Decidable (Capped s op)
  | .push _ _ _ => isTrue trivial
  | .pop => isTrue trivial
  | .setMaxmem maxmem => inferInstanceAs (Decidable (maxmem ≠ 0))

/-- The size of a pushed body is at most the cap, and the cap is not set below a size that failed
and is still remembered. -/
def WithinCap (s : MsgQueueRun μ) : MsgQueueOp μ → Prop
  | .push _ _ m => MsgQueue.charge size m ≤ s.queue.maxmem.toNat
  | .pop => True
  | .setMaxmem maxmem => s.queue.pendingSz ≤ maxmem

instance (s : MsgQueueRun μ) : (op : MsgQueueOp μ) → Decidable (WithinCap size s op)
  | .push _ _ m => inferInstanceAs (Decidable (MsgQueue.charge size m ≤ s.queue.maxmem.toNat))
  | .pop => isTrue trivial
  | .setMaxmem maxmem => inferInstanceAs (Decidable (s.queue.pendingSz ≤ maxmem))

end MsgQueueRun

end MsgBroker.Model
