import MsgBroker.Model.Cluster

/-!
# Gossip ticks with their callback and their clock

`src/distributed/gossip.c` once more, with what `Gossip.tick` leaves out.
-/

set_option autoImplicit false

namespace MsgBroker.Model

open Lib

namespace Gossip

/-- The loop of `mb_gossip_tick` over the nodes, with the array of changes.
SRC: gossip.c:219-247 -/
def tickLoop (self : Gossip) (now : UInt64) :
    List GossipNode → List NodeChange → List GossipNode × List NodeChange
  | [], changes => ([], changes)
  | node :: rest, changes =>
    if node.nodeId = self.localId then
      let (rest', changes') := tickLoop self now rest changes
      (node :: rest', changes')
    else
      let state := self.nextState now node
      let (rest', changes') := tickLoop self now rest
        (if node.state ≠ state ∧ changes.length < maxNodes then
          changes ++ [⟨node.nodeId, node.state, state⟩] else changes)
      ({ node with state := state } :: rest', changes')

/-- `mb_gossip_tick` with a callback that leaves the list alone: the list afterwards and the
calls of the callback in order.  SRC: gossip.c:194-261 -/
def tickReport (now : UInt64) (self : Gossip) : Gossip × List NodeChange :=
  let (nodes, changes) := self.tickLoop now self.nodes []
  ({ self with nodes := nodes }, changes)

/-- `mb_gossip_init`.  SRC: gossip.c:29-42 -/
def init (localId : UInt32) (suspectTimeout deadTimeout : ℤ) (now : UInt64) (alloc : Bool) :
    Gossip :=
  (addNode localId now alloc ⟨localId, suspectTimeout, deadTimeout, []⟩).2

/-- The nodes whose state is not the same in two versions of the list, with both states. -/
def transitions (before after : List GossipNode) : List NodeChange :=
  (before.zip after).filterMap fun p =>
    if p.1.state = p.2.state then none else some ⟨p.1.nodeId, p.1.state, p.2.state⟩

end Gossip

/-- The calls that change a gossip list. -/
inductive GossipCall where
  | add (id : UInt32) (now : UInt64) (alloc : Bool)
  | remove (id : UInt32)
  | tick (now : UInt64)

/-- Any calls on a new gossip list. -/
def gossipCalls (init : Gossip) : System Gossip GossipCall where
  init := init
  step g
    | .add id now alloc => some (g.addNode id now alloc).2
    | .remove id => some (g.removeNode id).2
    | .tick now => some (g.tickReport now).1

/-! ## Clock readings and locked regions of several threads -/

/-- `mb_clock_now`, in microseconds, at a time in nanoseconds.  SRC: clock.c:9-23 -/
def clockNow (t : ℕ) : UInt64 := UInt64.ofNat (t / 1000)

/-- `mb_clock_ms`.  SRC: clock.c:30-33 -/
def clockMs (t : ℕ) : UInt64 := clockNow t / 1000

/-- Nanoseconds in a millisecond. -/
def nsPerMs : ℕ := 1000000

/-- The list, the time of the last step, and for every node the time of the clock reading in its
`mb_gossip_node_init`. -/
structure GossipClock where
  gossip : Gossip
  time : ℕ
  readAt : UInt32 → ℕ

/-- Where a thread is: between its clock reading and the lock. -/
inductive GossipPc where
  | idle
  | adding (id : UInt32) (read : ℕ)
  | ticking (read : ℕ)
deriving DecidableEq, Repr

/-- What a thread does: it makes a call, up to the clock reading, or it takes the lock. -/
inductive GossipAct where
  | add (id : UInt32)
  | tick
  | lock
deriving DecidableEq, Repr

namespace GossipThreads

variable {T : Type}

/-- The list after the locked region of `mb_gossip_add_node`, at the time `t`. -/
def lockedAdd (id : UInt32) (read t : ℕ) (g : GossipClock) : GossipClock :=
  let (rc, gossip) := g.gossip.addNode id (clockMs read) true
  ⟨gossip, t, if rc = .ok then Function.update g.readAt id read else g.readAt⟩

/-- The list after the locked region of `mb_gossip_tick`, at the time `t`. -/
def lockedTick (read t : ℕ) (g : GossipClock) : GossipClock :=
  { g with gossip := (g.gossip.tickReport (clockMs read)).1, time := t }

/-- The program of every thread; an action comes with its time.  A call that finds no memory
does nothing and is left out.  SRC: gossip.c:97-126, 194-252 -/
def program (_me : T) : GossipAct × ℕ → GossipPc → GossipClock → Option (GossipPc × GossipClock)
  | (.add id, t), .idle, g => some (.adding id t, { g with time := t })
  | (.tick, t), .idle, g => some (.ticking t, { g with time := t })
  | (.lock, t), .adding id read, g => some (.idle, lockedAdd id read t g)
  | (.lock, t), .ticking read, g => some (.idle, lockedTick read t g)
  | _, _, _ => none

/-- The threads in any order, on a list made at the time `t₀`. -/
def system [DecidableEq T] (localId : UInt32) (suspectTimeout deadTimeout : ℤ) (t₀ : ℕ) :
    System (Threads T GossipClock GossipPc) (T × GossipAct × ℕ) :=
  interleave program
    ⟨⟨Gossip.init localId suspectTimeout deadTimeout (clockMs t₀) true, t₀, fun _ => t₀⟩,
      fun _ => .idle⟩

/-- Time goes forward, and the clock does not wrap around. -/
def TimeForward (s : Threads T GossipClock GossipPc) (l : T × GossipAct × ℕ) : Prop :=
  s.shared.time ≤ l.2.2 ∧ l.2.2 / 1000 < 2 ^ 64

instance (s : Threads T GossipClock GossipPc) (l : T × GossipAct × ℕ) :
    Decidable (TimeForward s l) :=
  inferInstanceAs (Decidable (_ ∧ _))

/-- A tick that has read the clock at `read` and takes the lock at the time `t` changes no node
before its timeout. -/
def OnTime (g : GossipClock) (read t : ℕ) : Prop :=
  ∀ c ∈ Gossip.transitions g.gossip.nodes (g.gossip.tickReport (clockMs read)).1.nodes,
    (c.newState = .suspect → g.gossip.suspectMs * nsPerMs < t - g.readAt c.nodeId) ∧
    (c.newState = .dead → g.gossip.deadMs * nsPerMs < t - g.readAt c.nodeId)

end GossipThreads

end MsgBroker.Model
