import MsgBroker.Lib.Threads
import MsgBroker.Model.Ring

/-!
# Gossip, routing and the cluster

`src/distributed/gossip.c`, `routing.c` and `cluster.c`.
-/

set_option autoImplicit false

namespace MsgBroker.Model

open Lib

/-- `enum mb_gossip_node_state`. -/
inductive NodeState where
  | unknown
  | alive
  | suspect
  | dead
deriving DecidableEq, Repr

/-- `struct mb_gossip_node`. -/
structure GossipNode where
  nodeId : UInt32
  state : NodeState
  lastSeen : UInt64
deriving DecidableEq, Repr

/-- `struct mb_gossip` with the fields of its configuration that are read. -/
structure Gossip where
  localId : UInt32
  suspectTimeout : ℤ
  deadTimeout : ℤ
  nodes : List GossipNode
deriving DecidableEq, Repr

/-- A state change as it is reported to the callback. -/
structure NodeChange where
  nodeId : UInt32
  oldState : NodeState
  newState : NodeState
deriving DecidableEq, Repr

namespace Gossip

/-- The ids in the list. -/
def ids (self : Gossip) : List UInt32 := self.nodes.map GossipNode.nodeId

/-- `mb_gossip_add_node`; a duplicate leaves the node in the list as it is.
SRC: gossip.c:97-126, 12-22 -/
def addNode (id : UInt32) (now : UInt64) (alloc : Bool) (self : Gossip) : Rc × Gossip :=
  if !alloc then (.err .ENOMEM, self)
  else if id ∈ self.ids then (.err .EEXIST, self)
  else (.ok, { self with nodes := self.nodes ++ [⟨id, .alive, now⟩] })

/-- `mb_gossip_remove_node`.  SRC: gossip.c:128-148 -/
def removeNode (id : UInt32) (self : Gossip) : Rc × Gossip :=
  if id ∈ self.ids then
    (.ok, { self with nodes := self.nodes.eraseP fun node => node.nodeId == id })
  else (.err .ENOENT, self)

/-- The suspect timeout in use.  SRC: gossip.c:197-198 -/
def suspectMs (self : Gossip) : ℕ :=
  if 0 < self.suspectTimeout then self.suspectTimeout.toNat else 1000 * 3

/-- The dead timeout in use.  SRC: gossip.c:199-200 -/
def deadMs (self : Gossip) : ℕ :=
  if 0 < self.deadTimeout then self.deadTimeout.toNat else 1000 * 10

/-- The state of a node after a tick: both tests are made, so that a node can go from alive to
dead at once.  SRC: gossip.c:227-240 -/
def nextState (self : Gossip) (now : UInt64) (node : GossipNode) : NodeState :=
  let elapsed := (now - node.lastSeen).toNat
  let state := if node.state = .alive ∧ self.suspectMs < elapsed then .suspect else node.state
  if state = .suspect ∧ self.deadMs < elapsed then .dead else state

/-- One round of the loop of `mb_gossip_tick`; the local node is skipped. -/
def tickNode (self : Gossip) (now : UInt64) (node : GossipNode) : GossipNode :=
  if node.nodeId = self.localId then node
  else { node with state := self.nextState now node }

/-- What a round of the loop has to report. -/
def changeOf (self : Gossip) (now : UInt64) (node : GossipNode) : Option NodeChange :=
  if node.state = (self.tickNode now node).state then none
  else some ⟨node.nodeId, node.state, (self.tickNode now node).state⟩

/-- `MB_GOSSIP_MAX_NODES`, the size of the array of changes.  SRC: gossip.h:13 -/
def maxNodes : ℕ := 256

/-- The locked part of `mb_gossip_tick` and the changes it hands to the callback.
SRC: gossip.c:194-261 -/
def tick (now : UInt64) (self : Gossip) : Gossip × List NodeChange :=
  ({ self with nodes := self.nodes.map (self.tickNode now) },
    (self.nodes.filterMap (self.changeOf now)).take maxNodes)

end Gossip

/-- `struct mb_cluster`: the two views of the members. -/
structure Cluster where
  gossip : Gossip
  ring : Ring
deriving DecidableEq, Repr

/-- The arguments of `mb_cluster_join_node`, the clock reading and the answers of the
allocations inside it. -/
structure Join where
  id : UInt32
  now : UInt64
  gossipAlloc : Bool
  nodesAlloc : Bool
  vnodesAlloc : ℕ → Bool

namespace Cluster

/-- `mb_cluster_init`: the gossip list starts with the local node, the ring without it, and both
timeouts are the defaults.  SRC: cluster.c:24-54, gossip.c:29-42, routing.c:3-7 -/
def init (id : UInt32) (now : UInt64) (alloc : Bool) : Cluster where
  gossip := (Gossip.addNode id now alloc ⟨id, 0, 0, []⟩).2
  ring := Ring.init Ring.virtualNodes

/-- The first half of `mb_cluster_join_node`. -/
def joinGossip (j : Join) (self : Cluster) : Rc × Cluster :=
  let (rc, gossip) := self.gossip.addNode j.id j.now j.gossipAlloc
  (rc, { self with gossip := gossip })

/-- The second half of `mb_cluster_join_node`. -/
def joinRing (j : Join) (self : Cluster) : Rc × Cluster :=
  let (rc, ring) := self.ring.add j.id j.nodesAlloc j.vnodesAlloc
  (rc, { self with ring := ring })

/-- `mb_cluster_join_node`: a node that gossip knows already is still added to the ring.
SRC: cluster.c:92-102 -/
def joinNode (j : Join) (self : Cluster) : Rc × Cluster :=
  match self.joinGossip j with
  | (.ok, self') => self'.joinRing j
  | (.err .EEXIST, self') => self'.joinRing j
  | (.err e, self') => (.err e, self')

/-- The first half of `mb_cluster_leave_node`. -/
def leaveGossip (id : UInt32) (self : Cluster) : Cluster :=
  { self with gossip := (self.gossip.removeNode id).2 }

/-- The second half of `mb_cluster_leave_node`. -/
def leaveRing (id : UInt32) (self : Cluster) : Cluster :=
  { self with ring := (self.ring.remove id).2 }

/-- `mb_cluster_leave_node`.  SRC: cluster.c:104-109 -/
def leaveNode (id : UInt32) (self : Cluster) : Cluster :=
  (self.leaveGossip id).leaveRing id

/-- `mb_cluster_on_gossip_change`.  SRC: cluster.c:12-22 -/
def onGossipChange (self : Cluster) (change : NodeChange) : Cluster :=
  if change.newState = .dead then self.leaveNode change.nodeId else self

/-- `mb_gossip_tick` with the callback of the cluster.  SRC: gossip.c:194-261 -/
def tick (now : UInt64) (self : Cluster) : Cluster :=
  let (gossip, changes) := self.gossip.tick now
  changes.foldl onGossipChange { self with gossip := gossip }

/-- `mb_cluster_route_key`.  SRC: cluster.c:111-115 -/
def routeKey (key : List UInt8) (self : Cluster) : UInt32 := self.ring.lookup key

end Cluster

/-! ## Runs of one cluster -/

/-- A cluster with the ids that `mb_cluster_join_node` has returned `0` for. -/
structure JoinRun where
  cluster : Cluster
  joined : List UInt32

/-- Any joins, one after the other. -/
def clusterJoins (id : UInt32) (now : UInt64) (alloc : Bool) : System JoinRun Join where
  init := ⟨Cluster.init id now alloc, []⟩
  step s j :=
    let (rc, cluster) := s.cluster.joinNode j
    some ⟨cluster, if rc = .ok then s.joined ++ [j.id] else s.joined⟩

/-- What happens to a cluster in time. -/
inductive ClusterEvent where
  /-- `mb_cluster_on_discovery`. -/
  | announce (j : Join)
  /-- `mb_gossip_tick`. -/
  | tick (now : UInt64)

/-- The clock reading of an event. -/
def ClusterEvent.time : ClusterEvent → UInt64
  | .announce j => j.now
  | .tick now => now

/-- A cluster with its history: the time of the last event, for every node the times of its
first and of its last announcement that found memory for the gossip list, and whether an
announcement has put it into the ring. -/
structure TimedRun where
  cluster : Cluster
  clock : UInt64
  joinedAt : UInt32 → Option UInt64
  announcedAt : UInt32 → Option UInt64
  routed : UInt32 → Bool

namespace TimedRun

/-- The history after an announcement. -/
def announce (j : Join) (s : TimedRun) : TimedRun :=
  let (rc, cluster) := s.cluster.joinNode j
  { cluster := cluster
    clock := j.now
    joinedAt := if j.gossipAlloc then
        Function.update s.joinedAt j.id ((s.joinedAt j.id).or (some j.now))
      else s.joinedAt
    announcedAt := if j.gossipAlloc then Function.update s.announcedAt j.id (some j.now)
      else s.announcedAt
    routed := if rc = .ok then Function.update s.routed j.id true else s.routed }

/-- The history after a tick. -/
def tick (now : UInt64) (s : TimedRun) : TimedRun :=
  { s with cluster := s.cluster.tick now, clock := now }

end TimedRun

/-- A timed trace of announcements and ticks on one cluster. -/
def clusterTrace (id : UInt32) (now : UInt64) (alloc : Bool) : System TimedRun ClusterEvent where
  init :=
    { cluster := Cluster.init id now alloc
      clock := now
      joinedAt := fun x => if x = id ∧ alloc then some now else none
      announcedAt := fun x => if x = id ∧ alloc then some now else none
      routed := fun _ => false }
  step s
    | .announce j => some (s.announce j)
    | .tick now => some (s.tick now)

/-! ## Joins and leaves by several threads -/

/-- Where a thread is: between the two halves of a join or a leave. -/
inductive MemberPc where
  | idle
  | joining (id : UInt32)
  | leaving (id : UInt32)
deriving DecidableEq, Repr

/-- What a thread does: it makes a call, or it goes on with its call. -/
inductive MemberAct where
  | join (id : UInt32) (now : UInt64)
  | leave (id : UInt32)
  | run
deriving DecidableEq, Repr

namespace MemberThreads

variable {T : Type}

/-- A join that finds all the memory it asks for. -/
def joinOk (id : UInt32) (now : UInt64) : Join := ⟨id, now, true, true, fun _ => true⟩

/-- Where a join goes on after its first half. -/
def afterGossip (id : UInt32) : Rc × Cluster → MemberPc × Cluster
  | (.ok, c) => (.joining id, c)
  | (.err .EEXIST, c) => (.joining id, c)
  | (.err _, c) => (.idle, c)

/-- The program of every thread; the operations on the gossip list and on the ring are one step
each, and allocations succeed.  SRC: cluster.c:92-109 -/
def program (_me : T) : MemberAct → MemberPc → Cluster → Option (MemberPc × Cluster)
  | .join id now, .idle, c => some (afterGossip id (c.joinGossip (joinOk id now)))
  | .run, .joining id, c => some (.idle, (c.joinRing (joinOk id 0)).2)
  | .leave id, .idle, c => some (.leaving id, c.leaveGossip id)
  | .run, .leaving id, c => some (.idle, c.leaveRing id)
  | _, _, _ => none

/-- The threads in any order, on a new cluster. -/
def system [DecidableEq T] (id : UInt32) (now : UInt64) :
    System (Threads T Cluster MemberPc) (T × MemberAct) :=
  interleave program ⟨Cluster.init id now true, fun _ => .idle⟩

end MemberThreads

end MsgBroker.Model
