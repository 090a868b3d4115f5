import MsgBroker.Lib.Cells
import MsgBroker.Model.Ring

/-!
# The consistent-hash ring in its arrays

`src/distributed/ring.c` again, one level below `Ring`: the two arrays with all their cells, the
counts up to which they are used, and the loops over them.
-/

set_option autoImplicit false

namespace MsgBroker.Model

open Lib

/-- `struct mb_ring_node`. -/
structure RingNode where
  nodeId : UInt32
  addr : List UInt8
deriving DecidableEq, Repr

/-- `strncpy` into the 64 bytes of `addr`, and the terminator.  SRC: ring.c:116-117 -/
def ringAddr (addr : List UInt8) : List UInt8 :=
  let copied := (addr.takeWhile (· ≠ 0)).take 63
  copied ++ List.replicate (64 - copied.length) 0

/-- `struct mb_ring`; the capacities are the lengths of the lists. -/
structure RingMem where
  nodes : List RingNode
  nodeCount : ℕ
  vnodes : List VNode
  vnodeCount : ℕ
  virtualCount : ℕ
deriving DecidableEq, Repr

/-- What `mb_realloc` answers: the content of the new cells, or `none` for `NULL`. -/
abbrev Grow (α : Type) := Option (ℕ → α)

/-- The cells after a growth. -/
def growCells {α : Type} (cells : List α) (first : ℕ) (fresh : ℕ → α) : List α :=
  cells ++ (List.range (Ring.grown cells.length first - cells.length)).map fresh

namespace RingMem

/-- `mb_ring_init`.  SRC: ring.c:32-42 -/
def init (virtualCount : ℤ) : RingMem where
  nodes := []
  nodeCount := 0
  vnodes := []
  vnodeCount := 0
  virtualCount := if 0 < virtualCount then virtualCount.toNat else Ring.virtualNodes

/-- `mb_ring_grow_nodes`, `none` for `-1`.  SRC: ring.c:58-70 -/
def growNodes (alloc : Grow RingNode) (self : RingMem) : Option RingMem :=
  if self.nodeCount < self.nodes.length then some self
  else alloc.map fun fresh => { self with nodes := growCells self.nodes 4 fresh }

/-- `mb_ring_grow_vnodes`, `none` for `-1`.  SRC: ring.c:72-84 -/
def growVnodes (alloc : Grow VNode) (self : RingMem) : Option RingMem :=
  if self.vnodeCount < self.vnodes.length then some self
  else alloc.map fun fresh => { self with vnodes := growCells self.vnodes 16 fresh }

/-- `mb_ring_insert_vnode_sorted`.  SRC: ring.c:87-98 -/
def insertVnodeSorted (vn : VNode) (self : RingMem) : Option RingMem := do
  let i ← scanFrom (fun v => decide (v.hash < vn.hash)) self.vnodes self.vnodeCount 0
  let vnodes ← insertCell self.vnodes self.vnodeCount i vn
  some { self with vnodes := vnodes, vnodeCount := self.vnodeCount + 1 }

/-- The compaction of `vnodes` in `mb_ring_add` and `mb_ring_remove`.
SRC: ring.c:121-129, 161-169 -/
def dropVnodes (id : UInt32) (self : RingMem) : Option RingMem := do
  let (write, vnodes) ←
    compactFrom (fun v => decide (v.nodeId ≠ id)) self.vnodeCount 0 0 self.vnodes
  some { self with vnodes := vnodes, vnodeCount := write }

/-- The loop of `mb_ring_add` over the virtual nodes of the new node; `false` if a growth
failed.  SRC: ring.c:119-141 -/
def addVnodes (id : UInt32) (alloc : ℕ → Grow VNode) : List ℕ → RingMem → Option (Bool × RingMem)
  | [], self => some (true, self)
  | i :: is, self =>
    match self.growVnodes (alloc i) with
    | none => some (false, self)
    | some self' => (self'.insertVnodeSorted (vnodeOf id i)).bind (addVnodes id alloc is)

/-- The index of the member, or the number of members.  SRC: ring.c:106-109, 149-150 -/
def findNode (id : UInt32) (self : RingMem) : Option ℕ :=
  scanFrom (fun n => decide (n.nodeId ≠ id)) self.nodes self.nodeCount 0

/-- `mb_ring_add`; `nodesAlloc` and `vnodesAlloc i` answer the growth of `nodes` and the one
before the virtual node `i`.  SRC: ring.c:100-144 -/
def add (id : UInt32) (addr : List UInt8) (nodesAlloc : Grow RingNode)
    (vnodesAlloc : ℕ → Grow VNode) (self : RingMem) : Option (Rc × RingMem) := do
  let i ← self.findNode id
  if i < self.nodeCount then some (.err .EEXIST, self)
  else
    match self.growNodes nodesAlloc with
    | none => some (Ring.growFailed, self)
    | some self' =>
      let nodes ← store self'.nodes self'.nodeCount ⟨id, ringAddr addr⟩
      let (all, part) ← addVnodes id vnodesAlloc (List.range self'.virtualCount)
        { self' with nodes := nodes, nodeCount := self'.nodeCount + 1 }
      if all then some (.ok, part)
      else
        let dropped ← part.dropVnodes id
        some (Ring.growFailed, { dropped with nodeCount := dropped.nodeCount - 1 })

/-- The first half of `mb_ring_remove`: the entry of the node, if there is one.
SRC: ring.c:149-157 -/
def removeNode (id : UInt32) (self : RingMem) : Option RingMem := do
  let i ← self.findNode id
  if i < self.nodeCount then
    let nodes ← removeCell self.nodes self.nodeCount i
    some { self with nodes := nodes, nodeCount := self.nodeCount - 1 }
  else some self

/-- `mb_ring_remove`.  SRC: ring.c:146-172 -/
def remove (id : UInt32) (self : RingMem) : Option (Rc × RingMem) := do
  let self' ← self.removeNode id
  let dropped ← self'.dropVnodes id
  some (.ok, dropped)

/-- The binary search of both lookups, with wrap-around.  SRC: ring.c:185-195, 208-218 -/
def locate (key : List UInt8) (self : RingMem) : Option ℕ := do
  let lo ← searchCells (fun v => decide (v.hash < ringHash key)) self.vnodes self.vnodeCount 0
    self.vnodeCount
  some (if lo = self.vnodeCount then 0 else lo)

/-- `mb_ring_lookup`.  SRC: ring.c:174-197 -/
def lookup (key : List UInt8) (self : RingMem) : Option UInt32 :=
  if self.vnodeCount = 0 then some 0
  else do
    let lo ← self.locate key
    let v ← self.vnodes[lo]?
    some v.nodeId

/-- `mb_ring_lookup_n`: what it writes to `node_ids`, as many ids as it returns.
SRC: ring.c:199-248 -/
def lookupN (key : List UInt8) (maxCount : ℤ) (self : RingMem) : Option (List UInt32) :=
  if maxCount ≤ 0 ∨ self.vnodeCount = 0 then some []
  else do
    let lo ← self.locate key
    walkFrom VNode.nodeId self.vnodes self.vnodeCount maxCount.toNat self.vnodeCount lo []

/-- The members, in the order of the array. -/
def members (self : RingMem) : List RingNode := self.nodes.take self.nodeCount

/-- The virtual nodes on the ring. -/
def live (self : RingMem) : List VNode := self.vnodes.take self.vnodeCount

/-- The ids of the members. -/
def ids (self : RingMem) : List UInt32 := self.members.map RingNode.nodeId

end RingMem

/-- The calls that change a ring. -/
inductive RingCall where
  | add (id : UInt32) (addr : List UInt8) (nodesAlloc : Grow RingNode)
      (vnodesAlloc : ℕ → Grow VNode)
  | remove (id : UInt32)

/-- The return code and the ring after the call. -/
def RingCall.run : RingCall → RingMem → Option (Rc × RingMem)
  | .add id addr nodesAlloc vnodesAlloc, r => r.add id addr nodesAlloc vnodesAlloc
  | .remove id, r => r.remove id

/-- Any calls on a new ring. -/
def ringArrays (virtualCount : ℤ) : System RingMem RingCall where
  init := RingMem.init virtualCount
  step r call := (call.run r).map Prod.snd

end MsgBroker.Model
