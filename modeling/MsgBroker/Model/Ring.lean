import MsgBroker.Lib.Circle
import MsgBroker.Lib.Reach
import MsgBroker.Model.Pipe

/-!
# The consistent-hash ring

`src/distributed/ring.c`: every member node has `virtual_count` virtual nodes, placed on the ring by
the hash of the text `id:i`.
-/

set_option autoImplicit false

namespace MsgBroker.Model

open Lib

/-! ## The hash -/

/-- One round of the hash: `h ^= k; h *= 0x5bd1e995; h ^= h >> 15`. -/
def mixHash (h k : UInt32) : UInt32 :=
  let x := (h ^^^ k) * 0x5bd1e995
  x ^^^ (x >>> 15)

/-- Four bytes, the first the lowest. -/
def leWord (b0 b1 b2 b3 : UInt8) : UInt32 :=
  b0.toUInt32 ||| (b1.toUInt32 <<< 8) ||| (b2.toUInt32 <<< 16) ||| (b3.toUInt32 <<< 24)

/-- The loop over blocks of four bytes and the round for the bytes that are left, which is made
also when none are. -/
def hashFrom (h : UInt32) : List UInt8 → UInt32
  | b0 :: b1 :: b2 :: b3 :: rest => hashFrom (mixHash h (leWord b0 b1 b2 b3)) rest
  | [b0, b1, b2] => mixHash h (leWord b0 b1 b2 0)
  | [b0, b1] => mixHash h (leWord b0 b1 0 0)
  | [b0] => mixHash h (leWord b0 0 0 0)
  | [] => mixHash h 0

/-- `mb_ring_hash`.  SRC: ring.c:8-30 -/
def ringHash (data : List UInt8) : UInt32 := hashFrom 0x4D424452 data

/-- The text `"%u:%d"` for a node and one of its virtual nodes. -/
def vnodeName (id : UInt32) (i : ℕ) : List UInt8 :=
  (Nat.toDigits 10 id.toNat ++ ':' :: Nat.toDigits 10 i).map fun c => c.toNat.toUInt8

/-! ## The ring -/

/-- `struct mb_ring_vnode`. -/
structure VNode where
  hash : UInt32
  nodeId : UInt32
deriving DecidableEq, Repr

/-- The hash as a place on the ring. -/
def VNode.place (v : VNode) : ℕ := v.hash.toNat

/-- The virtual node `i` of a node. -/
def vnodeOf (id : UInt32) (i : ℕ) : VNode := ⟨ringHash (vnodeName id i), id⟩

/-- `struct mb_ring`; the counts are the lengths of the lists. -/
structure Ring where
  nodes : List UInt32
  nodeCap : ℕ
  vnodes : List VNode
  vnodeCap : ℕ
  virtualCount : ℕ
deriving DecidableEq, Repr

namespace Ring

/-- `MB_RING_VIRTUAL_NODES`.  SRC: ring.h:7 -/
def virtualNodes : ℕ := 150

/-- `mb_ring_init`.  SRC: ring.c:32-42 -/
def init (virtualCount : ℤ) : Ring where
  nodes := []
  nodeCap := 0
  vnodes := []
  vnodeCap := 0
  virtualCount := if 0 < virtualCount then virtualCount.toNat else virtualNodes

/-- The capacity after a growth. -/
def grown (cap first : ℕ) : ℕ := if cap = 0 then first else cap * 2

/-- `mb_ring_grow_nodes`, `none` for `-1`.  SRC: ring.c:58-71 -/
def growNodes (alloc : Bool) (self : Ring) : Option Ring :=
  if self.nodes.length < self.nodeCap then some self
  else if alloc then some { self with nodeCap := grown self.nodeCap 4 }
  else none

/-- `mb_ring_grow_vnodes`, `none` for `-1`.  SRC: ring.c:73-86 -/
def growVnodes (alloc : Bool) (self : Ring) : Option Ring :=
  if self.vnodes.length < self.vnodeCap then some self
  else if alloc then some { self with vnodeCap := grown self.vnodeCap 16 }
  else none

/-- `mb_ring_insert_vnode_sorted`: before the first virtual node whose hash is not smaller.
SRC: ring.c:88-100 -/
def insertVnodeSorted (vn : VNode) (self : Ring) : Ring :=
  { self with vnodes := insertByKey VNode.place vn self.vnodes }

/-- The compaction of `vnodes` in `mb_ring_add` and `mb_ring_remove`.
SRC: ring.c:121-129, 161-169 -/
def dropVnodes (id : UInt32) (self : Ring) : Ring :=
  { self with vnodes := self.vnodes.filter fun v => v.nodeId ≠ id }

/-- The loop of `mb_ring_add` over the virtual nodes of the new node; `false` if a growth
failed.  SRC: ring.c:119-141 -/
def addVnodes (id : UInt32) (alloc : ℕ → Bool) : List ℕ → Ring → Bool × Ring
  | [], self => (true, self)
  | i :: is, self =>
    match self.growVnodes (alloc i) with
    | none => (false, self)
    | some self' => addVnodes id alloc is (self'.insertVnodeSorted (vnodeOf id i))

/-- The error `-1` of a failed growth. -/
abbrev growFailed : Rc := .err (.sys 1)

/-- `mb_ring_add`; `nodesAlloc` and `vnodesAlloc i` answer the growth of `nodes` and the one
before the virtual node `i`.  SRC: ring.c:102-144 -/
def add (id : UInt32) (nodesAlloc : Bool) (vnodesAlloc : ℕ → Bool) (self : Ring) : Rc × Ring :=
  if id ∈ self.nodes then (.err .EEXIST, self)
  else
    match self.growNodes nodesAlloc with
    | none => (growFailed, self)
    | some self' =>
      match addVnodes id vnodesAlloc (List.range self'.virtualCount)
          { self' with nodes := self'.nodes ++ [id] } with
      | (true, done) => (.ok, done)
      | (false, part) => (growFailed, { part.dropVnodes id with nodes := part.nodes.dropLast })

/-- `mb_ring_remove`.  SRC: ring.c:146-172 -/
def remove (id : UInt32) (self : Ring) : Rc × Ring :=
  (.ok, { self.dropVnodes id with nodes := self.nodes.erase id })

/-- `mb_ring_lookup`: binary search for the first virtual node at or after the hash of the key,
with wrap-around; `0` for an empty ring.  SRC: ring.c:174-197 -/
def lookup (key : List UInt8) (self : Ring) : UInt32 :=
  let count := self.vnodes.length
  let lo := lowerBound (keyBelow VNode.place (ringHash key).toNat self.vnodes) count 0 count
  match self.vnodes[if lo = count then 0 else lo]? with
  | none => 0
  | some v => v.nodeId

end Ring

/-- The calls that change a ring. -/
inductive RingOp where
  | add (id : UInt32) (nodesAlloc : Bool) (vnodesAlloc : ℕ → Bool)
  | remove (id : UInt32)

namespace RingOp

/-- The return code and the ring after the call. -/
def run : RingOp → Ring → Rc × Ring
  | .add id nodesAlloc vnodesAlloc, r => r.add id nodesAlloc vnodesAlloc
  | .remove id, r => r.remove id

/-- The call returns `0`. -/
def Succeeds (r : Ring) (op : RingOp) : Prop := (op.run r).1 = .ok

instance (r : Ring) (op : RingOp) : Decidable (Succeeds r op) :=
  inferInstanceAs (Decidable (_ = _))

/-- An add that finds all the memory it asks for. -/
def addOk (id : UInt32) : RingOp := .add id true fun _ => true

end RingOp

/-- Any calls on a new ring. -/
def ringCalls (virtualCount : ℤ) : System Ring RingOp where
  init := Ring.init virtualCount
  step r op := some (op.run r).2

end MsgBroker.Model
