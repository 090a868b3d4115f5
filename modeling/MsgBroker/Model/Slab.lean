import Mathlib.Algebra.GroupWithZero.Nat
import Mathlib.Data.List.Basic
import Mathlib.Logic.Function.Iterate
import MsgBroker.Lib.Reach

/-!
# The slab allocator

`src/memory/slab.c`. A slab is a fixed array of blocks and an index `count`: blocks below it are
handed out, the block at it is next.
-/

set_option autoImplicit false

namespace MsgBroker.Model

open Lib

/-- `SIZE_MAX`. -/
def sizeMax : ℕ := 18446744073709551615

/-- `MB_SLAB_MAGIC`. -/
def slabMagic : ℕ := 0x534C4142

/-- `MB_SLAB_HDR_SIZE`. -/
def slabHdrSize : ℕ := 8

/-- The headers of the blocks. -/
abbrev SlabHdrs := ℕ → ℕ × ℕ

/-- `struct mb_slab`; the array has as many blocks as `capacity` says. -/
structure Slab where
  objSize : ℕ
  count : ℕ
  capacity : ℕ
  freelist : Option (List ℕ)
  fits : capacity = (freelist.getD []).length
deriving DecidableEq

namespace Slab

/-- A slab without blocks. -/
def empty (objSize : ℕ) : Slab := ⟨objSize, 0, 0, none, rfl⟩

/-- The loop of `mb_slab_init`: the blocks `mb_alloc` gives before it first fails.
SRC: slab.c:38-51 -/
def collect : ℕ → List (Option ℕ) → List ℕ
  | n + 1, some raw :: answers => raw :: collect n answers
  | _, _ => []

/-- `mb_slab_init`; `array` tells whether the array can be allocated, `answers` what
`mb_alloc` gives for the blocks.  SRC: slab.c:12-55 -/
def init (objSize capacity : ℕ) (array : Bool) (answers : List (Option ℕ)) : Slab :=
  if capacity = 0 ∨ objSize = 0 then empty objSize
  else if capacity > sizeMax / 8 then empty objSize
  else if objSize > sizeMax - slabHdrSize then empty objSize
  else if !array then empty objSize
  else
    let raws := collect capacity answers
    if raws.isEmpty then empty objSize else ⟨objSize, 0, raws.length, some raws, rfl⟩

/-- The blocks of the slab. -/
def blocks (self : Slab) : List ℕ := self.freelist.getD []

/-- The pointer handed out for a block. -/
def user (raw : ℕ) : ℕ := raw + slabHdrSize

/-- `mb_slab_alloc`.  SRC: slab.c:81-103 -/
def alloc (self : Slab) (hdr : SlabHdrs) : Option ℕ × Slab × SlabHdrs :=
  match self.freelist with
  | none => (none, self, hdr)
  | some raws =>
    if self.capacity = 0 then (none, self, hdr)
    else if self.count ≥ self.capacity then (none, self, hdr)
    else
      let raw := raws.getD self.count 0
      if raw = 0 then (none, self, hdr)
      else
        (some (user raw), { self with count := self.count + 1 },
          Function.update hdr raw (slabMagic, self.objSize % 2 ^ 32))

/-- `mb_slab_free`.  SRC: slab.c:105-133 -/
def free (obj : ℕ) (self : Slab) (hdr : SlabHdrs) : Slab × SlabHdrs :=
  match self.freelist with
  | none => (self, hdr)
  | some raws =>
    if obj = 0 then (self, hdr)
    else
      let raw := obj - slabHdrSize
      -- the walk over the array stops at the first block with this address
      match raws.findIdx? (· == raw) with
      | none => (self, hdr)
      | some i =>
        if hdr raw ≠ (slabMagic, self.objSize % 2 ^ 32) then (self, hdr)
        else
          (if i < self.count then { self with count := i } else self,
            Function.update hdr raw (0, 0))

end Slab

/-! ## A slab in use -/

/-- A slab, the headers in memory, and the objects handed out and not given back. -/
structure SlabRun where
  slab : Slab
  hdr : SlabHdrs
  live : List ℕ

/-- A call of the slab. -/
inductive SlabOp where
  | alloc
  | free (obj : ℕ)
deriving DecidableEq

namespace SlabRun

/-- What the next `mb_slab_alloc` returns. -/
def next (s : SlabRun) : Option ℕ := (s.slab.alloc s.hdr).1

/-- `mb_slab_alloc` is called. -/
def alloc (s : SlabRun) : SlabRun :=
  let (obj, slab, hdr) := s.slab.alloc s.hdr
  ⟨slab, hdr, obj.toList ++ s.live⟩

/-- `mb_slab_free` is called. -/
def free (obj : ℕ) (s : SlabRun) : SlabRun :=
  let (slab, hdr) := s.slab.free obj s.hdr
  ⟨slab, hdr, s.live.erase obj⟩

/-- One call. -/
def step (s : SlabRun) : SlabOp → Option SlabRun
  | .alloc => some s.alloc
  | .free obj => some (s.free obj)

/-- A slab just made, of the blocks `raws`; the blocks are cleared. -/
def init (objSize capacity : ℕ) (raws : List ℕ) : SlabRun :=
  ⟨.init objSize capacity true (raws.map some), fun _ => (0, 0), []⟩

/-- The slab as a labelled system. -/
def system (objSize capacity : ℕ) (raws : List ℕ) : System SlabRun SlabOp :=
  ⟨init objSize capacity raws, step⟩

/-- No block at `count` or above is in use. -/
def Compact (s : SlabRun) : Prop :=
  ∀ raw ∈ s.slab.blocks.drop s.slab.count, Slab.user raw ∉ s.live

instance (s : SlabRun) : Decidable s.Compact :=
  inferInstanceAs (Decidable (∀ raw ∈ s.slab.blocks.drop s.slab.count, Slab.user raw ∉ s.live))

/-- What is freed is in use. -/
def FreesLive (s : SlabRun) : SlabOp → Prop
  | .alloc => True
  | .free obj => obj ∈ s.live

instance (s : SlabRun) (op : SlabOp) : Decidable (s.FreesLive op) :=
  match op with
  | .alloc => instDecidableTrue
  | .free obj => inferInstanceAs (Decidable (obj ∈ s.live))

/-- Where an object is asked for, no block at `count` or above is in use. -/
def Orderly (s : SlabRun) (op : SlabOp) : Prop := s.FreesLive op ∧ (op = .alloc → s.Compact)

instance (s : SlabRun) (op : SlabOp) : Decidable (s.Orderly op) :=
  inferInstanceAs (Decidable (s.FreesLive op ∧ (op = .alloc → s.Compact)))

/-- The next `mb_slab_alloc` returns an object that is not in use, or `NULL` exactly when all
`capacity` are. -/
def Sound (capacity : ℕ) (s : SlabRun) : Prop :=
  (∀ obj, s.next = some obj → obj ∉ s.live) ∧ (s.next = none ↔ s.live.length = capacity)

end SlabRun

/-- `mb_slab_init` makes a slab of this capacity when no allocation fails. -/
def SlabServed (objSize capacity : ℕ) : Prop :=
  capacity = 0 ∨ objSize ≠ 0 ∧ capacity ≤ sizeMax / 8 ∧ objSize ≤ sizeMax - slabHdrSize

end MsgBroker.Model
