import MsgBroker.Lib.Memory
import MsgBroker.Model.Slab

/-!
# The message pool

`src/memory/pool.c` over `slab.c` and `arena.c`.
-/

set_option autoImplicit false

namespace MsgBroker.Model

open Lib

/-! ## The arena -/

/-- `sizeof (struct mb_arena_block)`. -/
def arenaBlockHdr : ℕ := 24

/-- `struct mb_arena_block` at its address. -/
structure ArenaBlock where
  addr : ℕ
  used : ℕ
  size : ℕ
deriving DecidableEq, Repr

/-- The address of `blk->data`. -/
def ArenaBlock.data (blk : ArenaBlock) : ℕ := blk.addr + arenaBlockHdr

/-- `struct mb_arena` with its list of blocks. -/
structure Arena where
  blocks : List ArenaBlock
  blockSize : ℕ
deriving DecidableEq, Repr

namespace Arena

/-- `mb_arena_block_new`.  SRC: arena.c:8-23 -/
def blockNew (size : ℕ) (answer : Option ℕ) : Option ArenaBlock :=
  if sizeMax - arenaBlockHdr < size then none else answer.map fun addr => ⟨addr, 0, size⟩

/-- `mb_arena_init`.  SRC: arena.c:25-29 -/
def init (blockSize : ℕ) (answer : Option ℕ) : Arena :=
  let blockSize := if 0 < blockSize then blockSize else 4096
  ⟨(blockNew blockSize answer).toList, blockSize⟩

/-- A piece of one block.  SRC: arena.c:46-50 -/
def take (size : ℕ) (blk : ArenaBlock) : Option (ℕ × ArenaBlock) :=
  if blk.used ≤ blk.size ∧ size ≤ blk.size - blk.used then
    some (blk.data + blk.used, { blk with used := blk.used + size })
  else none

/-- The size of a block that is made for a piece of this size. -/
def newSize (blockSize size : ℕ) : ℕ := if blockSize < size then size else blockSize

/-- The loop of `mb_arena_alloc`: the last block gets a successor, which the loop tries next.
SRC: arena.c:44-56 -/
def allocLoop (blockSize size : ℕ) (answer : Option ℕ) :
    List ArenaBlock → Option ℕ × List ArenaBlock
  | [] => (none, [])
  | [blk] =>
    match take size blk with
    | some (p, blk') => (some p, [blk'])
    | none =>
      match blockNew (newSize blockSize size) answer with
      | none => (none, [blk])
      | some next =>
        match take size next with
        | some (p, next') => (some p, [blk, next'])
        -- not reached: the new block is long enough
        | none => (none, [blk, next])
  | blk :: rest =>
    match take size blk with
    | some (p, blk') => (some p, blk' :: rest)
    | none =>
      let (p, rest') := allocLoop blockSize size answer rest
      (p, blk :: rest')

/-- `mb_arena_alloc`.  SRC: arena.c:42-57 -/
def alloc (size : ℕ) (answer : Option ℕ) (self : Arena) : Option ℕ × Arena :=
  let (p, blocks) := allocLoop self.blockSize size answer self.blocks
  (p, { self with blocks := blocks })

end Arena

/-! ## Slab headers in memory -/

/-- The headers of the slab as they are in memory: two words of 32 bits. -/
def slabHdrs (mem : Mem) : SlabHdrs := fun raw => (mem.loadNat raw 4, mem.loadNat (raw + 4) 4)

/-- A header is written. -/
def putSlabHdr (mem : Mem) (raw : ℕ) (hdr : ℕ × ℕ) : Mem :=
  (mem.storeNat raw 4 hdr.1).storeNat (raw + 4) 4 hdr.2

/-! ## The pool -/

/-- `sizeof (struct mb_msg)`: three chunkrefs of 72 bytes. -/
def msgSize : ℕ := 216

/-- `MB_ARENA_MSG_MAGIC`. -/
def arenaMsgMagic : ℕ := 0x41524D5347524F57

/-- `MB_ARENA_MSG_HDR`. -/
def arenaMsgHdr : ℕ := 8

/-- `struct mb_mempool`. -/
structure Mempool where
  arena : Arena
  msgSlab : Slab

/-- A message that was handed out, and whether the arena served it. -/
structure PoolMsg where
  addr : ℕ
  arena : Bool
deriving DecidableEq, Repr

/-- Which way `mb_mempool_free_msg` goes. -/
inductive FreePath where
  | null
  | arena
  | slab
deriving DecidableEq, Repr

namespace Mempool

/-- `mb_mempool_init`.  SRC: pool.c:28-33 -/
def init (block : Option ℕ) (array : Bool) (answers : List (Option ℕ)) : Mempool :=
  ⟨.init 65536 block, .init msgSize 1024 array answers⟩

/-- `mb_mempool_alloc_msg`.  SRC: pool.c:42-68 -/
def allocMsg (answer : Option ℕ) (self : Mempool) (mem : Mem) :
    Option PoolMsg × Mempool × Mem :=
  match self.msgSlab.alloc (slabHdrs mem) with
  | (some p, slab, hdrs) =>
    -- the one header the call writes is that of the block it returns
    let raw := p - slabHdrSize
    (some ⟨p, false⟩, { self with msgSlab := slab }, putSlabHdr mem raw (hdrs raw))
  | (none, slab, _) =>
    let self := { self with msgSlab := slab }
    let total := arenaMsgHdr + msgSize
    if sizeMax - arenaMsgHdr < msgSize then (none, self, mem)
    else
      match self.arena.alloc total answer with
      | (none, arena) => (none, { self with arena := arena }, mem)
      | (some raw, arena) =>
        (some ⟨raw + arenaMsgHdr, true⟩, { self with arena := arena },
          (mem.storeNat raw 8 arenaMsgMagic).storeNat (raw + 8) 8 msgSize)

/-- The tests of `mb_mempool_free_msg`.  SRC: pool.c:72-79 -/
def freePath (mem : Mem) (msg : ℕ) : FreePath :=
  if msg = 0 then .null
  else
    let hdr := msg - arenaMsgHdr
    if mem.loadNat hdr 8 = arenaMsgMagic ∧ mem.loadNat (hdr + 8) 8 = msgSize then .arena else .slab

/-- `mb_mempool_free_msg`.  SRC: pool.c:70-89 -/
def freeMsg (msg : ℕ) (self : Mempool) (mem : Mem) : Mempool × Mem :=
  match freePath mem msg with
  | .null => (self, mem)
  | .arena =>
    let hdr := msg - arenaMsgHdr
    (self, (mem.storeNat hdr 8 0).storeNat (hdr + 8) 8 0)
  | .slab =>
    -- the one header the call may write is that of the message
    let (slab, hdrs) := self.msgSlab.free msg (slabHdrs mem)
    let raw := msg - slabHdrSize
    ({ self with msgSlab := slab }, putSlabHdr mem raw (hdrs raw))

/-- The memory of the pool: addresses and lengths of its blocks. -/
def regions (self : Mempool) : List (ℕ × ℕ) :=
  self.msgSlab.blocks.map (fun raw => (raw, slabHdrSize + msgSize)) ++
    self.arena.blocks.map fun blk => (blk.addr, arenaBlockHdr + blk.size)

end Mempool

/-- Two pieces of memory do not overlap. -/
def Apart (r r' : ℕ × ℕ) : Prop := r.1 + r.2 ≤ r'.1 ∨ r'.1 + r'.2 ≤ r.1

instance (r r' : ℕ × ℕ) : Decidable (Apart r r') := inferInstanceAs (Decidable (_ ∨ _))

/-! ## A pool in use -/

/-- A pool, the memory, and the messages handed out and not given back. -/
structure PoolRun where
  pool : Mempool
  mem : Mem
  live : List PoolMsg

/-- A call, with the answer of `mb_alloc` to a new arena block; a byte the user writes into a
message; a byte the rest of the program writes. -/
inductive PoolOp where
  | alloc (answer : Option ℕ)
  | free (msg : ℕ)
  | write (msg i : ℕ) (byte : UInt8)
  | elsewhere (a : ℕ) (byte : UInt8)

namespace PoolRun

/-- `mb_mempool_alloc_msg` is called. -/
def alloc (answer : Option ℕ) (s : PoolRun) : PoolRun :=
  let (msg, pool, mem) := s.pool.allocMsg answer s.mem
  ⟨pool, mem, msg.toList ++ s.live⟩

/-- `mb_mempool_free_msg` is called. -/
def free (msg : ℕ) (s : PoolRun) : PoolRun :=
  let (pool, mem) := s.pool.freeMsg msg s.mem
  ⟨pool, mem, s.live.eraseP fun m => m.addr == msg⟩

/-- One step. -/
def step (s : PoolRun) : PoolOp → Option PoolRun
  | .alloc answer => some (s.alloc answer)
  | .free msg => some (s.free msg)
  | .write msg i byte => some { s with mem := Function.update s.mem (msg + i) byte }
  | .elsewhere a byte => some { s with mem := Function.update s.mem a byte }

/-- A pool just made, in any memory. -/
def system (pool : Mempool) (mem : Mem) : System PoolRun PoolOp := ⟨⟨pool, mem, []⟩, step⟩

/-- What is freed or written to is a live message, `mb_alloc` gives memory that is not in use, and
the rest of the program stays out of the memory of the pool. -/
def Allowed (s : PoolRun) : PoolOp → Prop
  | .alloc answer => ∀ addr, answer = some addr → ∀ r ∈ s.pool.regions,
      Apart r (addr, arenaBlockHdr +
        Arena.newSize s.pool.arena.blockSize (arenaMsgHdr + msgSize))
  | .free msg => ∃ m ∈ s.live, m.addr = msg
  | .write msg i _ => (∃ m ∈ s.live, m.addr = msg) ∧ i < msgSize
  | .elsewhere a _ => ∀ r ∈ s.pool.regions, a < r.1 ∨ r.1 + r.2 ≤ a

end PoolRun

end MsgBroker.Model
