import MsgBroker.Model.Mempool

/-!
# The arena in use

Any sequence of `mb_arena_alloc` and `mb_arena_reset` on one arena of `src/memory/arena.c`, with the
pieces of memory that were handed out since the last reset.
-/

set_option autoImplicit false

namespace MsgBroker.Model

open Lib

/-- `mb_arena_reset`.  SRC: arena.c:59-66 -/
def Arena.reset (self : Arena) : Arena :=
  { self with blocks := self.blocks.map fun blk => { blk with used := 0 } }

/-- The memory of a block: its address and its length with the header. -/
def ArenaBlock.extent (blk : ArenaBlock) : ℕ × ℕ := (blk.addr, arenaBlockHdr + blk.size)

/-- An arena, and the pieces handed out since it was made or reset last, with their sizes. -/
structure ArenaRun where
  arena : Arena
  regions : List (ℕ × ℕ)
deriving DecidableEq, Repr

/-- A call on the arena. -/
inductive ArenaOp where
  | alloc (size : ℕ) (answer : Option ℕ)
  | reset
deriving DecidableEq, Repr

namespace ArenaRun

/-- `mb_arena_alloc` is called. -/
def alloc (size : ℕ) (answer : Option ℕ) (s : ArenaRun) : ArenaRun :=
  let (p, arena) := s.arena.alloc size answer
  ⟨arena, s.regions ++ (p.map fun p => (p, size)).toList⟩

/-- One call. -/
def step (s : ArenaRun) : ArenaOp → Option ArenaRun
  | .alloc size answer => some (s.alloc size answer)
  | .reset => some ⟨s.arena.reset, []⟩

/-- An arena that `mb_arena_init` made; `answer` is that of `mb_alloc` to its first block. -/
def system (blockSize : ℕ) (answer : Option ℕ) : System ArenaRun ArenaOp :=
  ⟨⟨.init blockSize answer, []⟩, step⟩

/-- The memory that `mb_alloc` gives for a new block is not that of another block. -/
def Allowed (s : ArenaRun) : ArenaOp → Prop
  | .alloc size answer => ∀ addr ∈ answer, ∀ blk ∈ s.arena.blocks,
      Apart blk.extent (addr, arenaBlockHdr + Arena.newSize s.arena.blockSize size)
  | .reset => True

instance (s : ArenaRun) : (op : ArenaOp) → Decidable (s.Allowed op)
  | .alloc size answer => inferInstanceAs (Decidable (∀ addr ∈ answer, ∀ blk ∈ s.arena.blocks,
      Apart blk.extent (addr, arenaBlockHdr + Arena.newSize s.arena.blockSize size)))
  | .reset => .isTrue trivial

end ArenaRun

end MsgBroker.Model
