import MsgBroker.Lib.ChunkQueue
import MsgBroker.Model.Pipe

/-!
# The queue of an inproc pipe

`src/transport/inproc/msgqueue.c`. Every function is one critical section under the mutex of the
queue.
-/

set_option autoImplicit false

namespace MsgBroker.Model

open Lib

/-- `MB_MSGQUEUE_GRANULARITY`.  SRC: msgqueue.h:9 -/
abbrev granularity : ℕ := 64

/-- `struct mb_msgqueue`; `store` has the two cursors and the chunks between them.
SRC: msgqueue.h:9-33 -/
structure MsgQueue (μ : Type) where
  store : ChunkQueue granularity μ
  count : ℕ
  mem : UInt64
  maxmem : UInt64
  pendingSz : UInt64
  cache : Option (Vector (Option μ) granularity)
deriving DecidableEq, Repr

namespace MsgQueue

variable {μ : Type} (size : μ → UInt64)

/-- `mb_msgqueue_fits_locked`.  SRC: msgqueue.c:7-12 -/
def fitsLocked (sz : UInt64) (self : MsgQueue μ) : Bool :=
  self.maxmem = 0 || (sz ≤ self.maxmem && self.mem ≤ self.maxmem - sz)

/-- `mb_msgqueue_check_sz`: an empty body is charged with one byte.  SRC: msgqueue.c:15-20 -/
def checkSz (sz : UInt64) (self : MsgQueue μ) : UInt64 :=
  if 0 < self.maxmem ∧ sz = 0 then 1 else sz

/-- What a message is charged with under a cap. -/
def charge (m : μ) : ℕ := max 1 (size m).toNat

/-- `mb_msgqueue_init`.  SRC: msgqueue.c:22-34 -/
def init (maxmem : UInt64) : MsgQueue μ where
  store := ChunkQueue.empty
  count := 0
  mem := 0
  maxmem := maxmem
  pendingSz := 0
  cache := none

/-- What three of the functions do before they unlock: a size that failed and fits now is
forgotten. -/
def clearPending (self : MsgQueue μ) : MsgQueue μ :=
  if self.pendingSz ≠ 0 ∧ self.fitsLocked self.pendingSz then { self with pendingSz := 0 }
  else self

/-- `mb_msgqueue_set_maxmem`.  SRC: msgqueue.c:36-43 -/
def setMaxmem (maxmem : UInt64) (self : MsgQueue μ) : MsgQueue μ :=
  clearPending { self with maxmem := maxmem }

/-- `mb_msgqueue_empty`.  SRC: msgqueue.c:75-83 -/
def empty (self : MsgQueue μ) : Bool := self.count = 0

/-- `mb_msgqueue_can_push_sz`.  SRC: msgqueue.c:85-93 -/
def canPushSz (sz : UInt64) (self : MsgQueue μ) : Bool := self.fitsLocked (self.checkSz sz)

/-- `mb_msgqueue_can_push`: is there room for the size that failed last, or for one byte?
SRC: msgqueue.c:95-107 -/
def canPush (self : MsgQueue μ) : Bool :=
  if self.pendingSz ≠ 0 then self.fitsLocked self.pendingSz else self.fitsLocked 1

/-- The messages in the queue, the oldest first. -/
def messages (self : MsgQueue μ) : List μ := self.store.stored

/-- `mb_msgqueue_alloc_chunk`: the cached chunk, or a new one.  SRC: msgqueue.c:109-124 -/
def allocChunk (alloc : Bool) (self : MsgQueue μ) :
    Option (Vector (Option μ) granularity × MsgQueue μ) :=
  match self.cache with
  | some chunk => some (chunk, { self with cache := none })
  | none => if alloc then some (Vector.replicate granularity none, self) else none

/-- A writable slot: `mb_msgqueue_push` links a chunk if there is none.
SRC: msgqueue.c:148-168 -/
def writable (alloc : Bool) (self : MsgQueue μ) : Option (MsgQueue μ) :=
  if self.store.Full then
    (self.allocChunk alloc).map fun r => { r.2 with store := self.store.addChunk r.1 }
  else some self

/-- The next chunk is linked as soon as the last one is full, if there is memory.
SRC: msgqueue.c:178-187 -/
def prepareNext (alloc : Bool) (self : MsgQueue μ) : MsgQueue μ :=
  if self.store.outPos = granularity then
    match self.allocChunk alloc with
    | some (chunk, self') => { self' with store := self.store.addChunk chunk }
    | none => self
  else self

/-- `mb_msgqueue_push`, with the answers of its two allocations; it returns `1` if the queue was
empty, which is `true` here, and `0` if not.  SRC: msgqueue.c:126-191 -/
def push (alloc allocNext : Bool) (m : μ) (self : MsgQueue μ) :
    Option (Except Errno Bool × MsgQueue μ) :=
  let sz := self.checkSz (size m)
  if self.fitsLocked sz then
    let wasEmpty := self.empty
    match self.writable alloc with
    | none => some (.error .ENOMEM, self)
    | some self' => (self'.store.put m).map fun store =>
        let self'' := clearPending
          { self' with store := store, count := self'.count + 1, mem := self'.mem + sz }
        (.ok wasEmpty, self''.prepareNext allocNext)
  else
    some (.error .EAGAIN,
      if 0 < self.maxmem then { self with pendingSz := sz } else self)

/-- `mb_msgqueue_pop`; the message is `none` if there is none to pop.  A chunk that leaves the
chain is kept in the cache if that is free.  SRC: msgqueue.c:193-233 -/
def pop (self : MsgQueue μ) : Option (Option μ × MsgQueue μ) :=
  if self.count = 0 then some (none, self)
  else self.store.take.map fun r =>
    let sz := self.checkSz ((r.1.map size).getD 0)
    (r.1, clearPending { self with
      store := r.2.2
      count := self.count - 1
      mem := self.mem - sz
      cache := self.cache.or r.2.1 })

end MsgQueue

end MsgBroker.Model
