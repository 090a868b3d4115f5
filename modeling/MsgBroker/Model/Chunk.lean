import MsgBroker.Model.Pipe
import MsgBroker.Model.Slab

/-!
# Chunks

`src/memory/chunk.c`. A chunk is a block of the heap: a header with a reference count, the size and
an offset, and the bytes behind it.
-/

set_option autoImplicit false

namespace MsgBroker.Model

open Function (update)

open Lib

/-- `struct mb_chunk_hdr` with the bytes of its block. -/
structure Chunk where
  refcount : UInt32
  size : ℕ
  offset : ℕ
  data : List UInt8
deriving DecidableEq, Repr

/-- The chunks, by the addresses of their headers. -/
abbrev ChunkHeap := ℕ → Option Chunk

/-- `NULL`, or the address of a block and the bytes in it behind a chunk header. -/
abbrev BlockAnswer := Option (ℕ × List UInt8)

/-- `MB_CHUNK_HDR_SIZE`. -/
def chunkHdrSize : ℕ := 24

/-- `MB_CHUNK_FROM_DATA`. -/
def chunkFromData (p : ℕ) : ℕ := p - chunkHdrSize

/-- The difference of two `size_t`. -/
def sizeSub (a b : ℕ) : ℕ := (a + (sizeMax + 1) - b) % (sizeMax + 1)

/-- `memcpy` of `src` to the offset `i` of a block. -/
def copyInto (dst : List UInt8) (i : ℕ) (src : List UInt8) : Option (List UInt8) :=
  if i + src.length ≤ dst.length then some (dst.take i ++ src ++ dst.drop (i + src.length))
  else none

/-- The first `n` bytes of a block, as `memcpy` reads them. -/
def readBytes (src : List UInt8) (n : ℕ) : Option (List UInt8) :=
  if n ≤ src.length then some (src.take n) else none

/-- `mb_chunk_alloc`, with the address it hands out.  SRC: chunk.c:23-38 -/
def chunkAlloc (size : ℕ) (answer : BlockAnswer) (h : ChunkHeap) : Rc × Option ℕ × ChunkHeap :=
  if sizeMax - chunkHdrSize < size then (.err .ENOMEM, none, h)
  else
    match answer with
    | none => (.err .ENOMEM, none, h)
    | some (hdr, bytes) =>
      (.ok, some (hdr + chunkHdrSize), update h hdr (some ⟨1, size, 0, bytes⟩))

/-- What `realloc` leaves in a block: the old bytes as far as both blocks reach. -/
def resizeBytes (old fresh : List UInt8) : List UInt8 :=
  old.take fresh.length ++ fresh.drop old.length

/-- `mb_chunk_realloc`, with the address of the user afterwards.  SRC: chunk.c:40-79 -/
def chunkRealloc (size p : ℕ) (answer : BlockAnswer) (h : ChunkHeap) :
    Option (Rc × ℕ × ChunkHeap) := do
  let hdr ← h (chunkFromData p)
  if sizeMax - chunkHdrSize < hdr.offset then
    return (.err .ENOMEM, p, h)
  let hdrSize := chunkHdrSize + hdr.offset
  if sizeMax - hdrSize < size then
    return (.err .ENOMEM, p, h)
  let payload := sizeSub hdr.size hdr.offset
  if 1 < hdr.refcount then
    match answer with
    | none => return (.err .ENOMEM, p, h)
    | some (new, bytes) =>
      let data ← copyInto bytes 0 (← readBytes hdr.data payload)
      let h := update h new (some ⟨1, size, hdr.offset, data⟩)
      let h := update h (chunkFromData p) (some { hdr with refcount := hdr.refcount - 1 })
      return (.ok, new + chunkHdrSize + hdr.offset, h)
  else
    match answer with
    | none => return (.err .ENOMEM, p, h)
    | some (new, bytes) =>
      let moved := { hdr with size := size, data := resizeBytes hdr.data bytes }
      let h := update (update h (chunkFromData p) none) new (some moved)
      return (.ok, new + chunkHdrSize + hdr.offset, h)

/-- `mb_chunk_free`.  SRC: chunk.c:81-86 -/
def chunkFree (p : ℕ) (h : ChunkHeap) : Option ChunkHeap := do
  let hdr ← h (chunkFromData p)
  if hdr.refcount - 1 = 0 then return update h (chunkFromData p) none
  else
    return update h (chunkFromData p) (some { hdr with refcount := hdr.refcount - 1 })

/-- `mb_chunk_addref`.  SRC: chunk.c:88-92 -/
def chunkAddref (p : ℕ) (n : UInt32) (h : ChunkHeap) : Option ChunkHeap := do
  let hdr ← h (chunkFromData p)
  return update h (chunkFromData p) (some { hdr with refcount := hdr.refcount + n })

/-- `mb_chunk_size`.  SRC: chunk.c:94-98 -/
def chunkSize (p : ℕ) (h : ChunkHeap) : Option ℕ := do
  let hdr ← h (chunkFromData p)
  return sizeSub hdr.size hdr.offset

/-- The user copies bytes into a chunk. -/
def chunkWrite (p i : ℕ) (bytes : List UInt8) (h : ChunkHeap) : Option ChunkHeap := do
  let hdr ← h (chunkFromData p)
  let data ← copyInto hdr.data (hdr.offset + i) bytes
  return update h (chunkFromData p) (some { hdr with data := data })

/-- The calls on chunks. -/
inductive ChunkCall where
  | alloc (size : ℕ) (answer : BlockAnswer)
  | realloc (size p : ℕ) (answer : BlockAnswer)
  | free (p : ℕ)
  | addref (p : ℕ) (n : UInt32)
  | write (p i : ℕ) (bytes : List UInt8)

/-- Any calls, from a heap without chunks. -/
def chunkCalls : System ChunkHeap ChunkCall where
  init := fun _ => none
  step h
    | .alloc size answer => some (chunkAlloc size answer h).2.2
    | .realloc size p answer => (chunkRealloc size p answer h).map fun r => r.2.2
    | .free p => chunkFree p h
    | .addref p n => chunkAddref p n h
    | .write p i bytes => chunkWrite p i bytes h

/-- `mb_alloc` gives a block of the right size at an address that is not in use. -/
def NewBlock (h : ChunkHeap) (size : ℕ) (answer : BlockAnswer) : Prop :=
  ∀ new bytes, answer = some (new, bytes) → bytes.length = size ∧ h new = none

/-- `mb_realloc` may also answer the address of the old block. -/
def MovedBlock (h : ChunkHeap) (p size : ℕ) (answer : BlockAnswer) : Prop :=
  ∀ hdr, h (chunkFromData p) = some hdr → ∀ new bytes, answer = some (new, bytes) →
    bytes.length = hdr.offset + size ∧
      (h new = none ∨ new = chunkFromData p ∧ ¬ 1 < hdr.refcount)

/-- What is asked of the allocator in a run. -/
def ChunkCall.Answered (h : ChunkHeap) : ChunkCall → Prop
  | .alloc size answer => NewBlock h size answer
  | .realloc size p answer => MovedBlock h p size answer
  | _ => True

/-- What the holders of a chunk are promised of `mb_chunk_realloc`.  On success the new chunk has
the new size and the common part of the bytes, and if there were other holders, the old chunk
keeps its bytes and size and loses one reference; nothing else changes.  On an error nothing
changes. -/
def ReallocKeeps (h : ChunkHeap) (p : ℕ) (old : Chunk) (size : ℕ) :
    Rc × ℕ × ChunkHeap → Prop
  | (.ok, p', h') =>
    (∃ new, h' (chunkFromData p') = some new ∧ chunkSize p' h' = some size ∧
      new.refcount = 1 ∧ new.data.length = size ∧
      new.data.take (min old.size size) = old.data.take (min old.size size)) ∧
    (1 < old.refcount →
      h' (chunkFromData p) = some { old with refcount := old.refcount - 1 } ∧ p' ≠ p) ∧
    ∀ a, a ≠ chunkFromData p → a ≠ chunkFromData p' → h' a = h a
  | (.err _, p', h') => p' = p ∧ h' = h

end MsgBroker.Model
