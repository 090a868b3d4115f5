import MsgBroker.Lib.Memory
import MsgBroker.Model.Chunk

/-!
# Chunks as bytes

`src/memory/chunk.c` over a flat memory. Every function finds the header 24 bytes below the pointer
it is given, whatever is there: the reference count in 4 bytes, the size in 8 bytes after a gap, and
the offset in 8 bytes.
-/

set_option autoImplicit false

namespace MsgBroker.Model.ChunkMem

open Lib

/-- The chunk whose header is at `hdr`, with `n` bytes of data.  SRC: chunk.c:11-16 -/
def loadChunk (mem : Mem) (hdr n : ℕ) : Chunk where
  refcount := UInt32.ofNat (mem.loadNat hdr 4)
  size := mem.loadNat (hdr + 8) 8
  offset := mem.loadNat (hdr + 16) 8
  data := mem.load (hdr + chunkHdrSize) n

/-- `mb_chunk_addref`.  SRC: chunk.c:88-92 -/
def addref (mem : Mem) (p : ℕ) (n : UInt32) : Mem :=
  let hdr := chunkFromData p
  mem.storeNat hdr 4 (UInt32.ofNat (mem.loadNat hdr 4) + n).toNat

/-- `mb_chunk_free`, with the address it gives to `mb_free`.  SRC: chunk.c:81-86 -/
def free (mem : Mem) (p : ℕ) : Option ℕ × Mem :=
  let hdr := chunkFromData p
  let refcount := UInt32.ofNat (mem.loadNat hdr 4) - 1
  (if refcount = 0 then some hdr else none, mem.storeNat hdr 4 refcount.toNat)

/-- `mb_chunk_size`.  SRC: chunk.c:94-98 -/
def size (mem : Mem) (p : ℕ) : ℕ :=
  let hdr := chunkFromData p
  sizeSub (mem.loadNat (hdr + 8) 8) (mem.loadNat (hdr + 16) 8)

/-- `mb_chunk_trim`, with the pointer it returns.  SRC: chunk.c:100-105 -/
def trim (mem : Mem) (p n : ℕ) : ℕ × Mem :=
  let hdr := chunkFromData p
  let offset := (mem.loadNat (hdr + 16) 8 + n) % (sizeMax + 1)
  (hdr + chunkHdrSize + offset, mem.storeNat (hdr + 16) 8 offset)

end MsgBroker.Model.ChunkMem
