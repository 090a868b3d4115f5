import Mathlib.Algebra.BigOperators.Group.Finset.Basic
import Mathlib.Data.Fintype.Basic
import MsgBroker.Model.Chunk
import MsgBroker.Model.Stream

/-!
# Messages

`src/memory/chunkref.c` and `msg.c`. A chunkref holds up to `MB_CHUNKREF_MAX` bytes itself and
points to a chunk for more; a message is three of them.
-/

set_option autoImplicit false

namespace MsgBroker.Model

open Function (update)

open Lib

/-- The union of `struct mb_chunkref`: the bytes that were written into `data`, or `chunk` with
`none` for `NULL`. -/
inductive ChunkrefU where
  | data (bytes : List UInt8)
  | chunk (p : Option ℕ)
deriving DecidableEq, Repr

/-- `struct mb_chunkref`. -/
structure Chunkref where
  size : ℕ
  u : ChunkrefU
deriving DecidableEq, Repr

/-- A chunkref after `self->size = 0; self->u.chunk = NULL`. -/
def Chunkref.null : Chunkref := ⟨0, .chunk none⟩

/-- `memcpy` of `n` bytes from `u.data`. -/
def ChunkrefU.read : ChunkrefU → ℕ → Option (List UInt8)
  | .data bytes, n => readBytes bytes n
  | .chunk _, 0 => some []
  | .chunk _, _ + 1 => none

/-- `mb_chunkref_init`.  SRC: chunkref.c:8-18 -/
def chunkrefInit (size : ℕ) (answer : BlockAnswer) (h : ChunkHeap) : Chunkref × ChunkHeap :=
  if size ≤ chunkrefMax then (⟨size, .data (List.replicate size 0)⟩, h)
  else
    let (_, chunk, h) := chunkAlloc size answer h
    (⟨size, .chunk chunk⟩, h)

/-- `mb_chunkref_init_chunk`.  SRC: chunkref.c:20-30 -/
def chunkrefInitChunk (chunk offset size : ℕ) (h : ChunkHeap) : Option (Chunkref × ChunkHeap) :=
  if size ≤ chunkrefMax then do
    let hdr ← h (chunkFromData chunk)
    let bytes ← readBytes (hdr.data.drop (hdr.offset + offset)) size
    return (⟨size, .data bytes⟩, h)
  else do
    let h ← chunkAddref (chunk + offset) 1 h
    return (⟨size, .chunk (some (chunk + offset))⟩, h)

/-- The reference a chunkref gives back: a chunk it points to.  SRC: chunkref.c:34-35, 88-89;
msg.c:49-54 -/
def chunkrefDrop (self : Chunkref) (h : ChunkHeap) : Option ChunkHeap :=
  if self.size ≤ chunkrefMax then some h
  else
    match self.u with
    | .chunk (some p) => chunkFree p h
    | .chunk none => some h
    | .data _ => none

/-- `mb_chunkref_term`.  SRC: chunkref.c:32-38 -/
def chunkrefTerm (self : Chunkref) (h : ChunkHeap) : Option (Chunkref × ChunkHeap) :=
  (chunkrefDrop self h).map fun h => (.null, h)

/-- `mb_chunkref_mv`: the destination and the source afterwards.  SRC: chunkref.c:40-52 -/
def chunkrefMv (src : Chunkref) : Chunkref × Chunkref :=
  if src.size = 0 then (.null, .null) else (src, .null)

/-- `mb_chunkref_cp`: the destination afterwards.  SRC: chunkref.c:54-63 -/
def chunkrefCp (src : Chunkref) (h : ChunkHeap) : Option (Chunkref × ChunkHeap) :=
  if src.size ≤ chunkrefMax then do
    let bytes ← src.u.read src.size
    return (⟨src.size, .data bytes⟩, h)
  else
    match src.u with
    | .chunk (some p) => do
      let h ← chunkAddref p 1 h
      return (⟨src.size, .chunk (some p)⟩, h)
    | _ => none

/-- The bytes a reader finds with `mb_chunkref_data` and `mb_chunkref_size`.
SRC: chunkref.c:65-75 -/
def chunkrefBytes (self : Chunkref) (h : ChunkHeap) : Option (List UInt8) :=
  if self.size ≤ chunkrefMax then self.u.read self.size
  else
    match self.u with
    | .chunk (some p) => do
      let hdr ← h (chunkFromData p)
      readBytes (hdr.data.drop hdr.offset) self.size
    | _ => none

/-- `mb_chunkref_set`.  SRC: chunkref.c:77-100 -/
def chunkrefSet (self : Chunkref) (bytes : List UInt8) (answer : BlockAnswer) (h : ChunkHeap) :
    Option (Rc × Chunkref × ChunkHeap) :=
  if bytes.length ≤ chunkrefMax then do
    let h ← chunkrefDrop self h
    return (.ok, ⟨bytes.length, .data bytes⟩, h)
  else
    match chunkAlloc bytes.length answer h with
    | (.ok, some chunk, h) => do
      let h ← chunkrefDrop self h
      let h ← chunkWrite chunk 0 bytes h
      return (.ok, ⟨bytes.length, .chunk (some chunk)⟩, h)
    | (rc, _, h) => some (rc, self, h)

/-- The first `n` bytes behind `mb_chunkref_data`.  SRC: chunkref.c:65-70 -/
def chunkrefPeek (self : Chunkref) (n : ℕ) (h : ChunkHeap) : Option (List UInt8) :=
  if self.size ≤ chunkrefMax then self.u.read n
  else
    match self.u with
    | .chunk (some p) => do
      let hdr ← h (chunkFromData p)
      readBytes (hdr.data.drop hdr.offset) n
    | _ => none

/-- `memcpy` to `mb_chunkref_data`; to `NULL` only nothing can be copied.
SRC: chunkref.c:65-70, 116 -/
def chunkrefPoke (self : Chunkref) (bytes : List UInt8) (h : ChunkHeap) :
    Option (Chunkref × ChunkHeap) :=
  match self.u with
  | .data old => do
    let data ← copyInto old 0 bytes
    return (⟨self.size, .data data⟩, h)
  | .chunk (some p) => do
    let h ← chunkWrite p 0 bytes h
    return (self, h)
  | .chunk none => if bytes = [] then some (self, h) else none

/-- `mb_chunkref_resize`; what `mb_chunk_realloc` and `mb_chunk_alloc` return is not looked at.
SRC: chunkref.c:102-119 -/
def chunkrefResize (self : Chunkref) (size : ℕ) (answer : BlockAnswer) (h : ChunkHeap) :
    Option (Chunkref × ChunkHeap) :=
  if self.size ≤ chunkrefMax ∧ size ≤ chunkrefMax then some ({ self with size := size }, h)
  else if chunkrefMax < self.size ∧ chunkrefMax < size then
    match self.u with
    | .chunk (some p) => do
      let (_, p, h) ← chunkRealloc size p answer h
      return (⟨size, .chunk (some p)⟩, h)
    | _ => none
  else do
    let (tmp, h) := chunkrefInit size answer h
    let tocopy := if self.size < size then self.size else size
    let (tmp, h) ← chunkrefPoke tmp (← chunkrefPeek self tocopy h) h
    let (_, h) ← chunkrefTerm self h
    return ((chunkrefMv tmp).1, h)

/-- The parts of a message. -/
inductive MsgPart where
  | sphdr
  | hdrs
  | body
deriving DecidableEq, Repr

/-- `struct mb_msg`. -/
structure Message where
  sphdr : Chunkref
  hdrs : Chunkref
  body : Chunkref
deriving DecidableEq, Repr

namespace Message

/-- A part of a message. -/
def get (self : Message) : MsgPart → Chunkref
  | .sphdr => self.sphdr
  | .hdrs => self.hdrs
  | .body => self.body

/-- A message with one part replaced. -/
def put (self : Message) (r : Chunkref) : MsgPart → Message
  | .sphdr => { self with sphdr := r }
  | .hdrs => { self with hdrs := r }
  | .body => { self with body := r }

/-- All three sizes are 0. -/
def Empty (self : Message) : Prop := ∀ part, (self.get part).size = 0

end Message

/-- `mb_msg_init`.  SRC: msg.c:6-11 -/
def msgInit (size : ℕ) (answer : BlockAnswer) (h : ChunkHeap) : Message × ChunkHeap :=
  let (sphdr, h) := chunkrefInit 0 none h
  let (hdrs, h) := chunkrefInit 0 none h
  let (body, h) := chunkrefInit size answer h
  (⟨sphdr, hdrs, body⟩, h)

/-- `mb_msg_init_data`; without memory the body is left without a chunk.  SRC: msg.c:24-37 -/
def msgInitData (bytes : List UInt8) (answer : BlockAnswer) (h : ChunkHeap) :
    Option (Message × ChunkHeap) :=
  let (self, h) := msgInit bytes.length answer h
  if bytes.length = 0 then some (self, h)
  else
    match self.body.u with
    | .data old => do
      let new ← copyInto old 0 bytes
      return ({ self with body := ⟨self.body.size, .data new⟩ }, h)
    | .chunk (some p) => do
      let h ← chunkWrite p 0 bytes h
      return (self, h)
    | .chunk none => some (self, h)

/-- `mb_msg_init_chunk`.  SRC: msg.c:39-45 -/
def msgInitChunk (chunk : ℕ) (h : ChunkHeap) : Option (Message × ChunkHeap) := do
  let (sphdr, h) := chunkrefInit 0 none h
  let (hdrs, h) := chunkrefInit 0 none h
  let (body, h) ← chunkrefInitChunk chunk 0 (← chunkSize chunk h) h
  let h ← chunkFree chunk h
  return (⟨sphdr, hdrs, body⟩, h)

/-- `mb_msg_term`.  SRC: msg.c:47-58 -/
def msgTerm (self : Message) (h : ChunkHeap) : Option (Message × ChunkHeap) := do
  let h ← chunkrefDrop self.body h
  let h ← chunkrefDrop self.hdrs h
  let h ← chunkrefDrop self.sphdr h
  return (⟨.null, .null, .null⟩, h)

/-- `mb_msg_mv`: the destination and the source afterwards.  SRC: msg.c:60-65 -/
def msgMv (src : Message) : Message × Message :=
  (⟨(chunkrefMv src.sphdr).1, (chunkrefMv src.hdrs).1, (chunkrefMv src.body).1⟩,
    ⟨(chunkrefMv src.sphdr).2, (chunkrefMv src.hdrs).2, (chunkrefMv src.body).2⟩)

/-- `mb_msg_cp`: the destination afterwards.  SRC: msg.c:67-72 -/
def msgCp (src : Message) (h : ChunkHeap) : Option (Message × ChunkHeap) := do
  let (sphdr, h) ← chunkrefCp src.sphdr h
  let (hdrs, h) ← chunkrefCp src.hdrs h
  let (body, h) ← chunkrefCp src.body h
  return (⟨sphdr, hdrs, body⟩, h)

/-! ## References -/

/-- The chunk a chunkref refers to, if it is larger than `MB_CHUNKREF_MAX`. -/
def Chunkref.refs (self : Chunkref) : Multiset ℕ :=
  if self.size ≤ chunkrefMax then 0
  else
    match self.u with
    | .chunk (some p) => {chunkFromData p}
    | _ => 0

/-- The references of the three parts. -/
def Message.refs (self : Message) : Multiset ℕ :=
  self.sphdr.refs + self.hdrs.refs + self.body.refs

/-! ## Any calls on any messages -/

/-- The bytes the parts of a message were given. -/
abbrev Given := MsgPart → List UInt8

/-- A call on messages, which are named by `ι`; `initChunk` allocates a chunk, fills it with the
bytes and hands it over. -/
inductive MsgCall (ι : Type) where
  | init (i : ι) (size : ℕ) (answer : BlockAnswer)
  | initData (i : ι) (bytes : List UInt8) (answer : BlockAnswer)
  | initChunk (i : ι) (bytes : List UInt8) (answer : BlockAnswer)
  | cp (dst src : ι)
  | mv (dst src : ι)
  | set (i : ι) (part : MsgPart) (bytes : List UInt8) (answer : BlockAnswer)
  | term (i : ι)

/-- The heap, the messages that were initialised, and the bytes they were given. -/
structure MsgStore (ι : Type) where
  heap : ChunkHeap
  msgs : ι → Option Message
  given : ι → Option Given

namespace MsgStore

variable {ι : Type} [DecidableEq ι]

/-- A message with nothing but a body. -/
def bodyOnly (bytes : List UInt8) : Given
  | .body => bytes
  | _ => []

/-- What is in the body after `mb_msg_init`: zeros, or what was in the block. -/
def blank (size : ℕ) (answer : BlockAnswer) : List UInt8 :=
  if size ≤ chunkrefMax then List.replicate size 0 else (answer.map Prod.snd).getD []

/-- What a call gives to the messages. -/
def give (given : ι → Option Given) : MsgCall ι → ι → Option Given
  | .init i size answer => update given i (some (bodyOnly (blank size answer)))
  | .initData i bytes _ => update given i (some (bodyOnly bytes))
  | .initChunk i bytes _ => update given i (some (bodyOnly bytes))
  | .cp dst src => update given dst (given src)
  | .mv dst src =>
    update (update given dst (given src)) src (some fun _ => [])
  | .set i part bytes _ =>
    update given i ((given i).map fun g => update g part bytes)
  | .term i => update given i (some fun _ => [])

/-- What a call does to the heap and the messages. -/
def act (h : ChunkHeap) (msgs : ι → Option Message) :
    MsgCall ι → Option (ChunkHeap × (ι → Option Message))
  | .init i size answer =>
    let (m, h) := msgInit size answer h
    some (h, update msgs i (some m))
  | .initData i bytes answer => do
    let (m, h) ← msgInitData bytes answer h
    return (h, update msgs i (some m))
  | .initChunk i bytes answer =>
    match chunkAlloc bytes.length answer h with
    | (.ok, some chunk, h) => do
      let h ← chunkWrite chunk 0 bytes h
      let (m, h) ← msgInitChunk chunk h
      return (h, update msgs i (some m))
    | _ => none
  | .cp dst src => do
    let (m, h) ← msgCp (← msgs src) h
    return (h, update msgs dst (some m))
  | .mv dst src => do
    let (d, s) := msgMv (← msgs src)
    return (h, update (update msgs dst (some d)) src (some s))
  | .set i part bytes answer => do
    let m ← msgs i
    let (_, r, h) ← chunkrefSet (m.get part) bytes answer h
    return (h, update msgs i (some (m.put r part)))
  | .term i => do
    let (m, h) ← msgTerm (← msgs i) h
    return (h, update msgs i (some m))

/-- The calls in any order, with no message at first. -/
def system : System (MsgStore ι) (MsgCall ι) where
  init := ⟨fun _ => none, fun _ => none, fun _ => none⟩
  step s c := (act s.heap s.msgs c).map fun r => ⟨r.1, r.2, give s.given c⟩

/-- All references there are. -/
def refs [Fintype ι] (s : MsgStore ι) : Multiset ℕ :=
  ∑ i, ((s.msgs i).map Message.refs).getD 0

/-- A block of the right size can be had. -/
def Allocates (h : ChunkHeap) (size : ℕ) (answer : BlockAnswer) : Prop :=
  size ≤ sizeMax - chunkHdrSize ∧
    ∃ new bytes, answer = some (new, bytes) ∧ bytes.length = size ∧ h new = none

/-- There is no message or an empty one. -/
def Vacant (s : MsgStore ι) (i : ι) : Prop := ∀ m, s.msgs i = some m → m.Empty

/-- Allocations succeed, messages are initialised before they are used, the destination of a copy
or a move is empty, and there are fewer than `2 ^ 32` references. -/
def Allowed [Fintype ι] (s : MsgStore ι) : MsgCall ι → Prop
  | .init _ size answer => chunkrefMax < size → Allocates s.heap size answer
  | .initData _ bytes answer => chunkrefMax < bytes.length → Allocates s.heap bytes.length answer
  | .initChunk _ bytes answer => Allocates s.heap bytes.length answer
  | .cp dst src =>
    Vacant s dst ∧ ∃ m, s.msgs src = some m ∧ (m.refs + s.refs).card < 2 ^ 32
  | .mv dst src => Vacant s dst ∧ (s.msgs src).isSome = true
  | .set i _ bytes answer =>
    (s.msgs i).isSome = true ∧
      (chunkrefMax < bytes.length → Allocates s.heap bytes.length answer)
  | .term i => (s.msgs i).isSome = true

/-- A message is initialised only where there is none or an empty one. -/
def FreshInit (s : MsgStore ι) : MsgCall ι → Prop
  | .init i _ _ => Vacant s i
  | .initData i _ _ => Vacant s i
  | .initChunk i _ _ => Vacant s i
  | _ => True

end MsgStore

end MsgBroker.Model
