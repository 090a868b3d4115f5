import MsgBroker.Lib.Memory
import MsgBroker.Lib.Walk
import MsgBroker.Model.Chunk
import MsgBroker.Model.InprocSock
import MsgBroker.Model.Pub
import MsgBroker.Model.Stream

/-!
# Messages from buffers and control messages

What `mb_sendmsg` and `mb_recvmsg` do with a `struct mb_msghdr`: the body is gathered from the
buffers of the iovec and scattered over them, and the SP header travels as a control message
`SP_HDR`.
-/

set_option autoImplicit false

namespace MsgBroker.Model

open Lib

/-- `struct mb_iovec`, with `none` for a null pointer.  SRC: mb.h:254-257 -/
structure Iovec where
  base : Option ℕ
  len : UInt64
deriving DecidableEq, Repr

/-- `struct mb_msghdr`.  SRC: mb.h:259-264 -/
structure Msghdr where
  iov : Option (List Iovec)
  iovlen : ℤ
  control : Option ℕ
  controllen : UInt64
deriving DecidableEq, Repr

/-- The entries `msg_iov[0]` to `msg_iov[msg_iovlen - 1]`. -/
def Msghdr.vecs (hdr : Msghdr) : List Iovec := (hdr.iov.getD []).take hdr.iovlen.toNat

/-- The addresses of the bytes of a buffer. -/
def Iovec.addresses (v : Iovec) : List ℕ := (v.base.map fun b => List.range' b v.len.toNat).getD []

/-- The addresses of the bytes of all buffers, one buffer after the other. -/
def addresses (iov : List Iovec) : List ℕ := iov.flatMap Iovec.addresses

/-- What is in the buffers, one after the other. -/
def contents (mem : Mem) (iov : List Iovec) : List UInt8 := (addresses iov).map mem

/-- How many bytes the buffers have together. -/
def capacityOf (iov : List Iovec) : ℕ := (iov.map fun v => v.len.toNat).sum

/-- A buffer that is not empty is somewhere. -/
def Iovec.Present (v : Iovec) : Prop := 0 < v.len → v.base ≠ none

instance (v : Iovec) : Decidable v.Present := inferInstanceAs (Decidable (_ → _))

/-! ## Control messages -/

/-- `sizeof (struct mb_cmsghdr)`: a `size_t` and two `int`. -/
abbrev cmsghdrSize : UInt64 := 16

/-- `MB_CMSG_ALIGN_`, with a `size_t` of 8 bytes.  SRC: mb.h:278-279 -/
def cmsgAlign (len : UInt64) : UInt64 := (len + 8 - 1) &&& ~~~(8 - 1)

/-- `MB_CMSG_SPACE`.  SRC: mb.h:290-291 -/
def cmsgSpace (len : UInt64) : UInt64 := cmsgAlign len + cmsgAlign cmsghdrSize

/-- `MB_CMSG_LEN`.  SRC: mb.h:293-294 -/
def cmsgLen (len : UInt64) : UInt64 := cmsgAlign cmsghdrSize + len

/-- `MB_CMSG_DATA`.  SRC: mb.h:287-288 -/
def cmsgData (cmsg : ℕ) : ℕ := cmsg + cmsghdrSize.toNat

/-- `PROTO_SP`. -/
def protoSp : ℤ := 1

/-- `SP_HDR`. -/
def spHdr : ℤ := 1

/-- The fields of the `struct mb_cmsghdr` at an address.  SRC: mb.h:266-270 -/
structure Cmsghdr where
  len : UInt64
  level : ℤ
  type : ℤ
deriving DecidableEq, Repr

/-- The header at an address. -/
def cmsghdrAt (mem : Mem) (cmsg : ℕ) : Cmsghdr where
  len := UInt64.ofNat (mem.loadNat cmsg 8)
  level := hostInt (mem.load (cmsg + 8) 4)
  type := hostInt (mem.load (cmsg + 12) 4)

/-- `cmsg_level == PROTO_SP && cmsg_type == SP_HDR`. -/
def Cmsghdr.isSpHdr (c : Cmsghdr) : Prop := c.level = protoSp ∧ c.type = spHdr

instance (c : Cmsghdr) : Decidable c.isSpHdr := inferInstanceAs (Decidable (_ ∧ _))

/-- `mb_cmsg_nxthdr_`; without a `cmsg` it is `MB_CMSG_FIRSTHDR`.  SRC: global.c:976-1010 -/
def cmsgNxthdr (mem : Mem) (mhdr : Option Msghdr) (cmsg : Option ℕ) : Option ℕ := do
  let mhdr ← mhdr
  let control ← mhdr.control
  if mhdr.controllen < cmsghdrSize then none
  else
    let stop := control + mhdr.controllen.toNat
    match cmsg with
    | none => if control + cmsghdrSize.toNat > stop then none else some control
    | some cmsg =>
      let remain := UInt64.ofInt ((stop : ℤ) - cmsg)
      let len := (cmsghdrAt mem cmsg).len
      if len < cmsghdrSize ∨ len > remain then none
      else
        let aligned := cmsgAlign len
        if aligned < len ∨ aligned > remain then none
        else
          let ptr := cmsg + aligned.toNat
          if ptr + cmsghdrSize.toNat > stop then none else some ptr

/-- `MB_CMSG_FIRSTHDR`. -/
def cmsgFirsthdr (mem : Mem) (mhdr : Msghdr) : Option ℕ := cmsgNxthdr mem (some mhdr) none

/-- `MB_CMSG_NXTHDR`. -/
def cmsgNexthdr (mem : Mem) (mhdr : Msghdr) (cmsg : ℕ) : Option ℕ :=
  cmsgNxthdr mem (some mhdr) (some cmsg)

/-- The header after `n` rounds of the iteration. -/
def cmsgAt (mem : Mem) (mhdr : Msghdr) : ℕ → Option ℕ :=
  posAt (cmsgNexthdr mem mhdr) (cmsgFirsthdr mem mhdr)

/-- As many headers as there is space for. -/
def cmsgBound (mhdr : Msghdr) : ℕ := mhdr.controllen.toNat / cmsghdrSize.toNat

/-- The headers of the iteration. -/
def cmsgHeaders (mem : Mem) (mhdr : Msghdr) : List ℕ :=
  trail (cmsgNexthdr mem mhdr) (cmsgBound mhdr) (cmsgFirsthdr mem mhdr)

/-! ## `mb_msg_from_msghdr` -/

/-- The loop that adds up the lengths.  SRC: global.c:703-711 -/
def iovTotal : List Iovec → UInt64 → Except Errno UInt64
  | [], total => .ok total
  | v :: iov, total =>
    if v.len > UInt64.ofNat sizeMax - total then .error .EMSGSIZE
    else if 0 < v.len ∧ v.base = none then .error .EFAULT
    else iovTotal iov (total + v.len)

/-- What the allocator answers: what is found in the block for the body, and for every control
message whether there is memory for its bytes. -/
structure MsghdrEnv where
  block : Option (ℕ → UInt8)
  alloc : ℕ → Bool

/-- `mb_chunk_alloc` succeeds. -/
def chunkAllocates (size : ℕ) (alloc : Bool) : Bool :=
  decide (size ≤ sizeMax - chunkHdrSize) && alloc

/-- The body after `mb_msg_init`; `none` is the body without a chunk.  SRC: global.c:716-721 -/
def initBody (total : ℕ) (block : Option (ℕ → UInt8)) : Option (List UInt8) :=
  if total ≤ chunkrefMax then some (List.replicate total 0)
  else if chunkAllocates total block.isSome then block.map fun f => (List.range total).map f
  else none

/-- The loop that copies the buffers; `off` is how far `ptr` is in the body.
SRC: global.c:722-728 -/
def gather (mem : Mem) : List Iovec → ℕ → List UInt8 → Option (List UInt8)
  | [], _, body => some body
  | v :: iov, off, body =>
    if 0 < v.len then do
      let base ← v.base
      let body ← copyInto body off (mem.load base v.len.toNat)
      gather mem iov (off + v.len.toNat) body
    else gather mem iov off body

/-- Ranges of memory, by their address and length. -/
abbrev Ranges := List (ℕ × ℕ)

/-- The `sphdr` of the message, and as a record the ranges that were copied into it so far. -/
structure SphdrCopy where
  sphdr : List UInt8
  copied : Ranges
deriving DecidableEq, Repr

/-- The body of the loop over the control messages; an error comes with the record.
SRC: global.c:733-750 -/
def copySphdr (mem : Mem) (alloc : ℕ → Bool) (cmsg : ℕ) (s : SphdrCopy) :
    Except (Errno × Ranges) SphdrCopy :=
  let c := cmsghdrAt mem cmsg
  if c.isSpHdr then
    if c.len < cmsgLen 0 then .error (.EINVAL, s.copied)
    else
      let hdrlen := (c.len - cmsgLen 0).toNat
      if 0 < hdrlen then
        -- `mb_chunkref_set`
        if hdrlen ≤ chunkrefMax ∨ chunkAllocates hdrlen (alloc cmsg) then
          .ok ⟨mem.load (cmsgData cmsg) hdrlen, s.copied ++ [(cmsgData cmsg, hdrlen)]⟩
        else .error (.ENOMEM, s.copied)
      else .ok s
  else .ok s

/-- The loop over the control messages.  SRC: global.c:730-752 -/
def controlLoop (mem : Mem) (alloc : ℕ → Bool) (mhdr : Msghdr) :
    Option (Except (Errno × Ranges) SphdrCopy) :=
  if mhdr.control.isSome ∧ 0 < mhdr.controllen then
    forWalk (cmsgNexthdr mem mhdr) (copySphdr mem alloc) (cmsgBound mhdr) (cmsgFirsthdr mem mhdr)
      ⟨[], []⟩
  else some (.ok ⟨[], []⟩)

/-- What `mb_msg_from_msghdr` hands out. -/
structure BuiltMsg where
  msg : Msg Unit
  total : UInt64
deriving DecidableEq, Repr

/-- The result of `mb_msg_from_msghdr`, and the ranges that were copied into the `sphdr`. -/
structure MsgBuild where
  result : Except Errno BuiltMsg
  copied : Ranges

/-- The end of `mb_msg_from_msghdr`, after the loop over the control messages. -/
def MsgBuild.ofControl (body : List UInt8) (total : UInt64) :
    Except (Errno × Ranges) SphdrCopy → MsgBuild
  | .error (e, copied) => ⟨.error e, copied⟩
  | .ok c => ⟨.ok ⟨⟨c.sphdr, body, ()⟩, total⟩, c.copied⟩

/-- `mb_msg_from_msghdr`.  SRC: global.c:692-757 -/
def msgFromMsghdr (mem : Mem) (env : MsghdrEnv) (rcvmaxsize : ℤ) (mhdr : Msghdr) :
    Option MsgBuild :=
  if 0 < mhdr.iovlen ∧ mhdr.iov = none then some ⟨.error .EFAULT, []⟩
  else
    match iovTotal mhdr.vecs 0 with
    | .error e => some ⟨.error e, []⟩
    | .ok total =>
      if msgTooLarge rcvmaxsize total then some ⟨.error .EMSGSIZE, []⟩
      else
        match initBody total.toNat env.block with
        | none => some ⟨.error .ENOMEM, []⟩
        | some body => do
          let body ← gather mem mhdr.vecs 0 body
          let r ← controlLoop mem env.alloc mhdr
          return MsgBuild.ofControl body total r

/-! ## The delivery of `mb_recvmsg` -/

/-- The loop that copies the body to the buffers.  SRC: global.c:914-922 -/
def scatter (body : List UInt8) : List Iovec → UInt64 → Mem → Option Mem
  | [], _, mem => some mem
  | v :: iov, written, mem =>
    let msglen := UInt64.ofNat body.length
    if written < msglen then
      let chunk := if written + v.len > msglen then msglen - written else v.len
      if 0 < chunk then do
        let base ← v.base
        let bytes ← readBytes (body.drop written.toNat) chunk.toNat
        scatter body iov (written + chunk) (mem.store base bytes)
      else scatter body iov written mem
    else some mem

/-- A `struct mb_cmsghdr` of type `SP_HDR` is written, and the bytes behind it.
SRC: global.c:930-935 -/
def storeSphdr (cmsg : ℕ) (sphdr : List UInt8) (mem : Mem) : Mem :=
  let mem := mem.storeNat cmsg 8 (cmsgLen (UInt64.ofNat sphdr.length)).toNat
  let mem := mem.storeNat (cmsg + 8) 4 protoSp.toNat
  let mem := mem.storeNat (cmsg + 12) 4 spHdr.toNat
  mem.store (cmsgData cmsg) sphdr

/-- The SP header is handed out if there is space for it.  SRC: global.c:924-944 -/
def returnControl (sphdr : List UInt8) (mhdr : Msghdr) (mem : Mem) : Msghdr × Mem :=
  match mhdr.control with
  | none => (mhdr, mem)
  | some control =>
    if 0 < mhdr.controllen then
      let needed := cmsgSpace (UInt64.ofNat sphdr.length)
      if 0 < sphdr.length ∧ needed ≤ mhdr.controllen then
        ({ mhdr with controllen := needed }, storeSphdr control sphdr mem)
      else ({ mhdr with controllen := 0 }, mem)
    else (mhdr, mem)

end MsgBroker.Model
