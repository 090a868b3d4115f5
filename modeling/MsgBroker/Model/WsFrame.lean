import MsgBroker.Model.Wire

/-!
# WebSocket frames

The frame encoder of `src/transport/ws/sws.c`.
-/

set_option autoImplicit false

namespace MsgBroker.Model

/-- The opcodes `MB_WS_OPCODE_*` this stack uses. -/
inductive Opcode where
  | BINARY
  | CLOSE
  | PING
  | PONG
deriving DecidableEq, Repr

/-- SRC: ws.h:6-9 -/
def Opcode.code : Opcode → UInt8
  | .BINARY => 0x02
  | .CLOSE => 0x08
  | .PING => 0x09
  | .PONG => 0x0A

/-- A masking key. -/
structure MaskKey where
  k₀ : UInt8
  k₁ : UInt8
  k₂ : UInt8
  k₃ : UInt8
deriving DecidableEq, Repr, Inhabited

namespace MaskKey

/-- The key as it stands in the header. -/
def bytes (key : MaskKey) : List UInt8 := [key.k₀, key.k₁, key.k₂, key.k₃]

/-- `key[i % 4]`. -/
def byte (key : MaskKey) (i : ℕ) : UInt8 := key.bytes.getD (i % 4) 0

end MaskKey

/-- `mb_ws_mask`.  SRC: sws.c:107-112 -/
def wsMask (key : MaskKey) (data : List UInt8) : List UInt8 :=
  data.mapIdx fun i b => b ^^^ key.byte i

/-- The mask bit of the second header byte. -/
def maskBit (isClient : Bool) : UInt8 := if isClient then 0x80 else 0

/-- The length bytes of the header, with the mask bit.  SRC: sws.c:196-221 -/
def frameLen (isClient : Bool) (len : ℕ) : List UInt8 :=
  if len < 126 then [UInt8.ofNat len ||| maskBit isClient]
  else if len ≤ 65535 then
    [126 ||| maskBit isClient, UInt8.ofNat ((len >>> 8) &&& 0xff), UInt8.ofNat (len &&& 0xff)]
  else (127 ||| maskBit isClient) :: 0 :: 0 :: 0 :: 0 :: putUint32 len

/-- The header of a frame.  SRC: sws.c:194-232 -/
def frameHdr (isClient : Bool) (key : MaskKey) (opcode : Opcode) (len : ℕ) : List UInt8 :=
  (0x80 ||| opcode.code) :: (frameLen isClient len ++ if isClient then key.bytes else [])

/-- The payload as it stands in the frame. -/
def framePayload (isClient : Bool) (key : MaskKey) (data : List UInt8) : List UInt8 :=
  if isClient then wsMask key data else data

/-- `mb_sws_build_frame`, where the allocation succeeds.  SRC: sws.c:185-246 -/
def buildFrame (isClient : Bool) (key : MaskKey) (opcode : Opcode) (data : List UInt8) :
    List UInt8 :=
  frameHdr isClient key opcode data.length ++ framePayload isClient key data

/-- The payload of a data frame: the body behind its length.  SRC: sws.c:532-551 -/
def dataPayload (body : List UInt8) : List UInt8 := putUint32 body.length ++ body

end MsgBroker.Model
