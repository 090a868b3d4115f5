import MsgBroker.Lib.CString
import MsgBroker.Lib.Nonblocking
import MsgBroker.Lib.Sha1
import MsgBroker.Model.Chunk

/-!
# The WebSocket handshake

`mb_bws_do_handshake` of `src/transport/ws/bws.c` with its SHA-1 and base 64, and
`mb_cws_do_handshake` of `cws.c`, which calls `SHA1` of OpenSSL: that function is a parameter.
-/

set_option autoImplicit false

namespace MsgBroker.Model

open Lib

/-! ## Base 64 -/

/-- `b64`. -/
def b64Table : List UInt8 :=
  ascii "ABCDEFGHIJKLMNOPQRSTUVWXYZabcdefghijklmnopqrstuvwxyz0123456789+/"

/-- One round of `mb_b64_encode`.  SRC: bws.c:148-154, cws.c:47-53 -/
def b64Round (src : List UInt8) (i : ℕ) : List UInt8 :=
  let len := src.length
  let v := (src.getD i 0).toUInt32 <<< 16
  let v := if i + 1 < len then v ||| (src.getD (i + 1) 0).toUInt32 <<< 8 else v
  let v := if i + 2 < len then v ||| (src.getD (i + 2) 0).toUInt32 else v
  [b64Table.getD ((v >>> 18) &&& 0x3f).toNat 0, b64Table.getD ((v >>> 12) &&& 0x3f).toNat 0,
    if i + 1 < len then b64Table.getD ((v >>> 6) &&& 0x3f).toNat 0 else 61,
    if i + 2 < len then b64Table.getD (v &&& 0x3f).toNat 0 else 61]

/-- `mb_b64_encode` and `mb_cws_b64_encode`: a round for every third byte.
SRC: bws.c:142-158, cws.c:41-57 -/
def b64Encode (src : List UInt8) : List UInt8 :=
  (List.range ((src.length + 2) / 3)).flatMap fun n => b64Round src (3 * n)

/-! ## SHA-1 -/

/-- A word of the block at `i`.  SRC: bws.c:99-103 -/
def sha1Word (msg : List UInt8) (i j : ℕ) : UInt32 :=
  (msg.getD (i + j * 4) 0).toUInt32 <<< 24 ||| (msg.getD (i + j * 4 + 1) 0).toUInt32 <<< 16 |||
    (msg.getD (i + j * 4 + 2) 0).toUInt32 <<< 8 ||| (msg.getD (i + j * 4 + 3) 0).toUInt32

/-- The next word of the array `w`.  SRC: bws.c:104-107 -/
def sha1Extend (w : List UInt32) (j : ℕ) : List UInt32 :=
  let tmp := w.getD (j - 3) 0 ^^^ w.getD (j - 8) 0 ^^^ w.getD (j - 14) 0 ^^^ w.getD (j - 16) 0
  w ++ [(tmp <<< 1) ||| (tmp >>> 31)]

/-- The array `w` of the block at `i`.  SRC: bws.c:99-107 -/
def sha1Words (msg : List UInt8) (i : ℕ) : List UInt32 :=
  (List.range' 16 64).foldl sha1Extend ((List.range 16).map (sha1Word msg i))

/-- One round.  SRC: bws.c:108-121 -/
def sha1Round (w : List UInt32) (s : Sha1.State) (j : ℕ) : Sha1.State :=
  let ⟨a, b, c, d, e⟩ := s
  let (f, k) : UInt32 × UInt32 :=
    if j < 20 then ((b &&& c) ||| (~~~b &&& d), 0x5A827999)
    else if j < 40 then (b ^^^ c ^^^ d, 0x6ED9EBA1)
    else if j < 60 then ((b &&& c) ||| (b &&& d) ||| (c &&& d), 0x8F1BBCDC)
    else (b ^^^ c ^^^ d, 0xCA62C1D6)
  let tmp := ((a <<< 5) ||| (a >>> 27)) + f + e + k + w.getD j 0
  ⟨tmp, a, (b <<< 30) ||| (b >>> 2), c, d⟩

/-- The block at `i`.  SRC: bws.c:96-123 -/
def sha1Block (msg : List UInt8) (h : Sha1.State) (i : ℕ) : Sha1.State :=
  let s := (List.range 80).foldl (sha1Round (sha1Words msg i)) h
  ⟨h.a + s.a, h.b + s.b, h.c + s.c, h.d + s.d, h.e + s.e⟩

/-- The four bytes of a word.  SRC: bws.c:128-137 -/
def sha1Out (h : UInt32) : List UInt8 :=
  [(h >>> 24).toUInt8, (h >>> 16).toUInt8, (h >>> 8).toUInt8, h.toUInt8]

/-- `padded_len`, in the arithmetic of `size_t`.  SRC: bws.c:80 -/
def sha1PaddedLen (len : ℕ) : ℕ :=
  ((len + 8) % (sizeMax + 1) / 64 + 1) * 64 % (sizeMax + 1)

/-- The writes of `mb_sha1` to the block of `padded_len` bytes it has allocated, in their order;
`none` if one of them is not inside the block.  SRC: bws.c:79, 84-94 -/
def sha1Fill (data block : List UInt8) : Option (List UInt8) := do
  let len := data.length
  let bitlen := UInt64.ofNat len * 8
  let paddedLen := sha1PaddedLen len
  let msg ← copyInto block 0 data
  let msg ← copyInto msg len [0x80]
  let msg ← copyInto msg (len + 1) (List.replicate (sizeSub (sizeSub paddedLen len) 9) 0)
  let msg ← copyInto msg (sizeSub paddedLen 8) [(bitlen >>> 56).toUInt8]
  let msg ← copyInto msg (sizeSub paddedLen 7) [(bitlen >>> 48).toUInt8]
  let msg ← copyInto msg (sizeSub paddedLen 6) [(bitlen >>> 40).toUInt8]
  let msg ← copyInto msg (sizeSub paddedLen 5) [(bitlen >>> 32).toUInt8]
  let msg ← copyInto msg (sizeSub paddedLen 4) [(bitlen >>> 24).toUInt8]
  let msg ← copyInto msg (sizeSub paddedLen 3) [(bitlen >>> 16).toUInt8]
  let msg ← copyInto msg (sizeSub paddedLen 2) [(bitlen >>> 8).toUInt8]
  copyInto msg (sizeSub paddedLen 1) [bitlen.toUInt8]

/-- The blocks of the padded copy, and the bytes of the result.  SRC: bws.c:75-76, 96-137 -/
def sha1Digest (msg : List UInt8) : List UInt8 :=
  let h := (List.range (msg.length / 64)).foldl (fun h n => sha1Block msg h (64 * n))
    ⟨0x67452301, 0xEFCDAB89, 0x98BADCFE, 0x10325476, 0xC3D2E1F0⟩
  sha1Out h.a ++ sha1Out h.b ++ sha1Out h.c ++ sha1Out h.d ++ sha1Out h.e

/-- `mb_sha1`: the contents of `out` where it returns `0`, and `some none` where it returns `-1`.
`answer` is the allocator's, with what the bytes of the block happen to be.  SRC: bws.c:73-140 -/
def mbSha1 (data : List UInt8) (answer : Option (ℕ → UInt8)) : Option (Option (List UInt8)) :=
  match answer with
  | none => some none
  | some bytes => do
    let msg ← sha1Fill data ((List.range (sha1PaddedLen data.length)).map bytes)
    return some (sha1Digest msg)

/-! ## Reading and writing -/

/-- What reading one byte gives. -/
inductive HttpRead where
  | byte (b : UInt8)
  | wait
  | stop
deriving DecidableEq, Repr

/-- `"\r\n"`. -/
def crlf : List UInt8 := [13, 10]

/-- The end of a head, `"\r\n\r\n"`. -/
def headEnd : List UInt8 := [13, 10, 13, 10]

/-- The loop that reads a head into a buffer of 4096 bytes; `atLimit` is what comes after the loop
if the buffer is full before the head ends. -/
def readHead (atLimit : List UInt8 → Option (List UInt8)) :
    List HttpRead → List UInt8 → Option (List UInt8)
  | [], buf => if buf.length < 4095 then none else atLimit buf
  | r :: rs, buf =>
    if buf.length < 4095 then
      match r with
      | .stop => none
      | .wait => readHead atLimit rs buf
      | .byte b =>
        if headEnd <:+ buf ++ [b] then some (buf ++ [b]) else readHead atLimit rs (buf ++ [b])
    else atLimit buf

/-- `mb_ws_read_http`: a head that does not fit is an error.  SRC: bws.c:189-217 -/
def wsReadHttp (rs : List HttpRead) : Option (List UInt8) := readHead (fun _ => none) rs []

/-- The loop of `mb_cws_do_handshake`: of a head that does not fit, the first 4095 bytes are used.
SRC: cws.c:148-170 -/
def cwsReadHttp (rs : List HttpRead) : Option (List UInt8) := readHead some rs []

/-- `mb_ws_write_http` and the loop of `mb_cws_do_handshake`: the bytes sent, and whether these are
all.  SRC: bws.c:219-244, cws.c:123-146 -/
def writeHttp : List (Answer Unit) → List UInt8 → List UInt8 × Bool
  | _, [] => ([], true)
  | [], _ :: _ => ([], false)
  | .more n :: as, b :: bs =>
    let r := writeHttp as (bs.drop n)
    (b :: (bs.take n ++ r.1), r.2)
  | .block :: as, b :: bs => writeHttp as (b :: bs)
  | .stop _ :: _, _ :: _ => ([], false)

/-! ## The server -/

/-- `mb_ws_accept_key`.  SRC: bws.c:70-71 -/
def wsAcceptKey : List UInt8 := ascii "258EAFA5-E914-47DA-95CA-5AB5F8A5B5E3"

/-- `mb_ws_find_header`.  SRC: bws.c:246-253 -/
def wsFindHeader (req name : List UInt8) : Option (List UInt8) :=
  (strstr name req).map fun p => (p.drop name.length).dropWhile (· = 32)

/-- The key in a request.  SRC: bws.c:270-277 -/
def bwsKey (req : List UInt8) : Option (List UInt8) := do
  let key ← wsFindHeader (cstr req) (ascii "Sec-WebSocket-Key:")
  let keyEnd ← strstr crlf key
  some (key.take (key.length - keyEnd.length))

/-- The response with an accept value.  SRC: bws.c:290-295 -/
def bwsResponse (accept : List UInt8) : List UInt8 :=
  ascii "HTTP/1.1 101 Switching Protocols\r\n" ++ ascii "Upgrade: websocket\r\n" ++
    ascii "Connection: Upgrade\r\n" ++ ascii "Sec-WebSocket-Accept: " ++ accept ++ crlf ++ crlf

/-- `mb_bws_do_handshake`: whether it succeeds, and the bytes it sends; `none` if `mb_sha1` writes
outside its block.  `answer` is the allocator's answer to `mb_sha1`.  SRC: bws.c:255-298 -/
def bwsDoHandshake (rs : List HttpRead) (answer : Option (ℕ → UInt8)) (ws : List (Answer Unit)) :
    Option (Bool × List UInt8) :=
  match (wsReadHttp rs).bind bwsKey with
  | none => some (false, [])
  | some key =>
    if key.length + wsAcceptKey.length > 128 then some (false, [])
    else
      match mbSha1 (key ++ wsAcceptKey) answer with
      | none => none
      | some none => some (false, [])
      | some (some hash) =>
        let (sent, done) := writeHttp ws (bwsResponse (b64Encode hash))
        some (done, sent)

/-! ## The client -/

/-- `MB_WS_MAGIC`.  SRC: ws.h:13 -/
def wsMagic : List UInt8 := ascii "258EAFA5-E914-47DA-95CA-5AB5F8A5B5E3"

/-- The text of the request.  SRC: cws.c:114-121 -/
def cwsRequestText (host : List UInt8) (port : ℕ) (key : List UInt8) : List UInt8 :=
  ascii "GET / HTTP/1.1\r\n" ++ ascii "Host: " ++ host ++ ascii ":" ++
    (Nat.toDigits 10 port).map (fun c => UInt8.ofNat c.toNat) ++ crlf ++
    ascii "Upgrade: websocket\r\n" ++ ascii "Connection: Upgrade\r\n" ++
    ascii "Sec-WebSocket-Key: " ++ key ++ crlf ++ ascii "Sec-WebSocket-Version: 13\r\n" ++ crlf

/-- The request of the client: `snprintf` cuts a text that does not fit.  SRC: cws.c:114-121 -/
def cwsRequest (host : List UInt8) (port : ℕ) (key : List UInt8) : List UInt8 :=
  (cwsRequestText host port key).take 511

section

variable (SHA1 : List UInt8 → List UInt8)

/-- The accept value the client expects for its key; `SHA1` is OpenSSL's.  SRC: cws.c:108-112 -/
def cwsExpected (key : List UInt8) : List UInt8 := b64Encode (SHA1 (key ++ wsMagic))

/-- The check of a response.  SRC: cws.c:172-191 -/
def cwsAccepts (expected resp : List UInt8) : Bool :=
  if ¬ ascii "HTTP/1.1 101" <+: resp ∧ ¬ ascii "HTTP/1.0 101" <+: resp then false
  else
    match strstr (ascii "Sec-WebSocket-Accept:") (cstr resp) with
    | none => false
    | some p =>
      let val := (p.drop (ascii "Sec-WebSocket-Accept:").length).dropWhile fun b => b = 32 ∨ b = 9
      if ¬ expected <+: val then false
      else
        match val.drop expected.length with
        | [] => true
        | c :: _ => c = 13 ∨ c = 10 ∨ c = 32

/-- `mb_cws_do_handshake` with the random bytes `nonce`: whether it succeeds, and the bytes it
sends.  SRC: cws.c:88-192 -/
def cwsDoHandshake (nonce host : List UInt8) (port : ℕ) (ws : List (Answer Unit))
    (rs : List HttpRead) : Bool × List UInt8 :=
  let key := b64Encode nonce
  match writeHttp ws (cwsRequest host port key) with
  | (sent, false) => (false, sent)
  | (sent, true) =>
    match cwsReadHttp rs with
    | none => (false, sent)
    | some resp => (cwsAccepts (cwsExpected SHA1 key) resp, sent)

end

end MsgBroker.Model
