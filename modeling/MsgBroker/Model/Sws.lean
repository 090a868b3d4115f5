import MsgBroker.Model.Stream
import MsgBroker.Model.WsFrame

/-!
# WebSocket sessions

`src/transport/ws/sws.c`. Three producers share the connection of a session: data frames go through
`outbuf`, which any call flushes further; a PONG is kept as its payload and sent whole by
`mb_sws_send_all` when `outbuf` is empty; a CLOSE is answered at once.
-/

set_option autoImplicit false

namespace MsgBroker.Model

open Lib

/-- What the environment chooses for a frame that is built: whether it can be allocated,
the masking key, and the answers to its writes before the connection takes the rest. -/
structure FrameEnv where
  alloc : Bool
  key : MaskKey
  ans : List (Answer ℕ)
deriving DecidableEq

/-- The frame is built and taken whole. -/
instance : Inhabited FrameEnv := ⟨⟨true, default, []⟩⟩

/-- The connection during a call: the answers to the PONG attempts in order, those to a
CLOSE reply, and those to the rounds in which a lingering stop finds it writable. -/
structure SwsPort where
  port : Port
  pongs : List FrameEnv
  close : FrameEnv
  linger : List (List (Answer ℕ))

/-- `pong_buf[125]` up to `pong_len`. -/
structure PongBuf where
  bytes : List UInt8
  bound : bytes.length ≤ 125
deriving DecidableEq, Repr

/-- `pong_len` is zero. -/
def PongBuf.empty : PongBuf := ⟨[], Nat.zero_le _⟩

/-- The payload of a control frame is copied to `pong_buf`, which has no room for more than
the 125 bytes a control frame may have.  SRC: sws.c:806-810 -/
def PongBuf.copy (data : List UInt8) : PongBuf := ⟨data.take 125, List.length_take_le _ _⟩

/-- The decoder states `MB_SWS_INSTATE_*`. -/
inductive SwsInState where
  | HDR
  | BODY
  | HASMSG
  | CTRL
deriving DecidableEq, Repr

/-- `struct mb_sws`; `isOpen` stands for `fd >= 0 || ssl`. -/
structure Sws where
  isClient : Bool
  isOpen : Bool
  disconnected : Bool
  onError : Bool
  instate : SwsInState
  inhdr : List UInt8
  inlen : UInt8
  payloadLen : ℕ
  maskKey : MaskKey
  inmsg : List UInt8
  outbuf : Option (List UInt8)
  outpos : ℕ
  pendingPong : Bool
  pongBuf : PongBuf
  inFlight : ℤ
  dropped : UInt64
  queueFull : UInt64
deriving DecidableEq, Repr

namespace Sws

/-- `mb_sws_create`, with the error callback set.  SRC: sws.c:281-315 -/
def create (isClient : Bool) : Sws where
  isClient := isClient
  isOpen := true
  disconnected := false
  onError := true
  instate := .HDR
  inhdr := []
  inlen := 0
  payloadLen := 0
  maskKey := default
  inmsg := []
  outbuf := none
  outpos := 0
  pendingPong := false
  pongBuf := .empty
  inFlight := 0
  dropped := 0
  queueFull := 0

-- `t` tells plain connections from TLS, as in `Stream`
variable (t : Transport) (opts : SockOpts)

/-! ## Output -/

/-- How many bytes one call is asked to write: `send` takes a `size_t`, `SSL_write` an `int`.
SRC: sws.c:149, 157 -/
def asked (remaining : ℕ) : ℤ :=
  match t with
  | .sipc => remaining
  | .stls => int32 remaining

/-- The loop of `mb_sws_send_raw`: the bytes written, how it ended, and the answers not used.
`SSL_write` fails when it is asked for no byte at all.  SRC: sws.c:146-167 -/
def rawLoop : List (Answer ℕ) → List UInt8 → List UInt8 × Ending ℕ × List (Answer ℕ)
  | as, [] => ([], .done, as)
  | [], _ :: _ => ([], .block, [])
  | .more n :: as, b :: bs =>
    if asked t (bs.length + 1) ≤ 0 then ([], .stop 0, as)
    else
      let more := min n ((asked t (bs.length + 1)).toNat - 1)
      let r := rawLoop as (bs.drop more)
      (b :: (bs.take more ++ r.1), r.2)
  | .block :: as, _ :: _ => ([], .block, as)
  | .stop f :: as, _ :: _ => ([], .stop f, as)

/-- The number of the bytes written, returned as an `int`: the callers take a negative one
for an error code.  SRC: sws.c:153, 168, 177-180, 390-399 -/
def sentRc (sent : ℕ) : Except Errno ℕ :=
  if int32 sent = -11 then .error .EAGAIN
  else if int32 sent < 0 then .error (.sys (-int32 sent).toNat)
  else .ok (int32 sent).toNat

/-- `mb_sws_send_raw`.  SRC: sws.c:140-169 -/
def sendRaw (buf : List UInt8) (c : Port) : Except Errno ℕ × Port :=
  let (sent, ending, wans) := rawLoop t c.wans buf
  let c' := { c with tx := c.tx ++ sent, wans := wans }
  match ending with
  | .done => (sentRc sent.length, c')
  | .block => (if sent.length > 0 then sentRc sent.length else .error .EAGAIN, c')
  | .stop code => (.error (t.hard code), c')

/-- The loop of `mb_sws_send_all` and `mb_sws_flush_outbuf`; `none` when the fuel runs out.
SRC: sws.c:176-181, 387-399 -/
def sendLoop (buf : List UInt8) : ℕ → ℕ → Port → Option (Rc × ℕ × Port)
  | 0, _, _ => none
  | fuel + 1, pos, c =>
    if pos < buf.length then
      match sendRaw t (buf.drop pos) c with
      | (.ok n, c') => sendLoop buf fuel (pos + n) c'
      | (.error e, c') => some (.err e, pos, c')
    else some (.ok, pos, c)

/-- `mb_sws_send_all`, from a position of the buffer on.  A round that goes on has used an answer
of the connection, so the fuel does not run out (`exists_sendLoop` of Analysis/SwsSend).
SRC: sws.c:171-183 -/
def sendAll (buf : List UInt8) (pos : ℕ) (c : Port) : Rc × ℕ × Port :=
  (sendLoop t buf (c.wans.length + 1) pos c).getD (.again, pos, c)

/-- `mb_sws_flush_outbuf` up to the error report.  SRC: sws.c:369-405 -/
def flushQuiet (self : Sws) (c : Port) : Rc × Sws × Port :=
  match self.outbuf with
  | none => (.ok, self, c)
  | some buf =>
    if !self.isOpen then (.err .ECONNRESET, self, c)
    else
      match sendAll t buf self.outpos c with
      | (.ok, _, c') =>
        let inFlight := if self.inFlight > 0 then self.inFlight - 1 else self.inFlight
        (.ok, { self with outbuf := none, outpos := 0, inFlight := inFlight }, c')
      | (.err e, pos, c') => (.err e, { self with outpos := pos }, c')

/-- The loop of `mb_sws_linger_flush`, one round for each time `poll` reports the connection
writable before the deadline.  SRC: sws.c:424-440 -/
def lingerFlush : List (List (Answer ℕ)) → Sws → Port → Sws × Port
  | [], self, c => (self, c)
  | ans :: rounds, self, c =>
    if self.outbuf.isNone then (self, c)
    else
      match flushQuiet t self { c with wans := ans } with
      | (.err .EAGAIN, self', c') => lingerFlush rounds self' c'
      | (_, self', c') => (self', c')

/-- `mb_sws_stop`, as the error callbacks of the endpoints call it: `outbuf` is flushed for
as long as `MB_LINGER` allows, then dropped, and the connection is closed.
SRC: sws.c:443-472 -/
def stop (self : Sws) (c : SwsPort) : Sws × SwsPort :=
  let (self', port) := lingerFlush t c.linger self c.port
  ({ self' with outbuf := none, outpos := 0, isOpen := false },
    { c with port := port, linger := [] })

/-- `mb_sws_report_error`.  SRC: sws.c:323-337 -/
def reportError (self : Sws) (c : SwsPort) : Sws × SwsPort :=
  if self.disconnected then (self, c)
  else
    let self' := { self with disconnected := true, onError := false }
    if self.onError then stop t self' c else (self', c)

/-- `mb_sws_flush_outbuf`.  SRC: sws.c:369-405 -/
def flushOutbuf (self : Sws) (c : SwsPort) : Rc × Sws × SwsPort :=
  match flushQuiet t self c.port with
  | (.ok, self', port) => (.ok, self', { c with port := port })
  | (.err .EAGAIN, self', port) => (.again, self', { c with port := port })
  | (.err e, self', port) =>
    if self.isOpen then (.err e, reportError t self' { c with port := port })
    else (.err e, self', { c with port := port })

/-- `mb_sws_send_frame`: build the frame and write it with `mb_sws_send_all`, which starts
over with every call.  SRC: sws.c:171-183, 248-262 -/
def sendFrame (opcode : Opcode) (data : List UInt8) (env : FrameEnv) (self : Sws) (c : Port) :
    Rc × Port :=
  if !env.alloc then (.err .ENOMEM, c)
  else if !self.isOpen then (.err .EBADF, c)
  else
    let frame := buildFrame self.isClient env.key opcode data
    let (rc, _, c') := sendAll t frame 0 { c with wans := env.ans ++ [.more frame.length] }
    (rc, { c' with wans := c.wans })

/-- `mb_sws_flush_pending_pong`.  SRC: sws.c:474-494 -/
def flushPendingPong (self : Sws) (c : SwsPort) : Rc × Sws × SwsPort :=
  if !self.pendingPong then (.ok, self, c)
  else
    let (rc, port) := sendFrame t .PONG self.pongBuf.bytes (c.pongs.headD default) self c.port
    let c' := { c with port := port, pongs := c.pongs.tail }
    let cleared := { self with pendingPong := false, pongBuf := .empty }
    match rc with
    | .ok => (.ok, cleared, c')
    | .err .EAGAIN => (.again, self, c')
    | .err e => (.err e, reportError t cleared c')

/-- The two statistics a refused send adds to. -/
def countRefused (self : Sws) : Sws :=
  { self with dropped := self.dropped + 1, queueFull := self.queueFull + 1 }

/-- The part of `mb_sws_send` behind the pending PONG; `alloc` is for the payload, `env` for
the frame.  SRC: sws.c:515-581 -/
def sendData (body : List UInt8) (alloc : Bool) (env : FrameEnv) (self : Sws) (c : SwsPort) :
    Rc × Sws × SwsPort :=
  match flushOutbuf t self c with
  | (.err .EAGAIN, self', c') =>
    (.again, if opts.hwm > 0 then self'.countRefused else self', c')
  | (.err e, self', c') => (.err e, self', c')
  | (.ok, self', c') =>
    if opts.msgTooLarge body.length then (.err .EMSGSIZE, self', c')
    else if !alloc then (.err .ENOMEM, self', c')
    else if opts.hwm > 0 ∧ self'.inFlight ≥ opts.hwm then (.again, self'.countRefused, c')
    else if !env.alloc then (.err .ENOMEM, self', c')
    else
      let accepted := { self' with
        outbuf := some (buildFrame self'.isClient env.key .BINARY (dataPayload body))
        outpos := 0
        inFlight := self'.inFlight + 1 }
      match flushOutbuf t accepted c' with
      | (.err .EAGAIN, self'', c'') => (.ok, self'', c'')
      | (.err e, self'', c'') => (.err e, self'', c'')
      | (.ok, self'', c'') => (.ok, (flushPendingPong t self'' c'').2)

/-- `mb_sws_send`.  SRC: sws.c:496-582 -/
def send (body : List UInt8) (alloc : Bool) (env : FrameEnv) (self : Sws) (c : SwsPort) :
    Rc × Sws × SwsPort :=
  if !self.isOpen then (.err .ECONNRESET, reportError t self c)
  else if self.outbuf.isNone ∧ self.pendingPong then
    match flushPendingPong t self c with
    | (.ok, self', c') => sendData t opts body alloc env self' c'
    | (.err e, self', c') => (.err e, self', c')
  else sendData t opts body alloc env self c

/-! ## Input -/

/-- Where a part of the decoder leaves `mb_sws_recv`: it returns, or the loop goes on. -/
inductive Flow where
  | ret (res : Except Errno (List UInt8)) (self : Sws) (c : SwsPort)
  | next (self : Sws) (c : SwsPort)

/-- Go on with the next part unless the call returned. -/
def Flow.andThen : Flow → (Sws → SwsPort → Flow) → Flow
  | .ret res self c, _ => .ret res self c
  | .next self c, f => f self c

/-- Return an error after reporting it. -/
def fail (e : Errno) (self : Sws) (c : SwsPort) : Flow :=
  .ret (.error e) (reportError t self c).1 (reportError t self c).2

/-- The loop of `mb_sws_do_recv` calls that fills a buffer up to `need` bytes; `put` stores
what was read.  A connection closed meanwhile gives `EBADF`.  SRC: sws.c:634-650 -/
def readInto (rans : List (Answer (Option ℕ))) (left : List (Answer (Option ℕ))) (need : ℕ)
    (put : List UInt8 → Sws) (self : Sws) (c : SwsPort) : Flow :=
  if !self.isOpen then fail t .EBADF self c
  else
    let (got, ending, rx, rest) := readLoop rans need c.port.rx
    let c' := { c with port := { c.port with rx := rx, rans := rest ++ left } }
    match ending with
    | .done => .next (put got) c'
    | .block => .ret (.error .EAGAIN) (put got) c'
    | .stop none => fail t .ECONNRESET (put got) c'
    | .stop (some code) => fail t (t.hard code) (put got) c'

/-- The second header byte says that the frame is masked. -/
def masked (self : Sws) : Bool := self.inhdr.getD 1 0 &&& 0x80 ≠ 0

/-- The length field of the second header byte. -/
def lenByte (self : Sws) : UInt8 := self.inhdr.getD 1 0 &&& 0x7f

/-- The size of the header, as its second byte tells it.  SRC: sws.c:621-632 -/
def need (self : Sws) : ℕ :=
  2 + (if self.lenByte = 126 then 2 else if self.lenByte = 127 then 8 else 0) +
    if self.masked then 4 else 0

/-- The header is read: one call for the first two bytes, then until it is complete.
SRC: sws.c:600-650 -/
def readHdr (self : Sws) (c : SwsPort) : Flow :=
  (if self.inhdr.length < 2 then
      readInto t (c.port.rans.take 1) (c.port.rans.drop 1) (2 - self.inhdr.length)
        (fun got => { self with inhdr := self.inhdr ++ got }) self c
    else .next self c).andThen fun self c =>
  if self.inhdr.length < self.need then
    readInto t c.port.rans [] (self.need - self.inhdr.length)
      (fun got => { self with inhdr := self.inhdr ++ got }) self c
  else .next self c

/-- The payload length in the header, and how much of the header it takes up to the key;
`none` where the length is over 32 bits or over `INT_MAX`.  SRC: sws.c:683-712 -/
def payloadSize (self : Sws) : Option (ℕ × ℕ) :=
  let h := self.inhdr
  if self.lenByte < 126 then some (self.lenByte.toNat, 2)
  else if self.lenByte = 126 then
    some (((h.getD 2 0).toNat <<< 8) ||| (h.getD 3 0).toNat, 4)
  else if h.getD 2 0 ||| h.getD 3 0 ||| h.getD 4 0 ||| h.getD 5 0 ≠ 0 then none
  else if getUint32 (h.drop 6) > intMax then none
  else some (getUint32 (h.drop 6), 10)

/-- The opcode in the header. -/
def opcode (self : Sws) : UInt8 := self.inhdr.getD 0 0 &&& 0x0f

/-- What is wrong with a complete header: a mask where there must be none or none where
there must be one, reserved bits, a fragment, an unknown opcode, a length too large.
SRC: sws.c:652-712 -/
def hdrError (self : Sws) : Option Errno :=
  if self.isClient = self.masked then some .EPROTO
  else if self.inhdr.getD 0 0 &&& 0x70 ≠ 0 ∨ self.inhdr.getD 0 0 &&& 0x80 = 0 then some .EPROTO
  else if self.opcode ≠ Opcode.BINARY.code ∧ self.opcode ≠ Opcode.CLOSE.code ∧
      self.opcode ≠ Opcode.PING.code ∧ self.opcode ≠ Opcode.PONG.code then some .EPROTO
  else if self.payloadSize.isNone then some .EMSGSIZE
  else none

/-- The payload length and the masking key are taken from the header.  SRC: sws.c:683-721 -/
def parseHdr (self : Sws) : Sws :=
  let size := self.payloadSize.getD (0, 0)
  { self with
    payloadLen := size.1
    maskKey := if self.masked then
        ⟨self.inhdr.getD size.2 0, self.inhdr.getD (size.2 + 1) 0, self.inhdr.getD (size.2 + 2) 0,
          self.inhdr.getD (size.2 + 3) 0⟩
      else self.maskKey }

/-- What a CLOSE drops: unwritten output and a pending PONG.  SRC: sws.c:724-730 -/
def dropOutput (self : Sws) : Sws :=
  { self with outbuf := none, outpos := 0, pendingPong := false }

/-- A CLOSE is answered at once and ends the session.  SRC: sws.c:723-735 -/
def closeFrame (self : Sws) (c : SwsPort) : Flow :=
  let (_, port) := sendFrame t .CLOSE [] c.close self.dropOutput c.port
  fail t .ECONNRESET self.dropOutput { c with port := port }

/-- The payload buffer of a control frame is prepared.  SRC: sws.c:737-752 -/
def startCtrl (alloc : Bool) (self : Sws) (c : SwsPort) : Flow :=
  if self.payloadLen > 125 then fail t .EPROTO self c
  else if self.payloadLen > chunkrefMax ∧ !alloc then fail t .ENOMEM { self with inmsg := [] } c
  else .next { self with inlen := self.opcode, inmsg := [], instate := .CTRL } c

/-- The payload buffer of a data frame is prepared.  SRC: sws.c:754-768 -/
def startBody (alloc : Bool) (self : Sws) (c : SwsPort) : Flow :=
  if self.payloadLen < 4 ∨ opts.msgTooLarge (self.payloadLen - 4) then
    fail t .EMSGSIZE { self with inmsg := [] } c
  else if self.payloadLen > chunkrefMax ∧ !alloc then fail t .ENOMEM { self with inmsg := [] } c
  else .next { self with inmsg := [], instate := .BODY } c

/-- A complete header is checked and its payload prepared; `alloc` tells whether message
buffers can be allocated.  SRC: sws.c:652-768 -/
def startFrame (alloc : Bool) (self : Sws) (c : SwsPort) : Flow :=
  match self.hdrError with
  | some e => fail t e self c
  | none =>
    if self.opcode = Opcode.CLOSE.code then closeFrame t self.parseHdr c
    else if self.opcode = Opcode.PING.code ∨ self.opcode = Opcode.PONG.code then
      startCtrl t alloc self.parseHdr c
    else startBody t opts alloc self.parseHdr c

/-- The loops that read the payload of a control or data frame.
SRC: sws.c:770-791, 837-857 -/
def readPayload (self : Sws) (c : SwsPort) : Flow :=
  if self.inmsg.length < self.payloadLen then
    readInto t c.port.rans [] (self.payloadLen - self.inmsg.length)
      (fun got => { self with inmsg := self.inmsg ++ got }) self c
  else .next self c

/-- The payload with the mask taken off. -/
def unmasked (self : Sws) : List UInt8 :=
  if self.masked ∧ self.payloadLen > 0 then wsMask self.maskKey self.inmsg else self.inmsg

/-- Ready for the next frame. -/
def nextFrame (self : Sws) : Sws :=
  { self with instate := .HDR, inhdr := [], inmsg := [], payloadLen := 0 }

/-- The end of a control frame; a PING asks for a PONG, which is tried at once, and again,
unless data is waiting to be written.  SRC: sws.c:793-834 -/
def finishCtrl (self : Sws) (c : SwsPort) : Flow :=
  let first : Rc × Sws × SwsPort :=
    if self.inlen = Opcode.PING.code then
      let self' := { self with pongBuf := .copy self.unmasked, pendingPong := true }
      if self'.outbuf.isNone then flushPendingPong t self' c else (.ok, self', c)
    else (.ok, self, c)
  match first with
  | (.ok, self', c') | (.err .EAGAIN, self', c') =>
    if self'.pendingPong ∧ self'.outbuf.isNone then
      .next (flushPendingPong t self'.nextFrame c').2.1 (flushPendingPong t self'.nextFrame c').2.2
    else .next self'.nextFrame c'
  | (.err e, self', c') => .ret (.error e) self'.nextFrame c'

/-- The end of a data frame: the body is the part of the payload its length prefix names.
SRC: sws.c:859-910 -/
def finishBody (alloc : Bool) (self : Sws) (c : SwsPort) : Flow :=
  let body := self.unmasked
  let msgLen := getUint32 body
  if self.payloadLen < 4 then fail t .EPROTO { self with inmsg := [] } c
  else if msgLen > self.payloadLen - 4 ∨ opts.msgTooLarge msgLen then
    fail t .EMSGSIZE { self with inmsg := [] } c
  else if msgLen > 0 ∧ !alloc then fail t .ENOMEM self.nextFrame c
  else
    .ret (.ok ((body.drop 4).take msgLen))
      { self with instate := .HDR, inhdr := [], inmsg := [] } c

/-- The part of a round behind the header: the payload is read and the frame finished.
SRC: sws.c:770-911 -/
def payload (alloc : Bool) (self : Sws) (c : SwsPort) : Flow :=
  match self.instate with
  | .CTRL => (readPayload t self c).andThen (finishCtrl t)
  | .BODY => (readPayload t self c).andThen (finishBody t opts alloc)
  | .HASMSG => .ret (.ok self.inmsg) { self with instate := .HDR, inhdr := [], inmsg := [] } c
  | .HDR => .next self c

/-- One round of the loop of `mb_sws_recv`.  SRC: sws.c:602-911 -/
def round (alloc : Bool) (self : Sws) (c : SwsPort) : Flow :=
  (if self.instate = .HDR then (readHdr t self c).andThen (startFrame t opts alloc)
    else .next self c).andThen (payload t opts alloc)

/-- The loop of `mb_sws_recv`, for this many rounds at most; `none` if it has not returned by
then.  SRC: sws.c:602-911 -/
def recvLoop (alloc : Bool) :
    ℕ → Sws → SwsPort → Option (Except Errno (List UInt8) × Sws × SwsPort)
  | 0, _, _ => none
  | fuel + 1, self, c =>
    match round t opts alloc self c with
    | .ret res self' c' => some (res, self', c')
    | .next self' c' => recvLoop alloc fuel self' c'

/-- `mb_sws_recv`.  A round that goes on has read a header, so the answers of the reads bound
the rounds, and the loop has always returned by then.  SRC: sws.c:584-913 -/
def recv (alloc : Bool) (self : Sws) (c : SwsPort) :
    Except Errno (List UInt8) × Sws × SwsPort :=
  if !self.isOpen then (.error .ECONNRESET, reportError t self c)
  else
    match flushOutbuf t self c with
    | (.ok, self', c') | (.err .EAGAIN, self', c') =>
      let (self'', c'') :=
        if self'.outbuf.isNone then (flushPendingPong t self' c').2 else (self', c')
      (recvLoop t opts alloc (c''.port.rans.length + 2) self'' c'').getD (.error .EAGAIN, self'', c'')
    | (.err e, self', c') => (.error e, self', c')

/-! ## Probes -/

/-- `mb_sws_has_msg`; `poll` is the answer of `SSL_pending` and `poll`.  SRC: sws.c:47-71 -/
def hasMsg (poll : Bool) (self : Sws) (c : SwsPort) : Bool × Sws × SwsPort :=
  if self.instate = .HASMSG then (true, self, c)
  else if !self.isOpen ∨ self.disconnected then (false, self, c)
  else
    match flushOutbuf t self c with
    | (.ok, self', c') | (.err .EAGAIN, self', c') => (poll, self', c')
    | (.err _, self', c') => (false, self', c')

/-- `mb_sws_can_send`; `poll` is the answer of `poll`.  SRC: sws.c:73-105 -/
def canSend (poll : Bool) (self : Sws) (c : SwsPort) : Bool × Sws × SwsPort :=
  if !self.isOpen ∨ self.disconnected then (false, self, c)
  else if self.outbuf.isNone then (true, self, c)
  else if !poll then (false, self, c)
  else
    match flushOutbuf t self c with
    | (.ok, self', c') | (.err .EAGAIN, self', c') => (self'.outbuf.isNone, self', c')
    | (.err _, self', c') => (false, self', c')

end Sws

end MsgBroker.Model
