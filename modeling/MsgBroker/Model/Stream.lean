import MsgBroker.Lib.Nonblocking
import MsgBroker.Lib.Reach
import MsgBroker.Model.Pipe
import MsgBroker.Model.Wire

/-!
# Stream sessions

`src/transport/ipc/sipc.c` (also the session of TCP) and `src/transport/tls/stls.c`.
-/

set_option autoImplicit false

namespace MsgBroker.Model

open Lib

/-- `INT_MAX`. -/
def intMax : ℕ := 2147483647

/-- `MB_SIPC_HDR_SIZE`, `MB_STLS_HDR_SIZE`. -/
def hdrSize : ℕ := 4

/-- `MB_CHUNKREF_MAX`: up to this size a message body needs no allocation. -/
def chunkrefMax : ℕ := 64

/-- The socket options a session reads: `MB_RCVMAXSIZE` and `MB_HWM`. -/
structure SockOpts where
  rcvmaxsize : ℤ
  hwm : ℤ
deriving DecidableEq, Repr

/-- `mb_sock_msg_too_large`.  SRC: sock.c:753-760 -/
def SockOpts.msgTooLarge (self : SockOpts) (size : ℕ) : Bool :=
  if self.rcvmaxsize < 0 then false else decide (size > self.rcvmaxsize.toNat)

/-- The two stream transports. -/
inductive Transport where
  | sipc
  | stls
deriving DecidableEq, Repr

/-- The code a hard error of the connection is returned as.
SRC: sipc.c:109-112, stls.c:111-115 -/
def Transport.hard : Transport → ℕ → Errno
  | .sipc, code => .sys code
  | .stls, _ => .ECONNRESET

/-- One end of a connection during a call: the bytes on their way to the peer, the bytes
to be read, and the answers of the system calls to come. -/
structure Port where
  tx : List UInt8
  rx : List UInt8
  wans : List (Answer ℕ)
  rans : List (Answer (Option ℕ))

/-- The decoder states `MB_SIPC_INSTATE_*`. -/
inductive InState where
  | HDR
  | BODY
  | HASMSG
deriving DecidableEq, Repr

/-- `struct mb_sipc`, `struct mb_stls`; `isOpen` stands for `fd >= 0` (`ssl != NULL`), the
last two fields count what the session added to the statistics of its socket. -/
structure Stream where
  isOpen : Bool
  disconnected : Bool
  onError : Bool
  instate : InState
  inhdr : List UInt8
  inlen : ℕ
  inmsg : List UInt8
  outbuf : Option (List UInt8)
  outpos : ℕ
  inFlight : ℤ
  dropped : UInt64
  queueFull : UInt64
deriving DecidableEq, Repr

namespace Stream

/-- `mb_sipc_create`, `mb_stls_create`, with the error callback set.  SRC: sipc.c:156-179 -/
def create : Stream where
  isOpen := true
  disconnected := false
  onError := true
  instate := .HDR
  inhdr := []
  inlen := 0
  inmsg := []
  outbuf := none
  outpos := 0
  inFlight := 0
  dropped := 0
  queueFull := 0

/-! ## The loops around the system calls -/

/-- `mb_sipc_send_fd`, `mb_stls_send_ssl`.  SRC: sipc.c:98-116, stls.c:102-121 -/
def sendFd (t : Transport) (buf : List UInt8) (c : Port) : Except Errno ℕ × Port :=
  let (sent, ending, wans) := writeLoop c.wans buf
  let c' := { c with tx := c.tx ++ sent, wans := wans }
  match ending with
  | .done => (.ok sent.length, c')
  | .block => (if sent.length > 0 then .ok sent.length else .error .EAGAIN, c')
  | .stop code => (.error (t.hard code), c')

/-- `mb_sipc_recv_fd`, `mb_stls_recv_ssl`; `stop none` is the end of the stream.  A hard
error drops the bytes already taken.  SRC: sipc.c:118-139, stls.c:123-146 -/
def recvFd (t : Transport) (len : ℕ) (c : Port) : Except Errno (List UInt8) × Port :=
  let (got, ending, rx, rans) := readLoop c.rans len c.rx
  let c' := { c with rx := rx, rans := rans }
  match ending with
  | .done => (.ok got, c')
  | .block => (if got.length > 0 then .ok got else .error .EAGAIN, c')
  | .stop none => (if got.length > 0 then .ok got else .error .ECONNRESET, c')
  | .stop (some code) => (.error (t.hard code), c')

/-! ## Errors -/

/-- `mb_sipc_report_error`, `mb_stls_report_error`; `cb` is the callback `on_error`.
SRC: sipc.c:208-221 -/
def reportError (cb : Stream → Port → Stream × Port) (self : Stream) (c : Port) :
    Stream × Port :=
  if self.disconnected then (self, c)
  else
    let self' := { self with disconnected := true, onError := false }
    if self.onError then cb self' c else (self', c)

/-! ## Output -/

/-- The loop of `mb_sipc_flush_outbuf`.  Each round writes at least one byte or returns, so
one unit of fuel for each byte left is enough.  SRC: sipc.c:238-252 -/
def flushLoop (t : Transport) (buf : List UInt8) : ℕ → ℕ → Port → Rc × ℕ × Port
  | 0, pos, c => (.ok, pos, c)
  | fuel + 1, pos, c =>
    if pos < buf.length then
      match sendFd t (buf.drop pos) c with
      | (.ok n, c') => flushLoop t buf fuel (pos + n) c'
      | (.error e, c') => (.err e, pos, c')
    else (.ok, pos, c)

variable (t : Transport) (cb : Stream → Port → Stream × Port) (opts : SockOpts)

/-- `mb_sipc_flush_outbuf`, `mb_stls_flush_outbuf`.  SRC: sipc.c:223-262, stls.c:237-273 -/
def flushOutbuf (self : Stream) (c : Port) : Rc × Stream × Port :=
  match self.outbuf with
  | none => (.ok, self, c)
  | some buf =>
    if !self.isOpen then (.err .ECONNRESET, self, c)
    else
      match flushLoop t buf (buf.length - self.outpos) self.outpos c with
      | (.ok, _, c') =>
        let inFlight := if self.inFlight > 0 then self.inFlight - 1 else self.inFlight
        (.ok, { self with outbuf := none, outpos := 0, inFlight := inFlight }, c')
      | (.err .EAGAIN, pos, c') => (.again, { self with outpos := pos }, c')
      | (.err e, pos, c') => (.err e, reportError cb { self with outpos := pos } c')

/-- The two statistics a refused send adds to. -/
def countRefused (self : Stream) : Stream :=
  { self with dropped := self.dropped + 1, queueFull := self.queueFull + 1 }

/-- `mb_sipc_send`, `mb_stls_send`, of a message with this body; `alloc` tells whether the
buffer can be allocated.  SRC: sipc.c:318-383, stls.c:338-401 -/
def send (body : List UInt8) (alloc : Bool) (self : Stream) (c : Port) : Rc × Stream × Port :=
  if !self.isOpen then (.err .ECONNRESET, reportError cb self c)
  else
    match flushOutbuf t cb self c with
    | (.err .EAGAIN, self', c') =>
      (.again, if opts.hwm > 0 then self'.countRefused else self', c')
    | (.err e, self', c') => (.err e, self', c')
    | (.ok, self', c') =>
      if opts.msgTooLarge body.length then (.err .EMSGSIZE, self', c')
      else if body.length > intMax - hdrSize then (.err .EMSGSIZE, self', c')
      else if opts.hwm > 0 ∧ self'.inFlight ≥ opts.hwm then (.again, self'.countRefused, c')
      else if !alloc then (.err .ENOMEM, self', c')
      else
        let accepted := { self' with
          outbuf := some (putUint32 body.length ++ body)
          outpos := 0
          inFlight := self'.inFlight + 1 }
        match flushOutbuf t cb accepted c' with
        | (.err .EAGAIN, self'', c'') => (.ok, self'', c'')
        | r => r

/-! ## Input -/

/-- The part of `recv` that reads the body and hands the message out.
SRC: sipc.c:451-475, stls.c:461-491 -/
def recvBody (self : Stream) (c : Port) : Except Errno (List UInt8) × Stream × Port :=
  if self.inlen > 0 then
    match recvFd t (self.inlen - self.inmsg.length) c with
    | (.error .EAGAIN, c') => (.error .EAGAIN, self, c')
    | (.error e, c') => (.error e, reportError cb self c')
    | (.ok got, c') =>
      let inmsg := self.inmsg ++ got
      if inmsg.length < self.inlen then (.error .EAGAIN, { self with inmsg := inmsg }, c')
      else (.ok inmsg, { self with instate := .HDR, inhdr := [], inmsg := [] }, c')
  else (.ok self.inmsg, { self with instate := .HDR, inhdr := [], inmsg := [] }, c)

/-- The part of `recv` that reads the header; a complete header that passes the size check
leads on to the body.  When the message cannot be allocated, `sipc` keeps the header and
`stls` drops it.  SRC: sipc.c:418-449, stls.c:427-459 -/
def recvHdr (alloc : Bool) (self : Stream) (c : Port) :
    Except Errno (List UInt8) × Stream × Port :=
  match recvFd t (hdrSize - self.inhdr.length) c with
  | (.error .EAGAIN, c') => (.error .EAGAIN, self, c')
  | (.error e, c') => (.error e, reportError cb self c')
  | (.ok got, c') =>
    let inhdr := self.inhdr ++ got
    if inhdr.length < hdrSize then (.error .EAGAIN, { self with inhdr := inhdr }, c')
    else
      let bodySize := getUint32 inhdr
      if bodySize > intMax ∨ opts.msgTooLarge bodySize then
        (.error .EMSGSIZE, reportError cb { self with inhdr := inhdr } c')
      else if bodySize > chunkrefMax ∧ !alloc then
        let kept := match t with
          | .sipc => inhdr
          | .stls => []
        (.error .ENOMEM, reportError cb { self with inhdr := kept, inmsg := [] } c')
      else
        recvBody t cb
          { self with instate := .BODY, inhdr := [], inlen := bodySize, inmsg := [] } c'

/-- `mb_sipc_recv`, `mb_stls_recv`; `poll` tells whether `poll` reports something to read
(only `sipc` asks).  SRC: sipc.c:385-475, stls.c:403-491 -/
def recv (poll alloc : Bool) (self : Stream) (c : Port) :
    Except Errno (List UInt8) × Stream × Port :=
  if !self.isOpen then (.error .ECONNRESET, reportError cb self c)
  else
    match flushOutbuf t cb self c with
    | (.ok, self', c') | (.err .EAGAIN, self', c') =>
      match self'.instate with
      | .HASMSG => (.ok self'.inmsg, { self' with instate := .HDR, inhdr := [], inmsg := [] }, c')
      | .HDR =>
        if t = .sipc ∧ !poll then (.error .EAGAIN, self', c')
        else recvHdr t cb opts alloc self' c'
      | .BODY =>
        if t = .sipc ∧ !poll then (.error .EAGAIN, self', c') else recvBody t cb self' c'
    | (.err e, self', c') => (.error e, self', c')

/-! ## Probes -/

/-- `mb_sipc_has_msg`, `mb_stls_has_msg`; `poll` is the answer of `poll` or, for TLS, of
`SSL_pending` and `poll`.  SRC: sipc.c:43-65, stls.c:37-65 -/
def hasMsg (poll : Bool) (self : Stream) (c : Port) : Bool × Stream × Port :=
  if self.instate = .HASMSG then (true, self, c)
  else if !self.isOpen ∨ self.disconnected then (false, self, c)
  else
    match flushOutbuf t cb self c with
    | (.ok, self', c') | (.err .EAGAIN, self', c') => (poll, self', c')
    | (.err _, self', c') => (false, self', c')

/-- `mb_sipc_can_send`, `mb_stls_can_send`; `poll` is the answer of `poll`.
SRC: sipc.c:67-96, stls.c:67-100 -/
def canSend (poll : Bool) (self : Stream) (c : Port) : Bool × Stream × Port :=
  if !self.isOpen ∨ self.disconnected then (false, self, c)
  else if self.outbuf.isNone then (true, self, c)
  else if !poll then (false, self, c)
  else
    match flushOutbuf t cb self c with
    | (.ok, self', c') | (.err .EAGAIN, self', c') => (self'.outbuf.isNone, self', c')
    | (.err _, self', c') => (false, self', c')

end Stream

end MsgBroker.Model
