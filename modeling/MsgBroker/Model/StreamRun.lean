import MsgBroker.Model.StreamPair

/-!
# A stream session in use

One session of `sipc.c` or `stls.c` and everything that happens to it: bytes arrive from the peer,
whatever they are, the four entry points are called in any order, and the connection answers as it
likes, failures included.
-/

set_option autoImplicit false

namespace MsgBroker.Model

open Lib

namespace Stream

/-- The loop of `mb_sipc_linger_flush` in a session whose error is already reported, one
round for each time `poll` reports the connection writable before the deadline.
SRC: sipc.c:264-294, stls.c:275-310 -/
def lingerFlush (t : Transport) : List (List (Answer ℕ)) → Stream → Port → Stream × Port
  | [], self, c => (self, c)
  | ans :: rounds, self, c =>
    if self.outbuf.isNone then (self, c)
    else
      match flushOutbuf t Prod.mk self { c with wans := ans } with
      | (.err .EAGAIN, self', c') => lingerFlush t rounds self' c'
      | (_, self', c') => (self', c')

/-- `mb_sipc_stop`, `mb_stls_stop`, as the error callbacks of the endpoints call it.
SRC: sipc.c:296-316, stls.c:312-336 -/
def stop (t : Transport) (linger : List (List (Answer ℕ))) (self : Stream) (c : Port) :
    Stream × Port :=
  let (self', c') := lingerFlush t linger self c
  ({ self' with outbuf := none, outpos := 0, isOpen := false }, c')

end Stream

/-- A session and its connection. -/
structure StreamRun where
  stream : Stream
  tx : List UInt8
  rx : List UInt8

/-- A call, with the bytes that arrived before it and the answers of the connection. -/
structure StreamUse where
  call : StreamCall
  arrive : List UInt8
  wans : List (Answer ℕ)
  rans : List (Answer (Option ℕ))
  linger : List (List (Answer ℕ))

namespace StreamRun

/-- A session just started. -/
def init : StreamRun := ⟨.create, [], []⟩

/-- The connection at the start of a call. -/
def port (s : StreamRun) (op : StreamUse) : Port := ⟨s.tx, s.rx ++ op.arrive, op.wans, op.rans⟩

/-- The session and the connection a call leaves behind. -/
def call (t : Transport) (opts : SockOpts) (s : StreamRun) (op : StreamUse) : Stream × Port :=
  let cb := Stream.stop t op.linger
  match op.call with
  | .send body alloc => (s.stream.send t cb opts body alloc (s.port op)).2
  | .recv poll alloc => (s.stream.recv t cb opts poll alloc (s.port op)).2
  | .hasMsg poll => (s.stream.hasMsg t cb poll (s.port op)).2
  | .canSend poll => (s.stream.canSend t cb poll (s.port op)).2

/-- One call. -/
def step (t : Transport) (opts : SockOpts) (s : StreamRun) (op : StreamUse) : Option StreamRun :=
  let (x, c) := s.call t opts op
  some ⟨x, c.tx, c.rx⟩

/-- The session as a labelled system. -/
def system (t : Transport) (opts : SockOpts) : System StreamRun StreamUse := ⟨init, step t opts⟩

end StreamRun

end MsgBroker.Model
