import Mathlib.Logic.Function.Basic
import MsgBroker.Model.Protocols
import MsgBroker.Model.StreamRun
import MsgBroker.Model.Sws

/-!
# Sockets that send over stream pipes, and their backpressure statistics

A PAIR, PUSH or REQ socket whose pipes are sessions of `sipc.c`, `stls.c` or `sws.c`, with
`MB_STAT_DROPPED` and `MB_STAT_QUEUE_FULL` of the socket.
-/

set_option autoImplicit false

namespace MsgBroker.Model

open Lib

/-- `MB_STAT_DROPPED` and `MB_STAT_QUEUE_FULL` of a socket.  SRC: sock.h:74, 77 -/
structure BackStats where
  dropped : UInt64
  queueFull : UInt64
deriving DecidableEq, Repr

/-! ## A pipe -/

/-- The session of a stream pipe. -/
inductive PipeSession where
  | stream (t : Transport) (self : Stream)
  | ws (t : Transport) (self : Sws)

/-- A session with the bytes it wrote and the bytes that arrived and are not read. -/
structure Line where
  session : PipeSession
  tx : List UInt8
  rx : List UInt8

/-- What happens around one call of a session: the bytes that arrived before it, the allocator,
`poll`, and the answers to reads and writes. -/
structure CallEnv where
  arrive : List UInt8
  alloc : Bool
  poll : Bool
  wans : List (Answer ℕ)
  rans : List (Answer (Option ℕ))
  frame : FrameEnv
  pongs : List FrameEnv
  close : FrameEnv
  linger : List (List (Answer ℕ))

/-- Everything would block. -/
instance : Inhabited CallEnv := ⟨⟨[], true, false, [], [], default, [], default, []⟩⟩

namespace PipeSession

/-- The session writes to the statistics of its socket. -/
def lend (st : BackStats) : PipeSession → PipeSession
  | .stream t x => .stream t { x with dropped := st.dropped, queueFull := st.queueFull }
  | .ws t x => .ws t { x with dropped := st.dropped, queueFull := st.queueFull }

/-- What it leaves there. -/
def stats : PipeSession → BackStats
  | .stream _ x => ⟨x.dropped, x.queueFull⟩
  | .ws _ x => ⟨x.dropped, x.queueFull⟩

end PipeSession

namespace Line

variable {α : Type}

/-- The connection during a call. -/
def port (env : CallEnv) (self : Line) : Port :=
  ⟨self.tx, self.rx ++ env.arrive, env.wans, env.rans⟩

/-- The connection during a call of a `sws.c` session. -/
def swsPort (env : CallEnv) (self : Line) : SwsPort :=
  ⟨self.port env, env.pongs, env.close, env.linger⟩

/-- A call of the session. -/
def call (env : CallEnv) (f : Transport → Stream → Port → α × Stream × Port)
    (g : Transport → Sws → SwsPort → α × Sws × SwsPort) (self : Line) : α × Line :=
  match self.session with
  | .stream t x =>
    let (a, x', c) := f t x (self.port env)
    (a, ⟨.stream t x', c.tx, c.rx⟩)
  | .ws t x =>
    let (a, x', c) := g t x (self.swsPort env)
    (a, ⟨.ws t x', c.port.tx, c.port.rx⟩)

variable (opts : SockOpts)

/-- `mb_pipe_send`.  SRC: sipc.c:318-383, stls.c:338-401, sws.c:496-582 -/
def send (body : List UInt8) (env : CallEnv) : Line → Rc × Line :=
  call env (fun t x => x.send t (Stream.stop t env.linger) opts body env.alloc)
    fun t x => x.send t opts body env.alloc env.frame

/-- `mb_pipe_recv`.  SRC: sipc.c:385-475, stls.c:403-491, sws.c:584-912 -/
def recv (env : CallEnv) : Line → Except Errno (List UInt8) × Line :=
  call env (fun t x => x.recv t (Stream.stop t env.linger) opts env.poll env.alloc)
    fun t x => x.recv t opts env.alloc

/-- `mb_pipe_has_msg`.  SRC: sipc.c:43-65, stls.c:37-65, sws.c:47-71 -/
def hasMsg (env : CallEnv) : Line → Bool × Line :=
  call env (fun t x => x.hasMsg t (Stream.stop t env.linger) env.poll)
    fun t x => x.hasMsg t env.poll

/-- `mb_pipe_can_send`.  SRC: sipc.c:67-96, stls.c:67-100, sws.c:73-105 -/
def canSend (env : CallEnv) : Line → Bool × Line :=
  call env (fun t x => x.canSend t (Stream.stop t env.linger) env.poll)
    fun t x => x.canSend t env.poll

end Line

/-! ## All pipes -/

/-- The pipes of a socket and its statistics. -/
structure Links (π : Type) where
  line : π → Line
  stats : BackStats
  script : List CallEnv

namespace Links

variable {π α : Type} [DecidableEq π]

/-- A call of the session of one pipe. -/
def call (p : π) (f : CallEnv → Line → α × Line) (e : Links π) : α × Links π :=
  let line := e.line p
  let (a, line') := f (e.script.headD default) { line with session := line.session.lend e.stats }
  (a, { e with
    line := Function.update e.line p line'
    stats := line'.session.stats
    script := e.script.tail })

/-- The pipes as the protocols call them. -/
def pipes (opts : SockOpts) : Pipes π (List UInt8) (Links π) where
  send p body e := e.call p (Line.send opts body)
  recv p e := e.call p (Line.recv opts)
  hasMsg p e := e.call p Line.hasMsg
  canSend p e := e.call p Line.canSend

end Links

/-! ## The protocols -/

/-- The protocol of the socket. -/
inductive Sender (π : Type) where
  | pair (pipe : Option π)
  | push (lb : Rotor π)
  | req (self : Req π)

namespace Sender

variable {π μ ε : Type}

/-- The pipes that are attached. -/
def attached : Sender π → List π
  | .pair pipe => pipe.toList
  | .push lb => lb.ids
  | .req self => self.lb.ids

/-- `send`.  SRC: pair.c:73-79, push.c:74-78, req.c:96-119 -/
def send (ops : Pipes π μ ε) (msg : μ) : Sender π → ε → Rc × Sender π × ε
  | .pair pipe, e => let (rc, e') := pairSend ops msg pipe e; (rc, .pair pipe, e')
  | .push lb, e => let (rc, lb', e') := pushSend ops msg lb e; (rc, .push lb', e')
  | .req self, e => let (rc, self', e') := self.send ops msg e; (rc, .req self', e')

/-- `recv`; a PUSH socket has none.  SRC: pair.c:81-87, req.c:121-134, sock.c:551-552 -/
def recv (ops : Pipes π μ ε) : Sender π → ε → Except Errno μ × Sender π × ε
  | .pair none, e => (.error .EAGAIN, .pair none, e)
  | .pair (some p), e => let (res, e') := ops.recv p e; (res, .pair (some p), e')
  | .push lb, e => (.error .EOPNOTSUPP, .push lb, e)
  | .req self, e => let (res, self', e') := self.recv ops e; (res, .req self', e')

/-- `events`: readable and writable.  SRC: pair.c:58-71, push.c:65-72, req.c:85-94 -/
def events (ops : Pipes π μ ε) : Sender π → ε → (Bool × Bool) × Sender π × ε
  | .pair none, e => ((false, false), .pair none, e)
  | .pair (some p), e =>
    let (evOut, e') := ops.canSend p e
    let (evIn, e'') := ops.hasMsg p e'
    ((evIn, evOut), .pair (some p), e'')
  | .push lb, e =>
    let (evOut, lb', e') := lb.lbCanSend ops e
    ((false, evOut), .push lb', e')
  | .req self, e => let (ev, self', e') := self.events ops e; (ev, .req self', e')

variable [DecidableEq π]

/-- `add`; `alloc` tells whether the allocation of the list item succeeds.
SRC: pair.c:32-39, push.c:25-38, req.c:28-45 -/
def add (p : π) (alloc : Bool) : Sender π → Rc × Sender π
  | .pair none => (.ok, .pair (some p))
  | .pair (some q) => (.err .EISCONN, .pair (some q))
  | .push lb => if alloc then (.ok, .push ((lb.add p).activate p)) else (.err .ENOMEM, .push lb)
  | .req self => let (rc, self') := self.add p alloc; (rc, .req self')

/-- `rm`.  SRC: pair.c:41-46, push.c:40-50, req.c:47-70 -/
def rm (p : π) : Sender π → Sender π
  | .pair pipe => .pair (if pipe = some p then none else pipe)
  | .push lb => .push (lb.rm p)
  | .req self => .req (self.rm p)

end Sender

/-! ## The socket -/

/-- A socket with its pipes. -/
structure SendSock (π : Type) where
  base : Sender π
  links : Links π

/-- A call on the socket. -/
inductive SendOp (π : Type) where
  | attach (p : π) (session : PipeSession) (alloc : Bool)
  | detach (p : π)
  | send (body : List UInt8)
  | recv

namespace SendSock

variable {π : Type} [DecidableEq π] (opts : SockOpts)

/-- The protocol is asked for its events. -/
def events (s : SendSock π) : (Bool × Bool) × SendSock π :=
  let (ev, base, links) := s.base.events (Links.pipes opts) s.links
  (ev, ⟨base, links⟩)

/-- `mb_sock_sync_sndfd`: without `MB_SOCKBASE_EVENT_OUT` the events are asked for again.
SRC: sock.c:25-41 -/
def syncSndfd (s : SendSock π) : SendSock π :=
  let (ev, s') := s.events opts
  if ev.2 then s' else (s'.events opts).2

/-- `mb_sock_sync_rcvfd`.  SRC: sock.c:43-60 -/
def syncRcvfd (s : SendSock π) : SendSock π :=
  let (ev, s') := s.events opts
  if ev.1 then s' else (s'.events opts).2

/-- Both descriptors. -/
def sync (s : SendSock π) : SendSock π := (s.syncSndfd opts).syncRcvfd opts

/-- A call on the socket starts, and its answers are at hand. -/
def enter (script : List CallEnv) (s : SendSock π) : SendSock π :=
  { s with links := { s.links with script := script } }

/-- `mb_sock_send`.  SRC: sock.c:518-545 -/
def sockSend (body : List UInt8) (s : SendSock π) : Rc × SendSock π :=
  let (rc, base, links) := s.base.send (Links.pipes opts) body s.links
  (rc, sync opts ⟨base, links⟩)

/-- `mb_sock_recv`.  SRC: sock.c:547-569 -/
def sockRecv (s : SendSock π) : Except Errno (List UInt8) × SendSock π :=
  let (res, base, links) := s.base.recv (Links.pipes opts) s.links
  (res, sync opts ⟨base, links⟩)

/-- `mb_sock_pipe_add` of a new session.  SRC: sock.c:571-593 -/
def pipeAdd (p : π) (session : PipeSession) (alloc : Bool) (s : SendSock π) : Rc × SendSock π :=
  let links := { s.links with line := Function.update s.links.line p ⟨session, [], []⟩ }
  let (rc, base) := s.base.add p alloc
  (rc, if rc = .ok then sync opts ⟨base, links⟩ else ⟨base, s.links⟩)

/-- `mb_sock_pipe_rm`.  SRC: sock.c:595-608 -/
def pipeRm (p : π) (s : SendSock π) : SendSock π := sync opts ⟨s.base.rm p, s.links⟩

/-- One call with the answers of the system. -/
def step (s : SendSock π) (l : SendOp π × List CallEnv) : Option (SendSock π) :=
  let s := s.enter l.2
  match l.1 with
  | .attach p session alloc => some (s.pipeAdd opts p session alloc).2
  | .detach p => some (s.pipeRm opts p)
  | .send body => some (s.sockSend opts body).2
  | .recv => some (s.sockRecv opts).2

/-- A socket without pipes. -/
def init (base : Sender π) : SendSock π :=
  ⟨base, fun _ => ⟨.stream .sipc .create, [], []⟩, ⟨0, 0⟩, []⟩

/-- The socket as a labelled system. -/
def system (base : Sender π) : System (SendSock π) (SendOp π × List CallEnv) :=
  ⟨init base, step opts⟩

end SendSock

end MsgBroker.Model
