import MsgBroker.Lib.Reach
import MsgBroker.Model.Sws

/-!
# A WebSocket session in use

One session and everything that happens to it: bytes arrive from the peer, the four entry points are
called in any order, and the connection answers as it likes.
-/

set_option autoImplicit false

namespace MsgBroker.Model

open Lib

/-- A session, its connection, and its history. -/
structure SwsRun where
  sws : Sws
  tx : List UInt8
  rx : List UInt8
  accepted : List (List UInt8)
  results : List (Except Errno (List UInt8))

/-- What a call of a session is. -/
inductive SwsCall where
  | send (body : List UInt8) (alloc : Bool) (env : FrameEnv)
  | recv (alloc : Bool)
  | hasMsg (poll : Bool)
  | canSend (poll : Bool)

/-- A call, with the bytes that arrived before it and the answers of the connection. -/
structure SwsOp where
  call : SwsCall
  arrive : List UInt8
  wans : List (Answer ℕ)
  rans : List (Answer (Option ℕ))
  pongs : List FrameEnv
  close : FrameEnv
  linger : List (List (Answer ℕ))

namespace SwsRun

/-- A session just started. -/
def init (isClient : Bool) : SwsRun := ⟨.create isClient, [], [], [], []⟩

/-- The connection at the start of a call. -/
def port (s : SwsRun) (op : SwsOp) : SwsPort :=
  ⟨⟨s.tx, s.rx ++ op.arrive, op.wans, op.rans⟩, op.pongs, op.close, op.linger⟩

/-- What a call leaves behind. -/
def put (s : SwsRun) (x : Sws) (c : SwsPort) : SwsRun :=
  { s with sws := x, tx := c.port.tx, rx := c.port.rx }

/-- One call. -/
def step (t : Transport) (opts : SockOpts) (s : SwsRun) (op : SwsOp) : Option SwsRun :=
  match op.call with
  | .send body alloc env =>
    let (rc, x, c) := s.sws.send t opts body alloc env (s.port op)
    some { s.put x c with
      accepted := if rc = .ok then s.accepted ++ [body] else s.accepted }
  | .recv alloc =>
    let (res, x, c) := s.sws.recv t opts alloc (s.port op)
    some { s.put x c with results := s.results ++ [res] }
  | .hasMsg poll =>
    let (_, x, c) := s.sws.hasMsg t poll (s.port op)
    some (s.put x c)
  | .canSend poll =>
    let (_, x, c) := s.sws.canSend t poll (s.port op)
    some (s.put x c)

/-- The session as a labelled system. -/
def system (t : Transport) (opts : SockOpts) (isClient : Bool) : System SwsRun SwsOp :=
  ⟨init isClient, step t opts⟩

end SwsRun

/-- The connection takes short writes and blocks, but never fails a write. -/
def SwsOp.CalmWrites (op : SwsOp) : Prop :=
  Calm op.wans ∧ (∀ e ∈ op.pongs, Calm e.ans) ∧ Calm op.close.ans ∧ ∀ as ∈ op.linger, Calm as

/-! ## Well-formed output -/

/-- A frame a session may write: the data frame of a body, a PONG, or a CLOSE. -/
inductive OutFrame where
  | data (key : MaskKey) (body : List UInt8)
  | pong (key : MaskKey) (payload : List UInt8)
  | close (key : MaskKey)

/-- The frame as `mb_sws_build_frame` makes it. -/
def OutFrame.bytes (isClient : Bool) : OutFrame → List UInt8
  | .data key body => buildFrame isClient key .BINARY (dataPayload body)
  | .pong key payload => buildFrame isClient key .PONG payload
  | .close key => buildFrame isClient key .CLOSE []

/-- The body of a data frame. -/
def OutFrame.body? : OutFrame → Option (List UInt8)
  | .data _ body => some body
  | _ => none

/-- The bytes are a leading part of a sequence of whole frames, whose data frames carry
accepted bodies, each once and in order. -/
def WellFormedOutput (isClient : Bool) (tx : List UInt8) (accepted : List (List UInt8)) : Prop :=
  ∃ fs : List OutFrame, tx <+: fs.flatMap (OutFrame.bytes isClient) ∧
    fs.filterMap OutFrame.body? <+: accepted

end MsgBroker.Model
