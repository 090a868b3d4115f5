import MsgBroker.Model.Pipe

/-!
# Load balancing and fair queueing

`src/utils/lb.c` and `src/utils/fq.c` keep a list of pipes, each with an `active` hint.
-/

set_option autoImplicit false

namespace MsgBroker.Model

variable {π μ ε α : Type}

/-- `struct mb_lb_data` and `struct mb_fq_data`: a pipe and its `active` hint. -/
structure PipeData (π : Type) where
  pipe : π
  active : Bool
deriving DecidableEq, Repr

/-- The list `pipes` of a `struct mb_lb` or a `struct mb_fq`, in list order. -/
structure Rotor (π : Type) where
  pipes : List (PipeData π)
deriving DecidableEq, Repr

namespace Rotor

/-- The pipes of the list, in list order. -/
def ids (self : Rotor π) : List π := self.pipes.map PipeData.pipe

/-- `mb_lb_init`, `mb_fq_init`. -/
def init : Rotor π := ⟨[]⟩

/-- `mb_lb_add`, `mb_fq_add`: a new item at the end, not active.
SRC: lb.c:20-27, fq.c:20-27 -/
def add (self : Rotor π) (pipe : π) : Rotor π :=
  ⟨self.pipes ++ [⟨pipe, false⟩]⟩

variable [DecidableEq π]

/-- `mb_lb_rm`, `mb_fq_rm`: unlink the item of the pipe.
SRC: lb.c:29-34, fq.c:29-34 -/
def rm (self : Rotor π) (pipe : π) : Rotor π :=
  ⟨self.pipes.eraseP fun d => d.pipe = pipe⟩

/-- `mb_lb_activate`, `mb_fq_activate`: mark the item and move it to the front.
SRC: lb.c:36-41, fq.c:36-41 -/
def activate (self : Rotor π) (pipe : π) : Rotor π :=
  ⟨⟨pipe, true⟩ :: (self.rm pipe).pipes⟩

/-- The loop of `mb_lb_send` and `mb_fq_recv_pipe` that probes every pipe: `seen` are
the items before the cursor, `call` is the pipe call of the loop.
SRC: lb.c:93-109, fq.c:94-114 -/
def probe (call : π → ε → Except Errno α × ε) :
    List (PipeData π) → List (PipeData π) → ε → Except Errno (α × π) × Rotor π × ε
  | seen, [], e => (.error .EAGAIN, ⟨seen⟩, e)
  | seen, d :: rest, e =>
    match call d.pipe e with
    | (.ok a, e') => (.ok (a, d.pipe), ⟨seen ++ rest ++ [⟨d.pipe, true⟩]⟩, e')
    | (.error .EAGAIN, e') => probe call (seen ++ [⟨d.pipe, false⟩]) rest e'
    | (.error c, e') => (.error c, ⟨seen ++ d :: rest⟩, e')

/-- The body of `mb_lb_send` and `mb_fq_recv_pipe`: the head first when it is active,
then every pipe.
SRC: lb.c:67-112, fq.c:68-118 -/
def serve (call : π → ε → Except Errno α × ε) (self : Rotor π) (e : ε) :
    Except Errno (α × π) × Rotor π × ε :=
  match self.pipes with
  | [] => (.error .EAGAIN, self, e)
  | d :: rest =>
    if d.active then
      match call d.pipe e with
      | (.ok a, e') => (.ok (a, d.pipe), ⟨rest ++ [d]⟩, e')
      | (.error .EAGAIN, e') => probe call [] (⟨d.pipe, false⟩ :: rest) e'
      | (.error c, e') => (.error c, self, e')
    else probe call [] self.pipes e

/-- A return code read as the result of a call that hands nothing out. -/
def ofRc : Rc × ε → Except Errno Unit × ε
  | (.ok, e) => (.ok (), e)
  | (.err c, e) => (.error c, e)

/-- `mb_lb_send`.  SRC: lb.c:67-112 -/
def lbSend (ops : Pipes π μ ε) (self : Rotor π) (msg : μ) (e : ε) : Rc × Rotor π × ε :=
  match self.serve (fun p e => ofRc (ops.send p msg e)) e with
  | (.ok _, lb, e') => (.ok, lb, e')
  | (.error c, lb, e') => (.err c, lb, e')

/-- `mb_fq_recv_pipe`: the message and the pipe it came from.  SRC: fq.c:68-118 -/
def fqRecvPipe (ops : Pipes π μ ε) (self : Rotor π) (e : ε) :
    Except Errno (μ × π) × Rotor π × ε :=
  self.serve ops.recv e

/-- `mb_fq_recv`.  SRC: fq.c:63-66 -/
def fqRecv (ops : Pipes π μ ε) (self : Rotor π) (e : ε) : Except Errno μ × Rotor π × ε :=
  match self.fqRecvPipe ops e with
  | (.ok (m, _), fq, e') => (.ok m, fq, e')
  | (.error c, fq, e') => (.error c, fq, e')

/-- The loop of `mb_lb_can_send`: probe pipes until one is writable, refreshing the marks
passed.
SRC: lb.c:49-65 -/
def lbCanSendLoop (ops : Pipes π μ ε) :
    List (PipeData π) → List (PipeData π) → ε → Bool × Rotor π × ε
  | seen, [], e => (false, ⟨seen⟩, e)
  | seen, d :: rest, e =>
    match ops.canSend d.pipe e with
    | (true, e') => (true, ⟨seen ++ ⟨d.pipe, true⟩ :: rest⟩, e')
    | (false, e') => lbCanSendLoop ops (seen ++ [⟨d.pipe, false⟩]) rest e'

/-- `mb_lb_can_send`.  SRC: lb.c:49-65 -/
def lbCanSend (ops : Pipes π μ ε) (self : Rotor π) (e : ε) : Bool × Rotor π × ε :=
  lbCanSendLoop ops [] self.pipes e

/-- The loop of `mb_fq_can_recv`: does any pipe hold a message?  SRC: fq.c:49-61 -/
def fqCanRecvLoop (ops : Pipes π μ ε) : List (PipeData π) → ε → Bool × ε
  | [], e => (false, e)
  | d :: rest, e =>
    match ops.hasMsg d.pipe e with
    | (true, e') => (true, e')
    | (false, e') => fqCanRecvLoop ops rest e'

/-- `mb_fq_can_recv`.  SRC: fq.c:49-61 -/
def fqCanRecv (ops : Pipes π μ ε) (self : Rotor π) (e : ε) : Bool × ε :=
  fqCanRecvLoop ops self.pipes e

end Rotor

end MsgBroker.Model
