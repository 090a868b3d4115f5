import MsgBroker.Lib.Reach
import MsgBroker.Model.Pipe

/-!
# The registry of inproc addresses

`mb_bind` and `mb_connect` on `inproc://` addresses: `src/transport/inproc/ins.c`,
`inproc_binproc.c`, `inproc_cinproc.c` and the connecting half of `sinproc.c`.
-/

set_option autoImplicit false

namespace MsgBroker.Model

open Lib

/-- The protocols of `src/protocol`. -/
inductive Protocol where
  | pair | xpair
  | req | xreq | rep | xrep
  | pub | xpub | sub | xsub
  | push | xpush | pull | xpull
  | surveyor | xsurveyor | respondent | xrespondent
  | bus | xbus
deriving DecidableEq, Repr

/-- The protocols for which the `ispeer` of a protocol returns `1`.
SRC: pair.c:135-138, xpair.c:187-190, req.c:184-187, xreq.c:133-136, rep.c:188-191,
xrep.c:130-133, pub.c:349-352, xpub.c:168-171, sub.c:220-223, xsub.c:132-135, push.c:126-129,
xpush.c:96-99, pull.c:126-129, xpull.c:92-95, surveyor.c:319-322, xsurveyor.c:171-174,
respondent.c:204-207, xrespondent.c:169-172, bus.c:199-202, xbus.c:166-169 -/
def Protocol.peers : Protocol → List Protocol
  | .pair | .xpair => [.pair, .xpair]
  | .req | .xreq => [.rep, .xrep]
  | .rep | .xrep => [.req, .xreq]
  | .pub | .xpub => [.sub, .xsub]
  | .sub | .xsub => [.pub, .xpub]
  | .push | .xpush => [.pull, .xpull]
  | .pull | .xpull => [.push, .xpush]
  | .surveyor | .xsurveyor => [.respondent, .xrespondent]
  | .respondent | .xrespondent => [.surveyor, .xsurveyor]
  | .bus | .xbus => [.bus, .xbus]

/-- `mb_sock_ispeer`.  SRC: sock.c:218-221 -/
def Protocol.ispeer (self socktype : Protocol) : Prop := socktype ∈ self.peers

instance (self socktype : Protocol) : Decidable (self.ispeer socktype) :=
  inferInstanceAs (Decidable (socktype ∈ self.peers))

/-- `struct mb_ins_item` with what is read of its endpoint.  SRC: ins.h:8-16 -/
structure InsItem (S A : Type) where
  sock : S
  addr : A
  bind : Bool
  protocol : Protocol
  inLazyList : Bool
deriving DecidableEq, Repr

/-- `state` of `struct mb_pipebase`.  SRC: pipe.c:8-10 -/
inductive PipeState where
  | idle
  | active
  | failed
deriving DecidableEq, Repr

/-- `struct mb_sinproc`: the socket of the pipe and the address of the other end. -/
structure Sinproc (S : Type) where
  sock : S
  peer : Option ℕ
  state : PipeState
deriving DecidableEq, Repr

namespace Sinproc

variable {S : Type}

/-- `mb_sinproc_create`.  SRC: sinproc.c:51-66 -/
def create (sock : S) : Sinproc S := ⟨sock, none, .idle⟩

/-- `mb_pipebase_start`, with the answer of `mb_sock_pipe_add`.  SRC: pipe.c:58-94 -/
def start (add : Rc) (self : Sinproc S) : Rc × Sinproc S :=
  match add with
  | .ok => (.ok, { self with state := .active })
  | .err e => (.err e, { self with state := .failed })

/-- `mb_pipebase_cancel`.  SRC: pipe.c:108-124 -/
def cancel (self : Sinproc S) : Sinproc S := { self with state := .idle }

/-- `mb_sinproc_connect` of the pipes at `i` and `j`.  SRC: sinproc.c:76-99 -/
def connect (i j : ℕ) (add peerAdd : Rc) (self peer : Sinproc S) :
    Rc × Sinproc S × Sinproc S :=
  match start add { self with peer := some j } with
  | (.err e, self') => (.err e, { self' with peer := none }, { peer with peer := none })
  | (.ok, self') =>
    match start peerAdd { peer with peer := some i } with
    | (.err e, peer') => (.err e, cancel { self' with peer := none }, { peer' with peer := none })
    | (.ok, peer') => (.ok, self', peer')

end Sinproc

/-- What a call of `mb_bind` or `mb_connect` asks for: the memory of the endpoint, of the
`struct mb_binproc` or `struct mb_cinproc` and of the two pipes, and the consent of the protocols
to the pipes. -/
structure EpAnswers where
  epAlloc : Bool
  tranAlloc : Bool
  sinprocAlloc : Bool
  bindSideAlloc : Bool
  add : Rc
  peerAdd : Rc
deriving DecidableEq, Repr

/-- All allocations succeed and both protocols take the pipe. -/
def EpAnswers.granted : EpAnswers := ⟨true, true, true, true, .ok, .ok⟩

/-- `mb_ins_bound`, `mb_ins_lazy` and the pipes, a pipe's place in the list being its address. -/
structure InprocRegistry (S A : Type) where
  bound : List (InsItem S A)
  lazy : List (InsItem S A)
  sinprocs : List (Sinproc S)
deriving DecidableEq, Repr

namespace InprocRegistry

variable {S A : Type} [DecidableEq S] [DecidableEq A] (proto : S → Protocol)

/-- `mb_ins_init`. -/
def init : InprocRegistry S A := ⟨[], [], []⟩

/-- `mb_ins_find_owner`.  SRC: ins.c:65-83 -/
def findOwner (addr : A) (self : InprocRegistry S A) : Option (InsItem S A) :=
  (self.bound.find? fun peer => peer.addr = addr).or
    (self.lazy.find? fun peer => peer.addr = addr)

/-- The insertion at the end of `mb_ins_bind`. -/
def insertBound (item : InsItem S A) (self : InprocRegistry S A) : InprocRegistry S A :=
  { self with bound := self.bound ++ [{ item with inLazyList := false }] }

/-- `mb_ins_bind`; the callback it is given is not used.  SRC: ins.c:85-109 -/
def insBind (item : InsItem S A) (self : InprocRegistry S A) : Rc × InprocRegistry S A :=
  match self.findOwner item.addr with
  | none => (.ok, self.insertBound item)
  | some existing =>
    if existing.bind then (.err .EADDRINUSE, self)
    else if existing.inLazyList then
      (.ok, { self with lazy := self.lazy.erase existing }.insertBound item)
    else (.ok, self.insertBound item)

/-- `mb_cinproc_connect_cb`: both pipes are made here, and freed again if they cannot be
connected.  SRC: inproc_cinproc.c:31-85 -/
def cinprocConnectCb (self peerItem : InsItem S A) (ans : EpAnswers) (r : InprocRegistry S A) :
    Rc × InprocRegistry S A :=
  if ¬ ans.sinprocAlloc then (.err .ENOMEM, r)
  else if ¬ ans.bindSideAlloc then (.err .ENOMEM, r)
  else
    let i := r.sinprocs.length
    match Sinproc.connect i (i + 1) ans.add ans.peerAdd (.create self.sock)
        (.create peerItem.sock) with
    | (.ok, sinproc, bindSide) => (.ok, { r with sinprocs := r.sinprocs ++ [sinproc, bindSide] })
    | (.err e, _, _) => (.err e, r)

/-- `mb_ins_connect`.  SRC: ins.c:111-137 -/
def insConnect (item : InsItem S A) (ans : EpAnswers) (self : InprocRegistry S A) :
    Rc × InprocRegistry S A :=
  match self.findOwner item.addr with
  | some existing =>
    if (proto item.sock).ispeer existing.protocol ∧ (proto existing.sock).ispeer item.protocol then
      self.cinprocConnectCb item existing ans
    else (.err .EPROTONOSUPPORT, self)
  | none => (.ok, { self with lazy := self.lazy ++ [{ item with inLazyList := true }] })

/-- `mb_global_create_ep` up to the call of the transport, with `mb_binproc_create` and
`mb_cinproc_create`.  SRC: global.c:420-443, inproc_binproc.c:62-91, inproc_cinproc.c:89-121 -/
def createEp (sock : S) (addr : A) (bind : Bool) (ans : EpAnswers) (self : InprocRegistry S A) :
    Rc × InprocRegistry S A :=
  if ¬ ans.epAlloc then (.err .ENOMEM, self)
  else if ¬ ans.tranAlloc then (.err .ENOMEM, self)
  else
    let item : InsItem S A := ⟨sock, addr, bind, proto sock, false⟩
    if bind then self.insBind item else self.insConnect proto item ans

/-- `mb_bind`.  SRC: global.c:464-483 -/
def mbBind (sock : S) (addr : A) (ans : EpAnswers) (self : InprocRegistry S A) :
    Rc × InprocRegistry S A :=
  self.createEp proto sock addr true ans

/-- `mb_connect`.  SRC: global.c:485-504 -/
def mbConnect (sock : S) (addr : A) (ans : EpAnswers) (self : InprocRegistry S A) :
    Rc × InprocRegistry S A :=
  self.createEp proto sock addr false ans

end InprocRegistry

/-- A call of `mb_bind` or `mb_connect`. -/
structure EpCall (S A : Type) where
  sock : S
  addr : A
  bind : Bool
  ans : EpAnswers
deriving DecidableEq, Repr

/-- Any calls on any sockets, one after the other. -/
def inprocCalls {S A : Type} [DecidableEq S] [DecidableEq A] (proto : S → Protocol) :
    System (InprocRegistry S A) (EpCall S A) where
  init := .init
  step r c := some (r.createEp proto c.sock c.addr c.bind c.ans).2

end MsgBroker.Model
