import MsgBroker.Lib.Reach
import MsgBroker.Model.Msghdr

/-!
# Two PAIR sockets joined by inproc

The ends of the connection are `false` and `true`; the messages end `i` has received and not handed
out yet are in the queue of its own pipe.
-/

set_option autoImplicit false

namespace MsgBroker.Model

open Lib

/-- A `mb_sendmsg` that succeeded: the memory it read, its argument, what it returned, and the
message it built. -/
structure SentMsg where
  mem : Mem
  mhdr : Msghdr
  rc : ℤ
  msg : Msg Unit

/-- A `mb_recvmsg` that succeeded: the memory and its argument before and after the call, and what
it returned. -/
structure GotMsg where
  mem : Mem
  mhdr : Msghdr
  rc : ℤ
  mhdr' : Msghdr
  mem' : Mem

/-- The two sockets, and the history of each end. -/
structure InprocPair where
  queues : Bool → MsgQueue (Msg Unit)
  rcvbuf : Bool → ℤ
  rcvmaxsize : Bool → ℤ
  sent : Bool → List SentMsg
  got : Bool → List GotMsg

/-- An attempt of one of the two calls at one end, with what the allocator answers, or something
else that touches an end. -/
inductive InprocPairOp where
  | sendmsg (i : Bool) (mem : Mem) (env : MsghdrEnv) (mhdr : Msghdr) (alloc allocNext : Bool)
  | recvmsg (i : Bool) (mem : Mem) (mhdr : Msghdr)
  /-- `mb_sock_sync_sndfd` of the other end asks whether there is room. -/
  | canSend (i : Bool)
  | setopt (i : Bool) (rcvbuf rcvmaxsize : ℤ)

/-- A `size_t` that is returned as an `int`. -/
def asInt (n : ℕ) : ℤ := Int.bmod n (2 ^ 32)

/-- The size of the body of a message. -/
def bodySize (m : Msg Unit) : UInt64 := UInt64.ofNat m.body.length

namespace InprocPair

/-- `mb_sinproc_sync_maxmem`.  SRC: sinproc.c:29-39 -/
def syncMaxmem (i : Bool) (s : InprocPair) : InprocPair :=
  { s with
    queues := Function.update s.queues i
      ((s.queues i).setMaxmem (InprocSock.capacity (s.rcvbuf i))) }

/-- `mb_sinproc_send` on the pipe of end `i`.  SRC: sinproc.c:147-177 -/
def sinprocSend (i : Bool) (m : Msg Unit) (alloc allocNext : Bool) (s : InprocPair) :
    Option (Rc × InprocPair) :=
  if msgTooLarge (s.rcvmaxsize i) (bodySize m) then some (.err .EMSGSIZE, s)
  else if msgTooLarge (s.rcvmaxsize (!i)) (bodySize m) then some (.err .EMSGSIZE, s)
  else
    let s := s.syncMaxmem (!i)
    ((s.queues (!i)).push bodySize alloc allocNext m).map fun (res, q) =>
      (match res with | .ok _ => .ok | .error e => .err e,
        { s with queues := Function.update s.queues (!i) q })

/-- `mb_sinproc_recv` on the pipe of end `i`.  SRC: sinproc.c:194-213 -/
def sinprocRecv (i : Bool) (s : InprocPair) : Option (Except Errno (Msg Unit) × InprocPair) :=
  if (s.queues i).empty then some (.error .EAGAIN, s)
  else do
    let (m, q) ← (s.queues i).pop bodySize
    let m ← m
    return (.ok m, syncMaxmem i { s with queues := Function.update s.queues i q })

/-- An attempt of `mb_sendmsg` at end `i`.  SRC: global.c:760-833 -/
def sendmsg (i : Bool) (mem : Mem) (env : MsghdrEnv) (mhdr : Msghdr) (alloc allocNext : Bool)
    (s : InprocPair) : Option (Except Errno ℤ × InprocPair) :=
  if mhdr.iovlen < 0 then some (.error .EINVAL, s)
  else do
    let b ← msgFromMsghdr mem env (s.rcvmaxsize i) mhdr
    match b.result with
    | .error e => some (.error e, s)
    | .ok m =>
      match ← s.sinprocSend i m.msg alloc allocNext with
      | (.err e, s') => some (.error e, s')
      | (.ok, s') =>
        let rc := asInt m.total.toNat
        some (.ok rc, { s' with
          sent := Function.update s'.sent i (s'.sent i ++ [⟨mem, mhdr, rc, m.msg⟩]) })

/-- The checks of `mb_recvmsg` before it receives.  SRC: global.c:849-872 -/
def checkRecv (mhdr : Msghdr) : Option Errno :=
  if mhdr.iovlen < 0 then some .EINVAL
  else if 0 < mhdr.iovlen ∧ mhdr.iov = none then some .EFAULT
  else if ∃ v ∈ mhdr.vecs, 0 < v.len ∧ v.base = none then some .EFAULT
  else none

/-- The message is handed out.  SRC: global.c:909-948 -/
def deliver (mem : Mem) (mhdr : Msghdr) (m : Msg Unit) : Option GotMsg := do
  let mem₁ ← scatter m.body mhdr.vecs 0 mem
  let (mhdr', mem') := returnControl m.sphdr mhdr mem₁
  return ⟨mem, mhdr, asInt m.body.length, mhdr', mem'⟩

/-- An attempt of `mb_recvmsg` at end `i`.  SRC: global.c:835-949 -/
def recvmsg (i : Bool) (mem : Mem) (mhdr : Msghdr) (s : InprocPair) :
    Option (Except Errno ℤ × InprocPair) :=
  match checkRecv mhdr with
  | some e => some (.error e, s)
  | none => do
    match ← s.sinprocRecv i with
    | (.error e, s') => some (.error e, s')
    | (.ok m, s') => do
      let g ← deliver mem mhdr m
      some (.ok g.rc, { s' with got := Function.update s'.got i (s'.got i ++ [g]) })

/-- The sockets as they were joined. -/
def init (rcvbuf rcvmaxsize : Bool → ℤ) : InprocPair where
  queues i := MsgQueue.init (InprocSock.capacity (rcvbuf i))
  rcvbuf := rcvbuf
  rcvmaxsize := rcvmaxsize
  sent _ := []
  got _ := []

/-- The attempts of both ends in any order. -/
def system (rcvbuf rcvmaxsize : Bool → ℤ) : System InprocPair InprocPairOp where
  init := init rcvbuf rcvmaxsize
  step s
    | .sendmsg i mem env mhdr alloc allocNext =>
      (s.sendmsg i mem env mhdr alloc allocNext).map Prod.snd
    | .recvmsg i mem mhdr => (s.recvmsg i mem mhdr).map Prod.snd
    | .canSend i => some (s.syncMaxmem i)
    | .setopt i rcvbuf rcvmaxsize =>
      some { s with
        rcvbuf := Function.update s.rcvbuf i rcvbuf
        rcvmaxsize := Function.update s.rcvmaxsize i rcvmaxsize }

end InprocPair

end MsgBroker.Model
