import MsgBroker.Lib.Reach
import MsgBroker.Lib.SlotTable
import MsgBroker.Lib.Threads
import MsgBroker.Model.Pipe

/-!
# The socket table

`src/core/global.c`: the table of open sockets with its stack of free descriptors, which is
allocated by the first `mb_socket` and freed when the last socket is closed.
-/

set_option autoImplicit false

namespace MsgBroker.Model

open Lib

/-- `MB_MAX_SOCKETS`.  SRC: mb.h:70 -/
abbrev maxSockets : ℕ := 1024

/-- The address families.  SRC: mb.h:189-190 -/
def AF_MB : ℤ := 1

@[inherit_doc AF_MB]
def AF_MB_RAW : ℤ := 2

/-- An entry of `mb_socktypes`, as far as `mb_global_create_socket` reads it. -/
structure SockType where
  domain : ℤ
  protocol : ℤ
deriving DecidableEq, Repr

/-- The protocols in the order of the source; the raw ones also have the family `AF_MB`.
SRC: global.c:62-84 -/
def mbSocktypes : List SockType :=
  [16, 80, 81, 48, 49, 32, 33, 96, 64, 65, 24, 88, 89, 56, 57, 40, 41, 104, 72, 73].map
    (⟨AF_MB, ·⟩)

/-- A socket, as far as the table reads it: `stopping` is `MB_SOCK_FLAG_STOPPING`. -/
structure Sock where
  socktype : SockType
  stopping : Bool
deriving DecidableEq, Repr

/-- The block behind `g_self.socks` and `g_self.unused`. -/
structure SockTable where
  socks : Fin maxSockets → Option Sock
  unused : Fin maxSockets → Fin maxSockets

/-- `g_self`.  SRC: global.c:97-109 -/
structure Global where
  table : Option SockTable
  nsocks : ℕ
  termed : Bool
  terming : Bool
  inited : Bool
  teardowns : ℕ

/-- The arguments of `mb_socket` and what happens inside it: whether the table and the socket
can be allocated, and whether the protocol's `create` succeeds (it can only run out of
memory). -/
structure SocketArgs where
  domain : ℤ
  protocol : ℤ
  tableAlloc : Bool
  sockAlloc : Bool
  create : Bool
deriving DecidableEq, Repr

namespace Global

/-- Before the first call: static storage is zero. -/
def start : Global := ⟨none, 0, false, false, false, 0⟩

/-- A new table: no socket, the lowest descriptor on top of the stack. -/
def newTable : SockTable where
  socks _ := none
  unused := Fin.rev

/-- `mb_global_init`; `alloc` says whether the table can be allocated.
SRC: global.c:128-161 -/
def init (alloc : Bool) (g : Global) : Global :=
  if g.table.isSome then g
  else if alloc then
    { g with table := some newTable, nsocks := 0, termed := false, terming := false }
  else g

/-- `mb_global_term`.  SRC: global.c:163-182 -/
def term (g : Global) : Global :=
  match g.table with
  | none => g
  | some _ =>
    if 0 < g.nsocks then g
    else { g with table := none, teardowns := g.teardowns + 1 }

/-- The protocol that `mb_socket` asks for. -/
def findSocktype (a : SocketArgs) : Option SockType :=
  mbSocktypes.find? fun st => st.domain == a.domain && st.protocol == a.protocol

/-- `mb_global_create_socket`.  SRC: global.c:227-259 -/
def createSocket (a : SocketArgs) (g : Global) :
    Option (Except Errno (Fin maxSockets) × Global) :=
  if a.domain ≠ AF_MB ∧ a.domain ≠ AF_MB_RAW then some (.error .EAFNOSUPPORT, g)
  else if h : maxSockets ≤ g.nsocks then some (.error .EMFILE, g)
  else
    match g.table with
    -- g_self.unused is read without a table
    | none => none
    | some t =>
      let s := t.unused ⟨maxSockets - g.nsocks - 1, by omega⟩
      match findSocktype a with
      | none => some (.error .EPROTONOSUPPORT, g)
      | some st =>
        if !a.sockAlloc || !a.create then some (.error .ENOMEM, g)
        else some (.ok s, { g with
          table := some { t with socks := Function.update t.socks s (some ⟨st, false⟩) }
          nsocks := g.nsocks + 1 })

/-- What `mb_socket` does after `mb_global_create_socket`: on failure `mb_global_term`. -/
def afterCreate : Except Errno (Fin maxSockets) × Global →
    Except Errno (Fin maxSockets) × Global
  | (.ok s, g) => (.ok s, g)
  | (.error e, g) => (.error e, term g)

/-- `mb_socket`.  SRC: global.c:261-295 -/
def mbSocket (a : SocketArgs) (g : Global) :
    Option (Except Errno (Fin maxSockets) × Global) :=
  let g := { g with inited := true }
  if g.termed || g.terming then some (.error .ETERM, g)
  else (createSocket a (init a.tableAlloc g)).map afterCreate

/-- The descriptor as an index of the table. -/
def slot (s : ℤ) : Option (Fin maxSockets) :=
  if h : 0 ≤ s ∧ s < maxSockets then some ⟨s.toNat, by omega⟩ else none

/-- The socket with this descriptor, `none` also when there is no table. -/
def lookup (g : Global) (d : Fin maxSockets) : Option Sock :=
  g.table.bind fun t => t.socks d

/-- The descriptor is open. -/
def isOpen (g : Global) (s : ℤ) : Bool :=
  ((slot s).bind g.lookup).isSome

/-- The first locked region of `mb_close`: the descriptor is checked, taken out of the table
and pushed on the stack.  SRC: global.c:302-315 -/
def unpublish (s : ℤ) (g : Global) : Option (Except Errno Sock × Global) :=
  match slot s, g.table with
  | none, _ => some (.error .EBADF, g)
  | _, none => some (.error .EBADF, g)
  | some d, some t =>
    match t.socks d with
    | none => some (.error .EBADF, g)
    | some sock =>
      if h : 0 < g.nsocks ∧ g.nsocks ≤ maxSockets then
        some (.ok sock, { g with
          table := some ⟨Function.update t.socks d none,
            Function.update t.unused ⟨maxSockets - g.nsocks, by omega⟩ d⟩
          nsocks := g.nsocks - 1 })
      else none

/-- `mb_close` with no other call in progress; `linger` says that the linger time of the socket
ran out.  SRC: global.c:297-344 -/
def mbClose (s : ℤ) (linger : Bool) (g : Global) : Option (Except Errno Unit × Global) :=
  match unpublish s g with
  | none => none
  | some (.error e, g') => some (.error e, g')
  | some (.ok _, g') => some (if linger then .error .ETIMEDOUT else .ok (), term g')

/-- The loop of `mb_term` over the descriptors.  SRC: global.c:206-212 -/
def closeAll (linger : Fin maxSockets → Bool) : List (Fin maxSockets) → Global → Option Global
  | [], g => some g
  | d :: ds, g =>
    if (g.lookup d).isSome then
      (mbClose d (linger d) g).bind fun r => closeAll linger ds r.2
    else closeAll linger ds g

/-- `mb_term`.  SRC: global.c:184-220 -/
def mbTerm (linger : Fin maxSockets → Bool) (g : Global) : Option Global :=
  if !g.inited || g.termed then some g
  else
    (closeAll linger (List.finRange maxSockets) { g with terming := true }).map fun g =>
      { g with termed := true, terming := false }

/-- `mb_global_hold_socket`: the test does not ask whether there is a table.
SRC: global.c:1149-1165 -/
def holdSocket (s : ℤ) (g : Global) : Option (Except Errno Sock) :=
  match slot s, g.table with
  | none, _ => some (.error .EBADF)
  | some _, none => none
  | some d, some t =>
    match t.socks d with
    | none => some (.error .EBADF)
    | some sock => some (if sock.stopping then .error .EBADF else .ok sock)

/-- The descriptors in use. -/
def openDescriptors (g : Global) : List (Fin maxSockets) :=
  (List.finRange maxSockets).filter fun d => (g.lookup d).isSome

end Global

/-- The calls that change the table. -/
inductive GlobalCall where
  | socket (a : SocketArgs)
  | close (s : ℤ) (linger : Bool)
  | term (linger : Fin maxSockets → Bool)

namespace GlobalCall

/-- The state after a call, `none` after an access outside what is allocated. -/
def run : GlobalCall → Global → Option Global
  | .socket a, g => (Global.mbSocket a g).map Prod.snd
  | .close s linger, g => (Global.mbClose s linger g).map Prod.snd
  | .term linger, g => Global.mbTerm linger g

end GlobalCall

/-- Calls one after the other, from the start of the program. -/
def globalCalls : System Global GlobalCall where
  init := Global.start
  step g c := c.run g

/-- The calls that go through `mb_global_hold_socket`.  A message header is `none` if the
pointer is null, and otherwise its `msg_iovlen`. -/
inductive ApiCall where
  | send
  | recv
  | sendmsg (msghdr : Option ℤ)
  | recvmsg (msghdr : Option ℤ)
  | setsockopt
  | getsockopt
  | bind
  | connect
  | shutdown
  | getStatistic
deriving DecidableEq, Repr

/-- How a call ends, or the socket it goes on with. -/
inductive ApiReply where
  /-- Returns `-1` and sets `errno`. -/
  | fails (e : Errno)
  | returns (v : ℕ)
  | proceeds (sock : Sock)
deriving DecidableEq, Repr

namespace ApiCall

/-- The test that `mb_sendmsg` and `mb_recvmsg` make before anything else.
SRC: global.c:767-770, 850-853 -/
def headerOk : ApiCall → Bool
  | .sendmsg msghdr => msghdr.any (0 ≤ ·)
  | .recvmsg msghdr => msghdr.any (0 ≤ ·)
  | _ => true

/-- What the call returns when `mb_global_hold_socket` fails.
SRC: global.c:352-356, 1017-1019 -/
def refused (e : Errno) : ApiCall → ApiReply
  | .getStatistic => .returns 0
  | _ => .fails e

/-- The calls up to the point where they have the socket.
SRC: global.c:346-400 (options), 464-504 (bind, connect), 506-520 (shutdown),
536-547 (send), 622-634 (recv), 759-776 (sendmsg), 836-859 (recvmsg), 1012-1019 (statistic) -/
def run (c : ApiCall) (s : ℤ) (g : Global) : Option ApiReply :=
  if !c.headerOk then some (.fails .EINVAL)
  else
    match Global.holdSocket s g with
    | none => none
    | some (.error e) => some (c.refused e)
    | some (.ok sock) => some (.proceeds sock)

end ApiCall

/-- Where a thread is in `mb_close`. -/
inductive ClosePc where
  | idle
  /-- The socket is out of the table; `mb_sock_stop` and `mb_sock_term` have not both
  returned. -/
  | stopping
  /-- The socket is gone; the last locked region is ahead. -/
  | finishing
deriving DecidableEq, Repr

/-- What a thread does: it makes a call, or it goes on with its `mb_close`. -/
inductive GlobalAct where
  | socket (a : SocketArgs)
  | close (s : ℤ)
  | run

namespace GlobalThreads

variable {T : Type}

/-- Where `mb_close` goes on after its first locked region. -/
def afterUnpublish : Except Errno Sock × Global → ClosePc × Global
  | (.error _, g) => (.idle, g)
  | (.ok _, g) => (.stopping, g)

/-- The program of every thread; a locked region is one step.
SRC: global.c:261-295 (mb_socket), 297-344 (mb_close) -/
def program (_me : T) : GlobalAct → ClosePc → Global → Option (ClosePc × Global)
  | .socket a, .idle, g => (Global.mbSocket a g).map fun r => (.idle, r.2)
  | .close s, .idle, g => (Global.unpublish s g).map afterUnpublish
  | .run, .stopping, g => some (.finishing, g)
  | .run, .finishing, g => some (.idle, Global.term g)
  | _, _, _ => none

/-- The threads in any order. -/
def system [DecidableEq T] : System (Threads T Global ClosePc) (T × GlobalAct) :=
  interleave program ⟨Global.start, fun _ => .idle⟩

end GlobalThreads

end MsgBroker.Model
