import Mathlib.Algebra.GroupWithZero.Nat
import Mathlib.Algebra.Ring.Int.Defs
import Mathlib.Data.List.Basic
import Mathlib.Tactic.Common

/-!
# Return codes and pipes

What every protocol of `src/protocol` is written against: the integer return code of a C function
(`0` or a negated `errno`), and the four calls of `src/core/pipe.c` through which a protocol reaches
a transport (`mb_pipe_send`, `mb_pipe_recv`, `mb_pipe_has_msg`, `mb_pipe_can_send`).
-/

set_option autoImplicit false

namespace MsgBroker.Model

/-- What an `int` holds of an integer that was stored in it: the low 32 bits. -/
def int32 (x : ℤ) : ℤ := (x + 2 ^ 31) % 2 ^ 32 - 2 ^ 31

/-- INTERNAL: an integer that fits an `int` is kept. -/
theorem int32_eq {x : ℤ} (hlo : -2 ^ 31 ≤ x) (hhi : x < 2 ^ 31) : int32 x = x := by
  unfold int32
  omega

/-- The `errno` values the modelled functions return. -/
inductive Errno where
  | EAGAIN
  | EFSM
  | ENOMEM
  | EISCONN
  | EMSGSIZE
  | ECONNRESET
  | EPROTO
  | EINVAL
  | EBADF
  | EFAULT
  | EOPNOTSUPP
  | ETIMEDOUT
  | EAFNOSUPPORT
  | EPROTONOSUPPORT
  | EMFILE
  | ETERM
  | EEXIST
  | ENOENT
  | EADDRINUSE
  | ENOPROTOOPT
  | sys (code : ℕ)
deriving DecidableEq, Repr

/-- A return code: `0`, or a negated `errno`. -/
inductive Rc where
  | ok
  | err (e : Errno)
deriving DecidableEq, Repr

/-- The return code `-EAGAIN`. -/
abbrev Rc.again : Rc := .err .EAGAIN

/-- What a protocol sees of its pipes: `π` names pipes, `μ` is the type of messages
and `ε` the state behind all pipes.  A successful `recv` hands out the message.
SRC: pipe.c:175-203 -/
structure Pipes (π μ ε : Type) where
  send : π → μ → ε → Rc × ε
  recv : π → ε → Except Errno μ × ε
  hasMsg : π → ε → Bool × ε
  canSend : π → ε → Bool × ε

/-- The same pipes with a log of the copies they take. -/
def Pipes.logged {π μ ε : Type} (ops : Pipes π μ ε) : Pipes π μ (ε × List (π × μ)) where
  send p m e :=
    let (rc, e') := ops.send p m e.1
    (rc, e', if rc = .ok then e.2 ++ [(p, m)] else e.2)
  recv p e :=
    let (res, e') := ops.recv p e.1
    (res, e', e.2)
  hasMsg p e :=
    let (b, e') := ops.hasMsg p e.1
    (b, e', e.2)
  canSend p e :=
    let (b, e') := ops.canSend p e.1
    (b, e', e.2)

end MsgBroker.Model
