import MsgBroker.Model.Pipe

/-!
# The fan-out loop

PUB, XPUB, XSUB, BUS, XBUS, SURVEYOR, XSURVEYOR and XPAIR send a copy of the message to every
attached pipe, in the order of the list, and count the pipes that take it.
-/

set_option autoImplicit false

namespace MsgBroker.Model

variable {π μ ε : Type}

/-- The fan-out loop, with the answer of each pipe.
SRC: bus.c:103-116, xbus.c:96-109, xpair.c:100-114, xpub.c:97-111, xsub.c:79-92,
xsurveyor.c:98-112, surveyor.c:174-189, pub.c:154-168 -/
def fanOut (P : Pipes π μ ε) (msg : μ) : List π → ε → List Rc × ε
  | [], e => ([], e)
  | p :: ps, e =>
    let (rc, e₁) := P.send p msg e
    let (rcs, e₂) := fanOut P msg ps e₁
    (rc :: rcs, e₂)

theorem length_fanOut (P : Pipes π μ ε) (msg : μ) (ps : List π) (e : ε) :
    (fanOut P msg ps e).1.length = ps.length := by
  induction ps generalizing e with
  | nil => rfl
  | cons p ps ih => exact congrArg (· + 1) (ih (P.send p msg e).2)

/-- The number of pipes that took the copy. -/
def sentCount (rcs : List Rc) : ℕ := rcs.count .ok

end MsgBroker.Model
