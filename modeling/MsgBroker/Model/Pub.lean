import Mathlib.Algebra.GroupWithZero.Nat
import Mathlib.Data.Fin.Basic
import Mathlib.Data.List.FinRange
import Mathlib.Logic.Function.Basic
import MsgBroker.Model.Fanout

/-!
# The PUB socket

`mb_pub_send` sends to every attached pipe, and puts one copy of the message into a bucket for every
pipe that refuses it.
-/

set_option autoImplicit false

namespace MsgBroker.Model

/-- A message, and a mark to follow its copies by.  SRC: msg.h:6-10 -/
structure Msg (τ : Type) where
  sphdr : List UInt8
  body : List UInt8
  tag : τ
deriving DecidableEq, Repr

/-- An `int` copied from memory on a little-endian host. -/
def hostInt (b : List UInt8) : ℤ :=
  Int.bmod ((b.getD 0 0).toNat + (b.getD 1 0).toNat * 2 ^ 8 + (b.getD 2 0).toNat * 2 ^ 16 +
    (b.getD 3 0).toNat * 2 ^ 24 : ℕ) (2 ^ 32)

/-- The socket: the attached pipes, the buckets, and the gauge
`MB_STAT_CURRENT_SND_PRIORITY` it keeps.  SRC: pub.c:24-41 -/
structure Pub (π τ : Type) where
  pipes : List π
  buckets : Fin 8 → List (Msg τ)
  sndPriority : ℕ

namespace Pub

variable {π τ ε : Type}

/-- `mb_pub_create`.  SRC: pub.c:320-338 -/
def create : Pub π τ := ⟨[], fun _ => [], 0⟩

/-- `MB_PUB_PRIO_NORMAL`. -/
def prioNormal : Fin 8 := 4

/-- The buckets from the highest priority to the lowest. -/
def levels : List (Fin 8) := (List.finRange 8).reverse

/-- `mb_pub_prio_decode`; `none` is `-1`.  SRC: pub.c:66-84 -/
def prioDecode (msg : Msg τ) : Option (Fin 8) :=
  if msg.sphdr.length < 4 then some prioNormal
  else if h : 0 ≤ hostInt msg.sphdr ∧ hostInt msg.sphdr < 8 then
    some ⟨(hostInt msg.sphdr).toNat, by omega⟩
  else none

/-- `mb_pub_add`; `alloc` tells whether the list item can be allocated.  SRC: pub.c:86-101 -/
def add (p : π) (alloc : Bool) (self : Pub π τ) : Rc × Pub π τ :=
  if alloc then (.ok, { self with pipes := self.pipes ++ [p] }) else (.err .ENOMEM, self)

/-- `mb_pub_rm`.  SRC: pub.c:103-115 -/
def rm [DecidableEq π] (p : π) (self : Pub π τ) : Pub π τ :=
  { self with pipes := self.pipes.erase p }

variable (P : Pipes π (Msg τ) ε)

/-- The loop that looks for a pipe that can send.  SRC: pub.c:138-143, 183-192 -/
def anyCanSend : List π → ε → Bool × ε
  | [], e => (false, e)
  | p :: ps, e =>
    match P.canSend p e with
    | (true, e') => (true, e')
    | (false, e') => anyCanSend ps e'

/-- `mb_pub_events`: whether `EVENT_OUT` is reported.  SRC: pub.c:127-145 -/
def events (self : Pub π τ) (e : ε) : Bool × ε := anyCanSend P self.pipes e

/-- `mb_pub_try_drain_one`: whether some pipe took the message.  SRC: pub.c:147-175 -/
def tryDrainOne (pipes : List π) (pi : Msg τ) (e : ε) : Bool × ε :=
  let (rcs, e') := fanOut P pi pipes e
  (sentCount rcs > 0, e')

/-- The inner loop of `mb_pub_drain_buckets` on one bucket: whether the outer loop goes on,
what is left in the bucket, and, for each message removed, the state behind the pipes at
that moment.  SRC: pub.c:197-211 -/
def drainBucket (pipes : List π) :
    List (Msg τ) → ε → Bool × List (Msg τ) × List (Msg τ × ε) × ε
  | [], e => (true, [], [], e)
  | pi :: rest, e =>
    match tryDrainOne P pipes pi e with
    | (false, e') => (false, pi :: rest, [], e')
    | (true, e') =>
      let (goOn, left, removed, e'') := drainBucket pipes rest e'
      (goOn, left, (pi, e') :: removed, e'')

/-- The outer loop of `mb_pub_drain_buckets`.  SRC: pub.c:196-212 -/
def drainLevels (pipes : List π) :
    List (Fin 8) → (Fin 8 → List (Msg τ)) → ε → (Fin 8 → List (Msg τ)) × List (Msg τ × ε) × ε
  | [], buckets, e => (buckets, [], e)
  | level :: rest, buckets, e =>
    match drainBucket P pipes (buckets level) e with
    | (false, left, removed, e') => (Function.update buckets level left, removed, e')
    | (true, left, removed, e') =>
      let (buckets', removed', e'') :=
        drainLevels pipes rest (Function.update buckets level left) e'
      (buckets', removed ++ removed', e'')

/-- `mb_pub_drain_buckets`.  SRC: pub.c:177-213 -/
def drainBuckets (self : Pub π τ) (e : ε) : Pub π τ × List (Msg τ × ε) × ε :=
  match anyCanSend P self.pipes e with
  | (false, e') => (self, [], e')
  | (true, e') =>
    let (buckets, removed, e'') := drainLevels P self.pipes levels self.buckets e'
    ({ self with buckets := buckets }, removed, e'')

/-- The number of copies the fan-out retains: one for each pipe that refused, if it can be
allocated.  SRC: pub.c:246-265 -/
def retained (alloc : π → Bool) (pipes : List π) (rcs : List Rc) : ℕ :=
  (pipes.zip rcs).countP fun x => x.2 ≠ .ok ∧ alloc x.1

/-- The highest level with a retained message.  SRC: pub.c:268-275 -/
def highest (self : Pub π τ) : ℕ :=
  ((levels.find? fun level => !(self.buckets level).isEmpty).map Fin.val).getD 0

/-- `mb_pub_send` behind the drain.  The message handed back has its `SP_HDR` dropped.
SRC: pub.c:229-298 -/
def fanOutMsg (alloc : π → Bool) (msg : Msg τ) (self : Pub π τ) (e : ε) :
    Rc × Msg τ × Pub π τ × ε :=
  match prioDecode msg with
  | none => (.err .EINVAL, msg, self, e)
  | some prio =>
    let (rcs, e') := fanOut P msg self.pipes e
    let bucket := self.buckets prio ++ List.replicate (retained alloc self.pipes rcs) msg
    let self' := { self with buckets := Function.update self.buckets prio bucket }
    let rc : Rc := if self.pipes.isEmpty then .ok else if sentCount rcs > 0 then .ok else .again
    (rc, { msg with sphdr := [] }, { self' with sndPriority := self'.highest }, e')

/-- `mb_pub_send`, with the messages its drain removed.  SRC: pub.c:215-298 -/
def send (alloc : π → Bool) (msg : Msg τ) (self : Pub π τ) (e : ε) :
    Rc × Msg τ × Pub π τ × List (Msg τ × ε) × ε :=
  let (self', removed, e') := drainBuckets P self e
  let (rc, msg', self'', e'') := fanOutMsg P alloc msg self' e'
  (rc, msg', self'', removed, e'')

end Pub

end MsgBroker.Model
