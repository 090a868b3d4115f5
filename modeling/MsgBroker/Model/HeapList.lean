import MsgBroker.Lib.Linked
import MsgBroker.Model.Fanout

/-!
# The pipe list of a protocol, in memory

`src/utils/list.c` as it works on memory, the `add` and `rm` of the protocols that fan out, and
their fan-out loop with the session error callback that may run inside `mb_pipe_send`.
-/

set_option autoImplicit false

namespace MsgBroker.Model

open Lib

variable {π μ ε : Type} [DecidableEq π]

/-- `struct mb_list`, with the items it can reach.  SRC: list.h:4-12 -/
structure MbList (π : Type) where
  heap : Heap π
  first : Ptr π
  last : Ptr π

/-- `p->next = v`. -/
def storeNext (h : Heap π) (p v : Ptr π) : Option (Heap π) :=
  match p with
  | .to a => (h a).map fun c => Function.update h a (some { c with next := v })
  | _ => none

/-- `p->prev = v`. -/
def storePrev (h : Heap π) (p v : Ptr π) : Option (Heap π) :=
  match p with
  | .to a => (h a).map fun c => Function.update h a (some { c with prev := v })
  | _ => none

namespace MbList

/-- `mb_list_init`.  SRC: list.c:6-10 -/
def init : MbList π := ⟨fun _ => none, .null, .null⟩

/-- `mb_list_begin`.  SRC: list.c:23-26 -/
def begin (s : MbList π) : Ptr π := s.first

/-- `mb_list_next`.  SRC: list.c:41-46 -/
def next (s : MbList π) : Ptr π → Option (Ptr π)
  | .null => some .null
  | .invalid => none
  | .to a => (s.heap a).map Cell.next

/-- `mb_list_insert`.  SRC: list.c:48-68 -/
def insert (s : MbList π) (item : π) (before : Ptr π) : Option (MbList π) :=
  if before = .null then do
    let h ← storePrev s.heap (.to item) s.last
    let h ← storeNext h (.to item) .null
    if s.last = .null then
      some ⟨h, .to item, .to item⟩
    else
      let h ← storeNext h s.last (.to item)
      some ⟨h, s.first, .to item⟩
  else do
    let prev ← match before with
      | .to b => (s.heap b).map Cell.prev
      | _ => none
    let h ← storePrev s.heap (.to item) prev
    let h ← storeNext h (.to item) before
    if prev = .null then
      let h ← storePrev h before (.to item)
      some ⟨h, .to item, s.last⟩
    else
      let h ← storeNext h prev (.to item)
      let h ← storePrev h before (.to item)
      some ⟨h, s.first, s.last⟩

/-- The item before an erased one, or the list, now leads to the item after it.
SRC: list.c:73-76 -/
def relinkPrev (s : MbList π) (c : Cell π) : Option (MbList π) :=
  if c.prev = .null then some { s with first := c.next }
  else (storeNext s.heap c.prev c.next).map fun h => { s with heap := h }

/-- The item after an erased one, or the list, now leads to the item before it.
SRC: list.c:77-80 -/
def relinkNext (s : MbList π) (c : Cell π) : Option (MbList π) :=
  if c.next = .null then some { s with last := c.prev }
  else (storePrev s.heap c.next c.prev).map fun h => { s with heap := h }

/-- `mb_list_item_init` and `mb_list_item_term`, which are the same.  SRC: list.c:86-96 -/
def itemReset (s : MbList π) (item : π) : Option (MbList π) := do
  let h ← storePrev s.heap (.to item) .invalid
  let h ← storeNext h (.to item) .invalid
  some { s with heap := h }

/-- `mb_list_erase`.  What it returns is read after the links of the item were reset.
SRC: list.c:70-84 -/
def erase (s : MbList π) (item : π) : Option (Ptr π × MbList π) := do
  let c ← s.heap item
  let s ← s.relinkPrev c
  let c ← s.heap item
  let s ← s.relinkNext c
  let s ← s.itemReset item
  let c ← s.heap item
  some (c.next, s)

/-- `mb_list_item_isinlist`.  SRC: list.c:98-101 -/
def isinlist (s : MbList π) (item : π) : Option Bool :=
  (s.heap item).map fun c => c.prev != .invalid

/-- `mb_alloc` of an item; its links are not set yet and must not be followed. -/
def alloc (s : MbList π) (item : π) : MbList π :=
  { s with heap := Function.update s.heap item (some ⟨.invalid, .invalid⟩) }

/-- `mb_free` of an item. -/
def free (s : MbList π) (item : π) : MbList π :=
  { s with heap := Function.update s.heap item none }

end MbList

/-- The pipes of a protocol: the list, and the pipes whose `mb_pipe_getdata` is not
`NULL`. -/
structure PipeList (π : Type) where
  list : MbList π
  data : π → Bool

namespace PipeList

/-- No pipe is attached. -/
def init : PipeList π := ⟨.init, fun _ => false⟩

/-- The `add` of PUB, XPUB, BUS, XBUS, SURVEYOR, XSURVEYOR and XPAIR; `memory` is whether
`mb_alloc` succeeds.
SRC: bus.c:31-47, xbus.c:38-49, pub.c:87-102, xpub.c:38-49, surveyor.c:72-88,
xsurveyor.c:39-50, xpair.c:38-50 -/
def add (memory : Bool) (s : PipeList π) (p : π) : Option (Rc × PipeList π) :=
  if memory then do
    let l ← (s.list.alloc p).itemReset p
    let l ← l.insert p .null
    some (.ok, ⟨l, Function.update s.data p true⟩)
  else
    some (.err .ENOMEM, s)

/-- `mb_xsub_add`: `mb_fq_activate` moves the new item to the front.
SRC: xsub.c:25-34, fq.c:20-41 -/
def xsubAdd (memory : Bool) (s : PipeList π) (p : π) : Option (Rc × PipeList π) :=
  if memory then do
    let l ← (s.list.alloc p).itemReset p
    let l ← l.insert p .null
    let (_, l) ← l.erase p
    let l ← l.insert p l.begin
    some (.ok, ⟨l, Function.update s.data p true⟩)
  else
    some (.err .ENOMEM, s)

/-- The `rm` of the protocols; `clears` is whether it resets the data of the pipe.
SRC: bus.c:49-62, pub.c:104-116 -/
def rmItem (clears : Bool) (s : PipeList π) (p : π) : Option (PipeList π) :=
  if s.data p then do
    let listed ← s.list.isinlist p
    let l ← if listed then (s.list.erase p).map Prod.snd else some s.list
    let l ← l.itemReset p
    some ⟨l.free p, if clears then Function.update s.data p false else s.data⟩
  else
    some s

/-- The `rm` of XPUB, XSUB, BUS, XBUS, SURVEYOR and XSURVEYOR.  The open survey that
`mb_surveyor_rm` abandons with its last pipe is not in the list.
SRC: bus.c:49-62, xbus.c:51-63, xpub.c:51-63, xsub.c:36-41, surveyor.c:90-102,
xsurveyor.c:52-64 -/
def rm (s : PipeList π) (p : π) : Option (PipeList π) := s.rmItem true p

/-- The `rm` of PUB and XPAIR, after which the pipe still has the freed item as its data.
SRC: pub.c:104-116, xpair.c:52-63 -/
def rmKeeping (s : PipeList π) (p : π) : Option (PipeList π) := s.rmItem false p

end PipeList

/-- How a loop over the list ends: at the end of the list, with an undefined access, or
not within its fuel.  `calls` has the `mb_pipe_send` it made, with their answers. -/
inductive LoopEnd (π ε : Type) where
  | done (s : PipeList π) (calls : List (π × Rc)) (e : ε)
  | fault (calls : List (π × Rc))
  | unfinished

/-- `mb_pipe_send` in the list: a hard write error runs the session error callback before
the call returns, and `rm` with it.
SRC: pipe.c:175-179, sipc.c:208-252, bipc.c:46-65, sipc.c:296-300, sock.c:595-608 -/
def sendOrDie (P : Pipes π μ ε) (rm : PipeList π → π → Option (PipeList π))
    (dies : π → Bool) (msg : μ) (s : PipeList π) (p : π) (e : ε) :
    Rc × ε × Option (PipeList π) :=
  let (rc, e') := P.send p msg e
  (rc, e', if dies p then rm s p else some s)

/-- The fan-out loop from the item `it` on: `data->pipe` reads the item, and
`mb_list_next` reads it again after `mb_pipe_send`.
SRC: bus.c:103-116, xbus.c:96-109, xpair.c:100-114, xpub.c:97-111, xsub.c:79-92,
xsurveyor.c:98-112, surveyor.c:174-189, pub.c:154-168, 234-247 -/
def fanOutFrom (P : Pipes π μ ε) (rm : PipeList π → π → Option (PipeList π))
    (dies : π → Bool) (msg : μ) :
    ℕ → Ptr π → PipeList π → List (π × Rc) → ε → LoopEnd π ε
  | 0, _, _, _, _ => .unfinished
  | _ + 1, .null, s, calls, e => .done s calls e
  | _ + 1, .invalid, _, calls, _ => .fault calls
  | fuel + 1, .to p, s, calls, e =>
    match s.list.heap p with
    | none => .fault calls
    | some _ =>
      let (rc, e', s?) := sendOrDie P rm dies msg s p e
      match s? with
      | none => .fault (calls ++ [(p, rc)])
      | some s' =>
        match s'.list.next (.to p) with
        | none => .fault (calls ++ [(p, rc)])
        | some it => fanOutFrom P rm dies msg fuel it s' (calls ++ [(p, rc)]) e'

/-- The fan-out loop. -/
def fanOutHeap (P : Pipes π μ ε) (rm : PipeList π → π → Option (PipeList π))
    (dies : π → Bool) (msg : μ) (fuel : ℕ) (s : PipeList π) (e : ε) : LoopEnd π ε :=
  fanOutFrom P rm dies msg fuel s.list.begin s [] e

end MsgBroker.Model
