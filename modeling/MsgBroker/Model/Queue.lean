import MsgBroker.Lib.Linked

/-!
# The intrusive queue

`mb_queue` of `src/utils/queue.c`: the head and the tail of a chain of items, whose pointers belong
to the items.
-/

set_option autoImplicit false

namespace MsgBroker.Model

open Lib

/-- `struct mb_queue`. -/
structure MbQueue (K : Type) where
  head : Ptr K
  tail : Ptr K
deriving DecidableEq, Repr

namespace MbQueue

variable {K : Type} [DecidableEq K]

/-- `mb_queue_init`.  SRC: queue.c:9-13 -/
def init : MbQueue K := ⟨.null, .null⟩

/-- `mb_queue_push`; `next` has the pointers of the items.  SRC: queue.c:26-34 -/
def push (self : MbQueue K) (item : K) (next : K → Ptr K) : Option (MbQueue K × (K → Ptr K)) :=
  let next := Function.update next item .null
  match self.tail with
  | .null => some (⟨.to item, .to item⟩, next)
  | .to t => some (⟨self.head, .to item⟩, Function.update next t (.to item))
  | .invalid => none

/-- `mb_queue_pop`.  SRC: queue.c:57-68 -/
def pop (self : MbQueue K) (next : K → Ptr K) : Option (Option K × MbQueue K × (K → Ptr K)) :=
  match self.head with
  | .null => some (none, self, next)
  | .to result =>
    let head := next result
    let tail := if head = .null then .null else self.tail
    some (some result, ⟨head, tail⟩, Function.update next result .invalid)
  | .invalid => none

end MbQueue

end MsgBroker.Model
