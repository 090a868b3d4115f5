import Mathlib.Data.Fintype.Option
import Mathlib.Logic.Function.Basic
import MsgBroker.Lib.Reach

/-!
# The queue with many producers and one consumer

`mb_mpsc_queue` of `src/utils/queue.c`, one access to shared memory a step: the stores to and loads
of `next`, the loads of `producer_tail` and the compare-exchanges on it.
-/

set_option autoImplicit false

namespace MsgBroker.Model

open Lib

/-- An item of the queue: the stub that it owns, or one of the users. -/
inductive MpscNode (I : Type) where
  | stub
  | item (i : I)
deriving DecidableEq, Repr

/-- The users' item. -/
def MpscNode.item? {I : Type} : MpscNode I → Option I
  | .stub => none
  | .item i => some i

/-- Where a thread is in `mb_mpsc_queue_push`.  SRC: queue.c:138-150 -/
inductive PushPc (I : Type) where
  | idle
  /-- Before `item->next` is cleared. -/
  | clear (item : MpscNode I)
  | loadTail (item : MpscNode I)
  | exchange (item prev : MpscNode I)
  /-- Between the compare-exchange and the store to `prev->next`. -/
  | link (item prev : MpscNode I)
deriving DecidableEq, Repr

/-- The item that a thread is pushing. -/
def PushPc.pushing {I : Type} : PushPc I → Option (MpscNode I)
  | .idle => none
  | .clear item => some item
  | .loadTail item => some item
  | .exchange item _ => some item
  | .link item _ => some item

/-- Where the consumer is in `mb_mpsc_queue_pop`.  SRC: queue.c:152-188 -/
inductive PopPc (I : Type) where
  | idle
  /-- Before the first load of `head->next`. -/
  | loadNext
  /-- The head is the stub and `next` follows it. -/
  | skipStub (next : MpscNode I)
  /-- Before the load of `head->next` after the stub. -/
  | loadNextAgain
  /-- The head has no next; before the load of `producer_tail`. -/
  | loadTail
  /-- The stub is pushed, and then `head->next` is loaded. -/
  | pushStub
deriving DecidableEq, Repr

/-- The queue and its threads: `push none` is the push of the stub by the consumer.  `order` has the
items in the order of their compare-exchanges, `results` what the pops returned, and `seen` says
whether at some instant of the present pop all items were popped or a push was on its way to link
its item. -/
structure Mpsc (I T : Type) where
  next : MpscNode I → Option (MpscNode I)
  producerTail : MpscNode I
  head : MpscNode I
  push : Option T → PushPc I
  pop : PopPc I
  order : List I
  results : List (Option (MpscNode I))
  seen : Prop

namespace Mpsc

variable {I T : Type}

/-- The items that were popped. -/
def popped (s : Mpsc I T) : List I := s.results.filterMap fun r => r.bind MpscNode.item?

/-- Every pushed item has been popped, or some push is between its compare-exchange and its store to
`prev->next`. -/
def Open (s : Mpsc I T) : Prop :=
  s.popped = s.order ∨ ∃ t item prev, s.push (some t) = .link item prev

variable [DecidableEq I] [DecidableEq T]

/-- `mb_mpsc_queue_push` is called.  SRC: queue.c:138-139 -/
def start (s : Mpsc I T) (t : Option T) (item : MpscNode I) : Mpsc I T :=
  { s with push := Function.update s.push t (.clear item) }

/-- One step of `mb_mpsc_queue_push`; the weak compare-exchange may fail without a reason.
SRC: queue.c:141-149 -/
def pushStep (s : Mpsc I T) (t : Option T) (spurious : Bool) : Option (Mpsc I T) :=
  match s.push t with
  | .idle => none
  | .clear item =>
    some { s with next := Function.update s.next item none,
                  push := Function.update s.push t (.loadTail item) }
  | .loadTail item =>
    some { s with push := Function.update s.push t (.exchange item s.producerTail) }
  | .exchange item prev =>
    if s.producerTail = prev ∧ spurious = false then
      some { s with producerTail := item, order := s.order ++ item.item?.toList,
                    push := Function.update s.push t (.link item prev) }
    else some { s with push := Function.update s.push t (.loadTail item) }
  | .link item prev =>
    some { s with next := Function.update s.next prev (some item),
                  push := Function.update s.push t .idle }

/-- The pop returns. -/
def answer (s : Mpsc I T) (r : Option (MpscNode I)) : Mpsc I T :=
  { s with pop := .idle, results := s.results ++ [r] }

/-- `self->head = next; return head`.  SRC: queue.c:168-169, 183-184 -/
def take (s : Mpsc I T) (next : MpscNode I) : Mpsc I T :=
  { s with head := next }.answer (some s.head)

/-- One step of `mb_mpsc_queue_pop`.  SRC: queue.c:152-188 -/
def popStep (s : Mpsc I T) : Option (Mpsc I T) :=
  match s.pop with
  | .idle => some { s with pop := .loadNext }
  | .loadNext =>
    match s.next s.head with
    | none => some (if s.head = .stub then s.answer none else { s with pop := .loadTail })
    | some next => some (if s.head = .stub then { s with pop := .skipStub next } else s.take next)
  | .skipStub next =>
    some { s with next := Function.update s.next .stub none, head := next, pop := .loadNextAgain }
  | .loadNextAgain =>
    match s.next s.head with
    | none => some { s with pop := .loadTail }
    | some next => some (s.take next)
  | .loadTail =>
    some (if s.producerTail = s.head then { s.start none .stub with pop := .pushStub }
      else s.answer none)
  | .pushStub =>
    if s.push none = .idle then
      match s.next s.head with
      | none => some (s.answer none)
      | some next => some (s.take next)
    else none

/-- The step from `s` to `t` is watched: a new pop forgets what the last one has seen. -/
def watch (s t : Mpsc I T) : Mpsc I T := { t with seen := s.pop ≠ .idle ∧ s.seen ∨ t.Open }

end Mpsc

/-- The steps of the threads. -/
inductive MpscStep (I T : Type) where
  | start (t : T) (item : I)
  /-- A thread in a push takes its next step. -/
  | push (t : Option T) (spurious : Bool)
  | pop
deriving DecidableEq, Repr

/-- The producers `T` and one consumer, on a queue that `mb_mpsc_queue_init` made; `next` is what
the memory of the users' items holds.  SRC: queue.c:110-119 -/
def mpsc {I : Type} (T : Type) [DecidableEq I] [DecidableEq T]
    (next : MpscNode I → Option (MpscNode I)) : System (Mpsc I T) (MpscStep I T) where
  init :=
    { next := Function.update next .stub none, producerTail := .stub, head := .stub
      push := fun _ => .idle, pop := .idle, order := [], results := [], seen := True }
  step s
    | .start t item =>
      if s.push (some t) = .idle then some (s.watch (s.start (some t) (.item item))) else none
    | .push t spurious => (s.pushStep t spurious).map s.watch
    | .pop => s.popStep.map s.watch

/-- No other thread is pushing the new item, and it is not in the queue. -/
def MpscStep.Allowed {I T : Type} (s : Mpsc I T) : MpscStep I T → Prop
  | .start _ item =>
    (∀ t, (s.push t).pushing ≠ some (.item item)) ∧ item ∉ s.order.drop s.popped.length
  | _ => True

instance {I T : Type} [DecidableEq I] [Fintype T] (s : Mpsc I T) :
    (l : MpscStep I T) → Decidable (MpscStep.Allowed s l)
  | .start _ item => inferInstanceAs (Decidable
      ((∀ t, (s.push t).pushing ≠ some (.item item)) ∧ item ∉ s.order.drop s.popped.length))
  | .push _ _ => .isTrue trivial
  | .pop => .isTrue trivial

end MsgBroker.Model
