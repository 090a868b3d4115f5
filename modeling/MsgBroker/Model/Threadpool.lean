import MsgBroker.Lib.Reach
import MsgBroker.Model.Pipe
import MsgBroker.Model.Queue

/-!
# The thread pool

`src/aio/threadpool.c`: `nworkers` threads with a queue each, under a lock of its own.
-/

set_option autoImplicit false

namespace MsgBroker.Model

open Function (update)

open Lib

/-- Where a submitter is: in no call, or before the next access of `mb_threadpool_submit`. -/
inductive SubmitPc (K : Type) where
  | idle
  | add (task : K)
  | choose (task : K)
  | push (task : K) (idx : ℕ)
deriving DecidableEq, Repr

/-- Where a worker is: before it looks at its queue, in the function of a task, or before it takes
the task off the counter. -/
inductive WorkerPc (K : Type) where
  | look
  | execute (task : K)
  | sub
deriving DecidableEq, Repr

/-- The pool, and where its threads are. -/
structure Pool (K T V : Type) where
  pending : ℤ
  roundRobin : ℤ
  queues : ℕ → MbQueue K
  next : K → Ptr K
  submitters : T → SubmitPc K
  workers : ℕ → WorkerPc K
  /-- The thread is in `mb_threadpool_wait`. -/
  waiting : V → Bool
  /-- History: the number of submissions that have begun. -/
  submitted : ℕ
  /-- History: the tasks that each queue received, in their order.  The submission of a task returns
  when its queue has received it. -/
  received : ℕ → List K
  /-- History: the tasks that each worker began to execute. -/
  started : ℕ → List K
  /-- History: the tasks that each worker has executed. -/
  finished : ℕ → List K
  /-- History: what the queues had received when the last wait of the thread began. -/
  before : V → ℕ → List K

/-- The steps of the threads. -/
inductive PoolStep (K T V : Type) where
  | submit (t : T) (task : K)
  | fetchAdd (t : T)
  | choose (t : T)
  | push (t : T)
  | pop (w : ℕ)
  | finish (w : ℕ)
  | fetchSub (w : ℕ)
  | wait (v : V)
  | load (v : V)
deriving DecidableEq, Repr

namespace Pool

variable {K T V : Type}

/-- `mb_threadpool_init`, with all threads started.  SRC: threadpool.c:36-82 -/
def init (next : K → Ptr K) : Pool K T V where
  pending := 0
  roundRobin := 0
  queues _ := .init
  next := next
  submitters _ := .idle
  workers _ := .look
  waiting _ := false
  submitted := 0
  received _ := []
  started _ := []
  finished _ := []
  before _ _ := []

variable [DecidableEq T]

/-- `mb_atomic_fetch_add (&self->pending, 1)`.  SRC: threadpool.c:121 -/
def fetchAdd (t : T) (self : Pool K T V) : Option (Pool K T V) :=
  match self.submitters t with
  | .add task => some { self with
      pending := int32 (self.pending + 1)
      submitters := update self.submitters t (.choose task) }
  | _ => none

/-- The choice of a worker; a negative index would be outside the array.
SRC: threadpool.c:124 -/
def choose (nworkers : ℕ) (t : T) (self : Pool K T V) : Option (Pool K T V) :=
  match self.submitters t with
  | .choose task =>
    let idx := self.roundRobin.tmod nworkers
    if idx < 0 then none
    else some { self with
      roundRobin := int32 (self.roundRobin + 1)
      submitters := update self.submitters t (.push task idx.toNat) }
  | _ => none

variable [DecidableEq K]

/-- The critical section of `mb_threadpool_submit`, which then returns.
SRC: threadpool.c:125-128 -/
def push (t : T) (self : Pool K T V) : Option (Pool K T V) :=
  match self.submitters t with
  | .push task idx => do
    let (queue, next) ← (self.queues idx).push task self.next
    return { self with
      queues := update self.queues idx queue
      next := next
      submitters := update self.submitters t .idle
      received := update self.received idx (self.received idx ++ [task]) }
  | _ => none

/-- The critical section of a worker, which then calls the function of the task it found.
SRC: threadpool.c:14-30 -/
def pop (w : ℕ) (self : Pool K T V) : Option (Pool K T V) :=
  match self.workers w with
  | .look => do
    match ← (self.queues w).pop self.next with
    | (none, _, _) => return self
    | (some task, queue, next) =>
      return { self with
        queues := update self.queues w queue
        next := next
        workers := update self.workers w (.execute task)
        started := update self.started w (self.started w ++ [task]) }
  | _ => none

/-- The function of the task returns.  SRC: threadpool.c:30 -/
def finish (w : ℕ) (self : Pool K T V) : Option (Pool K T V) :=
  match self.workers w with
  | .execute task => some { self with
      workers := update self.workers w .sub
      finished := update self.finished w (self.finished w ++ [task]) }
  | _ => none

/-- `mb_atomic_fetch_sub (&pool->pending, 1)`.  SRC: threadpool.c:31-32 -/
def fetchSub (w : ℕ) (self : Pool K T V) : Option (Pool K T V) :=
  match self.workers w with
  | .sub => some { self with
      pending := int32 (self.pending - 1)
      workers := update self.workers w .look }
  | _ => none

variable [DecidableEq V]

/-- `mb_threadpool_wait` loads the counter, and returns or goes on.  SRC: threadpool.c:133-137 -/
def load (v : V) (self : Pool K T V) : Option (Pool K T V) :=
  if self.waiting v then
    some { self with waiting := update self.waiting v (decide (0 < self.pending)) }
  else none

/-- One step of a pool of `nworkers`. -/
def step (nworkers : ℕ) (self : Pool K T V) : PoolStep K T V → Option (Pool K T V)
  | .submit t task =>
    match self.submitters t with
    | .idle => some { self with
        submitters := update self.submitters t (.add task)
        submitted := self.submitted + 1 }
    | _ => none
  | .fetchAdd t => self.fetchAdd t
  | .choose t => self.choose nworkers t
  | .push t => self.push t
  | .pop w => if w < nworkers then self.pop w else none
  | .finish w => self.finish w
  | .fetchSub w => self.fetchSub w
  | .wait v =>
    if self.waiting v then none
    else some { self with
      waiting := update self.waiting v true
      before := update self.before v self.received }
  | .load v => self.load v

end Pool

/-- The pool with its threads. -/
def threadpool {K T V : Type} [DecidableEq K] [DecidableEq T] [DecidableEq V] (nworkers : ℕ)
    (next : K → Ptr K) : System (Pool K T V) (PoolStep K T V) where
  init := .init next
  step := Pool.step nworkers

/-- The task of a submission that has not been put into a queue yet. -/
def SubmitPc.task {K : Type} : SubmitPc K → Option K
  | .idle => none
  | .add task | .choose task | .push task _ => some task

/-- A task that is submitted is not being submitted already and is in no queue, and there are fewer
than `2 ^ 31` submissions. -/
def PoolStep.Allowed {K T V : Type} (s : Pool K T V) : PoolStep K T V → Prop
  | .submit _ task =>
    s.submitted + 1 < 2 ^ 31 ∧ (∀ t, (s.submitters t).task ≠ some task) ∧
      ∀ w, task ∉ (s.received w).drop (s.started w).length
  | _ => True

/-! ## The choices of the workers alone -/

/-- The counter, and the index that each submission used, whether it is in the array or not. -/
structure Dispatch where
  roundRobin : ℤ
  used : List ℤ
deriving DecidableEq, Repr

/-- A submission chooses its worker.  SRC: threadpool.c:124 -/
def Dispatch.choose (nworkers : ℕ) (self : Dispatch) : Dispatch where
  roundRobin := int32 (self.roundRobin + 1)
  used := self.used ++ [self.roundRobin.tmod nworkers]

/-- Any number of submissions by the threads `T` over the lifetime of a pool of `nworkers`. -/
def dispatch (T : Type) (nworkers : ℕ) : System Dispatch T where
  init := ⟨0, []⟩
  step s _ := some (s.choose nworkers)

end MsgBroker.Model
