import Mathlib.Logic.Function.Basic
import MsgBroker.Lib.Reach

/-!
# Coroutines

`src/aio/coroutine.c` on POSIX: a coroutine has a state, the context it continues in and the context
of its caller, and one global pointer names the current coroutine.
-/

set_option autoImplicit false

namespace MsgBroker.Model

open Lib

/-- `enum mb_coro_state`. -/
inductive CoroState where
  | ready
  | running
  | yielded
  | done
deriving DecidableEq, Repr

/-- `struct mb_coro`, where `none` stands for the flow of the thread.  SRC: coroutine.h:21-35 -/
structure Coro (C : Type) where
  state : CoroState
  uctx : Option C
  callerUctx : Option C
deriving DecidableEq, Repr

/-- A change of contexts: into a coroutine, or out of one. -/
inductive CoroSwitch where
  | enter
  | leave
deriving DecidableEq, Repr

/-- The coroutines that exist, `g_current_coro`, and the flow that executes. -/
structure Coros (C : Type) where
  coros : C → Option (Coro C)
  current : Option C
  executing : Option C

namespace Coros

variable {C : Type} [DecidableEq C]

/-- `mb_coro_create` with the address that is allocated.  SRC: coroutine.c:87-103 -/
def create (answer : Option C) (s : Coros C) : Coros C :=
  match answer with
  | none => s
  | some c => { s with coros := Function.update s.coros c (some ⟨.ready, none, none⟩) }

/-- `mb_coro_destroy`.  SRC: coroutine.c:105-112 -/
def destroy (coro : Option C) (s : Coros C) : Option (Coros C) :=
  match coro with
  | none => some s
  | some c => do
    let _ ← s.coros c
    return { s with coros := Function.update s.coros c none }

/-- A coroutine is entered.  SRC: coroutine.c:133-136, 139-142 -/
def enter (c : C) (coro : Coro C) (s : Coros C) : Option CoroSwitch × Coros C :=
  (some .enter,
    { coros := Function.update s.coros c
        (some { coro with state := .running, callerUctx := s.executing })
      current := some c
      executing := coro.uctx })

/-- `mb_coro_resume`; the first time `makecontext` makes a flow for the coroutine.
SRC: coroutine.c:121-143 -/
def resume (c : C) (s : Coros C) : Option (Option CoroSwitch × Coros C) := do
  let coro ← s.coros c
  match coro.state with
  | .done => return (none, s)
  | .ready => return s.enter c { coro with uctx := some c }
  | .running | .yielded => return s.enter c coro

/-- `mb_coro_yield`.  SRC: coroutine.c:145-153 -/
def yield (arg : Option C) (s : Coros C) : Option (Option CoroSwitch × Coros C) :=
  match arg.or s.current with
  | none => some (none, s)
  | some c => do
    let coro ← s.coros c
    if coro.state ≠ .running then return (none, s)
    return (some .leave,
      { s with
        coros := Function.update s.coros c
          (some { coro with state := .yielded, uctx := s.executing })
        executing := coro.callerUctx })

/-- The function of the coroutine that executes returns: `mb_coro_entry` ends, and the flow goes on
at `uc_link`.  SRC: coroutine.c:114-119, 130 -/
def finish (s : Coros C) : Option (Option CoroSwitch × Coros C) := do
  let c ← s.executing
  let coro ← s.coros c
  return (some .leave,
    { s with
      coros := Function.update s.coros c (some { coro with state := .done })
      executing := coro.callerUctx })

end Coros

/-- The calls, and the end of a coroutine. -/
inductive CoroCall (C : Type) where
  | create (answer : Option C)
  | destroy (coro : Option C)
  | resume (coro : C)
  | yield (coro : Option C)
  | finish
deriving DecidableEq, Repr

/-- What one call does, and the change of contexts it makes. -/
def Coros.call {C : Type} [DecidableEq C] (s : Coros C) :
    CoroCall C → Option (Option CoroSwitch × Coros C)
  | .create answer => some (none, s.create answer)
  | .destroy coro => (s.destroy coro).map fun t => (none, t)
  | .resume coro => s.resume coro
  | .yield coro => s.yield coro
  | .finish => s.finish

/-- Any calls on one thread that has no coroutine yet, with the last change of contexts. -/
def coroutines (C : Type) [DecidableEq C] :
    System (Coros C × Option CoroSwitch) (CoroCall C) where
  init := (⟨fun _ => none, none, none⟩, none)
  step s l := (s.1.call l).map fun r => (r.2, r.1.or s.2)

/-- A well-nested call: memory that is allocated is not in use, a coroutine that is resumed or
destroyed has not been entered, and a coroutine yields for itself. -/
def CoroCall.WellNested {C : Type} (s : Coros C × Option CoroSwitch) : CoroCall C → Prop
  | .create answer => ∀ c ∈ answer, s.1.coros c = none
  | .destroy coro => ∀ c ∈ coro, ∀ r ∈ s.1.coros c, r.state ≠ .running
  | .resume c => ∀ r ∈ s.1.coros c, r.state ≠ .running
  | .yield coro => coro = none ∨ coro = s.1.executing
  | .finish => True

instance {C : Type} [DecidableEq C] (s : Coros C × Option CoroSwitch) :
    (l : CoroCall C) → Decidable (l.WellNested s)
  | .create answer => inferInstanceAs (Decidable (∀ c ∈ answer, s.1.coros c = none))
  | .destroy coro =>
    inferInstanceAs (Decidable (∀ c ∈ coro, ∀ r ∈ s.1.coros c, r.state ≠ .running))
  | .resume c => inferInstanceAs (Decidable (∀ r ∈ s.1.coros c, r.state ≠ .running))
  | .yield coro => inferInstanceAs (Decidable (coro = none ∨ coro = s.1.executing))
  | .finish => isTrue trivial

end MsgBroker.Model
