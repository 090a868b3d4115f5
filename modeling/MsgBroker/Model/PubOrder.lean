import MsgBroker.Model.PubRun

/-!
# In which order a PUB socket serves its pipe

A PUB socket with one pipe. `accepted` lists the messages the pipe takes during a call of
`mb_pub_send`, as the call reports them, each with the buckets at the moment it is taken: those a
drain offers are still in their bucket then, the new message is in none.
-/

set_option autoImplicit false

namespace MsgBroker.Model

open Lib

/-- A message a pipe took, and what the buckets held at that moment. -/
structure Acceptance (τ : Type) where
  msg : Msg τ
  buckets : Fin 8 → List (Msg τ)

namespace Pub

variable {π τ ε : Type}

/-- Messages that are taken one after the other, with the buckets at that moment; a retained message
leaves its bucket when it has been taken. -/
def heldAt [DecidableEq τ] : (Fin 8 → List (Msg τ)) → List (Msg τ) → List (Acceptance τ)
  | _, [] => []
  | buckets, m :: ms => ⟨m, buckets⟩ :: heldAt (fun level => (buckets level).erase m) ms

/-- What the one pipe takes during `mb_pub_send`: the messages that the drain removes, and the new
one if the answer is 0.  SRC: pub.c:215-298 -/
def accepted [DecidableEq τ] (P : Pipes π (Msg τ) ε) (alloc : π → Bool) (msg : Msg τ)
    (self : Pub π τ) (e : ε) : List (Acceptance τ) :=
  let (rc, _, _, removed, _) := self.send P alloc msg e
  heldAt self.buckets (removed.map Prod.fst ++ if rc = .ok then [msg] else [])

/-- The number of retained messages of at least this priority. -/
def ahead (prio : Fin 8) (self : Pub π τ) : ℕ :=
  ((levels.filter (prio ≤ ·)).flatMap self.buckets).length

end Pub

/-- No other message in the buckets goes before this one: none of a higher priority is there, and
none of the same priority that was sent earlier. -/
def Acceptance.InOrder (a : Acceptance ℕ) : Prop :=
  ∀ prio, Pub.prioDecode a.msg = some prio →
    (∀ level, prio < level → a.buckets level = []) ∧
    ∀ m ∈ a.buckets prio, ¬ m.tag < a.msg.tag

instance (a : Acceptance ℕ) : Decidable a.InOrder :=
  inferInstanceAs (Decidable (∀ prio, Pub.prioDecode a.msg = some prio →
    (∀ level, prio < level → a.buckets level = []) ∧ ∀ m ∈ a.buckets prio, ¬ m.tag < a.msg.tag))

namespace PubRun

variable {π : Type} [DecidableEq π]

/-- A socket with the one pipe `p`. -/
def onePipe (p : π) : System (PubRun π) (PubOp π) :=
  ⟨⟨⟨[p], fun _ => [], 0⟩, 0, [], []⟩, step⟩

/-- The calls considered: sends with a valid priority. -/
def ValidSend (_ : PubRun π) : PubOp π → Prop
  | .send sphdr body _ _ _ _ => (Pub.prioDecode (⟨sphdr, body, 0⟩ : Msg ℕ)).isSome = true
  | _ => False

instance (s : PubRun π) : (op : PubOp π) → Decidable (ValidSend s op)
  | .send sphdr body _ _ _ _ =>
    inferInstanceAs (Decidable ((Pub.prioDecode (⟨sphdr, body, 0⟩ : Msg ℕ)).isSome = true))
  | .add _ _ => isFalse id
  | .rm _ => isFalse id

/-- What the pipe takes during the next call. -/
def acceptedBy (s : PubRun π) (sphdr body : List UInt8) (can fan : π → Bool)
    (drain : ℕ → π → Bool) (alloc : π → Bool) : List (Acceptance ℕ) :=
  s.pub.accepted PubEnv.pipes alloc ⟨sphdr, body, s.calls⟩
    ⟨s.calls, can, fan, drain, fun _ => 0, s.log⟩

end PubRun

end MsgBroker.Model
