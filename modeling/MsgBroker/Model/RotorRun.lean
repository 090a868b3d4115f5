import MsgBroker.Model.LoadBalance

/-!
# A load balancer or a fair queue in use

Calls of `mb_lb_send` and `mb_fq_recv_pipe` on one list of pipes, while no pipe comes or goes.
-/

set_option autoImplicit false

namespace MsgBroker.Model

/-- What stands behind the pipes during one call. -/
structure RotorEnv (π μ : Type) where
  ready : π → Bool
  msgs : π → μ
  served : List π

namespace RotorEnv

variable {π μ : Type}

/-- A call that begins: nothing has been served. -/
def start (ready : π → Bool) (msgs : π → μ) : RotorEnv π μ := ⟨ready, msgs, []⟩

/-- The pipe took or gave a message. -/
def serve (p : π) (e : RotorEnv π μ) : RotorEnv π μ := { e with served := e.served ++ [p] }

/-- Pipes that are ready or answer `-EAGAIN`. -/
def pipes : Pipes π μ (RotorEnv π μ) where
  send p _ e := if e.ready p then (.ok, e.serve p) else (.again, e)
  recv p e := if e.ready p then (.ok (e.msgs p), e.serve p) else (.error .EAGAIN, e)
  hasMsg p e := (e.ready p, e)
  canSend p e := (e.ready p, e)

end RotorEnv

/-- A call, with the pipes that are ready during it. -/
inductive RotorOp (π μ : Type) where
  | lbSend (ready : π → Bool) (msg : μ)
  | fqRecvPipe (ready : π → Bool) (msgs : π → μ)

namespace RotorOp

variable {π μ : Type}

/-- The pipes that are ready during the call. -/
def ready : RotorOp π μ → π → Bool
  | lbSend r _ => r
  | fqRecvPipe r _ => r

/-- The pipes served by the call, and the list after it. -/
def exec (self : Rotor π) : RotorOp π μ → List π × Rotor π
  | lbSend r msg =>
    let (_, lb, e) := self.lbSend RotorEnv.pipes msg (RotorEnv.start r fun _ => msg)
    (e.served, lb)
  | fqRecvPipe r msgs =>
    let (_, fq, e) := self.fqRecvPipe RotorEnv.pipes (RotorEnv.start r msgs)
    (e.served, fq)

end RotorOp

/-- Call after call: the pipes served, in order, and the list after them. -/
def Rotor.run {π μ : Type} : List (RotorOp π μ) → Rotor π → List π × Rotor π
  | [], self => ([], self)
  | op :: ops, self =>
    let (ps, self') := op.exec self
    let (qs, self'') := run ops self'
    (ps ++ qs, self'')

end MsgBroker.Model
