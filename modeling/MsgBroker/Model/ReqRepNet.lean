import MsgBroker.Lib.Reach
import MsgBroker.Model.FifoPipe
import MsgBroker.Model.ReqRep

/-!
# A network of REQ and REP sockets

Any number of REQ sockets `ρ` and REP sockets `τ`, joined by pipes `π`.
-/

set_option autoImplicit false

namespace MsgBroker.Model

open Function (update)

open Lib

variable {ρ τ π μ : Type}

/-- Which sockets the two ends of a pipe belong to. -/
structure Topology (ρ τ π : Type) where
  reqEnd : π → ρ
  repEnd : π → τ

/-- A successful call, with the serial number of the message sent or received. -/
inductive RREvent (ρ τ μ : Type) where
  | reqSend (q : ρ) (m : μ) (serial : ℕ)
  | repRecv (r : τ) (m : μ) (serial : ℕ)
  | repSend (r : τ) (m : μ) (serial : ℕ)
  | reqRecv (q : ρ) (m : μ) (serial : ℕ)
deriving DecidableEq

/-- The sockets, the queues (as the REQ ends see them), the pipe ends that have been
attached, and the history. -/
structure RRNet (ρ τ π μ : Type) where
  req : ρ → Req π
  rep : τ → Rep π
  wire : Ends π (μ × ℕ)
  reqUsed : π → Bool
  repUsed : π → Bool
  log : List (RREvent ρ τ μ)

/-- One operation of the network, with every choice its environment makes. -/
inductive RROp (ρ τ π μ : Type) where
  | reqAdd (p : π) (alloc : Bool)
  | reqRm (p : π)
  | reqIn (p : π)
  | reqEvents (q : ρ) (ans : List Bool)
  | reqSend (q : ρ) (m : μ) (ans : List Bool)
  | reqRecv (q : ρ) (ans : List Bool)
  | repAdd (p : π) (allocFq allocLb : Bool)
  | repRm (p : π)
  | repRecv (r : τ) (ans : List Bool)
  | repSend (r : τ) (m : μ) (ans : List Bool)

namespace RRNet

/-- All sockets created, no pipe attached. -/
def init : RRNet ρ τ π μ where
  req _ := .create
  rep _ := .create
  wire := .empty
  reqUsed _ := false
  repUsed _ := false
  log := []

variable [DecidableEq ρ] [DecidableEq τ] [DecidableEq π]

/-- One operation.  A pipe end is added only once; only an attached end is removed. -/
def step (T : Topology ρ τ π) (s : RRNet ρ τ π μ) : RROp ρ τ π μ → Option (RRNet ρ τ π μ)
  | .reqAdd p alloc =>
    if s.reqUsed p then none
    else some { s with
      req := update s.req (T.reqEnd p) ((s.req (T.reqEnd p)).add p alloc).2
      reqUsed := update s.reqUsed p true }
  | .reqRm p =>
    if p ∈ (s.req (T.reqEnd p)).lb.ids then
      some { s with
        req := update s.req (T.reqEnd p) ((s.req (T.reqEnd p)).rm p) }
    else none
  | .reqIn p =>
    some { s with
      req := update s.req (T.reqEnd p) ((s.req (T.reqEnd p)).onIn p) }
  | .reqEvents q ans =>
    let r := (s.req q).events fifoPipes (s.wire, ans)
    some { s with req := update s.req q r.2.1, wire := r.2.2.1 }
  | .reqSend q m ans =>
    let r := (s.req q).send fifoPipes (m, s.log.length) (s.wire, ans)
    some { s with
      req := update s.req q r.2.1
      wire := r.2.2.1
      log := if r.1 = .ok then s.log ++ [.reqSend q m s.log.length] else s.log }
  | .reqRecv q ans =>
    let r := (s.req q).recv fifoPipes (s.wire, ans)
    some { s with
      req := update s.req q r.2.1
      wire := r.2.2.1
      log := match r.1 with
        | .ok m => s.log ++ [.reqRecv q m.1 m.2]
        | .error _ => s.log }
  | .repAdd p allocFq allocLb =>
    if s.repUsed p then none
    else some { s with
      rep := update s.rep (T.repEnd p)
        ((s.rep (T.repEnd p)).add p allocFq allocLb).2
      repUsed := update s.repUsed p true }
  | .repRm p =>
    if p ∈ (s.rep (T.repEnd p)).fq.ids then
      some { s with
        rep := update s.rep (T.repEnd p) ((s.rep (T.repEnd p)).rm p) }
    else none
  | .repRecv r ans =>
    let x := (s.rep r).recv fifoPipes (s.wire.flip, ans)
    some { s with
      rep := update s.rep r x.2.1
      wire := x.2.2.1.flip
      log := match x.1 with
        | .ok m => s.log ++ [.repRecv r m.1 m.2]
        | .error _ => s.log }
  | .repSend r m ans =>
    let x := (s.rep r).send fifoPipes (m, s.log.length) (s.wire.flip, ans)
    some { s with
      rep := update s.rep r x.2.1
      wire := x.2.2.1.flip
      log := if x.1 = .ok then s.log ++ [.repSend r m s.log.length] else s.log }

/-- The network as a labelled system. -/
def system (T : Topology ρ τ π) : System (RRNet ρ τ π μ) (RROp ρ τ π μ) := ⟨init, step T⟩

end RRNet

/-! ## What a history says -/

namespace RREvent

variable [DecidableEq ρ] [DecidableEq τ]

/-- The serial number of the last request the REQ sent successfully. -/
def lastSent (q : ρ) : List (RREvent ρ τ μ) → Option ℕ :=
  List.foldl (fun acc e => match e with
    | .reqSend q' _ k => if q' = q then some k else acc
    | _ => acc) none

/-- The serial number of the last request the REP received. -/
def lastGot (r : τ) : List (RREvent ρ τ μ) → Option ℕ :=
  List.foldl (fun acc e => match e with
    | .repRecv r' _ k => if r' = r then some k else acc
    | _ => acc) none

/-- The serial number given to a message at its sending, if the event is one. -/
def sentSerial : RREvent ρ τ μ → Option ℕ
  | .reqSend _ _ k => some k
  | .repSend _ _ k => some k
  | _ => none

/-- In the history, message `m` with serial `k` is what some REP passed to
`mb_rep_send` when request `j` was the last one it had received. -/
def Answers (log : List (RREvent ρ τ μ)) (j : ℕ) (m : μ) (k : ℕ) : Prop :=
  ∃ (r : τ) (pre post : List (RREvent ρ τ μ)),
    log = pre ++ .repSend r m k :: post ∧ lastGot r pre = some j

end RREvent

end MsgBroker.Model
