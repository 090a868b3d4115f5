import MsgBroker.Analysis.RotorSpec
import MsgBroker.Analysis.SessionStats
import MsgBroker.Analysis.SwsWritable

/-!
# Backpressure statistics and sends

`MB_STAT_DROPPED` and `MB_STAT_QUEUE_FULL` count calls of `mb_pipe_send` that were refused, and not
sends.
-/

set_option autoImplicit false

namespace MsgBroker.Analysis.Backpressure

open Lib Model

variable {π : Type} [DecidableEq π] {opts : SockOpts}

/-! ## One pipe -/

/-- A PONG goes before the next message; a connection that does not take it refuses the message,
and that is not counted.  SRC: sws.c:509-517 -/
def owesPong : PipeSession → Bool
  | .stream _ _ => false
  | .ws _ x => x.outbuf.isNone && x.pendingPong

/-- The session has room for a message: there is nothing in `outbuf`, and fewer messages than
`MB_HWM` are in flight. -/
def HasRoom (opts : SockOpts) : PipeSession → Prop
  | .stream _ x => x.outbuf.isNone = true ∧ x.inFlight < opts.hwm
  | .ws _ x => x.outbuf.isNone = true ∧ x.inFlight < opts.hwm

instance (opts : SockOpts) : (x : PipeSession) → Decidable (HasRoom opts x)
  | .stream _ _ => inferInstanceAs (Decidable (_ ∧ _))
  | .ws _ _ => inferInstanceAs (Decidable (_ ∧ _))

/-- INTERNAL: **`mb_sws_send` without a PONG before the message** counts its refusal once, and does
not refuse if there is room.  SRC: sws.c:496-582 -/
theorem wsSend_counted (t : Transport) (hhwm : 0 < opts.hwm) (body : List UInt8) (alloc : Bool)
    (env : FrameEnv) {x : Sws} (c : SwsPort) (h : (x.outbuf.isNone && x.pendingPong) = false) :
    Counted wsBack (wsBack x) (Sws.send t opts body alloc env x c) ∧
      (x.outbuf.isNone = true → x.inFlight < opts.hwm →
        (Sws.send t opts body alloc env x c).1 ≠ .again) := by
  unfold Sws.send
  by_cases hopen : x.isOpen = true
  · rw [if_neg (by rw [hopen]; decide), if_neg (by simpa using h)]
    refine ⟨sendData_counted hhwm body alloc env x c, fun hidle hroom => ?_⟩
    exact SwsWritable.sendData_of_idle t opts c body alloc env hidle fun h => by omega
  · rw [if_pos (by simpa using hopen)]
    exact ⟨.other _ (by decide) (wsBack_of_wrote (SwsSides.reportError_wrote t x c).1), nofun⟩

/-- INTERNAL: **`mb_pipe_send` of any session** without a PONG before the message. -/
theorem lineSend_counted (hhwm : 0 < opts.hwm) (body : List UInt8) (env : CallEnv) {l : Line}
    (h : owesPong l.session = false) :
    (l.send opts body env).2.session.stats =
        (if (l.send opts body env).1 = .again then raised l.session.stats 1
          else l.session.stats) ∧
      (HasRoom opts l.session → (l.send opts body env).1 ≠ .again) := by
  obtain ⟨session, tx, rx⟩ := l
  cases session with
  | stream t x =>
    refine ⟨send_counted (stop_back (t := t) env.linger) hhwm body env.alloc x _, fun hroom => ?_⟩
    exact StreamWritable.send_of_idle t opts env.linger _ body env.alloc hroom.1 fun h => by
      have := hroom.2
      omega
  | ws t x =>
    obtain ⟨hcounted, hroom⟩ := wsSend_counted t hhwm body env.alloc env.frame
      (Line.swsPort env ⟨.ws t x, tx, rx⟩) h
    exact ⟨hcounted, fun h => hroom h.1 h.2⟩

/-- INTERNAL: the session writes to the statistics of the socket, which do not decide about a
message. -/
theorem lend_same (opts : SockOpts) (st : BackStats) (x : PipeSession) :
    (x.lend st).stats = st ∧ owesPong (x.lend st) = owesPong x ∧
      (HasRoom opts (x.lend st) ↔ HasRoom opts x) := by
  cases x <;> exact ⟨rfl, rfl, Iff.rfl⟩

/-- INTERNAL: a call of one pipe. -/
theorem pipes_send_counted (hhwm : 0 < opts.hwm) (body : List UInt8) {p : π} {e : Links π}
    (h : owesPong (e.line p).session = false) :
    ((Links.pipes opts).send p body e).2.stats =
        (if ((Links.pipes opts).send p body e).1 = .again then raised e.stats 1 else e.stats) ∧
      (HasRoom opts (e.line p).session → ((Links.pipes opts).send p body e).1 ≠ .again) := by
  obtain ⟨hstats, hpong, hroom⟩ := lend_same opts e.stats (e.line p).session
  have hsent := lineSend_counted hhwm body (e.script.headD default)
    (l := { e.line p with session := (e.line p).session.lend e.stats }) (hpong.trans h)
  dsimp only at hsent
  rw [hstats, hroom] at hsent
  exact hsent

omit [DecidableEq π] in
/-- INTERNAL: no other pipe is called if there is none, or if the first one does not refuse. -/
theorem callInTurn_one {ε : Type} {send : π → ε → Rc × ε} {p : π} {ps : List π} {e : ε}
    (h : ps = [] ∨ (send p e).1 ≠ .again) : callInTurn send (p :: ps) e = send p e := by
  rw [callInTurn]
  rcases hsend : send p e with ⟨rc, e'⟩
  rw [hsend] at h
  cases rc with
  | ok => rfl
  | err c =>
    cases c <;> try rfl
    -- the pipe refuses, so it is the only one
    rcases h with rfl | h
    · rfl
    · exact absurd rfl h

/-! ## The protocols -/

section Protocols

/-- A REQ socket whose request is out takes no other. -/
def isBusy : Sender π → Bool
  | .req self => self.sending
  | .pair _ | .push _ => false

/-- The pipes a send calls in turn. -/
def called : Sender π → List π
  | .pair pipe => pipe.toList
  | .push lb => probed lb
  | .req self => probed self.lb

omit [DecidableEq π] in
/-- INTERNAL: **a protocol calls its pipes in turn**.  SRC: pair.c:73-79, push.c:74-78,
req.c:96-119 -/
theorem send_calls {μ ε : Type} (ops : Pipes π μ ε) (msg : μ) {x : Sender π}
    (h : isBusy x = false) (e : ε) :
    ((x.send ops msg e).1, (x.send ops msg e).2.2) =
      callInTurn (fun p => ops.send p msg) (called x) e := by
  cases x with
  | pair pipe =>
    cases pipe with
    | none => rfl
    | some p =>
      show ops.send p msg e = callInTurn _ [p] e
      rw [callInTurn]
      rcases ops.send p msg e with ⟨rc, e'⟩
      cases rc with
      | ok => rfl
      | err c => cases c <;> rfl
  | push lb => exact lbSend_calls ops msg lb e
  | req self =>
    have hcalls := lbSend_calls ops msg self.lb e
    have hids := lbSend_ids_ne_nil ops msg self.lb e
    refine Eq.trans ?_ hcalls
    show ((self.send ops msg e).1, (self.send ops msg e).2.2) = _
    unfold Req.send
    rw [if_neg (by rw [show self.sending = false from h]; decide)]
    generalize self.lb.lbSend ops msg e = sent at hids ⊢
    obtain ⟨rc, lb, e'⟩ := sent
    cases rc with
    | ok =>
      -- The pipe that took the request is the last of the list, so there is one.
      simp only [List.getLast?_eq_some_getLast (hids rfl)]
    | err c => rfl

omit [DecidableEq π] in
/-- INTERNAL: a busy socket returns `-EFSM`.  SRC: req.c:102-103 -/
theorem send_busy {μ ε : Type} (ops : Pipes π μ ε) (msg : μ) {x : Sender π}
    (h : isBusy x = true) (e : ε) : (x.send ops msg e).1 = .err .EFSM := by
  cases x with
  | pair pipe => cases h
  | push lb => cases h
  | req self =>
    show (self.send ops msg e).1 = _
    rw [Req.send, if_pos (by exact h)]

/-- Nothing is counted. -/
def Quiet (e e' : Links π) : Prop := e'.stats = e.stats

theorem quiet_canSend (opts : SockOpts) (p : π) (e : Links π) :
    Quiet e ((Links.pipes opts).canSend p e).2 :=
  (lineCanSend_stats _ _).trans (lend_same opts _ _).1

theorem quiet_hasMsg (opts : SockOpts) (p : π) (e : Links π) :
    Quiet e ((Links.pipes opts).hasMsg p e).2 :=
  (lineHasMsg_stats _ _).trans (lend_same opts _ _).1

omit [DecidableEq π] in
theorem Quiet.trans {e e' e'' : Links π} (h : Quiet e e') (h' : Quiet e' e'') : Quiet e e'' :=
  Eq.trans h' h

theorem quiet_events (x : Sender π) (e : Links π) :
    Quiet e (x.events (Links.pipes opts) e).2.2 := by
  have hlb : ∀ lb : Rotor π, Quiet e (lb.lbCanSend (Links.pipes opts) e).2.2 := fun lb =>
    (lbCanSendLoop_rule (Links.pipes opts) (Quiet e)
      (fun p _ h => h.trans (quiet_canSend opts p _)) [] lb.pipes e rfl).2
  cases x with
  | pair pipe =>
    cases pipe with
    | none => exact rfl
    | some p => exact (quiet_canSend opts p e).trans (quiet_hasMsg opts p _)
  | push lb => exact hlb lb
  | req self =>
    show Quiet e (self.events (Links.pipes opts) e).2.2
    unfold Req.events
    split
    · split
      · exact rfl
      · exact quiet_hasMsg opts _ e
    · exact hlb self.lb

theorem quiet_sync (s : SendSock π) : Quiet s.links (s.sync opts).links := by
  have hevents : ∀ s : SendSock π, Quiet s.links (s.events opts).2.links :=
    fun s => quiet_events s.base s.links
  have hsnd : Quiet s.links (s.syncSndfd opts).links := by
    unfold SendSock.syncSndfd
    dsimp only
    split
    · exact hevents s
    · exact (hevents s).trans (hevents _)
  refine hsnd.trans ?_
  unfold SendSock.sync SendSock.syncRcvfd
  dsimp only
  split
  · exact hevents _
  · exact (hevents _).trans (hevents _)

end Protocols

/-! ## Sends -/

section Sends

/-- The statistics count the send as they should: one each for `-EAGAIN` with a pipe attached,
nothing for a success. -/
def CountsSend (opts : SockOpts) (s : SendSock π) : SendOp π × List CallEnv → Prop
  | (.send body, script) =>
    let r := (s.enter script).sockSend opts body
    (r.1 = .again → s.base.attached ≠ [] → r.2.links.stats = raised s.links.stats 1) ∧
      (r.1 = .ok → r.2.links.stats = s.links.stats)
  | _ => True

/-- The first pipe that the send would call, if any, has no PONG to send first, and it is the only
one, or it has room for the message.  A REQ socket whose request is out calls none. -/
def OneCall (opts : SockOpts) (s : SendSock π) : SendOp π × List CallEnv → Prop
  | (.send _, _) => isBusy s.base = true ∨
    match called s.base with
    | [] => True
    | p :: ps => owesPong (s.links.line p).session = false ∧
      (ps = [] ∨ HasRoom opts (s.links.line p).session)
  | _ => True

/-- INTERNAL: the descriptors are set without counting anything.  SRC: sock.c:518-545 -/
theorem quiet_sockSend (opts : SockOpts) (body : List UInt8) (s : SendSock π) :
    Quiet (s.base.send (Links.pipes opts) body s.links).2.2 (s.sockSend opts body).2.links :=
  quiet_sync ⟨(s.base.send (Links.pipes opts) body s.links).2.1,
    (s.base.send (Links.pipes opts) body s.links).2.2⟩

omit [DecidableEq π] in
/-- INTERNAL: a socket that calls no pipe has none. -/
theorem attached_of_called {x : Sender π} (h : called x = []) : x.attached = [] := by
  cases x with
  | pair pipe => exact h
  | push lb => exact (List.append_eq_nil_iff.mp h).2
  | req self => exact (List.append_eq_nil_iff.mp h).2

/-- INTERNAL: **one send** is counted as it should if it calls one pipe. -/
theorem countsSend_of_oneCall (hhwm : 0 < opts.hwm) {s : SendSock π}
    {l : SendOp π × List CallEnv} (h : OneCall opts s l) : CountsSend opts s l := by
  obtain ⟨op, script⟩ := l
  cases op with
  | attach p session alloc => trivial
  | detach p => trivial
  | recv => trivial
  | send body =>
    cases hbusy : isBusy s.base with
    | true =>
      have hrc : ((s.enter script).sockSend opts body).1 = .err .EFSM :=
        send_busy (Links.pipes opts) body hbusy (s.enter script).links
      unfold CountsSend
      dsimp only
      rw [hrc]
      exact ⟨nofun, nofun⟩
    | false =>
      have hone := h.resolve_left (by rw [hbusy]; decide)
      have hcalls := send_calls (Links.pipes opts) body hbusy (s.enter script).links
      have hquiet := quiet_sockSend opts body (s.enter script)
      cases hcalled : called s.base with
      | nil =>
        have hrc : ((s.enter script).sockSend opts body).1 = .again := by
          rw [hcalled] at hcalls
          exact congrArg Prod.fst hcalls
        refine ⟨fun _ hne => absurd (attached_of_called hcalled) hne, fun hok => ?_⟩
        cases hrc.symm.trans hok
      | cons p ps =>
        rw [hcalled] at hone
        obtain ⟨hpong, hfirst⟩ := hone
        obtain ⟨hcounted, hroom⟩ := pipes_send_counted hhwm body (e := (s.enter script).links) hpong
        have hfirst : ps = [] ∨ ((Links.pipes opts).send p body (s.enter script).links).1 ≠ .again :=
          hfirst.imp id hroom
        rw [hcalled, callInTurn_one hfirst] at hcalls
        obtain ⟨hrc, hsent⟩ := Prod.ext_iff.mp hcalls
        change ((s.enter script).sockSend opts body).1 = _ at hrc
        have hstats := Eq.trans hquiet ((congrArg Links.stats hsent).trans hcounted)
        rw [← hrc] at hstats
        refine ⟨fun hagain _ => ?_, fun hok => ?_⟩
        · rw [hstats, if_pos hagain]
          rfl
        · rw [hstats, if_neg (by rw [hok]; decide)]
          rfl

/-- **When the backpressure statistics count sends.**  A PAIR, PUSH or REQ socket with `MB_HWM > 0`
over any stream pipes, in any state and with any answers of the connections: along any calls,
`MB_STAT_DROPPED` and `MB_STAT_QUEUE_FULL` go up by one each for every `mb_sock_send` that returns
`-EAGAIN` with a pipe attached, and stay for every one that succeeds, if no send finds a PONG that
goes first, or more than one pipe to call and no room in the first.
SRC: sipc.c:318-361, lb.c:67-112, sock.c:518-545 -/
theorem backpressure_counts_sends (hhwm : 0 < opts.hwm) (base : Sender π) (s : SendSock π)
    (ops : List (SendOp π × List CallEnv))
    (h : (SendSock.system opts base).Meets (OneCall opts) s ops) :
    (SendSock.system opts base).Meets (CountsSend opts) s ops :=
  h.imp fun _ _ => countsSend_of_oneCall hhwm

instance (opts : SockOpts) (s : SendSock π) :
    (l : SendOp π × List CallEnv) → Decidable (OneCall opts s l)
  | (.send _, _) =>
    match h : called s.base with
    | [] => isTrue (Or.inr (by rw [h]; trivial))
    | p :: ps =>
      have : Decidable (ps = []) := decidable_of_iff _ List.isEmpty_iff
      decidable_of_iff (isBusy s.base = true ∨ owesPong (s.links.line p).session = false ∧
        (ps = [] ∨ HasRoom opts (s.links.line p).session)) (by rw [OneCall, h])
  | (.attach _ _ _, _) | (.detach _, _) | (.recv, _) => isTrue trivial

/-- The session is one of `sipc.c` or `stls.c`. -/
def isStream : PipeSession → Bool
  | .stream _ _ => true
  | .ws _ _ => false

omit [DecidableEq π] in
/-- INTERNAL: such a session has no PONGs. -/
theorem owesPong_of_stream {x : PipeSession} (h : isStream x = true) : owesPong x = false := by
  cases x with
  | stream t x => rfl
  | ws t x => cases h

/-- **A PAIR socket over IPC, TCP or TLS counts every send as it should.** -/
theorem pair_counts_send (hhwm : 0 < opts.hwm) {s : SendSock π} {pipe : Option π}
    (hpair : s.base = .pair pipe) (hs : ∀ p, isStream (s.links.line p).session = true)
    (body : List UInt8) (script : List CallEnv) : CountsSend opts s (.send body, script) := by
  refine countsSend_of_oneCall hhwm (Or.inr ?_)
  rw [hpair]
  cases pipe with
  | none => trivial
  | some p => exact ⟨owesPong_of_stream (hs p), Or.inl rfl⟩

end Sends

/-- `MB_HWM` 1 and no limit of the message size. -/
def oneDeep : SockOpts := ⟨-1, 1⟩

/-- The first message over a connection that takes nothing is accepted, and not counted. -/
theorem pair_counts_send_one_pipe :
    CountsSend oneDeep (SendSock.init (.pair (some ()))) (.send [1], []) :=
  pair_counts_send (by decide) rfl (fun _ => rfl) [1] []

/-- The second one is refused, and counted. -/
theorem pair_counts_send_refused :
    let s := ((SendSock.init (.pair (some ()))).sockSend oneDeep [1]).2
    ((s.enter []).sockSend oneDeep [2]).1 = .again ∧ s.base.attached ≠ [] ∧
      CountsSend oneDeep s (.send [2], []) :=
  ⟨by decide +kernel, by decide +kernel,
    pair_counts_send (by decide) rfl (fun _ => rfl) [2] []⟩

/-- A PUSH socket with one IPC pipe whose connection takes nothing: the first message waits in the
session, the second is refused, and counted once. -/
theorem backpressure_one_pipe :
    ∃ s, (SendSock.system oneDeep (.push .init)).run (SendSock.init (.push .init))
        [(.attach () (.stream .sipc .create) true, []), (.send [1], []), (.send [2], [])] =
          some s ∧
      s.links.stats = ⟨1, 1⟩ ∧
      (SendSock.system oneDeep (.push .init)).Meets (CountsSend oneDeep)
        (SendSock.init (.push .init))
        [(.attach () (.stream .sipc .create) true, []), (.send [1], []), (.send [2], [])] := by
  have hval : ((SendSock.system oneDeep (.push .init)).run (SendSock.init (.push .init))
      [(.attach () (.stream .sipc .create) true, []), (.send [1], []), (.send [2], [])]).map
      (fun s => s.links.stats) = some ⟨1, 1⟩ := by decide +kernel
  obtain ⟨s, hrun, hs⟩ := Option.map_eq_some_iff.mp hval
  refine ⟨s, hrun, hs, ?_⟩
  exact backpressure_counts_sends (by decide) _ _ _ (by decide +kernel)

/-- With two pipes whose connections take nothing, two messages wait and the third is refused: one
`-EAGAIN` counts twice. -/
theorem two_pipes_count_twice :
    ∃ s t, (SendSock.system oneDeep (.push .init)).run (SendSock.init (.push .init))
        [(.attach false (.stream .sipc .create) true, []),
          (.attach true (.stream .sipc .create) true, []), (.send [1], []), (.send [2], [])] =
            some s ∧
      s.links.stats = ⟨0, 0⟩ ∧ (s.enter []).sockSend oneDeep [3] = (.again, t) ∧
      t.links.stats = ⟨2, 2⟩ := by
  have hval : ((SendSock.system oneDeep (.push .init)).run (SendSock.init (.push .init))
      [(.attach false (.stream .sipc .create) true, []),
        (.attach true (.stream .sipc .create) true, []), (.send [1], []), (.send [2], [])]).map
      (fun s => (s.links.stats, ((s.enter []).sockSend oneDeep [3]).1,
        ((s.enter []).sockSend oneDeep [3]).2.links.stats)) =
          some (⟨0, 0⟩, .again, ⟨2, 2⟩) := by decide +kernel
  obtain ⟨s, hrun, hs⟩ := Option.map_eq_some_iff.mp hval
  obtain ⟨hstart, hrest⟩ := Prod.mk.inj hs
  obtain ⟨hrc, hend⟩ := Prod.mk.inj hrest
  exact ⟨s, _, hrun, hstart, Prod.ext hrc rfl, hend⟩

end MsgBroker.Analysis.Backpressure
