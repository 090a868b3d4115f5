import MsgBroker.Analysis.SessionCalls
import MsgBroker.Analysis.SwsSides
import MsgBroker.Model.Backpressure

/-!
# What a session adds to the backpressure statistics

`MB_STAT_DROPPED` and `MB_STAT_QUEUE_FULL` go up where a session refuses a message: `mb_sipc_send`
and `mb_stls_send` count each of their refusals once, `mb_sws_send` all but those for a PONG that
has to go first.
-/

set_option autoImplicit false

namespace MsgBroker.Analysis.Backpressure

open Lib Model Analysis.SessionCalls

/-- The statistics after so many refusals. -/
def raised (st : BackStats) (n : ℕ) : BackStats :=
  ⟨st.dropped + UInt64.ofNat n, st.queueFull + UInt64.ofNat n⟩

/-- A call counted its refusal once, and nothing else; `back` reads the statistics. -/
def Counted {σ κ : Type} (back : σ → BackStats) (st : BackStats) (r : Rc × σ × κ) : Prop :=
  back r.2.1 = if r.1 = .again then raised st 1 else st

section Counted

variable {σ κ : Type} {back : σ → BackStats} {st : BackStats} {x : σ}

theorem Counted.refused (c : κ) (h : back x = raised st 1) : Counted back st (.again, x, c) := by
  rw [Counted, if_pos rfl]
  exact h

theorem Counted.other {rc : Rc} (c : κ) (hrc : rc ≠ .again) (h : back x = st) :
    Counted back st (rc, x, c) := by
  rw [Counted, if_neg hrc]
  exact h

theorem counted_of_sends {o : Outlet σ κ} {flushed r : Rc × σ × κ} (h : Sends o flushed r)
    (hhwm : 0 < o.hwm) (hflushed : back flushed.2.1 = st)
    (hcount : ∀ x, back (o.count x) = raised (back x) 1)
    (haccept : ∀ x, back (o.accept x) = back x) (hflush : ∀ x c, back (o.flush x c).2.1 = back x)
    (hfinish : ∀ x c, back (o.finish x c).1 = back x) : Counted back st r := by
  -- the message is in `outbuf` now; that the connection blocks is no refusal any more
  have hsent : ∀ {x y : σ} {c d : κ} {rc : Rc}, o.flush (o.accept x) c = (rc, y, d) →
      back x = st → back y = st := by
    intro x y c d rc heq hx
    have hy := hflush (o.accept x) c
    rw [heq] at hy
    rw [hy, haccept, hx]
  cases h with
  | blocked x c =>
    rw [if_pos hhwm]
    exact .refused c ((hcount x).trans (by rw [hflushed]))
  | failed e x c he => exact .other c (fun hrc => he (Rc.err.inj hrc)) hflushed
  | refused e x c he => exact .other c (fun hrc => he (Rc.err.inj hrc)) hflushed
  | full x c => exact .refused c ((hcount x).trans (by rw [hflushed]))
  | held x y c d heq => exact .other d (by decide) (hsent heq hflushed)
  | lost e x y c d he heq =>
    exact .other d (fun hrc => he (Rc.err.inj hrc)) (hsent heq hflushed)
  | written x y c d heq =>
    exact .other _ (by decide) ((hfinish y d).trans (hsent heq hflushed))

end Counted

/-! ## Sessions of `sipc.c` and `stls.c` -/

section Streams

variable {t : Transport} {cb : Stream → Port → Stream × Port} {opts : SockOpts}

/-- The statistics a session counts in. -/
def back (x : Stream) : BackStats := ⟨x.dropped, x.queueFull⟩

theorem reportError_back (hcb : ∀ x c, back (cb x c).1 = back x) (x : Stream) (c : Port) :
    back (x.reportError cb c).1 = back x := by
  unfold Stream.reportError
  split
  · rfl
  · dsimp only
    split
    · exact hcb _ c
    · rfl

theorem flushOutbuf_back (hcb : ∀ x c, back (cb x c).1 = back x) (x : Stream) (c : Port) :
    back (x.flushOutbuf t cb c).2.1 = back x := by
  unfold Stream.flushOutbuf
  split
  · rfl
  · split
    · rfl
    · split
      · rfl
      · rfl
      · exact reportError_back hcb _ _

theorem lingerFlush_back (rounds : List (List (Answer ℕ))) (x : Stream) (c : Port) :
    back (Stream.lingerFlush t rounds x c).1 = back x := by
  induction rounds generalizing x c with
  | nil => rfl
  | cons ans rounds ih =>
    have hflush := @flushOutbuf_back t Prod.mk (fun _ _ => rfl) x { c with wans := ans }
    rw [Stream.lingerFlush]
    split
    · rfl
    · split
      · rename_i hf
        rw [hf] at hflush
        rw [ih, hflush]
      · rename_i hf
        rw [hf] at hflush
        exact hflush

theorem stop_back (linger : List (List (Answer ℕ))) (x : Stream) (c : Port) :
    back (Stream.stop t linger x c).1 = back x := lingerFlush_back linger x c

theorem send_counted (hcb : ∀ x c, back (cb x c).1 = back x) (hhwm : 0 < opts.hwm)
    (body : List UInt8) (alloc : Bool) (x : Stream) (c : Port) :
    Counted back (back x) (x.send t cb opts body alloc c) := by
  by_cases hopen : x.isOpen = true
  · exact counted_of_sends (stream_send_sends t cb opts body alloc c hopen) hhwm
      (flushOutbuf_back hcb x c) (fun _ => rfl) (fun _ => rfl) (flushOutbuf_back hcb) fun _ _ => rfl
  · unfold Stream.send
    rw [if_pos (by simpa using hopen)]
    exact Counted.other _ (by decide) (reportError_back hcb x c)

theorem hasMsg_back (hcb : ∀ x c, back (cb x c).1 = back x) (poll : Bool) (x : Stream)
    (c : Port) : back (x.hasMsg t cb poll c).2.1 = back x :=
  (stream_hasMsg_probed t cb poll x c).keeps (P := fun r => back r.1 = back x) rfl
    (flushOutbuf_back hcb x c)

theorem canSend_back (hcb : ∀ x c, back (cb x c).1 = back x) (poll : Bool) (x : Stream)
    (c : Port) : back (x.canSend t cb poll c).2.1 = back x :=
  (stream_canSend_probed t cb poll x c).keeps (P := fun r => back r.1 = back x) rfl
    (flushOutbuf_back hcb x c)

end Streams

/-! ## Sessions of `sws.c` -/

section WebSockets

variable {t : Transport} {opts : SockOpts}

/-- The statistics a session counts in. -/
def wsBack (x : Sws) : BackStats := ⟨x.dropped, x.queueFull⟩

theorem wsBack_of_wrote {x x' : Sws} {c c' : Port} (h : SwsSides.Wrote x x' c c') :
    wsBack x' = wsBack x := h.field wsBack fun _ => rfl

theorem wsFlushOutbuf_back (x : Sws) (c : SwsPort) :
    wsBack (x.flushOutbuf t c).2.1 = wsBack x :=
  wsBack_of_wrote (SwsSides.flushOutbuf_wrote t x c)

theorem flushPendingPong_back (x : Sws) (c : SwsPort) :
    wsBack (x.flushPendingPong t c).2.1 = wsBack x :=
  wsBack_of_wrote (SwsSides.flushPendingPong_wrote t x c)

theorem sendData_counted (hhwm : 0 < opts.hwm) (body : List UInt8) (alloc : Bool)
    (env : FrameEnv) (x : Sws) (c : SwsPort) :
    Counted wsBack (wsBack x) (x.sendData t opts body alloc env c) :=
  counted_of_sends (sws_sendData_sends t opts body alloc env x c) hhwm (wsFlushOutbuf_back x c)
    (fun _ => rfl) (fun _ => rfl) wsFlushOutbuf_back flushPendingPong_back

theorem wsHasMsg_back (poll : Bool) (x : Sws) (c : SwsPort) :
    wsBack (x.hasMsg t poll c).2.1 = wsBack x :=
  (sws_hasMsg_probed t poll x c).keeps (P := fun r => wsBack r.1 = wsBack x) rfl
    (wsFlushOutbuf_back x c)

theorem wsCanSend_back (poll : Bool) (x : Sws) (c : SwsPort) :
    wsBack (x.canSend t poll c).2.1 = wsBack x :=
  (sws_canSend_probed t poll x c).keeps (P := fun r => wsBack r.1 = wsBack x) rfl
    (wsFlushOutbuf_back x c)

end WebSockets

/-! ## Any session -/

section Lines

theorem lineHasMsg_stats (env : CallEnv) (l : Line) :
    (l.hasMsg env).2.session.stats = l.session.stats := by
  obtain ⟨session, tx, rx⟩ := l
  cases session with
  | stream t x => exact hasMsg_back (stop_back (t := t) env.linger) env.poll x _
  | ws t x => exact wsHasMsg_back env.poll x _

theorem lineCanSend_stats (env : CallEnv) (l : Line) :
    (l.canSend env).2.session.stats = l.session.stats := by
  obtain ⟨session, tx, rx⟩ := l
  cases session with
  | stream t x => exact canSend_back (stop_back (t := t) env.linger) env.poll x _
  | ws t x => exact wsCanSend_back env.poll x _

end Lines

end MsgBroker.Analysis.Backpressure
