import MsgBroker.Analysis.SessionCalls
import MsgBroker.Analysis.SwsSides

/-!
# The output slot of a WebSocket session

`mb_sws` counts its message in `outbuf` as the other sessions do: `in_flight` is one while a message
is there and zero otherwise, as long as the session is connected.
-/

set_option autoImplicit false

namespace MsgBroker.Analysis.SwsWritable

open Lib Model Analysis.SessionCalls

/-- The session is balanced wherever a part of the decoder leaves it. -/
def Steady : Sws.Flow → Prop
  | .ret _ x _ => (swsSlot x).Balanced
  | .next x _ => (swsSlot x).Balanced

theorem Steady.andThen {fl : Sws.Flow} {f : Sws → SwsPort → Sws.Flow} (h : Steady fl)
    (hf : ∀ x c, (swsSlot x).Balanced → Steady (f x c)) : Steady (fl.andThen f) := by
  cases fl with
  | ret res x c => exact h
  | next x c => exact hf x c h

/-! ## Stopping -/

section Calls

variable (t : Transport) (opts : SockOpts)

theorem reportError_balanced (x : Sws) (c : SwsPort) :
    (swsSlot (Sws.reportError t x c).1).Balanced :=
  .of_down (SwsSides.reportError_wrote t x c).2

theorem fail_steady (e : Errno) (x : Sws) (c : SwsPort) : Steady (Sws.fail t e x c) :=
  reportError_balanced t x c

/-! ## Output -/

variable {x : Sws}

theorem flushQuiet_flushed (c : Port) (h : (swsSlot x).Balanced) :
    (swsSlot x).Flushed (Sws.flushQuiet t x c).1 (swsSlot (Sws.flushQuiet t x c).2.1) := by
  unfold Sws.flushQuiet
  split
  · rename_i hbuf
    exact ⟨h, fun _ => Option.isNone_iff_eq_none.mpr hbuf, fun _ => ⟨rfl, rfl⟩⟩
  · rename_i buf hbuf
    split
    · exact ⟨h, nofun, fun _ => ⟨rfl, rfl⟩⟩
    · split
      · refine ⟨fun hd => ?_, fun _ => rfl, fun _ => ⟨rfl, rfl⟩⟩
        have hcount := h hd
        simp only [swsSlot, hbuf] at hcount ⊢
        simp [hcount]
      · exact ⟨h, nofun, fun _ => ⟨rfl, rfl⟩⟩

theorem flushOutbuf_flushed (c : SwsPort) (h : (swsSlot x).Balanced) :
    (swsSlot x).Flushed (Sws.flushOutbuf t x c).1 (swsSlot (Sws.flushOutbuf t x c).2.1) := by
  have hq := flushQuiet_flushed t c.port h
  unfold Sws.flushOutbuf
  split
  all_goals
    rename_i heq
    rw [heq] at hq
  · exact ⟨hq.balanced, hq.done, hq.alive⟩
  · exact ⟨hq.balanced, nofun, hq.alive⟩
  · split
    · rename_i e _ _ hne _
      refine ⟨reportError_balanced t _ _, nofun, fun hrc => ?_⟩
      rcases hrc with hrc | hrc
      · cases hrc
      · exact absurd (Rc.err.inj hrc) hne
    · exact ⟨hq.balanced, nofun, hq.alive⟩

theorem flushPendingPong_flushed (c : SwsPort) (h : (swsSlot x).Balanced) :
    (swsSlot (Sws.flushPendingPong t x c).2.1).Balanced ∧
      ((Sws.flushPendingPong t x c).1 = .ok → (swsSlot x).Ready →
        (swsSlot (Sws.flushPendingPong t x c).2.1).Ready) := by
  unfold Sws.flushPendingPong
  split
  · exact ⟨h, fun _ hr => hr⟩
  · dsimp only
    split
    · exact ⟨h, fun _ hr => hr⟩
    · exact ⟨h, nofun⟩
    · exact ⟨reportError_balanced t _ _, nofun⟩

theorem sendData_balanced (c : SwsPort) (body : List UInt8) (alloc : Bool)
    (env : FrameEnv) (h : (swsSlot x).Balanced) :
    (swsSlot (Sws.sendData t opts body alloc env x c).2.1).Balanced :=
  (sws_sendData_sends t opts body alloc env x c).balanced (flushOutbuf_flushed t c h)
    (fun _ => rfl) (fun _ => rfl) (fun _ d hy => (flushOutbuf_flushed t d hy).balanced)
    fun _ d hy => (flushPendingPong_flushed t d hy).1

theorem send_balanced (c : SwsPort) (body : List UInt8) (alloc : Bool)
    (env : FrameEnv) (h : (swsSlot x).Balanced) :
    (swsSlot (Sws.send t opts body alloc env x c).2.1).Balanced := by
  have hp := (flushPendingPong_flushed t c h).1
  unfold Sws.send
  split
  · exact reportError_balanced t x c
  · split
    · split
      all_goals
        rename_i heq
        rw [heq] at hp
      · exact sendData_balanced t opts _ body alloc env hp
      · exact hp
    · exact sendData_balanced t opts c body alloc env h

/-! ## Input -/

theorem swsSlot_moves {x' : Sws} (hx : SwsSides.Moves x x') : swsSlot x' = swsSlot x := by
  show swsSlot (SwsSides.besideInput x') = swsSlot (SwsSides.besideInput x)
  rw [hx.rest]

/-- INTERNAL: **the decoder keeps the count**: it fails, or it leaves the slot alone. -/
theorem decoderRule : SwsSides.DecoderRule t (fun x _ => (swsSlot x).Balanced) Steady where
  next _ _ := Iff.rfl
  andThen _ _ h hf := h.andThen hf
  block _ _ _ h := h
  body _ _ _ _ h hx _ := by
    show (swsSlot _).Balanced
    rw [swsSlot_moves hx]
    exact h
  fail e x c _ := fail_steady t e x c
  close _ _ _ := fail_steady t _ _ _
  pong _ c h _ := (flushPendingPong_flushed t c h).1
  input _ _ _ _ _ h hx := by
    rw [swsSlot_moves hx]
    exact h

theorem recv_balanced (alloc : Bool) (c : SwsPort) (h : (swsSlot x).Balanced) :
    (swsSlot (Sws.recv t opts alloc x c).2.1).Balanced :=
  (decoderRule t).recv opts alloc (fail_steady t _ x c) fun _ => (flushOutbuf_flushed t c h).balanced

/-! ## Probes -/

theorem hasMsg_balanced (poll : Bool) (c : SwsPort) (h : (swsSlot x).Balanced) :
    (swsSlot (Sws.hasMsg t poll x c).2.1).Balanced :=
  (sws_hasMsg_probed t poll x c).keeps (P := fun r => (swsSlot r.1).Balanced) h
    (flushOutbuf_flushed t c h).balanced

theorem canSend_balanced (poll : Bool) (c : SwsPort) (h : (swsSlot x).Balanced) :
    (swsSlot (Sws.canSend t poll x c).2.1).Balanced :=
  (sws_canSend_probed t poll x c).keeps (P := fun r => (swsSlot r.1).Balanced) h
    (flushOutbuf_flushed t c h).balanced

theorem canSend_ready (poll : Bool) (c : SwsPort) (h : (swsSlot x).Balanced)
    (hcan : (Sws.canSend t poll x c).1 = true) :
    (swsSlot (Sws.canSend t poll x c).2.1).Ready := by
  rw [sws_canSend_eq] at hcan ⊢
  exact canSendOf_ready swsSlot _ poll x c h (flushOutbuf_flushed t c h) hcan

end Calls

end MsgBroker.Analysis.SwsWritable
