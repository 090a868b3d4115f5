import MsgBroker.Analysis.SessionCalls

/-!
# The output slot of a stream session

`can_send` looks at `outbuf`, `send` also at `in_flight`.
-/

set_option autoImplicit false

namespace MsgBroker.Analysis.StreamWritable

open Lib Model Analysis.SessionCalls

/-! ## Stopping -/

theorem flushOutbuf_down (t : Transport) (cb : Stream → Port → Stream × Port) {x : Stream}
    (c : Port) (h : x.disconnected = true) :
    (Stream.flushOutbuf t cb x c).2.1.disconnected = true := by
  unfold Stream.flushOutbuf Stream.reportError
  split
  · exact h
  · split
    · exact h
    · split <;> simp [h]

theorem lingerFlush_down (t : Transport) (rounds : List (List (Answer ℕ))) {x : Stream}
    (c : Port) (h : x.disconnected = true) :
    (Stream.lingerFlush t rounds x c).1.disconnected = true := by
  induction rounds generalizing x c with
  | nil => exact h
  | cons ans rounds ih =>
    have hf := flushOutbuf_down t Prod.mk { c with wans := ans } h
    unfold Stream.lingerFlush
    split
    · exact h
    · split <;> simp_all

theorem stop_down (t : Transport) (linger : List (List (Answer ℕ))) {x : Stream} (c : Port)
    (h : x.disconnected = true) : (Stream.stop t linger x c).1.disconnected = true :=
  lingerFlush_down t linger c h

theorem reportError_down (t : Transport) (linger : List (List (Answer ℕ))) (x : Stream)
    (c : Port) : (Stream.reportError (Stream.stop t linger) x c).1.disconnected = true := by
  unfold Stream.reportError
  split
  · assumption
  · split
    · exact stop_down t linger c rfl
    · rfl

theorem reportError_balanced (t : Transport) (linger : List (List (Answer ℕ))) (x : Stream)
    (c : Port) : (streamSlot (Stream.reportError (Stream.stop t linger) x c).1).Balanced :=
  .of_down (reportError_down t linger x c)

/-! ## One call -/

section Calls

variable (t : Transport) (opts : SockOpts) (linger : List (List (Answer ℕ))) {x : Stream}
  (c : Port)

theorem flushOutbuf_flushed (h : (streamSlot x).Balanced) :
    (streamSlot x).Flushed (Stream.flushOutbuf t (Stream.stop t linger) x c).1
      (streamSlot (Stream.flushOutbuf t (Stream.stop t linger) x c).2.1) := by
  unfold Stream.flushOutbuf
  split
  · rename_i hbuf
    exact ⟨h, fun _ => Option.isNone_iff_eq_none.mpr hbuf, fun _ => ⟨rfl, rfl⟩⟩
  · rename_i buf hbuf
    split
    · exact ⟨h, nofun, by simp⟩
    · split
      · refine ⟨fun hd => ?_, fun _ => rfl, fun _ => ⟨rfl, rfl⟩⟩
        have hcount := h hd
        simp only [streamSlot, hbuf] at hcount ⊢
        simp [hcount]
      · exact ⟨h, nofun, fun _ => ⟨rfl, rfl⟩⟩
      · rename_i e _ _ hne _
        refine ⟨reportError_balanced t linger _ _, nofun, fun hrc => ?_⟩
        rcases hrc with hrc | hrc
        · cases hrc
        · exact absurd (Rc.err.inj hrc) hne

/-- INTERNAL: **a session with nothing in `outbuf` and room below `MB_HWM` takes the message**,
whatever the connection does with its bytes. -/
theorem send_of_idle (body : List UInt8) (alloc : Bool) (hidle : x.outbuf.isNone = true)
    (hroom : ¬ (opts.hwm > 0 ∧ x.inFlight ≥ opts.hwm)) :
    (Stream.send t (Stream.stop t linger) opts body alloc x c).1 ≠ .again := by
  by_cases hopen : x.isOpen = true
  · have hflush : Stream.flushOutbuf t (Stream.stop t linger) x c = (.ok, x, c) := by
      unfold Stream.flushOutbuf
      rw [Option.isNone_iff_eq_none.mp hidle]
    have hsends := stream_send_sends t (Stream.stop t linger) opts body alloc c hopen
    rw [hflush] at hsends
    exact hsends.ne_again rfl hroom
  · unfold Stream.send
    rw [if_pos (by simpa using hopen)]
    nofun

theorem canSend_ready (poll : Bool) (h : (streamSlot x).Balanced)
    (hcan : (Stream.canSend t (Stream.stop t linger) poll x c).1 = true) :
    (streamSlot (Stream.canSend t (Stream.stop t linger) poll x c).2.1).Ready := by
  rw [stream_canSend_eq] at hcan ⊢
  exact canSendOf_ready streamSlot _ poll x c h (flushOutbuf_flushed t linger c h) hcan

theorem send_balanced (body : List UInt8) (alloc : Bool) (h : (streamSlot x).Balanced) :
    (streamSlot (Stream.send t (Stream.stop t linger) opts body alloc x c).2.1).Balanced := by
  by_cases hopen : x.isOpen = true
  · exact (stream_send_sends t (Stream.stop t linger) opts body alloc c hopen).balanced
      (flushOutbuf_flushed t linger c h) (fun _ => rfl) (fun _ => rfl)
      (fun _ d hy => (flushOutbuf_flushed t linger d hy).balanced) fun _ _ hy => hy
  · unfold Stream.send
    rw [if_pos (by simpa using hopen)]
    exact reportError_balanced t linger x c

theorem recvBody_balanced (h : (streamSlot x).Balanced) :
    (streamSlot (Stream.recvBody t (Stream.stop t linger) x c).2.1).Balanced := by
  unfold Stream.recvBody
  split
  · split
    · exact h
    · exact reportError_balanced t linger _ _
    · dsimp only
      split <;> exact h
  · exact h

theorem recvHdr_balanced (alloc : Bool) (h : (streamSlot x).Balanced) :
    (streamSlot (Stream.recvHdr t (Stream.stop t linger) opts alloc x c).2.1).Balanced := by
  unfold Stream.recvHdr
  split
  · exact h
  · exact reportError_balanced t linger _ _
  · dsimp only
    split
    · exact h
    · split
      · exact reportError_balanced t linger _ _
      · split
        · exact reportError_balanced t linger _ _
        · exact recvBody_balanced t linger _ h

theorem recv_balanced (poll alloc : Bool) (h : (streamSlot x).Balanced) :
    (streamSlot (Stream.recv t (Stream.stop t linger) opts poll alloc x c).2.1).Balanced := by
  have hf := flushOutbuf_flushed t linger c h
  unfold Stream.recv
  split
  · exact reportError_balanced t linger x c
  · split
    all_goals
      rename_i heq
      rw [heq] at hf
    -- the decoder runs behind a flush that wrote everything and behind one that would block
    case h_1 | h_2 =>
      split
      · exact hf.balanced
      · split
        · exact hf.balanced
        · exact recvHdr_balanced t opts linger _ alloc hf.balanced
      · split
        · exact hf.balanced
        · exact recvBody_balanced t linger _ hf.balanced
    · exact hf.balanced

theorem hasMsg_balanced (poll : Bool) (h : (streamSlot x).Balanced) :
    (streamSlot (Stream.hasMsg t (Stream.stop t linger) poll x c).2.1).Balanced :=
  (stream_hasMsg_probed t _ poll x c).keeps (P := fun r => (streamSlot r.1).Balanced) h
    (flushOutbuf_flushed t linger c h).balanced

theorem canSend_balanced (poll : Bool) (h : (streamSlot x).Balanced) :
    (streamSlot (Stream.canSend t (Stream.stop t linger) poll x c).2.1).Balanced :=
  (stream_canSend_probed t _ poll x c).keeps (P := fun r => (streamSlot r.1).Balanced) h
    (flushOutbuf_flushed t linger c h).balanced

end Calls

/-! ## Runs -/

theorem call_balanced (t : Transport) (opts : SockOpts) (s : StreamRun) (op : StreamUse)
    (h : (streamSlot s.stream).Balanced) : (streamSlot (s.call t opts op).1).Balanced := by
  unfold StreamRun.call
  cases op.call with
  | send body alloc => exact send_balanced t opts op.linger _ body alloc h
  | recv poll alloc => exact recv_balanced t opts op.linger _ poll alloc h
  | hasMsg poll => exact hasMsg_balanced t op.linger _ poll h
  | canSend poll => exact canSend_balanced t op.linger _ poll h

end MsgBroker.Analysis.StreamWritable
