import MsgBroker.Analysis.StreamWritable
import MsgBroker.Analysis.SwsBalance
import MsgBroker.Analysis.WsFrameSpec

/-!
# When `can_send` is kept

A session that says it is writable has an empty slot and nothing counted, so that a message is taken
whatever the connection does with its bytes.
-/

set_option autoImplicit false

namespace MsgBroker.Analysis.SwsWritable

open Lib Model Analysis.SessionCalls

/-- The bytes of the PONG a session owes: the header, with the key of a client, and the payload. -/
def pongLen (x : Sws) : ℕ := 2 + (if x.isClient then 4 else 0) + x.pongBuf.bytes.length

/-- The connection does not take the PONG: its frame can be allocated, and before all its bytes are
written, a `mb_sws_send_raw` would block at once.  Behind its answers the connection takes what is
left. -/
def RefusesPong (x : Sws) (env : FrameEnv) : Prop :=
  env.alloc = true ∧ (retry true (pongLen x) (env.ans ++ [.more (pongLen x)])).1 = .block

instance (x : Sws) (env : FrameEnv) : Decidable (RefusesPong x env) :=
  inferInstanceAs (Decidable (_ ∧ _))

section Calls

variable (t : Transport) (opts : SockOpts)

/-! ## Sending when ready -/

/-- INTERNAL: a session with nothing in `outbuf` and room below `MB_HWM` takes the message. -/
theorem sendData_of_idle {x : Sws} (c : SwsPort) (body : List UInt8) (alloc : Bool)
    (env : FrameEnv) (hidle : x.outbuf.isNone = true)
    (hroom : ¬ (opts.hwm > 0 ∧ x.inFlight ≥ opts.hwm)) :
    (Sws.sendData t opts body alloc env x c).1 ≠ .again := by
  have hsends := sws_sendData_sends t opts body alloc env x c
  rw [SwsSides.flushOutbuf_of_none t (Option.isNone_iff_eq_none.mp hidle)] at hsends
  exact hsends.ne_again rfl hroom

/-- INTERNAL: the frame of a PONG is as long as its payload, its two bytes and its key. -/
theorem length_pong (x : Sws) (key : MaskKey) :
    (buildFrame x.isClient key .PONG x.pongBuf.bytes).length = pongLen x := by
  have hshort : x.pongBuf.bytes.length < 126 := Nat.lt_succ_of_le x.pongBuf.bound
  rw [buildFrame, List.length_append, length_framePayload, frameHdr_eq, lenExt, if_pos hshort]
  unfold pongLen
  cases x.isClient <;> simp [MaskKey.bytes]

/-- INTERNAL: **a PONG is sent** unless the connection refuses it.  SRC: sws.c:474-494 -/
theorem flushPendingPong_again_iff {x : Sws} (c : SwsPort) (hopen : x.isOpen = true)
    (hpong : x.pendingPong = true) :
    (Sws.flushPendingPong t x c).1 = .again ↔ RefusesPong x (c.pongs.headD default) := by
  have hrc : (Sws.flushPendingPong t x c).1 =
      (Sws.sendFrame t .PONG x.pongBuf.bytes (c.pongs.headD default) x c.port).1 := by
    unfold Sws.flushPendingPong
    rw [hpong]
    simp only [Bool.not_true, Bool.false_eq_true, if_false]
    split <;> simp_all
  rw [hrc]
  unfold Sws.sendFrame RefusesPong
  cases (c.pongs.headD default).alloc with
  | false => exact iff_of_false nofun nofun
  | true =>
    have hle : (buildFrame x.isClient (c.pongs.headD default).key .PONG x.pongBuf.bytes).length ≤
        intMax := by
      have hbound := x.pongBuf.bound
      rw [length_pong]
      unfold pongLen intMax
      split_ifs <;> omega
    simp only [Bool.not_true, Bool.false_eq_true, if_false, hopen, length_pong, true_and]
    rw [sendAll_again_iff t hle 0, length_pong, Nat.sub_zero]

/-- INTERNAL: **a session that is ready refuses a message exactly when it owes a PONG that the
connection does not take.** -/
theorem send_of_ready {x : Sws} (c : SwsPort) (body : List UInt8) (alloc : Bool)
    (env : FrameEnv) (hbal : (swsSlot x).Balanced) (h : (swsSlot x).Ready) :
    (Sws.send t opts body alloc env x c).1 ≠ .again ↔
      x.pendingPong = false ∨ ¬ RefusesPong x (c.pongs.headD default) := by
  have hopen : x.isOpen = true := h.isOpen
  have hnone : x.outbuf = none := Option.isNone_iff_eq_none.mp h.idle
  unfold Sws.send
  rw [hopen, hnone]
  cases hpong : x.pendingPong with
  | false =>
    simp only [Bool.not_true, Bool.false_eq_true, and_false, if_false, true_or, iff_true]
    exact sendData_of_idle t opts c body alloc env h.idle (h.hasRoom _)
  | true =>
    have hp := (flushPendingPong_flushed t c hbal).2
    simp only [Bool.not_true, Bool.false_eq_true, Option.isNone_none, and_self, if_true, if_false,
      Bool.true_eq_false, false_or]
    rw [← flushPendingPong_again_iff t c hopen hpong]
    split
    · rename_i heq
      rw [heq] at hp ⊢
      have hready := hp rfl h
      exact iff_of_true (sendData_of_idle t opts _ body alloc env hready.idle (hready.hasRoom _))
        nofun
    · rename_i heq
      rw [heq]

end Calls

/-! ## Runs -/

theorem step_balanced (t : Transport) (opts : SockOpts) {s s' : SwsRun} {op : SwsOp}
    (hs : (swsSlot s.sws).Balanced) (hstep : s.step t opts op = some s') :
    (swsSlot s'.sws).Balanced := by
  unfold SwsRun.step at hstep
  split at hstep <;> obtain rfl := Option.some.inj hstep
  · exact send_balanced t opts _ _ _ _ hs
  · exact recv_balanced t opts _ _ hs
  · exact hasMsg_balanced t _ _ hs
  · exact canSend_balanced t _ _ hs

/-- **When `can_send` is kept.**  After any run of an IPC, TCP or TLS session in which
`can_send` then says yes, the message sent next is not refused with `-EAGAIN`, whatever
arrives and however the connection answers.  In a WebSocket session the same holds exactly
where no PONG is owed when `can_send` returns, or the connection does not refuse the one that is.
SRC: sipc.c:67-96, 318-383, stls.c:67-100, 338-401, sws.c:73-105, 474-582 -/
theorem can_send_kept_iff (t : Transport) (opts : SockOpts) :
    (∀ (s s' : StreamRun) (op op' : StreamUse) (poll : Bool) (body : List UInt8),
      Reach (StreamRun.system t opts) (fun _ _ => True) s → op.call = .canSend poll →
      (s.stream.canSend t (Stream.stop t op.linger) poll (s.port op)).1 = true →
      s.step t opts op = some s' → opts.msgTooLarge body.length = false →
      (s'.stream.send t (Stream.stop t op'.linger) opts body true (s'.port op')).1 ≠ .again) ∧
    ∀ (isClient : Bool) (s s' : SwsRun) (op op' : SwsOp) (poll : Bool) (body : List UInt8)
        (env : FrameEnv),
      Reach (SwsRun.system t opts isClient) (fun _ _ => True) s → op.call = .canSend poll →
      (s.sws.canSend t poll (s.port op)).1 = true → s.step t opts op = some s' →
      opts.msgTooLarge body.length = false → env.alloc = true →
      ((s'.sws.send t opts body true env (s'.port op')).1 ≠ .again ↔
        s'.sws.pendingPong = false ∨ ¬ RefusesPong s'.sws (op'.pongs.headD default)) := by
  constructor
  · intro s s' op op' poll body hreach hcall hcan hstep _
    have hbal := hreach.invariant (fun s => (streamSlot s.stream).Balanced) (fun _ => rfl)
      fun s op s' hs _ hstep => Option.some.inj hstep ▸ StreamWritable.call_balanced t opts s op hs
    have hready := StreamWritable.canSend_ready t op.linger (s.port op) poll hbal hcan
    unfold StreamRun.step StreamRun.call at hstep
    rw [hcall] at hstep
    obtain rfl := Option.some.inj hstep
    exact StreamWritable.send_of_idle t opts op'.linger _ body true hready.idle (hready.hasRoom _)
  · intro isClient s s' op op' poll body env hreach hcall hcan hstep _ _
    have hbal := hreach.invariant (fun s => (swsSlot s.sws).Balanced) (fun _ => rfl)
      fun s op s' hs _ hstep => step_balanced t opts hs hstep
    have hready := canSend_ready t poll (s.port op) hbal hcan
    unfold SwsRun.step at hstep
    rw [hcall] at hstep
    obtain rfl := Option.some.inj hstep
    exact send_of_ready t opts _ body true env (canSend_balanced t poll _ hbal) hready

/-- A PONG the connection does not take. -/
def refusedPong : FrameEnv := ⟨true, default, [.block]⟩

/-- A PING arrives while the connection takes no PONG. -/
def pingRefused : SwsOp :=
  ⟨.recv true, [0x89, 0x80, 0, 0, 0, 0], [], [.more 1, .more 3], [refusedPong, refusedPong],
    default, []⟩

/-- `can_send` is asked. -/
def probe : SwsOp := ⟨.canSend true, [], [], [], [], default, []⟩

/-- A fresh TLS session takes a message although the connection takes none of its bytes; a
WebSocket session that owes a PONG gets rid of it first. -/
theorem can_send_kept_fresh :
    (StreamRun.init.stream.send .stls (Stream.stop .stls []) ⟨-1, 1⟩ [5] true
      ⟨[], [], [.block], []⟩).1 ≠ .again ∧
    ∃ s s', (SwsRun.system .sipc ⟨-1, 1⟩ false).run (SwsRun.init false) [pingRefused] =
        some s ∧
      s.step .sipc ⟨-1, 1⟩ probe = some s' ∧
      s'.sws.pendingPong = true ∧
      (s'.sws.send .sipc ⟨-1, 1⟩ [5] true default
        (s'.port ⟨.send [5] true default, [], [.block], [], [], default, []⟩)).1 ≠ .again := by
  constructor
  · exact (can_send_kept_iff .stls ⟨-1, 1⟩).1 StreamRun.init StreamRun.init
      ⟨.canSend false, [], [], [], []⟩ ⟨.send [5] true, [], [.block], [], []⟩ false [5]
      Reach.init rfl (by decide) rfl (by decide)
  · have hrun : (SwsRun.system .sipc ⟨-1, 1⟩ false).run (SwsRun.init false)
        [pingRefused] = some _ := rfl
    have hreach := Reach.of_run_init hrun
    refine ⟨_, _, hrun, rfl, by decide, ?_⟩
    exact ((can_send_kept_iff .sipc ⟨-1, 1⟩).2 false _ _ probe
      ⟨.send [5] true default, [], [.block], [], [], default, []⟩ true [5] default hreach rfl
      (by decide) rfl (by decide) rfl).mpr (Or.inr (by decide))

/-- `can_send` says yes, and the message sent next is refused with `-EAGAIN`: the PONG is
still owed and still not taken. -/
theorem can_send_broken_by_ping :
    ∃ s s', (SwsRun.system .sipc ⟨-1, 0⟩ false).run (SwsRun.init false) [pingRefused] =
        some s ∧
      (s.sws.canSend .sipc true (s.port probe)).1 = true ∧
      s.step .sipc ⟨-1, 0⟩ probe = some s' ∧
      (s'.sws.send .sipc ⟨-1, 0⟩ [5] true default
        (s'.port ⟨.send [5] true default, [], [], [], [refusedPong], default, []⟩)).1 = .again :=
  ⟨_, _, rfl, by decide, rfl, by decide⟩

end MsgBroker.Analysis.SwsWritable
