import MsgBroker.Analysis.SessionCalls
import MsgBroker.Analysis.SwsSides

/-!
# The largest message a WebSocket session returns

A frame whose length is over `INT_MAX` is refused with `-EMSGSIZE`, and four bytes of every payload
are the length prefix.
-/

set_option autoImplicit false

namespace MsgBroker.Analysis.SwsLimits

open Lib Model Analysis.SessionCalls

/-- The two sessions are in the same place of the same frame. -/
structure SameDecoder (x x' : Sws) : Prop where
  instate : x'.instate = x.instate
  inhdr : x'.inhdr = x.inhdr
  payloadLen : x'.payloadLen = x.payloadLen

theorem SameDecoder.refl (x : Sws) : SameDecoder x x := ⟨rfl, rfl, rfl⟩

theorem SameDecoder.trans {x y z : Sws} (h : SameDecoder x y) (h' : SameDecoder y z) :
    SameDecoder x z :=
  ⟨h'.instate.trans h.instate, h'.inhdr.trans h.inhdr, h'.payloadLen.trans h.payloadLen⟩

theorem SameDecoder.of_wrote {x x' : Sws} {c c' : Port} (h : SwsSides.Wrote x x' c c') :
    SameDecoder x x' :=
  ⟨h.field Sws.instate fun _ => rfl, h.field Sws.inhdr fun _ => rfl,
    h.field Sws.payloadLen fun _ => rfl⟩

/-! ## The parts that write -/

section Output

variable (t : Transport) (opts : SockOpts)

theorem flushQuiet_sameDecoder (x : Sws) (c : Port) :
    SameDecoder x (Sws.flushQuiet t x c).2.1 :=
  .of_wrote (SwsSides.flushQuiet_flushed t x c).wrote

theorem reportError_sameDecoder (x : Sws) (c : SwsPort) :
    SameDecoder x (Sws.reportError t x c).1 :=
  .of_wrote (SwsSides.reportError_wrote t x c).1

theorem flushOutbuf_sameDecoder (x : Sws) (c : SwsPort) :
    SameDecoder x (Sws.flushOutbuf t x c).2.1 :=
  .of_wrote (SwsSides.flushOutbuf_wrote t x c)

theorem flushPendingPong_sameDecoder (x : Sws) (c : SwsPort) :
    SameDecoder x (Sws.flushPendingPong t x c).2.1 :=
  .of_wrote (SwsSides.flushPendingPong_wrote t x c)

theorem sendData_sameDecoder (body : List UInt8) (alloc : Bool) (env : FrameEnv) (x : Sws)
    (c : SwsPort) : SameDecoder x (Sws.sendData t opts body alloc env x c).2.1 := by
  have hf := flushOutbuf_sameDecoder t x c
  exact (sws_sendData_sends t opts body alloc env x c).keeps hf
    (fun _ hy => ⟨hy.instate, hy.inhdr, hy.payloadLen⟩)
    (fun _ => ⟨hf.instate, hf.inhdr, hf.payloadLen⟩)
    (fun y d hy => hy.trans (flushOutbuf_sameDecoder t y d))
    fun y d hy => hy.trans (flushPendingPong_sameDecoder t y d)

theorem send_sameDecoder (body : List UInt8) (alloc : Bool) (env : FrameEnv) (x : Sws)
    (c : SwsPort) : SameDecoder x (Sws.send t opts body alloc env x c).2.1 := by
  have hp := flushPendingPong_sameDecoder t x c
  unfold Sws.send
  split
  · exact reportError_sameDecoder t x c
  · split
    · split
      all_goals
        rename_i heq
        rw [heq] at hp
      · exact hp.trans (sendData_sameDecoder t opts body alloc env _ _)
      · exact hp
    · exact sendData_sameDecoder t opts body alloc env x c

theorem hasMsg_sameDecoder (poll : Bool) (x : Sws) (c : SwsPort) :
    SameDecoder x (Sws.hasMsg t poll x c).2.1 :=
  (sws_hasMsg_probed t poll x c).keeps (P := fun r => SameDecoder x r.1) (.refl x)
    (flushOutbuf_sameDecoder t x c)

theorem canSend_sameDecoder (poll : Bool) (x : Sws) (c : SwsPort) :
    SameDecoder x (Sws.canSend t poll x c).2.1 :=
  (sws_canSend_probed t poll x c).keeps (P := fun r => SameDecoder x r.1) (.refl x)
    (flushOutbuf_sameDecoder t x c)

end Output

/-! ## The decoder -/

/-- The frame being decoded is not over `INT_MAX`, and no message is held back. -/
structure Limited (x : Sws) : Prop where
  payloadLen : x.payloadLen ≤ intMax
  instate : x.instate ≠ .HASMSG

/-- A result that is no body over `INT_MAX - 4` bytes. -/
def Short (res : Except Errno (List UInt8)) : Prop :=
  ∀ body, res = .ok body → 4 + body.length ≤ intMax

/-- The session stays limited wherever a part of the decoder leaves it. -/
def Within : Sws.Flow → Prop
  | .ret res x _ => Limited x ∧ Short res
  | .next x _ => Limited x

theorem Short.error (e : Errno) : Short (.error e) := nofun

theorem Limited.of_same {x x' : Sws} (h : Limited x) (hs : SameDecoder x x') : Limited x' where
  payloadLen := hs.payloadLen ▸ h.payloadLen
  instate := hs.instate ▸ h.instate

theorem Within.andThen {fl : Sws.Flow} {f : Sws → SwsPort → Sws.Flow} (h : Within fl)
    (hf : ∀ x c, Limited x → Within (f x c)) : Within (fl.andThen f) := by
  cases fl with
  | ret res x c => exact h
  | next x c => exact hf x c h

theorem payloadSize_le {x : Sws} {size : ℕ × ℕ} (h : x.payloadSize = some size) :
    size.1 ≤ intMax := by
  unfold Sws.payloadSize at h
  dsimp only at h
  split_ifs at h with hshort hmid hhigh hmax
  · cases h
    have hbyte := x.lenByte.toNat_lt
    exact le_trans (Nat.le_of_lt hbyte) (by decide)
  · cases h
    have hhi := (x.inhdr.getD 2 0).toNat_lt
    have hlo := (x.inhdr.getD 3 0).toNat_lt
    have hor : ((x.inhdr.getD 2 0).toNat <<< 8 ||| (x.inhdr.getD 3 0).toNat) < 2 ^ 16 := by
      apply Nat.or_lt_two_pow
      · rw [Nat.shiftLeft_eq]
        omega
      · omega
    exact le_trans (Nat.le_of_lt hor) (by decide)
  · cases h
    exact Nat.le_of_not_lt hmax

theorem Limited.moves {x x' : Sws} (h : Limited x) (hx : SwsSides.Moves x x') : Limited x' := by
  constructor
  · rcases hx.payloadLen with hlen | hlen | hlen
    · exact hlen ▸ h.payloadLen
    · rw [hlen]
      cases hsize : x.payloadSize with
      | none => exact Nat.zero_le _
      | some size => exact payloadSize_le hsize
    · rw [hlen]
      exact Nat.zero_le _
  · rcases hx.instate with hstate | hstate
    · exact hstate ▸ h.instate
    · exact hstate

section Input

variable (t : Transport) (opts : SockOpts)

theorem fail_within (e : Errno) {x : Sws} (c : SwsPort) (h : Limited x) :
    Within (Sws.fail t e x c) :=
  ⟨h.of_same (reportError_sameDecoder t x c), .error e⟩

theorem decoderRule : SwsSides.DecoderRule t (fun x _ => Limited x) Within where
  next _ _ := Iff.rfl
  andThen _ _ h hf := h.andThen hf
  block e _ _ h := ⟨h, .error e⟩
  body body x _ _ h hx hbody := by
    refine ⟨h.moves hx, ?_⟩
    rintro _ ⟨⟩
    rcases hbody with hheld | hle
    · exact absurd hheld h.instate
    · exact hle.trans h.payloadLen
  fail e _ c h := fail_within t e c h
  close _ _ h := fail_within t _ _ ⟨h.payloadLen, h.instate⟩
  pong x c h _ := h.of_same (flushPendingPong_sameDecoder t x c)
  input _ _ _ _ _ h hx := h.moves hx

theorem recv_within (alloc : Bool) {x : Sws} (c : SwsPort) (h : Limited x) :
    Limited (Sws.recv t opts alloc x c).2.1 ∧ Short (Sws.recv t opts alloc x c).1 :=
  (decoderRule t).recv opts alloc (fail_within t _ c h) fun _ =>
    h.of_same (flushOutbuf_sameDecoder t x c)

end Input

/-! ## Runs -/

/-- Nothing over the limit is under way or has been returned. -/
structure RunLimited (s : SwsRun) : Prop where
  sws : Limited s.sws
  results : ∀ r ∈ s.results, Short r

theorem step_limited (t : Transport) (opts : SockOpts) {s s' : SwsRun} {op : SwsOp}
    (h : RunLimited s) (hs : SwsRun.step t opts s op = some s') : RunLimited s' := by
  unfold SwsRun.step at hs
  split at hs
  · cases hs
    exact ⟨h.sws.of_same (send_sameDecoder t opts _ _ _ _ _), h.results⟩
  · rename_i alloc _
    cases hs
    obtain ⟨hsws, hshort⟩ := recv_within t opts alloc (s.port op) h.sws
    refine ⟨hsws, ?_⟩
    intro r hr
    rcases List.mem_append.mp hr with hr | hr
    · exact h.results r hr
    · rw [List.mem_singleton.mp hr]
      exact hshort
  · cases hs
    exact ⟨h.sws.of_same (hasMsg_sameDecoder t _ _ _), h.results⟩
  · cases hs
    exact ⟨h.sws.of_same (canSend_sameDecoder t _ _ _), h.results⟩

theorem run_limited (t : Transport) (opts : SockOpts) (client : Bool) {ops : List SwsOp}
    {s s' : SwsRun} (h : RunLimited s) (hrun : (SwsRun.system t opts client).run s ops = some s') :
    RunLimited s' := by
  induction ops generalizing s with
  | nil =>
    cases hrun
    exact h
  | cons op ops ih =>
    obtain ⟨u, hu, hrest⟩ := Option.bind_eq_some_iff.mp hrun
    exact ih (step_limited t opts h hu) hrest

end MsgBroker.Analysis.SwsLimits
