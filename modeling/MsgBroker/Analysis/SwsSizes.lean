import MsgBroker.Analysis.SwsLimits
import MsgBroker.Analysis.SwsOutSpec
import MsgBroker.Analysis.SwsRoundTrip

/-!
# The sizes a WebSocket session sends

One session sends and a session of the other role receives, both without a limit on the size of
messages.
-/

set_option autoImplicit false

namespace MsgBroker.Analysis.SwsSizes

open Lib Model
open Analysis.SwsOut Analysis.SwsLimits Analysis.WsTrip

/-- A call of a session that only sends: nothing arrives, and the connection neither fails
nor ends. -/
structure Sends (op : SwsOp) : Prop where
  arrive : op.arrive = []
  wans : Calm op.wans
  rans : Calm op.rans

/-! ## The frames of the messages -/

/-- The data frames of the messages, each with its masking key. -/
def dataFrames (sent : List (MaskKey × List UInt8)) : List OutFrame :=
  sent.map fun m => .data m.1 m.2

/-- The messages as the receiver is to see them. -/
def messages (sent : List (MaskKey × List UInt8)) : List Item := sent.map fun m => .msg m.1 m.2

theorem wire_messages (snd : Bool) (sent : List (MaskKey × List UInt8)) :
    wire snd (messages sent) = (dataFrames sent).flatMap (OutFrame.bytes snd) := by
  rw [wire, messages, dataFrames, List.flatMap_map, List.flatMap_map]
  rfl

theorem bodies_messages (sent : List (MaskKey × List UInt8)) :
    bodies (messages sent) = (dataFrames sent).filterMap OutFrame.body? := by
  rw [bodies, messages, dataFrames, List.filterMap_map, List.filterMap_map]
  rfl

/-! ## The sender -/

/-- A session that has sent `acc` and read nothing: its output is data frames, and it waits
for a header. -/
structure Sending (snd : Bool) (x : Sws) (tx : List UInt8) (acc : List (List UInt8)) :
    Prop where
  role : x.isClient = snd
  isOpen : x.isOpen = true
  connected : x.disconnected = false
  noPong : x.pendingPong = false
  instate : x.instate = .HDR
  inhdr : x.inhdr = []
  frames : ∃ sent, Written x tx acc (dataFrames sent)

/-- Of `left` bytes to write, the session has written those there was room for. -/
structure Drained (left room : ℕ) (x : Sws) : Prop where
  le : (SwsOut.unsent x).length ≤ left - room
  gone : SwsOut.unsent x = [] → x.outbuf = none

/-- A connection on which nothing arrives and nothing fails. -/
structure Still (c : Port) : Prop where
  rx : c.rx = []
  wans : Calm c.wans
  rans : Calm c.rans

section Sender

variable (t : Transport) (opts : SockOpts) {snd : Bool} {x : Sws} {acc : List (List UInt8)}
  {c : SwsPort}

theorem unsent_nil (h : x.outbuf = none) : SwsOut.unsent x = [] := by
  simp only [SwsOut.unsent, h]

theorem Drained.of_none {left room : ℕ} (h : x.outbuf = none) : Drained left room x :=
  ⟨by rw [unsent_nil h]; exact Nat.zero_le _, fun _ => h⟩

variable {tx : List UInt8}

theorem Sending.wire_eq (h : Sending snd x tx acc) (hnone : x.outbuf = none) :
    ∃ sent, tx = wire snd (messages sent) ∧ bodies (messages sent) = acc := by
  obtain ⟨sent, hw⟩ := h.frames
  have hbytes := hw.bytes
  rw [unsent_nil hnone, List.append_nil, h.role, ← wire_messages] at hbytes
  exact ⟨sent, hbytes, (bodies_messages sent).trans hw.bodies⟩

theorem Sending.countRefused (h : Sending snd x tx acc) :
    Sending snd x.countRefused tx acc := by
  obtain ⟨sent, hw⟩ := h.frames
  exact ⟨h.role, h.isOpen, h.connected, h.noPong, h.instate, h.inhdr, sent,
    hw.same ⟨rfl, rfl, rfl, rfl, rfl, rfl⟩⟩

theorem Sending.accept (h : Sending snd x tx acc) (hnone : x.outbuf = none)
    (key : MaskKey) (body : List UInt8) (inFlight : ℤ) :
    Sending snd { x with
      outbuf := some (buildFrame x.isClient key .BINARY (dataPayload body))
      outpos := 0
      inFlight := inFlight } tx (acc ++ [body]) := by
  obtain ⟨sent, hw⟩ := h.frames
  have hbytes := hw.bytes
  rw [unsent_nil hnone, List.append_nil] at hbytes
  have hsnoc : dataFrames (sent ++ [(key, body)]) = dataFrames sent ++ [.data key body] := by
    rw [dataFrames, List.map_append]
    rfl
  refine ⟨h.role, h.isOpen, h.connected, h.noPong, h.instate, h.inhdr, sent ++ [(key, body)], ?_⟩
  rw [hsnoc]
  refine ⟨?_, ?_, ?_⟩
  · rw [List.flatMap_append, ← hbytes]
    simp [SwsOut.unsent, OutFrame.bytes]
  · rw [List.filterMap_append, hw.bodies]
    rfl
  · rintro buf ⟨⟩
    exact ⟨dataFrames sent, key, body, rfl, rfl⟩

/-- INTERNAL: the frame of a message is hardly larger than the message. -/
theorem Sending.short (h : Sending snd x tx acc)
    (hfits : ∀ body ∈ acc, body.length < 2 ^ 31) :
    ∀ buf, x.outbuf = some buf → buf.length + 11 < 2 ^ 32 := by
  intro buf hbuf
  obtain ⟨sent, hw⟩ := h.frames
  obtain ⟨fs, key, body, hlast, rfl⟩ := hw.last buf hbuf
  have hmem : body ∈ acc := by
    rw [← hw.bodies, hlast, List.filterMap_append]
    exact List.mem_append_right _ List.mem_cons_self
  have hbody := hfits body hmem
  have hframe := buildFrame_length_le x.isClient key .BINARY (dataPayload body)
  have hdata : (dataPayload body).length = 4 + body.length := by
    rw [dataPayload, List.length_append, length_putUint32]
  show (buildFrame x.isClient key .BINARY (dataPayload body)).length + 11 < 2 ^ 32
  omega

theorem lt_of_fits (h : ∀ body ∈ acc, 4 + body.length ≤ intMax) :
    ∀ body ∈ acc, body.length < 2 ^ 31 := by
  intro body hbody
  have hle := h body hbody
  unfold intMax at hle
  omega

/-- INTERNAL: a flush that fails for good reports the session as lost. -/
theorem flushOutbuf_lost {rc : Rc} {x' : Sws} {c' : SwsPort} (hopen : x.isOpen = true)
    (hf : Sws.flushOutbuf t x c = (rc, x', c')) (hok : rc ≠ .ok) (hagain : rc ≠ .again) :
    x'.disconnected = true := by
  unfold Sws.flushOutbuf at hf
  split at hf
  · exact absurd (congrArg Prod.fst hf).symm hok
  · exact absurd (congrArg Prod.fst hf).symm hagain
  · rw [if_pos hopen] at hf
    rw [← (Prod.mk.inj (Prod.mk.inj hf).2).1]
    exact (SwsSides.reportError_wrote t _ _).2

/-- INTERNAL: **`mb_sws_flush_outbuf`** of a sender: the frame is gone, the bytes the connection
had room for are, or the session is lost over a count that is no `int`. -/
theorem flushOutbuf_sending (h : Sending snd x c.port.tx acc) (hc : Still c.port)
    (hlt : ∀ buf, x.outbuf = some buf → buf.length + 11 < 2 ^ 32) :
    ∃ rc x' c', Sws.flushOutbuf t x c = (rc, x', c') ∧
      (Sending snd x' c'.port.tx acc ∧
          Still c'.port ∧ Drained (SwsOut.unsent x).length (room true c.port.wans) x' ∧
          (rc = .ok ∧ x'.outbuf = none ∨ rc = .again) ∨
        x'.disconnected = true ∧ rc ≠ .ok ∧ rc ≠ .again ∧
          (t = .stls ∨ intMax < room true c.port.wans)) := by
  obtain ⟨sent, hw⟩ := h.frames
  obtain ⟨rc, y, d, hf, hcases⟩ := flushQuiet_cases t h.isOpen hw hc.wans hlt
  have hsame := flushQuiet_sameDecoder t x c.port
  rw [hf] at hsame
  unfold Sws.flushOutbuf
  rcases hcases with ⟨hy, hrx, hrans, hcalm, hrole, hopen, hdisc, _, hpong, hrc⟩ |
    ⟨hok, hagain, buf, _, _, hroom⟩
  · have hsending : Sending snd y d.tx acc :=
      ⟨hrole.trans h.role, hopen.trans h.isOpen, hdisc.trans h.connected, hpong.trans h.noPong,
        hsame.instate.trans h.instate, hsame.inhdr.trans h.inhdr, sent, hy⟩
    have hstill : Still d := ⟨hrx.trans hc.rx, hcalm, hrans ▸ hc.rans⟩
    rcases hrc with ⟨rfl, hnone⟩ | ⟨rfl, buf, hbuf, hbuf', hlt, hpos⟩
    · simp only [hf]
      exact ⟨.ok, y, { c with port := d }, rfl,
        Or.inl ⟨hsending, hstill, .of_none hnone, Or.inl ⟨rfl, hnone⟩⟩⟩
    · simp only [hf]
      refine ⟨.again, y, { c with port := d }, rfl,
        Or.inl ⟨hsending, hstill, ⟨?_, fun hnil => ?_⟩, Or.inr rfl⟩⟩
      all_goals
        have hleft : (SwsOut.unsent x).length = buf.length - x.outpos := by
          simp only [SwsOut.unsent, hbuf, List.length_drop]
        have hleft' : (SwsOut.unsent y).length = buf.length - y.outpos := by
          simp only [SwsOut.unsent, hbuf', List.length_drop]
      · omega
      · rw [hnil, List.length_nil] at hleft'
        omega
  · cases rc with
    | ok => exact absurd rfl hok
    | err e =>
      have hne : e ≠ .EAGAIN := fun he => hagain (he ▸ rfl)
      refine ⟨.err e, (Sws.reportError t y { c with port := d }).1,
        (Sws.reportError t y { c with port := d }).2, ?_,
        Or.inr ⟨(SwsSides.reportError_wrote t _ _).2, hok, hagain, hroom⟩⟩
      simp only [hf, h.isOpen, if_true]

theorem flushPendingPong_sending (h : Sending snd x tx acc) :
    Sws.flushPendingPong t x c = (.ok, x, c) := by
  unfold Sws.flushPendingPong
  simp only [h.noPong, Bool.not_false, if_true]

theorem send_eq_sendData (body : List UInt8) (alloc : Bool) (env : FrameEnv)
    (h : Sending snd x tx acc) :
    Sws.send t opts body alloc env x c = Sws.sendData t opts body alloc env x c := by
  unfold Sws.send
  simp only [h.isOpen, h.noPong, Bool.not_true, Bool.false_eq_true, and_false, if_false]

/-- INTERNAL: what `mb_sws_send` returns and leaves behind once the frame is in `outbuf`. -/
theorem accepted_sending (h : Sending snd x c.port.tx acc) (hc : Still c.port)
    (hlt : ∀ buf, x.outbuf = some buf → buf.length + 11 < 2 ^ 32) :
    ∃ rc x' c', (match Sws.flushOutbuf t x c with
        | (.err .EAGAIN, y, d) => (Rc.ok, y, d)
        | (.err e, y, d) => (.err e, y, d)
        | (.ok, y, d) => (.ok, (Sws.flushPendingPong t y d).2)) = (rc, x', c') ∧
      (rc = .ok ∧ Sending snd x' c'.port.tx acc ∧ Still c'.port ∧
          Drained (SwsOut.unsent x).length (room true c.port.wans) x' ∨
        x'.disconnected = true ∧ (t = .stls ∨ intMax < room true c.port.wans)) := by
  obtain ⟨rc, y, d, hf, ⟨hy, hd, hdrained, hrc⟩ | ⟨hlost, hok, hagain, hroom⟩⟩ :=
    flushOutbuf_sending t h hc hlt
  · refine ⟨.ok, y, d, ?_, Or.inl ⟨rfl, hy, hd, hdrained⟩⟩
    rcases hrc with ⟨rfl, _⟩ | rfl
    · simp only [hf, flushPendingPong_sending t hy]
    · simp only [hf]
  · refine ⟨rc, y, d, ?_, Or.inr ⟨hlost, hroom⟩⟩
    rw [hf]
    split
    · rename_i heq
      exact absurd (congrArg Prod.fst heq) hagain
    · rename_i heq
      exact heq.symm
    · rename_i heq
      exact absurd (congrArg Prod.fst heq) hok

/-- INTERNAL: **`mb_sws_send`** of a sender: the session is lost, a message was taken that does not
fit the receiver, or the frame of one that does is on its way. -/
theorem send_sending (body : List UInt8) (alloc : Bool) (env : FrameEnv)
    (h : Sending snd x c.port.tx acc) (hc : Still c.port)
    (hfits : ∀ body ∈ acc, 4 + body.length ≤ intMax) :
    ∃ rc x' c', Sws.send t opts body alloc env x c = (rc, x', c') ∧
      (x'.disconnected = true ∨ rc = .ok ∧ intMax < 4 + body.length ∨
        Sending snd x' c'.port.tx (if rc = .ok then acc ++ [body] else acc) ∧ Still c'.port) := by
  obtain ⟨rc, y, d, hf, ⟨hy, hd, _, hrc⟩ | ⟨hlost, hok, hagain, _⟩⟩ :=
    flushOutbuf_sending t h hc (h.short (lt_of_fits hfits))
  · rw [send_eq_sendData t opts body alloc env h]
    unfold Sws.sendData
    rcases hrc with ⟨rfl, hnone⟩ | rfl
    · simp only [hf]
      split_ifs
      · exact ⟨_, y, d, rfl, Or.inr (Or.inr ⟨by simpa using hy, hd⟩)⟩
      · exact ⟨_, y, d, rfl, Or.inr (Or.inr ⟨by simpa using hy, hd⟩)⟩
      · exact ⟨_, y.countRefused, d, rfl, Or.inr (Or.inr ⟨by simpa using hy.countRefused, hd⟩)⟩
      · exact ⟨_, y, d, rfl, Or.inr (Or.inr ⟨by simpa using hy, hd⟩)⟩
      · have haccept := hy.accept hnone env.key body (y.inFlight + 1)
        by_cases hbody : 4 + body.length ≤ intMax
        · have hall : ∀ b ∈ acc ++ [body], 4 + b.length ≤ intMax :=
            List.forall_mem_append.mpr ⟨hfits, List.forall_mem_singleton.mpr hbody⟩
          obtain ⟨rc, z, e, hz, ⟨rfl, hsending, hstill, _⟩ | ⟨hlost, _⟩⟩ :=
            accepted_sending t haccept hd (haccept.short (lt_of_fits hall))
          · exact ⟨.ok, z, e, hz, Or.inr (Or.inr ⟨by simpa using hsending, hstill⟩)⟩
          · exact ⟨rc, z, e, hz, Or.inl hlost⟩
        · split
          · exact ⟨.ok, _, _, rfl, Or.inr (Or.inl ⟨rfl, Nat.lt_of_not_le hbody⟩)⟩
          · rename_i hne heq
            exact ⟨_, _, _, rfl, Or.inl (flushOutbuf_lost t haccept.isOpen heq nofun
              fun he => hne (Rc.err.inj he))⟩
          · exact ⟨.ok, _, _, rfl, Or.inr (Or.inl ⟨rfl, Nat.lt_of_not_le hbody⟩)⟩
    · simp only [hf]
      split_ifs
      · exact ⟨.again, y.countRefused, d, rfl,
          Or.inr (Or.inr ⟨by simpa using hy.countRefused, hd⟩)⟩
      · exact ⟨.again, y, d, rfl, Or.inr (Or.inr ⟨by simpa using hy, hd⟩)⟩
  · rw [send_eq_sendData t opts body alloc env h]
    unfold Sws.sendData
    rw [hf]
    split
    · rename_i heq
      exact absurd (congrArg Prod.fst heq) hagain
    · rename_i heq
      obtain ⟨rfl, rfl⟩ := Prod.mk.inj (Prod.mk.inj heq).2
      exact ⟨_, _, _, rfl, Or.inl hlost⟩
    · rename_i heq
      exact absurd (congrArg Prod.fst heq) hok

theorem send_idle (body : List UInt8) (env : FrameEnv) (h : Sending snd x c.port.tx acc)
    (hc : Still c.port) (hnone : x.outbuf = none) (henv : env.alloc = true)
    (hsize : opts.msgTooLarge body.length = false) (hhwm : ¬ opts.hwm > 0)
    (hlt : (buildFrame snd env.key .BINARY (dataPayload body)).length + 11 < 2 ^ 32)
    (hroom : ¬ (t = .stls ∨ intMax < room true c.port.wans)) :
    ∃ x' c', Sws.send t opts body true env x c = (.ok, x', c') ∧
      Sending snd x' c'.port.tx (acc ++ [body]) ∧ Still c'.port ∧
      Drained (buildFrame snd env.key .BINARY (dataPayload body)).length
        (room true c.port.wans) x' := by
  have hflush := SwsSides.flushOutbuf_of_none t hnone c
  have haccept := h.accept hnone env.key body (x.inFlight + 1)
  rw [← h.role] at hlt ⊢
  obtain ⟨rc, y, d, hy, ⟨rfl, hsending, hstill, hdrained⟩ | ⟨_, hlost⟩⟩ :=
    accepted_sending t haccept hc (by rintro buf ⟨⟩; exact hlt)
  · refine ⟨y, d, ?_, h.role ▸ hsending, hstill, ?_⟩
    · rw [send_eq_sendData t opts body true env h]
      unfold Sws.sendData
      simp only [hflush, hsize, hhwm, henv, Bool.not_true, Bool.false_eq_true, false_and, if_false]
      exact hy
    · simpa only [SwsOut.unsent, List.drop_zero] using hdrained
  · exact absurd hlost hroom

/-- INTERNAL: a sender reads nothing, so `mb_sws_recv` is a flush. -/
theorem recv_sending (alloc : Bool) (h : Sending snd x c.port.tx acc) (hc : Still c.port)
    (hfits : ∀ body ∈ acc, 4 + body.length ≤ intMax) :
    (Sws.recv t opts alloc x c).2.1.disconnected = true ∨
      Sending snd (Sws.recv t opts alloc x c).2.1 (Sws.recv t opts alloc x c).2.2.port.tx acc ∧
        Still (Sws.recv t opts alloc x c).2.2.port := by
  obtain ⟨rc, y, d, hf, ⟨hy, hd, _, hrc⟩ | ⟨hlost, hok, hagain, _⟩⟩ :=
    flushOutbuf_sending t h hc (h.short (lt_of_fits hfits))
  · right
    obtain ⟨rans, hrans, hread⟩ := readHdr_empty t hy.isOpen hd.rans hy.inhdr hd.rx
    have hloop : ∀ fuel, Sws.recvLoop t opts alloc (fuel + 2) y d =
        some (.error .EAGAIN, y, { d with port := { d.port with rx := [], rans := rans } }) := by
      intro fuel
      unfold Sws.recvLoop Sws.round
      simp only [hy.instate, if_true, hread, Sws.Flow.andThen]
    have hstill : Still { d.port with rx := [], rans := rans } := ⟨rfl, hd.wans, hrans⟩
    unfold Sws.recv
    simp only [h.isOpen, Bool.not_true, Bool.false_eq_true, if_false]
    rcases hrc with ⟨rfl, _⟩ | rfl
    all_goals
      simp only [hf, flushPendingPong_sending t hy, ite_self, hloop]
      exact ⟨hy, hstill⟩
  · left
    unfold Sws.recv
    simp only [h.isOpen, Bool.not_true, Bool.false_eq_true, if_false, hf]
    split
    · rename_i heq
      exact absurd (congrArg Prod.fst heq) hok
    · rename_i heq
      exact absurd (congrArg Prod.fst heq) hagain
    · rename_i heq
      obtain ⟨rfl, rfl⟩ := Prod.mk.inj (Prod.mk.inj heq).2
      exact hlost

theorem probed_sending {r : Bool × Sws × SwsPort}
    (hr : SessionCalls.Probed x c (Sws.flushOutbuf t x c) r) (h : Sending snd x c.port.tx acc)
    (hc : Still c.port) (hfits : ∀ body ∈ acc, 4 + body.length ≤ intMax) :
    r.2.1.disconnected = true ∨ Sending snd r.2.1 r.2.2.port.tx acc ∧ Still r.2.2.port := by
  obtain ⟨rc, y, d, hf, hcases⟩ := flushOutbuf_sending t h hc (h.short (lt_of_fits hfits))
  rw [hf] at hr
  refine hr.keeps (P := fun q => q.1.disconnected = true ∨
    Sending snd q.1 q.2.port.tx acc ∧ Still q.2.port) (Or.inr ⟨h, hc⟩) ?_
  rcases hcases with ⟨hy, hd, _⟩ | ⟨hlost, _⟩
  · exact Or.inr ⟨hy, hd⟩
  · exact Or.inl hlost

/-- INTERNAL: a probe that writes less than `INT_MAX` bytes to a plain connection takes them off the
frame. -/
theorem canSend_drained (h : Sending snd x c.port.tx acc) (hc : Still c.port)
    (hlt : ∀ buf, x.outbuf = some buf → buf.length + 11 < 2 ^ 32)
    (hroom : ¬ (t = .stls ∨ intMax < room true c.port.wans)) :
    Sending snd (Sws.canSend t true x c).2.1 (Sws.canSend t true x c).2.2.port.tx acc ∧
      Still (Sws.canSend t true x c).2.2.port ∧
      Drained (SwsOut.unsent x).length (room true c.port.wans) (Sws.canSend t true x c).2.1 := by
  unfold Sws.canSend
  simp only [h.isOpen, h.connected, Bool.not_true, Bool.false_eq_true, or_self, if_false]
  obtain ⟨rc, y, d, hf, ⟨hy, hd, hdrained, hrc⟩ | ⟨_, _, _, hlost⟩⟩ := flushOutbuf_sending t h hc hlt
  · split_ifs with hnone
    · exact ⟨h, hc, .of_none (by simpa using hnone)⟩
    · rcases hrc with ⟨rfl, _⟩ | rfl
      all_goals
        simp only [hf]
        exact ⟨hy, hd, hdrained⟩
  · exact absurd hlost hroom

end Sender

/-! ## Lost sessions -/

/-- The session is lost wherever a part of the decoder leaves it. -/
def Lost : Sws.Flow → Prop
  | .ret _ x _ => x.disconnected = true
  | .next x _ => x.disconnected = true

section Lost

variable (t : Transport) (opts : SockOpts) {x : Sws} (c : SwsPort)

theorem flushOutbuf_down (h : x.disconnected = true) :
    (Sws.flushOutbuf t x c).2.1.disconnected = true := by
  have hq := (SwsSides.flushQuiet_flushed t x c.port).field Sws.disconnected fun _ => rfl
  unfold Sws.flushOutbuf
  split
  all_goals
    rename_i heq
    rw [heq] at hq
  · exact hq.trans h
  · exact hq.trans h
  · split
    · exact (SwsSides.reportError_wrote t _ _).2
    · exact hq.trans h

theorem flushPendingPong_down (h : x.disconnected = true) :
    (Sws.flushPendingPong t x c).2.1.disconnected = true := by
  unfold Sws.flushPendingPong
  split
  · exact h
  · dsimp only
    split
    · exact h
    · exact h
    · exact (SwsSides.reportError_wrote t _ _).2

theorem lostRule : SwsSides.DecoderRule t (fun x _ => x.disconnected = true) Lost where
  next _ _ := Iff.rfl
  andThen f _ h hf := by
    cases f with
    | ret res x c => exact h
    | next x c => exact hf x c h
  block _ _ _ h := h
  body _ _ _ _ h hx _ := (congrArg Sws.disconnected hx.rest).trans h
  fail _ x c _ := (SwsSides.reportError_wrote t x c).2
  close x c _ := (SwsSides.reportError_wrote t _ _).2
  pong _ c h _ := flushPendingPong_down t c h
  input _ _ _ _ _ h hx := (congrArg Sws.disconnected hx.rest).trans h

theorem sendData_down (body : List UInt8) (alloc : Bool) (env : FrameEnv)
    (h : x.disconnected = true) :
    (Sws.sendData t opts body alloc env x c).2.1.disconnected = true :=
  (SessionCalls.sws_sendData_sends t opts body alloc env x c).keeps
    (P := fun y : Sws => y.disconnected = true) (flushOutbuf_down t c h) (fun _ hy => hy)
    (fun _ => flushOutbuf_down t c h) (fun _ d hy => flushOutbuf_down t d hy)
    fun _ d hy => flushPendingPong_down t d hy

theorem send_down (body : List UInt8) (alloc : Bool) (env : FrameEnv)
    (h : x.disconnected = true) :
    (Sws.send t opts body alloc env x c).2.1.disconnected = true := by
  have hp := flushPendingPong_down t c h
  unfold Sws.send
  split
  · exact (SwsSides.reportError_wrote t _ _).2
  · split
    · split
      all_goals
        rename_i heq
        rw [heq] at hp
      · exact sendData_down t opts _ body alloc env hp
      · exact hp
    · exact sendData_down t opts c body alloc env h

/-- INTERNAL: **a lost session stays lost.** -/
theorem step_down {s s' : SwsRun} {op : SwsOp} (h : s.sws.disconnected = true)
    (hs : SwsRun.step t opts s op = some s') : s'.sws.disconnected = true := by
  unfold SwsRun.step at hs
  split at hs
  all_goals cases hs
  · exact send_down t opts _ _ _ _ h
  · exact (lostRule t).recv opts _ (SwsSides.reportError_wrote t _ _).2
      fun _ => flushOutbuf_down t _ h
  · exact (SessionCalls.sws_hasMsg_probed t _ _ _).keeps (P := fun q => q.1.disconnected = true) h
      (flushOutbuf_down t _ h)
  · exact (SessionCalls.sws_canSend_probed t _ _ _).keeps (P := fun q => q.1.disconnected = true) h
      (flushOutbuf_down t _ h)

end Lost

/-! ## Runs of the sender -/

section Runs

variable (t : Transport) (opts : SockOpts) {snd : Bool}

/-- A sender between two calls. -/
structure SendingRun (snd : Bool) (s : SwsRun) : Prop where
  sws : Sending snd s.sws s.tx s.accepted
  rx : s.rx = []

theorem SendingRun.init (snd : Bool) : SendingRun snd (SwsRun.init snd) :=
  ⟨⟨rfl, rfl, rfl, rfl, rfl, rfl, [], rfl, rfl, nofun⟩, rfl⟩

variable {s : SwsRun} {op : SwsOp}

theorem SendingRun.still (h : SendingRun snd s) (hop : Sends op) :
    Still (s.port op).port := by
  refine ⟨?_, hop.wans, hop.rans⟩
  rw [SwsRun.port, h.rx, hop.arrive]
  rfl

/-- What a run of the sender comes to: the session is lost, a message was taken that does not fit
the receiver, or the frames of all messages are on their way. -/
def Sent (snd : Bool) (s : SwsRun) : Prop :=
  s.sws.disconnected = true ∨ (∃ body ∈ s.accepted, intMax < 4 + body.length) ∨ SendingRun snd s

theorem step_accepted {s' : SwsRun} (hs : SwsRun.step t opts s op = some s') :
    s.accepted ⊆ s'.accepted := by
  unfold SwsRun.step at hs
  split at hs
  · rename_i body alloc env _
    rcases hsend : s.sws.send t opts body alloc env (s.port op) with ⟨rc, x, c⟩
    rw [hsend] at hs
    cases hs
    by_cases hrc : rc = .ok <;> simp [hrc]
  all_goals
    cases hs
    exact List.Subset.refl _

/-- INTERNAL: **one call of the sender.** -/
theorem step_sending {s' : SwsRun} (h : Sent snd s) (hop : Sends op)
    (hs : SwsRun.step t opts s op = some s') : Sent snd s' := by
  rcases h with hlost | ⟨body, hbody, hbig⟩ | h
  · exact Or.inl (step_down t opts hlost hs)
  · exact Or.inr (Or.inl ⟨body, step_accepted t opts hs hbody, hbig⟩)
  by_cases hfits : ∀ body ∈ s.accepted, 4 + body.length ≤ intMax
  swap
  · push Not at hfits
    obtain ⟨body, hbody, hbig⟩ := hfits
    exact Or.inr (Or.inl ⟨body, step_accepted t opts hs hbody, hbig⟩)
  have hstill := h.still hop
  have hsws : Sending snd s.sws (s.port op).port.tx s.accepted := h.sws
  unfold SwsRun.step at hs
  split at hs
  · rename_i body alloc env _
    obtain ⟨rc, x, c, hcall, hcases⟩ := send_sending t opts body alloc env hsws hstill hfits
    rw [hcall] at hs
    cases hs
    rcases hcases with hlost | ⟨rfl, hbig⟩ | ⟨hx, hc⟩
    · exact Or.inl hlost
    · exact Or.inr (Or.inl ⟨body, by simp, hbig⟩)
    · exact Or.inr (Or.inr ⟨hx, hc.rx⟩)
  · rename_i alloc _
    cases hs
    exact (recv_sending t opts alloc hsws hstill hfits).imp id
      fun ⟨hx, hc⟩ => Or.inr ⟨hx, hc.rx⟩
  · rename_i poll _
    cases hs
    exact (probed_sending t (SessionCalls.sws_hasMsg_probed t poll _ _) hsws hstill hfits).imp id
      fun ⟨hx, hc⟩ => Or.inr ⟨hx, hc.rx⟩
  · rename_i poll _
    cases hs
    exact (probed_sending t (SessionCalls.sws_canSend_probed t poll _ _) hsws hstill hfits).imp id
      fun ⟨hx, hc⟩ => Or.inr ⟨hx, hc.rx⟩

theorem reach_sending
    (h : Reach (SwsRun.system t opts snd) (fun _ op => Sends op) s) : Sent snd s :=
  h.invariant (Sent snd) (Or.inr (Or.inr (SendingRun.init snd))) fun _ _ _ hs hop hstep =>
    step_sending t opts hs hop hstep

/-- A `send` for which all allocations succeed, with the answers to its writes. -/
def sendOp (body : List UInt8) (wans : List (Answer ℕ)) : SwsOp :=
  ⟨.send body true default, [], wans, [], [], default, []⟩

/-- A `can_send` that finds the connection writable, with the answers to its writes. -/
def probeOp (wans : List (Answer ℕ)) : SwsOp := ⟨.canSend true, [], wans, [], [], default, []⟩

theorem step_sendOp {wans : List (Answer ℕ)} (h : SendingRun snd s)
    (hnone : s.sws.outbuf = none) (hcalm : Calm wans) (body : List UInt8)
    (hsize : opts.msgTooLarge body.length = false) (hhwm : ¬ opts.hwm > 0)
    (hlt : (buildFrame snd default .BINARY (dataPayload body)).length + 11 < 2 ^ 32)
    (hroom : ¬ (t = .stls ∨ intMax < room true wans)) :
    ∃ s', (SwsRun.system t opts snd).step s (sendOp body wans) = some s' ∧ SendingRun snd s' ∧
      s'.accepted = s.accepted ++ [body] ∧
      Drained (buildFrame snd default .BINARY (dataPayload body)).length (room true wans)
        s'.sws := by
  have hstill : Still (s.port (sendOp body wans)).port := h.still ⟨rfl, hcalm, nofun⟩
  obtain ⟨x, c, hcall, hx, hc, hdrained⟩ :=
    send_idle t opts body default h.sws hstill hnone rfl hsize hhwm hlt hroom
  have hstep : SwsRun.step t opts s (sendOp body wans) =
      some { s.put x c with accepted := s.accepted ++ [body] } := by
    unfold SwsRun.step
    simp only [sendOp] at hcall ⊢
    simp only [hcall, if_true]
  exact ⟨_, hstep, ⟨hx, hc.rx⟩, rfl, hdrained⟩

theorem step_probeOp {wans : List (Answer ℕ)} (h : SendingRun snd s)
    (hcalm : Calm wans) (hlt : ∀ buf, s.sws.outbuf = some buf → buf.length + 11 < 2 ^ 32)
    (hroom : ¬ (t = .stls ∨ intMax < room true wans)) :
    ∃ s', (SwsRun.system t opts snd).step s (probeOp wans) = some s' ∧ SendingRun snd s' ∧
      s'.accepted = s.accepted ∧
      Drained (SwsOut.unsent s.sws).length (room true wans) s'.sws := by
  have hstill : Still (s.port (probeOp wans)).port := h.still ⟨rfl, hcalm, nofun⟩
  obtain ⟨hx, hc, hdrained⟩ := canSend_drained t h.sws hstill hlt hroom
  exact ⟨_, rfl, ⟨hx, hc.rx⟩, rfl, hdrained⟩

theorem run_total (client : Bool) (s : SwsRun) (ops : List SwsOp) :
    ∃ s', (SwsRun.system t opts client).run s ops = some s' := by
  refine System.run_total (fun s op => ?_) s ops
  show ∃ u, SwsRun.step t opts s op = some u
  unfold SwsRun.step
  split
  all_goals exact ⟨_, rfl⟩

end Runs

/-! ## Both ends -/

/-- A session that is to read the bytes. -/
def reader (client : Bool) (bytes : List UInt8) : SwsRun := { SwsRun.init client with rx := bytes }

theorem reader_limited (client : Bool) (bytes : List UInt8) : RunLimited (reader client bytes) :=
  ⟨⟨Nat.zero_le _, SwsInState.noConfusion⟩, nofun⟩

theorem mem_received {results : List (Except Errno (List UInt8))} {body : List UInt8}
    (h : body ∈ received results) : .ok body ∈ results := by
  obtain ⟨r, hr, hbody⟩ := List.mem_filterMap.mp h
  cases r with
  | error e => cases hbody
  | ok b =>
    cases hbody
    exact hr

theorem received_short (t : Transport) (opts : SockOpts) (client : Bool) {bytes : List UInt8}
    {ops : List SwsOp} {r : SwsRun}
    (hrun : (SwsRun.system t opts client).run (reader client bytes) ops = some r) :
    ∀ body ∈ received r.results, 4 + body.length ≤ intMax := by
  intro body hbody
  have hlim := run_limited t opts client (reader_limited client bytes) hrun
  exact hlim.results _ (mem_received hbody) body rfl

theorem received_messages (t : Transport) (peer : SockOpts) (hpeer : peer.rcvmaxsize = -1)
    (snd : Bool) (sent : List (MaskKey × List UInt8))
    (hfits : ∀ body ∈ bodies (messages sent), 4 + body.length ≤ intMax) {ops : List SwsOp}
    (hops : ∀ op ∈ ops, Feeds op)
    (henough : (wire snd (messages sent)).length ≤ ops.countP Reads) :
    ∃ r, (SwsRun.system t peer (!snd)).run (reader (!snd) (wire snd (messages sent))) ops =
        some r ∧
      received r.results = bodies (messages sent) := by
  have hitems : ∀ it ∈ messages sent, it.Fits peer := by
    intro it hit
    obtain ⟨m, hm, rfl⟩ := List.mem_map.mp hit
    refine ⟨hfits m.2 (List.mem_filterMap.mpr ⟨_, hit, rfl⟩), ?_⟩
    simp [SockOpts.msgTooLarge, hpeer]
  have hreading : Reading snd (reader (!snd) (wire snd (messages sent))).sws :=
    ⟨rfl, rfl, rfl, rfl⟩
  obtain ⟨r, rest, rs, hrun, hat, hres, _, hbodies, hprog⟩ := run_yields t peer (!snd) hops
    hreading (.boundary rfl rfl) hitems
  refine ⟨r, hrun, ?_⟩
  have hempty : r.rx = [] := by
    rcases hprog with hnil | hlen
    · exact hnil
    · have hrx : (reader (!snd) (wire snd (messages sent))).rx = wire snd (messages sent) := rfl
      rw [hrx] at hlen
      exact List.eq_nil_of_length_eq_zero (by omega)
  rw [hempty] at hat
  rw [show r.results = rs from hres, hbodies, hat.eq_nil]
  exact (List.append_nil _).symm

/-- **A WebSocket session may send what its peer cannot decode.**  A session sends any
messages and probes its connection, in any order, until everything is written and the session is
not lost; a session of the other role with `MB_RCVMAXSIZE` -1 reads those bytes, in any
fragments, until enough reads found something.  It returns exactly the messages `mb_sws_send` took if each of them
fits an `int` with its length prefix, and otherwise it does not: `mb_sws_send` takes a body
of any size, where `mb_sipc_send` refuses one over `INT_MAX - 4` bytes.
SRC: sws.c:185-246, 527-582, 692-773, sipc.c:343-362 -/
theorem sent_messages_decoded_iff (t : Transport) (opts peer : SockOpts)
    (hpeer : peer.rcvmaxsize = -1) (snd : Bool) (s : SwsRun)
    (hs : Reach (SwsRun.system t opts snd) (fun _ op => Sends op) s)
    (hup : s.sws.disconnected = false) (hwritten : s.sws.outbuf = none) (ops : List SwsOp) (hops : ∀ op ∈ ops, Feeds op)
    (henough : s.tx.length ≤ ops.countP Reads) :
    ∃ r, (SwsRun.system t peer (!snd)).run (reader (!snd) s.tx) ops = some r ∧
      (received r.results = s.accepted ↔ ∀ body ∈ s.accepted, 4 + body.length ≤ intMax) := by
  obtain ⟨r, hrun⟩ := run_total t peer (!snd) (reader (!snd) s.tx) ops
  refine ⟨r, hrun, ?_, ?_⟩
  · intro hall
    rw [← hall]
    exact received_short t peer (!snd) hrun
  · intro hfits
    rcases reach_sending t opts hs with hlost | ⟨body, hbody, hbig⟩ | hsending
    · exact absurd (hlost.symm.trans hup) Bool.noConfusion
    · exact absurd (hfits body hbody) (Nat.not_le_of_lt hbig)
    · obtain ⟨sent, htx, hacc⟩ := hsending.sws.wire_eq hwritten
      rw [htx] at henough hrun
      rw [← hacc] at hfits ⊢
      obtain ⟨r', hrun', hreceived⟩ := received_messages t peer hpeer snd sent hfits hops henough
      rw [hrun] at hrun'
      cases hrun'
      exact hreceived

/-- A `recv` that finds up to 100 bytes. -/
def recvOp : SwsOp := ⟨.recv true, [], [], [.more 99], [], default, []⟩

theorem sent_messages_decoded_small :
    ∃ s r, (SwsRun.system .sipc ⟨-1, 0⟩ false).run (SwsRun.init false)
        [sendOp [1, 2, 3] [.more 4, .block, .block], probeOp [.more 99]] = some s ∧
      (SwsRun.system .sipc ⟨-1, 0⟩ true).run (reader true s.tx) (List.replicate 9 recvOp) =
        some r ∧
      s.accepted = [[1, 2, 3]] ∧ received r.results = s.accepted := by
  have hrun : (SwsRun.system .sipc ⟨-1, 0⟩ false).run (SwsRun.init false)
      [sendOp [1, 2, 3] [.more 4, .block, .block], probeOp [.more 99]] = some _ := rfl
  have hsends : ∀ op ∈ [sendOp [1, 2, 3] [.more 4, .block, .block], probeOp [.more 99]],
      ∀ _ : SwsRun, Sends op := by
    intro op hop _
    simp only [List.mem_cons, List.not_mem_nil, or_false] at hop
    rcases hop with rfl | rfl
    · exact ⟨rfl, by simp [sendOp, Calm, Answer.Calm], List.forall_mem_nil _⟩
    · exact ⟨rfl, by simp [probeOp, Calm, Answer.Calm], List.forall_mem_nil _⟩
  have hfeeds : ∀ op ∈ List.replicate 9 recvOp, Feeds op := by
    intro op hop
    rw [List.eq_of_mem_replicate hop]
    exact ⟨rfl, rfl, by simp [recvOp, Calm, Answer.Calm], List.forall_mem_nil _⟩
  have hreach := Reach.of_run Reach.init (System.meets_of_forall _ hsends _) hrun
  obtain ⟨r, hr, hiff⟩ := sent_messages_decoded_iff .sipc ⟨-1, 0⟩ ⟨-1, 0⟩ rfl false _ hreach rfl rfl
    (List.replicate 9 recvOp) hfeeds (by decide)
  exact ⟨_, r, hrun, hr, rfl, hiff.mpr (by decide)⟩

/-- A body of `INT_MAX - 3` bytes is taken and, in three calls that each write less than
`INT_MAX` bytes, its frame is fully written; no session ever returns it. -/
theorem oversized_message_lost :
    ∃ s, (SwsRun.system .sipc ⟨-1, 0⟩ false).run (SwsRun.init false)
        [sendOp (List.replicate (intMax - 3) 0) [.more (2 ^ 30 - 1), .block, .block],
          probeOp [.more (2 ^ 30 - 1), .block, .block], probeOp [.more 99]] = some s ∧
      s.accepted = [List.replicate (intMax - 3) 0] ∧ s.sws.disconnected = false ∧
      s.sws.outbuf = none ∧
      ∀ ops r, (SwsRun.system .sipc ⟨-1, 0⟩ true).run (reader true s.tx) ops = some r →
        received r.results ≠ s.accepted := by
  have hcalm : ∀ n, Calm ([.more n, .block, .block] : List (Answer ℕ)) := by
    simp [Calm, Answer.Calm]
  have hcalm' : Calm ([.more 99] : List (Answer ℕ)) := by simp [Calm, Answer.Calm]
  have hroom : room true ([.more (2 ^ 30 - 1), .block, .block] : List (Answer ℕ)) = 2 ^ 30 := rfl
  have hroom' : room true ([.more 99] : List (Answer ℕ)) = 100 := rfl
  have hint : ¬ (Transport.sipc = .stls ∨ intMax < 2 ^ 30) := by decide
  have hint' : ¬ (Transport.sipc = .stls ∨ intMax < 100) := by decide
  generalize hbody : List.replicate (intMax - 3) (0 : UInt8) = body
  have hlen : body.length = intMax - 3 := by rw [← hbody, List.length_replicate]
  have hframe := buildFrame_length_le false default .BINARY (dataPayload body)
  have hdata : (dataPayload body).length = 4 + (intMax - 3) := by
    rw [dataPayload, List.length_append, length_putUint32, hlen]
  rw [hdata] at hframe
  have hsmall : ∀ s : SwsRun, SendingRun false s → s.accepted = [body] →
      ∀ buf, s.sws.outbuf = some buf → buf.length + 11 < 2 ^ 32 := by
    intro s hs hacc
    apply hs.sws.short
    rw [hacc]
    refine List.forall_mem_singleton.mpr ?_
    rw [hlen]
    decide
  obtain ⟨s₁, hs₁, h₁, hacc₁, hleft₁⟩ := step_sendOp .sipc ⟨-1, 0⟩ (SendingRun.init false) rfl
    (hcalm (2 ^ 30 - 1)) body rfl (by decide) (by unfold intMax at hframe; omega) (hroom ▸ hint)
  obtain ⟨s₂, hs₂, h₂, hacc₂, hleft₂⟩ := step_probeOp .sipc ⟨-1, 0⟩ h₁ (hcalm (2 ^ 30 - 1))
    (hsmall s₁ h₁ hacc₁) (hroom ▸ hint)
  obtain ⟨s₃, hs₃, h₃, hacc₃, hleft₃⟩ := step_probeOp .sipc ⟨-1, 0⟩ h₂ hcalm'
    (hsmall s₂ h₂ (hacc₂.trans hacc₁)) (hroom' ▸ hint')
  have hacc : s₃.accepted = [body] := by rw [hacc₃, hacc₂, hacc₁]; rfl
  refine ⟨s₃, ?_, hacc, h₃.sws.connected, ?_, ?_⟩
  · rw [System.run_cons hs₁, System.run_cons hs₂, System.run_cons hs₃]
    rfl
  · -- each call takes its room off what is left of the frame
    have hle₁ := hroom ▸ hleft₁.le
    have hle₂ := hroom ▸ hleft₂.le
    have hle₃ := hroom' ▸ hleft₃.le
    apply hleft₃.gone
    apply List.eq_nil_of_length_eq_zero
    unfold intMax at hframe
    omega
  · intro ops r hrun hall
    have hshort := received_short .sipc ⟨-1, 0⟩ true hrun body (by rw [hall, hacc]; simp)
    rw [hlen] at hshort
    unfold intMax at hshort
    omega

end MsgBroker.Analysis.SwsSizes
