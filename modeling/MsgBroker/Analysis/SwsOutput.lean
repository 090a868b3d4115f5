import MsgBroker.Analysis.SessionCalls
import MsgBroker.Analysis.SwsOutSpec

/-!
# What a WebSocket session writes

The output of a session is well formed (`WellFormedOutput`) in every run in which no PONG is
abandoned half written and no CLOSE is answered in the middle of a data frame.
-/

set_option autoImplicit false

namespace MsgBroker.Analysis.SwsOut

open Lib Model

/-! ## Receiving -/

section Recv

variable (t : Transport) (opts : SockOpts) {x : Sws} {acc : List (List UInt8)} {role : Bool}

/-- Where a part of the decoder leaves the session. -/
def FlowGood (role : Bool) (acc : List (List UInt8)) : Sws.Flow → Prop
  | .ret _ x c => Good role acc x c
  | .next x c => Good role acc x c ∧ Safe x c

theorem FlowGood.andThen {f : Sws.Flow} {g : Sws → SwsPort → Sws.Flow}
    (hf : FlowGood role acc f)
    (hg : ∀ x c, Good role acc x c → Safe x c → FlowGood role acc (g x c)) :
    FlowGood role acc (f.andThen g) := by
  cases f with
  | ret res x c => exact hf
  | next x c => exact hg x c hf.1 hf.2

theorem fail_good (e : Errno) {c : SwsPort} (h : Good role acc x c) :
    FlowGood role acc (Sws.fail t e x c) := by
  obtain ⟨y, d, hr, hy, _, _⟩ := reportError_good t h
  simpa [Sws.fail, FlowGood, hr] using hy

theorem reportError_dead {c : SwsPort} (hrole : x.isClient = role)
    (hconn : x.disconnected = false) (herr : x.onError = true) (hnone : x.outbuf = none)
    (henv : EnvOk c) (hwf : WellFormedOutput role c.port.tx acc) :
    Good role acc (Sws.reportError t x c).1 (Sws.reportError t x c).2 := by
  have hlinger : ∀ rounds, Sws.lingerFlush t rounds
      { x with disconnected := true, onError := false } c.port =
        ({ x with disconnected := true, onError := false }, c.port) := by
    intro rounds
    cases rounds with
    | nil => rfl
    | cons as rounds => simp [Sws.lingerFlush, hnone]
  unfold Sws.reportError Sws.stop
  simp only [hconn, herr, Bool.false_eq_true, if_false, if_true, hlinger]
  exact ⟨hrole, ⟨henv.wans, henv.pongs, henv.close, by simp⟩, Or.inr ⟨rfl, rfl, hrole ▸ hwf⟩⟩

theorem close_wellFormed {c : SwsPort} {port : Port} {fs : List OutFrame} {key : MaskKey}
    (h : Written x c.port.tx acc fs) (hsafe : Safe x c)
    (htx : port.tx <+: c.port.tx ++ buildFrame x.isClient key .CLOSE [])
    (hsilent : Silent c.close → port.tx = c.port.tx) :
    WellFormedOutput x.isClient port.tx acc := by
  -- it is enough that the frames before the CLOSE end where the bytes written do
  have hafter : ∀ fs' : List OutFrame,
      c.port.tx = fs'.flatMap (OutFrame.bytes x.isClient) →
      fs'.filterMap OutFrame.body? <+: acc → WellFormedOutput x.isClient port.tx acc := by
    intro fs' hbytes hbodies
    refine ⟨fs' ++ [.close key], ?_, ?_⟩
    · simpa [hbytes, OutFrame.bytes] using htx
    · rw [List.filterMap_append]
      simpa [List.filterMap_cons, OutFrame.body?] using hbodies
  rcases hsafe with hquiet | hnone | hpos
  · rw [hsilent hquiet]
    exact h.wellFormed
  · exact hafter fs (by simpa [unsent, hnone] using h.bytes) ⟨[], by simp [h.bodies]⟩
  · cases hbuf : x.outbuf with
    | none => exact hafter fs (by simpa [unsent, hbuf] using h.bytes) ⟨[], by simp [h.bodies]⟩
    | some buf =>
      obtain ⟨fs', key', body, rfl, hlast⟩ := h.last buf hbuf
      refine hafter fs' ?_ ⟨[body], by simp [← h.bodies, OutFrame.body?]⟩
      have hbytes := h.bytes
      simp only [unsent, hbuf, hpos, List.drop_zero, List.flatMap_append, List.flatMap_cons,
        List.flatMap_nil, List.append_nil, ← hlast] at hbytes
      exact List.append_cancel_right hbytes

theorem closeFrame_good {c : SwsPort} (h : Good role acc x c) (hsafe : Safe x c) :
    FlowGood role acc (Sws.closeFrame t x c) := by
  unfold Sws.closeFrame
  rcases h.out with hl | hd
  · obtain ⟨fs, hfs⟩ := hl.written
    have hopen : x.dropOutput.isOpen = true := hl.isOpen
    have hdata : ([] : List UInt8).length ≤ 125 := Nat.zero_le _
    obtain ⟨rc, port, hs, _, _, hwans, htx, _, hsilent, _⟩ :=
      sendFrame_cases t .CLOSE hdata c.close c.port hopen h.env.close
    simp only [hs]
    exact reportError_dead t h.role hl.connected hl.onError rfl
      ⟨hwans ▸ h.env.wans, h.env.pongs, h.env.close, h.env.linger⟩
      (h.role ▸ close_wellFormed hfs hsafe htx hsilent)
  · have hs : ∃ rc, Sws.sendFrame t .CLOSE [] c.close x.dropOutput c.port = (rc, c.port) := by
      unfold Sws.sendFrame
      cases c.close.alloc <;> simp [Sws.dropOutput, hd.isOpen]
    obtain ⟨rc, hs⟩ := hs
    simp only [hs]
    exact fail_good t _ ⟨h.role, h.env, Or.inr ⟨hd.isOpen, hd.disconnected, hd.wellFormed⟩⟩

theorem SameOut.of_moves {x' : Sws} (h : SwsSides.Moves x x') : SameOut x x' := by
  have hsame : SameOut (SwsSides.besideInput x) (SwsSides.besideInput x') := h.rest ▸ .refl _
  exact ⟨hsame.isClient, hsame.isOpen, hsame.disconnected, hsame.onError, hsame.outbuf,
    hsame.outpos⟩

/-- INTERNAL: **the decoder keeps the session good.**  A PONG goes out only when no data frame is
waiting, and a CLOSE is the only header that is answered. -/
theorem decoderRule :
    SwsSides.DecoderRule t (fun x c => Good role acc x c ∧ Safe x c) (FlowGood role acc) where
  next _ _ := Iff.rfl
  andThen _ _ hf hg := hf.andThen fun x c h hsafe => hg x c ⟨h, hsafe⟩
  block _ _ _ h := h.1
  body _ _ _ _ h hx _ := h.1.same (.of_moves hx) rfl h.1.env
  fail e _ _ h := fail_good t e h.1
  close _ _ h := closeFrame_good t h.1 h.2
  pong x c h hnone := by
    obtain ⟨rc, y, d, hp, hy, _, hbuf, _⟩ := flushPendingPong_good t h.1 fun _ => hnone
    rw [hp]
    exact ⟨hy, Or.inr (Or.inl (hbuf hnone))⟩
  input _ _ _ _ _ h hx := by
    have hsame := SameOut.of_moves hx
    have henv := h.1.env
    exact ⟨h.1.same hsame rfl ⟨henv.wans, henv.pongs, henv.close, henv.linger⟩,
      h.2.same hsame rfl⟩

/-- INTERNAL: **`mb_sws_recv`** keeps the session good if a CLOSE it may answer does not find a data
frame half written. -/
theorem recv_good (alloc : Bool) {c : SwsPort} (h : Good role acc x c)
    (hclose : Silent c.close ∨ ∀ buf, x.outbuf = some buf →
      x.outpos + room true c.port.wans = 0 ∨ buf.length ≤ x.outpos + room true c.port.wans) :
    Good role acc (Sws.recv t opts alloc x c).2.1 (Sws.recv t opts alloc x c).2.2 := by
  refine (decoderRule t).recv opts alloc (fail_good t _ h) fun hopen => ?_
  obtain ⟨rc, y, d, hf, hy, hcl, _, hlive⟩ := flushOutbuf_good t h
  rw [hf]
  refine ⟨hy, ?_⟩
  show Safe y d
  rcases hclose with hquiet | hroom
  · exact Or.inl (hcl ▸ hquiet)
  · right
    rcases h.out with hl | hd
    · rcases (hlive hl).2 with ⟨_, hnone⟩ | ⟨_, buf, hbuf, hlt, hpos⟩
      · exact Or.inl hnone
      · right
        have := hroom buf hbuf
        omega
    · exact absurd (hd.isOpen.symm.trans hopen) Bool.noConfusion

end Recv

/-! ## Runs -/

/-- The condition on a call: no PONG attempt is refused twice in a row after a short
write, unless a CLOSE reply is not taken at all, the data frame in `outbuf` is by then
written to its end or not begun, and the frame of a message that is sent fits an `int`. -/
def Unbroken (s : SwsRun) (op : SwsOp) : Prop :=
  op.CalmWrites ∧ (∀ e ∈ op.pongs, e.ans.head? = some .block ∨ Persists true e.ans) ∧
    (Silent op.close ∨ ∀ buf, s.sws.outbuf = some buf →
      s.sws.outpos + room true op.wans = 0 ∨ buf.length ≤ s.sws.outpos + room true op.wans) ∧
    ∀ body alloc env, op.call = .send body alloc env →
      (OutFrame.bytes s.sws.isClient (.data env.key body)).length ≤ intMax

section Runs

variable {t : Transport} {opts : SockOpts} {role : Bool} {s s' : SwsRun}

theorem probed_good (t : Transport) {x : Sws} {c : SwsPort} {acc : List (List UInt8)}
    {r : Bool × Sws × SwsPort} (hr : SessionCalls.Probed x c (Sws.flushOutbuf t x c) r)
    (h : Good role acc x c) : Good role acc r.2.1 r.2.2 := by
  obtain ⟨rc, y, d, hf, hy, _, _, _⟩ := flushOutbuf_good t h
  rw [hf] at hr
  exact hr.keeps (P := fun s => Good role acc s.1 s.2) h hy

/-- What holds between calls. -/
structure RunOk (role : Bool) (s : SwsRun) : Prop where
  role : s.sws.isClient = role
  out : LiveOut s.sws s.tx s.accepted ∨ DeadOut s.sws s.tx s.accepted

theorem RunOk.step (h : RunOk role s) (op : SwsOp) (hok : Unbroken s op)
    (hs : s.step t opts op = some s') : RunOk role s' := by
  obtain ⟨⟨hwans, hpongs, hclose, hlinger⟩, hwhole, hcut, hfits⟩ := hok
  have hgood : Good role s.accepted s.sws (s.port op) :=
    ⟨h.role, ⟨hwans, fun e he => ⟨hpongs e he, hwhole e he⟩, hclose, hlinger⟩, h.out⟩
  unfold SwsRun.step at hs
  cases hc : op.call with
  | send body alloc env =>
    obtain ⟨rc, x, c, hsend, hx⟩ :=
      send_good t opts body alloc env (h.role ▸ hfits body alloc env hc) hgood
    simp only [hc, hsend, Option.some.injEq] at hs
    exact hs ▸ ⟨hx.role, hx.out⟩
  | recv alloc =>
    have hx := recv_good t opts alloc hgood hcut
    simp only [hc, Option.some.injEq] at hs
    exact hs ▸ ⟨hx.role, hx.out⟩
  | hasMsg poll =>
    have hx := probed_good t (SessionCalls.sws_hasMsg_probed t poll s.sws (s.port op)) hgood
    simp only [hc, Option.some.injEq] at hs
    exact hs ▸ ⟨hx.role, hx.out⟩
  | canSend poll =>
    have hx := probed_good t (SessionCalls.sws_canSend_probed t poll s.sws (s.port op)) hgood
    simp only [hc, Option.some.injEq] at hs
    exact hs ▸ ⟨hx.role, hx.out⟩

theorem RunOk.init (role : Bool) : RunOk role (SwsRun.init role) :=
  ⟨rfl, Or.inl ⟨nofun, rfl, rfl, rfl, [], rfl, rfl, nofun⟩⟩

end Runs

/-- **The output of a WebSocket session is well formed** in every run of unbroken calls, for
either role and over plain connections and TLS.  SRC: sws.c:140-912 -/
theorem sws_output_wellFormed (t : Transport) (opts : SockOpts) (role : Bool) {s : SwsRun}
    (h : Reach (SwsRun.system t opts role) Unbroken s) :
    WellFormedOutput role s.tx s.accepted := by
  have hinv : RunOk role s :=
    h.invariant (RunOk role) (RunOk.init role) fun _ op _ hi hok hs => hi.step op hok hs
  rcases hinv.out with hl | hd
  · obtain ⟨fs, hfs⟩ := hl.written
    exact hinv.role ▸ hfs.wellFormed
  · exact hinv.role ▸ hd.wellFormed

/-- A frame that nothing of is taken. -/
def refused : FrameEnv := ⟨true, default, [.block]⟩

/-- A server writes one byte of a data frame, is asked for a PONG, and then writes both. -/
def pongAfterData : List SwsOp :=
  [⟨.send [5] true default, [], [.more 0, .block, .block], [], [], refused, []⟩,
    ⟨.recv true, [0x89, 0x80, 0, 0, 0, 0], [], [.more 1, .more 3], [], refused, []⟩,
    ⟨.canSend true, [], [.more 100], [], [], refused, []⟩,
    ⟨.recv true, [], [], [], [⟨true, default, [.more 0, .block]⟩], refused, []⟩]

/-- The two frames follow one another. -/
theorem sws_output_wellFormed_pongAfterData :
    ∃ s, Reach (SwsRun.system .sipc ⟨-1, 0⟩ false) Unbroken s ∧
      s.tx = [0x82, 5, 0, 0, 0, 1, 5, 0x8A, 0] ∧ WellFormedOutput false s.tx s.accepted := by
  have hrun : ((SwsRun.system .sipc ⟨-1, 0⟩ false).run (SwsRun.init false)
      pongAfterData).isSome := by decide
  have hok : ∀ op ∈ pongAfterData, ∀ s, Unbroken s op := by
    have hfits : ∀ role, (OutFrame.bytes role (.data (default : FrameEnv).key [5])).length ≤
        intMax := by decide
    simpa [pongAfterData, refused, Unbroken, SwsOp.CalmWrites, Silent, Calm, Answer.Calm,
      Persists] using fun s : SwsRun => hfits s.sws.isClient
  have hreach := Reach.of_run Reach.init (System.meets_of_forall _ hok _)
    (Option.some_get hrun).symm
  exact ⟨_, hreach, rfl, sws_output_wellFormed .sipc _ false hreach⟩

/-! ## Where the output is not well formed -/

theorem frameLen_server (len : ℕ) : ∃ b rest, frameLen false len = b :: rest ∧ b < 128 := by
  unfold frameLen
  split_ifs with hshort hmid
  · refine ⟨_, _, rfl, ?_⟩
    have hor : UInt8.ofNat len ||| maskBit false = UInt8.ofNat len := by simp [maskBit]
    have hmod : len % 2 ^ 8 = len := Nat.mod_eq_of_lt (by omega)
    rw [hor, UInt8.lt_iff_toNat_lt, UInt8.toNat_ofNat', hmod]
    exact Nat.lt_of_lt_of_le hshort (by decide)
  · exact ⟨_, _, rfl, by decide⟩
  · exact ⟨_, _, rfl, by decide⟩

theorem server_second_byte (key : MaskKey) (opcode : Opcode) (data : List UInt8) :
    ∃ b₀ b₁ rest, buildFrame false key opcode data = b₀ :: b₁ :: rest ∧ b₁ < 128 := by
  obtain ⟨b, rest, hlen, hlt⟩ := frameLen_server data.length
  refine ⟨0x80 ||| opcode.code, b, rest ++ framePayload false key data, ?_, hlt⟩
  simp [buildFrame, frameHdr, hlen]

/-- A server answers a PING: one byte of the PONG is taken, then two writes are refused,
and the second attempt of the same call starts over. -/
def restartedPong : List SwsOp :=
  [⟨.recv true, [0x89, 0x80, 0, 0, 0, 0], [], [.more 1, .more 3],
    [⟨true, default, [.more 0, .block, .block]⟩], default, []⟩]

/-- The connection then carries `8A 8A 00`, which no sequence of frames begins with. -/
theorem sws_output_malformed :
    ∃ s, Reach (SwsRun.system .sipc ⟨-1, 0⟩ false) (fun _ op => op.CalmWrites) s ∧
      s.tx = [0x8A, 0x8A, 0] ∧ ¬ WellFormedOutput false s.tx s.accepted := by
  have hrun : ((SwsRun.system .sipc ⟨-1, 0⟩ false).run (SwsRun.init false)
      restartedPong).isSome := by decide
  have hok : ∀ op ∈ restartedPong, ∀ _ : SwsRun, op.CalmWrites := by
    simp [restartedPong, SwsOp.CalmWrites, Calm, Answer.Calm, default]
  have hreach : Reach (SwsRun.system .sipc ⟨-1, 0⟩ false) (fun _ op => op.CalmWrites) _ :=
    Reach.of_run Reach.init (System.meets_of_forall _ hok _) (Option.some_get hrun).symm
  refine ⟨_, hreach, rfl, ?_⟩
  rintro ⟨fs, hprefix, _⟩
  have htx : [0x8A, 0x8A, 0] <+: fs.flatMap (OutFrame.bytes false) := hprefix
  cases fs with
  | nil => simp at htx
  | cons f fs =>
    have hsecond : ∃ b₀ b₁ rest, OutFrame.bytes false f = b₀ :: b₁ :: rest ∧ b₁ < 128 := by
      cases f <;> exact server_second_byte _ _ _
    obtain ⟨b₀, b₁, rest, hf, hlt⟩ := hsecond
    rw [List.flatMap_cons, hf, List.cons_append, List.cons_append, List.cons_prefix_cons,
      List.cons_prefix_cons] at htx
    exact absurd hlt (by rw [← htx.2.1]; decide)

end MsgBroker.Analysis.SwsOut
