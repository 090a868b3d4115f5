import MsgBroker.Analysis.SwsSend

/-!
# The two sides of a WebSocket session

A session decodes on one side and writes on the other.
-/

set_option autoImplicit false

namespace MsgBroker.Analysis.SwsSides

open Lib Model

/-- The session but for its output slot. -/
def besideSlot (x : Sws) : Sws := { x with outbuf := none, outpos := 0, inFlight := 0 }

/-- The session but for its output side: the decoder and the statistics. -/
def besideOutput (x : Sws) : Sws :=
  { x with
    isOpen := false
    disconnected := false
    onError := false
    outbuf := none
    outpos := 0
    pendingPong := false
    pongBuf := .empty
    inFlight := 0 }

/-- The session but for its decoder and the PONG it owes. -/
def besideInput (x : Sws) : Sws :=
  { x with
    instate := .HDR
    inhdr := []
    inlen := 0
    payloadLen := 0
    maskKey := default
    inmsg := []
    pendingPong := false
    pongBuf := .empty }

/-! ## Writing -/

/-- A flush: only the output slot changed, and nothing was read. -/
structure Flushed (x x' : Sws) (c c' : Port) : Prop where
  rest : besideSlot x' = besideSlot x
  rans : c'.rans = c.rans

/-- A part of the session that writes: the decoder did not move, and nothing was read. -/
structure Wrote (x x' : Sws) (c c' : Port) : Prop where
  rest : besideOutput x' = besideOutput x
  rans : c'.rans = c.rans

theorem Flushed.field {α : Type} {x x' : Sws} {c c' : Port} (h : Flushed x x' c c') (f : Sws → α)
    (hf : ∀ y, f (besideSlot y) = f y) : f x' = f x := by
  rw [← hf x', h.rest, hf]

theorem Wrote.field {α : Type} {x x' : Sws} {c c' : Port} (h : Wrote x x' c c') (f : Sws → α)
    (hf : ∀ y, f (besideOutput y) = f y) : f x' = f x := by
  rw [← hf x', h.rest, hf]

theorem Flushed.wrote {x x' : Sws} {c c' : Port} (h : Flushed x x' c c') : Wrote x x' c c' :=
  ⟨h.field besideOutput fun _ => rfl, h.rans⟩

theorem Wrote.trans {x y z : Sws} {c d e : Port} (h : Wrote x y c d) (h' : Wrote y z d e) :
    Wrote x z c e :=
  ⟨h'.rest.trans h.rest, h'.rans.trans h.rans⟩

section Write

variable (t : Transport)

theorem flushQuiet_flushed (x : Sws) (c : Port) :
    Flushed x (Sws.flushQuiet t x c).2.1 c (Sws.flushQuiet t x c).2.2 := by
  unfold Sws.flushQuiet
  split
  · exact ⟨rfl, rfl⟩
  · rename_i buf _
    have hloop := sendAll_rans t buf x.outpos c
    split
    · exact ⟨rfl, rfl⟩
    · split
      all_goals
        rename_i heq
        rw [heq] at hloop
        exact ⟨rfl, hloop⟩

theorem lingerFlush_flushed (rounds : List (List (Answer ℕ))) (x : Sws) (c : Port) :
    Flushed x (Sws.lingerFlush t rounds x c).1 c (Sws.lingerFlush t rounds x c).2 := by
  induction rounds generalizing x c with
  | nil => exact ⟨rfl, rfl⟩
  | cons ans rounds ih =>
    have hq := flushQuiet_flushed t x { c with wans := ans }
    unfold Sws.lingerFlush
    split
    · exact ⟨rfl, rfl⟩
    · split
      all_goals
        rename_i heq
        rw [heq] at hq
      · exact ⟨(ih _ _).rest.trans hq.rest, (ih _ _).rans.trans hq.rans⟩
      · exact ⟨hq.rest, hq.rans⟩

theorem reportError_wrote (x : Sws) (c : SwsPort) :
    Wrote x (Sws.reportError t x c).1 c.port (Sws.reportError t x c).2.port ∧
      (Sws.reportError t x c).1.disconnected = true := by
  unfold Sws.reportError
  split_ifs with hdown hcb
  · exact ⟨⟨rfl, rfl⟩, hdown⟩
  · have hl := lingerFlush_flushed t c.linger { x with disconnected := true, onError := false }
      c.port
    exact ⟨⟨hl.wrote.rest, hl.rans⟩, hl.field Sws.disconnected fun _ => rfl⟩
  · exact ⟨⟨rfl, rfl⟩, rfl⟩

theorem flushOutbuf_wrote (x : Sws) (c : SwsPort) :
    Wrote x (Sws.flushOutbuf t x c).2.1 c.port (Sws.flushOutbuf t x c).2.2.port := by
  have hq := (flushQuiet_flushed t x c.port).wrote
  unfold Sws.flushOutbuf
  split
  all_goals
    rename_i heq
    rw [heq] at hq
  · exact hq
  · exact hq
  · split
    · exact hq.trans (reportError_wrote t _ _).1
    · exact hq

theorem flushOutbuf_of_none {x : Sws} (h : x.outbuf = none) (c : SwsPort) :
    Sws.flushOutbuf t x c = (.ok, x, c) := by
  unfold Sws.flushOutbuf Sws.flushQuiet
  rw [h]

theorem flushPendingPong_wrote (x : Sws) (c : SwsPort) :
    Wrote x (Sws.flushPendingPong t x c).2.1 c.port (Sws.flushPendingPong t x c).2.2.port := by
  have hsend : (Sws.sendFrame t .PONG x.pongBuf.bytes (c.pongs.headD default) x c.port).2.rans =
      c.port.rans := by
    unfold Sws.sendFrame
    split_ifs
    · rfl
    · rfl
    · exact sendAll_rans t _ _ _
  unfold Sws.flushPendingPong
  split
  · exact ⟨rfl, rfl⟩
  · dsimp only
    split
    · exact ⟨rfl, hsend⟩
    · exact ⟨rfl, hsend⟩
    · have hr := (reportError_wrote t { x with pendingPong := false, pongBuf := .empty }
        ⟨(Sws.sendFrame t .PONG x.pongBuf.bytes (c.pongs.headD default) x c.port).2, c.pongs.tail,
          c.close, c.linger⟩).1
      exact ⟨hr.rest, hr.rans.trans hsend⟩

end Write

/-! ## Decoding -/

/-- One move of the decoder: the output stays as it is, the length is kept, taken from the
header or reset, and no message is held back that was not before. -/
structure Moves (x x' : Sws) : Prop where
  rest : besideInput x' = besideInput x
  payloadLen : x'.payloadLen = x.payloadLen ∨ x'.payloadLen = (x.payloadSize.getD (0, 0)).1 ∨
    x'.payloadLen = 0
  instate : x'.instate = x.instate ∨ x'.instate ≠ .HASMSG

/-- What has to be shown of an invariant `P` for the decoder to keep it; `K` is what holds where
a part of the decoder leaves the session. -/
structure DecoderRule (t : Transport) (P : Sws → SwsPort → Prop) (K : Sws.Flow → Prop) : Prop where
  next : ∀ x c, K (.next x c) ↔ P x c
  andThen : ∀ f g, K f → (∀ x c, P x c → K (g x c)) → K (Sws.Flow.andThen f g)
  block : ∀ e x c, P x c → K (.ret (.error e) x c)
  body : ∀ body x x' c, P x c → Moves x x' → x.instate = .HASMSG ∨ 4 + body.length ≤ x.payloadLen →
    K (.ret (.ok body) x' c)
  fail : ∀ e x c, P x c → K (Sws.fail t e x c)
  close : ∀ x c, P x c → K (Sws.closeFrame t x c)
  pong : ∀ x c, P x c → x.outbuf = none →
    P (Sws.flushPendingPong t x c).2.1 (Sws.flushPendingPong t x c).2.2
  input : ∀ x x' c rx rans, P x c → Moves x x' →
    P x' { c with port := { c.port with rx := rx, rans := rans } }

section Decode

variable {t : Transport} {P : Sws → SwsPort → Prop} {K : Sws.Flow → Prop} {x : Sws} {c : SwsPort}

theorem Moves.kept {x' : Sws} (hrest : besideInput x' = besideInput x)
    (hlen : x'.payloadLen = x.payloadLen) (hstate : x'.instate = x.instate) : Moves x x' :=
  ⟨hrest, Or.inl hlen, Or.inl hstate⟩

theorem Moves.parseHdr (x : Sws) : Moves x x.parseHdr := ⟨rfl, Or.inr (Or.inl rfl), Or.inl rfl⟩

theorem Moves.nextFrame (x : Sws) : Moves x x.nextFrame :=
  ⟨rfl, Or.inr (Or.inr rfl), Or.inr nofun⟩

theorem DecoderRule.same (hr : DecoderRule t P K) {x' : Sws} (h : P x c) (hx : Moves x x') :
    P x' c :=
  hr.input x x' c c.port.rx c.port.rans h hx

theorem DecoderRule.readInto (hr : DecoderRule t P K) (rans left : List (Answer (Option ℕ)))
    (need : ℕ) (put : List UInt8 → Sws) (h : P x c) (hput : ∀ got, Moves x (put got)) :
    K (Sws.readInto t rans left need put x c) := by
  unfold Sws.readInto
  split
  · exact hr.fail _ x c h
  · dsimp only
    split
    · exact (hr.next _ _).mpr (hr.input _ _ c _ _ h (hput _))
    · exact hr.block _ _ _ (hr.input _ _ c _ _ h (hput _))
    · exact hr.fail _ _ _ (hr.input _ _ c _ _ h (hput _))
    · exact hr.fail _ _ _ (hr.input _ _ c _ _ h (hput _))

theorem DecoderRule.readHdr (hr : DecoderRule t P K) (h : P x c) : K (Sws.readHdr t x c) := by
  unfold Sws.readHdr
  apply hr.andThen
  · split
    · exact hr.readInto _ _ _ _ h fun _ => .kept rfl rfl rfl
    · exact (hr.next x c).mpr h
  · intro y d hy
    split
    · exact hr.readInto _ _ _ _ hy fun _ => .kept rfl rfl rfl
    · exact (hr.next y d).mpr hy

theorem DecoderRule.startFrame (hr : DecoderRule t P K) (opts : SockOpts) (alloc : Bool)
    (h : P x c) : K (Sws.startFrame t opts alloc x c) := by
  have hp : P x.parseHdr c := hr.same h (.parseHdr x)
  have hfail : ∀ e, K (Sws.fail t e { x.parseHdr with inmsg := [] } c) :=
    fun e => hr.fail e _ c (hr.same hp (.kept rfl rfl rfl))
  unfold Sws.startFrame
  split
  · exact hr.fail _ x c h
  · split_ifs
    · exact hr.close _ c hp
    · unfold Sws.startCtrl
      split_ifs
      · exact hr.fail _ _ c hp
      · exact hfail _
      · exact (hr.next _ c).mpr (hr.same hp ⟨rfl, Or.inl rfl, Or.inr nofun⟩)
    · unfold Sws.startBody
      split_ifs
      · exact hfail _
      · exact hfail _
      · exact (hr.next _ c).mpr (hr.same hp ⟨rfl, Or.inl rfl, Or.inr nofun⟩)

theorem DecoderRule.readPayload (hr : DecoderRule t P K) (h : P x c) :
    K (Sws.readPayload t x c) := by
  unfold Sws.readPayload
  split
  · exact hr.readInto _ _ _ _ h fun _ => .kept rfl rfl rfl
  · exact (hr.next x c).mpr h

theorem DecoderRule.finishCtrl (hr : DecoderRule t P K) (h : P x c) :
    K (Sws.finishCtrl t x c) := by
  unfold Sws.finishCtrl
  extract_lets ping first
  have hfirst : P first.2.1 first.2.2 := by
    have hping : P ping c := hr.same h (.kept rfl rfl rfl)
    unfold first
    split_ifs with hop hnone
    · exact hr.pong ping c hping (Option.isNone_iff_eq_none.mp hnone)
    · exact hping
    · exact h
  generalize first = r at hfirst ⊢
  split
  case h_1 | h_2 =>
    have hnext := hr.same hfirst (.nextFrame _)
    split_ifs with hpong
    · exact (hr.next _ _).mpr (hr.pong _ _ hnext (Option.isNone_iff_eq_none.mp hpong.2))
    · exact (hr.next _ _).mpr hnext
  · exact hr.block _ _ _ (hr.same hfirst (.nextFrame _))

/-- INTERNAL: **the end of a data frame**: the body is cut out of the payload behind its length
prefix. -/
theorem DecoderRule.finishBody (hr : DecoderRule t P K) (opts : SockOpts) (alloc : Bool)
    (h : P x c) : K (Sws.finishBody t opts alloc x c) := by
  unfold Sws.finishBody
  dsimp only
  split_ifs with hfour hlen halloc
  · exact hr.fail _ _ c (hr.same h (.kept rfl rfl rfl))
  · exact hr.fail _ _ c (hr.same h (.kept rfl rfl rfl))
  · exact hr.fail _ _ c (hr.same h (.nextFrame x))
  · refine hr.body _ x _ c h ⟨rfl, Or.inl rfl, Or.inr nofun⟩ (Or.inr ?_)
    have hmsg : getUint32 x.unmasked ≤ x.payloadLen - 4 :=
      Nat.le_of_not_lt fun hlt => hlen (Or.inl hlt)
    have htake := List.length_take_le (getUint32 x.unmasked) (x.unmasked.drop 4)
    omega

theorem DecoderRule.round (hr : DecoderRule t P K) (opts : SockOpts) (alloc : Bool) (h : P x c) :
    K (Sws.round t opts alloc x c) := by
  unfold Sws.round
  apply hr.andThen
  · split
    · exact hr.andThen _ _ (hr.readHdr h) fun _ _ => hr.startFrame opts alloc
    · exact (hr.next x c).mpr h
  · intro y d hy
    unfold Sws.payload
    split
    · exact hr.andThen _ _ (hr.readPayload hy) fun _ _ => hr.finishCtrl
    · exact hr.andThen _ _ (hr.readPayload hy) fun _ _ => hr.finishBody opts alloc
    · rename_i hheld
      exact hr.body _ y _ d hy ⟨rfl, Or.inl rfl, Or.inr nofun⟩ (Or.inl hheld)
    · exact (hr.next y d).mpr hy

/-- INTERNAL: **the loop of `mb_sws_recv`** keeps what one round keeps.  SRC: sws.c:605-911 -/
theorem DecoderRule.recvLoop (hr : DecoderRule t P K) (opts : SockOpts) (alloc : Bool) (fuel : ℕ)
    {r : Except Errno (List UInt8) × Sws × SwsPort} (h : P x c)
    (hloop : Sws.recvLoop t opts alloc fuel x c = some r) : K (.ret r.1 r.2.1 r.2.2) := by
  induction fuel generalizing x c with
  | zero => cases hloop
  | succ fuel ih =>
    have hround := hr.round opts alloc h
    unfold Sws.recvLoop at hloop
    split at hloop
    all_goals
      rename_i heq
      rw [heq] at hround
    · cases hloop
      exact hround
    · exact ih ((hr.next _ _).mp hround) hloop

/-- INTERNAL: **`mb_sws_recv`** keeps what its flush and its loop keep.  SRC: sws.c:584-913 -/
theorem DecoderRule.recv (hr : DecoderRule t P K) (opts : SockOpts) (alloc : Bool)
    (hfail : K (Sws.fail t .ECONNRESET x c))
    (hflush : x.isOpen = true → P (Sws.flushOutbuf t x c).2.1 (Sws.flushOutbuf t x c).2.2) :
    K (.ret (Sws.recv t opts alloc x c).1 (Sws.recv t opts alloc x c).2.1
      (Sws.recv t opts alloc x c).2.2) := by
  have hloop : ∀ fuel y d, P y d →
      K (.ret ((Sws.recvLoop t opts alloc fuel y d).getD (.error .EAGAIN, y, d)).1
        ((Sws.recvLoop t opts alloc fuel y d).getD (.error .EAGAIN, y, d)).2.1
        ((Sws.recvLoop t opts alloc fuel y d).getD (.error .EAGAIN, y, d)).2.2) := by
    intro fuel y d hy
    cases hl : Sws.recvLoop t opts alloc fuel y d with
    | none => exact hr.block _ y d hy
    | some r => exact hr.recvLoop opts alloc fuel hy hl
  unfold Sws.recv
  split
  · exact hfail
  · rename_i hopen
    replace hflush := hflush (by simpa using hopen)
    split
    all_goals
      rename_i heq
      rw [heq] at hflush
    case h_1 | h_2 =>
      dsimp only
      apply hloop
      split_ifs with hnone
      · exact hr.pong _ _ hflush (Option.isNone_iff_eq_none.mp hnone)
      · exact hflush
    · exact hr.block _ _ _ hflush

end Decode

end MsgBroker.Analysis.SwsSides
