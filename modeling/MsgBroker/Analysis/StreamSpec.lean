import MsgBroker.Analysis.SessionCalls
import MsgBroker.Lib.Framing
import MsgBroker.Model.StreamPair

/-!
# One call of a stream session

On a connection that never fails, every call only moves bytes along: what a session has accepted and
not written (`unsent`) follows what it has written, and what it has read of an unfinished message
(`partialIn`) precedes what is still to be read.
-/

set_option autoImplicit false

namespace MsgBroker.Analysis

open Lib Model

/-- The bytes accepted by `send` and not yet written. -/
def unsent (x : Stream) : List UInt8 :=
  match x.outbuf with
  | none => []
  | some buf => buf.drop x.outpos

/-- The bytes read of the message the decoder is in. -/
def partialIn (x : Stream) : List UInt8 :=
  match x.instate with
  | .HDR => x.inhdr
  | .BODY => putUint32 x.inlen ++ x.inmsg
  | .HASMSG => putUint32 x.inmsg.length ++ x.inmsg

/-- A live session between calls: the header or the body it reads is incomplete. -/
structure Live (x : Stream) : Prop where
  isOpen : x.isOpen = true
  hdr : x.instate = .HDR → x.inhdr.length < hdrSize
  body : x.instate = .BODY → x.inmsg.length < x.inlen ∧ x.inlen ≤ intMax
  noMsg : x.instate ≠ .HASMSG

/-- The call did not touch the decoder. -/
structure SameInput (x x' : Stream) : Prop where
  isOpen : x'.isOpen = x.isOpen
  disconnected : x'.disconnected = x.disconnected
  instate : x'.instate = x.instate
  inhdr : x'.inhdr = x.inhdr
  inlen : x'.inlen = x.inlen
  inmsg : x'.inmsg = x.inmsg

theorem SameInput.refl (x : Stream) : SameInput x x := ⟨rfl, rfl, rfl, rfl, rfl, rfl⟩

theorem SameInput.trans {x x' x'' : Stream} (h : SameInput x x') (h' : SameInput x' x'') :
    SameInput x x'' :=
  ⟨h'.isOpen.trans h.isOpen, h'.disconnected.trans h.disconnected, h'.instate.trans h.instate,
    h'.inhdr.trans h.inhdr, h'.inlen.trans h.inlen, h'.inmsg.trans h.inmsg⟩

theorem SameInput.live {x x' : Stream} (h : SameInput x x') (hx : Live x) : Live x' where
  isOpen := h.isOpen.trans hx.isOpen
  hdr hs := by
    rw [h.inhdr]
    exact hx.hdr (h.instate ▸ hs)
  body hs := by
    rw [h.inmsg, h.inlen]
    exact hx.body (h.instate ▸ hs)
  noMsg := h.instate ▸ hx.noMsg

theorem SameInput.partialIn_eq {x x' : Stream} (h : SameInput x x') :
    partialIn x' = partialIn x := by
  simp only [partialIn, h.instate, h.inhdr, h.inlen, h.inmsg]

/-- A call that only wrote: the written bytes are taken from the front of what was
unsent, and nothing was read. -/
structure Wrote (c c' : Port) (before after : List UInt8) : Prop where
  tx : c'.tx ++ after = c.tx ++ before
  rx : c'.rx = c.rx
  rans : c'.rans = c.rans
  calm : Calm c'.wans

theorem Wrote.trans {c c' c'' : Port} {l l' l'' : List UInt8} (h : Wrote c c' l l')
    (h' : Wrote c' c'' l' l'') : Wrote c c'' l l'' :=
  ⟨h'.tx.trans h.tx, h'.rx.trans h.rx, h'.rans.trans h.rans, h'.calm⟩

/-! ## Output -/

section Output

variable (t : Transport) (cb : Stream → Port → Stream × Port) (opts : SockOpts)

theorem sendFd_calm (buf : List UInt8) (c : Port) (h : Calm c.wans) (hne : buf ≠ []) :
    (∃ n c', Stream.sendFd t buf c = (.ok n, c') ∧ 0 < n ∧ n ≤ buf.length ∧
        Wrote c c' buf (buf.drop n) ∧
        (buf.length ≤ n ∧ buf.length ≤ room true c.wans ∨
          room true c.wans = n + room true c'.wans)) ∨
      ∃ c', Stream.sendFd t buf c = (.error .EAGAIN, c') ∧ Wrote c c' buf buf ∧
        room true c.wans = 0 := by
  obtain ⟨rest, hbuf, hdone⟩ := writeLoop_split c.wans buf
  obtain ⟨hstop, hcalm⟩ := writeLoop_calm c.wans buf h
  obtain ⟨hroom, hroom'⟩ := writeLoop_room c.wans buf h
  have hfresh := room_fresh_of_written c.wans buf
  have hrefused := room_fresh_of_refused c.wans hne
  rcases hw : writeLoop c.wans buf with ⟨sent, ending, wans⟩
  rw [hw] at hbuf hdone hstop hcalm hroom hroom' hfresh hrefused
  simp only at hbuf hdone hstop hcalm hroom hroom' hfresh hrefused
  have hdrop : buf.drop sent.length = rest := by rw [hbuf, List.drop_left]
  have hle : sent.length ≤ buf.length := by rw [hbuf, List.length_append]; omega
  have hwrote : Wrote c { c with tx := c.tx ++ sent, wans := wans } buf
      (buf.drop sent.length) := by
    refine ⟨?_, rfl, rfl, hcalm⟩
    rw [hdrop, List.append_assoc, ← hbuf]
  unfold Stream.sendFd
  rw [hw]
  cases ending with
  | done =>
    left
    have hrest : rest = [] := hdone.mp rfl
    rw [hrest, List.append_nil] at hbuf
    have hsent : sent ≠ [] := hbuf ▸ hne
    refine ⟨sent.length, _, rfl, List.length_pos_iff.mpr hsent, hle, hwrote, Or.inl ⟨?_, ?_⟩⟩
    · rw [hbuf]
    · rw [hfresh hsent]
      exact hroom rfl
  | block =>
    by_cases hsent : sent = []
    · right
      subst hsent
      exact ⟨_, rfl, hwrote, hrefused rfl⟩
    · left
      have hpos : sent.length > 0 := List.length_pos_iff.mpr hsent
      refine ⟨sent.length, _, by simp only [hpos, if_true], hpos, hle, hwrote, Or.inr ?_⟩
      rw [hfresh hsent]
      exact hroom' rfl
  | stop code => exact absurd rfl (hstop code)

theorem flushLoop_calm (buf : List UInt8) (fuel pos : ℕ) (c : Port) (h : Calm c.wans)
    (hfuel : buf.length ≤ pos + fuel) :
    ∃ rc pos' c', Stream.flushLoop t buf fuel pos c = (rc, pos', c') ∧
      Wrote c c' (buf.drop pos) (buf.drop pos') ∧
      (rc = .ok ∧ buf.length ≤ pos' ∧ buf.length ≤ pos + room true c.wans ∨
        rc = .again ∧ pos' < buf.length ∧ pos' = pos + room true c.wans) := by
  induction fuel generalizing pos c with
  | zero =>
    exact ⟨.ok, pos, c, rfl, ⟨rfl, rfl, rfl, h⟩, Or.inl ⟨rfl, hfuel, by omega⟩⟩
  | succ fuel ih =>
    unfold Stream.flushLoop
    by_cases hpos : pos < buf.length
    · have hne : buf.drop pos ≠ [] := by simp [hpos]
      have hlen : (buf.drop pos).length = buf.length - pos := List.length_drop
      rcases sendFd_calm t (buf.drop pos) c h hne with
        ⟨n, c', hs, hn, _, hw, hroom⟩ | ⟨c', hs, hw, hroom⟩
      · -- at least one byte went out: the rest is written with the fuel left
        rw [List.drop_drop] at hw
        obtain ⟨rc, pos', c'', hl, hw', hrc⟩ := ih (pos + n) c' hw.calm (by omega)
        refine ⟨rc, pos', c'', ?_, hw.trans hw', ?_⟩
        · simp only [hpos, if_true, hs, hl]
        · rcases hrc with ⟨rfl, h1, h2⟩ | ⟨rfl, h1, h2⟩
          · exact Or.inl ⟨rfl, h1, by omega⟩
          · exact Or.inr ⟨rfl, h1, by omega⟩
      · refine ⟨.again, pos, c', ?_, hw, Or.inr ⟨rfl, hpos, by omega⟩⟩
        simp only [hpos, if_true, hs]
    · refine ⟨.ok, pos, c, ?_, ⟨rfl, rfl, rfl, h⟩,
        Or.inl ⟨rfl, Nat.le_of_not_lt hpos, by omega⟩⟩
      simp only [hpos, if_false]

/-- INTERNAL: **`mb_sipc_flush_outbuf`** moves unsent bytes to the wire and leaves the decoder
alone; it returns `0` with nothing left, or `-EAGAIN`. -/
theorem flushOutbuf_calm (x : Stream) (c : Port) (hopen : x.isOpen = true)
    (h : Calm c.wans) :
    ∃ rc x' c', Stream.flushOutbuf t cb x c = (rc, x', c') ∧
      (rc = .ok ∧ x'.outbuf = none ∨ rc = .again) ∧
      Wrote c c' (unsent x) (unsent x') ∧ SameInput x x' := by
  unfold Stream.flushOutbuf
  cases hbuf : x.outbuf with
  | none => exact ⟨.ok, x, c, rfl, Or.inl ⟨rfl, hbuf⟩, ⟨rfl, rfl, rfl, h⟩, .refl x⟩
  | some buf =>
    have hun : unsent x = buf.drop x.outpos := by simp [unsent, hbuf]
    obtain ⟨rc, pos, c', hl, hw, hrc⟩ :=
      flushLoop_calm t buf (buf.length - x.outpos) x.outpos c h (by omega)
    rw [← hun] at hw
    simp only [hopen, Bool.not_true, Bool.false_eq_true, if_false, hl]
    rcases hrc with ⟨rfl, hend, _⟩ | ⟨rfl, _, _⟩
    · have hnil : buf.drop pos = [] := List.drop_eq_nil_of_le hend
      rw [hnil] at hw
      exact ⟨.ok, _, c', rfl, Or.inl ⟨rfl, rfl⟩, hw, ⟨hopen.symm, rfl, rfl, rfl, rfl, rfl⟩⟩
    · exact ⟨.again, _, c', rfl, Or.inr rfl, hw, ⟨hopen.symm, rfl, rfl, rfl, rfl, rfl⟩⟩

/-- INTERNAL: **`mb_sipc_send`**: an accepted body is appended to the unsent bytes as one frame, a
refused one changes nothing. -/
theorem send_calm (body : List UInt8) (x : Stream) (c : Port) (hopen : x.isOpen = true)
    (h : Calm c.wans) :
    ∃ rc x' c', Stream.send t cb opts body true x c = (rc, x', c') ∧
      (rc = .ok ∧ body.length ≤ intMax - hdrSize ∧
          Wrote c c' (unsent x ++ frame putUint32 body) (unsent x') ∨
        rc ≠ .ok ∧ Wrote c c' (unsent x) (unsent x')) ∧
      SameInput x x' := by
  obtain ⟨rc, x', c', hf, hrc, hw, hin⟩ := flushOutbuf_calm t cb x c hopen h
  unfold Stream.send
  simp only [hopen, Bool.not_true, Bool.false_eq_true, if_false]
  rcases hrc with ⟨rfl, hnone⟩ | rfl
  · simp only [hf]
    -- nothing is left over, so an accepted frame is all there is to send
    have htx : c'.tx = c.tx ++ unsent x := by simpa [unsent, hnone] using hw.tx
    split_ifs with hbig hmax hhwm
    · exact ⟨_, x', c', rfl, Or.inr ⟨by simp, hw⟩, hin⟩
    · exact ⟨_, x', c', rfl, Or.inr ⟨by simp, hw⟩, hin⟩
    · exact ⟨_, x'.countRefused, c', rfl, Or.inr ⟨by simp, hw⟩,
        hin.trans ⟨rfl, rfl, rfl, rfl, rfl, rfl⟩⟩
    · have hle : body.length ≤ intMax - hdrSize := Nat.le_of_not_lt hmax
      obtain ⟨rc', x'', c'', hf', hrc', hw', hin'⟩ :=
        flushOutbuf_calm t cb { x' with
          outbuf := some (putUint32 body.length ++ body)
          outpos := 0
          inFlight := x'.inFlight + 1 } c' (hin.isOpen.trans hopen) hw.calm
      have hframe : Wrote c c' (unsent x ++ frame putUint32 body) (frame putUint32 body) := by
        refine ⟨?_, hw.rx, hw.rans, hw.calm⟩
        rw [htx, List.append_assoc]
      have hkeep : SameInput x x'' :=
        hin.trans ⟨hin'.isOpen, hin'.disconnected, hin'.instate, hin'.inhdr, hin'.inlen,
          hin'.inmsg⟩
      have hall : Wrote c c'' (unsent x ++ frame putUint32 body) (unsent x'') :=
        hframe.trans hw'
      rw [hf']
      rcases hrc' with ⟨rfl, _⟩ | rfl
      · exact ⟨.ok, x'', c'', rfl, Or.inl ⟨rfl, hle, hall⟩, hkeep⟩
      · exact ⟨.ok, x'', c'', rfl, Or.inl ⟨rfl, hle, hall⟩, hkeep⟩
  · simp only [hf]
    split_ifs
    · exact ⟨.again, x'.countRefused, c', rfl, Or.inr ⟨by simp, hw⟩,
        hin.trans ⟨rfl, rfl, rfl, rfl, rfl, rfl⟩⟩
    · exact ⟨.again, x', c', rfl, Or.inr ⟨by simp, hw⟩, hin⟩

end Output

/-! ## Input -/

section Input

variable (t : Transport) (cb : Stream → Port → Stream × Port) (opts : SockOpts)

/-- A call that only read, `got` bytes. -/
structure Took (c c' : Port) (got : List UInt8) : Prop where
  rx : c.rx = got ++ c'.rx
  tx : c'.tx = c.tx

theorem recvFd_calm (len : ℕ) (c : Port) (h : Calm c.rans) :
    (∃ got c', Stream.recvFd t len c = (.ok got, c') ∧ got.length ≤ len ∧ Took c c' got ∧
        Calm c'.rans) ∨
      ∃ c', Stream.recvFd t len c = (.error .EAGAIN, c') ∧ Took c c' [] := by
  obtain ⟨hsplit, hle, _⟩ := readLoop_split c.rans len c.rx
  obtain ⟨hstop, hcalm⟩ := readLoop_calm c.rans len c.rx h
  rcases hr : readLoop c.rans len c.rx with ⟨got, ending, rx, rans⟩
  rw [hr] at hsplit hle hstop hcalm
  simp only at hsplit hle hstop hcalm
  unfold Stream.recvFd
  rw [hr]
  cases ending with
  | done => exact Or.inl ⟨got, _, rfl, hle, ⟨hsplit, rfl⟩, hcalm⟩
  | block =>
    by_cases hpos : got.length > 0
    · refine Or.inl ⟨got, { c with rx := rx, rans := rans }, ?_, hle, ⟨hsplit, rfl⟩, hcalm⟩
      simp only [hpos, if_true]
    · right
      have hnil : got = [] := by simpa using hpos
      subst hnil
      exact ⟨_, rfl, hsplit, rfl⟩
  | stop f => exact absurd rfl (hstop f)

/-- What a decoding call does to the stream of frames `pending`, of which `more` has not
arrived yet: it hands out the first body, or it blocks. -/
def Decoded (x' : Stream) (c' : Port) (more : List UInt8) (pending : List (List UInt8))
    (res : Except Errno (List UInt8)) : Prop :=
  Live x' ∧
    ((∃ b rest, res = .ok b ∧ pending = b :: rest ∧
        partialIn x' ++ (c'.rx ++ more) = frames putUint32 rest) ∨
      res = .error .EAGAIN ∧ partialIn x' ++ (c'.rx ++ more) = frames putUint32 pending)

theorem recvBody_calm (x : Stream) (c : Port) (hopen : x.isOpen = true)
    (hstate : x.instate = .BODY) (h : Calm c.rans) (hmax : x.inlen ≤ intMax)
    (more b : List UInt8) (rest : List (List UInt8)) (hb : b.length = x.inlen)
    (hpart : x.inmsg.length < x.inlen ∨ x.inlen = 0 ∧ x.inmsg = [])
    (hstream : x.inmsg ++ (c.rx ++ more) = b ++ frames putUint32 rest) :
    ∃ res x' c', Stream.recvBody t cb x c = (res, x', c') ∧ c'.tx = c.tx ∧
      unsent x' = unsent x ∧ Decoded x' c' more (b :: rest) res := by
  unfold Stream.recvBody
  by_cases hpos : x.inlen > 0
  · have hlt : x.inmsg.length < x.inlen := by omega
    simp only [hpos, if_true]
    rcases recvFd_calm t (x.inlen - x.inmsg.length) c h with
      ⟨got, c', hr, hle, htook, _⟩ | ⟨c', hr, htook⟩
    · simp only [hr]
      have hstream' : (x.inmsg ++ got) ++ (c'.rx ++ more) = b ++ frames putUint32 rest := by
        rw [htook.rx] at hstream
        simpa using hstream
      have hlen : (x.inmsg ++ got).length ≤ x.inlen := by
        rw [List.length_append]
        omega
      by_cases hshort : (x.inmsg ++ got).length < x.inlen
      · -- the body is still incomplete
        simp only [hshort, if_true]
        refine ⟨_, _, c', rfl, htook.tx, rfl, ?_, Or.inr ⟨rfl, ?_⟩⟩
        · exact ⟨hopen, fun hs => by simp [hstate] at hs, fun _ => ⟨hshort, hmax⟩,
            by simp [hstate]⟩
        · simp only [partialIn, hstate, frames_cons, hb, List.append_assoc]
          rw [← hstream', List.append_assoc]
      · simp only [hshort, if_false]
        obtain ⟨hbody, hrest⟩ := List.append_inj hstream' (by omega)
        refine ⟨_, _, c', rfl, htook.tx, rfl, ?_, Or.inl ⟨b, rest, by rw [hbody], rfl, ?_⟩⟩
        · exact ⟨hopen, fun _ => by simp [hdrSize], fun hs => by simp at hs, by simp⟩
        · simpa [partialIn] using hrest
    · simp only [hr]
      refine ⟨_, x, c', rfl, htook.tx, rfl, ?_, Or.inr ⟨rfl, ?_⟩⟩
      · exact ⟨hopen, fun hs => by simp [hstate] at hs, fun _ => ⟨hlt, hmax⟩,
          by simp [hstate]⟩
      · have hrx : c.rx = c'.rx := htook.rx
        simp only [partialIn, hstate, frames_cons, hb, List.append_assoc]
        rw [← hstream, hrx]
  · -- an empty body is complete with its header
    have hnil : x.inmsg = [] := by
      rcases hpart with hlt | ⟨_, hnil⟩
      · omega
      · exact hnil
    have hbnil : b = [] := List.length_eq_zero_iff.mp (by omega)
    simp only [hpos, if_false]
    refine ⟨_, _, c, rfl, rfl, rfl, ?_, Or.inl ⟨b, rest, by rw [hnil, hbnil], rfl, ?_⟩⟩
    · exact ⟨hopen, fun _ => by simp [hdrSize], fun hs => by simp at hs, by simp⟩
    · simpa [partialIn, hnil, hbnil] using hstream

/-- A body the receiving socket accepts. -/
def Permitted (b : List UInt8) : Prop :=
  b.length ≤ intMax ∧ opts.msgTooLarge b.length = false

theorem recvHdr_calm (x : Stream) (c : Port) (hx : Live x) (hstate : x.instate = .HDR)
    (h : Calm c.rans) (more : List UInt8) (pending : List (List UInt8))
    (hperm : ∀ b ∈ pending, Permitted opts b)
    (hstream : x.inhdr ++ (c.rx ++ more) = frames putUint32 pending) :
    ∃ res x' c', Stream.recvHdr t cb opts true x c = (res, x', c') ∧ c'.tx = c.tx ∧
      unsent x' = unsent x ∧ Decoded x' c' more pending res := by
  have hlt := hx.hdr hstate
  unfold Stream.recvHdr
  rcases recvFd_calm t (hdrSize - x.inhdr.length) c h with
    ⟨got, c', hr, hle, htook, hcalm⟩ | ⟨c', hr, htook⟩
  · simp only [hr]
    have hstream' : (x.inhdr ++ got) ++ (c'.rx ++ more) = frames putUint32 pending := by
      rw [htook.rx] at hstream
      simpa using hstream
    by_cases hshort : (x.inhdr ++ got).length < hdrSize
    · simp only [hshort, if_true]
      refine ⟨_, _, c', rfl, htook.tx, rfl, ?_, Or.inr ⟨rfl, ?_⟩⟩
      · exact ⟨hx.isOpen, fun _ => hshort, fun hs => by simp [hstate] at hs,
          by simp [hstate]⟩
      · simpa only [partialIn, hstate] using hstream'
    · have hfull : (x.inhdr ++ got).length = 4 := by
        rw [List.length_append] at hshort ⊢
        unfold hdrSize at hshort hle hlt
        omega
      obtain ⟨b, rest, rfl, hhdr, hrest⟩ :=
        frames_cons_of_header putUint32 (k := 4) (fun _ => rfl) (by omega) hstream' hfull
      obtain ⟨hmax, hsmall⟩ := hperm b List.mem_cons_self
      have hsize : getUint32 (x.inhdr ++ got) = b.length := by
        rw [hhdr]
        exact getUint32_putUint32 _ (by unfold intMax at hmax; omega)
      simp only [hshort, if_false, hsize, hsmall, Nat.not_lt.mpr hmax, gt_iff_lt,
        Bool.false_eq_true, or_self, Bool.not_true, and_false]
      have hpart : ([] : List UInt8).length < b.length ∨ b.length = 0 ∧ ([] : List UInt8) = [] :=
        (Nat.eq_zero_or_pos b.length).symm.imp id fun h0 => ⟨h0, rfl⟩
      obtain ⟨res, x', c'', hbody, htx, hun, hdec⟩ :=
        recvBody_calm t cb
          { x with instate := .BODY, inhdr := [], inlen := b.length, inmsg := [] } c'
          hx.isOpen rfl hcalm hmax more b rest rfl hpart (by simpa using hrest)
      exact ⟨res, x', c'', hbody, htx.trans htook.tx, hun, hdec⟩
  · simp only [hr]
    refine ⟨_, x, c', rfl, htook.tx, rfl, hx, Or.inr ⟨rfl, ?_⟩⟩
    have hrx : c.rx = c'.rx := htook.rx
    simp only [partialIn, hstate]
    rw [← hrx, hstream]

/-- What `mb_sipc_recv` does once it has flushed. -/
def afterFlush (poll : Bool) (x : Stream) (c : Port) :
    Except Errno (List UInt8) × Stream × Port :=
  match x.instate with
  | .HASMSG => (.ok x.inmsg, { x with instate := .HDR, inhdr := [], inmsg := [] }, c)
  | .HDR =>
    if t = .sipc ∧ !poll then (.error .EAGAIN, x, c) else Stream.recvHdr t cb opts true x c
  | .BODY =>
    if t = .sipc ∧ !poll then (.error .EAGAIN, x, c) else Stream.recvBody t cb x c

theorem recv_eq_afterFlush {x y : Stream} {c d : Port} {rc : Rc} (poll : Bool)
    (hopen : x.isOpen = true) (hf : Stream.flushOutbuf t cb x c = (rc, y, d))
    (hrc : rc = .ok ∨ rc = .again) :
    Stream.recv t cb opts poll true x c = afterFlush t cb opts poll y d := by
  unfold Stream.recv afterFlush
  simp only [hopen, Bool.not_true, Bool.false_eq_true, if_false, hf]
  rcases hrc with rfl | rfl <;> rfl

/-- INTERNAL: **`mb_sipc_recv`** on a connection that never fails: it hands out the next body of the
stream or returns `-EAGAIN`, and may flush output on the way. -/
theorem recv_calm (poll : Bool) (x : Stream) (c : Port) (hx : Live x) (hw : Calm c.wans)
    (h : Calm c.rans) (more : List UInt8) (pending : List (List UInt8))
    (hperm : ∀ b ∈ pending, Permitted opts b)
    (hstream : partialIn x ++ (c.rx ++ more) = frames putUint32 pending) :
    ∃ res x' c', Stream.recv t cb opts poll true x c = (res, x', c') ∧
      c'.tx ++ unsent x' = c.tx ++ unsent x ∧ Decoded x' c' more pending res := by
  obtain ⟨rc, y, d, hf, hrc, hwrote, hin⟩ := flushOutbuf_calm t cb x c hx.isOpen hw
  have hy : Live y := hin.live hx
  have hstream' : partialIn y ++ (d.rx ++ more) = frames putUint32 pending := by
    rw [hin.partialIn_eq, hwrote.rx, hstream]
  have hcalm : Calm d.rans := hwrote.rans ▸ h
  have hdecode : ∃ res x' c', afterFlush t cb opts poll y d = (res, x', c') ∧
      c'.tx = d.tx ∧ unsent x' = unsent y ∧ Decoded x' c' more pending res := by
    unfold afterFlush
    have hblock : Decoded y d more pending (.error .EAGAIN) := ⟨hy, Or.inr ⟨rfl, hstream'⟩⟩
    cases hs : y.instate with
    | HASMSG => exact absurd hs hy.noMsg
    | HDR =>
      simp only
      split_ifs
      · exact ⟨_, y, d, rfl, rfl, rfl, hblock⟩
      · exact recvHdr_calm t cb opts y d hy hs hcalm more pending hperm
          (by simpa only [partialIn, hs] using hstream')
    | BODY =>
      simp only
      split_ifs
      · exact ⟨_, y, d, rfl, rfl, rfl, hblock⟩
      · -- the header read earlier is that of the first pending body
        obtain ⟨hlt, hmax⟩ := hy.body hs
        simp only [partialIn, hs, List.append_assoc] at hstream'
        obtain ⟨b, rest, rfl, hhdr, hrest⟩ :=
          frames_cons_of_header putUint32 (k := 4) (fun _ => rfl) (by omega) hstream' rfl
        have hlen : b.length = y.inlen := by
          have hbmax := (hperm b List.mem_cons_self).1
          unfold intMax at hbmax hmax
          rw [← getUint32_putUint32 b.length (by omega), ← hhdr,
            getUint32_putUint32 y.inlen (by omega)]
        exact recvBody_calm t cb y d hy.isOpen hs hcalm hmax more b rest hlen (Or.inl hlt)
          hrest
  obtain ⟨res, x', c', heq, htx, hun, hdec⟩ := hdecode
  refine ⟨res, x', c', ?_, ?_, hdec⟩
  · rw [recv_eq_afterFlush t cb opts poll hx.isOpen hf (hrc.imp_left And.left), heq]
  · rw [htx, hun, hwrote.tx]

end Input

/-! ## Probes -/

theorem probed_calm (t : Transport) (cb : Stream → Port → Stream × Port) {x : Stream} {c : Port}
    {r : Bool × Stream × Port} (hr : SessionCalls.Probed x c (Stream.flushOutbuf t cb x c) r)
    (hx : Live x) (h : Calm c.wans) :
    Wrote c r.2.2 (unsent x) (unsent r.2.1) ∧ SameInput x r.2.1 := by
  obtain ⟨rc, y, d, hf, _, hw, hin⟩ := flushOutbuf_calm t cb x c hx.isOpen h
  rw [hf] at hr
  exact hr.keeps (P := fun s => Wrote c s.2 (unsent x) (unsent s.1) ∧ SameInput x s.1)
    ⟨⟨rfl, rfl, rfl, h⟩, .refl x⟩ ⟨hw, hin⟩

end MsgBroker.Analysis
