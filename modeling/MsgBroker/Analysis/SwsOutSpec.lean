import MsgBroker.Analysis.SwsSides
import MsgBroker.Analysis.WsFrameSpec
import MsgBroker.Model.SwsRun

/-!
# What the parts of a WebSocket session write

`Good` is what every part of the session keeps.
-/

set_option autoImplicit false

namespace MsgBroker.Analysis.SwsOut

open Lib Model

/-- The bytes of the frame in `outbuf` not yet written. -/
def unsent (x : Sws) : List UInt8 :=
  match x.outbuf with
  | none => []
  | some buf => buf.drop x.outpos

/-- The bytes written and those in `outbuf` are the frames `fs`, the last of them the one
in `outbuf`. -/
structure Written (x : Sws) (tx : List UInt8) (acc : List (List UInt8))
    (fs : List OutFrame) : Prop where
  bytes : tx ++ unsent x = fs.flatMap (OutFrame.bytes x.isClient)
  bodies : fs.filterMap OutFrame.body? = acc
  last : ∀ buf, x.outbuf = some buf → ∃ fs' key body, fs = fs' ++ [.data key body] ∧
    buf = OutFrame.bytes x.isClient (.data key body)

/-- The frame in `outbuf` fits an `int`. -/
def FitsInt (x : Sws) : Prop := ∀ buf, x.outbuf = some buf → buf.length ≤ intMax

/-- A live session. -/
structure LiveOut (x : Sws) (tx : List UInt8) (acc : List (List UInt8)) : Prop where
  fits : FitsInt x
  isOpen : x.isOpen = true
  connected : x.disconnected = false
  onError : x.onError = true
  written : ∃ fs, Written x tx acc fs

/-- A stopped session. -/
structure DeadOut (x : Sws) (tx : List UInt8) (acc : List (List UInt8)) : Prop where
  isOpen : x.isOpen = false
  disconnected : x.disconnected = true
  wellFormed : WellFormedOutput x.isClient tx acc

/-- A frame that is taken whole or not at all. -/
def Whole (env : FrameEnv) : Prop :=
  Calm env.ans ∧ (env.ans.head? = some .block ∨ Persists true env.ans)

/-- No byte of the frame is taken. -/
def Silent (env : FrameEnv) : Prop := env.alloc = false ∨ env.ans.head? = some .block

/-- A connection that never fails a write and never cuts a PONG. -/
structure EnvOk (c : SwsPort) : Prop where
  wans : Calm c.port.wans
  pongs : ∀ e ∈ c.pongs, Whole e
  close : Calm c.close.ans
  linger : ∀ as ∈ c.linger, Calm as

/-- What every part of the session keeps. -/
structure Good (role : Bool) (acc : List (List UInt8)) (x : Sws) (c : SwsPort) : Prop where
  role : x.isClient = role
  env : EnvOk c
  out : LiveOut x c.port.tx acc ∨ DeadOut x c.port.tx acc

/-- A CLOSE answered now does not cut a data frame. -/
def Safe (x : Sws) (c : SwsPort) : Prop :=
  Silent c.close ∨ x.outbuf = none ∨ x.outpos = 0

/-- The two sessions agree on everything that concerns output. -/
structure SameOut (x x' : Sws) : Prop where
  isClient : x'.isClient = x.isClient
  isOpen : x'.isOpen = x.isOpen
  disconnected : x'.disconnected = x.disconnected
  onError : x'.onError = x.onError
  outbuf : x'.outbuf = x.outbuf
  outpos : x'.outpos = x.outpos

section Transfer

variable {x x' : Sws} {tx : List UInt8} {acc : List (List UInt8)} {c c' : SwsPort} {role : Bool}

theorem SameOut.refl (x : Sws) : SameOut x x := ⟨rfl, rfl, rfl, rfl, rfl, rfl⟩

theorem Written.same {fs : List OutFrame} (h : Written x tx acc fs) (hs : SameOut x x') :
    Written x' tx acc fs := by
  refine ⟨?_, h.bodies, ?_⟩
  · have hun : unsent x' = unsent x := by simp only [unsent, hs.outbuf, hs.outpos]
    rw [hun, hs.isClient, h.bytes]
  · rw [hs.outbuf, hs.isClient]
    exact h.last

theorem Good.same (h : Good role acc x c) (hs : SameOut x x')
    (htx : c'.port.tx = c.port.tx) (henv : EnvOk c') : Good role acc x' c' := by
  refine ⟨hs.isClient.trans h.role, henv, ?_⟩
  rw [htx]
  rcases h.out with hl | hd
  · obtain ⟨fs, hfs⟩ := hl.written
    exact Or.inl ⟨fun buf hbuf => hl.fits buf (hs.outbuf ▸ hbuf), hs.isOpen.trans hl.isOpen,
      hs.disconnected.trans hl.connected,
      hs.onError.trans hl.onError, fs, hfs.same hs⟩
  · exact Or.inr ⟨hs.isOpen.trans hd.isOpen, hs.disconnected.trans hd.disconnected,
      hs.isClient ▸ hd.wellFormed⟩

theorem Safe.same (h : Safe x c) (hs : SameOut x x') (hc : c'.close = c.close) :
    Safe x' c' := by
  unfold Safe
  rw [hc, hs.outbuf, hs.outpos]
  exact h

theorem Written.wellFormed {fs : List OutFrame} (h : Written x tx acc fs) :
    WellFormedOutput x.isClient tx acc :=
  ⟨fs, ⟨unsent x, h.bytes⟩, [], by rw [h.bodies, List.append_nil]⟩

end Transfer

/-! ## Flushing the data frame -/

section Flush

variable (t : Transport) {x : Sws} {acc : List (List UInt8)} {role : Bool}

variable {fs : List OutFrame}

/-- INTERNAL: **`mb_sws_flush_outbuf` but for the error report** moves bytes of the frame to the
wire, or fails for good where the rest of the frame does not fit an `int`.  SRC: sws.c:369-405 -/
theorem flushQuiet_cases {c : Port} (hopen : x.isOpen = true)
    (h : Written x c.tx acc fs) (hcalm : Calm c.wans)
    (hlt : ∀ buf, x.outbuf = some buf → buf.length + 11 < 2 ^ 32) :
    ∃ rc x' c', Sws.flushQuiet t x c = (rc, x', c') ∧
      (Written x' c'.tx acc fs ∧
          c'.rx = c.rx ∧ c'.rans = c.rans ∧ Calm c'.wans ∧
          x'.isClient = x.isClient ∧ x'.isOpen = x.isOpen ∧ x'.disconnected = x.disconnected ∧
          x'.onError = x.onError ∧ x'.pendingPong = x.pendingPong ∧
          (rc = .ok ∧ x'.outbuf = none ∨
            rc = .again ∧ ∃ buf, x.outbuf = some buf ∧ x'.outbuf = some buf ∧
              x'.outpos < buf.length ∧ x'.outpos = x.outpos + room true c.wans) ∨
        rc ≠ .ok ∧ rc ≠ .again ∧ ∃ buf, x.outbuf = some buf ∧ intMax < buf.length ∧
          (t = .stls ∨ intMax < room true c.wans)) := by
  unfold Sws.flushQuiet
  cases hbuf : x.outbuf with
  | none =>
    exact ⟨.ok, x, c, rfl,
      Or.inl ⟨h, rfl, rfl, hcalm, rfl, rfl, rfl, rfl, rfl, Or.inl ⟨rfl, hbuf⟩⟩⟩
  | some buf =>
    have hun : unsent x = buf.drop x.outpos := by simp [unsent, hbuf]
    obtain ⟨rc, pos, c', hl, hcases⟩ := sendAll_calm t (hlt buf hbuf) x.outpos c hcalm
    rw [← hun] at hcases
    simp only [hopen, Bool.not_true, Bool.false_eq_true, if_false, hl]
    rcases hcases with ⟨hw, ⟨rfl, hend, _⟩ | ⟨rfl, hlt, hroom⟩⟩ | ⟨hgt, hroom, hok, hagain⟩
    · have hnil : buf.drop pos = [] := List.drop_eq_nil_of_le hend
      refine ⟨.ok, _, c', rfl, Or.inl ⟨⟨?_, h.bodies, by simp⟩, hw.rx, hw.rans, hw.calm, rfl,
        rfl, rfl, rfl, rfl, Or.inl ⟨rfl, rfl⟩⟩⟩
      have htx := hw.tx
      rw [hnil] at htx
      exact htx.trans h.bytes
    · refine ⟨.again, _, c', rfl, Or.inl ⟨⟨?_, h.bodies, ?_⟩, hw.rx, hw.rans, hw.calm, rfl,
        rfl, rfl, rfl, rfl, Or.inr ⟨rfl, buf, rfl, rfl, hlt, hroom⟩⟩⟩
      · have htx := hw.tx
        simp only [unsent] at htx ⊢
        exact htx.trans h.bytes
      · simpa [hbuf] using h.last
    · cases rc with
      | ok => exact absurd rfl hok
      | err e => exact ⟨.err e, _, c', rfl, Or.inr ⟨hok, hagain, buf, rfl, by omega, hroom⟩⟩

/-- INTERNAL: a frame that fits an `int` is flushed as far as the connection has room. -/
theorem flushQuiet_written {c : Port} (hopen : x.isOpen = true)
    (hfits : FitsInt x) (h : Written x c.tx acc fs) (hcalm : Calm c.wans) :
    ∃ rc x' c', Sws.flushQuiet t x c = (rc, x', c') ∧ Written x' c'.tx acc fs ∧ FitsInt x' ∧
      Calm c'.wans ∧ x'.isClient = x.isClient ∧ x'.isOpen = x.isOpen ∧
      x'.disconnected = x.disconnected ∧ x'.onError = x.onError ∧
      (rc = .ok ∧ x'.outbuf = none ∨
        rc = .again ∧ ∃ buf, x.outbuf = some buf ∧ x'.outpos < buf.length ∧
          x'.outpos = x.outpos + room true c.wans) := by
  have hlt : ∀ buf, x.outbuf = some buf → buf.length + 11 < 2 ^ 32 := by
    intro buf hbuf
    have hle := hfits buf hbuf
    unfold intMax at hle
    omega
  obtain ⟨rc, x', c', hf, ⟨hw, _, _, hc, hrole, hopen', hdisc, herr, _, hrc⟩ |
    ⟨_, _, buf, hbuf, hgt, _⟩⟩ := flushQuiet_cases t hopen h hcalm hlt
  · refine ⟨rc, x', c', hf, hw, ?_, hc, hrole, hopen', hdisc, herr, ?_⟩
    · rcases hrc with ⟨_, hnone⟩ | ⟨_, buf, hbuf, hbuf', _⟩
      · exact fun buf hbuf => by simp [hnone] at hbuf
      · exact fun buf' hb => hfits buf' (by rw [hbuf, ← hbuf', hb])
    · exact hrc.imp id fun ⟨hagain, buf, hbuf, _, hpos⟩ => ⟨hagain, buf, hbuf, hpos⟩
  · exact absurd (hfits buf hbuf) (Nat.not_le_of_lt hgt)

theorem lingerFlush_written (rounds : List (List (Answer ℕ))) {c : Port}
    (hopen : x.isOpen = true) (hfits : FitsInt x) (h : Written x c.tx acc fs)
    (hcalm : ∀ as ∈ rounds, Calm as) (hw : Calm c.wans) :
    ∃ x' c', Sws.lingerFlush t rounds x c = (x', c') ∧ Written x' c'.tx acc fs ∧
      Calm c'.wans ∧ x'.isClient = x.isClient ∧ x'.disconnected = x.disconnected := by
  induction rounds generalizing x c with
  | nil => exact ⟨x, c, rfl, h, hw, rfl, rfl⟩
  | cons as rounds ih =>
    have has := hcalm as List.mem_cons_self
    have hrest : ∀ bs ∈ rounds, Calm bs := fun bs hbs => hcalm bs (List.mem_cons_of_mem _ hbs)
    obtain ⟨rc, y, d, hf, hy, hfits', hcy, hrole, hopen', hdisc, _, hrc⟩ :=
      flushQuiet_written t (c := { c with wans := as }) hopen hfits h has
    unfold Sws.lingerFlush
    split_ifs
    · exact ⟨x, c, rfl, h, hw, rfl, rfl⟩
    · simp only [hf]
      rcases hrc with ⟨rfl, _⟩ | ⟨rfl, _⟩
      · exact ⟨y, d, rfl, hy, hcy, hrole, hdisc⟩
      · obtain ⟨x', c', hl, hx', hcx', hrole', hdisc'⟩ :=
          ih (hopen'.trans hopen) hfits' hy hrest hcy
        exact ⟨x', c', hl, hx', hcx', hrole'.trans hrole, hdisc'.trans hdisc⟩

theorem stop_dead {c : SwsPort} (hopen : x.isOpen = true)
    (hfits : FitsInt x) (hdisc : x.disconnected = true) (h : Written x c.port.tx acc fs) (henv : EnvOk c) :
    ∃ x' c', Sws.stop t x c = (x', c') ∧ DeadOut x' c'.port.tx acc ∧ EnvOk c' ∧
      c'.close = c.close ∧ x'.isClient = x.isClient ∧ x'.outbuf = none := by
  obtain ⟨y, d, hl, hy, hcy, hrole, hdisc'⟩ :=
    lingerFlush_written t c.linger hopen hfits h henv.linger henv.wans
  unfold Sws.stop
  rw [hl]
  refine ⟨_, _, rfl, ?_, ?_, rfl, hrole, rfl⟩
  · exact ⟨rfl, hdisc'.trans hdisc, hy.wellFormed⟩
  · exact ⟨hcy, henv.pongs, henv.close, by simp⟩

theorem reportError_good {c : SwsPort} (h : Good role acc x c) :
    ∃ x' c', Sws.reportError t x c = (x', c') ∧ Good role acc x' c' ∧
      c'.close = c.close ∧ (x'.outbuf = none ∨ x' = x) := by
  unfold Sws.reportError
  rcases h.out with hl | hd
  · obtain ⟨fs, hfs⟩ := hl.written
    simp only [hl.connected, hl.onError, Bool.false_eq_true, if_false, if_true]
    obtain ⟨x', c', hs, hdead, henv, hclose, hrole, hnone⟩ :=
      stop_dead t (x := { x with disconnected := true, onError := false }) hl.isOpen hl.fits rfl
        ⟨hfs.bytes, hfs.bodies, hfs.last⟩ h.env
    exact ⟨x', c', hs, ⟨hrole.trans h.role, henv, Or.inr hdead⟩, hclose, Or.inl hnone⟩
  · simp only [hd.disconnected, if_true]
    exact ⟨x, c, rfl, h, rfl, Or.inr rfl⟩

theorem flushOutbuf_good {c : SwsPort} (h : Good role acc x c) :
    ∃ rc x' c', Sws.flushOutbuf t x c = (rc, x', c') ∧ Good role acc x' c' ∧
      c'.close = c.close ∧ c'.pongs = c.pongs ∧
      (LiveOut x c.port.tx acc → LiveOut x' c'.port.tx acc ∧
        (rc = .ok ∧ x'.outbuf = none ∨
          rc = .again ∧ ∃ buf, x.outbuf = some buf ∧ x'.outpos < buf.length ∧
            x'.outpos = x.outpos + room true c.port.wans)) := by
  unfold Sws.flushOutbuf
  rcases h.out with hl | hd
  · obtain ⟨fs, hfs⟩ := hl.written
    obtain ⟨rc, x', d, hf, hx', hfits, hcalm, hrole, hopen, hdisc, herr, hrc⟩ :=
      flushQuiet_written t hl.isOpen hl.fits hfs h.env.wans
    have hlive : LiveOut x' d.tx acc :=
      ⟨hfits, hopen.trans hl.isOpen, hdisc.trans hl.connected, herr.trans hl.onError, fs, hx'⟩
    have hgood : Good role acc x' { c with port := d } :=
      ⟨hrole.trans h.role, ⟨hcalm, h.env.pongs, h.env.close, h.env.linger⟩, Or.inl hlive⟩
    rcases hrc with ⟨rfl, hnone⟩ | ⟨rfl, hagain⟩
    · simp only [hf]
      exact ⟨.ok, x', _, rfl, hgood, rfl, rfl, fun _ => ⟨hlive, Or.inl ⟨rfl, hnone⟩⟩⟩
    · simp only [hf]
      exact ⟨.again, x', _, rfl, hgood, rfl, rfl, fun _ => ⟨hlive, Or.inr ⟨rfl, hagain⟩⟩⟩
  · have hnotlive : ¬ LiveOut x c.port.tx acc := fun hl => by
      have := hl.isOpen
      rw [hd.isOpen] at this
      cases this
    unfold Sws.flushQuiet
    cases x.outbuf with
    | none => exact ⟨.ok, x, c, rfl, h, rfl, rfl, fun hl => absurd hl hnotlive⟩
    | some buf =>
      simp only [hd.isOpen, Bool.not_false, if_true, Bool.false_eq_true, if_false]
      exact ⟨_, x, c, rfl, h, rfl, rfl, fun hl => absurd hl hnotlive⟩

end Flush

/-! ## Control frames -/

section Control

variable (t : Transport) {x : Sws} {acc : List (List UInt8)} {role : Bool}

/-- INTERNAL: **`mb_sws_send_frame`** of a control frame writes a leading part of it, and all of it
if it returns `0`.  SRC: sws.c:248-262 -/
theorem sendFrame_cases (opcode : Opcode) {data : List UInt8} (hdata : data.length ≤ 125)
    (env : FrameEnv) (c : Port) (hopen : x.isOpen = true) (hcalm : Calm env.ans) :
    ∃ rc c', Sws.sendFrame t opcode data env x c = (rc, c') ∧ c'.rx = c.rx ∧
      c'.rans = c.rans ∧ c'.wans = c.wans ∧
      c'.tx <+: c.tx ++ buildFrame x.isClient env.key opcode data ∧
      (rc = .ok → c'.tx = c.tx ++ buildFrame x.isClient env.key opcode data) ∧
      (Silent env → c'.tx = c.tx) ∧ (Whole env → rc ≠ .ok → c'.tx = c.tx) := by
  unfold Sws.sendFrame
  cases halloc : env.alloc with
  | false =>
    simp only [Bool.not_false, if_true]
    exact ⟨_, c, rfl, rfl, rfl, rfl, List.prefix_append _ _, by simp, fun _ => rfl,
      fun _ _ => rfl⟩
  | true =>
    simp only [hopen, Bool.not_true, Bool.false_eq_true, if_false]
    have hle : (buildFrame x.isClient env.key opcode data).length ≤ intMax := by
      have := buildFrame_length_le x.isClient env.key opcode data
      unfold intMax
      omega
    generalize buildFrame x.isClient env.key opcode data = frame at hle ⊢
    have hans : Calm (env.ans ++ [.more frame.length]) :=
      hcalm.append (List.forall_mem_singleton.mpr trivial)
    obtain ⟨rc, pos, c', hl, hw, hrc⟩ :=
      sendAll_short t hle 0 { c with wans := env.ans ++ [.more frame.length] } hans
    have htx : c'.tx ++ frame.drop pos = c.tx ++ frame := by simpa using hw.tx
    -- a refusal of the first write leaves no room at all
    have hblock : env.ans.head? = some .block → rc = .again ∧ pos = 0 ∨ frame = [] := by
      intro hhead
      have hroom : room true (env.ans ++ [.more frame.length]) = 0 := by
        cases hans' : env.ans with
        | nil => simp [hans'] at hhead
        | cons a as =>
          simp only [hans', List.head?_cons, Option.some.injEq] at hhead
          simp [hhead, room]
      rcases hrc with ⟨_, _, hle⟩ | ⟨hagain, _, hpos⟩
      · right
        exact List.length_eq_zero_iff.mp (by simp only [hroom] at hle; omega)
      · left
        exact ⟨hagain, by simp only [hroom] at hpos; omega⟩
    have hsilent : env.ans.head? = some .block → c'.tx = c.tx := by
      intro hhead
      rcases hblock hhead with ⟨_, hpos⟩ | hnil
      · rw [hpos] at htx
        simpa using htx
      · simpa [hnil] using htx
    rw [hl]
    refine ⟨rc, _, rfl, hw.rx, hw.rans, rfl, ⟨_, htx⟩, ?_, ?_, ?_⟩
    · rintro rfl
      rcases hrc with ⟨_, hend, _⟩ | ⟨hagain, _⟩
      · simpa [List.drop_eq_nil_of_le hend] using htx
      · cases hagain
    · rintro (hfalse | hhead)
      · rw [halloc] at hfalse
        cases hfalse
      · exact hsilent hhead
    · rintro ⟨_, hhead | hpersists⟩ hne
      · exact hsilent hhead
      · have hroom := le_room_of_persists true env.ans frame.length hpersists
        rcases hrc with ⟨hok, _, _⟩ | ⟨_, hlt, hpos⟩
        · exact absurd hok hne
        · simp only at hpos
          omega

theorem flushPendingPong_failed {c : SwsPort} {rc : Rc} {port : Port} (hp : x.pendingPong = true)
    (hs : Sws.sendFrame t .PONG x.pongBuf.bytes (c.pongs.headD default) x c.port = (rc, port))
    (hok : rc ≠ .ok) (hagain : rc ≠ .again)
    (h : Good role acc { x with pendingPong := false, pongBuf := .empty }
      { c with port := port, pongs := c.pongs.tail }) (hnone : x.outbuf = none) :
    ∃ x' c', Sws.flushPendingPong t x c = (rc, x', c') ∧ Good role acc x' c' ∧
      c'.close = c.close ∧ x'.outbuf = none := by
  obtain ⟨y, d, hr, hy, hclose, hbuf⟩ := reportError_good t h
  refine ⟨y, d, ?_, hy, hclose, ?_⟩
  · unfold Sws.flushPendingPong
    simp only [hp, Bool.not_true, Bool.false_eq_true, if_false, hs]
    cases rc with
    | ok => exact absurd rfl hok
    | err e => cases e <;> first | exact absurd rfl hagain | simp only [hr]
  · rcases hbuf with hbuf | rfl
    · exact hbuf
    · exact hnone

/-- INTERNAL: **`mb_sws_flush_pending_pong`** with no data waiting keeps the session good; if it
returns `0`, a live session stays live. -/
theorem flushPendingPong_good {c : SwsPort} (h : Good role acc x c)
    (hnone : x.pendingPong = true → x.outbuf = none) :
    ∃ rc x' c', Sws.flushPendingPong t x c = (rc, x', c') ∧ Good role acc x' c' ∧
      c'.close = c.close ∧ (x.outbuf = none → x'.outbuf = none) ∧
      (rc = .ok → LiveOut x c.port.tx acc → LiveOut x' c'.port.tx acc) := by
  cases hp : x.pendingPong with
  | false =>
    unfold Sws.flushPendingPong
    simp only [hp, Bool.not_false, if_true]
    exact ⟨.ok, x, c, rfl, h, rfl, id, fun _ => id⟩
  | true =>
    have hnone := hnone hp
    have hwhole : Whole (c.pongs.headD default) := by
      cases hpongs : c.pongs with
      | nil => exact ⟨by simp [Calm, default], Or.inr trivial⟩
      | cons e es => exact h.env.pongs e (by simp [hpongs])
    have henv : ∀ port : Port, port.wans = c.port.wans →
        EnvOk { c with port := port, pongs := c.pongs.tail } := fun port hwans =>
      ⟨hwans ▸ h.env.wans, fun e he => h.env.pongs e (List.mem_of_mem_tail he), h.env.close,
        h.env.linger⟩
    rcases h.out with hl | hd
    · obtain ⟨fs, hfs⟩ := hl.written
      obtain ⟨rc, port, hs, _, _, hwans, _, hok, _, hzero⟩ :=
        sendFrame_cases t .PONG x.pongBuf.bound (c.pongs.headD default) c.port hl.isOpen hwhole.1
      by_cases hrc : rc = .ok
      · subst hrc
        have hlive : LiveOut { x with pendingPong := false, pongBuf := .empty } port.tx acc := by
          refine ⟨hl.fits, hl.isOpen, hl.connected, hl.onError,
            fs ++ [.pong (c.pongs.headD default).key x.pongBuf.bytes], ?_, ?_, ?_⟩
          · have hbytes := hfs.bytes
            simp only [unsent, hnone, List.append_nil] at hbytes ⊢
            rw [hok rfl, hbytes]
            simp [OutFrame.bytes]
          · simp [OutFrame.body?, hfs.bodies]
          · intro buf hbuf
            simp [hnone] at hbuf
        unfold Sws.flushPendingPong
        simp only [hp, Bool.not_true, Bool.false_eq_true, if_false, hs]
        exact ⟨.ok, _, _, rfl, ⟨h.role, henv port hwans, Or.inl hlive⟩, rfl, fun _ => hnone,
          fun _ _ => hlive⟩
      · have hgood : Good role acc x { c with port := port, pongs := c.pongs.tail } :=
          h.same (.refl x) (hzero hwhole hrc) (henv port hwans)
        by_cases hEA : rc = .again
        · subst hEA
          unfold Sws.flushPendingPong
          simp only [hp, Bool.not_true, Bool.false_eq_true, if_false, hs]
          exact ⟨.again, x, _, rfl, hgood, rfl, id, fun hne => absurd hne (by simp)⟩
        · have hcleared : Good role acc { x with pendingPong := false, pongBuf := .empty }
              { c with port := port, pongs := c.pongs.tail } :=
            hgood.same ⟨rfl, rfl, rfl, rfl, rfl, rfl⟩ rfl (henv port hwans)
          obtain ⟨x', c', hflush, hgood', hclose, hbuf⟩ :=
            flushPendingPong_failed t hp hs hrc hEA hcleared hnone
          exact ⟨rc, x', c', hflush, hgood', hclose, fun _ => hbuf, fun hne => absurd hne hrc⟩
    · -- a stopped session writes nothing
      have hs : ∃ rc, Sws.sendFrame t .PONG x.pongBuf.bytes (c.pongs.headD default) x c.port =
          (rc, c.port) ∧ rc ≠ .ok ∧ rc ≠ .again := by
        unfold Sws.sendFrame
        cases (c.pongs.headD default).alloc <;> simp [hd.isOpen]
      obtain ⟨rc, hs, hne, hEA⟩ := hs
      have hcleared : Good role acc { x with pendingPong := false, pongBuf := .empty }
          { c with pongs := c.pongs.tail } :=
        h.same ⟨rfl, rfl, rfl, rfl, rfl, rfl⟩ rfl (henv c.port rfl)
      obtain ⟨x', c', hflush, hgood', hclose, hbuf⟩ :=
        flushPendingPong_failed t hp hs hne hEA hcleared hnone
      exact ⟨rc, x', c', hflush, hgood', hclose, fun _ => hbuf, fun hok => absurd hok hne⟩

end Control

/-! ## Sending -/

section Send

variable (t : Transport) (opts : SockOpts) {x : Sws} {acc : List (List UInt8)} {role : Bool}

variable {c : SwsPort}

theorem accepted_good (h : Good role acc x c) (hl : LiveOut x c.port.tx acc)
    (hnone : x.outbuf = none) (key : MaskKey) (body : List UInt8) (inFlight : ℤ)
    (hfits : (buildFrame role key .BINARY (dataPayload body)).length ≤ intMax) :
    Good role (acc ++ [body])
      { x with
        outbuf := some (buildFrame x.isClient key .BINARY (dataPayload body))
        outpos := 0
        inFlight := inFlight } c ∧
    LiveOut
      { x with
        outbuf := some (buildFrame x.isClient key .BINARY (dataPayload body))
        outpos := 0
        inFlight := inFlight } c.port.tx (acc ++ [body]) := by
  obtain ⟨fs, hfs⟩ := hl.written
  have hbytes : c.port.tx = fs.flatMap (OutFrame.bytes x.isClient) := by
    simpa [unsent, hnone] using hfs.bytes
  have hlive : LiveOut
      { x with
        outbuf := some (buildFrame x.isClient key .BINARY (dataPayload body))
        outpos := 0
        inFlight := inFlight } c.port.tx (acc ++ [body]) := by
    refine ⟨?_, hl.isOpen, hl.connected, hl.onError, fs ++ [.data key body], ?_, ?_, ?_⟩
    · rintro buf ⟨⟩
      rw [h.role]
      exact hfits
    · simp [unsent, hbytes, OutFrame.bytes]
    · simp [OutFrame.body?, hfs.bodies]
    · intro buf hbuf
      exact ⟨fs, key, body, rfl, by simpa [OutFrame.bytes] using hbuf.symm⟩
  exact ⟨⟨h.role, h.env, Or.inl hlive⟩, hlive⟩

theorem sendData_good (body : List UInt8) (alloc : Bool) (env : FrameEnv)
    (hfits : (buildFrame role env.key .BINARY (dataPayload body)).length ≤ intMax)
    (h : Good role acc x c) (hl : LiveOut x c.port.tx acc) :
    ∃ rc x' c', Sws.sendData t opts body alloc env x c = (rc, x', c') ∧
      Good role (if rc = .ok then acc ++ [body] else acc) x' c' := by
  obtain ⟨rc, y, d, hf, hy, _, _, hlive⟩ := flushOutbuf_good t h
  obtain ⟨hyl, hrc⟩ := hlive hl
  have hrefused : Good role acc y.countRefused d :=
    hy.same ⟨rfl, rfl, rfl, rfl, rfl, rfl⟩ rfl hy.env
  unfold Sws.sendData
  rcases hrc with ⟨rfl, hnone⟩ | ⟨rfl, _⟩
  · simp only [hf]
    split_ifs
    · exact ⟨_, y, d, rfl, by simpa using hy⟩
    · exact ⟨_, y, d, rfl, by simpa using hy⟩
    · exact ⟨_, y.countRefused, d, rfl, by simpa using hrefused⟩
    · exact ⟨_, y, d, rfl, by simpa using hy⟩
    · obtain ⟨hacc, haccl⟩ := accepted_good hy hyl hnone env.key body (y.inFlight + 1) hfits
      obtain ⟨rc', z, e, hf', hz, _, _, hlive'⟩ := flushOutbuf_good t hacc
      obtain ⟨hzl, hrc'⟩ := hlive' haccl
      rcases hrc' with ⟨rfl, hnone'⟩ | ⟨rfl, _⟩
      · simp only [hf']
        obtain ⟨rc'', w, g, hp, hw, _, _, _⟩ := flushPendingPong_good t hz fun _ => hnone'
        simp only [hp]
        exact ⟨.ok, w, g, rfl, by simpa using hw⟩
      · simp only [hf']
        exact ⟨.ok, z, e, rfl, by simpa using hz⟩
  · simp only [hf]
    split_ifs
    · exact ⟨.again, y.countRefused, d, rfl, by simpa using hrefused⟩
    · exact ⟨.again, y, d, rfl, by simpa using hy⟩

theorem send_good (body : List UInt8) (alloc : Bool) (env : FrameEnv)
    (hfits : (buildFrame role env.key .BINARY (dataPayload body)).length ≤ intMax)
    (h : Good role acc x c) :
    ∃ rc x' c', Sws.send t opts body alloc env x c = (rc, x', c') ∧
      Good role (if rc = .ok then acc ++ [body] else acc) x' c' := by
  unfold Sws.send
  rcases h.out with hl | hd
  · simp only [hl.isOpen, Bool.not_true, Bool.false_eq_true, if_false]
    split_ifs with hpong
    · have hnone : x.outbuf = none := by simpa using hpong.1
      obtain ⟨rc, y, d, hp, hy, _, _, hlive⟩ := flushPendingPong_good t h fun _ => hnone
      simp only [hp]
      cases rc with
      | ok => exact sendData_good t opts body alloc env hfits hy (hlive rfl hl)
      | err e => exact ⟨.err e, y, d, rfl, by simpa using hy⟩
    · exact sendData_good t opts body alloc env hfits h hl
  · obtain ⟨y, d, hr, hy, _, _⟩ := reportError_good t h
    simp only [hd.isOpen, Bool.not_false, if_true, hr]
    exact ⟨_, y, d, rfl, by simpa using hy⟩

end Send

end MsgBroker.Analysis.SwsOut
