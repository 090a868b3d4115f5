import MsgBroker.Analysis.SwsReading
import MsgBroker.Analysis.SwsTermination

/-!
# The WebSocket codec round trip

A session of one role reads the frames a session of the other role builds: data frames with control
frames between them, in any fragments.
-/

set_option autoImplicit false

namespace MsgBroker.Analysis.WsTrip

open Lib Model

/-! ## The payload -/

section Payload

variable (t : Transport) (opts : SockOpts) {snd : Bool} {x : Sws} {c : SwsPort} {it : Item}
  {rest : List Item}

theorem flushPendingPong_feeding (hopen : x.isOpen = true) (hp : x.pendingPong = true)
    (h : Feeding c) :
    ∃ tx, Sws.flushPendingPong t x c =
      (.ok, { x with pendingPong := false, pongBuf := .empty },
        { c with port := { c.port with tx := tx }, pongs := c.pongs.tail }) := by
  have henv : (c.pongs.headD default).alloc = true ∧ Calm (c.pongs.headD default).ans ∧
      Persists true (c.pongs.headD default).ans := by
    cases hpongs : c.pongs with
    | nil => exact ⟨rfl, by simp [Calm, default], trivial⟩
    | cons e es => exact h.pongs e (by simp [hpongs])
  obtain ⟨halloc, hcalm, hpersists⟩ := henv
  unfold Sws.flushPendingPong Sws.sendFrame
  simp only [hp, halloc, hopen, Bool.not_true, Bool.false_eq_true, if_false]
  have hle : (buildFrame x.isClient (c.pongs.headD default).key .PONG x.pongBuf.bytes).length ≤
      intMax := by
    have hframe := buildFrame_length_le x.isClient (c.pongs.headD default).key .PONG x.pongBuf.bytes
    have hdata := x.pongBuf.bound
    unfold intMax
    omega
  generalize buildFrame x.isClient (c.pongs.headD default).key .PONG x.pongBuf.bytes = frame
    at hle ⊢
  have hans : Calm ((c.pongs.headD default).ans ++ [.more frame.length]) :=
    hcalm.append (List.forall_mem_singleton.mpr trivial)
  obtain ⟨rc, pos, c', hl, hw, hrc⟩ := sendAll_short t hle 0
    { c.port with wans := (c.pongs.headD default).ans ++ [.more frame.length] } hans
  have hroom := le_room_of_persists true (c.pongs.headD default).ans frame.length hpersists
  rcases hrc with ⟨rfl, _, _⟩ | ⟨_, hlt, hpos⟩
  · have hrx := hw.rx
    have hrans := hw.rans
    simp only at hrx hrans
    rw [hl]
    refine ⟨c'.tx, ?_⟩
    simp only [hrx, hrans]
  · simp only at hpos
    omega

theorem unmasked_eq (hf : InFrame snd it x) (hmsg : x.inmsg = it.payload snd) :
    x.unmasked = it.data := by
  obtain ⟨hmask, _⟩ := second_byte (getD_second hf.inhdr)
  unfold Sws.unmasked
  rw [hmask, hf.payloadLen, hmsg]
  cases snd with
  | false => simp [Item.payload, framePayload]
  | true =>
    rw [hf.key rfl]
    split_ifs with hpos
    · simp [Item.payload, framePayload]
    · have hnil : it.data = [] := by simpa using hpos
      simp [Item.payload, framePayload, hnil, wsMask]

theorem finishBody_eq {key : MaskKey} {body : List UInt8}
    (hf : InFrame snd (.msg key body) x) (hmsg : x.inmsg = Item.payload snd (.msg key body))
    (hfits : Item.Fits opts (.msg key body)) :
    Sws.finishBody t opts true x c =
      .ret (.ok body) { x with instate := .HDR, inhdr := [], inmsg := [] } c := by
  obtain ⟨hmax, hsmall⟩ := hfits
  have hdata : x.unmasked = putUint32 body.length ++ body := unmasked_eq hf hmsg
  have hlen : x.payloadLen = 4 + body.length := by
    rw [hf.payloadLen]
    simp [Item.data, dataPayload]
  have hsize : getUint32 x.unmasked = body.length := by
    rw [hdata]
    exact getUint32_append _ _ (by unfold intMax at hmax; omega)
  have hbody : (x.unmasked.drop 4).take body.length = body := by
    rw [hdata, ← length_putUint32 body.length, List.drop_left]
    exact List.take_length
  have hbig : ¬ body.length > 4 + body.length - 4 := by omega
  have hfour : ¬ 4 + body.length < 4 := by omega
  unfold Sws.finishBody
  simp only [hsize, hlen, hfour, hbig, hsmall, hbody, Bool.false_eq_true, or_self, Bool.not_true,
    and_false, if_false]

/-- INTERNAL: **the end of a control frame** goes on with the next item; a PING was answered. -/
theorem finishCtrl_moved (hx : Reading snd x) (h : Feeding c) :
    ∃ x' c', Sws.finishCtrl t x c = .next x' c' ∧ Reading snd x' ∧ Feeding c' ∧
      x'.instate = .HDR ∧ x'.inhdr = [] ∧ c'.port.rx = c.port.rx := by
  unfold Sws.finishCtrl
  by_cases hping : x.inlen = Opcode.PING.code
  · obtain ⟨tx, hpong⟩ := flushPendingPong_feeding t
      (x := { x with pongBuf := .copy x.unmasked, pendingPong := true }) hx.isOpen rfl h
    have hnone : x.outbuf.isNone = true := by rw [hx.noData]; rfl
    dsimp only
    rw [if_pos hping, if_pos hnone, hpong]
    simp only [Bool.false_eq_true, false_and, if_false]
    refine ⟨_, _, rfl, ⟨hx.role, hx.isOpen, hx.noData, rfl⟩, ⟨h.rans, ?_⟩, rfl, rfl, rfl⟩
    intro e he
    exact h.pongs e (List.mem_of_mem_tail he)
  · simp only [hping, if_false, hx.noPong, Bool.false_eq_true, false_and]
    exact ⟨_, c, rfl, ⟨hx.role, hx.isOpen, hx.noData, hx.noPong⟩, h, rfl, rfl, rfl⟩

theorem InFrame.withMsg (hf : InFrame snd it x) (m : List UInt8) :
    InFrame snd it { x with inmsg := m } :=
  ⟨hf.instate, hf.inhdr, hf.payloadLen, hf.key, hf.inlen⟩

theorem Reading.withMsg (hx : Reading snd x) (m : List UInt8) :
    Reading snd { x with inmsg := m } :=
  ⟨hx.role, hx.isOpen, hx.noData, hx.noPong⟩

theorem finish_outcome (hx : Reading snd x) (h : Feeding c) (hf : InFrame snd it x)
    (hmsg : x.inmsg = it.payload snd) (hrx : c.port.rx = wire snd rest)
    (hfits : it.Fits opts) :
    Outcome snd False c (it :: rest)
      (match it.instate with
        | .CTRL => Sws.finishCtrl t x c
        | _ => Sws.finishBody t opts true x c) := by
  have hctrl : it.body? = none → Outcome snd False c (it :: rest) (Sws.finishCtrl t x c) := by
    intro hbody
    obtain ⟨x', c', heq, hx', hc', hstate, hhdr, hrx'⟩ := finishCtrl_moved t hx h
    rw [heq]
    refine .ctrl rfl hbody ⟨hx', hc', hrx' ▸ List.suffix_rfl, False.elim⟩ ?_
    rw [hrx', hrx]
    exact .boundary hstate hhdr
  cases it with
  | msg key body =>
    rw [Item.instate, finishBody_eq t opts hf hmsg hfits]
    refine .body rfl ⟨⟨hx.role, hx.isOpen, hx.noData, hx.noPong⟩, h, List.suffix_rfl,
      False.elim⟩ ?_
    rw [hrx]
    exact .boundary rfl rfl
  | ping key payload => exact hctrl rfl
  | pong key payload => exact hctrl rfl

/-- INTERNAL: **the payload phase** of a frame whose header was read: the payload is read on, and
when it is complete the frame is finished. -/
theorem payload_outcome (hx : Reading snd x) (h : Feeding c) (hf : InFrame snd it x)
    (hle : x.inmsg.length ≤ (it.payload snd).length)
    (hrx : x.inmsg ++ c.port.rx = it.payload snd ++ wire snd rest) (hfits : it.Fits opts) :
    Outcome snd (x.inmsg.length < (it.payload snd).length ∧
        (∃ n, c.port.rans.head? = some (.more n)) ∧ c.port.rx ≠ []) c (it :: rest)
      (Sws.payload t opts true x c) := by
  have hlen : x.payloadLen = (it.payload snd).length := by
    rw [hf.payloadLen, Item.payload, length_framePayload]
  have hpart : Sws.payload t opts true x c = (Sws.readPayload t x c).andThen fun y d =>
      match it.instate with
        | .CTRL => Sws.finishCtrl t y d
        | _ => Sws.finishBody t opts true y d := by
    unfold Sws.payload
    rw [hf.instate]
    cases it <;> rfl
  rw [hpart]
  unfold Sws.readPayload
  split_ifs with hlt
  · have hfill := readInto_fill t c.port.rans [] (fun m => { x with inmsg := m }) hx.isOpen h
      h.rans (by simp [Calm])
      (show x.inmsg.length + (x.payloadLen - x.inmsg.length) = _ by omega) (by omega) hrx
    refine hfill.andThen _ ?_ ?_
    · intro d hd hsuf hprog htail
      exact (finish_outcome t opts (hx.withMsg _) hd (hf.withMsg _) rfl htail hfits).after hsuf
        fun hs => Or.inl (hprog hs.2)
    · intro d held hd hsuf hprog hheld hsplit
      exact .again ⟨hx.withMsg _, hd, hsuf, fun hs => hprog hs.2⟩
        (.payload (hf.withMsg _) hheld hsplit)
  · obtain ⟨hmsg, htail⟩ := List.append_inj hrx (by omega)
    exact (finish_outcome t opts hx h hf hmsg htail hfits).after List.suffix_rfl
      fun hs => absurd hs.1 (by omega)

end Payload

/-! ## The calls -/

section Calls

variable (t : Transport) (opts : SockOpts) {snd : Bool} {x : Sws} {c : SwsPort}
  {items : List Item}

theorem round_outcome (hx : Reading snd x) (h : Feeding c) (hat : At snd x c.port.rx items)
    (hfits : ∀ it ∈ items, it.Fits opts) :
    Outcome snd ((∃ n, c.port.rans.head? = some (.more n)) ∧ c.port.rx ≠ []) c items
      (Sws.round t opts true x c) := by
  unfold Sws.round
  cases hat with
  | done hstate hhdr hrx =>
    obtain ⟨d, hd, hdrx, hread⟩ := readHdr_end t hx.isOpen h hhdr hrx
    rw [if_pos hstate, hread]
    refine .again ⟨hx, hd, by rw [hdrx]; exact List.nil_suffix, fun hs => absurd hrx hs.2⟩ ?_
    exact .done hstate hhdr hdrx
  | @hdr it rest hstate hlt hrx =>
    have hfit := hfits it List.mem_cons_self
    rw [if_pos hstate]
    refine (readHdr_filled t hx.isOpen h hlt hrx).andThen
      (P := fun f => Outcome snd _ c _ (f.andThen _)) _ ?_ ?_
    · intro d hd hsuf hprog htail
      obtain ⟨y, hstart, hy, hf, hmsg⟩ := startFrame_eq t opts (c := d)
        (x := { x with inhdr := it.hdr snd }) ⟨hx.role, hx.isOpen, hx.noData, hx.noPong⟩ rfl hfit
      rw [hstart]
      refine (payload_outcome t opts hy hd hf ?_ ?_ hfit).after hsuf fun hs => Or.inl (hprog hs)
      · rw [hmsg]
        exact Nat.zero_le _
      · rw [hmsg, htail]
        rfl
    · intro d held hd hsuf hprog hheld hsplit
      exact .again ⟨⟨hx.role, hx.isOpen, hx.noData, hx.noPong⟩, hd, hsuf, hprog⟩
        (.hdr hstate hheld hsplit)
  | @payload it rest hframe hlt hrx =>
    have hne : x.instate ≠ .HDR := by
      rw [hframe.instate]
      cases it <;> exact nofun
    rw [if_neg hne]
    refine (payload_outcome t opts hx h hframe hlt.le hrx
      (hfits it List.mem_cons_self)).after List.suffix_rfl ?_
    exact fun hs => Or.inr ⟨rfl, hlt, hs⟩

/-- What a call of `mb_sws_recv` does to the items still to be decoded: it takes control
frames off them, and a message if it returns one. -/
inductive Yields (items items' : List Item) : Except Errno (List UInt8) → Prop where
  | again (h : bodies items = bodies items') : Yields items items' (.error .EAGAIN)
  | body {body : List UInt8} (h : bodies items = body :: bodies items') :
      Yields items items' (.ok body)

theorem recvLoop_yields (fuel : ℕ) (hx : Reading snd x) (h : Feeding c)
    (hat : At snd x c.port.rx items) (hfits : ∀ it ∈ items, it.Fits opts)
    {r : Except Errno (List UInt8) × Sws × SwsPort}
    (hr : Sws.recvLoop t opts true fuel x c = some r) :
    ∃ res x' c' items', r = (res, x', c') ∧
      Moved snd ((∃ n, c.port.rans.head? = some (.more n)) ∧ c.port.rx ≠ []) c x' c' ∧
      At snd x' c'.port.rx items' ∧ items' <:+ items ∧ Yields items items' res := by
  induction fuel generalizing x c items with
  | zero => cases hr
  | succ fuel ih =>
    have hround := round_outcome t opts hx h hat hfits
    unfold Sws.recvLoop at hr
    generalize Sws.round t opts true x c = f at hround hr
    cases hround with
    | @again y d hm hat' =>
      cases hr
      exact ⟨_, y, d, items, rfl, hm, hat', List.suffix_rfl, .again rfl⟩
    | @body y d key b rest hitems hm hat' =>
      subst hitems
      cases hr
      exact ⟨_, y, d, rest, rfl, hm, hat', List.suffix_cons _ _, .body rfl⟩
    | @ctrl y d it rest hitems hctrl hm hat' =>
      subst hitems
      obtain ⟨res, x', c', items', hloop, hm', hat'', hsuf, hy⟩ := ih hm.reading hm.feeding hat'
        (fun i hi => hfits i (List.mem_cons_of_mem _ hi)) hr
      have hbodies : bodies (it :: rest) = bodies rest := by simp [bodies, hctrl]
      refine ⟨res, x', c', items', hloop, hm'.after hm.suffix fun hs => Or.inl (hm.progress hs),
        hat'', hsuf.trans (List.suffix_cons _ _), ?_⟩
      cases hy with
      | again hb => exact .again (hbodies.trans hb)
      | body hb => exact .body (hbodies.trans hb)

theorem recv_yields (hx : Reading snd x) (h : Feeding c) (hat : At snd x c.port.rx items)
    (hfits : ∀ it ∈ items, it.Fits opts) :
    ∃ res x' c' items', Sws.recv t opts true x c = (res, x', c') ∧
      Moved snd ((∃ n, c.port.rans.head? = some (.more n)) ∧ c.port.rx ≠ []) c x' c' ∧
      At snd x' c'.port.rx items' ∧ items' <:+ items ∧ Yields items items' res := by
  have hflush := SwsSides.flushOutbuf_of_none t hx.noData c
  have hpong : Sws.flushPendingPong t x c = (.ok, x, c) := by
    unfold Sws.flushPendingPong
    simp only [hx.noPong, Bool.not_false, if_true]
  have hnone : x.outbuf.isNone = true := by
    rw [hx.noData]
    rfl
  unfold Sws.recv
  simp only [hx.isOpen, Bool.not_true, Bool.false_eq_true, if_false, hflush, hpong, hnone, if_true]
  obtain ⟨r, hr⟩ := SwsEnd.exists_recvLoop t opts true x c
  obtain ⟨res, x', c', items', rfl, hrest⟩ := recvLoop_yields t opts _ hx h hat hfits hr
  rw [hr]
  exact ⟨res, x', c', items', rfl, hrest⟩

end Calls

/-! ## The run -/

/-- A call of `mb_sws_recv` in which reads never fail, buffers can be allocated and PONGs
are written.  The fragments are the answers to its reads. -/
structure Feeds (op : SwsOp) : Prop where
  call : op.call = .recv true
  arrive : op.arrive = []
  rans : Calm op.rans
  pongs : ∀ e ∈ op.pongs, e.alloc = true ∧ Calm e.ans ∧ Persists true e.ans

/-- The first read of the call finds a fragment. -/
def Reads (op : SwsOp) : Bool :=
  match op.rans.head? with
  | some (.more _) => true
  | _ => false

theorem At.eq_nil {snd : Bool} {x : Sws} {items : List Item} (h : At snd x [] items) :
    items = [] := by
  cases h with
  | done => rfl
  | hdr _ hlt hrx =>
    have hlen := congrArg List.length hrx
    simp only [List.length_append, List.length_nil] at hlen
    omega
  | payload _ hlt hrx =>
    have hlen := congrArg List.length hrx
    simp only [List.length_append, List.length_nil] at hlen
    omega

theorem exists_more_of_reads {op : SwsOp} (h : Reads op = true) :
    ∃ n, op.rans.head? = some (.more n) := by
  unfold Reads at h
  split at h
  · exact ⟨_, by assumption⟩
  · cases h

theorem step_yields (t : Transport) (opts : SockOpts) {snd : Bool} (client : Bool) {op : SwsOp}
    (hop : Feeds op) {s : SwsRun} {items : List Item} (hx : Reading snd s.sws)
    (hat : At snd s.sws s.rx items) (hfits : ∀ it ∈ items, it.Fits opts) :
    ∃ s' items' res, (SwsRun.system t opts client).step s op = some s' ∧ Reading snd s'.sws ∧
      At snd s'.sws s'.rx items' ∧ items' <:+ items ∧ s'.results = s.results ++ [res] ∧
      Yields items items' res ∧
      s'.rx.length ≤ s.rx.length ∧ (Reads op = true → s'.rx = [] ∨ s'.rx.length < s.rx.length) := by
  have hrx : s.rx ++ op.arrive = s.rx := by rw [hop.arrive, List.append_nil]
  obtain ⟨res, y, d, mid, hrecv, hm, haty, hsuf, hy⟩ := recv_yields t opts hx
    (c := s.port op) ⟨hop.rans, hop.pongs⟩ (by simpa only [SwsRun.port, hrx] using hat) hfits
  have hstep : (SwsRun.system t opts client).step s op =
      some { s.put y d with results := s.results ++ [res] } := by
    simp only [SwsRun.system, SwsRun.step, hop.call, hrecv]
  have hshort : d.port.rx <:+ s.rx := by simpa only [SwsRun.port, hrx] using hm.suffix
  refine ⟨_, mid, res, hstep, hm.reading, haty, hsuf, rfl, hy, hshort.length_le, fun hread => ?_⟩
  show d.port.rx = [] ∨ d.port.rx.length < s.rx.length
  by_cases hempty : s.rx = []
  · rw [hempty] at hshort
    exact Or.inl (List.suffix_nil.mp hshort)
  · have hne : d.port.rx ≠ s.rx := by
      simpa only [SwsRun.port, hrx] using
        hm.progress ⟨exists_more_of_reads hread, by simpa only [SwsRun.port, hrx] using hempty⟩
    exact Or.inr (lt_of_le_of_ne hshort.length_le fun h => hne (hshort.eq_of_length h))

theorem run_yields (t : Transport) (opts : SockOpts) {snd : Bool} (client : Bool)
    {ops : List SwsOp} (hops : ∀ op ∈ ops, Feeds op) {s : SwsRun} {items : List Item}
    (hx : Reading snd s.sws) (hat : At snd s.sws s.rx items)
    (hfits : ∀ it ∈ items, it.Fits opts) :
    ∃ s' items' rs, (SwsRun.system t opts client).run s ops = some s' ∧
      At snd s'.sws s'.rx items' ∧ s'.results = s.results ++ rs ∧
      (∀ r ∈ rs, r = .error .EAGAIN ∨ ∃ body, r = .ok body) ∧
      bodies items = received rs ++ bodies items' ∧
      (s'.rx = [] ∨ s'.rx.length + ops.countP Reads ≤ s.rx.length) := by
  induction ops generalizing s items with
  | nil =>
    exact ⟨s, items, [], rfl, hat, (List.append_nil _).symm, nofun, rfl, Or.inr (by simp)⟩
  | cons op ops ih =>
    obtain ⟨hop, hops⟩ := List.forall_mem_cons.mp hops
    obtain ⟨s₁, mid, res, hstep, hx₁, hat₁, hsuf, hres₁, hy, hle, hless⟩ :=
      step_yields t opts client hop hx hat hfits
    obtain ⟨s', items', rs, hrun, hat', hres, hrs, hbodies, hprog⟩ :=
      ih hops hx₁ hat₁ fun it hit => hfits it (hsuf.subset hit)
    refine ⟨s', items', res :: rs, ?_, hat', ?_, ?_, ?_, ?_⟩
    · rw [System.run, hstep]
      exact hrun
    · rw [hres, hres₁, List.append_assoc]
      rfl
    · refine List.forall_mem_cons.mpr ⟨?_, hrs⟩
      cases hy with
      | again => exact Or.inl rfl
      | body => exact Or.inr ⟨_, rfl⟩
    · cases hy with
      | again h =>
        rw [h, hbodies]
        rfl
      | body h =>
        rw [h, hbodies]
        rfl
    · rw [List.countP_cons]
      rcases hprog with hnil | hlen
      · exact Or.inl hnil
      split_ifs with hread
      · rcases hless hread with hnil | hlt
        · left
          rw [hnil, List.length_nil] at hlen
          exact List.eq_nil_of_length_eq_zero (by omega)
        · exact Or.inr (by omega)
      · exact Or.inr (by omega)

/-- **The WebSocket codec round trip.**  A session of the other role is fed the frames of
any messages with any control frames between them, masked (`snd = true`, client to server)
or not.  However the stream is cut into fragments and would-blocks, its calls of
`mb_sws_recv` give no error but `-EAGAIN`, what they return are the bodies in order, and all
of them once the stream is read; every call that finds a fragment reads on in it.
SRC: sws.c:107-112, 185-246, 584-912 -/
theorem ws_round_trip (t : Transport) (opts : SockOpts) (snd : Bool) (items : List Item)
    (hfits : ∀ it ∈ items, it.Fits opts) (ops : List SwsOp) (hops : ∀ op ∈ ops, Feeds op) :
    ∃ s, (SwsRun.system t opts (!snd)).run { SwsRun.init (!snd) with rx := wire snd items } ops =
        some s ∧
      (∀ r ∈ s.results, r = .error .EAGAIN ∨ ∃ body, r = .ok body) ∧
      received s.results <+: bodies items ∧
      (s.rx = [] → received s.results = bodies items) ∧
      ((wire snd items).length ≤ ops.countP Reads → s.rx = []) := by
  have hinit : Reading snd (SwsRun.init (!snd)).sws := ⟨rfl, rfl, rfl, rfl⟩
  obtain ⟨s, items', rs, hrun, hat, hres, hrs, hbodies, hprog⟩ := run_yields t opts (!snd) hops
    (s := { SwsRun.init (!snd) with rx := wire snd items }) hinit (.boundary rfl rfl) hfits
  have hresults : s.results = rs := hres
  refine ⟨s, hrun, ?_, ?_, ?_, ?_⟩
  · rw [hresults]
    exact hrs
  · rw [hresults, hbodies]
    exact List.prefix_append _ _
  · intro hnil
    rw [hnil] at hat
    rw [hresults, hbodies, hat.eq_nil]
    exact (List.append_nil _).symm
  · intro hlen
    rcases hprog with hnil | hle
    · exact hnil
    · exact List.eq_nil_of_length_eq_zero (by simp only at hle; omega)

/-- Two messages of a client and a PING between them. -/
def pingBetween : List Item :=
  [.msg ⟨1, 2, 3, 4⟩ [7], .ping ⟨5, 6, 7, 8⟩ [], .msg ⟨9, 10, 11, 12⟩ []]

/-- They are read in fragments, with a would-block in the first header. -/
def pingBetweenOps : List SwsOp :=
  let op (rans : List (Answer (Option ℕ))) : SwsOp := ⟨.recv true, [], [], rans, [], default, []⟩
  [op [.more 1, .block], op [.more 9, .more 3, .more 9, .more 9],
    op [.more 9, .more 9, .more 9, .more 9, .more 9]]

/-- The server reads both messages. -/
theorem ws_round_trip_pingBetween :
    ∃ s, (SwsRun.system .sipc ⟨-1, 1⟩ false).run
        { SwsRun.init false with rx := wire true pingBetween } pingBetweenOps = some s ∧
      received s.results = [[7], []] := by
  obtain ⟨s, hrun, _, _, hall, _⟩ := ws_round_trip .sipc ⟨-1, 1⟩ true pingBetween
    (by simp [pingBetween, Item.Fits, SockOpts.msgTooLarge, intMax]) pingBetweenOps
    (by
      intro op hop
      simp only [pingBetweenOps, List.mem_cons, List.not_mem_nil, or_false] at hop
      rcases hop with rfl | rfl | rfl <;>
        exact ⟨rfl, rfl, by simp [Calm, Answer.Calm], fun _ he => absurd he List.not_mem_nil⟩)
  refine ⟨s, hrun, hall ?_⟩
  have hread : ((SwsRun.system .sipc ⟨-1, 1⟩ false).run
      { SwsRun.init false with rx := wire true pingBetween } pingBetweenOps).map SwsRun.rx =
        some [] := rfl
  exact Option.some.inj ((congrArg (Option.map SwsRun.rx) hrun).symm.trans hread)

end MsgBroker.Analysis.WsTrip
