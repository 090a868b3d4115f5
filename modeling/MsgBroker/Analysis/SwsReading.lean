import MsgBroker.Analysis.StreamSpec
import MsgBroker.Analysis.WsFrameSpec
import MsgBroker.Model.SwsRun

/-!
# Reading WebSocket frames

The frames of a stream, and where in the stream the decoder is.
-/

set_option autoImplicit false

namespace MsgBroker.Analysis.WsTrip

open Lib Model

/-! ## The stream -/

/-- What is sent: a message, or a control frame between messages. -/
inductive Item where
  | msg (key : MaskKey) (body : List UInt8)
  | ping (key : MaskKey) (payload : List UInt8)
  | pong (key : MaskKey) (payload : List UInt8)

namespace Item

def opcode : Item → Opcode
  | msg _ _ => .BINARY
  | ping _ _ => .PING
  | pong _ _ => .PONG

def key : Item → MaskKey
  | msg key _ | ping key _ | pong key _ => key

/-- The payload before masking. -/
def data : Item → List UInt8
  | msg _ body => dataPayload body
  | ping _ payload | pong _ payload => payload

def body? : Item → Option (List UInt8)
  | msg _ body => some body
  | _ => none

/-- The decoder state in which the payload is read. -/
def instate : Item → SwsInState
  | msg _ _ => .BODY
  | _ => .CTRL

/-- The frame as the sender builds it. -/
def bytes (snd : Bool) (it : Item) : List UInt8 := buildFrame snd it.key it.opcode it.data

def hdr (snd : Bool) (it : Item) : List UInt8 := frameHdr snd it.key it.opcode it.data.length

def payload (snd : Bool) (it : Item) : List UInt8 := framePayload snd it.key it.data

theorem bytes_eq (snd : Bool) (it : Item) : it.bytes snd = it.hdr snd ++ it.payload snd := rfl

/-- The sizes that may be sent: bodies that fit an `int` with their length and the
receiver's `MB_RCVMAXSIZE`, control payloads of at most 125 bytes. -/
def Fits (opts : SockOpts) : Item → Prop
  | msg _ body => 4 + body.length ≤ intMax ∧ opts.msgTooLarge body.length = false
  | ping _ payload | pong _ payload => payload.length ≤ 125

theorem Fits.le {opts : SockOpts} {it : Item} (h : it.Fits opts) :
    it.data.length ≤ intMax := by
  cases it with
  | msg key body => simpa [data, dataPayload] using h.1
  | ping key payload => exact le_trans h (by decide)
  | pong key payload => exact le_trans h (by decide)

end Item

/-- The stream of the items. -/
def wire (snd : Bool) (items : List Item) : List UInt8 := items.flatMap (Item.bytes snd)

/-- The bodies among the items. -/
def bodies (items : List Item) : List (List UInt8) := items.filterMap Item.body?

/-- The messages among the results of `recv`. -/
def received (results : List (Except Errno (List UInt8))) : List (List UInt8) :=
  results.filterMap fun r => r.toOption

/-! ## Where the decoder is -/

/-- A session that has nothing to write. -/
structure Reading (snd : Bool) (x : Sws) : Prop where
  role : x.isClient = !snd
  isOpen : x.isOpen = true
  noData : x.outbuf = none
  noPong : x.pendingPong = false

/-- Reads never fail, and a PONG that is asked for is written. -/
structure Feeding (c : SwsPort) : Prop where
  rans : Calm c.port.rans
  pongs : ∀ e ∈ c.pongs, e.alloc = true ∧ Calm e.ans ∧ Persists true e.ans

/-- The decoder has read the header of the item. -/
structure InFrame (snd : Bool) (it : Item) (x : Sws) : Prop where
  instate : x.instate = it.instate
  inhdr : x.inhdr = it.hdr snd
  payloadLen : x.payloadLen = it.data.length
  key : snd = true → x.maskKey = it.key
  inlen : it.instate = .CTRL → x.inlen = it.opcode.code

/-- Where the decoder is in the stream of the items still to be decoded. -/
inductive At (snd : Bool) (x : Sws) (rx : List UInt8) : List Item → Prop where
  | done (hstate : x.instate = .HDR) (hhdr : x.inhdr = []) (hrx : rx = []) : At snd x rx []
  | hdr {it : Item} {rest : List Item} (hstate : x.instate = .HDR)
      (hlt : x.inhdr.length < (it.hdr snd).length)
      (hrx : x.inhdr ++ rx = it.hdr snd ++ (it.payload snd ++ wire snd rest)) :
      At snd x rx (it :: rest)
  | payload {it : Item} {rest : List Item} (hframe : InFrame snd it x)
      (hlt : x.inmsg.length < (it.payload snd).length)
      (hrx : x.inmsg ++ rx = it.payload snd ++ wire snd rest) : At snd x rx (it :: rest)

theorem hdr_length_pos (snd : Bool) (it : Item) : 2 ≤ (it.hdr snd).length := by
  rw [Item.hdr, frameHdr_eq]
  simp

theorem At.boundary {snd : Bool} {x : Sws} {items : List Item} (hstate : x.instate = .HDR)
    (hhdr : x.inhdr = []) : At snd x (wire snd items) items := by
  cases items with
  | nil => exact .done hstate hhdr rfl
  | cons it rest =>
    have hpos := hdr_length_pos snd it
    refine .hdr hstate (by rw [hhdr, List.length_nil]; omega) ?_
    rw [hhdr, wire, List.flatMap_cons, Item.bytes_eq, List.append_assoc]
    rfl

/-- The session and the connection after a part of a call: a leading part of the unread
bytes was read, and a non-empty one where `strict`. -/
structure Moved (snd : Bool) (strict : Prop) (c : SwsPort) (x' : Sws) (c' : SwsPort) : Prop where
  reading : Reading snd x'
  feeding : Feeding c'
  suffix : c'.port.rx <:+ c.port.rx
  progress : strict → c'.port.rx ≠ c.port.rx

/-- What a part of a call leads to: it blocks, it returns the next body, or it goes on
behind a control frame. -/
inductive Outcome (snd : Bool) (strict : Prop) (c : SwsPort) (items : List Item) :
    Sws.Flow → Prop where
  | again {x' : Sws} {c' : SwsPort} (h : Moved snd strict c x' c')
      (hat : At snd x' c'.port.rx items) :
      Outcome snd strict c items (.ret (.error .EAGAIN) x' c')
  | body {x' : Sws} {c' : SwsPort} {key : MaskKey} {body : List UInt8} {rest : List Item}
      (hitems : items = .msg key body :: rest) (h : Moved snd strict c x' c')
      (hat : At snd x' c'.port.rx rest) : Outcome snd strict c items (.ret (.ok body) x' c')
  | ctrl {x' : Sws} {c' : SwsPort} {it : Item} {rest : List Item}
      (hitems : items = it :: rest) (hctrl : it.body? = none) (h : Moved snd strict c x' c')
      (hat : At snd x' c'.port.rx rest) : Outcome snd strict c items (.next x' c')

theorem ne_of_suffix {α : Type} {l l' l'' : List α} (h : l'' <:+ l') (h' : l' <:+ l)
    (hne : l' ≠ l) : l'' ≠ l := by
  intro heq
  subst heq
  exact hne (h'.eq_of_length (le_antisymm h'.length_le h.length_le))

theorem Moved.after {snd : Bool} {strict strict' : Prop} {c d : SwsPort} {x' : Sws}
    {c' : SwsPort} (h : Moved snd strict d x' c') (hsuf : d.port.rx <:+ c.port.rx)
    (hstrict : strict' → d.port.rx ≠ c.port.rx ∨ d.port.rx = c.port.rx ∧ strict) :
    Moved snd strict' c x' c' where
  reading := h.reading
  feeding := h.feeding
  suffix := h.suffix.trans hsuf
  progress hs := by
    rcases hstrict hs with hne | ⟨heq, hst⟩
    · exact ne_of_suffix h.suffix hsuf hne
    · rw [← heq]
      exact h.progress hst

theorem Outcome.after {snd : Bool} {strict strict' : Prop} {c d : SwsPort} {items : List Item}
    {f : Sws.Flow} (h : Outcome snd strict d items f) (hsuf : d.port.rx <:+ c.port.rx)
    (hstrict : strict' → d.port.rx ≠ c.port.rx ∨ d.port.rx = c.port.rx ∧ strict) :
    Outcome snd strict' c items f := by
  cases h with
  | again hm hat => exact .again (hm.after hsuf hstrict) hat
  | body hitems hm hat => exact .body hitems (hm.after hsuf hstrict) hat
  | ctrl hitems hctrl hm hat => exact .ctrl hitems hctrl (hm.after hsuf hstrict) hat

/-! ## Reading -/

section Read

variable (t : Transport) {snd : Bool} {x : Sws} {c : SwsPort}

theorem readInto_calm (rans left : List (Answer (Option ℕ))) (need : ℕ)
    (put : List UInt8 → Sws) (hopen : x.isOpen = true) (hr : Calm rans) (hl : Calm left) :
    ∃ got rx rans', c.port.rx = got ++ rx ∧ Calm rans' ∧
      (got.length = need ∧ Sws.readInto t rans left need put x c =
          .next (put got) { c with port := { c.port with rx := rx, rans := rans' } } ∨
        got.length < need ∧ Sws.readInto t rans left need put x c =
          .ret (.error .EAGAIN) (put got)
            { c with port := { c.port with rx := rx, rans := rans' } }) ∧
      ∀ n, rans.head? = some (.more n) → 0 < need → c.port.rx ≠ [] → got ≠ [] := by
  obtain ⟨hsplit, hle, hdone⟩ := readLoop_split rans need c.port.rx
  obtain ⟨hstop, hcalm⟩ := readLoop_calm rans need c.port.rx hr
  have hprog : ∀ n, rans.head? = some (.more n) → 0 < need → c.port.rx ≠ [] →
      (readLoop rans need c.port.rx).1 ≠ [] := fun n => readLoop_ne_nil
  unfold Sws.readInto
  simp only [hopen, Bool.not_true, Bool.false_eq_true, if_false]
  rcases hx : readLoop rans need c.port.rx with ⟨got, ending, rx, rest⟩
  rw [hx] at hsplit hle hdone hstop hcalm hprog
  simp only at hsplit hle hdone hstop hcalm hprog
  refine ⟨got, rx, rest ++ left, hsplit, hcalm.append hl, ?_, hprog⟩
  cases ending with
  | done => exact Or.inl ⟨hdone.mp rfl, rfl⟩
  | block =>
    right
    have hne : got.length ≠ need := fun heq => by cases hdone.mpr heq
    exact ⟨by omega, rfl⟩
  | stop f => exact absurd rfl (hstop f)

/-- What filling a buffer up to `target` leads to, where the stream goes on with `tail`:
the buffer is full, or the call blocks with a part of it. -/
inductive Filled (strict : Prop) (c : SwsPort) (target tail : List UInt8)
    (put : List UInt8 → Sws) : Sws.Flow → Prop where
  | full {d : SwsPort} (h : Feeding d) (hsuf : d.port.rx <:+ c.port.rx)
      (hprog : strict → d.port.rx ≠ c.port.rx) (hrx : d.port.rx = tail) :
      Filled strict c target tail put (.next (put target) d)
  | part {d : SwsPort} {held : List UInt8} (h : Feeding d) (hsuf : d.port.rx <:+ c.port.rx)
      (hprog : strict → d.port.rx ≠ c.port.rx) (hlt : held.length < target.length)
      (hrx : held ++ d.port.rx = target ++ tail) :
      Filled strict c target tail put (.ret (.error .EAGAIN) (put held) d)

theorem readInto_fill (rans left : List (Answer (Option ℕ))) {need : ℕ}
    {held target tail : List UInt8} (put : List UInt8 → Sws) (hopen : x.isOpen = true)
    (h : Feeding c) (hr : Calm rans) (hl : Calm left)
    (hneed : held.length + need = target.length) (hpos : 0 < need)
    (hrx : held ++ c.port.rx = target ++ tail) :
    Filled ((∃ n, rans.head? = some (.more n)) ∧ c.port.rx ≠ []) c target tail put
      (Sws.readInto t rans left need (fun got => put (held ++ got)) x c) := by
  obtain ⟨got, rx, rans', hgot, hcalm, hcases, hprog⟩ :=
    readInto_calm t (c := c) rans left need (fun got => put (held ++ got)) hopen hr hl
  have hsplit : (held ++ got) ++ rx = target ++ tail := by
    rw [List.append_assoc, ← hgot, hrx]
  have hmoved : (∃ n, rans.head? = some (.more n)) ∧ c.port.rx ≠ [] → rx ≠ c.port.rx := by
    rintro ⟨⟨n, hn⟩, hne⟩ heq
    have hnone : got ++ rx = [] ++ rx := by rw [List.nil_append, ← hgot, heq]
    exact hprog n hn hpos hne (List.append_cancel_right hnone)
  rcases hcases with ⟨hlen, hnext⟩ | ⟨hlt, hblock⟩
  · obtain ⟨htarget, htail⟩ := List.append_inj hsplit (by rw [List.length_append]; omega)
    rw [hnext, htarget]
    exact .full ⟨hcalm, h.pongs⟩ ⟨got, hgot.symm⟩ hmoved htail
  · rw [hblock]
    exact .part ⟨hcalm, h.pongs⟩ ⟨got, hgot.symm⟩ hmoved (by rw [List.length_append]; omega) hsplit

theorem Filled.after {strict strict' : Prop} {d : SwsPort} {target tail : List UInt8}
    {put : List UInt8 → Sws} {f : Sws.Flow} (h : Filled strict d target tail put f)
    (hsuf : d.port.rx <:+ c.port.rx)
    (hstrict : strict' → d.port.rx ≠ c.port.rx ∨ d.port.rx = c.port.rx ∧ strict) :
    Filled strict' c target tail put f := by
  have hprog : ∀ e : SwsPort, e.port.rx <:+ d.port.rx → (strict → e.port.rx ≠ d.port.rx) →
      strict' → e.port.rx ≠ c.port.rx := by
    intro e hs hp hst
    rcases hstrict hst with hne | ⟨heq, hst'⟩
    · exact ne_of_suffix hs hsuf hne
    · rw [← heq]
      exact hp hst'
  cases h with
  | full hd hs hp hrx => exact .full hd (hs.trans hsuf) (hprog _ hs hp) hrx
  | part hd hs hp hlt hrx => exact .part hd (hs.trans hsuf) (hprog _ hs hp) hlt hrx

theorem Filled.andThen {strict : Prop} {target tail : List UInt8} {put : List UInt8 → Sws}
    {f : Sws.Flow} {P : Sws.Flow → Prop} (h : Filled strict c target tail put f)
    (k : Sws → SwsPort → Sws.Flow)
    (hfull : ∀ d, Feeding d → d.port.rx <:+ c.port.rx → (strict → d.port.rx ≠ c.port.rx) →
      d.port.rx = tail → P (k (put target) d))
    (hpart : ∀ d held, Feeding d → d.port.rx <:+ c.port.rx → (strict → d.port.rx ≠ c.port.rx) →
      held.length < target.length → held ++ d.port.rx = target ++ tail →
      P (.ret (.error .EAGAIN) (put held) d)) : P (f.andThen k) := by
  cases h with
  | full hd hs hp hrx => exact hfull _ hd hs hp hrx
  | part hd hs hp hlt hrx => exact hpart _ _ hd hs hp hlt hrx

end Read

/-! ## The header -/

section Header

variable (t : Transport) (opts : SockOpts) {snd : Bool} {x : Sws} {c : SwsPort} {it : Item}
  {tail : List UInt8}

theorem need_of_two {rx : List UInt8} (htwo : 2 ≤ x.inhdr.length)
    (hrx : x.inhdr ++ rx = it.hdr snd ++ tail) : x.need = (it.hdr snd).length := by
  refine need_eq ?_
  have hleft : (x.inhdr ++ rx).getD 1 0 = x.inhdr.getD 1 0 := List.getD_append _ _ _ _ (by omega)
  rw [← hleft, hrx, Item.hdr, frameHdr_eq]
  rfl

theorem readHdr_rest (hopen : x.isOpen = true) (h : Feeding c) (htwo : 2 ≤ x.inhdr.length)
    (hle : x.inhdr.length ≤ (it.hdr snd).length)
    (hrx : x.inhdr ++ c.port.rx = it.hdr snd ++ tail) :
    Filled (x.inhdr.length < (it.hdr snd).length ∧ (∃ n, c.port.rans.head? = some (.more n)) ∧
        c.port.rx ≠ []) c (it.hdr snd) tail (fun hdr => { x with inhdr := hdr })
      (Sws.readHdr t x c) := by
  have hneed := need_of_two htwo hrx
  unfold Sws.readHdr
  rw [if_neg (by omega)]
  simp only [Sws.Flow.andThen]
  split_ifs with hlt
  · have hfill := readInto_fill t c.port.rans [] (fun hdr => { x with inhdr := hdr }) hopen h
      h.rans (by simp [Calm]) (show x.inhdr.length + (x.need - x.inhdr.length) = _ by omega)
      (by omega) hrx
    exact hfill.after List.suffix_rfl fun h' => Or.inr ⟨rfl, h'.2⟩
  · obtain ⟨hhdr, htail⟩ := List.append_inj hrx (by omega)
    rw [← hhdr]
    exact .full h List.suffix_rfl (fun h' => absurd h'.1 (by omega)) htail

/-- INTERNAL: **the header phase**: the header is complete, or the call blocks with a part of it. -/
theorem readHdr_filled (hopen : x.isOpen = true) (h : Feeding c)
    (hlt : x.inhdr.length < (it.hdr snd).length)
    (hrx : x.inhdr ++ c.port.rx = it.hdr snd ++ tail) :
    Filled ((∃ n, c.port.rans.head? = some (.more n)) ∧ c.port.rx ≠ []) c (it.hdr snd) tail
      (fun hdr => { x with inhdr := hdr }) (Sws.readHdr t x c) := by
  by_cases htwo : 2 ≤ x.inhdr.length
  · exact (readHdr_rest t hopen h htwo hlt.le hrx).after List.suffix_rfl
      fun hs => Or.inr ⟨rfl, hlt, hs⟩
  · -- the first two bytes are read with one call, and the rest as above
    have hsplit : it.hdr snd ++ tail = (it.hdr snd).take 2 ++ ((it.hdr snd).drop 2 ++ tail) := by
      rw [← List.append_assoc, List.take_append_drop]
    have hlen : ((it.hdr snd).take 2).length = 2 := by
      have := hdr_length_pos snd it
      rw [List.length_take]
      omega
    have htake : Calm (c.port.rans.take 1) := fun a ha => h.rans a (List.mem_of_mem_take ha)
    have hdrop : Calm (c.port.rans.drop 1) := fun a ha => h.rans a (List.mem_of_mem_drop ha)
    have hfill := readInto_fill t (c.port.rans.take 1) (c.port.rans.drop 1)
      (fun hdr => { x with inhdr := hdr }) hopen h htake hdrop
      (show x.inhdr.length + (2 - x.inhdr.length) = ((it.hdr snd).take 2).length by omega)
      (by omega) (hrx.trans hsplit)
    have hhead : (c.port.rans.take 1).head? = c.port.rans.head? := by
      cases c.port.rans <;> rfl
    rw [hhead] at hfill
    unfold Sws.readHdr
    rw [if_pos (by omega)]
    refine hfill.andThen _ ?_ ?_
    · intro d hd hsuf hprog htail
      have hle : ((it.hdr snd).take 2).length ≤ (it.hdr snd).length := List.length_take_le' _ _
      have hrest := readHdr_rest t (x := { x with inhdr := (it.hdr snd).take 2 }) hopen hd
        (le_of_eq hlen.symm) hle (by rw [htail, hsplit])
      unfold Sws.readHdr at hrest
      rw [if_neg (by simp only; omega)] at hrest
      exact hrest.after hsuf fun hs => Or.inl (hprog hs)
    · intro d held hd hsuf hprog hheld hsplit'
      exact .part hd hsuf hprog (by have := hdr_length_pos snd it; omega)
        (hsplit'.trans hsplit.symm)

theorem readHdr_empty (hopen : x.isOpen = true) (hcalm : Calm c.port.rans)
    (hhdr : x.inhdr = []) (hrx : c.port.rx = []) :
    ∃ rans, Calm rans ∧ Sws.readHdr t x c =
      .ret (.error .EAGAIN) x { c with port := { c.port with rx := [], rans := rans } } := by
  have htake : Calm (c.port.rans.take 1) := fun a ha => hcalm a (List.mem_of_mem_take ha)
  have hdrop : Calm (c.port.rans.drop 1) := fun a ha => hcalm a (List.mem_of_mem_drop ha)
  obtain ⟨got, rx, rans, hgot, hrans, hcases, _⟩ := readInto_calm t (c := c)
    (c.port.rans.take 1) (c.port.rans.drop 1) (2 - x.inhdr.length)
    (fun got => { x with inhdr := x.inhdr ++ got }) hopen htake hdrop
  rw [hrx] at hgot
  obtain ⟨rfl, rfl⟩ := List.append_eq_nil_iff.mp hgot.symm
  rcases hcases with ⟨hlen, _⟩ | ⟨_, hblock⟩
  · rw [hhdr] at hlen
    simp at hlen
  · refine ⟨rans, hrans, ?_⟩
    unfold Sws.readHdr
    rw [if_pos (by rw [hhdr]; decide), hblock]
    simp only [List.append_nil, Sws.Flow.andThen]

theorem readHdr_end (hopen : x.isOpen = true) (h : Feeding c) (hhdr : x.inhdr = [])
    (hrx : c.port.rx = []) :
    ∃ d, Feeding d ∧ d.port.rx = [] ∧ Sws.readHdr t x c = .ret (.error .EAGAIN) x d := by
  obtain ⟨rans, hrans, hread⟩ := readHdr_empty t hopen h.rans hhdr hrx
  refine ⟨{ c with port := { c.port with rx := [], rans := rans } }, ?_, rfl, hread⟩
  exact ⟨hrans, h.pongs⟩

theorem startFrame_eq (hx : Reading snd x) (hhdr : x.inhdr = it.hdr snd)
    (hfits : it.Fits opts) :
    ∃ y, Sws.startFrame t opts true x c = .next y c ∧ Reading snd y ∧ InFrame snd it y ∧
      y.inmsg = [] := by
  have hop := opcode_eq hhdr
  have hkey : snd = true → (if snd = true then it.key else x.maskKey) = it.key := fun h => if_pos h
  unfold Sws.startFrame
  rw [hdrError_none hhdr hx.role hfits.le, parseHdr_eq hhdr hfits.le, hop]
  generalize (if snd = true then it.key else x.maskKey) = key at hkey ⊢
  have hctrl : it.instate = .CTRL → it.data.length ≤ 125 →
      ∃ y, Sws.startCtrl t true { x with payloadLen := it.data.length, maskKey := key } c =
          .next y c ∧
        Reading snd y ∧ InFrame snd it y ∧ y.inmsg = [] := by
    intro hstate hle
    unfold Sws.startCtrl
    rw [if_neg (by simp only; omega), if_neg (by simp)]
    exact ⟨_, rfl, ⟨hx.role, hx.isOpen, hx.noData, hx.noPong⟩,
      ⟨hstate.symm, hhdr, rfl, hkey, fun _ => hop⟩, rfl⟩
  cases it with
  | msg key body =>
    obtain ⟨_, hsmall⟩ := hfits
    have hlen : (Item.data (.msg key body)).length = 4 + body.length := by
      simp [Item.data, dataPayload]
    rw [show (Item.msg key body).opcode = .BINARY from rfl, if_neg (by decide),
      if_neg (by decide)]
    unfold Sws.startBody
    have hok : ¬ ((Item.data (.msg key body)).length < 4 ∨
        opts.msgTooLarge ((Item.data (.msg key body)).length - 4) = true) := by
      rw [hlen, Nat.add_sub_cancel_left, hsmall]
      simp
    rw [if_neg hok, if_neg (by simp)]
    exact ⟨_, rfl, ⟨hx.role, hx.isOpen, hx.noData, hx.noPong⟩,
      ⟨rfl, hhdr, rfl, hkey, fun h => by cases h⟩, rfl⟩
  | ping key payload =>
    rw [show (Item.ping key payload).opcode = .PING from rfl, if_neg (by decide),
      if_pos (by decide)]
    exact hctrl rfl hfits
  | pong key payload =>
    rw [show (Item.pong key payload).opcode = .PONG from rfl, if_neg (by decide),
      if_pos (by decide)]
    exact hctrl rfl hfits

end Header

end MsgBroker.Analysis.WsTrip
