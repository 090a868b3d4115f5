import MsgBroker.Model.StreamRun
import MsgBroker.Model.SwsRun

/-!
# What the calls of a session can do

The sessions of `sipc.c`, `stls.c` and `sws.c` probe and send in the same way, each around its own
flush of `outbuf`.
-/

set_option autoImplicit false

namespace MsgBroker.Analysis.SessionCalls

open Lib Model

variable {σ κ : Type}

/-! ## Probes -/

/-- A probe leaves the session as it was, or as a flush leaves it. -/
def Probed (x : σ) (c : κ) (flushed : Rc × σ × κ) (r : Bool × σ × κ) : Prop :=
  r.2 = (x, c) ∨ r.2 = flushed.2

theorem Probed.keeps {x : σ} {c : κ} {flushed : Rc × σ × κ} {r : Bool × σ × κ}
    {P : σ × κ → Prop} (h : Probed x c flushed r) (hx : P (x, c)) (hf : P flushed.2) :
    P r.2 := by
  rcases h with h | h
  · exact h ▸ hx
  · exact h ▸ hf

/-- What `send` and `can_send` look at in a session: the connection is open, it got lost, `outbuf`
is empty, and the messages counted in `in_flight`. -/
structure Slot where
  isOpen : Bool
  disconnected : Bool
  idle : Bool
  inFlight : ℤ

namespace Slot

/-- The message in `outbuf`, if any, is the one counted. -/
def Balanced (s : Slot) : Prop := s.disconnected = false → s.inFlight = if s.idle then 0 else 1

/-- What `can_send` promises. -/
structure Ready (s : Slot) : Prop where
  isOpen : s.isOpen = true
  idle : s.idle = true
  inFlight : s.inFlight = 0

/-- What a flush returns and leaves behind. -/
structure Flushed (s : Slot) (rc : Rc) (s' : Slot) : Prop where
  balanced : s'.Balanced
  done : rc = .ok → s'.idle = true
  alive : rc = .ok ∨ rc = .again → s'.isOpen = s.isOpen ∧ s'.disconnected = s.disconnected

/-- INTERNAL: no message is in flight, so there is room for one. -/
theorem Ready.hasRoom {s : Slot} (h : s.Ready) (hwm : ℤ) : ¬ (hwm > 0 ∧ s.inFlight ≥ hwm) := by
  have hzero := h.inFlight
  omega

/-- INTERNAL: nothing is promised of a session that got lost. -/
theorem Balanced.of_down {s : Slot} (h : s.disconnected = true) : s.Balanced :=
  fun hs => absurd (h.symm.trans hs) Bool.noConfusion

/-- INTERNAL: a session that is up and has nothing in `outbuf` is ready. -/
theorem Balanced.ready {s : Slot} (h : s.Balanced) (hopen : s.isOpen = true)
    (hup : s.disconnected = false) (hidle : s.idle = true) : s.Ready :=
  ⟨hopen, hidle, by simpa [hidle] using h hup⟩

end Slot

section Shape

variable (slot : σ → Slot) (flushed : Rc × σ × κ) (poll : Bool) (x : σ) (c : κ)

/-- The shape of `can_send`. -/
def canSendOf : Bool × σ × κ :=
  if !(slot x).isOpen ∨ (slot x).disconnected then (false, x, c)
  else if (slot x).idle then (true, x, c)
  else if !poll then (false, x, c)
  else
    match flushed with
    | (.ok, y, d) | (.err .EAGAIN, y, d) => ((slot y).idle, y, d)
    | (.err _, y, d) => (false, y, d)

theorem canSendOf_probed : Probed x c flushed (canSendOf slot flushed poll x c) := by
  unfold canSendOf
  split_ifs
  · exact Or.inl rfl
  · exact Or.inl rfl
  · exact Or.inl rfl
  · right
    split <;> rfl

/-- INTERNAL: **where `can_send` says yes** the session is ready: `outbuf` is empty, or it has been
flushed to its end. -/
theorem canSendOf_ready (h : (slot x).Balanced)
    (hf : (slot x).Flushed flushed.1 (slot flushed.2.1))
    (hcan : (canSendOf slot flushed poll x c).1 = true) :
    (slot (canSendOf slot flushed poll x c).2.1).Ready := by
  unfold canSendOf at hcan ⊢
  split_ifs at hcan ⊢ with hdown hidle
  · have hup : (slot x).isOpen = true ∧ (slot x).disconnected = false := by simpa using hdown
    exact h.ready hup.1 hup.2 hidle
  · have hup : (slot x).isOpen = true ∧ (slot x).disconnected = false := by simpa using hdown
    have hready : ∀ rc y d, flushed = (rc, y, d) → rc = .ok ∨ rc = .again →
        (slot y).idle = true → (slot y).Ready := by
      rintro rc y d rfl hrc hidle
      obtain ⟨hopen', hup'⟩ := hf.alive hrc
      exact hf.balanced.ready (hopen'.trans hup.1) (hup'.trans hup.2) hidle
    split at hcan
    · exact hready _ _ _ rfl (Or.inl rfl) hcan
    · exact hready _ _ _ rfl (Or.inr rfl) hcan
    · cases hcan

end Shape

/-- The output slot of a session of `sipc.c` or `stls.c`. -/
def streamSlot (x : Stream) : Slot := ⟨x.isOpen, x.disconnected, x.outbuf.isNone, x.inFlight⟩

/-- The output slot of a session of `sws.c`. -/
def swsSlot (x : Sws) : Slot := ⟨x.isOpen, x.disconnected, x.outbuf.isNone, x.inFlight⟩

section Streams

variable (t : Transport) (cb : Stream → Port → Stream × Port) (poll : Bool) (x : Stream) (c : Port)

theorem stream_canSend_eq :
    Stream.canSend t cb poll x c = canSendOf streamSlot (Stream.flushOutbuf t cb x c) poll x c := by
  unfold Stream.canSend canSendOf
  rcases Stream.flushOutbuf t cb x c with ⟨_ | e, y, d⟩
  · rfl
  · cases e <;> rfl

theorem stream_hasMsg_probed :
    Probed x c (Stream.flushOutbuf t cb x c) (Stream.hasMsg t cb poll x c) := by
  unfold Stream.hasMsg
  split_ifs
  · exact Or.inl rfl
  · exact Or.inl rfl
  · right
    split <;> rename_i heq <;> rw [heq]

theorem stream_canSend_probed :
    Probed x c (Stream.flushOutbuf t cb x c) (Stream.canSend t cb poll x c) := by
  rw [stream_canSend_eq]
  exact canSendOf_probed _ _ _ x c

end Streams

section WebSockets

variable (t : Transport) (poll : Bool) (x : Sws) (c : SwsPort)

theorem sws_canSend_eq :
    Sws.canSend t poll x c = canSendOf swsSlot (Sws.flushOutbuf t x c) poll x c := by
  unfold Sws.canSend canSendOf
  rcases Sws.flushOutbuf t x c with ⟨_ | e, y, d⟩
  · rfl
  · cases e <;> rfl

theorem sws_hasMsg_probed : Probed x c (Sws.flushOutbuf t x c) (Sws.hasMsg t poll x c) := by
  unfold Sws.hasMsg
  split_ifs
  · exact Or.inl rfl
  · exact Or.inl rfl
  · right
    split <;> rename_i heq <;> rw [heq]

theorem sws_canSend_probed : Probed x c (Sws.flushOutbuf t x c) (Sws.canSend t poll x c) := by
  rw [sws_canSend_eq]
  exact canSendOf_probed _ _ _ x c

end WebSockets

/-! ## Sending -/

/-- The parts of sending: `count` is the session with a refusal counted, `accept` the one with the
message in `outbuf`, and `finish` what is done once it is written. -/
structure Outlet (σ κ : Type) where
  hwm : ℤ
  inFlight : σ → ℤ
  count : σ → σ
  accept : σ → σ
  flush : σ → κ → Rc × σ × κ
  finish : σ → κ → σ × κ

/-- How a message fares behind the first flush. -/
inductive Sends (o : Outlet σ κ) : Rc × σ × κ → Rc × σ × κ → Prop
  | blocked (x : σ) (c : κ) :
    Sends o (.again, x, c) (.again, if o.hwm > 0 then o.count x else x, c)
  | failed (e : Errno) (x : σ) (c : κ) (he : e ≠ .EAGAIN) : Sends o (.err e, x, c) (.err e, x, c)
  | refused (e : Errno) (x : σ) (c : κ) (he : e ≠ .EAGAIN) : Sends o (.ok, x, c) (.err e, x, c)
  | full (x : σ) (c : κ) (h : o.hwm > 0 ∧ o.inFlight x ≥ o.hwm) :
    Sends o (.ok, x, c) (.again, o.count x, c)
  | held (x y : σ) (c d : κ) (h : o.flush (o.accept x) c = (.again, y, d)) :
    Sends o (.ok, x, c) (.ok, y, d)
  | lost (e : Errno) (x y : σ) (c d : κ) (he : e ≠ .EAGAIN)
      (h : o.flush (o.accept x) c = (.err e, y, d)) : Sends o (.ok, x, c) (.err e, y, d)
  | written (x y : σ) (c d : κ) (h : o.flush (o.accept x) c = (.ok, y, d)) :
    Sends o (.ok, x, c) (.ok, o.finish y d)

section Sends

variable {o : Outlet σ κ} {flushed r : Rc × σ × κ}

theorem Sends.keeps {P : σ → Prop} (h : Sends o flushed r) (hflushed : P flushed.2.1)
    (hcount : ∀ x, P x → P (o.count x)) (haccept : flushed.1 = .ok → P (o.accept flushed.2.1))
    (hflush : ∀ x c, P x → P (o.flush x c).2.1) (hfinish : ∀ x c, P x → P (o.finish x c).1) :
    P r.2.1 := by
  have hsent : ∀ {x y : σ} {c d : κ} {rc : Rc}, o.flush (o.accept x) c = (rc, y, d) →
      P (o.accept x) → P y := by
    intro x y c d rc heq hx
    have hy := hflush _ c hx
    rwa [heq] at hy
  cases h with
  | blocked x c =>
    dsimp only
    split_ifs
    · exact hcount x hflushed
    · exact hflushed
  | failed => exact hflushed
  | refused => exact hflushed
  | full x c => exact hcount x hflushed
  | held x y c d heq => exact hsent heq (haccept rfl)
  | lost e x y c d he heq => exact hsent heq (haccept rfl)
  | written x y c d heq => exact hfinish y d (hsent heq (haccept rfl))

/-- INTERNAL: the count goes up with the message that is put in `outbuf`, and down with the one that
is written. -/
theorem Sends.balanced {slot : σ → Slot} {s : Slot} (h : Sends o flushed r)
    (hf : s.Flushed flushed.1 (slot flushed.2.1)) (hcount : ∀ x, slot (o.count x) = slot x)
    (haccept : ∀ x, slot (o.accept x) =
      { slot x with idle := false, inFlight := (slot x).inFlight + 1 })
    (hflush : ∀ x c, (slot x).Balanced → (slot (o.flush x c).2.1).Balanced)
    (hfinish : ∀ x c, (slot x).Balanced → (slot (o.finish x c).1).Balanced) :
    (slot r.2.1).Balanced := by
  refine h.keeps (P := fun x => (slot x).Balanced) hf.balanced (fun x hx => ?_) (fun hok => ?_)
    hflush hfinish
  · rw [hcount]
    exact hx
  · rw [haccept]
    intro hup
    have hzero := hf.balanced hup
    rw [hf.done hok] at hzero
    simpa using hzero

theorem Sends.ne_again (h : Sends o flushed r) (hok : flushed.1 = .ok)
    (hroom : ¬(o.hwm > 0 ∧ o.inFlight flushed.2.1 ≥ o.hwm)) : r.1 ≠ .again := by
  cases h with
  | blocked => cases hok
  | failed => cases hok
  | refused e x c he => exact fun hrc => he (Rc.err.inj hrc)
  | full x c hfull => exact absurd hfull hroom
  | held => nofun
  | lost e x y c d he => exact fun hrc => he (Rc.err.inj hrc)
  | written => nofun

end Sends

/-- The parts of `mb_sipc_send` and `mb_stls_send`.  SRC: sipc.c:318-383, stls.c:338-401 -/
def streamOutlet (t : Transport) (cb : Stream → Port → Stream × Port) (opts : SockOpts)
    (body : List UInt8) : Outlet Stream Port where
  hwm := opts.hwm
  inFlight := Stream.inFlight
  count := Stream.countRefused
  accept y := { y with
    outbuf := some (putUint32 body.length ++ body)
    outpos := 0
    inFlight := y.inFlight + 1 }
  flush := Stream.flushOutbuf t cb
  finish := Prod.mk

/-- The parts of `mb_sws_send`.  SRC: sws.c:515-581 -/
def swsOutlet (t : Transport) (opts : SockOpts) (body : List UInt8) (env : FrameEnv) :
    Outlet Sws SwsPort where
  hwm := opts.hwm
  inFlight := Sws.inFlight
  count := Sws.countRefused
  accept y := { y with
    outbuf := some (buildFrame y.isClient env.key .BINARY (dataPayload body))
    outpos := 0
    inFlight := y.inFlight + 1 }
  flush := Sws.flushOutbuf t
  finish y d := (Sws.flushPendingPong t y d).2

theorem stream_send_sends (t : Transport) (cb : Stream → Port → Stream × Port) (opts : SockOpts)
    (body : List UInt8) (alloc : Bool) {x : Stream} (c : Port) (hopen : x.isOpen = true) :
    Sends (streamOutlet t cb opts body) (Stream.flushOutbuf t cb x c)
      (Stream.send t cb opts body alloc x c) := by
  unfold Stream.send
  simp only [hopen, Bool.not_true, Bool.false_eq_true, if_false]
  split
  · rename_i heq
    rw [heq]
    exact .blocked _ _
  · rename_i hne heq
    rw [heq]
    exact .failed _ _ _ hne
  · rename_i y d heq
    rw [heq]
    split_ifs with hbig hmax hfull
    · exact .refused _ y d (by decide)
    · exact .refused _ y d (by decide)
    · exact .full y d hfull
    · exact .refused _ y d (by decide)
    · split
      · rename_i heq'
        exact .held y _ d _ heq'
      · rename_i hne
        let o := streamOutlet t cb opts body
        show Sends o (.ok, y, d) (o.flush (o.accept y) d)
        rcases heq' : o.flush (o.accept y) d with ⟨_ | e, z, d'⟩
        · exact .written y z d d' heq'
        · refine .lost e y z d d' (fun he => hne z d' ?_) heq'
          rw [← he]
          exact heq'

theorem sws_sendData_sends (t : Transport) (opts : SockOpts) (body : List UInt8) (alloc : Bool)
    (env : FrameEnv) (x : Sws) (c : SwsPort) :
    Sends (swsOutlet t opts body env) (Sws.flushOutbuf t x c)
      (Sws.sendData t opts body alloc env x c) := by
  unfold Sws.sendData
  split
  · rename_i heq
    rw [heq]
    exact .blocked _ _
  · rename_i hne heq
    rw [heq]
    exact .failed _ _ _ hne
  · rename_i y d heq
    rw [heq]
    split_ifs with hbig halloc hfull
    · exact .refused _ y d (by decide)
    · exact .refused _ y d (by decide)
    · exact .full y d hfull
    · exact .refused _ y d (by decide)
    · dsimp only
      split
      all_goals rename_i heq'
      · exact .held y _ d _ heq'
      · exact .lost _ y _ d _ (by assumption) heq'
      · exact .written y _ d _ heq'

end MsgBroker.Analysis.SessionCalls
