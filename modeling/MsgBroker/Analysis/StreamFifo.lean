import MsgBroker.Analysis.StreamSpec

/-!
# Stream sessions are reliable FIFO channels

A pair of sessions is related to the queue of the bodies accepted at one end and not yet handed out
at the other: the bytes of that queue's frames are, in order, those the receiver holds, those on the
wire and those the sender has still to write (`Channel`).
-/

set_option autoImplicit false

namespace MsgBroker.Analysis

open Lib Model

/-- The queue between a sender `y` and a receiver `x` joined by `wire`: the bodies `sent`
and not `got`, as bytes on their way. -/
def Channel (opts : SockOpts) (x y : Stream) (wire : List UInt8)
    (sent got : List (List UInt8)) : Prop :=
  ∃ pending, sent = got ++ pending ∧ (∀ b ∈ pending, Permitted opts b) ∧
    partialIn x ++ (wire ++ unsent y) = frames putUint32 pending

/-- Both sessions are live and both directions are queues. -/
structure PairInv (opts : Bool → SockOpts) (s : StreamPair) : Prop where
  live : ∀ i, Live (s.ends i)
  channel : ∀ i, Channel (opts (!i)) (s.ends (!i)) (s.ends i) (s.wire i) (s.sent i)
    (s.got (!i))

section Channel

variable {opts : SockOpts} {x x' y y' : Stream} {wire wire' : List UInt8}
  {sent got : List (List UInt8)}

theorem Channel.flush (h : Channel opts x y wire sent got)
    (htx : wire' ++ unsent y' = wire ++ unsent y) : Channel opts x y' wire' sent got := by
  obtain ⟨pending, h1, h2, h3⟩ := h
  exact ⟨pending, h1, h2, by rw [htx, h3]⟩

theorem Channel.push (h : Channel opts x y wire sent got) {body : List UInt8}
    (hb : Permitted opts body)
    (htx : wire' ++ unsent y' = wire ++ (unsent y ++ frame putUint32 body)) :
    Channel opts x y' wire' (sent ++ [body]) got := by
  obtain ⟨pending, h1, h2, h3⟩ := h
  refine ⟨pending ++ [body], by rw [h1, List.append_assoc], ?_, ?_⟩
  · intro b hmem
    rcases List.mem_append.mp hmem with hmem | hmem
    · exact h2 b hmem
    · exact List.mem_singleton.mp hmem ▸ hb
  · rw [htx, frames_concat, ← h3]
    simp

theorem Channel.idle (h : Channel opts x y wire sent got) (hin : SameInput x x') :
    Channel opts x' y wire sent got := by
  obtain ⟨pending, h1, h2, h3⟩ := h
  exact ⟨pending, h1, h2, by rw [hin.partialIn_eq, h3]⟩

theorem Channel.drained (h : Channel opts x y wire sent got) (hx : Live x)
    (hwire : wire = []) (hun : unsent y = []) : got = sent := by
  obtain ⟨pending, h1, h2, h3⟩ := h
  rw [hwire, hun, List.append_nil, List.append_nil] at h3
  -- a live receiver is never left with a whole frame
  have hnil : pending = [] := by
    cases pending with
    | nil => rfl
    | cons b rest =>
      exfalso
      have hlen := congrArg List.length h3
      rw [frames_cons, List.length_append, List.length_append, length_putUint32] at hlen
      cases hs : x.instate with
      | HASMSG => exact hx.noMsg hs
      | HDR =>
        have hlt := hx.hdr hs
        simp only [partialIn, hs] at hlen
        unfold hdrSize at hlt
        omega
      | BODY =>
        obtain ⟨hlt, hmax⟩ := hx.body hs
        have hbmax := (h2 b List.mem_cons_self).1
        simp only [partialIn, hs] at h3 hlen
        rw [frames_cons] at h3
        have hhdr := (List.append_inj h3 rfl).1
        unfold intMax at hmax hbmax
        have hb : x.inlen = b.length := by
          rw [← getUint32_putUint32 x.inlen (by omega), hhdr,
            getUint32_putUint32 b.length (by omega)]
        rw [List.length_append, length_putUint32] at hlen
        omega
  rw [h1, hnil, List.append_nil]

end Channel

section Steps

variable {opts : Bool → SockOpts} {s : StreamPair}

theorem PairInv.put (h : PairInv opts s) (i : Bool) {x : Stream} {c : Port}
    (sent got : Bool → List (List UInt8)) (hlive : Live x)
    (hsent : sent (!i) = s.sent (!i)) (hgot : got (!i) = s.got (!i))
    (hout : Channel (opts (!i)) (s.ends (!i)) x c.tx (sent i) (s.got (!i)))
    (hinn : Channel (opts i) x (s.ends (!i)) c.rx (s.sent (!i)) (got i)) :
    PairInv opts { s.put i x c with sent := sent, got := got } := by
  have hne : (!i) ≠ i := by cases i <;> simp
  have hcases : ∀ j, j = i ∨ j = !i := by cases i <;> simp
  constructor
  · intro j
    rcases hcases j with rfl | rfl
    · simpa [StreamPair.put] using hlive
    · simpa [StreamPair.put, hne] using h.live (!i)
  · intro j
    rcases hcases j with rfl | rfl
    · simpa [StreamPair.put, hne, hne.symm, hgot] using hout
    · simpa [StreamPair.put, hne, hsent] using hinn

theorem PairInv.flush (h : PairInv opts s) (op : StreamOp) {x : Stream} {c : Port}
    (hw : Wrote (s.port op) c (unsent (s.ends op.self)) (unsent x))
    (hin : SameInput (s.ends op.self) x) : PairInv opts (s.put op.self x c) := by
  refine h.put op.self s.sent s.got (hin.live (h.live _)) rfl rfl ?_ ?_
  · exact (h.channel op.self).flush hw.tx
  · have hrx : c.rx = s.wire (!op.self) := hw.rx
    have hback := h.channel (!op.self)
    rw [Bool.not_not] at hback
    rw [hrx]
    exact hback.idle hin

theorem PairInv.step {t : Transport} {cb : Stream → Port → Stream × Port} {s' : StreamPair}
    (h : PairInv opts s) (op : StreamOp) (hok : StreamPair.Orderly opts s op)
    (hs : s.step t cb opts op = some s') : PairInv opts s' := by
  obtain ⟨hwans, hrans, hcall⟩ := hok
  have hlive := h.live op.self
  have hback := h.channel (!op.self)
  rw [Bool.not_not] at hback
  unfold StreamPair.step at hs
  cases hc : op.call with
  | send body alloc =>
    simp only [hc] at hs hcall
    obtain ⟨hsmall, rfl⟩ := hcall
    obtain ⟨rc, x, c, hsend, hres, hin⟩ :=
      send_calm t cb (opts op.self) body _ (s.port op) hlive.isOpen hwans
    simp only [hsend, Option.some.injEq] at hs
    subst hs
    rcases hres with ⟨rfl, hle, hw⟩ | ⟨hne, hw⟩
    · have hrx : c.rx = s.wire (!op.self) := hw.rx
      have hperm : Permitted (opts (!op.self)) body :=
        ⟨hle.trans (Nat.sub_le _ _), hsmall⟩
      refine h.put op.self _ _ (hin.live hlive) (by simp) rfl ?_ ?_
      · simpa using (h.channel op.self).push hperm hw.tx
      · rw [hrx]
        exact hback.idle hin
    · simp only [hne, if_false]
      exact h.flush op hw hin
  | recv poll alloc =>
    simp only [hc] at hs hcall
    subst hcall
    obtain ⟨pending, hsent, hperm, hstream⟩ := hback
    obtain ⟨res, x, c, hrecv, htx, hlive', hdec⟩ :=
      recv_calm t cb (opts op.self) poll _ (s.port op) hlive hwans hrans
        (unsent (s.ends (!op.self))) pending hperm hstream
    simp only [hrecv, Option.some.injEq] at hs
    subst hs
    have hout := (h.channel op.self).flush htx
    rcases hdec with ⟨b, rest, rfl, rfl, hrest⟩ | ⟨rfl, hrest⟩
    · refine h.put op.self _ _ hlive' rfl (by simp) hout ⟨rest, ?_, ?_, hrest⟩
      · simp [hsent]
      · exact fun b' hb' => hperm b' (List.mem_cons_of_mem _ hb')
    · exact h.put op.self _ _ hlive' rfl rfl hout ⟨pending, hsent, hperm, hrest⟩
  | hasMsg poll =>
    obtain ⟨hw, hin⟩ :=
      probed_calm t cb (SessionCalls.stream_hasMsg_probed t cb poll _ (s.port op)) hlive hwans
    simp only [hc, Option.some.injEq] at hs
    exact hs ▸ h.flush op hw hin
  | canSend poll =>
    obtain ⟨hw, hin⟩ :=
      probed_calm t cb (SessionCalls.stream_canSend_probed t cb poll _ (s.port op)) hlive hwans
    simp only [hc, Option.some.injEq] at hs
    exact hs ▸ h.flush op hw hin

end Steps

theorem PairInv.init (opts : Bool → SockOpts) : PairInv opts StreamPair.init where
  live _ := ⟨rfl, fun _ => by simp [StreamPair.init, Stream.create, hdrSize],
    fun hs => by simp [StreamPair.init, Stream.create] at hs,
    by simp [StreamPair.init, Stream.create]⟩
  channel _ := ⟨[], rfl, by simp, rfl⟩

/-- **Stream sessions are reliable FIFO channels**, over IPC or TCP (`sipc`) and over TLS
(`stls`): in every run of orderly calls the bodies received are a leading part of the
bodies accepted, and all of them once everything accepted is written and read.
SRC: sipc.c:223-475, stls.c:237-491 -/
theorem stream_fifo (t : Transport) (cb : Stream → Port → Stream × Port)
    (opts : Bool → SockOpts) {s : StreamPair}
    (h : Reach (StreamPair.system t cb opts) (StreamPair.Orderly opts) s) (i : Bool) :
    s.got (!i) <+: s.sent i ∧
      (unsent (s.ends i) = [] → s.wire i = [] → s.got (!i) = s.sent i) := by
  have hinv : PairInv opts s :=
    h.invariant (PairInv opts) (PairInv.init opts) fun _ op _ hi hok hs => hi.step op hok hs
  refine ⟨?_, fun hun hwire => (hinv.channel i).drained (hinv.live _) hwire hun⟩
  obtain ⟨pending, hsent, _, _⟩ := hinv.channel i
  exact ⟨pending, hsent.symm⟩

/-- Two messages, the first written one byte at a time and read in two pieces. -/
def twoMessages : List StreamOp :=
  [⟨false, .send [7, 8] true, [.more 0, .block, .block], []⟩,
    ⟨true, .recv true true, [], [.more 9]⟩,
    ⟨false, .canSend true, [.more 2, .more 9], []⟩,
    ⟨false, .send [] true, [.more 9], []⟩,
    ⟨true, .recv true true, [], [.more 9, .more 9]⟩,
    ⟨true, .recv true true, [], [.more 9]⟩]

/-- Both arrive. -/
theorem stream_fifo_twoMessages :
    ∃ s, Reach (StreamPair.system .sipc Prod.mk fun _ => ⟨-1, 1⟩)
        (StreamPair.Orderly fun _ => ⟨-1, 1⟩) s ∧
      s.got true = [[7, 8], []] ∧ s.got true = s.sent false := by
  have hrun : ((StreamPair.system .sipc Prod.mk fun _ => ⟨-1, 1⟩).run StreamPair.init
      twoMessages).isSome := rfl
  have hok : ∀ op ∈ twoMessages, ∀ s, StreamPair.Orderly (fun _ => ⟨-1, 1⟩) s op := by
    simp [twoMessages, StreamPair.Orderly, Calm, Answer.Calm, SockOpts.msgTooLarge]
  have hreach := Reach.of_run Reach.init (System.meets_of_forall _ hok _)
    (Option.some_get hrun).symm
  exact ⟨_, hreach, rfl, (stream_fifo .sipc Prod.mk _ hreach false).2 rfl rfl⟩

end MsgBroker.Analysis
