import MsgBroker.Analysis.SwsSides

/-!
# The loop of `mb_sws_recv` ends

`mb_sws_recv` loops for as long as control frames are complete.
-/

set_option autoImplicit false

namespace MsgBroker.Analysis.SwsEnd

open Lib Model

/-! ## What writing leaves alone -/

/-- The answers to reads and the place in the input are untouched. -/
structure SameRead (x x' : Sws) (c c' : Port) : Prop where
  rans : c'.rans = c.rans
  instate : x'.instate = x.instate
  inhdr : x'.inhdr = x.inhdr

theorem flushPendingPong_sameRead (t : Transport) (x : Sws) (c : SwsPort) :
    SameRead x (Sws.flushPendingPong t x c).2.1 c.port (Sws.flushPendingPong t x c).2.2.port := by
  have hw := SwsSides.flushPendingPong_wrote t x c
  exact ⟨hw.rans, hw.field Sws.instate fun _ => rfl, hw.field Sws.inhdr fun _ => rfl⟩

/-! ## What a round reads -/

section Round

variable (t : Transport) (opts : SockOpts) {x y : Sws} {c d : SwsPort}

theorem andThen_next {f : Sws.Flow} {g : Sws → SwsPort → Sws.Flow}
    (h : f.andThen g = .next y d) : ∃ z e, f = .next z e ∧ g z e = .next y d := by
  cases f with
  | ret res z e => cases h
  | next z e => exact ⟨z, e, rfl, h⟩

theorem readInto_next {rans left : List (Answer (Option ℕ))} {need : ℕ}
    {put : List UInt8 → Sws} (hpos : 0 < need)
    (h : Sws.readInto t rans left need put x c = .next y d) :
    d.port.rans.length < (rans ++ left).length ∧ ∃ got, y = put got := by
  unfold Sws.readInto at h
  split_ifs at h with hopen
  · cases h
  · have huse := readLoop_uses rans c.port.rx hpos
    rcases hl : readLoop rans need c.port.rx with ⟨got, ending, rx, rest⟩
    rw [hl] at h huse
    cases ending with
    | done =>
      cases h
      have hlt := huse rfl
      refine ⟨?_, got, rfl⟩
      simp only [List.length_append] at hlt ⊢
      omega
    | block => cases h
    | stop f => cases f <;> cases h

theorem readHdr_next (h : Sws.readHdr t x c = .next y d) :
    d.port.rans.length ≤ c.port.rans.length ∧
      (x.inhdr = [] → d.port.rans.length < c.port.rans.length) := by
  unfold Sws.readHdr at h
  obtain ⟨z, e, hfirst, hrest⟩ := andThen_next h
  -- the part behind the first two bytes
  have hle : d.port.rans.length ≤ e.port.rans.length := by
    split_ifs at hrest with hlt
    · have hread := (readInto_next t (by omega) hrest).1
      rw [List.append_nil] at hread
      exact hread.le
    · cases hrest
      exact le_rfl
  split_ifs at hfirst with htwo
  · have hread := (readInto_next t (by omega) hfirst).1
    rw [List.take_append_drop] at hread
    exact ⟨by omega, fun _ => by omega⟩
  · cases hfirst
    refine ⟨hle, fun hnil => ?_⟩
    rw [hnil] at htwo
    exact absurd (by decide) htwo

theorem startFrame_next {alloc : Bool} (h : Sws.startFrame t opts alloc x c = .next y d) :
    d = c ∧ y.instate ≠ .HDR := by
  unfold Sws.startFrame at h
  split at h
  · cases h
  · split_ifs at h
    · cases h
    · unfold Sws.startCtrl at h
      split_ifs at h
      · cases h
      · cases h
      · cases h
        exact ⟨rfl, nofun⟩
    · unfold Sws.startBody at h
      split_ifs at h
      · cases h
      · cases h
      · cases h
        exact ⟨rfl, nofun⟩

theorem finishCtrl_next (h : Sws.finishCtrl t x c = .next y d) :
    y.instate = .HDR ∧ y.inhdr = [] ∧ d.port.rans = c.port.rans := by
  unfold Sws.finishCtrl at h
  extract_lets ping first at h
  have hfirst : first.2.2.port.rans = c.port.rans := by
    unfold first
    split_ifs
    · exact (flushPendingPong_sameRead t ping c).rans
    · rfl
    · rfl
  generalize first = r at hfirst h
  split at h
  case h_1 z e | h_2 z e =>
    split_ifs at h
    · have hp := flushPendingPong_sameRead t z.nextFrame e
      cases h
      exact ⟨hp.instate, hp.inhdr, hp.rans.trans hfirst⟩
    · cases h
      exact ⟨rfl, rfl, hfirst⟩
  · cases h

theorem readPayload_next (h : Sws.readPayload t x c = .next y d) :
    d.port.rans.length ≤ c.port.rans.length := by
  unfold Sws.readPayload at h
  split_ifs at h
  · have hlt := (readInto_next t (by omega) h).1
    rw [List.append_nil] at hlt
    exact hlt.le
  · cases h
    exact le_rfl

theorem payload_next {alloc : Bool} (hne : x.instate ≠ .HDR)
    (h : Sws.payload t opts alloc x c = .next y d) :
    y.instate = .HDR ∧ y.inhdr = [] ∧ d.port.rans.length ≤ c.port.rans.length := by
  unfold Sws.payload at h
  split at h
  · obtain ⟨z, e, hread, hend⟩ := andThen_next h
    obtain ⟨hstate, hhdr, hrans⟩ := finishCtrl_next t hend
    exact ⟨hstate, hhdr, hrans ▸ readPayload_next t hread⟩
  · obtain ⟨z, e, -, hend⟩ := andThen_next h
    unfold Sws.finishBody at hend
    dsimp only at hend
    split_ifs at hend <;> cases hend
  · cases h
  · next heq => exact absurd heq hne

/-- INTERNAL: **a round that goes on** leaves the decoder at the start of a header; if it started
there it has read. -/
theorem round_next {alloc : Bool} (h : Sws.round t opts alloc x c = .next y d) :
    y.instate = .HDR ∧ y.inhdr = [] ∧ d.port.rans.length ≤ c.port.rans.length ∧
      (x.instate = .HDR → x.inhdr = [] → d.port.rans.length < c.port.rans.length) := by
  unfold Sws.round at h
  obtain ⟨w, f, hhead, hpayload⟩ := andThen_next h
  split_ifs at hhead with hstate
  · obtain ⟨z, e, hread, hstart⟩ := andThen_next hhead
    obtain ⟨hle, hlt⟩ := readHdr_next t hread
    obtain ⟨rfl, hne⟩ := startFrame_next t opts hstart
    obtain ⟨hs, hh, hr⟩ := payload_next t opts hne hpayload
    exact ⟨hs, hh, hr.trans hle, fun _ hnil => lt_of_le_of_lt hr (hlt hnil)⟩
  · cases hhead
    obtain ⟨hs, hh, hr⟩ := payload_next t opts hstate hpayload
    exact ⟨hs, hh, hr, fun heq => absurd heq hstate⟩

/-- INTERNAL: more rounds do not change what the loop returned. -/
theorem recvLoop_mono {alloc : Bool} {fuel fuel' : ℕ} (hle : fuel ≤ fuel')
    {r : Except Errno (List UInt8) × Sws × SwsPort}
    (h : Sws.recvLoop t opts alloc fuel x c = some r) :
    Sws.recvLoop t opts alloc fuel' x c = some r := by
  induction fuel generalizing fuel' x c with
  | zero => cases h
  | succ fuel ih =>
    obtain ⟨fuel', rfl⟩ : ∃ n, fuel' = n + 1 := ⟨fuel' - 1, by omega⟩
    unfold Sws.recvLoop at h ⊢
    cases hround : Sws.round t opts alloc x c with
    | ret res y d =>
      rw [hround] at h
      exact h
    | next y d =>
      rw [hround] at h
      exact ih (by omega) h

/-- INTERNAL: at the start of a header the loop returns within as many rounds as there are answers
to its reads and one more. -/
theorem exists_recvLoop_hdr (alloc : Bool) (fuel : ℕ) (hstate : x.instate = .HDR)
    (hhdr : x.inhdr = []) (h : c.port.rans.length < fuel) :
    ∃ r, Sws.recvLoop t opts alloc fuel x c = some r := by
  induction fuel generalizing x c with
  | zero => omega
  | succ fuel ih =>
    unfold Sws.recvLoop
    cases hround : Sws.round t opts alloc x c with
    | ret res y d => exact ⟨_, rfl⟩
    | next y d =>
      -- every round that goes on has used an answer
      obtain ⟨hs, hh, _, hlt⟩ := round_next t opts hround
      have := hlt hstate hhdr
      exact ih hs hh (by omega)

/-- INTERNAL: from any state of the decoder it may take one round more. -/
theorem exists_recvLoop (alloc : Bool) (x : Sws) (c : SwsPort) :
    ∃ r, Sws.recvLoop t opts alloc (c.port.rans.length + 2) x c = some r := by
  unfold Sws.recvLoop
  cases hround : Sws.round t opts alloc x c with
  | ret res y d => exact ⟨_, rfl⟩
  | next y d =>
    obtain ⟨hs, hh, hle, _⟩ := round_next t opts hround
    exact exists_recvLoop_hdr t opts alloc _ hs hh (by omega)

/-- **The loop of `mb_sws_recv` returns.**  For every state of the session and every connection
there is one result, and the loop has returned it after as many rounds as there are answers to its
reads and two more, which is what `Sws.recv` runs it for.  SRC: sws.c:605-913 -/
theorem recvLoop_ends (alloc : Bool) (x : Sws) (c : SwsPort) :
    ∃ r, ∀ fuel, c.port.rans.length + 2 ≤ fuel →
      Sws.recvLoop t opts alloc fuel x c = some r := by
  obtain ⟨r, hr⟩ := exists_recvLoop t opts alloc x c
  exact ⟨r, fun fuel hle => recvLoop_mono t opts hle hr⟩

end Round

/-- A masked frame with a message of one byte, read by a server. -/
theorem recvLoop_ends_frame :
    ∃ r, Sws.recvLoop .sipc ⟨-1, 0⟩ true 100 (.create false)
      ⟨⟨[], [0x82, 0x85, 0, 0, 0, 0, 0, 0, 0, 1, 7], [], [.more 1, .more 3, .more 4]⟩, [], default,
        []⟩ = some r ∧ r.1 = .ok [7] := by
  obtain ⟨r, hr⟩ := recvLoop_ends .sipc ⟨-1, 0⟩ true (.create false)
    ⟨⟨[], [0x82, 0x85, 0, 0, 0, 0, 0, 0, 0, 1, 7], [], [.more 1, .more 3, .more 4]⟩, [], default, []⟩
  have hfive := hr 5 (by decide)
  exact ⟨r, hr 100 (by decide), by rw [← Option.some.inj hfive]; rfl⟩

end MsgBroker.Analysis.SwsEnd
