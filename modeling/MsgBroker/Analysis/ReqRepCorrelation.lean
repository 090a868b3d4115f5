import MsgBroker.Analysis.ReqRepInvariant

/-!
# Replies reach the request they answer

Correlation in a network of REQ and REP sockets: every message `mb_req_recv` returns is what a REP
passed to `mb_rep_send` while the last request it had received was the last one this REQ had sent,
and no request is answered to its REQ twice.
-/

set_option autoImplicit false

namespace MsgBroker.Analysis.ReqRep

open Model Lib
open Function (forall_update_iff update update_of_ne update_self)

variable {ρ τ π μ : Type} [DecidableEq ρ] [DecidableEq τ] [DecidableEq π]
variable {T : Topology ρ τ π} {s s' : RRNet ρ τ π μ}

/-! ## Pipes an operation does not touch -/

omit [DecidableEq π] in
theorem Flight.frame {p : π} (h : Flight T s p)
    (husable : Usable T s' p → Usable T s p) (hwait : Waiting T s' p ↔ Waiting T s p)
    (hout : s'.wire.out p = s.wire.out p) (hinn : s'.wire.inn p = s.wire.inn p)
    (hheld : Held T s' p → Held T s p) (hlog : s.log <+: s'.log)
    (hsent : Waiting T s p →
      RREvent.lastSent (T.reqEnd p) s'.log = RREvent.lastSent (T.reqEnd p) s.log)
    (hgot : Held T s' p →
      RREvent.lastGot (T.repEnd p) s'.log = RREvent.lastGot (T.repEnd p) s.log) :
    Flight T s' p where
  quiet hu hw := by
    obtain ⟨h1, h2, h3⟩ := h.quiet (husable hu) (fun hw' => hw (hwait.mpr hw'))
    exact ⟨hout.trans h1, fun hh => h2 (hheld hh), hinn.trans h3⟩
  waiting hw := by
    have hw' := hwait.mp hw
    obtain ⟨j, hj, hphase⟩ := h.waiting hw'
    refine ⟨j, (hsent hw').trans hj, ?_⟩
    cases hphase with
    | asked m h1 h2 h3 =>
      exact .asked m (hout.trans h1) (fun hh => h2 (hheld hh)) (hinn.trans h3)
    | taken h1 _ h3 h4 =>
      by_cases hh : Held T s' p
      · exact .taken (hout.trans h1) hh ((hgot hh).trans h3) (hinn.trans h4)
      · exact .lost ⟨hout.trans h1, hh, hinn.trans h4⟩
    | answered m k h1 h2 h3 h4 =>
      exact .answered m k (hout.trans h1) (fun hh => h2 (hheld hh)) (hinn.trans h3)
        (answers_mono _ hlog h4)
    | lost hi => exact .lost ⟨hout.trans hi.1, fun hh => hi.2.1 (hheld hh), hinn.trans hi.2.2⟩

/-! ## Operations of a REQ -/

omit [DecidableEq π] in
theorem Inv.req_reorder (h : Inv T s) (q : ρ) (x : Req π)
    (hids : x.lb.ids.Perm (s.req q).lb.ids) (hpipe : x.pipe = (s.req q).pipe)
    (hsend : x.sending = (s.req q).sending) :
    Inv T { s with req := update s.req q x } where
  req := by
    rw [forall_update_iff _ (fun q x => ReqOk T s.reqUsed q x)]
    refine ⟨(h.req q).of_perm hids (fun p hp => (h.req q).pipe_mem p (hpipe ▸ hp)) ?_,
      fun q' _ => h.req q'⟩
    rw [hsend, hpipe]
    exact (h.req q).sending_pipe
  rep := h.rep
  flight p := by
    refine (h.flight p).frame (fun hu => ?_) ?_ rfl rfl id (List.prefix_refl _)
      (fun _ => rfl) (fun _ => rfl)
    all_goals by_cases hq : T.reqEnd p = q
    · simpa [Usable, hq, hids.mem_iff] using hu
    · simpa [Usable, hq] using hu
    · simp [Waiting, hq, hpipe, hsend]
    · simp [Waiting, hq]
  renewed q' hq' := by
    refine h.renewed q' ?_
    by_cases hq : q' = q
    · subst hq; simpa [hsend] using hq'
    · simpa [hq] using hq'
  log := h.log

theorem Inv.req_add (h : Inv T s) (p : π) (alloc : Bool) (hp : s.reqUsed p = false) :
    Inv T { s with
      req := update s.req (T.reqEnd p) ((s.req (T.reqEnd p)).add p alloc).2
      reqUsed := update s.reqUsed p true } where
  req := by
    rw [forall_update_iff _
      (fun q x => ReqOk T (update s.reqUsed p true) q x)]
    refine ⟨(h.req _).add rfl hp alloc, fun q' _ => (h.req q').mono fun p' hp' => ?_⟩
    by_cases hne : p' = p <;> simp [hne, hp']
  rep := h.rep
  flight p' := by
    have hok := h.req (T.reqEnd p)
    have hnew : p ∉ (s.req (T.reqEnd p)).lb.ids := fun hmem => by
      simp [(hok.mem p hmem).2] at hp
    refine (h.flight p').frame (fun hu => ?_) ?_ rfl rfl id (List.prefix_refl _)
      (fun _ => rfl) (fun _ => rfl)
    · by_cases hne : p' = p
      · exact Or.inr (hne ▸ hp)
      · rcases hu with hu | hu
        · left
          by_cases hq : T.reqEnd p' = T.reqEnd p
          · rw [hq] at hu ⊢
            simp only [update_self] at hu
            cases alloc with
            | false => exact hu
            | true =>
              simp only [Req.add, if_true] at hu
              rw [ids_add_activate _ _ hnew] at hu
              exact (List.mem_cons.mp hu).resolve_left hne
          · simpa [hq] using hu
        · right
          simpa [hne] using hu
    · -- only a REQ with no pipe at all remembers the new one, and it is not waiting
      unfold Waiting
      by_cases hq : T.reqEnd p' = T.reqEnd p
      · rw [hq]
        simp only [update_self]
        cases alloc with
        | false => exact Iff.rfl
        | true =>
          refine and_congr_right fun hs => ?_
          obtain ⟨p₀, hp₀⟩ := hok.sending_pipe hs
          simp [Req.add, hp₀]
      · simp [hq]
  renewed q' hq' := by
    refine h.renewed q' ?_
    by_cases hq : q' = T.reqEnd p
    · subst hq
      simp only [update_self] at hq'
      cases alloc <;> exact hq'
    · simpa [hq] using hq'
  log := h.log

theorem Inv.req_rm (h : Inv T s) (p : π) (hmem : p ∈ (s.req (T.reqEnd p)).lb.ids) :
    Inv T { s with
      req := update s.req (T.reqEnd p) ((s.req (T.reqEnd p)).rm p) } where
  req := by
    rw [forall_update_iff _ (fun q x => ReqOk T s.reqUsed q x)]
    exact ⟨(h.req _).rm p, fun q' _ => h.req q'⟩
  rep := h.rep
  flight p' := by
    have hok := h.req (T.reqEnd p)
    by_cases hq : T.reqEnd p' = T.reqEnd p
    · by_cases hpp : p' = p
      · -- the pipe removed is never used again
        subst hpp
        constructor
        · intro hu
          exfalso
          rcases hu with hu | hu
          · simp only [update_self, Req.rm] at hu
            split at hu <;> exact hok.nodup.not_mem_erase (ids_rm _ p' ▸ hu)
          · simp [(hok.mem p' hmem).2] at hu
        · intro hw
          simp only [Waiting, update_self, Req.rm] at hw
          split at hw
          next => exact absurd hw.1 (by simp)
          next hne => exact absurd hw.2 hne
      · refine (h.flight p').frame (fun hu => ?_) ?_ rfl rfl id (List.prefix_refl _)
          (fun _ => rfl) (fun _ => rfl)
        · rcases hu with hu | hu
          · left
            rw [hq] at hu ⊢
            simp only [update_self, Req.rm] at hu
            split at hu <;> exact List.mem_of_mem_erase (ids_rm _ p ▸ hu)
          · exact Or.inr hu
        · unfold Waiting
          rw [hq]
          simp only [update_self, Req.rm]
          split
          next heq => simp [heq, Ne.symm hpp]
          next => exact Iff.rfl
    · refine (h.flight p').frame (fun hu => ?_) ?_ rfl rfl id (List.prefix_refl _)
        (fun _ => rfl) (fun _ => rfl)
      · simpa [Usable, hq] using hu
      · simp [Waiting, hq]
  renewed q' hq' := by
    refine h.renewed q' ?_
    by_cases hq : q' = T.reqEnd p
    · subst hq
      simp only [update_self, Req.rm] at hq'
      split at hq'
      next => cases hq'
      next => exact hq'
    · simpa [hq] using hq'
  log := h.log

theorem Inv.req_send (h : Inv T s) (q : ρ) (x : Req π) (p : π) (m : μ)
    (hidle : (s.req q).sending = false) (hmem : p ∈ (s.req q).lb.ids)
    (hids : x.lb.ids.Perm (s.req q).lb.ids) (hpipe : x.pipe = some p)
    (hsend : x.sending = true) :
    Inv T { s with
      req := update s.req q x
      wire := s.wire.push p (m, s.log.length)
      log := s.log ++ [.reqSend q m s.log.length] } where
  req := by
    rw [forall_update_iff _ (fun q x => ReqOk T s.reqUsed q x)]
    refine ⟨(h.req q).of_perm hids (fun p' hp' => ?_) (fun _ => ⟨p, hpipe⟩),
      fun q' _ => h.req q'⟩
    rw [hpipe, Option.some.injEq] at hp'
    exact hp' ▸ hmem
  rep := h.rep
  flight p' := by
    obtain ⟨hq, _⟩ := (h.req q).mem p hmem
    by_cases hpp : p' = p
    · subst hpp
      obtain ⟨h1, h2, h3⟩ := (h.flight p').quiet (Or.inl (hq ▸ hmem))
        (fun hw => by simp [Waiting, hq, hidle] at hw)
      constructor
      · intro _ hw
        exact absurd (by simp [Waiting, hq, hsend, hpipe]) hw
      · intro _
        refine ⟨s.log.length, by simp [lastSent_concat, hq], ?_⟩
        exact .asked m (by simp [h1]) h2 h3
    · by_cases hqq : T.reqEnd p' = q
      · -- the REQ now waits for `p` only; its other pipes were idle before
        have hnw : ¬ Waiting T s p' := fun hw => by simp [Waiting, hqq, hidle] at hw
        constructor
        · intro hu _
          have hu' : Usable T s p' := by
            simpa [Usable, hqq, hids.mem_iff] using hu
          obtain ⟨h1, h2, h3⟩ := (h.flight p').quiet hu' hnw
          exact ⟨(Ends.push_out_of_ne _ _ hpp).trans h1, h2, h3⟩
        · intro hw
          simp only [Waiting, hqq, update_self, hpipe, Option.some.injEq] at hw
          exact absurd hw.2.symm hpp
      · refine (h.flight p').frame (fun hu => ?_) ?_ (Ends.push_out_of_ne _ _ hpp) rfl id
          (List.prefix_append _ _) (fun _ => ?_) (fun _ => ?_)
        · simpa [Usable, hqq] using hu
        · simp [Waiting, hqq]
        · simp [lastSent_concat, Ne.symm hqq]
        · simp [lastGot_concat]
  renewed q' hq' := by
    by_cases hqq : q' = q
    · subst hqq
      exact renewed_concat_send _ _ _
    · simp only [update_of_ne hqq] at hq'
      exact (h.renewed q' hq').concat (by simp)
  log := h.log.concat (by simp) (by simp [RREvent.sentSerial])

theorem Inv.req_recv (h : Inv T s) (q : ρ) (p : π) (m : μ × ℕ) (ms : List (μ × ℕ))
    (hsend : (s.req q).sending = true) (hpipe : (s.req q).pipe = some p)
    (hinn : s.wire.inn p = m :: ms) :
    Inv T { s with
      req := update s.req q { s.req q with sending := false }
      wire := s.wire.pop p
      log := s.log ++ [.reqRecv q m.1 m.2] } := by
  have hmem := (h.req q).pipe_mem p hpipe
  obtain ⟨hq, _⟩ := (h.req q).mem p hmem
  obtain ⟨j, hj, hphase⟩ := (h.flight p).waiting (by simp [Waiting, hq, hsend, hpipe])
  -- only an answered request has something queued on the way back
  obtain ⟨hout, hheld, htail, hans⟩ : s.wire.out p = [] ∧ ¬ Held T s p ∧ ms = [] ∧
      RREvent.Answers s.log j m.1 m.2 := by
    cases hphase with
    | asked _ _ _ h3 => simp [h3] at hinn
    | taken _ _ _ h4 => simp [h4] at hinn
    | answered m' k h1 h2 h3 h4 =>
      rw [h3, List.cons.injEq] at hinn
      obtain ⟨rfl, rfl⟩ := hinn
      exact ⟨h1, h2, rfl, h4⟩
    | lost hi => simp [hi.2.2] at hinn
  constructor
  case req =>
    rw [forall_update_iff _ (fun q x => ReqOk T s.reqUsed q x)]
    exact ⟨(h.req q).of_perm (List.Perm.refl _) (h.req q).pipe_mem (fun hs => by cases hs),
      fun q' _ => h.req q'⟩
  case rep => exact h.rep
  case flight =>
    intro p'
    by_cases hpp : p' = p
    · subst hpp
      constructor
      · intro _ _
        exact ⟨hout, hheld, by simp [hinn, htail]⟩
      · intro hw
        simp [Waiting, hq] at hw
    · by_cases hqq : T.reqEnd p' = q
      · have hnw : ¬ Waiting T s p' := fun hw => by
          simp only [Waiting, hqq, hpipe, Option.some.injEq] at hw
          exact hpp hw.2.symm
        constructor
        · intro hu _
          have hu' : Usable T s p' := by simpa [Usable, hqq] using hu
          obtain ⟨h1, h2, h3⟩ := (h.flight p').quiet hu' hnw
          exact ⟨h1, h2, (Ends.pop_inn_of_ne _ hpp).trans h3⟩
        · intro hw
          simp [Waiting, hqq] at hw
      · refine (h.flight p').frame (fun hu => ?_) ?_ rfl (Ends.pop_inn_of_ne _ hpp) id
          (List.prefix_append _ _) (fun _ => ?_) (fun _ => ?_)
        · simpa [Usable, hqq] using hu
        · simp [Waiting, hqq]
        · simp [lastSent_concat]
        · simp [lastGot_concat]
  case renewed =>
    intro q' hq'
    by_cases hqq : q' = q
    · subst hqq
      simp at hq'
    · simp only [update_of_ne hqq] at hq'
      exact (h.renewed q' hq').concat (by simp [Ne.symm hqq])
  case log => exact h.log.concat_recv (hq ▸ hj) hans (h.renewed q hsend)

/-! ## Operations of a REP -/

omit [DecidableEq π] in
theorem Inv.rep_pipes (h : Inv T s) (r : τ) (x : Rep π) (used : π → Bool)
    (hok : RepOk T used r x) (hle : ∀ p, s.repUsed p = true → used p = true)
    (hlast : ∀ p, x.lastPipe = some p → (s.rep r).lastPipe = some p) :
    Inv T { s with rep := update s.rep r x, repUsed := used } where
  req := h.req
  rep := by
    rw [forall_update_iff _ (fun r x => RepOk T used r x)]
    exact ⟨hok, fun r' _ => (h.rep r').mono hle⟩
  flight p := by
    refine (h.flight p).frame id Iff.rfl rfl rfl (fun hh => ?_) (List.prefix_refl _)
      (fun _ => rfl) (fun _ => rfl)
    by_cases hr : T.repEnd p = r
    · simp only [Held, hr, update_self] at hh ⊢
      exact hlast p hh
    · simpa [Held, hr] using hh
  renewed := h.renewed
  log := h.log

theorem Inv.rep_recv (h : Inv T s) (r : τ) (x : Rep π) (p : π) (m : μ × ℕ)
    (ms : List (μ × ℕ)) (hmem : p ∈ (s.rep r).fq.ids) (hout : s.wire.out p = m :: ms)
    (hids : x.fq.ids.Perm (s.rep r).fq.ids) (hlast : x.lastPipe = some p) :
    Inv T { s with
      rep := update s.rep r x
      wire := (s.wire.flip.pop p).flip
      log := s.log ++ [.repRecv r m.1 m.2] } where
  req := h.req
  rep := by
    rw [forall_update_iff _ (fun r x => RepOk T s.repUsed r x)]
    refine ⟨(h.rep r).of_perm hids (fun p' hp' => ?_), fun r' _ => h.rep r'⟩
    rw [hlast, Option.some.injEq] at hp'
    exact hp' ▸ hmem
  flight p' := by
    obtain ⟨hr, _⟩ := (h.rep r).mem p hmem
    by_cases hpp : p' = p
    · subst hpp
      constructor
      · intro hu hw
        -- an idle pipe has no request to give
        have := (h.flight p').quiet hu hw
        simp [this.1] at hout
      · intro hw
        obtain ⟨j, hj, hphase⟩ := (h.flight p').waiting hw
        refine ⟨j, by simpa [lastSent_concat] using hj, ?_⟩
        cases hphase with
        | asked m' h1 _ h3 =>
          rw [h1, List.cons.injEq] at hout
          obtain ⟨rfl, rfl⟩ := hout
          refine .taken (by simp [h1]) ?_ ?_ h3
          · simp [Held, hr, hlast]
          · simp [lastGot_concat, hr]
        | taken h1 _ _ _ => simp [h1] at hout
        | answered _ _ h1 _ _ _ => simp [h1] at hout
        | lost hi => simp [hi.1] at hout
    · refine (h.flight p').frame id Iff.rfl (Ends.pop_inn_of_ne s.wire.flip hpp) rfl
        (fun hh => ?_) (List.prefix_append _ _) (fun _ => ?_) (fun hh => ?_)
      · by_cases hrr : T.repEnd p' = r
        · simp only [Held, hrr, update_self, hlast, Option.some.injEq] at hh
          exact absurd hh.symm hpp
        · simpa [Held, hrr] using hh
      · simp [lastSent_concat]
      · by_cases hrr : T.repEnd p' = r
        · simp only [Held, hrr, update_self, hlast, Option.some.injEq] at hh
          exact absurd hh.symm hpp
        · simp [lastGot_concat, Ne.symm hrr]
  renewed q hq := (h.renewed q hq).concat (by simp)
  log := h.log.concat (by simp) (by simp [RREvent.sentSerial])

theorem Inv.rep_send (h : Inv T s) (r : τ) (p : π) (m : μ)
    (hlast : (s.rep r).lastPipe = some p) :
    Inv T { s with
      rep := update s.rep r { s.rep r with lastPipe := none }
      wire := (s.wire.flip.push p (m, s.log.length)).flip
      log := s.log ++ [.repSend r m s.log.length] } where
  req := h.req
  rep := by
    rw [forall_update_iff _ (fun r x => RepOk T s.repUsed r x)]
    exact ⟨(h.rep r).of_perm (List.Perm.refl _) (fun p' hp' => by cases hp'),
      fun r' _ => h.rep r'⟩
  flight p' := by
    obtain ⟨hr, _⟩ := (h.rep r).mem p ((h.rep r).last_mem p hlast)
    have hheld : Held T s p := by simp [Held, hr, hlast]
    by_cases hpp : p' = p
    · subst hpp
      constructor
      · intro hu hw
        exact absurd hheld ((h.flight p').quiet hu hw).2.1
      · intro hw
        obtain ⟨j, hj, hphase⟩ := (h.flight p').waiting hw
        refine ⟨j, by simpa [lastSent_concat] using hj, ?_⟩
        cases hphase with
        | asked _ _ h2 _ => exact absurd hheld h2
        | taken h1 _ h3 h4 =>
          refine .answered m s.log.length h1 ?_ (by simp [h4]) ?_
          · simp [Held, hr]
          · exact ⟨r, s.log, [], rfl, hr ▸ h3⟩
        | answered _ _ _ h2 _ _ => exact absurd hheld h2
        | lost hi => exact absurd hheld hi.2.1
    · refine (h.flight p').frame id Iff.rfl rfl
        (Ends.push_out_of_ne s.wire.flip _ hpp) (fun hh => ?_) (List.prefix_append _ _)
        (fun _ => ?_) (fun _ => ?_)
      · by_cases hrr : T.repEnd p' = r
        · simp [Held, hrr] at hh
        · simpa [Held, hrr] using hh
      · simp [lastSent_concat]
      · simp [lastGot_concat]
  renewed q hq := (h.renewed q hq).concat (by simp)
  log := h.log.concat (by simp) (by simp [RREvent.sentSerial])

/-! ## Runs -/

omit [DecidableEq π] in
theorem Inv.init : Inv T (RRNet.init : RRNet ρ τ π μ) where
  req _ := ⟨by simp [RRNet.init, Req.create, Rotor.init, Rotor.ids],
    by simp [RRNet.init, Req.create, Rotor.init, Rotor.ids],
    by simp [RRNet.init, Req.create], by simp [RRNet.init, Req.create]⟩
  rep _ := ⟨by simp [RRNet.init, Rep.create, Rotor.init, Rotor.ids],
    by simp [RRNet.init, Rep.create]⟩
  flight p := ⟨fun _ _ => ⟨rfl, by simp [Held, RRNet.init, Rep.create], rfl⟩,
    fun hw => by simp [Waiting, RRNet.init, Req.create] at hw⟩
  renewed _ _ := by simp [Renewed, RRNet.init]
  log := ⟨by simp [RRNet.init], by simp [RRNet.init], by simp [RRNet.init]⟩

theorem Inv.step (h : Inv T s) (op : RROp ρ τ π μ) (hs : s.step T op = some s') :
    Inv T s' := by
  cases op with
  | reqAdd p alloc =>
    simp only [RRNet.step] at hs
    split at hs
    next => cases hs
    next hp => exact Option.some.inj hs ▸ h.req_add p alloc (by simpa using hp)
  | reqRm p =>
    simp only [RRNet.step] at hs
    split at hs
    next hp => exact Option.some.inj hs ▸ h.req_rm p hp
    next => cases hs
  | reqIn p =>
    refine Option.some.inj hs ▸ h.req_reorder _ _ (ids_onIn _ p) ?_ ?_
    all_goals unfold Req.onIn; split <;> rfl
  | reqEvents q ans =>
    obtain ⟨h1, h2, h3, h4⟩ := req_events_fifo (s.req q) s.wire ans
    have := h.req_reorder q _ (h1 ▸ List.Perm.refl _) h2 h3
    simp only [RRNet.step, h4] at hs
    exact Option.some.inj hs ▸ this
  | reqSend q m ans =>
    rcases req_send_fifo (s.req q) (m, s.log.length) s.wire ans with
      ⟨hok, hidle, p, hmem, hids, hpipe, hsend, hw⟩ | ⟨hok, hids, hpipe, hsend, hw⟩
    · have := h.req_send q _ p m hidle hmem hids hpipe hsend
      simp only [RRNet.step, hok, hw, if_true] at hs
      exact Option.some.inj hs ▸ this
    · have := h.req_reorder q _ (hids ▸ List.Perm.refl _) hpipe hsend
      simp only [RRNet.step, hok, hw, if_false] at hs
      exact Option.some.inj hs ▸ this
  | reqRecv q ans =>
    rcases req_recv_fifo (s.req q) s.wire ans with
      ⟨m, ms, p, hok, hsend, hpipe, hinn, hx, hw⟩ | ⟨c, hok, hx, hw⟩
    · have := h.req_recv q p m ms hsend hpipe hinn
      simp only [RRNet.step, hok, hx, hw] at hs
      exact Option.some.inj hs ▸ this
    · have := h.req_reorder q _ (List.Perm.refl _) rfl rfl
      simp only [RRNet.step, hok, hx, hw] at hs
      exact Option.some.inj hs ▸ this
  | repAdd p allocFq allocLb =>
    simp only [RRNet.step] at hs
    split at hs
    next => cases hs
    next hp =>
      refine Option.some.inj hs ▸ h.rep_pipes _ _ _
        ((h.rep _).add rfl (by simpa using hp) allocFq allocLb) (fun p' hp' => ?_) ?_
      · by_cases hne : p' = p <;> simp [hne, hp']
      · cases allocFq <;> cases allocLb <;> exact fun _ => id
  | repRm p =>
    simp only [RRNet.step] at hs
    split at hs
    next =>
      refine Option.some.inj hs ▸ h.rep_pipes _ _ _ ((h.rep _).rm p) (fun _ => id) ?_
      intro p' hp'
      simp only [Rep.rm] at hp'
      split at hp'
      · cases hp'
      · exact hp'
    next => cases hs
  | repRecv r ans =>
    rcases rep_recv_fifo (s.rep r) s.wire.flip ans with
      ⟨m, ms, p, hok, _, hmem, hinn, hids, hlast, hw⟩ | ⟨c, hok, hids, hlast, hw⟩
    · have := h.rep_recv r _ p m ms hmem hinn hids hlast
      simp only [RRNet.step, hok, hw] at hs
      exact Option.some.inj hs ▸ this
    · have := h.rep_pipes r _ _
        ((h.rep r).of_perm (hids ▸ List.Perm.refl _)
          (fun p hp => (h.rep r).last_mem p (hlast ▸ hp)))
        (fun _ => id) (fun p hp => hlast ▸ hp)
      simp only [RRNet.step, hok, hw, Ends.flip_flip] at hs
      exact Option.some.inj hs ▸ this
  | repSend r m ans =>
    rcases rep_send_fifo (s.rep r) (m, s.log.length) s.wire.flip ans with
      ⟨p, hok, hlast, hx, hw⟩ | ⟨hok, hx, hw⟩
    · have := h.rep_send r p m hlast
      simp only [RRNet.step, hok, hx, hw, if_true] at hs
      exact Option.some.inj hs ▸ this
    · have := h.rep_pipes r _ _ (h.rep r) (fun _ => id) (fun _ => id)
      simp only [RRNet.step, hok, hx, hw, if_false, Ends.flip_flip] at hs
      exact Option.some.inj hs ▸ this

/-- **Correlation.**  In every run of every network: a message `mb_req_recv` returned was
passed to `mb_rep_send` by a REP whose last received request was the last one this REQ
had sent; two replies of one REQ answer different requests; and serial numbers are the
positions of the sendings, so they tell all messages apart.
SRC: req.c:96-134, rep.c:112-138 -/
theorem reply_answers_last_request (T : Topology ρ τ π)
    (h : Reach (RRNet.system T) (fun _ _ => True) s) :
    (∀ pre q m k post, s.log = pre ++ .reqRecv q m k :: post →
      ∃ j, RREvent.lastSent q pre = some j ∧ RREvent.Answers pre j m k) ∧
    (∀ pre q m k mid m' k' post,
      s.log = pre ++ .reqRecv q m k :: (mid ++ .reqRecv q m' k' :: post) →
        RREvent.lastSent q pre ≠ RREvent.lastSent q (pre ++ .reqRecv q m k :: mid)) ∧
    (∀ pre e post k, s.log = pre ++ e :: post → e.sentSerial = some k → k = pre.length) := by
  have hinv : Inv T s := h.invariant (Inv T) Inv.init fun _ op _ hi _ hs => hi.step op hs
  exact ⟨hinv.log.answered, fun _ _ _ _ _ _ _ _ hsplit => hinv.log.lastSent_ne hsplit,
    hinv.log.serial⟩

/-- One REQ and one REP joined by one pipe. -/
def onePipe : Topology Unit Unit Unit := ⟨id, id⟩

/-- One request and its reply. -/
def oneExchange : List (RROp Unit Unit Unit ℕ) :=
  [.reqAdd () true, .repAdd () true true, .reqSend () 7 [true], .repRecv () [true],
    .repSend () 9 [true], .reqRecv () [true]]

/-- The exchange completes, and its reply answers its request. -/
theorem reply_answers_last_request_onePipe :
    ∃ s, Reach (RRNet.system onePipe) (fun _ _ => True) s ∧
      s.log = [.reqSend () 7 0, .repRecv () 7 0, .repSend () 9 2, .reqRecv () 9 2] ∧
      ∃ j, RREvent.lastSent () (s.log.take 3) = some j ∧
        RREvent.Answers (s.log.take 3) j 9 2 := by
  have hrun : ((RRNet.system onePipe).run RRNet.init oneExchange).isSome := rfl
  have hreach := Reach.of_run_init (Option.some_get hrun).symm
  exact ⟨_, hreach, rfl, (reply_answers_last_request onePipe hreach).1 _ () 9 2 [] rfl⟩

end MsgBroker.Analysis.ReqRep
