import MsgBroker.Model.Connector

/-!
# Every session of a connecting endpoint is freed once

However the calls interleave, a session that has been created has one owner (the endpoint, as its
session or its zombie, or the reconnect thread) or has been freed, once.
-/

set_option autoImplicit false

namespace MsgBroker.Analysis.Connector

open Lib Model

/-- What holds of the endpoint between any two steps. -/
structure Inv (s : Ctcp) : Prop where
  owned : ∀ x, s.freed.count x + s.held.count x = (List.range s.created).count x
  single : s.starters + s.thread.toList.length = if s.reconnecting then 1 else 0
  detached : s.reconnecting = true → s.sipc = none
  stopped : s.running = false → s.sipc = none ∧ s.zombie = none

variable {s t : Ctcp}

theorem Inv.reconnecting (h : Inv s) (hthread : s.thread ≠ none) : s.reconnecting = true := by
  have hsingle := h.single
  cases hs : s.thread with
  | none => exact absurd hs hthread
  | some l =>
    rw [hs] at hsingle
    by_contra hr
    simp [hr] at hsingle

theorem Inv.freeZombie (h : Inv s) : Inv s.freeZombie := by
  refine ⟨fun x => ?_, h.single, h.detached, fun hr => ⟨(h.stopped hr).1, rfl⟩⟩
  have hx := h.owned x
  simp only [Ctcp.freeZombie, Ctcp.held, Ctcp.threadSession, List.count_append, Option.toList_none,
    List.count_nil] at hx ⊢
  omega

/-- The session becomes the zombie. -/
theorem Inv.aside (h : Inv s) {n : ℕ} (hsipc : s.sipc = some n) (hrun : s.running = true) :
    Inv { s.freeZombie with zombie := some n, sipc := none } := by
  refine ⟨fun x => ?_, h.single, fun _ => rfl, fun hr => ?_⟩
  · have hx := h.freeZombie.owned x
    simp only [Ctcp.freeZombie, Ctcp.held, Ctcp.threadSession, List.count_append, hsipc,
      Option.toList_none, Option.toList_some, List.count_nil] at hx ⊢
    omega
  · exact absurd (hrun.symm.trans hr) (by decide)

theorem Inv.wantThread (h : Inv s) (hrec : s.reconnecting = false) (hsipc : s.sipc = none) :
    Inv { s with reconnecting := true, starters := s.starters + 1 } := by
  refine ⟨h.owned, ?_, fun _ => hsipc, h.stopped⟩
  have hsingle := h.single
  rw [hrec] at hsingle
  simp only [Bool.false_eq_true, if_false, if_true] at hsingle ⊢
  omega

theorem Inv.onDisconnect (h : Inv s) (ivl : Bool) : Inv (s.onDisconnect ivl) := by
  unfold Ctcp.onDisconnect
  by_cases hrun : s.running = true
  · simp only [hrun, Bool.not_true, Bool.false_eq_true, if_false]
    cases hsipc : s.sipc with
    | none =>
      dsimp only
      split
      · rename_i hcond
        exact h.wantThread (by simpa using hcond.2) hsipc
      · exact h
    | some n =>
      dsimp only
      split
      · rename_i hcond
        exact (h.aside hsipc hrun).wantThread (by simpa using hcond.2) rfl
      · exact h.aside hsipc hrun
  · simpa [hrun] using h

theorem Inv.startThread (h : Inv s) {ok : Bool} (hs : s.startThread ok = some t) : Inv t := by
  unfold Ctcp.startThread at hs
  split at hs
  · cases hs
  · rename_i hcond
    obtain ⟨hstarters, hthread⟩ := not_or.mp hcond
    have hnone : s.thread = none := by simpa using hthread
    have hsingle := h.single
    have howned := h.owned
    rw [hnone, Option.toList_none, List.length_nil] at hsingle
    simp only [Ctcp.held, Ctcp.threadSession, hnone] at howned
    split at hs
    · cases hs
      refine ⟨howned, ?_, h.detached, h.stopped⟩
      simp only [Option.toList_some, List.length_singleton]
      omega
    · cases hs
      refine ⟨h.owned, ?_, fun hr => Bool.noConfusion hr, h.stopped⟩
      simp only [hnone, Option.toList_none, List.length_nil, Bool.false_eq_true, if_false]
      split at hsingle <;> omega

/-- INTERNAL: the session of the thread is freed; `l` is what the thread does next. -/
theorem Inv.freeSession (h : Inv s) {n : ℕ} (hthread : s.thread = some (.holds n))
    {l : ReconnectAt} (hl : l = .test ∨ l = .leave) :
    Inv { s with sipc := none, freed := s.freed ++ [n], thread := some l } := by
  have hsipc := h.detached (h.reconnecting (by simp [hthread]))
  refine ⟨fun x => ?_, ?_, fun _ => rfl, fun hr => ⟨rfl, (h.stopped hr).2⟩⟩
  · have hx := h.owned x
    rcases hl with rfl | rfl <;>
      simp only [Ctcp.held, Ctcp.threadSession, hthread, hsipc, List.count_append,
        Option.toList_none, Option.toList_some, List.count_nil] at hx ⊢ <;> omega
  · simpa [hthread] using h.single

theorem Inv.leave (h : Inv s) (hthread : s.thread = some .leave) :
    Inv { s with reconnecting := false, thread := none } := by
  have hrec := h.reconnecting (by simp [hthread])
  refine ⟨?_, ?_, fun hr => Bool.noConfusion hr, h.stopped⟩
  · simpa [Ctcp.held, Ctcp.threadSession, hthread] using h.owned
  · have hsingle := h.single
    simp only [hthread, hrec, Option.toList_some, List.length_singleton, if_true] at hsingle
    simp only [Option.toList_none, List.length_nil, Bool.false_eq_true, if_false]
    omega

theorem Inv.move (h : Inv s) {l l' : ReconnectAt} (hthread : s.thread = some l)
    (hl : ∀ n, l ≠ .holds n) (hl' : l' = .test ∨ l' = .leave) :
    Inv { s with thread := some l' } := by
  refine ⟨fun x => ?_, by simpa [hthread] using h.single, h.detached, h.stopped⟩
  have hx := h.owned x
  have hnone : s.threadSession = none := by
    rw [Ctcp.threadSession, hthread]
    cases l with
    | holds n => exact absurd rfl (hl n)
    | _ => rfl
  rw [Ctcp.held, hnone] at hx
  rcases hl' with rfl | rfl <;> exact hx

theorem Inv.session (h : Inv s) (hthread : s.thread = some .test) :
    Inv { s with created := s.created + 1, thread := some (.holds s.created) } := by
  refine ⟨fun x => ?_, by simpa [hthread] using h.single, h.detached, h.stopped⟩
  have hx := h.owned x
  simp only [Ctcp.held, Ctcp.threadSession, hthread, List.count_append, Option.toList_none,
    Option.toList_some, List.count_nil, List.range_succ] at hx ⊢
  omega

theorem Inv.connected (h : Inv s) {n : ℕ} (hthread : s.thread = some (.holds n))
    (hrun : s.running = true) :
    Inv { s with sipc := some n, reconnecting := false, thread := none } := by
  have hrec := h.reconnecting (by simp [hthread])
  refine ⟨fun x => ?_, ?_, fun hr => Bool.noConfusion hr, fun hr => ?_⟩
  · have hx := h.owned x
    simp only [Ctcp.held, Ctcp.threadSession, hthread, h.detached hrec, List.count_append,
      Option.toList_none, Option.toList_some, List.count_nil] at hx ⊢
    omega
  · have hsingle := h.single
    simp only [hthread, hrec, Option.toList_some, List.length_singleton, if_true] at hsingle
    simp only [Option.toList_none, List.length_nil, Bool.false_eq_true, if_false]
    omega
  · exact absurd (hrun.symm.trans hr) (by decide)

theorem Inv.reconnectLoop (h : Inv s) {a : Attempt} (hs : s.reconnectLoop a = some t) :
    Inv t := by
  cases hthread : s.thread with
  | none => simp [Ctcp.reconnectLoop, hthread] at hs
  | some l =>
    cases l with
    | enter =>
      simp only [Ctcp.reconnectLoop, hthread, Option.some.injEq] at hs
      subst hs
      exact h.freeZombie.move hthread (by simp) (Or.inl rfl)
    | test =>
      simp only [Ctcp.reconnectLoop, hthread] at hs
      split at hs
      · cases hs
        exact h.move hthread (by simp) (Or.inr rfl)
      · cases a with
        | canceled => cases hs; exact h.move hthread (by simp) (Or.inr rfl)
        | failed => cases hs; exact h
        | session => cases hs; exact h.session hthread
        | start rc => cases hs
    | holds n =>
      have hsipc := h.detached (h.reconnecting (by simp [hthread]))
      cases a with
      | start rc =>
        simp only [Ctcp.reconnectLoop, hthread] at hs
        split at hs
        · cases hs
          simpa [hsipc] using (h.freeSession hthread (Or.inr rfl)).leave rfl
        · rename_i hrun
          cases rc with
          | ok => cases hs; exact h.connected hthread (by simpa using hrun)
          | err c => cases hs; exact h.freeSession hthread (by split <;> simp)
      | _ => simp [Ctcp.reconnectLoop, hthread] at hs
    | leave =>
      simp only [Ctcp.reconnectLoop, hthread, Option.some.injEq] at hs
      subst hs
      exact h.leave hthread

theorem Inv.stop (h : Inv s) : Inv s.stop := by
  refine ⟨fun x => ?_, h.single, fun _ => rfl, fun _ => ⟨rfl, rfl⟩⟩
  have hx := h.owned x
  simp only [Ctcp.stop, Ctcp.held, Ctcp.threadSession, List.count_append, Option.toList_none,
    List.count_nil] at hx ⊢
  omega

theorem inv_create {ivl thread session : Bool} {rc : Rc}
    (h : Ctcp.create ivl thread session rc = some s) : Inv s := by
  have hmk : ∀ {s : Ctcp}, (s = ⟨true, false, some 0, none, none, 0, 1, []⟩ ∨
      s = ⟨true, true, none, none, some .enter, 0, 1, [0]⟩ ∨
      s = ⟨true, true, none, none, some .enter, 0, 0, []⟩) → Inv s := by
    rintro s (rfl | rfl | rfl) <;> constructor <;>
      simp [Ctcp.held, Ctcp.threadSession, List.range_succ]
  apply hmk
  cases rc with
  | ok => cases h; exact Or.inl rfl
  | err c =>
    simp only [Ctcp.create] at h
    split at h
    · split at h <;> cases h <;> simp
    · cases h

theorem inv_of_reach {init : Ctcp} (hinit : Inv init)
    (h : Reach (Ctcp.system init) (fun _ _ => True) s) : Inv s := by
  refine h.invariant Inv hinit fun s op t hs _ hstep => ?_
  cases op with
  | onDisconnect ivl => cases hstep; exact hs.onDisconnect ivl
  | startThread ok => exact hs.startThread hstep
  | loop a => exact hs.reconnectLoop hstep
  | stop => cases hstep; exact hs.stop

/-- **Sessions are neither leaked nor freed twice.**  From a successful creation on, however the
steps of the callbacks, of the reconnect thread and of `mb_ctcp_stop` interleave: the sessions
freed and those that the endpoint or the thread has are, together, all the sessions created, each
once; at most one thread is there or about to be started, exactly while the flag is set, and the
endpoint has no session then; and once the endpoint is stopped and no thread is left, every
session has been freed.  SRC: ctcp.c:30-282 -/
theorem sessions_freed_once {ivl thread session : Bool} {rc : Rc} {init : Ctcp}
    (hcreate : Ctcp.create ivl thread session rc = some init)
    (h : Reach (Ctcp.system init) (fun _ _ => True) s) :
    (s.freed ++ s.held).Perm (List.range s.created) ∧
      (s.starters + s.thread.toList.length = if s.reconnecting then 1 else 0) ∧
      (s.reconnecting = true → s.sipc = none) ∧
      (s.running = false → s.starters = 0 → s.thread = none →
        s.freed.Perm (List.range s.created)) := by
  have hinv := inv_of_reach (inv_create hcreate) h
  have howned : (s.freed ++ s.held).Perm (List.range s.created) :=
    List.perm_iff_count.mpr fun x => by rw [List.count_append, hinv.owned]
  refine ⟨howned, hinv.single, hinv.detached, fun hrun _ hthread => ?_⟩
  obtain ⟨hsipc, hzombie⟩ := hinv.stopped hrun
  simpa [Ctcp.held, Ctcp.threadSession, hsipc, hzombie, hthread] using howned

/-- The session breaks, the thread connects again, the new session breaks, and the endpoint is
stopped while the thread has a third one. -/
def sampleSteps : List CtcpOp :=
  [.onDisconnect true, .startThread true, .loop .failed, .loop .session, .loop (.start .ok),
    .onDisconnect true, .startThread true, .loop .failed, .loop .session, .stop,
    .loop (.start .ok)]

theorem sessions_freed_once_sample :
    ∃ init s, Ctcp.create true true true .ok = some init ∧
      (Ctcp.system init).run init sampleSteps = some s ∧ s.freed = [0, 1, 2] ∧
      s.freed.Perm (List.range s.created) := by
  let init : Ctcp := ⟨true, false, some 0, none, none, 0, 1, []⟩
  have hcreate : Ctcp.create true true true .ok = some init := rfl
  have hrun : (Ctcp.system init).run init sampleSteps = some _ := rfl
  exact ⟨init, _, hcreate, hrun, rfl,
    (sessions_freed_once hcreate (Reach.of_run_init hrun)).2.2.2 rfl rfl rfl⟩

end MsgBroker.Analysis.Connector
