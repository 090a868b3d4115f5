import MsgBroker.Analysis.TeardownSteps

/-!
# Teardown waits for the calls in flight

Every hold is counted: `holds` is what is left of the two references of the socket plus the holds of
the threads.
-/

set_option autoImplicit false

namespace MsgBroker.Analysis.TeardownSafety

open Lib Model Model.Teardown

variable {T : Type} [DecidableEq T]

/-! ## Every run -/

section Run

variable [Fintype T] {ok : Threads T (Shared T) Pc → T × Act → Prop}
  {s : Threads T (Shared T) Pc}

theorem holds_count (h : Reach system ok s) :
    s.shared.holds = s.shared.ledger.permanent + ∑ u, held (s.pc u) := by
  refine h.invariant (fun s => s.shared.holds = s.shared.ledger.permanent + ∑ u, held (s.pc u))
    ?_ ?_
  · simp [system, interleave, start, held]
  · intro s l s' hs _ hstep
    obtain ⟨c, g, hprog, rfl⟩ := interleave_step hstep
    have hlocal := program_holds hprog
    have hsum := sum_update held s.pc l.1 c
    simp only at hs ⊢
    omega

omit [Fintype T] in
theorem lock_owner (h : Reach system ok s) :
    ∀ u, locks (s.pc u) = true ↔ s.shared.lock = some u := by
  refine h.invariant (fun s => ∀ u, locks (s.pc u) = true ↔ s.shared.lock = some u) ?_ ?_
  · intro u
    simp [system, interleave, start, locks]
  · intro s l s' hs _ hstep
    obtain ⟨c, g, hprog, rfl⟩ := interleave_step hstep
    have hme := hs l.1
    refine forall_update (P := fun u c => locks c = true ↔ g.lock = some u) ?_ fun u hu => ?_
    · rcases program_lock hprog with ⟨hc, hg⟩ | ⟨-, hc, hg⟩ | ⟨-, hc, hg⟩
      · rw [hc, hg, hme]
      · simp [hc, hg]
      · simp [hc, hg]
    · rw [hs u]
      rcases program_lock hprog with ⟨-, hg⟩ | ⟨hnone, -, hg⟩ | ⟨hc, -, hg⟩
      · rw [hg]
      · simp [hnone, hg, hu.symm]
      · simp [hme.mp hc, hg, hu.symm]

/-- The life of a socket: it is in the table; one `mb_close` has taken it out and is
tearing it down; that `mb_close` has returned. -/
inductive Life (s : Threads T (Shared T) Pc) : Prop where
  | inTable (hpub : s.shared.published = true) (hledger : s.shared.ledger = ⟨2, 0, 0, 0⟩)
      (hnone : ∀ u, closing (s.pc u) = none)
  | byOne (t : T) (hpub : s.shared.published = false)
      (hledger : closing (s.pc t) = some s.shared.ledger)
      (hothers : ∀ u, u ≠ t → closing (s.pc u) = none)
  | gone (hpub : s.shared.published = false) (hledger : s.shared.ledger = ⟨0, 1, 1, 1⟩)
      (hnone : ∀ u, closing (s.pc u) = none)

omit [Fintype T] in
theorem life (h : Reach system ok s) : Life s := by
  refine h.invariant Life (.inTable rfl rfl fun _ => rfl) ?_
  intro s l s' hs _ hstep
  obtain ⟨c, g, hprog, rfl⟩ := interleave_step hstep
  -- what the others are doing does not change
  have hrest : ∀ {t : T}, (∀ u, u ≠ t → closing (s.pc u) = none) → closing c = none →
      ∀ u, u ≠ t → closing (Function.update s.pc l.1 c u) = none := fun hothers hc =>
    forall_update (P := fun u c => u ≠ _ → closing c = none) (fun _ => hc)
      fun u _ hu => hothers u hu
  cases hs with
  | inTable hpub hledger hnone =>
    rcases program_open hprog (hnone l.1) with ⟨hc, hg, hl⟩ | ⟨-, rfl, -, hg, hl⟩
    · exact .inTable (hg.trans hpub) (hl.trans hledger)
        (forall_update (P := fun _ c => closing c = none) hc fun u _ => hnone u)
    · refine .byOne l.1 hg ?_ ?_
      · simp [hl, hledger, closing]
      · intro u hu
        simp [hu, hnone u]
  | byOne t hpub hledger hothers =>
    by_cases htl : l.1 = t
    · subst htl
      obtain ⟨hg, hc | ⟨hc, hl⟩⟩ := program_closing hprog hledger
      · refine .byOne l.1 (hg.trans hpub) (by simpa using hc) ?_
        intro u hu
        simp [hu, hothers u hu]
      · exact .gone (hg.trans hpub) hl
          (forall_update (P := fun _ c => closing c = none) hc fun u hu => hothers u hu)
    · rcases program_open hprog (hothers l.1 htl) with ⟨hc, hg, hl⟩ | ⟨-, -, hpub', -⟩
      · refine .byOne t (hg.trans hpub) ?_ (hrest hothers hc)
        simp [Ne.symm htl, hl, hledger]
      · rw [hpub] at hpub'
        cases hpub'
  | gone hpub hledger hnone =>
    rcases program_open hprog (hnone l.1) with ⟨hc, hg, hl⟩ | ⟨-, -, hpub', -⟩
    · exact .gone (hg.trans hpub) (hl.trans hledger)
        (forall_update (P := fun _ c => closing c = none) hc fun u _ => hnone u)
    · rw [hpub] at hpub'
      cases hpub'

/-- **`holds` does not wrap**: it is not negative, and at most two more than there are threads. -/
theorem holds_bounded (h : Reach system ok s) :
    0 ≤ s.shared.holds ∧ s.shared.holds ≤ Fintype.card T + 2 := by
  have hheld (c : Pc) : 0 ≤ held c ∧ held c ≤ 1 := by
    unfold held
    split <;> decide
  have hperm : 0 ≤ s.shared.ledger.permanent ∧ s.shared.ledger.permanent ≤ 2 := by
    have hclosing (c : Pc) (k : Ledger) (hk : closing c = some k) :
        0 ≤ k.permanent ∧ k.permanent ≤ 2 := by
      unfold closing at hk
      split at hk
      case h_11 => cases hk
      all_goals
        obtain rfl := Option.some.inj hk
        decide
    cases life h with
    | inTable _ hledger _ => rw [hledger]; decide
    | byOne t _ hledger _ => exact hclosing _ _ hledger
    | gone _ hledger _ => rw [hledger]; decide
  have hlow : 0 ≤ ∑ u, held (s.pc u) := Finset.sum_nonneg fun u _ => (hheld _).1
  have hhigh : ∑ u, held (s.pc u) ≤ Fintype.card T • 1 :=
    Finset.sum_le_card_nsmul _ _ 1 fun u _ => (hheld _).2
  rw [Int.nsmul_eq_mul, Int.mul_one] at hhigh
  rw [holds_count h]
  omega

omit [Fintype T] in
theorem ledger_of_closing (h : Reach system ok s) {t : T} {k : Ledger}
    (ht : closing (s.pc t) = some k) : s.shared.ledger = k ∧ s.shared.published = false := by
  cases life h with
  | inTable _ _ hnone =>
    rw [hnone t] at ht
    cases ht
  | gone _ _ hnone =>
    rw [hnone t] at ht
    cases ht
  | byOne u hpub hledger hothers =>
    by_cases htu : t = u
    · subst htu
      rw [hledger] at ht
      exact ⟨Option.some.inj ht, hpub⟩
    · rw [hothers t htu] at ht
      cases ht

omit [Fintype T] in
theorem published_of_found (h : Reach system ok s) :
    ∀ u, found (s.pc u) = true → s.shared.published = true := by
  refine h.invariant_of_reach (fun s => ∀ u, found (s.pc u) = true → s.shared.published = true)
    ?_ ?_
  · intro u hu
    cases hu
  · intro s l s' hreach hs _ hstep
    obtain ⟨c, g, hprog, rfl⟩ := interleave_step hstep
    refine forall_update (P := fun _ c => found c = true → g.published = true) ?_ ?_
    · intro hc
      obtain ⟨hg, hfound | hpub⟩ := program_found hprog hc
      · rw [hg, hs l.1 hfound]
      · rw [hg, hpub]
    · intro u hu hfound
      have hpub := hs u hfound
      have hc : closing (s.pc l.1) = none := by
        by_contra hne
        obtain ⟨k, hk⟩ := Option.ne_none_iff_exists'.mp hne
        rw [(ledger_of_closing hreach hk).2] at hpub
        cases hpub
      rcases program_open hprog hc with ⟨-, hg, -⟩ | ⟨hunpublish, -⟩
      · rw [hg, hpub]
      · -- both would have the mutex
        have hlocks : locks (s.pc u) = true := by
          revert hfound
          cases s.pc u <;> simp [found, locks]
        have hmine : locks (s.pc l.1) = true := by rw [hunpublish]; rfl
        have heq := ((lock_owner hreach u).mp hlocks).symm.trans
          ((lock_owner hreach l.1).mp hmine)
        exact absurd (Option.some.inj heq) hu

theorem held_nonneg (c : Pc) : 0 ≤ held c := by
  unfold held
  split <;> decide

theorem closing_of_drained {c : Pc} (hc : drained c = true) : closing c ≠ none := by
  revert hc
  unfold drained closing
  split <;> simp

/-- INTERNAL: **once `mb_close` has waited, no thread has a hold.** -/
theorem held_of_drained (h : Reach system ok s) :
    ∀ t, drained (s.pc t) = true → ∀ u, held (s.pc u) = 0 := by
  refine h.invariant_of_reach
    (fun s => ∀ t, drained (s.pc t) = true → ∀ u, held (s.pc u) = 0) ?_ ?_
  · intro t ht
    cases ht
  · intro s l s' hreach hs _ hstep
    obtain ⟨c, g, hprog, rfl⟩ := interleave_step hstep
    -- a drained thread is there before the step, so nobody can take a hold
    have hkeep : ∀ t, drained (s.pc t) = true →
        ∀ u, held (Function.update s.pc l.1 c u) = 0 := by
      intro t ht
      have hall := hs t ht
      refine forall_update (P := fun _ c => held c = 0) ?_ fun u _ => hall u
      rcases program_held hprog with hle | hfound
      · rw [hall l.1] at hle
        exact le_antisymm hle (held_nonneg c)
      · obtain ⟨k, hk⟩ := Option.ne_none_iff_exists'.mp (closing_of_drained ht)
        have hpub := published_of_found hreach l.1 hfound
        rw [(ledger_of_closing hreach hk).2] at hpub
        cases hpub
    refine forall_update (P := fun _ c' => drained c' = true →
      ∀ u, held (Function.update s.pc l.1 c u) = 0) ?_ fun t _ => hkeep t
    intro hc
    rcases program_drained hprog hc with hdrained | ⟨hdrain, hholds, hheld⟩
    · exact hkeep l.1 hdrained
    · have hclosing : closing (s.pc l.1) = some ⟨0, 0, 0, 0⟩ := by rw [hdrain]; rfl
      have hcount := holds_count hreach
      rw [(ledger_of_closing hreach hclosing).1] at hcount
      refine forall_update (P := fun _ c => held c = 0) hheld fun u _ => ?_
      have hle := le_sum (w := held) (f := s.pc) held_nonneg u
      have hge := held_nonneg (s.pc u)
      simp only at hcount
      omega

/-- `mb_sock_term` and `mb_free` run once, for the one `mb_close` that returns, and when
no thread holds the socket. -/
def FreedOnce (s : Threads T (Shared T) Pc) : Prop :=
  s.shared.ledger.terms ≤ 1 ∧ s.shared.ledger.frees ≤ 1 ∧
  (0 < s.shared.ledger.returned →
    s.shared.ledger.terms = 1 ∧ s.shared.ledger.frees = 1) ∧
  ∀ t, s.pc t = .term ∨ s.pc t = .free → ∀ u, held (s.pc u) = 0

theorem freed_once (h : Reach system ok s) : FreedOnce s := by
  have hledger : s.shared.ledger.terms ≤ 1 ∧ s.shared.ledger.frees ≤ 1 ∧
      (0 < s.shared.ledger.returned →
        s.shared.ledger.terms = 1 ∧ s.shared.ledger.frees = 1) := by
    cases life h with
    | inTable _ hl _ => simp [hl]
    | gone _ hl _ => simp [hl]
    | byOne t _ hl _ =>
      revert hl
      generalize s.shared.ledger = k
      unfold closing
      split <;> simp +contextual [eq_comm]
  refine ⟨hledger.1, hledger.2.1, hledger.2.2, fun t ht => held_of_drained h t ?_⟩
  rcases ht with ht | ht <;> rw [ht] <;> rfl

/-! ## Runs in which `mb_shutdown` is safe -/

omit [Fintype T] in
theorem stopping_of_dropped (h : Reach system ok s) :
    (∀ u, s.pc u = .drop ∨ s.pc u = .dropLast → s.shared.stopping = true) ∧
    (s.shared.ledger.permanent ≠ 2 → s.shared.stopping = true) := by
  refine h.invariant (fun s =>
    (∀ u, s.pc u = .drop ∨ s.pc u = .dropLast → s.shared.stopping = true) ∧
    (s.shared.ledger.permanent ≠ 2 → s.shared.stopping = true)) ?_ ?_
  · simp [system, interleave, start]
  · rintro s l s' ⟨hdrop, hperm⟩ _ hstep
    obtain ⟨c, g, hprog, rfl⟩ := interleave_step hstep
    obtain ⟨hkeep, hset, hledger⟩ := program_stopping hprog
    constructor
    · refine forall_update (P := fun _ (c : Pc) => c = .drop ∨ c = .dropLast → g.stopping = true)
        ?_ ?_
      · intro hc
        rcases hset hc with hg | hc'
        · exact hg
        · exact hkeep (hdrop l.1 (.inl hc'))
      · exact fun u _ hu => hkeep (hdrop u hu)
    · intro hne
      rcases hledger with heq | ⟨-, hc⟩
      · exact hkeep (hperm (heq ▸ hne))
      · exact hkeep (hdrop l.1 hc)

/-- Nothing can come into flight any more. -/
structure Shut (s : Threads T (Shared T) Pc) : Prop where
  stopping : s.shared.stopping = true
  entering : ∀ u, entering (s.pc u) = false

/-- What a waiting `mb_shutdown` relies on, and what it has found out when it stops the
socket. -/
structure Quiet (s : Threads T (Shared T) Pc) : Prop where
  wait : ∀ t, s.pc t = .wait → Shut s ∧
    (s.shared.ledger.permanent = 2 ∨ ∀ u, inFlight (s.pc u) = false)
  stop : ∀ t, s.pc t = .stop .shutdown → Shut s ∧ ∀ u, inFlight (s.pc u) = false

theorem held_of_inFlight {c : Pc} (hc : inFlight c = true) : held c = 1 := by
  revert hc
  unfold inFlight held
  split <;> simp

section Ordered

variable {s' : Threads T (Shared T) Pc} {l : T × Act}

omit [Fintype T] in
theorem Shut.step (hs : Shut s) (hstep : system.step s l = some s') : Shut s' := by
  obtain ⟨c, g, hprog, rfl⟩ := interleave_step hstep
  refine ⟨(program_stopping hprog).1 hs.stopping,
    forall_update (P := fun _ c => Teardown.entering c = false) ?_ fun u _ => hs.entering u⟩
  by_contra hc
  have hnot := (program_entering hprog).1 (by simpa using hc)
  rw [hs.stopping] at hnot
  cases hnot

omit [Fintype T] in
theorem Shut.inFlight_step (hs : Shut s) (hnone : ∀ u, inFlight (s.pc u) = false)
    (hstep : system.step s l = some s') : ∀ u, inFlight (s'.pc u) = false := by
  obtain ⟨c, g, hprog, rfl⟩ := interleave_step hstep
  refine forall_update (P := fun _ c => inFlight c = false) ?_ fun u _ => hnone u
  by_contra hc
  rcases (program_entering hprog).2 (by simpa using hc) with hfl | hen
  · rw [hnone l.1] at hfl
    cases hfl
  · rw [hs.entering l.1] at hen
    cases hen

omit [Fintype T] in
theorem wait_cases (hstep : system.step s l = some s') {t : T} (ht : s'.pc t = .wait) :
    s.pc t = .wait ∨ (t = l.1 ∧ l.2 = .run ∧ s.pc t = .flag ∧ s.shared.stopping = false ∧
      s'.shared = { s.shared with stopping := true }) := by
  obtain ⟨c, g, hprog, rfl⟩ := interleave_step hstep
  dsimp only at ht ⊢
  by_cases htl : t = l.1
  · subst htl
    rw [Function.update_self] at ht
    rcases (program_wait hprog).1 ht with hc | ⟨hl, hc, hs, hg⟩
    · exact .inl hc
    · exact .inr ⟨rfl, hl, hc, hs, hg⟩
  · rw [Function.update_of_ne htl] at ht
    exact .inl ht

omit [Fintype T] in
theorem stop_cases (hstep : system.step s l = some s') {t : T}
    (ht : s'.pc t = .stop .shutdown) :
    s.pc t = .stop .shutdown ∨ (s.pc t = .wait ∧ s.shared.holds ≤ 3) := by
  obtain ⟨c, g, hprog, rfl⟩ := interleave_step hstep
  dsimp only at ht ⊢
  by_cases htl : t = l.1
  · subst htl
    rw [Function.update_self] at ht
    exact .inr ((program_wait hprog).2 ht)
  · rw [Function.update_of_ne htl] at ht
    exact .inl ht

theorem alone_of_holds_le (h : Reach system ok s) {t : T} (ht : s.pc t = .wait)
    (hperm : s.shared.ledger.permanent = 2) (hholds : s.shared.holds ≤ 3) :
    ∀ u, inFlight (s.pc u) = false := by
  intro u
  by_contra hu
  have hflight : inFlight (s.pc u) = true := by simpa using hu
  have htu : t ≠ u := by
    rintro rfl
    rw [ht] at hflight
    cases hflight
  have hle := add_le_sum_of_ne (w := held) (f := s.pc) held_nonneg htu
  rw [held_of_inFlight hflight, ht] at hle
  have hcount := holds_count h
  rw [hperm] at hcount
  have hwait : held .wait = 1 := rfl
  omega

theorem quiet_step (h : Reach system ok s) (hs : Quiet s) (hok : Ordered s l)
    (hstep : system.step s l = some s') : Quiet s' := by
  have hledger : s'.shared.ledger.permanent = s.shared.ledger.permanent ∨
      l.2 = .run ∧ (s.pc l.1 = .drop ∨ s.pc l.1 = .dropLast) := by
    obtain ⟨c, g, hprog, rfl⟩ := interleave_step hstep
    exact (program_stopping hprog).2.2
  constructor
  · intro t ht
    rcases wait_cases hstep ht with hwait | ⟨rfl, hrun, hflag, hclear, hshared⟩
    · obtain ⟨hshut, hroom⟩ := hs.wait t hwait
      refine ⟨hshut.step hstep, ?_⟩
      rcases hroom with hperm | hnone
      · rcases hledger with heq | ⟨hrun, hdrop⟩
        · exact .inl (heq.trans hperm)
        · -- `mb_close` drops a reference: nothing is in flight
          exact .inr (hshut.inFlight_step (hok.2 hrun hdrop ⟨t, hwait⟩) hstep)
      · exact .inr (hshut.inFlight_step hnone hstep)
    · -- this call has set the flag
      have hperm : s.shared.ledger.permanent = 2 := by
        by_contra hne
        have hset := (stopping_of_dropped h).2 hne
        rw [hclear] at hset
        cases hset
      obtain ⟨c, g, hprog, rfl⟩ := interleave_step hstep
      have hg : g = { s.shared with stopping := true } := hshared
      subst hg
      refine ⟨⟨rfl, forall_update (P := fun _ c => Teardown.entering c = false) ?_
        fun u _ => hok.1 hrun hflag hclear u⟩, .inl hperm⟩
      have hc : c = .wait := by simpa using ht
      rw [hc]
      rfl
  · intro t ht
    rcases stop_cases hstep ht with hstop | ⟨hwait, hholds⟩
    · obtain ⟨hshut, hnone⟩ := hs.stop t hstop
      exact ⟨hshut.step hstep, hshut.inFlight_step hnone hstep⟩
    · obtain ⟨hshut, hroom⟩ := hs.wait t hwait
      have hnone : ∀ u, inFlight (s.pc u) = false :=
        hroom.elim (fun hperm => alone_of_holds_le h hwait hperm hholds) id
      exact ⟨hshut.step hstep, hshut.inFlight_step hnone hstep⟩

end Ordered

theorem quiet (h : Reach system Ordered s) : Quiet s :=
  h.invariant_of_reach Quiet ⟨nofun, nofun⟩
    fun _ _ _ hreach hs hok hstep => quiet_step hreach hs hok hstep

/-- When `mb_sock_stop` begins to tear the socket down, no other thread has a send or recv in
flight. -/
def TearsDownAlone (s : Threads T (Shared T) Pc) : Prop :=
  ∀ t b, s.pc t = .stop b → s.shared.state = .active →
    ∀ u, u ≠ t → inFlight (s.pc u) = false

/-- **Teardown waits for the calls in flight**, in every run in which `mb_shutdown` sets the
flag when no send or recv is about to take its hold, and `mb_close` drops no reference while
an `mb_shutdown` waits for one; the socket is freed once, when no thread holds it.
SRC: global.c:297-344, 506-534, 1149-1170 -/
theorem teardown_waits (h : Reach system Ordered s) : TearsDownAlone s ∧ FreedOnce s := by
  refine ⟨?_, freed_once h⟩
  intro t b ht _ u _
  cases b with
  | shutdown => exact ((quiet h).stop t ht).2 u
  | close =>
    have hzero := held_of_drained h t (by rw [ht]; rfl) u
    by_contra hu
    rw [held_of_inFlight (by simpa using hu)] at hzero
    cases hzero

end Run

/-! ## Three threads -/

/-- `k` steps of one thread. -/
def runs {n : ℕ} (t : Fin n) (k : ℕ) : List (Fin n × Act) := List.replicate k (t, .run)

/-- A send ends, then `mb_shutdown` tears the socket down, then `mb_close` frees it. -/
def inTurn : List (Fin 3 × Act) :=
  (0, .hold .send) :: runs 0 4 ++ (1, .hold .shutdown) :: runs 1 5 ++ runs 0 1 ++ runs 1 4 ++
    (2, .close) :: runs 2 10

/-- The socket is freed and the `mb_close` has returned. -/
theorem teardown_waits_inTurn :
    ∃ s, Reach (system (T := Fin 3)) Ordered s ∧ s.shared.ledger = ⟨0, 1, 1, 1⟩ ∧
      TearsDownAlone s ∧ FreedOnce s := by
  have hrun : ((system (T := Fin 3)).run start inTurn).isSome := by decide
  have hmeets : (system (T := Fin 3)).Meets Ordered start inTurn := by decide
  have hreach := Reach.of_run Reach.init hmeets (Option.some_get hrun).symm
  exact ⟨_, hreach, rfl, teardown_waits hreach⟩

/-- A send is in flight and `mb_shutdown` waits for it; `mb_close` drops the two references
of the socket, and `holds` is `2`. -/
def closeDuringShutdown : List (Fin 3 × Act) :=
  (0, .hold .send) :: runs 0 4 ++ (1, .hold .shutdown) :: runs 1 5 ++
    (2, .close) :: runs 2 5 ++ runs 1 1

/-- A send has seen that the flag is not set; `mb_shutdown` sets it and sees its own hold
alone; the send takes its hold. -/
def holdDuringShutdown : List (Fin 2 × Act) :=
  (1, .hold .shutdown) :: runs 1 4 ++ (0, .hold .send) :: runs 0 2 ++ runs 1 2 ++ runs 0 2

/-- In both runs `mb_shutdown` is about to tear the socket down with a send in flight. -/
theorem teardown_overtakes_send :
    (∃ s, Reach (system (T := Fin 3)) (fun _ _ => True) s ∧ s.pc 0 = .operating ∧
      s.pc 1 = .stop .shutdown ∧ ¬ TearsDownAlone s) ∧
    ∃ s, Reach (system (T := Fin 2)) (fun _ _ => True) s ∧ s.pc 0 = .operating ∧
      s.pc 1 = .stop .shutdown ∧ ¬ TearsDownAlone s := by
  have hrun₃ : ((system (T := Fin 3)).run start closeDuringShutdown).isSome := by decide
  have hrun₂ : ((system (T := Fin 2)).run start holdDuringShutdown).isSome := by decide
  constructor
  · refine ⟨_, Reach.of_run_init (Option.some_get hrun₃).symm, rfl, rfl, fun h => ?_⟩
    cases h 1 .shutdown rfl rfl 0 (by decide)
  · refine ⟨_, Reach.of_run_init (Option.some_get hrun₂).symm, rfl, rfl, fun h => ?_⟩
    cases h 1 .shutdown rfl rfl 0 (by decide)

end MsgBroker.Analysis.TeardownSafety
