import MsgBroker.Analysis.ConnCalls
import MsgBroker.Lib.Census

/-!
# The gauge of the endpoint errors

`MB_STAT_CURRENT_EP_ERRORS` goes up when an endpoint gets its first error and down when the error is
cleared.
-/

set_option autoImplicit false

namespace MsgBroker.Analysis.EpErrors

open Lib Model
open Function (update update_of_ne update_self)

variable {S P E : Type} {w : Wiring S P E} {k : S} {d : ℕ} {s t : Conns S P E}

/-- The endpoint is there, belongs to the socket and has an error. -/
def Faulty (w : Wiring S P E) (k : S) (e : E) (x : EpState) : Prop :=
  x.phase ≠ .absent ∧ w.sock e = k ∧ x.lastErrno ≠ none

instance [DecidableEq S] (w : Wiring S P E) (k : S) (e : E) (x : EpState) :
    Decidable (Faulty w k e x) := inferInstanceAs (Decidable (_ ∧ _ ∧ _))

/-- The gauge of the socket is `d` above the number of its endpoints with an error. -/
structure Surplus (w : Wiring S P E) (k : S) (d : ℕ) (s : Conns S P E) : Prop where
  finite : (having (Faulty w k) s.eps).Finite
  gauge : (s.stats k).epErrors = Int32.ofInt (census (Faulty w k) s.eps + d)

theorem Surplus.congr (h : Surplus w k d s) (heps : t.eps = s.eps)
    (hstats : (t.stats k).epErrors = (s.stats k).epErrors) : Surplus w k d t := by
  constructor
  · rw [heps]
    exact h.finite
  · rw [hstats, heps]
    exact h.gauge

/-- INTERNAL: an increment of an `int`. -/
theorem int32_add_one (x : ℤ) : Int32.ofInt (x + 1) = Int32.ofInt x + 1 := Int32.ofInt_add x 1

/-- INTERNAL: a decrement of an `int`. -/
theorem int32_sub_one (x : ℤ) : Int32.ofInt (x - 1) = Int32.ofInt x - 1 := Int32.ofInt_sub x 1

/-! ## The calls -/

section Calls

variable [DecidableEq S] [DecidableEq E] {e : E} {p q : P}

theorem Surplus.epSetError (h : Surplus w k d s) (he : (s.eps e).phase ≠ .absent)
    (err : Option Errno) : Surplus w k d (s.epSetError w e err) := by
  refine ⟨having_update_finite _ h.finite _ _, ?_⟩
  have hup := census_update (Faulty w k) h.finite e ⟨(s.eps e).phase, err⟩
  have hgauge := h.gauge
  show (update s.stats (w.sock e) _ k).epErrors =
    Int32.ofInt ((census (Faulty w k) (update s.eps e ⟨(s.eps e).phase, err⟩) : ℤ) + d)
  by_cases hk : w.sock e = k
  · subst hk
    have hold : ind (Faulty w (w.sock e) e (s.eps e)) = ind ((s.eps e).lastErrno ≠ none) := by
      simp only [ind, Faulty, he, ne_eq, not_false_eq_true, true_and]
    have hnew : ind (Faulty w (w.sock e) e ⟨(s.eps e).phase, err⟩) = ind (err ≠ none) := by
      simp only [ind, Faulty, he, ne_eq, not_false_eq_true, true_and]
    rw [hold, hnew] at hup
    rw [update_self, hup]
    unfold ConnStats.epError
    rw [hgauge]
    cases (s.eps e).lastErrno with
    | none =>
      cases err with
      | none => simp [ind]
      | some c =>
        simp only [ind, ne_eq, not_true_eq_false, if_false, reduceCtorEq, not_false_eq_true,
          and_self, if_true, ← int32_add_one]
        congr 1
        omega
    | some c =>
      cases err with
      | none =>
        simp only [ind, ne_eq, not_true_eq_false, if_false, reduceCtorEq, not_false_eq_true,
          and_self, if_true, ← int32_sub_one]
        congr 1
        omega
      | some c => simp [ind]
  · rw [ind_neg fun hcon => hk hcon.2.1, ind_neg fun hcon => hk hcon.2.1] at hup
    rw [update_of_ne (Ne.symm hk), hgauge, hup, sub_zero, add_zero]

omit [DecidableEq E] in
theorem Surplus.onStats (h : Surplus w k d s) (k' : S) (f : ConnStats → ConnStats)
    (hf : ∀ st, (f st).epErrors = st.epErrors) : Surplus w k d (s.onStats k' f) := by
  refine h.congr rfl ?_
  show (update s.stats k' _ k).epErrors = (s.stats k).epErrors
  by_cases hk : k = k'
  · subst hk
    rw [update_self, hf]
  · rw [update_of_ne hk]

theorem Surplus.writeEp (h : Surplus w k d s) (e : E) (x : EpState) {d' : ℕ}
    (hd : (d' : ℤ) + ind (Faulty w k e x) = d + ind (Faulty w k e (s.eps e))) :
    Surplus w k d' { s with eps := update s.eps e x } := by
  refine ⟨having_update_finite _ h.finite _ _, ?_⟩
  have hup := census_update (Faulty w k) h.finite e x
  have hgauge := h.gauge
  show (s.stats k).epErrors =
    Int32.ofInt ((census (Faulty w k) (update s.eps e x) : ℤ) + d')
  rw [hgauge, hup]
  congr 1
  omega

variable [DecidableEq P]

omit [DecidableEq S] [DecidableEq E] in
theorem Surplus.setState (h : Surplus w k d s) (p : P) (x : PipeState) :
    Surplus w k d (s.setState p x) := h.congr rfl rfl

omit [DecidableEq S] [DecidableEq E] in
theorem Surplus.setPeers (h : Surplus w k d s) (p q : P) (x y : Option P) :
    Surplus w k d (s.setPeers p q x y) := h.congr rfl rfl

theorem Surplus.start (h : Surplus w k d s) {add : Rc} {r : Rc × Conns S P E}
    (hs : s.pipebaseStart w p add = some r) : Surplus w k d r.2 := by
  unfold Conns.pipebaseStart at hs
  split at hs
  · cases hs
  · rename_i hthere
    cases add with
    | ok =>
      cases hs
      exact ((h.setState p .active).epSetError hthere none).onStats _ _ fun _ => rfl
    | err c =>
      cases hs
      exact ((h.setState p .active).setState p .failed).epSetError hthere (some c)

omit [DecidableEq E] in
theorem Surplus.stop (h : Surplus w k d s) (hs : s.pipebaseStop w p = some t) :
    Surplus w k d t := by
  obtain ⟨-, rfl⟩ := pipebaseStop_eq_some.mp hs
  exact (h.onStats _ .stopped fun _ => rfl).setState p .idle

omit [DecidableEq E] in
theorem Surplus.cancel (h : Surplus w k d s) (hs : s.pipebaseCancel w p = some t) :
    Surplus w k d t := by
  obtain ⟨-, rfl⟩ := pipebaseCancel_eq_some.mp hs
  exact (h.onStats _ (.cancelled (w.bindOf p)) fun _ => rfl).setState p .idle

theorem Surplus.connect (h : Surplus w k d s) {add peerAdd : Rc} {r : Rc × Conns S P E}
    (hs : s.sinprocConnect w p q add peerAdd = some r) : Surplus w k d r.2 := by
  obtain ⟨c, u, hself, rfl⟩ | ⟨u, hself, hpeer⟩ := sinprocConnect_cases hs
  · exact ((h.setPeers p q _ _).start hself).setPeers p q none none
  · have hu := (h.setPeers p q _ _).start hself
    obtain ⟨v, hv, rfl⟩ | ⟨c, v, t, hv, ht, rfl⟩ := hpeer
    · exact hu.start hv
    · exact ((hu.start hv).setPeers p q none none).cancel ht

omit [DecidableEq E] in
theorem Surplus.sinprocStop (h : Surplus w k d s) (hs : s.sinprocStop w p = some t) :
    Surplus w k d t :=
  sinprocStop_keeps (fun _ p q h => h.setPeers p q none none) (fun _ _ _ h hs => h.stop hs) h hs

/-- If the transport fails to create an endpoint of the socket, the endpoint has no error then. -/
def FailsClean (w : Wiring S P E) (k : S) (s : Conns S P E) : ConnOp P E → Prop
  | .epCreated e (.err _) => w.sock e = k → (s.eps e).lastErrno = none
  | _ => True

instance (w : Wiring S P E) (k : S) (s : Conns S P E) :
    (op : ConnOp P E) → Decidable (FailsClean w k s op)
  | .epCreated e (.err _) => inferInstanceAs (Decidable (w.sock e = k → (s.eps e).lastErrno = none))
  | .epCreated _ .ok | .start _ _ | .stop _ | .cancel _ | .sinprocConnect _ _ _ _
  | .sinprocStop _ | .epInit _ | .epSetError _ _ | .epTerm _ => isTrue trivial

omit [DecidableEq P] in
/-- INTERNAL: **the transport returns**, and an endpoint that is freed with an error leaves its
error in the gauge. -/
theorem Surplus.created (h : Surplus w k d s) {rc : Rc} (hs : s.epCreated e rc = some t) :
    (FailsClean w k s (.epCreated e rc) → Surplus w k d t) ∧
      (¬ FailsClean w k s (.epCreated e rc) → Surplus w k (d + 1) t) := by
  unfold Conns.epCreated at hs
  split at hs
  · rename_i hphase
    cases hs
    cases rc with
    | ok =>
      refine ⟨fun _ => h.writeEp e _ ?_, fun hcon => absurd trivial hcon⟩
      simp [Faulty, hphase]
    | err c =>
      have hfreed : ind (Faulty w k e ⟨.absent, (s.eps e).lastErrno⟩) = 0 :=
        ind_neg fun hcon => hcon.1 rfl
      constructor
      · intro hclean
        refine h.writeEp e _ ?_
        rw [hfreed, ind_neg fun hcon => hcon.2.2 (hclean hcon.2.1)]
      · intro hdirty
        obtain ⟨hk, herr⟩ := Classical.not_imp.mp hdirty
        refine h.writeEp e _ ?_
        rw [hfreed, ind_pos ⟨by rw [hphase]; decide, hk, herr⟩]
        push_cast
        omega
  · cases hs

theorem Surplus.step (h : Surplus w k d s) {op : ConnOp P E}
    (hs : (Conns.system w).step s op = some t) :
    (FailsClean w k s op → Surplus w k d t) ∧
      (¬ FailsClean w k s op → Surplus w k (d + 1) t) := by
  cases op with
  | epCreated e rc => exact h.created hs
  | start p add =>
    obtain ⟨r, hr, rfl⟩ := Option.map_eq_some_iff.mp hs
    exact ⟨fun _ => h.start hr, fun hcon => absurd trivial hcon⟩
  | stop p => exact ⟨fun _ => h.stop hs, fun hcon => absurd trivial hcon⟩
  | cancel p => exact ⟨fun _ => h.cancel hs, fun hcon => absurd trivial hcon⟩
  | sinprocConnect p q add peerAdd =>
    obtain ⟨r, hr, rfl⟩ := Option.map_eq_some_iff.mp hs
    exact ⟨fun _ => h.connect hr, fun hcon => absurd trivial hcon⟩
  | sinprocStop p => exact ⟨fun _ => h.sinprocStop hs, fun hcon => absurd trivial hcon⟩
  | epInit e =>
    simp only [Conns.system, Conns.epInit] at hs
    split at hs
    · rename_i habsent
      cases hs
      refine ⟨fun _ => h.writeEp e _ ?_, fun hcon => absurd trivial hcon⟩
      rw [ind_neg fun hcon => hcon.2.2 rfl, ind_neg fun hcon => hcon.1 habsent]
    · cases hs
  | epSetError e err =>
    simp only [Conns.system] at hs
    split at hs
    · cases hs
    · rename_i hthere
      cases hs
      exact ⟨fun _ => h.epSetError hthere err, fun hcon => absurd trivial hcon⟩
  | epTerm e =>
    simp only [Conns.system, Conns.epTerm] at hs
    split at hs
    · cases hs
    · rename_i hthere
      cases hs
      refine ⟨fun _ => (h.epSetError hthere none).writeEp e _ ?_, fun hcon => absurd trivial hcon⟩
      -- `mb_ep_term` has cleared the error before the endpoint goes.
      have hclear : ((s.epSetError w e none).eps e).lastErrno = none := by
        show (update s.eps e ⟨(s.eps e).phase, none⟩ e).lastErrno = none
        rw [update_self]
      rw [ind_neg fun hcon => hcon.1 rfl, ind_neg fun hcon => hcon.2.2 hclear]

/-- How often, from `s` on, the transport failed to create an endpoint of the socket that had an
error by then. -/
def leaks (w : Wiring S P E) (k : S) : Conns S P E → List (ConnOp P E) → ℕ
  | _, [] => 0
  | s, op :: ops =>
    (if FailsClean w k s op then 0 else 1) +
      match (Conns.system w).step s op with
      | none => 0
      | some t => leaks w k t ops

/-- INTERNAL: a run raises the surplus by its leaks. -/
theorem Surplus.run {ops : List (ConnOp P E)} (h : Surplus w k d s)
    (hrun : (Conns.system w).run s ops = some t) : Surplus w k (d + leaks w k s ops) t := by
  induction ops generalizing d s with
  | nil =>
    cases hrun
    exact h
  | cons op ops ih =>
    obtain ⟨u, hu, hrest⟩ := Option.bind_eq_some_iff.mp hrun
    obtain ⟨hclean, hdirty⟩ := h.step hu
    simp only [leaks, hu]
    rw [← Nat.add_assoc]
    by_cases hok : FailsClean w k s op
    · rw [if_pos hok]
      exact ih (hclean hok) hrest
    · rw [if_neg hok]
      exact ih (hdirty hok) hrest

/-- INTERNAL: nothing leaks in a run whose creations fail clean. -/
theorem leaks_eq_zero_iff (s : Conns S P E) (ops : List (ConnOp P E)) :
    leaks w k s ops = 0 ↔ (Conns.system w).Meets (FailsClean w k) s ops := by
  induction ops generalizing s with
  | nil => exact iff_of_true rfl trivial
  | cons op ops ih =>
    rw [leaks, System.Meets, Nat.add_eq_zero_iff]
    refine and_congr (by split_ifs with hok <;> simp [hok]) ?_
    cases hu : (Conns.system w).step s op with
    | none => simp
    | some u => simp [ih u]

/-- INTERNAL: when an `int` shows a number that had `l` added to it. -/
theorem toInt_ofInt_add_eq_iff (c l : ℕ) :
    (Int32.ofInt (c + l)).toInt = c ↔ c < 2 ^ 31 ∧ 2 ^ 32 ∣ l := by
  have hsize : (Int32.size : ℤ) = 4294967296 := rfl
  rw [Int32.toInt_ofInt, Int.bmod_def, hsize]
  omega

omit [DecidableEq S] [DecidableEq P] [DecidableEq E] in
theorem Surplus.init (w : Wiring S P E) (k : S) : Surplus w k 0 Conns.init := by
  have hnone : ∀ e, ¬ Faulty w k e ((Conns.init : Conns S P E).eps e) := fun e hcon => hcon.1 rfl
  constructor
  · rw [having_eq_empty _ hnone]
    exact Set.finite_empty
  · rw [census_eq_zero _ hnone]
    rfl

/-- After any calls, when no creation of an endpoint is under way: the gauge of a socket is the
number of the endpoints it owns whose `last_errno` is not 0 if and only if this number fits an `int`
and the failures of the transport to create an endpoint of the socket that had an error by then are
a multiple of `2 ^ 32`.  There are none if every creation that failed had no error at that time.
SRC: ep.c:14-65, 114-126, pipe.c:67-79, global.c:439-456 -/
theorem ep_error_gauge_exact_iff {ops : List (ConnOp P E)}
    (hrun : (Conns.system w).run Conns.init ops = some s)
    (hdone : ∀ e, (s.eps e).phase ≠ .creating) (k : S) :
    ((s.stats k).epErrors.toInt =
        {e | (s.eps e).phase = .owned ∧ w.sock e = k ∧ (s.eps e).lastErrno ≠ none}.ncard ↔
      {e | (s.eps e).phase = .owned ∧ w.sock e = k ∧ (s.eps e).lastErrno ≠ none}.ncard < 2 ^ 31 ∧
        2 ^ 32 ∣ leaks w k Conns.init ops) ∧
    (leaks w k Conns.init ops = 0 ↔ (Conns.system w).Meets (FailsClean w k) Conns.init ops) := by
  have howned : {e | (s.eps e).phase = .owned ∧ w.sock e = k ∧ (s.eps e).lastErrno ≠ none} =
      having (Faulty w k) s.eps := by
    ext e
    refine and_congr_left fun _ => ?_
    have hphase := hdone e
    cases hx : (s.eps e).phase <;> simp_all
  have hgauge := ((Surplus.init w k).run hrun).gauge
  rw [howned, hgauge, Nat.zero_add]
  exact ⟨toInt_ofInt_add_eq_iff _ _, leaks_eq_zero_iff _ _⟩

end Calls

/-- One socket with a pipe of each of its two endpoints. -/
def oneSocket : Wiring Unit Bool Bool := ⟨id, fun _ => (), id⟩

/-- The second endpoint connects, and the protocol refuses its pipe after the endpoint is owned;
an endpoint that fails before it has an error comes and goes. -/
def refusedLater : List (ConnOp Bool Bool) :=
  [.epInit true, .epCreated true .ok, .start true .ok,
    .epInit false, .epCreated false (.err .EADDRINUSE),
    .epInit false, .epCreated false .ok, .start false (.err .EISCONN)]

/-- The gauge counts the endpoint that was refused. -/
theorem ep_error_gauge_refused :
    ∃ s, (Conns.system oneSocket).run Conns.init refusedLater = some s ∧
      (s.stats ()).epErrors.toInt = 1 ∧
      {e | (s.eps e).phase = .owned ∧ oneSocket.sock e = () ∧
        (s.eps e).lastErrno ≠ none}.ncard = 1 := by
  have hval : ((Conns.system oneSocket).run Conns.init refusedLater).map
      (fun s => ((s.stats ()).epErrors.toInt, decide (∀ e, (s.eps e).phase ≠ .creating))) =
        some (1, true) := by decide +kernel
  have hok : (Conns.system oneSocket).Meets (FailsClean oneSocket ()) Conns.init
      refusedLater := by decide +kernel
  obtain ⟨s, hrun, hs⟩ := Option.map_eq_some_iff.mp hval
  obtain ⟨hgauge, hdone⟩ := Prod.mk.inj hs
  obtain ⟨hexact, hzero⟩ := ep_error_gauge_exact_iff hrun (of_decide_eq_true hdone) ()
  have htwo : {e | (s.eps e).phase = .owned ∧ oneSocket.sock e = () ∧
      (s.eps e).lastErrno ≠ none}.ncard ≤ 2 := by
    refine (Set.ncard_le_card _).trans ?_
    simp
  have hcount := hexact.mpr ⟨by omega, by rw [hzero.mpr hok]; exact Nat.dvd_zero _⟩
  rw [hgauge] at hcount
  exact ⟨s, hrun, hgauge, Int.ofNat.inj hcount.symm⟩

/-- The pipe of a second endpoint is refused while the transport still creates the endpoint: the
creation fails, and its error stays in the gauge of a socket with no faulty endpoint. -/
theorem gauge_keeps_freed_endpoint :
    ∃ s, (Conns.system oneSocket).run Conns.init
        [.epInit true, .epCreated true .ok, .start true .ok, .epInit false,
          .start false (.err .EISCONN), .epCreated false (.err .EISCONN)] = some s ∧
      (s.stats ()).epErrors = 1 ∧
      {e | (s.eps e).phase = .owned ∧ oneSocket.sock e = () ∧
        (s.eps e).lastErrno ≠ none} = ∅ := by
  have hval : ((Conns.system oneSocket).run Conns.init
      [.epInit true, .epCreated true .ok, .start true .ok, .epInit false,
        .start false (.err .EISCONN), .epCreated false (.err .EISCONN)]).map
      (fun s => ((s.stats ()).epErrors, decide (∀ e, ¬ ((s.eps e).phase = .owned ∧
        oneSocket.sock e = () ∧ (s.eps e).lastErrno ≠ none)))) = some (1, true) := by
    decide +kernel
  obtain ⟨s, hrun, hs⟩ := Option.map_eq_some_iff.mp hval
  obtain ⟨hgauge, hnone⟩ := Prod.mk.inj hs
  exact ⟨s, hrun, hgauge, Set.eq_empty_of_forall_notMem (of_decide_eq_true hnone)⟩

end MsgBroker.Analysis.EpErrors
