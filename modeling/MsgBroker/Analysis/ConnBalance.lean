import MsgBroker.Analysis.ConnCalls
import MsgBroker.Lib.Census

/-!
# The balance of the connection counters

For every socket, `current_connections` is the number of its active pipes, and the connections that
were established or accepted are those that are current and those that broke.
-/

set_option autoImplicit false

namespace MsgBroker.Analysis.ConnBalance

open Lib Model
open Function (update update_idem update_of_ne update_self)

variable {S P E : Type} {w : Wiring S P E} {s t : Conns S P E}

/-- The active pipes of a socket that are bound or connected. -/
noncomputable def active (w : Wiring S P E) (k : S) (b : Bool) (state : P → PipeState) : ℕ :=
  census (fun p x => x = .active ∧ w.sockOf p = k ∧ w.bindOf p = b) state

/-- The active pipes of a socket. -/
noncomputable def conns (w : Wiring S P E) (k : S) (state : P → PipeState) : ℕ :=
  active w k true state + active w k false state

/-- Finitely many pipes are active. -/
def Few (state : P → PipeState) : Prop := (having (fun _ x => x = .active) state).Finite

/-- The counters of the socket `k` fit the states of the pipes, of which at most `n` were
started. -/
structure BalanceAt (w : Wiring S P E) (k : S) (n : ℕ) (state : P → PipeState)
    (st : ConnStats) : Prop where
  current : st.current.toInt = conns w k state
  accepted : active w k true state ≤ st.accepted.toNat
  established : active w k false state ≤ st.established.toNat
  total : st.established.toNat + st.accepted.toNat = conns w k state + st.broken.toNat
  starts : st.established.toNat + st.accepted.toNat ≤ n

/-- All counters fit. -/
structure Balance (w : Wiring S P E) (n : ℕ) (s : Conns S P E) : Prop where
  few : Few s.state
  fits : ∀ k, BalanceAt w k n s.state (s.stats k)

/-! ## Steps of the counters -/

section Counters

variable {x : Int32} {y : UInt64} {c : ℕ}

/-- INTERNAL: an `int` is incremented. -/
theorem toInt_succ (h : x.toInt = c) (hc : c + 1 < 2 ^ 31) : (x + 1).toInt = (c + 1 : ℕ) := by
  rw [Int32.toInt_add, h, Int32.toInt_one, Int.bmod_eq_of_le] <;> omega

/-- INTERNAL: an `int` is decremented, and the guard is passed. -/
theorem toInt_pred (h : x.toInt = (c + 1 : ℕ)) :
    (if 0 < x then x - 1 else x).toInt = c := by
  have hlt := x.toInt_lt
  have hpos : 0 < x := by
    rw [Int32.lt_iff_toInt_lt, h, Int32.toInt_zero]
    omega
  rw [if_pos hpos, Int32.toInt_sub, h, Int32.toInt_one, Int.bmod_eq_of_le] <;> omega

/-- INTERNAL: a `uint64_t` is incremented. -/
theorem toNat_succ (h : y.toNat + 1 < 2 ^ 64) : (y + 1).toNat = y.toNat + 1 := by
  rw [UInt64.toNat_add, UInt64.toNat_one, Nat.mod_eq_of_lt h]

/-- INTERNAL: a `uint64_t` is decremented. -/
theorem toNat_pred (h : 0 < y) : (y - 1).toNat = y.toNat - 1 :=
  UInt64.toNat_sub_of_le _ _ (UInt64.le_iff_toNat_le.mpr (UInt64.lt_iff_toNat_lt.mp h))

/-- INTERNAL: the guard of a counter that is not 0. -/
theorem zero_lt_of_toNat (h : 0 < y.toNat) : 0 < y := UInt64.lt_iff_toNat_lt.mpr h

end Counters

/-! ## One pipe -/

section OnePipe

variable {p : P} {x : PipeState} {st : ConnStats} {state state' : P → PipeState}

/-- INTERNAL: only the numbers of the active pipes matter. -/
theorem BalanceAt.congr {k : S} {n : ℕ} (h : BalanceAt w k n state st)
    (hsame : ∀ b, active w k b state' = active w k b state) : BalanceAt w k n state' st := by
  have hconns : conns w k state' = conns w k state := by rw [conns, hsame, hsame, conns]
  exact ⟨by rw [hconns]; exact h.current, by rw [hsame]; exact h.accepted,
    by rw [hsame]; exact h.established, by rw [hconns]; exact h.total, h.starts⟩

/-- INTERNAL: the bound of the starts may grow. -/
theorem Balance.mono {n m : ℕ} (h : Balance w n s) (hnm : n ≤ m) : Balance w m s :=
  ⟨h.few, fun k => { h.fits k with starts := (h.fits k).starts.trans hnm }⟩

theorem Few.finite_active (h : Few state) (w : Wiring S P E) (k : S) (b : Bool) :
    (having (fun p x => x = .active ∧ w.sockOf p = k ∧ w.bindOf p = b) state).Finite :=
  h.subset fun _ hp => hp.1

variable [DecidableEq S] [DecidableEq P]

omit [DecidableEq S] in
theorem Few.update (h : Few state) (p : P) (x : PipeState) : Few (update state p x) :=
  having_update_finite _ h p x

theorem active_update (h : Few state) (w : Wiring S P E) (k : S) (b : Bool) (p : P)
    (x : PipeState) :
    (active w k b (update state p x) : ℤ) =
      active w k b state - ind (state p = .active ∧ w.sockOf p = k ∧ w.bindOf p = b) +
        ind (x = .active ∧ w.sockOf p = k ∧ w.bindOf p = b) :=
  census_update _ (h.finite_active w k b) p x

theorem active_update_other (h : Few state) {k : S} (hk : w.sockOf p ≠ k) (x : PipeState)
    (b : Bool) : active w k b (update state p x) = active w k b state := by
  have hup := active_update h w k b p x
  rw [ind_neg fun hcon => hk hcon.2.1, ind_neg fun hcon => hk hcon.2.1] at hup
  omega

theorem active_start (h : Few state) (w : Wiring S P E) (hp : state p ≠ .active) (b : Bool) :
    (active w (w.sockOf p) b (update state p .active) : ℤ) =
      active w (w.sockOf p) b state + ind (w.bindOf p = b) := by
  rw [active_update h, ind_neg fun hcon => hp hcon.1]
  simp only [true_and]
  omega

theorem active_stop (h : Few state) (w : Wiring S P E) (hp : state p = .active) (b : Bool) :
    (active w (w.sockOf p) b (update state p .idle) : ℤ) =
      active w (w.sockOf p) b state - ind (w.bindOf p = b) := by
  have hidle : ¬ (PipeState.idle = .active ∧ w.sockOf p = w.sockOf p ∧ w.bindOf p = b) :=
    fun hcon => nomatch hcon.1
  rw [active_update h, ind_neg hidle]
  simp only [hp, true_and]
  omega

theorem active_fail (h : Few state) (w : Wiring S P E) (hp : state p ≠ .active)
    (hx : x ≠ .active) (k : S) (b : Bool) :
    active w k b (update state p x) = active w k b state := by
  have hup := active_update h w k b p x
  rw [ind_neg fun hcon => hp hcon.1, ind_neg fun hcon => hx hcon.1] at hup
  omega

theorem ind_bind (b : Bool) :
    b = true ∧ ind (b = true) = 1 ∧ ind (b = false) = 0 ∨
      b = false ∧ ind (b = true) = 0 ∧ ind (b = false) = 1 := by
  cases b <;> decide

omit [DecidableEq S] [DecidableEq P] in
/-- INTERNAL: the active pipes are the bound and the connected ones. -/
theorem ncard_active (h : Few state) (w : Wiring S P E) (k : S) :
    {p | state p = .active ∧ w.sockOf p = k}.ncard = conns w k state := by
  rw [conns, active, active, census, census,
    ← Set.ncard_union_eq ?_ (h.finite_active w k true) (h.finite_active w k false)]
  · congr 1
    ext p
    show (_ ∧ _) ↔ (_ ∧ _ ∧ _) ∨ (_ ∧ _ ∧ _)
    cases w.bindOf p <;> simp
  · refine Set.disjoint_left.mpr fun p hp hp' => ?_
    have hcon : true = false := hp.2.2.symm.trans hp'.2.2
    cases hcon

omit [DecidableEq S] in
/-- INTERNAL: one pipe is at most one more active pipe of a socket. -/
theorem conns_update_le (h : Few state) (w : Wiring S P E) (k : S) (p : P) (x : PipeState) :
    conns w k (update state p x) ≤ conns w k state + 1 := by
  rw [← ncard_active h, ← ncard_active (h.update p x)]
  refine (Set.ncard_le_ncard ?_ ((h.subset fun _ hq => hq.1).insert p)).trans
    (Set.ncard_insert_le p _)
  intro q hq
  by_cases hqp : q = p
  · exact Or.inl hqp
  · exact Or.inr ⟨by rw [← hq.1, update_of_ne hqp], hq.2⟩

/-- INTERNAL: a start counts the pipe. -/
theorem BalanceAt.started {n : ℕ} (hfew : Few state) (h : BalanceAt w (w.sockOf p) n state st)
    (hp : state p ≠ .active) (hroom : conns w (w.sockOf p) state + 1 < 2 ^ 31)
    (hn : n + 1 < 2 ^ 64) :
    BalanceAt w (w.sockOf p) (n + 1) (update state p .active)
      (st.started (w.bindOf p)) := by
  obtain ⟨hcurrent, haccepted, hestablished, htotal, hstarts⟩ := h
  have htrue := active_start hfew w hp true
  have hfalse := active_start hfew w hp false
  have hint := toInt_succ hcurrent hroom
  have hup : conns w (w.sockOf p) (update state p .active) =
      conns w (w.sockOf p) state + 1 := by
    unfold conns
    obtain ⟨-, ht, hf⟩ | ⟨-, ht, hf⟩ := ind_bind (w.bindOf p) <;> omega
  unfold ConnStats.started
  obtain ⟨hb, ht, hf⟩ | ⟨hb, ht, hf⟩ := ind_bind (w.bindOf p)
  · have hmore := toNat_succ (y := st.accepted) (by omega)
    constructor <;> simp only [hb, if_true, hup, hint, hmore] <;> omega
  · have hmore := toNat_succ (y := st.established) (by omega)
    constructor <;> simp only [hb, Bool.false_eq_true, if_false, hup, hint, hmore] <;> omega

/-- INTERNAL: a pipe that is not active any more is one connection less. -/
theorem conns_stop (hfew : Few state) (w : Wiring S P E) (hp : state p = .active) :
    conns w (w.sockOf p) state =
      conns w (w.sockOf p) (update state p .idle) + 1 := by
  have htrue := active_stop hfew w hp true
  have hfalse := active_stop hfew w hp false
  unfold conns
  obtain ⟨-, ht, hf⟩ | ⟨-, ht, hf⟩ := ind_bind (w.bindOf p) <;> omega

/-- INTERNAL: a stop counts the pipe as broken. -/
theorem BalanceAt.stopped {n : ℕ} (hfew : Few state) (h : BalanceAt w (w.sockOf p) n state st)
    (hp : state p = .active) (hn : n < 2 ^ 64) :
    BalanceAt w (w.sockOf p) n (update state p .idle) st.stopped := by
  obtain ⟨hcurrent, haccepted, hestablished, htotal, hstarts⟩ := h
  have htrue := active_stop hfew w hp true
  have hfalse := active_stop hfew w hp false
  have hdown := conns_stop hfew w hp
  have hint := toInt_pred (hcurrent.trans (congrArg Nat.cast hdown))
  have hmore := toNat_succ (y := st.broken) (by omega)
  unfold ConnStats.stopped
  obtain ⟨-, ht, hf⟩ | ⟨-, ht, hf⟩ := ind_bind (w.bindOf p)
  · constructor <;> simp only [hint, hmore] <;> omega
  · constructor <;> simp only [hint, hmore] <;> omega

/-- INTERNAL: a start that is taken back is not counted. -/
theorem BalanceAt.cancelled {n : ℕ} (hfew : Few state)
    (h : BalanceAt w (w.sockOf p) n state st) (hp : state p = .active) :
    BalanceAt w (w.sockOf p) n (update state p .idle)
      (st.cancelled (w.bindOf p)) := by
  obtain ⟨hcurrent, haccepted, hestablished, htotal, hstarts⟩ := h
  have htrue := active_stop hfew w hp true
  have hfalse := active_stop hfew w hp false
  have hdown := conns_stop hfew w hp
  have hint := toInt_pred (hcurrent.trans (congrArg Nat.cast hdown))
  unfold ConnStats.cancelled
  obtain ⟨hb, ht, hf⟩ | ⟨hb, ht, hf⟩ := ind_bind (w.bindOf p)
  · have hpos : 0 < st.accepted := zero_lt_of_toNat (by omega)
    have hless := toNat_pred hpos
    constructor <;>
      simp only [hb, hpos, and_self, if_true, not_true_eq_false, false_and, if_false, hint,
        hless] <;> omega
  · have hpos : 0 < st.established := zero_lt_of_toNat (by omega)
    have hless := toNat_pred hpos
    constructor <;>
      simp only [hb, hpos, Bool.false_eq_true, false_and, if_false, not_false_eq_true, true_and,
        if_true, hint, hless] <;> omega

end OnePipe

/-! ## The calls -/

section Calls

variable {p q : P} {n : ℕ}

theorem BalanceAt.epError {k : S} {state : P → PipeState} {st : ConnStats}
    (h : BalanceAt w k n state st) (old new : Option Errno) :
    BalanceAt w k n state (st.epError old new) :=
  ⟨h.current, h.accepted, h.established, h.total, h.starts⟩

variable [DecidableEq S] [DecidableEq P]

omit [DecidableEq S] in
theorem Balance.setPeers (h : Balance w n s) (p q : P) (x y : Option P) :
    Balance w n (s.setPeers p q x y) := ⟨h.few, h.fits⟩

/-- INTERNAL: a call that writes one pipe and the counters of its socket. -/
theorem Balance.of_pipe {m : ℕ} (h : Balance w n s) (hnm : n ≤ m) {x : PipeState}
    (hstate : t.state = update s.state p x)
    (hstats : ∀ k, k ≠ w.sockOf p → t.stats k = s.stats k)
    (hhere : BalanceAt w (w.sockOf p) m (update s.state p x) (t.stats (w.sockOf p))) :
    Balance w m t := by
  constructor
  · rw [hstate]
    exact h.few.update p x
  · intro k
    rw [hstate]
    by_cases hk : k = w.sockOf p
    · rwa [hk]
    · rw [hstats k hk]
      exact ((h.mono hnm).fits k).congr (active_update_other h.few (Ne.symm hk) x)

variable [DecidableEq E]

omit [DecidableEq P] in
theorem Balance.epSetError (h : Balance w n s) (e : E) (err : Option Errno) :
    Balance w n (s.epSetError w e err) := by
  refine ⟨h.few, fun k => ?_⟩
  show BalanceAt w k n s.state (update s.stats (w.sock e) _ k)
  by_cases hk : k = w.sock e
  · subst hk
    rw [update_self]
    exact (h.fits _).epError _ _
  · rw [update_of_ne hk]
    exact h.fits k

/-- INTERNAL: **`mb_pipebase_start` keeps the balance** if the pipe was not active and there is room
for one more, and it changes no other pipe. -/
theorem Balance.start (h : Balance w n s) (hp : s.state p ≠ .active)
    (hroom : ∀ k, conns w k s.state + 1 < 2 ^ 31) (hn : n + 1 < 2 ^ 64) {add rc : Rc}
    (hs : s.pipebaseStart w p add = some (rc, t)) :
    Balance w (n + 1) t ∧ ∃ x, t.state = update s.state p x := by
  unfold Conns.pipebaseStart at hs
  split at hs
  · cases hs
  · cases add with
    | ok =>
      cases hs
      refine ⟨?_, .active, rfl⟩
      refine h.of_pipe (p := p) (Nat.le_succ n) (x := .active) rfl (fun k hk => ?_) ?_
      · show update (update s.stats (w.sockOf p) _) (w.sockOf p) _ k = s.stats k
        rw [update_of_ne hk, update_of_ne hk]
      · show BalanceAt w (w.sockOf p) (n + 1) (update s.state p .active)
          (update (update s.stats (w.sockOf p) _) (w.sockOf p) _ (w.sockOf p))
        rw [update_self]
        refine BalanceAt.started h.few ?_ hp (hroom _) hn
        show BalanceAt w (w.sockOf p) n s.state
          (update s.stats (w.sockOf p) _ (w.sockOf p))
        rw [update_self]
        exact (h.fits (w.sockOf p)).epError _ _
    | err c =>
      cases hs
      have hstate : ((s.setState p .active).setState p .failed).state =
          update s.state p .failed := update_idem _ _ _
      refine ⟨?_, .failed, hstate⟩
      refine (Balance.epSetError ⟨?_, fun k => ?_⟩ _ _).mono (Nat.le_succ n)
      · rw [hstate]
        exact h.few.update p _
      · rw [hstate]
        exact (h.fits k).congr (active_fail h.few w hp (by decide) k)

omit [DecidableEq E] in
theorem Balance.idle (h : Balance w n s) {f : ConnStats → ConnStats}
    (hf : BalanceAt w (w.sockOf p) n (update s.state p .idle)
      (f (s.stats (w.sockOf p)))) :
    Balance w n ((s.onStats (w.sockOf p) f).setState p .idle) := by
  refine h.of_pipe (p := p) le_rfl (x := .idle) rfl (fun k hk => update_of_ne hk _ _) ?_
  show BalanceAt w (w.sockOf p) n _ (update s.stats (w.sockOf p) _ (w.sockOf p))
  rw [update_self]
  exact hf

omit [DecidableEq E] in
theorem Balance.stop (h : Balance w n s) (hn : n < 2 ^ 64) (hs : s.pipebaseStop w p = some t) :
    Balance w n t := by
  obtain ⟨hp, rfl⟩ := pipebaseStop_eq_some.mp hs
  exact h.idle ((h.fits (w.sockOf p)).stopped h.few hp hn)

omit [DecidableEq E] in
theorem Balance.cancel (h : Balance w n s) (hs : s.pipebaseCancel w p = some t) :
    Balance w n t := by
  obtain ⟨hp, rfl⟩ := pipebaseCancel_eq_some.mp hs
  exact h.idle ((h.fits (w.sockOf p)).cancelled h.few hp)

/-- INTERNAL: **`mb_sinproc_connect` keeps the balance** if there is room for both ends. -/
theorem Balance.connect (h : Balance w n s) (hpq : p ≠ q) (hp : s.state p ≠ .active)
    (hq : s.state q ≠ .active) (hroom : ∀ k, conns w k s.state + 2 < 2 ^ 31)
    (hn : n + 2 < 2 ^ 64) {add peerAdd : Rc} {r : Rc × Conns S P E}
    (hs : s.sinprocConnect w p q add peerAdd = some r) : Balance w (n + 2) r.2 := by
  have hfirst : ∀ k, conns w k s.state + 1 < 2 ^ 31 := fun k => by have := hroom k; omega
  obtain ⟨c, u, hself, rfl⟩ | ⟨u, hself, hpeer⟩ := sinprocConnect_cases hs
  · exact (((h.setPeers p q _ _).start hp hfirst (by omega) hself).1.setPeers p q none none).mono
      (by omega)
  · obtain ⟨hu, x, hstate⟩ := (h.setPeers p q _ _).start hp hfirst (by omega) hself
    have hq' : u.state q ≠ .active := by
      rw [hstate, update_of_ne (Ne.symm hpq)]
      exact hq
    have hsecond : ∀ k, conns w k u.state + 1 < 2 ^ 31 := by
      intro k
      have hle := conns_update_le h.few w k p x
      have hk := hroom k
      have hu' : conns w k u.state = conns w k (update s.state p x) :=
        congrArg (conns w k) hstate
      omega
    obtain ⟨v, hv, rfl⟩ | ⟨c, v, t, hv, ht, rfl⟩ := hpeer
    · exact (hu.start hq' hsecond (by omega) hv).1
    · exact ((hu.start hq' hsecond (by omega) hv).1.setPeers p q none none).cancel ht

omit [DecidableEq E] in
theorem Balance.sinprocStop (h : Balance w n s) (hn : n < 2 ^ 64)
    (hs : s.sinprocStop w p = some t) : Balance w n t :=
  sinprocStop_keeps (fun _ p q h => h.setPeers p q none none) (fun _ _ _ h hs => h.stop hn hs) h hs

/-- A pipe is started only while it is not active, and connected to another one. -/
def StartsFresh (s : Conns S P E) : ConnOp P E → Prop
  | .start p _ => s.state p ≠ .active
  | .sinprocConnect p q _ _ => p ≠ q ∧ s.state p ≠ .active ∧ s.state q ≠ .active
  | _ => True

instance (s : Conns S P E) : (op : ConnOp P E) → Decidable (StartsFresh s op)
  | .start p _ => inferInstanceAs (Decidable (s.state p ≠ .active))
  | .sinprocConnect p q _ _ =>
    inferInstanceAs (Decidable (p ≠ q ∧ s.state p ≠ .active ∧ s.state q ≠ .active))
  | .stop _ | .cancel _ | .sinprocStop _ | .epInit _ | .epCreated _ _ | .epSetError _ _
  | .epTerm _ => isTrue trivial

/-- Every socket has room for two more active pipes in its `int`. -/
def HasRoom (w : Wiring S P E) (s : Conns S P E) : Prop :=
  ∀ k, {p | s.state p = .active ∧ w.sockOf p = k}.ncard + 2 < 2 ^ 31

/-- INTERNAL: **every call keeps the balance**, and starts at most two pipes. -/
theorem Balance.step (h : Balance w n s) {op : ConnOp P E} (hok : StartsFresh s op)
    (hroom : HasRoom w s) (hn : n + 2 < 2 ^ 64) (hs : (Conns.system w).step s op = some t) :
    Balance w (n + 2) t := by
  have htwo : ∀ k, conns w k s.state + 2 < 2 ^ 31 := fun k => ncard_active h.few w k ▸ hroom k
  cases op with
  | start p add =>
    obtain ⟨⟨rc, u⟩, hu, rfl⟩ := Option.map_eq_some_iff.mp hs
    have hone : ∀ k, conns w k s.state + 1 < 2 ^ 31 := fun k => by have := htwo k; omega
    exact (h.start hok hone (by omega) hu).1.mono (by omega)
  | stop p => exact (h.stop (by omega) hs).mono (by omega)
  | cancel p => exact (h.cancel hs).mono (by omega)
  | sinprocConnect p q add peerAdd =>
    obtain ⟨r, hr, rfl⟩ := Option.map_eq_some_iff.mp hs
    exact h.connect hok.1 hok.2.1 hok.2.2 htwo hn hr
  | sinprocStop p => exact (h.sinprocStop (by omega) hs).mono (by omega)
  | epInit e =>
    simp only [Conns.system, Conns.epInit] at hs
    split at hs
    · cases hs
      exact Balance.mono ⟨h.few, h.fits⟩ (by omega)
    · cases hs
  | epCreated e rc =>
    simp only [Conns.system, Conns.epCreated] at hs
    split at hs
    · cases hs
      exact Balance.mono ⟨h.few, h.fits⟩ (by omega)
    · cases hs
  | epSetError e err =>
    simp only [Conns.system] at hs
    split at hs
    · cases hs
    · cases hs
      exact (h.epSetError e err).mono (by omega)
  | epTerm e =>
    simp only [Conns.system, Conns.epTerm] at hs
    split at hs
    · cases hs
    · cases hs
      obtain ⟨hfew, hfits⟩ := h.epSetError e none
      exact Balance.mono ⟨hfew, hfits⟩ (by omega)

/-- INTERNAL: a run keeps the balance. -/
theorem Balance.run {ops : List (ConnOp P E)} (h : Balance w n s)
    (hok : (Conns.system w).Meets (fun s op => StartsFresh s op ∧ HasRoom w s) s ops)
    (hn : n + 2 * ops.length < 2 ^ 64) (hrun : (Conns.system w).run s ops = some t) :
    Balance w (n + 2 * ops.length) t := by
  induction ops generalizing n s with
  | nil =>
    cases hrun
    exact h
  | cons op ops ih =>
    obtain ⟨u, hu, hrest⟩ := Option.bind_eq_some_iff.mp hrun
    obtain ⟨⟨hfresh, hroom⟩, hok⟩ := hok
    rw [List.length_cons] at hn ⊢
    have hnext := ih (h.step hfresh hroom (by omega) hu) (hok u hu) (by omega) hrest
    exact hnext.mono (by omega)

omit [DecidableEq S] [DecidableEq P] [DecidableEq E] in
theorem Balance.init (w : Wiring S P E) : Balance w 0 Conns.init := by
  have hzero : ∀ k b, active w k b (Conns.init : Conns S P E).state = 0 :=
    fun k b => census_eq_zero _ fun p hp => by cases hp.1
  have hnone : ∀ k, conns w k (Conns.init : Conns S P E).state = 0 := fun k => by
    rw [conns, hzero, hzero]
  refine ⟨?_, fun k => ⟨?_, ?_, ?_, ?_, le_rfl⟩⟩
  · rw [Few, having_eq_empty _ fun p hp => by cases hp]
    exact Set.finite_empty
  · rw [hnone]
    rfl
  · rw [hzero]
    exact Nat.zero_le _
  · rw [hzero]
    exact Nat.zero_le _
  · rw [hnone]
    rfl

/-- After fewer than `2 ^ 63` calls on any pipes and endpoints, in which a pipe is started only while
it is not active and no socket has more than `INT_MAX - 2` active pipes when a call is made, for
every socket: `current_connections` is the number of its active pipes, and
`established_connections + accepted_connections` is
`current_connections + broken_connections`.  SRC: pipe.c:58-124, sinproc.c:76-145 -/
theorem connection_counters_balance {ops : List (ConnOp P E)}
    (hrun : (Conns.system w).run Conns.init ops = some s)
    (hok : (Conns.system w).Meets (fun s op => StartsFresh s op ∧ HasRoom w s) Conns.init ops)
    (hlen : ops.length < 2 ^ 63) (k : S) :
    (s.stats k).current.toInt = {p | s.state p = .active ∧ w.sockOf p = k}.ncard ∧
      ((s.stats k).established.toNat + (s.stats k).accepted.toNat : ℤ) =
        (s.stats k).current.toInt + (s.stats k).broken.toNat := by
  have hbal := (Balance.init w).run hok (by omega) hrun
  have hfits := hbal.fits k
  rw [ncard_active hbal.few, hfits.current]
  exact ⟨rfl, by exact_mod_cast hfits.total⟩

end Calls

/-- A socket whose endpoint connects and one whose endpoint is bound, with two pipes each. -/
def twoSockets : Wiring Bool (Bool × Bool) Bool := ⟨Prod.fst, id, id⟩

/-- The first two pipes are joined; of the next two the bound one is refused; then the first
connection breaks and a pipe is started alone. -/
def joinAndBreak : List (ConnOp (Bool × Bool) Bool) :=
  [.epInit false, .epCreated false .ok, .epInit true, .epCreated true .ok,
    .sinprocConnect (false, false) (true, false) .ok .ok,
    .sinprocConnect (false, true) (true, true) .ok (.err .EISCONN),
    .sinprocStop (true, false), .start (false, false) .ok]

/-- On the connecting side one connection broke and one is current. -/
theorem connection_counters_joined :
    ∃ s, (Conns.system twoSockets).run Conns.init joinAndBreak = some s ∧
      s.stats false = ⟨2, 0, 1, 1, 0⟩ ∧ s.stats true = ⟨0, 1, 1, 0, 1⟩ ∧
      {p | s.state p = .active ∧ twoSockets.sockOf p = false}.ncard = 1 := by
  have hval : ((Conns.system twoSockets).run Conns.init joinAndBreak).map
      (fun s => (s.stats false, s.stats true)) =
        some (⟨2, 0, 1, 1, 0⟩, ⟨0, 1, 1, 0, 1⟩) := by decide +kernel
  have hfresh : (Conns.system twoSockets).Meets StartsFresh Conns.init joinAndBreak := by
    decide +kernel
  -- There are four pipes, so there is always room.
  have hroom : ∀ s, HasRoom twoSockets s := fun s k => by
    have hle := Set.ncard_le_card {p | s.state p = .active ∧ twoSockets.sockOf p = k}
    have hfour : Nat.card (Bool × Bool) = 4 := by simp
    omega
  obtain ⟨s, hrun, hs⟩ := Option.map_eq_some_iff.mp hval
  obtain ⟨hfalse, htrue⟩ := Prod.mk.inj hs
  refine ⟨s, hrun, hfalse, htrue, ?_⟩
  have hcount := (connection_counters_balance hrun
    (hfresh.imp fun s _ hstart => ⟨hstart, hroom s⟩) (by decide) false).1
  rw [hfalse] at hcount
  exact Int.ofNat.inj hcount.symm

/-- A pipe that is started while it is active is counted twice. -/
theorem second_start_counts_twice :
    ∃ s, (Conns.system twoSockets).run (Conns.system twoSockets).init
        [.epInit false, .epCreated false .ok, .start (false, false) .ok,
          .start (false, false) .ok] = some s ∧
      (s.stats false).current = 2 ∧
      {p | s.state p = .active ∧ twoSockets.sockOf p = false}.ncard = 1 := by
  have hval : ((Conns.system twoSockets).run (Conns.system twoSockets).init
      [.epInit false, .epCreated false .ok, .start (false, false) .ok,
        .start (false, false) .ok]).map
      (fun s => ((s.stats false).current, decide (∀ p, s.state p = .active ∧
        twoSockets.sockOf p = false ↔ p = (false, false)))) = some (2, true) := by decide +kernel
  obtain ⟨s, hrun, hs⟩ := Option.map_eq_some_iff.mp hval
  obtain ⟨hcurrent, hstates⟩ := Prod.mk.inj hs
  have hset : {p | s.state p = .active ∧ twoSockets.sockOf p = false} = {(false, false)} :=
    Set.ext (of_decide_eq_true hstates)
  refine ⟨s, hrun, hcurrent, ?_⟩
  rw [hset, Set.ncard_singleton]

end MsgBroker.Analysis.ConnBalance
