import MsgBroker.Analysis.GossipReports

/-!
# When a gossip tick is early

A node carries the clock reading of the call that added it, and a tick compares it with a reading of
its own.
-/

set_option autoImplicit false

namespace MsgBroker.Analysis.GossipTimeouts

open Lib Model Model.GossipThreads
open Analysis.ClusterSpec Analysis.GossipReports

/-! ## The clock -/

section Clock

variable {a r : ℕ}

theorem toNat_clockMs (h : a / 1000 < 2 ^ 64) : (clockMs a).toNat = a / nsPerMs := by
  unfold clockMs clockNow
  rw [UInt64.toNat_div, UInt64.toNat_ofNat_of_lt' h]
  show a / 1000 / 1000 = a / 1000000
  omega

theorem elapsed_of_le (ha : a / 1000 < 2 ^ 64) (hr : r / 1000 < 2 ^ 64)
    (hle : clockMs a ≤ clockMs r) :
    (clockMs r - clockMs a).toNat = r / nsPerMs - a / nsPerMs := by
  rw [UInt64.toNat_sub_of_le _ _ hle, toNat_clockMs ha, toNat_clockMs hr]

theorem elapsed_of_lt (ha : a / 1000 < 2 ^ 64) (hlt : clockMs r < clockMs a) :
    2 ^ 31 < (clockMs r - clockMs a).toNat := by
  have hval := toNat_clockMs ha
  have hlt' : (clockMs r).toNat < (clockMs a).toNat := UInt64.lt_iff_toNat_lt.mp hlt
  have hbound : a / nsPerMs < 2 ^ 64 - 2 ^ 31 := by
    show a / 1000000 < _
    omega
  rw [UInt64.toNat_sub]
  omega

theorem lt_of_ms {k t : ℕ} (h : k < r / nsPerMs - a / nsPerMs) (hle : r ≤ t) :
    k * nsPerMs < t - a := by
  have hms : k < r / 1000000 - a / 1000000 := h
  show k * 1000000 < t - a
  omega

end Clock

/-! ## One node -/

section Node

variable {g : Gossip} {now : UInt64} {node : GossipNode}

theorem timeout_of_nextState_ne (h : node.state ≠ g.nextState now node) :
    (node.state = .alive ∨ node.state = .suspect) ∧
    (g.nextState now node = .suspect → g.suspectMs < (now - node.lastSeen).toNat) ∧
    (g.nextState now node = .dead → g.deadMs < (now - node.lastSeen).toNat) := by
  unfold Gossip.nextState at *
  by_cases hs : g.suspectMs < (now - node.lastSeen).toNat <;>
    by_cases hd : g.deadMs < (now - node.lastSeen).toNat <;>
    cases hstate : node.state <;> simp_all

theorem nextState_eq_dead (hstate : node.state = .alive ∨ node.state = .suspect)
    (hs : g.suspectMs < (now - node.lastSeen).toNat)
    (hd : g.deadMs < (now - node.lastSeen).toNat) : g.nextState now node = .dead := by
  rcases hstate with halive | hsuspect
  · exact nextState_of_lt halive hs hd
  · simp only [Gossip.nextState, hsuspect, hd, and_self, if_true, reduceCtorEq, false_and, if_false]

theorem onTime_iff {c : GossipClock} {read t : ℕ} :
    OnTime c read t ↔ ∀ node ∈ c.gossip.nodes, node.nodeId ≠ c.gossip.localId →
      node.state ≠ c.gossip.nextState (clockMs read) node →
      (c.gossip.nextState (clockMs read) node = .suspect →
        c.gossip.suspectMs * nsPerMs < t - c.readAt node.nodeId) ∧
      (c.gossip.nextState (clockMs read) node = .dead →
        c.gossip.deadMs * nsPerMs < t - c.readAt node.nodeId) := by
  unfold OnTime
  rw [transitions_tick]
  constructor
  · intro h node hnode hlocal hne
    refine h ⟨node.nodeId, node.state, c.gossip.nextState (clockMs read) node⟩
      (List.mem_filterMap.mpr ⟨node, hnode, ?_⟩)
    rw [changeOf_remote hlocal, if_neg hne]
  · intro h change hchange
    obtain ⟨node, hnode, hof⟩ := List.mem_filterMap.mp hchange
    by_cases hlocal : node.nodeId = c.gossip.localId
    · rw [changeOf_local hlocal] at hof
      cases hof
    rw [changeOf_remote hlocal] at hof
    split at hof
    · cases hof
    next hne =>
    cases hof
    exact h node hnode hlocal hne

end Node

/-! ## All interleavings -/

section Threads

variable {T : Type} [DecidableEq T] {localId : UInt32} {suspectTimeout deadTimeout : ℤ} {t₀ : ℕ}

/-- INTERNAL: the clock reading a thread carries is not in the future. -/
def ReadBy (time : ℕ) : GossipPc → Prop
  | .idle => True
  | .adding _ read => read ≤ time
  | .ticking read => read ≤ time

theorem ReadBy.mono {c : GossipPc} {t t' : ℕ} (h : ReadBy t c) (hle : t ≤ t') : ReadBy t' c := by
  cases c with
  | idle => exact h
  | adding id read => exact Nat.le_trans h hle
  | ticking read => exact Nat.le_trans h hle

/-- INTERNAL: every node carries the clock reading of the call that added it. -/
structure Stamped (suspectTimeout deadTimeout : ℤ) (localId : UInt32) (c : GossipClock) : Prop where
  suspect : c.gossip.suspectTimeout = suspectTimeout
  dead : c.gossip.deadTimeout = deadTimeout
  localId : c.gossip.localId = localId
  clock : c.time / 1000 < 2 ^ 64
  seen : ∀ node ∈ c.gossip.nodes,
    node.lastSeen = clockMs (c.readAt node.nodeId) ∧ c.readAt node.nodeId ≤ c.time

theorem Stamped.later {c : GossipClock} (h : Stamped suspectTimeout deadTimeout localId c) {t : ℕ}
    (hle : c.time ≤ t) (ht : t / 1000 < 2 ^ 64) :
    Stamped suspectTimeout deadTimeout localId { c with time := t } where
  suspect := h.suspect
  dead := h.dead
  localId := h.localId
  clock := ht
  seen node hnode := ⟨(h.seen node hnode).1, Nat.le_trans (h.seen node hnode).2 hle⟩

theorem lockedAdd_of_mem {c : GossipClock} {id : UInt32} (hid : id ∈ c.gossip.ids) (read t : ℕ) :
    lockedAdd id read t c = { c with time := t } := by
  unfold GossipThreads.lockedAdd Gossip.addNode
  rw [if_neg (by simp), if_pos hid]
  rfl

theorem lockedAdd_of_notMem {c : GossipClock} {id : UInt32} (hid : id ∉ c.gossip.ids)
    (read t : ℕ) :
    lockedAdd id read t c =
      ⟨{ c.gossip with nodes := c.gossip.nodes ++ [⟨id, .alive, clockMs read⟩] }, t,
        Function.update c.readAt id read⟩ := by
  unfold GossipThreads.lockedAdd Gossip.addNode
  rw [if_neg (by simp), if_neg hid]
  rfl

theorem Stamped.lockedAdd {c : GossipClock} (h : Stamped suspectTimeout deadTimeout localId c)
    (id : UInt32) {read t : ℕ} (hread : read ≤ c.time) (hle : c.time ≤ t)
    (ht : t / 1000 < 2 ^ 64) :
    Stamped suspectTimeout deadTimeout localId (lockedAdd id read t c) := by
  by_cases hid : id ∈ c.gossip.ids
  · rw [lockedAdd_of_mem hid]
    exact h.later hle ht
  rw [lockedAdd_of_notMem hid]
  refine ⟨h.suspect, h.dead, h.localId, ht, fun node hnode => ?_⟩
  show node.lastSeen = clockMs (Function.update c.readAt id read node.nodeId) ∧
    Function.update c.readAt id read node.nodeId ≤ t
  rcases List.mem_append.mp hnode with hold | hnew
  · -- the readings of the nodes in the list stay: none of them has the new id
    have hne : node.nodeId ≠ id := by
      rintro rfl
      exact hid (List.mem_map_of_mem hold)
    rw [Function.update_of_ne hne]
    exact ⟨(h.seen node hold).1, Nat.le_trans (h.seen node hold).2 hle⟩
  · rw [List.mem_singleton.mp hnew, Function.update_self]
    exact ⟨rfl, Nat.le_trans hread hle⟩

theorem Stamped.lockedTick {c : GossipClock} (h : Stamped suspectTimeout deadTimeout localId c)
    (read : ℕ) {t : ℕ} (hle : c.time ≤ t) (ht : t / 1000 < 2 ^ 64) :
    Stamped suspectTimeout deadTimeout localId (lockedTick read t c) := by
  unfold GossipThreads.lockedTick
  rw [tickReport_eq]
  refine ⟨h.suspect, h.dead, h.localId, ht, fun node hnode => ?_⟩
  obtain ⟨old, hold, rfl⟩ := List.mem_map.mp hnode
  have hseen : (c.gossip.tickNode (clockMs read) old).lastSeen = old.lastSeen := by
    unfold Gossip.tickNode
    split <;> rfl
  rw [nodeId_tickNode, hseen]
  exact ⟨(h.seen old hold).1, Nat.le_trans (h.seen old hold).2 hle⟩

theorem stamped_of_reach (ht₀ : t₀ / 1000 < 2 ^ 64) {s : Threads T GossipClock GossipPc}
    (h : Reach (system localId suspectTimeout deadTimeout t₀) TimeForward s) :
    Stamped suspectTimeout deadTimeout localId s.shared ∧ ∀ u, ReadBy s.shared.time (s.pc u) := by
  refine h.invariant (fun s => Stamped suspectTimeout deadTimeout localId s.shared ∧
    ∀ u, ReadBy s.shared.time (s.pc u)) ?_ ?_
  · refine ⟨⟨rfl, rfl, rfl, ht₀, fun node hnode => ?_⟩, fun _ => trivial⟩
    rw [List.mem_singleton.mp hnode]
    exact ⟨rfl, Nat.le_refl _⟩
  · rintro s ⟨u, act, t⟩ s' ⟨hst, hread⟩ ⟨hle, ht⟩ hs
    obtain ⟨c, g, hprog, rfl⟩ := interleave_step hs
    have hothers : ∀ v, v ≠ u → ReadBy t (s.pc v) := fun v _ => (hread v).mono hle
    have hme := hread u
    cases hpc : s.pc u with
    | idle =>
      rw [hpc] at hprog
      cases act with
      | add id =>
        cases hprog
        exact ⟨hst.later hle ht, forall_update (P := fun _ => ReadBy t) (Nat.le_refl t) hothers⟩
      | tick =>
        cases hprog
        exact ⟨hst.later hle ht, forall_update (P := fun _ => ReadBy t) (Nat.le_refl t) hothers⟩
      | lock => cases hprog
    | adding id read =>
      rw [hpc] at hprog hme
      cases act with
      | add id => cases hprog
      | tick => cases hprog
      | lock =>
        cases hprog
        exact ⟨hst.lockedAdd id hme hle ht,
          forall_update (P := fun _ => ReadBy t) trivial hothers⟩
    | ticking read =>
      rw [hpc] at hprog
      cases act with
      | add id => cases hprog
      | tick => cases hprog
      | lock =>
        cases hprog
        exact ⟨hst.lockedTick read hle ht, forall_update (P := fun _ => ReadBy t) trivial hothers⟩

theorem suspectMs_lt {g : Gossip} (h : g.suspectTimeout < 2 ^ 31) : g.suspectMs < 2 ^ 31 := by
  unfold Gossip.suspectMs
  split <;> omega

theorem deadMs_lt {g : Gossip} (h : g.deadTimeout < 2 ^ 31) : g.deadMs < 2 ^ 31 := by
  unfold Gossip.deadMs
  split <;> omega

/-- INTERNAL: **a tick whose reading is older than that of a node** finds a difference that has
wrapped around and declares the node dead. -/
theorem Stamped.nextState_of_older {c : GossipClock}
    (hst : Stamped suspectTimeout deadTimeout localId c) (hsuspect : suspectTimeout < 2 ^ 31)
    (hdead : deadTimeout < 2 ^ 31) {node : GossipNode} (hnode : node ∈ c.gossip.nodes)
    (hstate : node.state = .alive ∨ node.state = .suspect) {read : ℕ}
    (hlt : clockMs read < node.lastSeen) : c.gossip.nextState (clockMs read) node = .dead := by
  obtain ⟨hseen, hage⟩ := hst.seen node hnode
  have hclock := hst.clock
  have hS := suspectMs_lt (hst.suspect ▸ hsuspect)
  have hD := deadMs_lt (hst.dead ▸ hdead)
  have helapsed := elapsed_of_lt (by omega) (hseen ▸ hlt)
  rw [← hseen] at helapsed
  exact nextState_eq_dead hstate (by omega) (by omega)

/-- In every interleaving of adds and ticks, a tick that is about to take the lock changes no
node before its timeout if and only if, for every node that is alive or suspect, the clock
reading of the tick is not older than that of the node, or the dead timeout is over anyway.
SRC: gossip.c:12-22, 97-126, 194-237 -/
theorem tick_on_time_iff (hsuspect : suspectTimeout < 2 ^ 31) (hdead : deadTimeout < 2 ^ 31)
    (ht₀ : t₀ / 1000 < 2 ^ 64) {s : Threads T GossipClock GossipPc}
    (hs : Reach (system localId suspectTimeout deadTimeout t₀) TimeForward s) {u : T} {read t : ℕ}
    (hpc : s.pc u = .ticking read) (ht : TimeForward s (u, .lock, t)) :
    OnTime s.shared read t ↔
      ∀ node ∈ s.shared.gossip.nodes, node.nodeId ≠ localId →
        node.state = .alive ∨ node.state = .suspect →
        node.lastSeen ≤ clockMs read ∨
          s.shared.gossip.deadMs * nsPerMs < t - s.shared.readAt node.nodeId := by
  obtain ⟨hst, hreads⟩ := stamped_of_reach ht₀ hs
  have hread : read ≤ s.shared.time := by
    have := hreads u
    rwa [hpc] at this
  have hclock := hst.clock
  rw [onTime_iff, hst.localId]
  constructor
  · intro h node hnode hlocal hstate
    by_cases hle : node.lastSeen ≤ clockMs read
    · exact Or.inl hle
    have hnext := hst.nextState_of_older hsuspect hdead hnode hstate (UInt64.not_le.mp hle)
    have hne : node.state ≠ s.shared.gossip.nextState (clockMs read) node := by
      rw [hnext]
      rcases hstate with h' | h' <;> rw [h'] <;> decide
    exact Or.inr ((h node hnode hlocal hne).2 hnext)
  · intro h node hnode hlocal hne
    obtain ⟨hseen, hage⟩ := hst.seen node hnode
    obtain ⟨hstate, hlateS, hlateD⟩ := timeout_of_nextState_ne hne
    by_cases hle : node.lastSeen ≤ clockMs read
    · have helapsed := elapsed_of_le (by omega) (by omega) (hseen ▸ hle)
      rw [← hseen] at helapsed
      rw [helapsed] at hlateS hlateD
      exact ⟨fun hnext => lt_of_ms (hlateS hnext) (Nat.le_trans hread ht.1),
        fun hnext => lt_of_ms (hlateD hnext) (Nat.le_trans hread ht.1)⟩
    · have hover := (h node hnode hlocal hstate).resolve_left hle
      have hnext := hst.nextState_of_older hsuspect hdead hnode hstate (UInt64.not_le.mp hle)
      refine ⟨fun hsus => ?_, fun _ => hover⟩
      rw [hnext] at hsus
      cases hsus

end Threads

/-! ## Two threads -/

/-- INTERNAL: one thread reads the clock for a tick; two milliseconds later another adds the node
2 before the first one takes the lock. -/
def overtaken : List (Bool × GossipAct × ℕ) :=
  [(false, .tick, 1000000000), (true, .add 2, 1002000000), (true, .lock, 1002000000)]

/-- INTERNAL: the node is added before the tick. -/
def inOrder : List (Bool × GossipAct × ℕ) :=
  [(true, .add 2, 1000000000), (true, .lock, 1000000000), (false, .tick, 1002000000)]

/-- A node added in good time is left alone. -/
theorem tick_on_time_in_order :
    ∃ s : Threads Bool GossipClock GossipPc,
      Reach (system 1 3000 10000 0) TimeForward s ∧ s.pc false = .ticking 1002000000 ∧
        OnTime s.shared 1002000000 1003000000 := by
  have hrun : (system 1 3000 10000 0).run (system 1 3000 10000 0).init inOrder = some _ := rfl
  have hreach : Reach (system 1 3000 10000 0) TimeForward _ :=
    Reach.of_run Reach.init (by decide) hrun
  refine ⟨_, hreach, rfl, ?_⟩
  apply (tick_on_time_iff (u := false) (by decide) (by decide) (by decide) hreach rfl
    (by decide)).mpr
  decide

/-- **A node declared dead a millisecond after it was added.**  The dead timeout is ten seconds. -/
theorem dead_after_a_millisecond :
    ∃ s : Threads Bool GossipClock GossipPc,
      Reach (system 1 3000 10000 0) TimeForward s ∧ s.pc false = .ticking 1000000000 ∧
        TimeForward s (false, .lock, 1003000000) ∧
        ⟨2, .alive, .dead⟩ ∈ Gossip.transitions s.shared.gossip.nodes
          (s.shared.gossip.tickReport (clockMs 1000000000)).1.nodes ∧
        1003000000 - s.shared.readAt 2 = nsPerMs := by
  have hrun : (system 1 3000 10000 0).run (system 1 3000 10000 0).init overtaken = some _ := rfl
  have hreach : Reach (system 1 3000 10000 0) TimeForward _ :=
    Reach.of_run Reach.init (by decide) hrun
  exact ⟨_, hreach, rfl, by decide, by decide, by decide⟩

end MsgBroker.Analysis.GossipTimeouts
