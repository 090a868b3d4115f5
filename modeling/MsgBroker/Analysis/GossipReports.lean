import MsgBroker.Analysis.ClusterSpec
import MsgBroker.Model.GossipRun

/-!
# Which state changes of a gossip tick are reported

The loop of `mb_gossip_tick` computes what `Gossip.tick` says in one line (`tickReport_eq`): the new
states, and the changes cut off at the size of the array.
-/

set_option autoImplicit false

namespace MsgBroker.Analysis.GossipReports

open Lib Model Analysis.ClusterSpec

/-! ## The loop -/

section Loop

variable {g : Gossip} {now : UInt64}

theorem changeOf_local {node : GossipNode} (h : node.nodeId = g.localId) :
    g.changeOf now node = none := by
  unfold Gossip.changeOf Gossip.tickNode
  rw [if_pos h, if_pos rfl]

theorem changeOf_remote {node : GossipNode} (h : node.nodeId ≠ g.localId) :
    g.changeOf now node =
      if node.state = g.nextState now node then none
      else some ⟨node.nodeId, node.state, g.nextState now node⟩ := by
  unfold Gossip.changeOf Gossip.tickNode
  rw [if_neg h]

theorem take_append_if (changes rest : List NodeChange) (c : NodeChange)
    (h : changes.length ≤ Gossip.maxNodes) :
    ((if changes.length < Gossip.maxNodes then changes ++ [c] else changes) ++ rest).take
      Gossip.maxNodes = (changes ++ c :: rest).take Gossip.maxNodes := by
  split
  · rw [List.append_assoc, List.singleton_append]
  · next hfull =>
    have hlen : changes.length = Gossip.maxNodes := by omega
    rw [← hlen, List.take_left, List.take_left]

theorem tickLoop_eq (nodes : List GossipNode) (changes : List NodeChange)
    (h : changes.length ≤ Gossip.maxNodes) :
    g.tickLoop now nodes changes =
      (nodes.map (g.tickNode now),
        (changes ++ nodes.filterMap (g.changeOf now)).take Gossip.maxNodes) := by
  induction nodes generalizing changes with
  | nil =>
    rw [Gossip.tickLoop, List.map_nil, List.filterMap_nil, List.append_nil,
      List.take_of_length_le h]
  | cons node rest ih =>
    rw [Gossip.tickLoop, List.map_cons, List.filterMap_cons]
    by_cases hlocal : node.nodeId = g.localId
    · rw [if_pos hlocal, changeOf_local hlocal, ih changes h]
      simp only [Gossip.tickNode, if_pos hlocal]
    rw [if_neg hlocal, changeOf_remote hlocal]
    simp only [Gossip.tickNode, if_neg hlocal]
    by_cases hstate : node.state = g.nextState now node
    · rw [if_neg (fun hne => hne.1 hstate), if_pos hstate, ih changes h]
    · simp only [hstate, ne_eq, not_false_eq_true, true_and, if_false]
      have hlen : (if changes.length < Gossip.maxNodes then
          changes ++ [⟨node.nodeId, node.state, g.nextState now node⟩]
          else changes).length ≤ Gossip.maxNodes := by
        split
        · rw [List.length_append, List.length_singleton]
          omega
        · exact h
      rw [ih _ hlen, take_append_if changes _ _ h]

theorem tickReport_eq (g : Gossip) (now : UInt64) : g.tickReport now = g.tick now := by
  unfold Gossip.tickReport Gossip.tick
  rw [tickLoop_eq g.nodes [] (Nat.zero_le _), List.nil_append]

theorem transitions_tick (g : Gossip) (now : UInt64) :
    Gossip.transitions g.nodes (g.tickReport now).1.nodes =
      g.nodes.filterMap (g.changeOf now) := by
  rw [tickReport_eq]
  show Gossip.transitions g.nodes (g.nodes.map (g.tickNode now)) = _
  unfold Gossip.transitions
  generalize g.nodes = nodes
  induction nodes with
  | nil => rfl
  | cons node rest ih =>
    rw [List.map_cons, List.zip_cons_cons, List.filterMap_cons, List.filterMap_cons, ih]
    rfl

/-- The node is not the local one, and it has been silent for longer than the timeout of its
state. -/
def Overdue (g : Gossip) (now : UInt64) (node : GossipNode) : Prop :=
  node.nodeId ≠ g.localId ∧
    ((node.state = .alive ∧ g.suspectMs < (now - node.lastSeen).toNat) ∨
      (node.state = .suspect ∧ g.deadMs < (now - node.lastSeen).toNat))

instance (g : Gossip) (now : UInt64) (node : GossipNode) : Decidable (Overdue g now node) :=
  inferInstanceAs (Decidable (_ ∧ _))

/-- INTERNAL: the state changes where a timeout has passed.  SRC: gossip.c:227-240 -/
theorem eq_nextState_iff (g : Gossip) (now : UInt64) (node : GossipNode) :
    node.state = g.nextState now node ↔
      ¬ ((node.state = .alive ∧ g.suspectMs < (now - node.lastSeen).toNat) ∨
        (node.state = .suspect ∧ g.deadMs < (now - node.lastSeen).toNat)) := by
  obtain ⟨id, state, seen⟩ := node
  unfold Gossip.nextState
  by_cases hs : g.suspectMs < (now - seen).toNat <;>
    by_cases hd : g.deadMs < (now - seen).toNat <;>
    cases state <;> simp [hs, hd]

/-- INTERNAL: a change is reported for the overdue nodes. -/
theorem isSome_changeOf (g : Gossip) (now : UInt64) (node : GossipNode) :
    (g.changeOf now node).isSome = decide (Overdue g now node) := by
  unfold Overdue
  by_cases hlocal : node.nodeId = g.localId
  · simp [changeOf_local hlocal, hlocal]
  · rw [changeOf_remote hlocal]
    simp only [eq_nextState_iff, hlocal, ne_eq, not_false_eq_true, true_and]
    split_ifs with h
    · simpa using h
    · simpa using h

/-- INTERNAL: there are as many changes as overdue nodes. -/
theorem length_transitions (g : Gossip) (now : UInt64) :
    (Gossip.transitions g.nodes (g.tickReport now).1.nodes).length =
      g.nodes.countP (Overdue g now ·) := by
  rw [transitions_tick, List.length_filterMap_eq_countP]
  simp only [isSome_changeOf]

theorem calls_eq (g : Gossip) (now : UInt64) :
    (g.tickReport now).2 =
      (Gossip.transitions g.nodes (g.tickReport now).1.nodes).take Gossip.maxNodes := by
  rw [transitions_tick, tickReport_eq]
  rfl

theorem ids_tickReport (g : Gossip) (now : UInt64) : (g.tickReport now).1.ids = g.ids := by
  rw [tickReport_eq]
  exact ids_tick g now

theorem nodeId_of_changeOf {node : GossipNode} {c : NodeChange}
    (h : g.changeOf now node = some c) : c.nodeId = node.nodeId := by
  unfold Gossip.changeOf at h
  split at h
  · cases h
  · cases h
    rfl

theorem ids_transitions_sublist (g : Gossip) (now : UInt64) :
    ((Gossip.transitions g.nodes (g.tickReport now).1.nodes).map NodeChange.nodeId).Sublist
      g.ids := by
  rw [transitions_tick]
  unfold Gossip.ids
  generalize g.nodes = nodes
  induction nodes with
  | nil => exact List.Sublist.slnil
  | cons node rest ih =>
    rw [List.filterMap_cons]
    cases hc : g.changeOf now node with
    | none => exact ih.cons _
    | some c =>
      rw [List.map_cons, List.map_cons, nodeId_of_changeOf hc]
      exact ih.cons_cons _

end Loop

/-! ## Distinct ids -/

section Reports

variable {localId : UInt32} {suspectTimeout deadTimeout : ℤ} {now₀ : UInt64} {alloc : Bool}

theorem nodup_of_reach {g : Gossip}
    (h : Reach (gossipCalls (Gossip.init localId suspectTimeout deadTimeout now₀ alloc))
      (fun _ _ => True) g) : g.ids.Nodup := by
  refine h.invariant (fun g => g.ids.Nodup) (nodup_addNode List.nodup_nil) ?_
  rintro g (⟨id, now, alloc⟩ | ⟨id⟩ | ⟨now⟩) g' hnodup - hs
  · cases hs
    exact nodup_addNode hnodup
  · cases hs
    show (g.removeNode id).2.ids.Nodup
    rw [ids_removeNode]
    exact hnodup.erase id
  · cases hs
    show (g.tickReport now).1.ids.Nodup
    rw [ids_tickReport]
    exact hnodup

theorem filter_nodeId {l : List NodeChange} (h : (l.map NodeChange.nodeId).Nodup)
    {c : NodeChange} (hc : c ∈ l) : l.filter (fun e => e.nodeId = c.nodeId) = [c] := by
  have hsame : l.filter (fun e => e.nodeId = c.nodeId) = l.filter (fun e => e = c) := by
    apply List.filter_congr
    intro e he
    have hinj : e.nodeId = c.nodeId ↔ e = c :=
      ⟨fun heq => List.inj_on_of_nodup_map h he hc heq, fun heq => by rw [heq]⟩
    simp only [hinj]
  have hone : l.count c = 1 := List.count_eq_one_of_mem (List.Nodup.of_map _ h) hc
  rw [hsame]
  have hrep := List.filter_eq (l := l) c
  rw [hone] at hrep
  simpa [eq_comm] using hrep

theorem filter_take_nodeId {l : List NodeChange} (h : (l.map NodeChange.nodeId).Nodup) {n : ℕ}
    (hn : n < l.length) : (l.take n).filter (fun e => e.nodeId = l[n].nodeId) = [] := by
  rw [List.filter_eq_nil_iff]
  intro e he heq
  have hcut : l[n] ∈ l.drop n := by
    rw [List.drop_eq_getElem_cons hn]
    exact List.mem_cons_self
  rw [← List.take_append_drop n l, List.map_append, List.nodup_append] at h
  exact h.2.2 _ (List.mem_map_of_mem he) _ (List.mem_map_of_mem hcut) (of_decide_eq_true heq)

/-- After any calls, a tick reports every change of a state exactly once, with the old and the
new state, if and only if no more than `MB_GOSSIP_MAX_NODES` nodes other than the local one have
been silent for longer than the timeout of their state.  What is cut off is in its new state
already, so that no later tick reports it.
SRC: gossip.c:194-261, 97-126; gossip.h:13 -/
theorem tick_reports_every_change_iff {g : Gossip}
    (hg : Reach (gossipCalls (Gossip.init localId suspectTimeout deadTimeout now₀ alloc))
      (fun _ _ => True) g) (now : UInt64) :
    (∀ c ∈ Gossip.transitions g.nodes (g.tickReport now).1.nodes,
      (g.tickReport now).2.filter (fun call => call.nodeId = c.nodeId) = [c]) ↔
    g.nodes.countP (Overdue g now ·) ≤ Gossip.maxNodes := by
  rw [← length_transitions]
  have hnodup := (nodup_of_reach hg).sublist (ids_transitions_sublist g now)
  rw [calls_eq]
  generalize Gossip.transitions g.nodes (g.tickReport now).1.nodes = l at hnodup ⊢
  constructor
  · intro h
    by_contra hlen
    have hlt : Gossip.maxNodes < l.length := Nat.lt_of_not_le hlen
    have hcut := h l[Gossip.maxNodes] (List.getElem_mem hlt)
    rw [filter_take_nodeId hnodup hlt] at hcut
    cases hcut
  · intro hlen c hc
    rw [List.take_of_length_le hlen]
    exact filter_nodeId hnodup hc

end Reports

/-! ## More nodes than the array has entries -/

/-- INTERNAL: the local node and `n` others, all heard of at the time 0. -/
def crowd (n : ℕ) : Gossip where
  localId := 0
  suspectTimeout := 3000
  deadTimeout := 10000
  nodes := ⟨0, .alive, 0⟩ :: (List.range n).map fun i => ⟨UInt32.ofNat (i + 1), .alive, 0⟩

theorem ofNat_succ_ne_zero {i : ℕ} (hi : i + 1 < UInt32.size) : UInt32.ofNat (i + 1) ≠ 0 := by
  intro h0
  have hval := congrArg UInt32.toNat h0
  rw [UInt32.toNat_ofNat_of_lt' hi] at hval
  exact absurd hval (Nat.succ_ne_zero i)

theorem ofNat_notMem_crowd {n : ℕ} (hn : n + 1 < UInt32.size) :
    UInt32.ofNat (n + 1) ∉ (crowd n).ids := by
  intro hmem
  simp only [Gossip.ids, crowd, List.map_cons, List.map_map, List.mem_cons, List.mem_map,
    List.mem_range, Function.comp_apply] at hmem
  rcases hmem with h0 | ⟨i, hi, heq⟩
  · exact ofNat_succ_ne_zero hn h0
  · have hval := congrArg UInt32.toNat heq
    rw [UInt32.toNat_ofNat_of_lt' hn, UInt32.toNat_ofNat_of_lt' (by omega)] at hval
    omega

theorem reach_crowd (n : ℕ) (hn : n < UInt32.size) :
    Reach (gossipCalls (Gossip.init 0 3000 10000 0 true)) (fun _ _ => True) (crowd n) := by
  induction n with
  | zero => exact Reach.init
  | succ n ih =>
    refine Reach.step (l := .add (UInt32.ofNat (n + 1)) 0 true) (ih (by omega)) trivial ?_
    show some (Gossip.addNode _ _ _ (crowd n)).2 = _
    unfold Gossip.addNode
    rw [if_neg (by simp), if_neg (ofNat_notMem_crowd hn)]
    simp [crowd, List.range_succ]

theorem nextState_of_lt {g : Gossip} {now : UInt64} {node : GossipNode}
    (halive : node.state = .alive) (hs : g.suspectMs < (now - node.lastSeen).toNat)
    (hd : g.deadMs < (now - node.lastSeen).toNat) : g.nextState now node = .dead := by
  simp only [Gossip.nextState, halive, hs, hd, and_self, if_true]

theorem changes_crowd (n : ℕ) (hn : n < UInt32.size) :
    (crowd n).nodes.filterMap ((crowd n).changeOf 20000) =
      (List.range n).map fun i => ⟨UInt32.ofNat (i + 1), .alive, .dead⟩ := by
  show List.filterMap _ (_ :: _) = _
  rw [List.filterMap_cons, changeOf_local rfl, List.filterMap_map, ← List.filterMap_eq_map]
  apply List.filterMap_congr
  intro i hi
  have hlt := List.mem_range.mp hi
  have hsuspect : 3000 < ((20000 : UInt64) - 0).toNat := by decide
  have hdead : 10000 < ((20000 : UInt64) - 0).toNat := by decide
  have hnext : (crowd n).nextState 20000 ⟨UInt32.ofNat (i + 1), .alive, 0⟩ = .dead :=
    nextState_of_lt rfl hsuspect hdead
  rw [Function.comp_apply, changeOf_remote (ofNat_succ_ne_zero (by omega)), hnext]
  rfl

theorem tick_reports_two_deaths :
    Gossip.transitions (crowd 2).nodes ((crowd 2).tickReport 20000).1.nodes =
      [⟨1, .alive, .dead⟩, ⟨2, .alive, .dead⟩] ∧
    ∀ c ∈ Gossip.transitions (crowd 2).nodes ((crowd 2).tickReport 20000).1.nodes,
      ((crowd 2).tickReport 20000).2.filter (fun call => call.nodeId = c.nodeId) = [c] := by
  have hchanges := (transitions_tick (crowd 2) 20000).trans (changes_crowd 2 (by decide))
  refine ⟨hchanges, ?_⟩
  apply (tick_reports_every_change_iff (reach_crowd 2 (by decide)) 20000).mpr
  rw [← length_transitions, hchanges]
  decide

/-- With 257 nodes that time out in one tick, the last one dies unreported. -/
theorem last_death_unreported :
    ∃ g, Reach (gossipCalls (Gossip.init 0 3000 10000 0 true)) (fun _ _ => True) g ∧
      ⟨257, .alive, .dead⟩ ∈ Gossip.transitions g.nodes (g.tickReport 20000).1.nodes ∧
      (g.tickReport 20000).2.filter (fun call => call.nodeId = 257) = [] := by
  refine ⟨_, reach_crowd 257 (by decide), ?_⟩
  rw [calls_eq, transitions_tick, changes_crowd 257 (by decide)]
  constructor
  · exact List.mem_map.mpr ⟨256, by simp, rfl⟩
  · rw [← List.map_take, List.filter_eq_nil_iff]
    intro call hcall heq
    obtain ⟨i, hi, rfl⟩ := List.mem_map.mp hcall
    rw [List.take_range, List.mem_range] at hi
    have hlt : i < 256 := Nat.lt_of_lt_of_le hi (Nat.min_le_left _ _)
    have hval := congrArg UInt32.toNat (of_decide_eq_true heq)
    rw [UInt32.toNat_ofNat_of_lt' (Nat.lt_trans (Nat.succ_lt_succ hlt) (by decide))] at hval
    have hsame : i + 1 = 257 := hval
    omega

end MsgBroker.Analysis.GossipReports
