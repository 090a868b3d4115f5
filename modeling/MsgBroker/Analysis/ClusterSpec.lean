import MsgBroker.Analysis.RingSpec
import MsgBroker.Model.Cluster

/-!
# What joins, leaves and ticks do to the two views

The gossip list and the ring after each call of a cluster, and after the callbacks of a tick.
-/

set_option autoImplicit false

namespace MsgBroker.Analysis.ClusterSpec

open Lib Model Analysis.RingSpec

/-! ## The gossip list and the ring -/

section Gossip

variable {g : Gossip} {x id : UInt32} {now : UInt64}

theorem mem_ids_addNode : x ∈ (g.addNode id now true).2.ids ↔ x ∈ g.ids ∨ x = id := by
  unfold Gossip.addNode
  rw [if_neg (by simp)]
  split
  · next hmem =>
    refine ⟨Or.inl, ?_⟩
    rintro (h | rfl)
    · exact h
    · exact hmem
  · simp [Gossip.ids]

theorem nodup_addNode {alloc : Bool} (h : g.ids.Nodup) : (g.addNode id now alloc).2.ids.Nodup := by
  unfold Gossip.addNode
  split
  · exact h
  split
  · exact h
  next hmem =>
  show (List.map GossipNode.nodeId (g.nodes ++ [⟨id, .alive, now⟩])).Nodup
  rw [List.map_append, List.map_singleton, ← List.concat_eq_append]
  exact List.Nodup.concat hmem h

theorem mem_nodes_addNode {alloc : Bool} {node : GossipNode} (h : node ∈ g.nodes) :
    node ∈ (g.addNode id now alloc).2.nodes := by
  unfold Gossip.addNode
  split
  · exact h
  split
  · exact h
  · exact List.mem_append_left _ h

theorem ids_removeNode : (g.removeNode id).2.ids = g.ids.erase id := by
  unfold Gossip.removeNode
  split
  · show List.map _ (g.nodes.eraseP _) = (List.map _ g.nodes).erase id
    rw [List.erase_eq_eraseP, List.eraseP_map]
    congr 2
    funext node
    simp [BEq.comm]
  · next hmem =>
    show g.ids = _
    rw [List.erase_of_not_mem hmem]

theorem localId_addNode {alloc : Bool} : (g.addNode id now alloc).2.localId = g.localId := by
  unfold Gossip.addNode
  split
  · rfl
  · split <;> rfl

theorem localId_removeNode : (g.removeNode id).2.localId = g.localId := by
  unfold Gossip.removeNode
  split <;> rfl

end Gossip

theorem mem_nodes_add {r : Ring} (hr : Wf r) {x id : UInt32} :
    x ∈ (r.add id true fun _ => true).2.nodes ↔ x ∈ r.nodes ∨ x = id := by
  obtain ⟨-, -, hnodes⟩ := hr.add id true fun _ => true
  by_cases hid : id ∈ r.nodes
  · have hsame : (r.add id true fun _ => true) = (.err .EEXIST, r) := by
      unfold Ring.add
      rw [if_pos hid]
    rw [hsame]
    refine ⟨Or.inl, ?_⟩
    rintro (h | rfl)
    · exact h
    · exact hid
  · rw [hnodes, if_pos (add_ok hid)]
    simp

/-! ## Joins -/

theorem joinNode_cases (c : Cluster) (j : Join) :
    (c.joinNode j).2.gossip = (c.gossip.addNode j.id j.now j.gossipAlloc).2 ∧
    (((c.joinNode j).1 ≠ .ok ∧ j.gossipAlloc = false ∧ (c.joinNode j).2.ring = c.ring) ∨
      ((c.joinNode j).1 = (c.ring.add j.id j.nodesAlloc j.vnodesAlloc).1 ∧
        (c.joinNode j).2.ring = (c.ring.add j.id j.nodesAlloc j.vnodesAlloc).2)) := by
  unfold Cluster.joinNode
  split
  · next c' hgossip =>
    obtain rfl : _ = c' := congrArg Prod.snd hgossip
    exact ⟨rfl, Or.inr ⟨rfl, rfl⟩⟩
  · next c' hgossip =>
    obtain rfl : _ = c' := congrArg Prod.snd hgossip
    exact ⟨rfl, Or.inr ⟨rfl, rfl⟩⟩
  · next e c' hne hgossip =>
    have hrc : (c.gossip.addNode j.id j.now j.gossipAlloc).1 = .err e :=
      congrArg Prod.fst hgossip
    obtain rfl : _ = c' := congrArg Prod.snd hgossip
    refine ⟨rfl, Or.inl ⟨nofun, ?_, rfl⟩⟩
    -- with memory, the only error of the gossip list is `-EEXIST`
    by_contra halloc
    unfold Gossip.addNode at hrc
    rw [if_neg (by simpa using halloc)] at hrc
    split at hrc
    · cases hrc
      exact hne rfl
    · cases hrc

theorem joinNode_ring {c : Cluster} (hwf : Wf c.ring) (j : Join) :
    Wf (c.joinNode j).2.ring ∧ (c.joinNode j).2.ring.virtualCount = c.ring.virtualCount ∧
      (c.joinNode j).2.ring.nodes =
        if (c.joinNode j).1 = .ok then c.ring.nodes ++ [j.id] else c.ring.nodes := by
  obtain ⟨hwf', hcount, hnodes⟩ := hwf.add j.id j.nodesAlloc j.vnodesAlloc
  rcases (joinNode_cases c j).2 with ⟨hrc, -, hring⟩ | ⟨hrc, hring⟩
  · rw [hring, if_neg hrc]
    exact ⟨hwf, rfl, rfl⟩
  · rw [hring, hrc]
    exact ⟨hwf', hcount, hnodes⟩

theorem joinNode_ok {c : Cluster} {j : Join} (hj : j.gossipAlloc = true)
    (hok : (c.ring.add j.id j.nodesAlloc j.vnodesAlloc).1 = .ok) : (c.joinNode j).1 = .ok := by
  rcases (joinNode_cases c j).2 with ⟨-, halloc, -⟩ | ⟨hrc, -⟩
  · rw [hj] at halloc
    cases halloc
  · exact hrc.trans hok

/-! ## Ticks -/

section Tick

variable {g : Gossip} {now : UInt64} {n : UInt32} {t : UInt64}

theorem nodeId_tickNode (node : GossipNode) : (g.tickNode now node).nodeId = node.nodeId := by
  unfold Gossip.tickNode
  split <;> rfl

theorem ids_tick (g : Gossip) (now : UInt64) : (g.tick now).1.ids = g.ids := by
  show List.map _ (List.map _ g.nodes) = List.map _ g.nodes
  rw [List.map_map]
  exact List.map_congr_left fun node _ => nodeId_tickNode node

theorem tickNode_of_le (h : n = g.localId ∨ (now - t).toNat ≤ g.suspectMs) :
    g.tickNode now ⟨n, .alive, t⟩ = ⟨n, .alive, t⟩ := by
  unfold Gossip.tickNode
  split
  · rfl
  · next hne =>
    have hle := h.resolve_left hne
    simp [Gossip.nextState, Nat.not_lt.mpr hle]

theorem state_tickNode_of_lt {node : GossipNode} (hne : node.nodeId ≠ g.localId)
    (hlt : g.suspectMs < (now - node.lastSeen).toNat) :
    (g.tickNode now node).state ≠ .alive := by
  unfold Gossip.tickNode
  rw [if_neg hne]
  show g.nextState now node ≠ .alive
  unfold Gossip.nextState
  have hstate : (if node.state = .alive ∧ g.suspectMs < (now - node.lastSeen).toNat
      then NodeState.suspect else node.state) ≠ .alive := by
    split
    · nofun
    · next hnot => exact fun halive => hnot ⟨halive, hlt⟩
  dsimp only
  generalize (if node.state = .alive ∧ g.suspectMs < (now - node.lastSeen).toNat
    then NodeState.suspect else node.state) = state at hstate ⊢
  split
  · nofun
  · exact hstate

theorem mem_changes {change : NodeChange} (h : change ∈ (g.tick now).2) :
    ∃ node ∈ g.nodes, node.nodeId = change.nodeId ∧
      node.state ≠ (g.tickNode now node).state := by
  obtain ⟨node, hnode, hchange⟩ := List.mem_filterMap.mp (List.mem_of_mem_take h)
  unfold Gossip.changeOf at hchange
  split at hchange
  · cases hchange
  · next hne =>
    cases hchange
    exact ⟨node, hnode, rfl, hne⟩

end Tick

/-! ## Callbacks -/

theorem leaveNode_facts (c : Cluster) (id : UInt32) :
    (c.leaveNode id).gossip.nodes.Sublist c.gossip.nodes ∧
      (c.leaveNode id).ring.nodes = c.ring.nodes.erase id ∧
      ∀ node ∈ c.gossip.nodes, node.nodeId ≠ id → node ∈ (c.leaveNode id).gossip.nodes := by
  have hgossip : (c.leaveNode id).gossip = (c.gossip.removeNode id).2 := rfl
  rw [hgossip]
  unfold Gossip.removeNode
  split
  · refine ⟨List.eraseP_sublist, rfl, fun node hnode hne => ?_⟩
    exact (List.mem_eraseP_of_neg (by simpa using hne)).mpr hnode
  · exact ⟨List.Sublist.refl _, rfl, fun node hnode _ => hnode⟩

theorem callbacks_facts (changes : List NodeChange) (c : Cluster) :
    (changes.foldl Cluster.onGossipChange c).gossip.nodes.Sublist c.gossip.nodes ∧
      (Wf c.ring → Wf (changes.foldl Cluster.onGossipChange c).ring) ∧
      ∀ n, (∀ change ∈ changes, change.nodeId ≠ n) →
        (∀ node ∈ c.gossip.nodes, node.nodeId = n →
          node ∈ (changes.foldl Cluster.onGossipChange c).gossip.nodes) ∧
        (n ∈ c.ring.nodes → n ∈ (changes.foldl Cluster.onGossipChange c).ring.nodes) := by
  induction changes generalizing c with
  | nil => exact ⟨List.Sublist.refl _, fun h => h, fun n _ => ⟨fun _ h _ => h, fun h => h⟩⟩
  | cons change changes ih =>
    rw [List.foldl_cons]
    obtain ⟨hsub, hwf, hother⟩ := ih (c.onGossipChange change)
    by_cases hdead : change.newState = .dead
    · have hcall : c.onGossipChange change = c.leaveNode change.nodeId := if_pos hdead
      obtain ⟨hsub', hnodes, hkept⟩ := leaveNode_facts c change.nodeId
      rw [hcall] at hsub hwf hother ⊢
      refine ⟨hsub.trans hsub', fun h => hwf (h.remove change.nodeId), fun n hn => ?_⟩
      have hne : change.nodeId ≠ n := hn change List.mem_cons_self
      obtain ⟨hgossip, hring⟩ := hother n fun ch hch => hn ch (List.mem_cons_of_mem _ hch)
      refine ⟨fun node hnode hid => hgossip node (hkept node hnode ?_) hid, fun hmem => hring ?_⟩
      · rw [hid]
        exact Ne.symm hne
      · rw [hnodes]
        exact (List.mem_erase_of_ne (Ne.symm hne)).mpr hmem
    · have hcall : c.onGossipChange change = c := if_neg hdead
      rw [hcall] at hsub hwf hother ⊢
      exact ⟨hsub, hwf, fun n hn => hother n fun ch hch => hn ch (List.mem_cons_of_mem _ hch)⟩

end MsgBroker.Analysis.ClusterSpec
