import MsgBroker.Analysis.ClusterSpec

/-!
# A node that keeps announcing itself

A discovery announcement is a join. For a node that gossip knows already the join returns `-EEXIST`
from the gossip list and does not touch the node, so that `last_seen_ms` stays at the time of the
first announcement.
-/

set_option autoImplicit false

namespace MsgBroker.Analysis.GossipLiveness

open Lib Model Analysis.RingSpec Analysis.ClusterSpec

/-- The clock does not run backwards. -/
def InOrder (s : TimedRun) (e : ClusterEvent) : Prop := s.clock ≤ e.time

/-- A tick comes within the suspect timeout of the last announcement of the node. -/
def Fresh (n : UInt32) (s : TimedRun) : ClusterEvent → Prop
  | .announce _ => True
  | .tick now => (s.announcedAt n).all fun t =>
      decide ((now - t).toNat ≤ s.cluster.gossip.suspectMs)

/-- A tick comes within the suspect timeout of the first announcement of the node; the local
node is never looked at. -/
def Timely (n : UInt32) (s : TimedRun) : ClusterEvent → Prop
  | .announce _ => True
  | .tick now => n = s.cluster.gossip.localId ∨ (s.joinedAt n).all fun t =>
      decide ((now - t).toNat ≤ s.cluster.gossip.suspectMs)

instance (s : TimedRun) (e : ClusterEvent) : Decidable (InOrder s e) :=
  inferInstanceAs (Decidable (s.clock ≤ e.time))

instance (n : UInt32) (s : TimedRun) : (e : ClusterEvent) → Decidable (Fresh n s e)
  | .announce _ => inferInstanceAs (Decidable True)
  | .tick now => inferInstanceAs (Decidable (((s.announcedAt n).all fun t =>
      decide ((now - t).toNat ≤ s.cluster.gossip.suspectMs)) = true))

instance (n : UInt32) (s : TimedRun) : (e : ClusterEvent) → Decidable (Timely n s e)
  | .announce _ => inferInstanceAs (Decidable True)
  | .tick now => inferInstanceAs (Decidable (n = s.cluster.gossip.localId ∨
      ((s.joinedAt n).all fun t =>
        decide ((now - t).toNat ≤ s.cluster.gossip.suspectMs)) = true))

/-- A node that has joined is in the gossip list and alive, and one that was put into the ring
is still there. -/
def Safe (n : UInt32) (s : TimedRun) : Prop :=
  (s.joinedAt n ≠ none →
    ∃ node ∈ s.cluster.gossip.nodes, node.nodeId = n ∧ node.state = .alive) ∧
  (s.routed n = true → n ∈ s.cluster.ring.nodes)

instance (n : UInt32) (s : TimedRun) : Decidable (Safe n s) :=
  inferInstanceAs (Decidable (_ ∧ _))

/-- What holds along a run: the node is as it was when it joined. -/
structure Inv (n : UInt32) (s : TimedRun) : Prop where
  nodup : s.cluster.gossip.ids.Nodup
  wf : Wf s.cluster.ring
  absent : s.joinedAt n = none → n ∉ s.cluster.gossip.ids
  present : ∀ t, s.joinedAt n = some t → ⟨n, .alive, t⟩ ∈ s.cluster.gossip.nodes
  routed : s.routed n = true → n ∈ s.cluster.ring.nodes

theorem Inv.safe {n : UInt32} {s : TimedRun} (h : Inv n s) : Safe n s := by
  refine ⟨fun hjoined => ?_, h.routed⟩
  obtain ⟨t, ht⟩ := Option.ne_none_iff_exists'.mp hjoined
  exact ⟨_, h.present t ht, rfl, rfl⟩

/-! ## Announcements -/

section Steps

variable {n : UInt32} {s : TimedRun}

theorem joinedAt_announce (j : Join) :
    (s.announce j).joinedAt n =
      if j.gossipAlloc = true ∧ n = j.id then (s.joinedAt n).or (some j.now)
      else s.joinedAt n := by
  show (if j.gossipAlloc = true then _ else _ : UInt32 → Option UInt64) n = _
  by_cases halloc : j.gossipAlloc = true
  · rw [if_pos halloc]
    by_cases hn : n = j.id
    · subst hn
      rw [Function.update_self, if_pos ⟨halloc, rfl⟩]
    · rw [Function.update_of_ne hn, if_neg (fun h => hn h.2)]
  · rw [if_neg halloc, if_neg (fun h => halloc h.1)]

theorem Inv.announce (hs : Inv n s) (j : Join) : Inv n (s.announce j) := by
  obtain ⟨hwf, -, hnodes⟩ := joinNode_ring hs.wf j
  have hgossip : (s.announce j).cluster.gossip =
      (s.cluster.gossip.addNode j.id j.now j.gossipAlloc).2 := (joinNode_cases s.cluster j).1
  refine ⟨?_, hwf, ?_, ?_, ?_⟩
  · rw [hgossip]
    exact nodup_addNode hs.nodup
  · intro hnone
    rw [joinedAt_announce] at hnone
    rw [hgossip]
    split at hnone
    · cases hjoined : s.joinedAt n <;> rw [hjoined] at hnone <;> cases hnone
    · next hnot =>
      have hn := hs.absent hnone
      cases halloc : j.gossipAlloc with
      | false => exact hn
      | true =>
        rw [mem_ids_addNode]
        rintro (h | h)
        · exact hn h
        · exact hnot ⟨halloc, h⟩
  · intro t ht
    rw [joinedAt_announce] at ht
    rw [hgossip]
    split at ht
    · next hjoins =>
      obtain ⟨halloc, rfl⟩ := hjoins
      cases hjoined : s.joinedAt j.id with
      | some t' =>
        rw [hjoined] at ht
        cases ht
        exact mem_nodes_addNode (hs.present t hjoined)
      | none =>
        rw [hjoined] at ht
        cases ht
        rw [halloc]
        unfold Gossip.addNode
        rw [if_neg (by simp), if_neg (hs.absent hjoined)]
        exact List.mem_append_right _ List.mem_cons_self
    · exact mem_nodes_addNode (hs.present t ht)
  · intro hrouted
    show n ∈ (s.cluster.joinNode j).2.ring.nodes
    have hrouted' : (if (s.cluster.joinNode j).1 = .ok then Function.update s.routed j.id true
        else s.routed) n = true := hrouted
    rw [hnodes]
    split
    · next hok =>
      rw [if_pos hok] at hrouted'
      by_cases hn : n = j.id
      · rw [hn]
        exact List.mem_append_right _ List.mem_cons_self
      · rw [Function.update_of_ne hn] at hrouted'
        exact List.mem_append_left _ (hs.routed hrouted')
    · next hrc =>
      rw [if_neg hrc] at hrouted'
      exact hs.routed hrouted'

/-! ## Ticks -/

theorem Inv.tick (hs : Inv n s) {now : UInt64} (htimely : Timely n s (.tick now)) :
    Inv n (s.tick now) := by
  obtain ⟨hsub, hwf, hother⟩ := callbacks_facts (s.cluster.gossip.tick now).2
    { s.cluster with gossip := (s.cluster.gossip.tick now).1 }
  have hids : ((s.tick now).cluster.gossip.ids).Sublist s.cluster.gossip.ids := by
    rw [← ids_tick s.cluster.gossip now]
    exact hsub.map GossipNode.nodeId
  have hsame : ∀ t, s.joinedAt n = some t →
      s.cluster.gossip.tickNode now ⟨n, .alive, t⟩ = ⟨n, .alive, t⟩ := by
    intro t ht
    apply tickNode_of_le
    rcases htimely with hlocal | hall
    · exact Or.inl hlocal
    · rw [ht] at hall
      exact Or.inr (by simpa using hall)
  -- a change about `n` would come from its node, and that does not change
  have hspared : ∀ change ∈ (s.cluster.gossip.tick now).2, change.nodeId ≠ n := by
    intro change hchange hid
    obtain ⟨node, hnode, hnodeId, hdiff⟩ := mem_changes hchange
    cases hjoined : s.joinedAt n with
    | none =>
      apply hs.absent hjoined
      rw [← hid, ← hnodeId]
      exact List.mem_map_of_mem hnode
    | some t =>
      have heq : node = ⟨n, .alive, t⟩ :=
        List.inj_on_of_nodup_map hs.nodup hnode (hs.present t hjoined) (hnodeId.trans hid)
      rw [heq, hsame t hjoined] at hdiff
      exact hdiff rfl
  obtain ⟨hgossip, hring⟩ := hother n hspared
  refine ⟨hids.nodup hs.nodup, hwf hs.wf, fun hnone hmem => ?_, fun t ht => ?_, fun hr => ?_⟩
  · exact hs.absent hnone (hids.subset hmem)
  · refine hgossip _ ?_ rfl
    rw [← hsame t ht]
    exact List.mem_map_of_mem (hs.present t ht)
  · exact hring (hs.routed hr)

theorem Inv.not_safe_tick (hs : Inv n s) {now : UInt64} (hlate : ¬ Timely n s (.tick now)) :
    ¬ Safe n (s.tick now) := by
  have hlate' : ¬ (n = s.cluster.gossip.localId ∨ ((s.joinedAt n).all fun t =>
      decide ((now - t).toNat ≤ s.cluster.gossip.suspectMs)) = true) := hlate
  rw [not_or] at hlate'
  obtain ⟨hlocal, hall⟩ := hlate'
  obtain ⟨t, ht⟩ : ∃ t, s.joinedAt n = some t := by
    apply Option.ne_none_iff_exists'.mp
    intro hnone
    rw [hnone] at hall
    exact hall rfl
  rw [ht] at hall
  have hlt : s.cluster.gossip.suspectMs < (now - t).toNat := by simpa using hall
  obtain ⟨hsub, -, -⟩ := callbacks_facts (s.cluster.gossip.tick now).2
    { s.cluster with gossip := (s.cluster.gossip.tick now).1 }
  intro hsafe
  have hjoined : (s.tick now).joinedAt n ≠ none := by
    show s.joinedAt n ≠ none
    rw [ht]
    nofun
  obtain ⟨node, hnode, hid, halive⟩ := hsafe.1 hjoined
  -- the node comes from the one that joined, and the tick has changed its state
  obtain ⟨old, hold, rfl⟩ := List.mem_map.mp (hsub.subset hnode)
  rw [nodeId_tickNode] at hid
  obtain rfl : old = ⟨n, .alive, t⟩ :=
    List.inj_on_of_nodup_map hs.nodup hold (hs.present t ht) hid
  have hdead : (s.cluster.gossip.tickNode now ⟨n, .alive, t⟩).state ≠ .alive :=
    state_tickNode_of_lt hlocal hlt
  exact hdead halive

end Steps

/-! ## Runs -/

section Runs

variable {n id : UInt32} {now : UInt64} {alloc : Bool} {s : TimedRun}

theorem inv_start : Inv n (clusterTrace id now alloc).init where
  nodup := nodup_addNode List.nodup_nil
  wf := wf_init _
  absent h := by
    have hnone : (if n = id ∧ alloc = true then some now else none) = none := h
    show n ∉ (Gossip.addNode id now alloc ⟨id, 0, 0, []⟩).2.ids
    cases alloc with
    | false => exact List.not_mem_nil
    | true =>
      rw [mem_ids_addNode]
      rintro (hin | rfl)
      · exact List.not_mem_nil hin
      · rw [if_pos ⟨rfl, rfl⟩] at hnone
        cases hnone
  present t ht := by
    have hsome : (if n = id ∧ alloc = true then some now else none) = some t := ht
    split at hsome
    · next hlocal =>
      obtain ⟨rfl, rfl⟩ := hlocal
      cases hsome
      exact List.mem_cons_self
    · cases hsome
  routed h := by cases h

theorem inv_of_reach (hs : Reach (clusterTrace id now alloc) (Timely n) s) : Inv n s := by
  apply hs.invariant (Inv n) inv_start
  intro s e s' hinv htimely hstep
  cases e with
  | announce j =>
    obtain rfl : s.announce j = s' := Option.some.inj hstep
    exact hinv.announce j
  | tick time =>
    obtain rfl : s.tick time = s' := Option.some.inj hstep
    exact hinv.tick htimely

/-- **A node that has joined stays alive and routed exactly as long as every tick comes within
the suspect timeout of its first announcement.**  In every timed trace of announcements and ticks
whose ticks have all been `Timely` the node is alive and no callback has taken it out of the
ring, and whether that is so after one more event depends on nothing but that event being
`Timely`; later announcements do not count.
SRC: cluster.c:5-22, 92-109, gossip.c:97-126, 194-261 -/
theorem announcing_alive_iff (hs : Reach (clusterTrace id now alloc) (Timely n) s) :
    Safe n s ∧ ∀ e s', (clusterTrace id now alloc).step s e = some s' →
      (Safe n s' ↔ Timely n s e) := by
  have hinv := inv_of_reach hs
  refine ⟨hinv.safe, fun e s' hstep => ?_⟩
  cases e with
  | announce j =>
    obtain rfl : s.announce j = s' := Option.some.inj hstep
    exact iff_of_true (hinv.announce j).safe trivial
  | tick time =>
    obtain rfl : s.tick time = s' := Option.some.inj hstep
    refine ⟨fun hsafe => ?_, fun htimely => (hinv.tick htimely).safe⟩
    by_contra hlate
    exact hinv.not_safe_tick hlate hsafe

end Runs

/-- An announcement at the given time that finds the memory it needs. -/
def announceAt (n : UInt32) (now : UInt64) : ClusterEvent :=
  .announce ⟨n, now, true, true, fun _ => true⟩

/-- Node 2 announces itself, a tick follows in time, and the node is alive. -/
theorem announcing_alive_in_time :
    ∃ s, Reach (clusterTrace 1 0 true) (Timely 2) s ∧ s.joinedAt 2 ≠ none ∧ Safe 2 s := by
  have hval : ((clusterTrace 1 0 true).run (clusterTrace 1 0 true).init
      [announceAt 2 1000, .tick 4000]).map (fun s => s.joinedAt 2) = some (some 1000) := by
    decide +kernel
  have htimely : (clusterTrace 1 0 true).Meets (Timely 2) (clusterTrace 1 0 true).init
      [announceAt 2 1000, .tick 4000] := by decide +kernel
  obtain ⟨s, hreach, hjoined⟩ := Reach.exists_of_run htimely hval
  exact ⟨s, hreach, by rw [hjoined]; exact nofun, (announcing_alive_iff hreach).1⟩

/-- Node 2 announces itself every second, the clock never runs backwards and every tick comes
within a millisecond of an announcement, and yet the tick at 3001 makes the node suspect. -/
theorem announcing_node_suspected :
    ∃ s, Reach (clusterTrace 1 0 true) (fun s e => InOrder s e ∧ Fresh 2 s e) s ∧
      ⟨2, .suspect, 0⟩ ∈ s.cluster.gossip.nodes ∧ ¬ Safe 2 s := by
  have hval : ((clusterTrace 1 0 true).run (clusterTrace 1 0 true).init
      [announceAt 2 0, announceAt 2 1000, announceAt 2 2000, announceAt 2 3000, .tick 3001]).map
      (fun s => (decide (⟨2, .suspect, 0⟩ ∈ s.cluster.gossip.nodes), decide (Safe 2 s))) =
        some (true, false) := by decide +kernel
  have hfresh : (clusterTrace 1 0 true).Meets (fun s e => InOrder s e ∧ Fresh 2 s e)
      (clusterTrace 1 0 true).init
      [announceAt 2 0, announceAt 2 1000, announceAt 2 2000, announceAt 2 3000, .tick 3001] := by
    decide +kernel
  obtain ⟨s, hreach, hs⟩ := Reach.exists_of_run hfresh hval
  obtain ⟨hsuspect, hunsafe⟩ := Prod.mk.inj hs
  exact ⟨s, hreach, of_decide_eq_true hsuspect, of_decide_eq_false hunsafe⟩

end MsgBroker.Analysis.GossipLiveness
