import MsgBroker.Analysis.ClusterSpec
import MsgBroker.Analysis.RingOwnership

/-!
# Where two clusters route a key

`mb_cluster_init` puts the local node into the gossip list but not into the ring, and no join does
it later.
-/

set_option autoImplicit false

namespace MsgBroker.Analysis.ClusterRouting

open Lib Model
open Analysis.RingSpec Analysis.RingOwnership Analysis.ClusterSpec

/-- What the joins of one cluster have done to its ring. -/
structure Routes (s : JoinRun) : Prop where
  wf : Wf s.cluster.ring
  count : s.cluster.ring.virtualCount = Ring.virtualNodes
  nodes : s.cluster.ring.nodes = s.joined

theorem routes_of_reach {id : UInt32} {now : UInt64} {alloc : Bool} {ok : JoinRun → Join → Prop}
    {s : JoinRun} (h : Reach (clusterJoins id now alloc) ok s) : Routes s := by
  refine h.invariant Routes ⟨wf_init _, rfl, rfl⟩ ?_
  rintro s j s' hs - hstep
  obtain rfl : ⟨(s.cluster.joinNode j).2,
      if (s.cluster.joinNode j).1 = .ok then s.joined ++ [j.id] else s.joined⟩ = s' :=
    Option.some.inj hstep
  obtain ⟨hwf, hcount, hnodes⟩ := joinNode_ring hs.wf j
  exact ⟨hwf, hcount.trans hs.count, by rw [hnodes, hs.nodes]⟩

theorem exists_owns {M : Finset UInt32} (hM : M.Nonempty) (key : List UInt8) :
    ∃ x, Owns Ring.virtualNodes (M : Set UInt32) (ringHash key).toNat x := by
  obtain ⟨r, hr, hnodes⟩ := reach_adds Ring.virtualNodes M.nodup_toList
  obtain ⟨hwf, hcount⟩ := wf_of_reach hr
  have hne : r.nodes ≠ [] := by
    rw [hnodes]
    intro hnil
    exact hM.ne_empty (Finset.toList_eq_nil.mp hnil)
  have howns := lookup_owns hwf hne key
  have hmem : members r = (M : Set UInt32) := by
    ext x
    show x ∈ r.nodes ↔ x ∈ M
    rw [hnodes, Finset.mem_toList]
  rw [hmem, hcount] at howns
  exact ⟨_, howns⟩

section Agreement

variable {M : Finset UInt32} {a : UInt32} {now : UInt64} {alloc : Bool} {s : JoinRun}
  {key : List UInt8} {x : UInt32}

theorem route_owns (hs : Reach (clusterJoins a now alloc) (fun _ _ => True) s)
    (hjoined : ∀ y, y ∈ s.joined ↔ y ∈ M ∧ y ≠ a) (key : List UInt8) (hne : ∃ y ∈ M, y ≠ a) :
    Owns Ring.virtualNodes {y | y ∈ M ∧ y ≠ a} (ringHash key).toNat
      (s.cluster.routeKey key) := by
  obtain ⟨hwf, hcount, hnodes⟩ := routes_of_reach hs
  obtain ⟨y, hy, hya⟩ := hne
  have hmem : members s.cluster.ring = {y | y ∈ M ∧ y ≠ a} := by
    ext z
    show z ∈ s.cluster.ring.nodes ↔ _
    rw [hnodes]
    exact hjoined z
  have hne' : s.cluster.ring.nodes ≠ [] := by
    rw [hnodes]
    exact List.ne_nil_of_mem ((hjoined y).mpr ⟨hy, hya⟩)
  have howns := lookup_owns hwf hne' key
  rwa [hmem, hcount] at howns

theorem route_eq_of_owns (hd : Distinct Ring.virtualNodes (M : Set UInt32))
    (hs : Reach (clusterJoins a now alloc) (fun _ _ => True) s)
    (hjoined : ∀ y, y ∈ s.joined ↔ y ∈ M ∧ y ≠ a)
    (hx : Owns Ring.virtualNodes (M : Set UInt32) (ringHash key).toNat x) (hxa : x ≠ a) :
    s.cluster.routeKey key = x := by
  have hsub : {y | y ∈ M ∧ y ≠ a} ⊆ (M : Set UInt32) := fun y hy => hy.1
  have hroute := route_owns hs hjoined key ⟨x, hx.1, hxa⟩
  exact hroute.unique (hd.mono hsub) (hx.mono hsub ⟨hx.1, hxa⟩)

end Agreement

/-- **Where two clusters agree.**  Let `M` be members without colliding virtual nodes, and let
two clusters with the local nodes `a` and `b` of `M` have joined exactly the others.  They
route a key to the same node exactly when they have the same local node or neither local node
owns the key among all of `M`.
SRC: cluster.c:24-54, 92-115, gossip.c:29-42, ring.c:100-197 -/
theorem route_agrees_iff {M : Finset UInt32} {a b : UInt32} (ha : a ∈ M) (hb : b ∈ M)
    (hd : Distinct Ring.virtualNodes (M : Set UInt32)) {nowA nowB : UInt64} {allocA allocB : Bool}
    {sA sB : JoinRun} (hA : Reach (clusterJoins a nowA allocA) (fun _ _ => True) sA)
    (hB : Reach (clusterJoins b nowB allocB) (fun _ _ => True) sB)
    (hjoinedA : ∀ y, y ∈ sA.joined ↔ y ∈ M ∧ y ≠ a)
    (hjoinedB : ∀ y, y ∈ sB.joined ↔ y ∈ M ∧ y ≠ b) (key : List UInt8) :
    sA.cluster.routeKey key = sB.cluster.routeKey key ↔
      a = b ∨ (¬ Owns Ring.virtualNodes (M : Set UInt32) (ringHash key).toNat a ∧
        ¬ Owns Ring.virtualNodes (M : Set UInt32) (ringHash key).toNat b) := by
  by_cases hab : a = b
  · subst hab
    refine iff_of_true ?_ (Or.inl rfl)
    obtain ⟨hwfA, hcountA, hnodesA⟩ := routes_of_reach hA
    obtain ⟨hwfB, hcountB, hnodesB⟩ := routes_of_reach hB
    have hmem : members sA.cluster.ring = members sB.cluster.ring := by
      ext z
      show z ∈ sA.cluster.ring.nodes ↔ z ∈ sB.cluster.ring.nodes
      rw [hnodesA, hnodesB, hjoinedA, hjoinedB]
    refine lookup_congr hwfA hwfB (hcountA.trans hcountB.symm) hmem ?_ key
    rw [hcountA]
    refine hd.mono fun z hz => ?_
    have hz' : z ∈ sA.cluster.ring.nodes := hz
    rw [hnodesA, hjoinedA] at hz'
    exact hz'.1
  · rw [or_iff_right hab]
    obtain ⟨x, hx⟩ := exists_owns ⟨a, ha⟩ key
    have howner : ∀ y, Owns Ring.virtualNodes (M : Set UInt32) (ringHash key).toNat y ↔ x = y :=
      fun y => ⟨hx.unique hd, fun h => h ▸ hx⟩
    rw [howner, howner]
    by_cases hxa : x = a
    · -- `b` knows the owner `a`, the cluster of `a` does not
      subst hxa
      have hrouteA := (route_owns hA hjoinedA key ⟨b, hb, Ne.symm hab⟩).1.2
      rw [route_eq_of_owns hd hB hjoinedB hx hab]
      exact iff_of_false hrouteA (fun h => h.1 rfl)
    · by_cases hxb : x = b
      · subst hxb
        have hrouteB := (route_owns hB hjoinedB key ⟨a, ha, hab⟩).1.2
        rw [route_eq_of_owns hd hA hjoinedA hx hxa]
        exact iff_of_false (Ne.symm hrouteB) (fun h => h.2 rfl)
      · rw [route_eq_of_owns hd hA hjoinedA hx hxa, route_eq_of_owns hd hB hjoinedB hx hxb]
        exact iff_of_true rfl ⟨hxa, hxb⟩

/-! ## Three members -/

/-- Whether no virtual node of the one node has the hash of one of the other. -/
def apart (x y : UInt32) : Bool :=
  (List.range Ring.virtualNodes).all fun i =>
    (List.range Ring.virtualNodes).all fun j => (vnodeOf x i).place != (vnodeOf y j).place

theorem place_ne {x y : UInt32} (h : apart x y = true) :
    ∀ i < Ring.virtualNodes, ∀ j < Ring.virtualNodes,
      (vnodeOf x i).place ≠ (vnodeOf y j).place := by
  simpa only [apart, List.all_eq_true, List.mem_range, bne_iff_ne] using h

theorem distinct_three :
    Distinct Ring.virtualNodes (({1, 2, 3} : Finset UInt32) : Set UInt32) := by
  have h₁₂ := place_ne (x := 1) (y := 2) (by decide +kernel)
  have h₁₃ := place_ne (x := 1) (y := 3) (by decide +kernel)
  have h₂₃ := place_ne (x := 2) (y := 3) (by decide +kernel)
  intro x hx y hy i hi j hj hplace
  simp only [Finset.coe_insert, Finset.coe_singleton, Set.mem_insert_iff,
    Set.mem_singleton_iff] at hx hy
  rcases hx with rfl | rfl | rfl
  · rcases hy with rfl | rfl | rfl
    · rfl
    · exact absurd hplace (h₁₂ i hi j hj)
    · exact absurd hplace (h₁₃ i hi j hj)
  · rcases hy with rfl | rfl | rfl
    · exact absurd hplace.symm (h₁₂ j hj i hi)
    · rfl
    · exact absurd hplace (h₂₃ i hi j hj)
  · rcases hy with rfl | rfl | rfl
    · exact absurd hplace.symm (h₁₃ j hj i hi)
    · exact absurd hplace.symm (h₂₃ j hj i hi)
    · rfl

theorem distinct_one_two : Distinct Ring.virtualNodes (({1, 2} : Finset UInt32) : Set UInt32) :=
  distinct_three.mono (Finset.coe_subset.mpr (by decide))

/-- INTERNAL: nodes join a cluster one after the other. -/
theorem reach_joined (a : UInt32) (ids : List UInt32) (hnodup : ids.Nodup) :
    ∃ s, Reach (clusterJoins a 0 true) (fun _ _ => True) s ∧ s.joined = ids := by
  induction ids using List.reverseRecOn with
  | nil => exact ⟨_, Reach.init, rfl⟩
  | append_singleton ids b ih =>
    rw [List.nodup_append] at hnodup
    obtain ⟨s, hs, rfl⟩ := ih hnodup.1
    have hb : b ∉ s.cluster.ring.nodes := by
      rw [(routes_of_reach hs).nodes]
      exact fun hin => hnodup.2.2 b hin b List.mem_cons_self rfl
    refine ⟨_, hs.step (l := ⟨b, 0, true, true, fun _ => true⟩) trivial rfl, ?_⟩
    exact if_pos (joinNode_ok rfl (add_ok hb))

theorem mem_others {a : UInt32} (ids : List UInt32) {M : Finset UInt32} (ha : a ∉ ids)
    (hM : M = insert a ids.toFinset) (y : UInt32) : y ∈ ids ↔ y ∈ M ∧ y ≠ a := by
  rw [hM, Finset.mem_insert, List.mem_toFinset]
  constructor
  · exact fun hy => ⟨Or.inr hy, fun h => ha (h ▸ hy)⟩
  · rintro ⟨h, hne⟩
    exact h.resolve_left hne

/-- INTERNAL: the virtual node 86 of node 3 is the next one from the key `a` on. -/
theorem owns_three :
    Owns Ring.virtualNodes (({1, 2, 3} : Finset UInt32) : Set UInt32) (ringHash [97]).toNat 3 := by
  have hnext : ([1, 2, 3].all fun x => (List.range Ring.virtualNodes).all fun i =>
      ((ringHash [97]).toNat ≤ (vnodeOf x i).place) →
        (vnodeOf 3 86).place ≤ (vnodeOf x i).place) = true := by decide +kernel
  simp only [List.all_eq_true, List.mem_range, decide_eq_true_eq] at hnext
  refine ⟨by simp, 86, by decide, ⟨3, by simp, 86, by decide, rfl⟩, Or.inl ⟨?_, ?_⟩⟩
  · decide +kernel
  · rintro _ ⟨x, hx, i, hi, rfl⟩ hle
    exact hnext x (by simpa using hx) i hi hle

/-- Two clusters with the local nodes 1 and 2 that have joined the others of three members agree on
the key `a`, which node 3 owns. -/
theorem route_agrees_two_locals :
    ∃ sA sB, Reach (clusterJoins 1 0 true) (fun _ _ => True) sA ∧
      Reach (clusterJoins 2 0 true) (fun _ _ => True) sB ∧
      sA.joined = [2, 3] ∧ sB.joined = [1, 3] ∧
      sA.cluster.routeKey [97] = sB.cluster.routeKey [97] := by
  obtain ⟨sA, hA, hjoinedA⟩ := reach_joined 1 [2, 3] (by decide)
  obtain ⟨sB, hB, hjoinedB⟩ := reach_joined 2 [1, 3] (by decide)
  refine ⟨sA, sB, hA, hB, hjoinedA, hjoinedB, ?_⟩
  refine (route_agrees_iff (M := {1, 2, 3}) (by decide) (by decide) distinct_three hA hB
    (hjoinedA ▸ mem_others _ (by decide) (by decide))
    (hjoinedB ▸ mem_others _ (by decide) (by decide)) [97]).mpr (Or.inr ⟨?_, ?_⟩)
  · exact fun howns => absurd (howns.unique distinct_three owns_three) (by decide)
  · exact fun howns => absurd (howns.unique distinct_three owns_three) (by decide)

/-- Node 1 routes every key to node 2, and node 2 routes every key to node 1. -/
theorem route_disagrees :
    Distinct Ring.virtualNodes (({1, 2} : Finset UInt32) : Set UInt32) ∧
      ∃ sA sB, Reach (clusterJoins 1 0 true) (fun _ _ => True) sA ∧
        Reach (clusterJoins 2 0 true) (fun _ _ => True) sB ∧
        sA.joined = [2] ∧ sB.joined = [1] ∧
        ∀ key, sA.cluster.routeKey key = 2 ∧ sB.cluster.routeKey key = 1 := by
  obtain ⟨sA, hA, hjoinedA⟩ := reach_joined 1 [2] (List.nodup_singleton 2)
  obtain ⟨sB, hB, hjoinedB⟩ := reach_joined 2 [1] (List.nodup_singleton 1)
  have hothersA := hjoinedA ▸ mem_others (a := 1) [2] (M := {1, 2}) (by decide) (by decide)
  have hothersB := hjoinedB ▸ mem_others (a := 2) [1] (M := {1, 2}) (by decide) (by decide)
  refine ⟨distinct_one_two, sA, sB, hA, hB, hjoinedA, hjoinedB, fun key => ⟨?_, ?_⟩⟩
  · have howns := (route_owns hA hothersA key ⟨2, by decide, by decide⟩).1
    exact List.mem_singleton.mp (hjoinedA ▸ (hothersA _).mpr howns)
  · have howns := (route_owns hB hothersB key ⟨1, by decide, by decide⟩).1
    exact List.mem_singleton.mp (hjoinedB ▸ (hothersB _).mpr howns)

end MsgBroker.Analysis.ClusterRouting
