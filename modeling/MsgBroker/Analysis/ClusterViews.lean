import MsgBroker.Analysis.ClusterSpec

/-!
# Two views of the members

A join adds a node to the gossip list and then to the ring, a leave removes it from the list and
then from the ring, and each half has a lock of its own.
-/

set_option autoImplicit false

namespace MsgBroker.Analysis.ClusterViews

open Lib Model Model.MemberThreads
open Analysis.RingSpec Analysis.ClusterSpec
open Function (update update_of_ne update_self)

variable {T : Type}

/-- The call is about another node than the local one. -/
def NotLocal (s : Threads T Cluster MemberPc) : T × MemberAct → Prop
  | (_, .join id _) => id ≠ s.shared.gossip.localId
  | (_, .leave id) => id ≠ s.shared.gossip.localId
  | (_, .run) => True

/-- The order of calls under which the views agree. -/
def Apart (s : Threads T Cluster MemberPc) : T × MemberAct → Prop
  | (_, .join id _) => ∀ u, s.pc u ≠ .leaving id
  | (_, .leave id) => ∀ u, s.pc u ≠ .joining id
  | (_, .run) => True

instance (s : Threads T Cluster MemberPc) : (l : T × MemberAct) → Decidable (NotLocal s l)
  | (_, .join id _) => inferInstanceAs (Decidable (id ≠ s.shared.gossip.localId))
  | (_, .leave id) => inferInstanceAs (Decidable (id ≠ s.shared.gossip.localId))
  | (_, .run) => inferInstanceAs (Decidable True)

instance [Fintype T] (s : Threads T Cluster MemberPc) : (l : T × MemberAct) → Decidable (Apart s l)
  | (_, .join id _) => inferInstanceAs (Decidable (∀ u, s.pc u ≠ .leaving id))
  | (_, .leave id) => inferInstanceAs (Decidable (∀ u, s.pc u ≠ .joining id))
  | (_, .run) => inferInstanceAs (Decidable True)

/-! ## The invariant -/

/-- How the two views of one node are related, by the calls about it that are between their
halves. -/
structure Related (s : Threads T Cluster MemberPc) (id : UInt32) : Prop where
  joining : (∃ u, s.pc u = .joining id) →
    id ∈ s.shared.gossip.ids ∧ ∀ u, s.pc u ≠ .leaving id
  leaving : (∃ u, s.pc u = .leaving id) → id ∉ s.shared.gossip.ids
  quiet : (∀ u, s.pc u ≠ .joining id) → (∀ u, s.pc u ≠ .leaving id) →
    (id ∈ s.shared.gossip.ids ↔ id ∈ s.shared.ring.nodes)

/-- What holds between the steps of a run in that order. -/
structure Inv (a : UInt32) (s : Threads T Cluster MemberPc) : Prop where
  localId : s.shared.gossip.localId = a
  nodup : s.shared.gossip.ids.Nodup
  wf : Wf s.shared.ring
  notRouted : a ∉ s.shared.ring.nodes
  calls : ∀ u, s.pc u ≠ .joining a
  related : ∀ id, id ≠ a → Related s id

/-- What a thread can do: one half of a join or of a leave. -/
inductive Moves (a : MemberAct) (p : MemberPc) (c : Cluster) : MemberPc → Cluster → Prop where
  | join {id now} : a = .join id now → p = .idle →
      Moves a p c (.joining id) { c with gossip := (c.gossip.addNode id now true).2 }
  | joined {id} : a = .run → p = .joining id →
      Moves a p c .idle { c with ring := (c.ring.add id true fun _ => true).2 }
  | leave {id} : a = .leave id → p = .idle →
      Moves a p c (.leaving id) { c with gossip := (c.gossip.removeNode id).2 }
  | left {id} : a = .run → p = .leaving id →
      Moves a p c .idle { c with ring := (c.ring.remove id).2 }

theorem afterGossip_joinGossip (c : Cluster) (id : UInt32) (now : UInt64) :
    afterGossip id (c.joinGossip (joinOk id now)) =
      (.joining id, { c with gossip := (c.gossip.addNode id now true).2 }) := by
  unfold Cluster.joinGossip joinOk Gossip.addNode
  dsimp only
  rw [if_neg (by simp)]
  split <;> rfl

theorem moves_of_program {t : T} {a : MemberAct} {p p' : MemberPc} {c c' : Cluster}
    (h : program t a p c = some (p', c')) : Moves a p c p' c' := by
  unfold program at h
  split at h
  · rw [afterGossip_joinGossip] at h
    cases h
    exact .join rfl rfl
  · cases h
    exact .joined rfl rfl
  · cases h
    exact .leave rfl rfl
  · cases h
    exact .left rfl rfl
  · cases h

section Step

variable [DecidableEq T] {s : Threads T Cluster MemberPc} {t : T} {p : MemberPc} {c : Cluster}

theorem update_eq_iff {q : MemberPc} (hold : s.pc t ≠ q) (hnew : p ≠ q) (u : T) :
    update s.pc t p u = q ↔ s.pc u = q := by
  by_cases hu : u = t
  · subst hu
    rw [update_self]
    exact iff_of_false hnew hold
  · rw [update_of_ne hu]

theorem update_ne {q : MemberPc} (hnew : p ≠ q) (hold : ∀ u, s.pc u ≠ q) :
    ∀ u, update s.pc t p u ≠ q :=
  forall_update (P := fun _ (c : MemberPc) => c ≠ q) hnew fun u _ => hold u

theorem Related.of_other {id : UInt32} (h : Related s id) (hjold : s.pc t ≠ .joining id)
    (hjnew : p ≠ .joining id) (hlold : s.pc t ≠ .leaving id) (hlnew : p ≠ .leaving id)
    (hgossip : id ∈ c.gossip.ids ↔ id ∈ s.shared.gossip.ids)
    (hring : id ∈ c.ring.nodes ↔ id ∈ s.shared.ring.nodes) :
    Related ⟨c, update s.pc t p⟩ id := by
  have hj := update_eq_iff hjold hjnew
  have hl := update_eq_iff hlold hlnew
  constructor
  · simp only [hj, hl, ne_eq, hgossip]
    exact h.joining
  · simp only [hl, hgossip]
    exact h.leaving
  · simp only [hj, hl, ne_eq, hgossip, hring]
    exact h.quiet

theorem Related.join {id : UInt32} (hapart : ∀ u, s.pc u ≠ .leaving id)
    (hmem : id ∈ c.gossip.ids) : Related ⟨c, update s.pc t (.joining id)⟩ id := by
  have hnone : ∀ u, update s.pc t (.joining id) u ≠ .leaving id :=
    update_ne nofun hapart
  constructor
  · exact fun _ => ⟨hmem, hnone⟩
  · rintro ⟨u, hu⟩
    exact absurd hu (hnone u)
  · intro hquiet
    exact absurd (update_self t _ s.pc) (hquiet t)

theorem Related.joined {id : UInt32} (h : Related s id) (ht : s.pc t = .joining id)
    (hgossip : c.gossip.ids = s.shared.gossip.ids) (hmem : id ∈ c.ring.nodes) :
    Related ⟨c, update s.pc t .idle⟩ id := by
  obtain ⟨hin, hapart⟩ := h.joining ⟨t, ht⟩
  have hnone : ∀ u, update s.pc t .idle u ≠ .leaving id :=
    update_ne nofun hapart
  constructor
  · exact fun _ => ⟨hgossip ▸ hin, hnone⟩
  · rintro ⟨u, hu⟩
    exact absurd hu (hnone u)
  · intro _ _
    exact iff_of_true (hgossip ▸ hin) hmem

theorem Related.leave {id : UInt32} (hapart : ∀ u, s.pc u ≠ .joining id)
    (hmem : id ∉ c.gossip.ids) : Related ⟨c, update s.pc t (.leaving id)⟩ id := by
  have hnone : ∀ u, update s.pc t (.leaving id) u ≠ .joining id :=
    update_ne nofun hapart
  constructor
  · rintro ⟨u, hu⟩
    exact absurd hu (hnone u)
  · exact fun _ => hmem
  · intro _ hquiet
    exact absurd (update_self t _ s.pc) (hquiet t)

theorem Related.left {id : UInt32} (h : Related s id) (ht : s.pc t = .leaving id)
    (hgossip : c.gossip.ids = s.shared.gossip.ids) (hmem : id ∉ c.ring.nodes) :
    Related ⟨c, update s.pc t .idle⟩ id := by
  have hout : id ∉ c.gossip.ids := hgossip ▸ h.leaving ⟨t, ht⟩
  have hapart : ∀ u, s.pc u ≠ .joining id := fun u hu => (h.joining ⟨u, hu⟩).2 t ht
  have hnone : ∀ u, update s.pc t .idle u ≠ .joining id :=
    update_ne nofun hapart
  constructor
  · rintro ⟨u, hu⟩
    exact absurd hu (hnone u)
  · exact fun _ => hout
  · exact fun _ _ => iff_of_false hout hmem

theorem Inv.step {a : UInt32} {now : UInt64} {s' : Threads T Cluster MemberPc}
    {l : T × MemberAct} (hs : Inv a s) (hlocal : NotLocal s l) (hapart : Apart s l)
    (hstep : (system a now).step s l = some s') : Inv a s' := by
  obtain ⟨p, c, hprog, rfl⟩ := interleave_step hstep
  obtain ⟨t, act⟩ := l
  cases moves_of_program hprog with
  | @join id now hact hidle =>
    subst hact
    have hid : id ≠ a := hs.localId ▸ hlocal
    have hmem : ∀ x, x ∈ (s.shared.gossip.addNode id now true).2.ids ↔
        x ∈ s.shared.gossip.ids ∨ x = id := fun x => mem_ids_addNode
    refine ⟨localId_addNode.trans hs.localId, nodup_addNode hs.nodup, hs.wf, hs.notRouted,
      update_ne (by simpa using hid) hs.calls, fun x hx => ?_⟩
    by_cases hxid : x = id
    · subst hxid
      exact Related.join hapart ((hmem x).mpr (Or.inr rfl))
    · refine (hs.related x hx).of_other (by simp [hidle]) (by simpa using Ne.symm hxid)
        (by simp [hidle]) nofun ?_ Iff.rfl
      rw [hmem]
      simp [hxid]
  | @joined id hact hjoining =>
    have hid : id ≠ a := fun he => hs.calls t (he ▸ hjoining)
    have hmem : ∀ x, x ∈ (s.shared.ring.add id true fun _ => true).2.nodes ↔
        x ∈ s.shared.ring.nodes ∨ x = id := fun x => mem_nodes_add hs.wf
    refine ⟨hs.localId, hs.nodup, (hs.wf.add _ _ _).1, ?_, update_ne nofun hs.calls, fun x hx => ?_⟩
    · rw [hmem]
      rintro (h | h)
      · exact hs.notRouted h
      · exact hid h.symm
    · by_cases hxid : x = id
      · subst hxid
        exact (hs.related x hx).joined hjoining rfl ((hmem x).mpr (Or.inr rfl))
      · refine (hs.related x hx).of_other (by simpa [hjoining] using Ne.symm hxid) nofun
          (by simp [hjoining]) nofun Iff.rfl ?_
        rw [hmem]
        simp [hxid]
  | @leave id hact hidle =>
    subst hact
    have hmem : (s.shared.gossip.removeNode id).2.ids = s.shared.gossip.ids.erase id :=
      ids_removeNode
    refine ⟨localId_removeNode.trans hs.localId, ?_, hs.wf, hs.notRouted,
      update_ne nofun hs.calls, fun x hx => ?_⟩
    · rw [hmem]
      exact hs.nodup.erase id
    · by_cases hxid : x = id
      · subst hxid
        refine Related.leave hapart ?_
        rw [hmem]
        exact hs.nodup.not_mem_erase
      · refine (hs.related x hx).of_other (by simp [hidle]) nofun (by simp [hidle])
          (by simpa using Ne.symm hxid) ?_ Iff.rfl
        rw [hmem, List.mem_erase_of_ne hxid]
  | @left id hact hleaving =>
    refine ⟨hs.localId, hs.nodup, hs.wf.remove id, ?_, update_ne nofun hs.calls, fun x hx => ?_⟩
    · exact fun h => hs.notRouted (List.mem_of_mem_erase h)
    · by_cases hxid : x = id
      · subst hxid
        exact (hs.related x hx).left hleaving rfl hs.wf.nodup.not_mem_erase
      · refine (hs.related x hx).of_other (by simp [hleaving]) nofun
          (by simpa [hleaving] using Ne.symm hxid) nofun Iff.rfl ?_
        exact List.mem_erase_of_ne hxid

end Step

/-! ## Runs -/

section Runs

variable [DecidableEq T]

theorem inv_start (a : UInt32) (now : UInt64) : Inv a (system (T := T) a now).init where
  localId := localId_addNode
  nodup := nodup_addNode List.nodup_nil
  wf := wf_init _
  notRouted := List.not_mem_nil
  calls _ := nofun
  related id hid := by
    refine ⟨?_, ?_, fun _ _ => ?_⟩
    · rintro ⟨u, hu⟩
      cases hu
    · rintro ⟨u, hu⟩
      cases hu
    · refine iff_of_false ?_ List.not_mem_nil
      show id ∉ (Gossip.addNode a now true _).2.ids
      rw [mem_ids_addNode]
      rintro (h | h)
      · exact List.not_mem_nil h
      · exact hid h

theorem inv_of_reach {a : UInt32} {now : UInt64} {s : Threads T Cluster MemberPc}
    (h : Reach (system a now) (fun s l => NotLocal s l ∧ Apart s l) s) : Inv a s :=
  h.invariant (Inv a) (inv_start a now) fun _ _ _ hs hok hstep => hs.step hok.1 hok.2 hstep

/-- **The two views agree, in the right order of calls.**  In every run of joins and leaves of
other nodes than the local one whose steps meet `Apart`, whenever no call is in progress the
gossip list without the local node has exactly the nodes of the ring.
SRC: cluster.c:5-22, 92-109, gossip.c:97-148, routing.c:15-39 -/
theorem views_agree {a : UInt32} {now : UInt64} {s : Threads T Cluster MemberPc}
    (hs : Reach (system a now) (fun s l => NotLocal s l ∧ Apart s l) s)
    (hidle : ∀ t, s.pc t = .idle) :
    {x | x ∈ s.shared.gossip.ids} \ {a} = {x | x ∈ s.shared.ring.nodes} := by
  have hinv := inv_of_reach hs
  ext x
  show x ∈ s.shared.gossip.ids ∧ x ≠ a ↔ x ∈ s.shared.ring.nodes
  by_cases hx : x = a
  · subst hx
    exact iff_of_false (fun h => h.2 rfl) hinv.notRouted
  · rw [and_iff_left hx]
    exact (hinv.related x hx).quiet (fun u => by simp [hidle u]) (fun u => by simp [hidle u])

end Runs

/-- Two threads join one node at the same time, and the views agree. -/
theorem views_agree_overlapping_joins :
    ∃ s : Threads (Fin 2) Cluster MemberPc,
      Reach (system 1 0) (fun s l => NotLocal s l ∧ Apart s l) s ∧
      {x | x ∈ s.shared.gossip.ids} \ {1} = {x | x ∈ s.shared.ring.nodes} := by
  have hrun : (system (T := Fin 2) 1 0).run (system 1 0).init
      [(0, .join 2 0), (1, .join 2 5), (1, .run), (0, .run)] = some _ := rfl
  have hreach : Reach (system (T := Fin 2) 1 0) (fun s l => NotLocal s l ∧ Apart s l) _ :=
    Reach.of_run Reach.init (by decide +kernel) hrun
  exact ⟨_, hreach, views_agree hreach (by decide +kernel)⟩

/-- A leave of a node runs between the two halves of a join of it: the node is in the ring but
not in the gossip list. -/
theorem views_disagree :
    ∃ s : Threads (Fin 2) Cluster MemberPc, Reach (system 1 0) NotLocal s ∧
      (∀ t, s.pc t = .idle) ∧ 2 ∉ s.shared.gossip.ids ∧ 2 ∈ s.shared.ring.nodes := by
  have hrun : (system (T := Fin 2) 1 0).run (system 1 0).init
      [(0, .join 2 0), (1, .leave 2), (1, .run), (0, .run)] = some _ := rfl
  exact ⟨_, Reach.of_run Reach.init (by decide +kernel) hrun, by decide +kernel, by decide +kernel,
    by decide +kernel⟩

end MsgBroker.Analysis.ClusterViews
