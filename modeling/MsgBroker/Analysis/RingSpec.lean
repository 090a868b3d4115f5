import MsgBroker.Model.Ring

/-!
# What the calls on a ring do

`Wf` is the representation: the virtual nodes are sorted by hash and are, in some order, exactly
those of the members.
-/

set_option autoImplicit false

namespace MsgBroker.Analysis.RingSpec

open Lib Model Model.Ring

/-- All virtual nodes of a node. -/
def vnodesOf (count : ℕ) (id : UInt32) : List VNode := (List.range count).map (vnodeOf id)

/-- A ring as `mb_ring_add` and `mb_ring_remove` build it. -/
structure Wf (r : Ring) : Prop where
  pos : 0 < r.virtualCount
  nodup : r.nodes.Nodup
  sorted : SortedByKey VNode.place r.vnodes
  perm : r.vnodes.Perm (r.nodes.flatMap (vnodesOf r.virtualCount))

theorem wf_init (virtualCount : ℤ) : Wf (Ring.init virtualCount) where
  pos := by
    show 0 < if 0 < virtualCount then virtualCount.toNat else virtualNodes
    split
    · omega
    · decide
  nodup := List.nodup_nil
  sorted := List.Pairwise.nil
  perm := List.Perm.nil

section Members

variable {r : Ring} {v : VNode}

variable {id : UInt32}

theorem mem_vnodesOf {count : ℕ} :
    v ∈ vnodesOf count id ↔ ∃ i < count, vnodeOf id i = v := by
  simp [vnodesOf]

theorem nodeId_of_mem_vnodesOf {count : ℕ} (h : v ∈ vnodesOf count id) :
    v.nodeId = id := by
  obtain ⟨i, -, rfl⟩ := mem_vnodesOf.mp h
  rfl

theorem Wf.mem_vnodes_iff (h : Wf r) :
    v ∈ r.vnodes ↔ ∃ id ∈ r.nodes, ∃ i < r.virtualCount, vnodeOf id i = v := by
  rw [h.perm.mem_iff, List.mem_flatMap]
  simp only [mem_vnodesOf]

theorem Wf.nodeId_mem (h : Wf r) (hv : v ∈ r.vnodes) : v.nodeId ∈ r.nodes := by
  obtain ⟨id, hid, i, -, rfl⟩ := h.mem_vnodes_iff.mp hv
  exact hid

theorem Wf.vnodes_ne_nil (h : Wf r) (hr : r.nodes ≠ []) : r.vnodes ≠ [] := by
  obtain ⟨id, hid⟩ := List.exists_mem_of_ne_nil _ hr
  exact List.ne_nil_of_mem (h.mem_vnodes_iff.mpr ⟨id, hid, 0, h.pos, rfl⟩)

theorem Wf.filter_vnodes (h : Wf r) (hid : id ∉ r.nodes) :
    (r.vnodes.filter fun v => v.nodeId ≠ id) = r.vnodes := by
  apply List.filter_eq_self.mpr
  intro v hv
  simp only [ne_eq, decide_not, Bool.not_eq_eq_eq_not, Bool.not_true, decide_eq_false_iff_not]
  intro he
  exact hid (he ▸ h.nodeId_mem hv)

end Members

/-! ## `mb_ring_add` -/

section Add

variable {r : Ring} {id : UInt32}

variable {r' : Ring}

theorem growNodes_some {alloc : Bool} (h : r.growNodes alloc = some r') :
    r'.nodes = r.nodes ∧ r'.vnodes = r.vnodes ∧ r'.virtualCount = r.virtualCount := by
  unfold growNodes at h
  split at h
  · cases h
    exact ⟨rfl, rfl, rfl⟩
  · split at h <;> cases h
    exact ⟨rfl, rfl, rfl⟩

theorem growVnodes_some {alloc : Bool} (h : r.growVnodes alloc = some r') :
    r'.nodes = r.nodes ∧ r'.vnodes = r.vnodes ∧ r'.virtualCount = r.virtualCount := by
  unfold growVnodes at h
  split at h
  · cases h
    exact ⟨rfl, rfl, rfl⟩
  · split at h <;> cases h
    exact ⟨rfl, rfl, rfl⟩

/-- What the loop of `mb_ring_add` has done when it ends, after the indices in `done`. -/
structure Added (id : UInt32) (done : List ℕ) (r r' : Ring) : Prop where
  nodes : r'.nodes = r.nodes
  virtualCount : r'.virtualCount = r.virtualCount
  sorted : SortedByKey VNode.place r.vnodes → SortedByKey VNode.place r'.vnodes
  filter : (r'.vnodes.filter fun v => v.nodeId ≠ id) = r.vnodes.filter fun v => v.nodeId ≠ id
  perm : r'.vnodes.Perm (done.map (vnodeOf id) ++ r.vnodes)
  owner : ∀ h : ℕ, (∃ i ∈ done, (vnodeOf id i).place = h) ∨
      (successor VNode.place h r.vnodes).map VNode.nodeId = some id →
    (successor VNode.place h r'.vnodes).map VNode.nodeId = some id

theorem Added.nil (id : UInt32) (r : Ring) : Added id [] r r where
  nodes := rfl
  virtualCount := rfl
  sorted := fun h => h
  filter := rfl
  perm := List.Perm.refl _
  owner h hcase := hcase.resolve_left (by simp)

theorem Added.of_eq {done : List ℕ} {r₁ : Ring} (h : Added id done r₁ r')
    (hn : r₁.nodes = r.nodes) (hv : r₁.vnodes = r.vnodes)
    (hc : r₁.virtualCount = r.virtualCount) : Added id done r r' where
  nodes := h.nodes.trans hn
  virtualCount := h.virtualCount.trans hc
  sorted hs := h.sorted (hv ▸ hs)
  filter := hv ▸ h.filter
  perm := hv ▸ h.perm
  owner k hcase := h.owner k (hv ▸ hcase)

theorem Added.cons {i : ℕ} {is : List ℕ}
    (h : Added id is (r.insertVnodeSorted (vnodeOf id i)) r') : Added id (i :: is) r r' where
  nodes := h.nodes
  virtualCount := h.virtualCount
  sorted hs := h.sorted (hs.insertByKey _)
  filter := by
    rw [h.filter]
    exact filter_insertByKey (by simp [vnodeOf]) _
  perm := by
    refine h.perm.trans ?_
    show (is.map (vnodeOf id) ++ insertByKey VNode.place (vnodeOf id i) r.vnodes).Perm
      (vnodeOf id i :: is.map (vnodeOf id) ++ r.vnodes)
    exact ((List.perm_orderedInsert _ _ _).append_left _).trans List.perm_middle
  owner k hcase := by
    apply h.owner k
    -- the new virtual node is the successor of its own place; elsewhere it only takes over
    rcases hcase with ⟨j, hj, rfl⟩ | hold
    · rcases List.mem_cons.mp hj with rfl | hj
      · right
        show (successor _ _ (insertByKey VNode.place (vnodeOf id j) r.vnodes)).map _ = _
        rw [successor_insertByKey]
        rfl
      · exact Or.inl ⟨j, hj, rfl⟩
    · right
      show (successor _ _ (insertByKey VNode.place (vnodeOf id i) r.vnodes)).map _ = _
      rcases successor_insertByKey_cases VNode.place k (vnodeOf id i) r.vnodes with hnew | hsame
      · rw [hnew]
        rfl
      · rw [hsame]
        exact hold

theorem addVnodes_spec {alloc : ℕ → Bool} {is : List ℕ} {b : Bool}
    (h : addVnodes id alloc is r = (b, r')) :
    ∃ done, Added id done r r' ∧ (b = true → done = is) := by
  induction is generalizing r with
  | nil =>
    cases h
    exact ⟨[], Added.nil id _, fun _ => rfl⟩
  | cons i is ih =>
    unfold addVnodes at h
    split at h
    · cases h
      exact ⟨[], Added.nil id _, nofun⟩
    · next r₁ hgrow =>
      obtain ⟨hn, hv, hc⟩ := growVnodes_some hgrow
      obtain ⟨done, hadd, hall⟩ := ih h
      have hstep : Added id done (r.insertVnodeSorted (vnodeOf id i)) r' :=
        hadd.of_eq hn (congrArg (insertByKey VNode.place (vnodeOf id i)) hv) hc
      exact ⟨i :: done, hstep.cons, fun hb => by rw [hall hb]⟩

/-- How `mb_ring_add` ends. -/
inductive AddEnd (id : UInt32) (r : Ring) : Rc × Ring → Prop where
  | member : id ∈ r.nodes → AddEnd id r (.err .EEXIST, r)
  | failed {r' : Ring} : id ∉ r.nodes → r'.nodes = r.nodes → r'.vnodes = r.vnodes →
      r'.virtualCount = r.virtualCount → AddEnd id r (growFailed, r')
  | added {r' : Ring} : id ∉ r.nodes → r'.nodes = r.nodes ++ [id] →
      Added id (List.range r.virtualCount) { r with nodes := r.nodes ++ [id] } r' →
      AddEnd id r (.ok, r')

theorem add_cases (hr : Wf r) (id : UInt32) (nodesAlloc : Bool) (vnodesAlloc : ℕ → Bool) :
    AddEnd id r (r.add id nodesAlloc vnodesAlloc) := by
  unfold Ring.add
  split
  · next hmem => exact .member hmem
  next hnot =>
  split
  · exact .failed hnot rfl rfl rfl
  next r₁ hgrow =>
  obtain ⟨hn, hv, hc⟩ := growNodes_some hgrow
  split
  · next r₂ hadd =>
    obtain ⟨done, hdone, hall⟩ := addVnodes_spec hadd
    obtain rfl := hall rfl
    refine .added hnot (hdone.nodes.trans (by rw [hn])) ?_
    have hdone' : Added id (List.range r₁.virtualCount)
        { r with nodes := r.nodes ++ [id] } r₂ :=
      hdone.of_eq (congrArg (· ++ [id]) hn) hv hc
    rwa [hc] at hdone'
  · next r₂ hadd =>
    obtain ⟨done, hdone, -⟩ := addVnodes_spec hadd
    refine .failed hnot ?_ ?_ (hdone.virtualCount.trans hc)
    · show r₂.nodes.dropLast = r.nodes
      rw [hdone.nodes, hn, List.dropLast_concat]
    · show (r₂.vnodes.filter fun v => v.nodeId ≠ id) = r.vnodes
      rw [hdone.filter]
      show (r₁.vnodes.filter fun v => v.nodeId ≠ id) = r.vnodes
      rw [hv, hr.filter_vnodes hnot]

theorem Wf.added (hr : Wf r) (hid : id ∉ r.nodes)
    (h : Added id (List.range r.virtualCount) { r with nodes := r.nodes ++ [id] } r') : Wf r' where
  pos := h.virtualCount ▸ hr.pos
  nodup := by
    rw [h.nodes, ← List.concat_eq_append]
    exact hr.nodup.concat hid
  sorted := h.sorted hr.sorted
  perm := by
    rw [h.nodes, h.virtualCount]
    refine h.perm.trans ?_
    show (vnodesOf r.virtualCount id ++ r.vnodes).Perm
      ((r.nodes ++ [id]).flatMap (vnodesOf r.virtualCount))
    rw [List.flatMap_append, List.flatMap_singleton]
    exact (hr.perm.append_left _).trans List.perm_append_comm

theorem grow_ne_none (r : Ring) : r.growNodes true ≠ none ∧ r.growVnodes true ≠ none := by
  unfold growNodes growVnodes
  constructor
  · split <;> simp
  · split <;> simp

theorem add_ok (hid : id ∉ r.nodes) :
    (r.add id true fun _ => true).1 = .ok := by
  have hloop : ∀ (is : List ℕ) (r : Ring), (addVnodes id (fun _ => true) is r).1 = true := by
    intro is
    induction is with
    | nil => exact fun _ => rfl
    | cons i is ih =>
      intro r
      unfold addVnodes
      split
      · next hnone => exact absurd hnone (grow_ne_none r).2
      · exact ih _
  unfold Ring.add
  rw [if_neg hid]
  split
  · next hnone => exact absurd hnone (grow_ne_none r).1
  · next r₁ _ =>
    split
    · rfl
    · next r₂ hadd =>
      have htrue := hloop (List.range r₁.virtualCount) { r₁ with nodes := r₁.nodes ++ [id] }
      rw [hadd] at htrue
      cases htrue

end Add

/-! ## `mb_ring_remove` and `mb_ring_lookup` -/

theorem filter_flatMap_vnodesOf {count : ℕ} {nodes : List UInt32} (hnodup : nodes.Nodup)
    (id : UInt32) :
    ((nodes.flatMap (vnodesOf count)).filter fun v => v.nodeId ≠ id) =
      (nodes.erase id).flatMap (vnodesOf count) := by
  induction nodes with
  | nil => rfl
  | cons x nodes ih =>
    obtain ⟨hx, hnodup⟩ := List.nodup_cons.mp hnodup
    rw [List.flatMap_cons, List.filter_append, ih hnodup]
    by_cases hxid : x = id
    · subst hxid
      rw [List.erase_cons_head, List.erase_of_not_mem hx, List.filter_eq_nil_iff.mpr,
        List.nil_append]
      intro v hv
      simp [nodeId_of_mem_vnodesOf hv]
    · rw [List.erase_cons_tail (by simpa using hxid), List.flatMap_cons, List.filter_eq_self.mpr]
      intro v hv
      simp [nodeId_of_mem_vnodesOf hv, hxid]

variable {r : Ring}

theorem Wf.remove (hr : Wf r) (id : UInt32) : Wf (r.remove id).2 where
  pos := hr.pos
  nodup := hr.nodup.erase id
  sorted := hr.sorted.filter _
  perm := by
    show (r.vnodes.filter fun v => v.nodeId ≠ id).Perm
      ((r.nodes.erase id).flatMap (vnodesOf r.virtualCount))
    rw [← filter_flatMap_vnodesOf hr.nodup]
    exact hr.perm.filter _

theorem Wf.lookup_eq (hr : Wf r) (key : List UInt8) :
    r.lookup key =
      ((successor VNode.place (ringHash key).toNat r.vnodes).map VNode.nodeId).getD 0 := by
  rw [← hr.sorted.getElem?_lowerBound]
  unfold Ring.lookup
  dsimp only
  split
  · next hnone => rw [hnone]; rfl
  · next v hv => rw [hv]; rfl

theorem Wf.add (hr : Wf r) (id : UInt32) (nodesAlloc : Bool) (vnodesAlloc : ℕ → Bool) :
    Wf (r.add id nodesAlloc vnodesAlloc).2 ∧
      (r.add id nodesAlloc vnodesAlloc).2.virtualCount = r.virtualCount ∧
      (r.add id nodesAlloc vnodesAlloc).2.nodes =
        if (r.add id nodesAlloc vnodesAlloc).1 = .ok then r.nodes ++ [id] else r.nodes := by
  have hend := add_cases hr id nodesAlloc vnodesAlloc
  generalize r.add id nodesAlloc vnodesAlloc = p at hend ⊢
  cases hend with
  | member => exact ⟨hr, rfl, rfl⟩
  | failed _ hn hv hc =>
    refine ⟨⟨hc ▸ hr.pos, hn ▸ hr.nodup, hv ▸ hr.sorted, ?_⟩, hc, hn⟩
    rw [hn, hv, hc]
    exact hr.perm
  | added hid hn hadd => exact ⟨hr.added hid hadd, hadd.virtualCount, hn⟩

theorem wf_of_reach {virtualCount : ℤ} {ok : Ring → RingOp → Prop}
    (h : Reach (ringCalls virtualCount) ok r) :
    Wf r ∧ r.virtualCount = (Ring.init virtualCount).virtualCount := by
  refine h.invariant (fun r => Wf r ∧ r.virtualCount = (Ring.init virtualCount).virtualCount)
    ⟨wf_init virtualCount, rfl⟩ ?_
  rintro r op r' ⟨hr, hcount⟩ - hstep
  obtain rfl : (op.run r).2 = r' := Option.some.inj hstep
  cases op with
  | remove id => exact ⟨hr.remove id, hcount⟩
  | add id nodesAlloc vnodesAlloc =>
    obtain ⟨hwf, hsame, -⟩ := hr.add id nodesAlloc vnodesAlloc
    exact ⟨hwf, hsame.trans hcount⟩

end MsgBroker.Analysis.RingSpec
