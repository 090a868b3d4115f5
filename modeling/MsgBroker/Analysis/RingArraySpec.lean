import MsgBroker.Analysis.RingSpec
import MsgBroker.Model.RingArray

/-!
# The arrays of a ring and the ring they stand for

`abs` forgets the unused cells and the addresses.
-/

set_option autoImplicit false

namespace MsgBroker.Analysis.RingArray

open Lib Model Analysis.RingSpec

/-- The ring the arrays stand for. -/
def abs (m : RingMem) : Ring := ⟨m.ids, m.nodes.length, m.live, m.vnodes.length, m.virtualCount⟩

/-- Both arrays hold what is counted. -/
structure Fits (m : RingMem) : Prop where
  nodes : m.nodeCount ≤ m.nodes.length
  vnodes : m.vnodeCount ≤ m.vnodes.length

section Lengths

variable {m : RingMem}

theorem Fits.length_members (h : Fits m) : m.members.length = m.nodeCount := by
  simp [RingMem.members, h.nodes]

theorem Fits.length_live (h : Fits m) : m.live.length = m.vnodeCount := by
  simp [RingMem.live, h.vnodes]

theorem Fits.length_ids (h : Fits m) : m.ids.length = m.nodeCount := by
  rw [RingMem.ids, List.length_map, h.length_members]

end Lengths

/-! ## Growth -/

section Growth

variable {α : Type}

theorem length_growCells (cells : List α) (first : ℕ) (fresh : ℕ → α) :
    (growCells cells first fresh).length = Ring.grown cells.length first := by
  rw [growCells, List.length_append, List.length_map, List.length_range, Ring.grown]
  split <;> omega

theorem length_lt_growCells (cells : List α) {first : ℕ} (hfirst : 0 < first) (fresh : ℕ → α) :
    cells.length < (growCells cells first fresh).length := by
  rw [length_growCells, Ring.grown]
  split <;> omega

theorem take_growCells {cells : List α} {n : ℕ} (hn : n ≤ cells.length) (first : ℕ)
    (fresh : ℕ → α) : (growCells cells first fresh).take n = cells.take n :=
  List.take_append_of_le_length hn

theorem abs_nodes {m : RingMem} {cells : List RingNode}
    (h : cells.take m.nodeCount = m.members) :
    abs { m with nodes := cells } = { abs m with nodeCap := cells.length } := by
  simp only [abs, RingMem.ids, RingMem.live, RingMem.members] at h ⊢
  rw [h]

theorem abs_vnodes {m : RingMem} {cells : List VNode} (h : cells.take m.vnodeCount = m.live) :
    abs { m with vnodes := cells } = { abs m with vnodeCap := cells.length } := by
  simp only [abs, RingMem.ids, RingMem.live, RingMem.members] at h ⊢
  rw [h]

theorem growNodes_refines {m : RingMem} (h : Fits m) (alloc : Grow RingNode) :
    (m.growNodes alloc).map abs = (abs m).growNodes alloc.isSome ∧
      ∀ m', m.growNodes alloc = some m' →
        Fits m' ∧ m'.nodeCount < m'.nodes.length ∧ m'.members = m.members := by
  unfold RingMem.growNodes Ring.growNodes
  have hids : (abs m).nodes.length = m.nodeCount := h.length_ids
  have hcap : (abs m).nodeCap = m.nodes.length := rfl
  rw [hids, hcap]
  by_cases hroom : m.nodeCount < m.nodes.length
  · rw [if_pos hroom, if_pos hroom]
    refine ⟨rfl, ?_⟩
    rintro m' ⟨⟩
    exact ⟨h, hroom, rfl⟩
  · rw [if_neg hroom, if_neg hroom]
    cases alloc with
    | none => exact ⟨rfl, nofun⟩
    | some fresh =>
      have hmembers := take_growCells h.nodes 4 fresh
      have hlt := Nat.lt_of_le_of_lt h.nodes (length_lt_growCells m.nodes (by decide : 0 < 4) fresh)
      refine ⟨congrArg some ?_, ?_⟩
      · rw [abs_nodes hmembers, length_growCells]
      · rintro m' ⟨⟩
        exact ⟨⟨Nat.le_of_lt hlt, h.vnodes⟩, hlt, hmembers⟩

theorem growVnodes_refines {m : RingMem} (h : Fits m) (alloc : Grow VNode) :
    (m.growVnodes alloc).map abs = (abs m).growVnodes alloc.isSome ∧
      ∀ m', m.growVnodes alloc = some m' →
        Fits m' ∧ m'.vnodeCount < m'.vnodes.length ∧ m'.nodes = m.nodes ∧
          m'.nodeCount = m.nodeCount := by
  unfold RingMem.growVnodes Ring.growVnodes
  have hlive : (abs m).vnodes.length = m.vnodeCount := h.length_live
  have hcap : (abs m).vnodeCap = m.vnodes.length := rfl
  rw [hlive, hcap]
  by_cases hroom : m.vnodeCount < m.vnodes.length
  · rw [if_pos hroom, if_pos hroom]
    refine ⟨rfl, ?_⟩
    rintro m' ⟨⟩
    exact ⟨h, hroom, rfl, rfl⟩
  · rw [if_neg hroom, if_neg hroom]
    cases alloc with
    | none => exact ⟨rfl, nofun⟩
    | some fresh =>
      have hsame := take_growCells h.vnodes 16 fresh
      have hlt := Nat.lt_of_le_of_lt h.vnodes
        (length_lt_growCells m.vnodes (by decide : 0 < 16) fresh)
      refine ⟨congrArg some ?_, ?_⟩
      · rw [abs_vnodes hsame, length_growCells]
      · rintro m' ⟨⟩
        exact ⟨⟨h.nodes, Nat.le_of_lt hlt⟩, hlt, rfl, rfl⟩

end Growth

/-! ## `mb_ring_add` -/

section Add

variable {m : RingMem}

theorem insertVnodeSorted_refines (h : Fits m) (hroom : m.vnodeCount < m.vnodes.length)
    (vn : VNode) :
    ∃ m', m.insertVnodeSorted vn = some m' ∧ Fits m' ∧
      abs m' = (abs m).insertVnodeSorted vn ∧ m'.nodes = m.nodes ∧
      m'.nodeCount = m.nodeCount := by
  have hpred : (fun v : VNode => decide (v.hash < vn.hash)) =
      fun v => decide (¬ vn.place ≤ v.place) := by
    funext v
    rw [decide_eq_decide, UInt32.lt_iff_toNat_lt, VNode.place, VNode.place]
    omega
  have hscan : scanFrom (fun v => decide (¬ vn.place ≤ v.place)) m.vnodes m.vnodeCount 0 =
      some (m.live.takeWhile fun v => decide (¬ vn.place ≤ v.place)).length :=
    scanFrom_zero _ m.vnodes h.vnodes
  have hle : (m.live.takeWhile fun v => decide (¬ vn.place ≤ v.place)).length ≤ m.vnodeCount :=
    (List.takeWhile_prefix _).length_le.trans (Nat.le_of_eq h.length_live)
  obtain ⟨cells, hins, hlen, hfront⟩ := insertCell_spec hle hroom vn
  obtain ⟨htake, hdrop⟩ := split_takeWhile (fun v => decide (¬ vn.place ≤ v.place)) m.live
  have hlive : cells.take (m.vnodeCount + 1) = insertByKey VNode.place vn m.live :=
    calc cells.take (m.vnodeCount + 1)
        = m.live.take (m.live.takeWhile fun v => decide (¬ vn.place ≤ v.place)).length ++
            vn :: m.live.drop (m.live.takeWhile fun v => decide (¬ vn.place ≤ v.place)).length :=
          hfront
      _ = (m.live.takeWhile fun v => decide (¬ vn.place ≤ v.place)) ++
            vn :: m.live.dropWhile fun v => decide (¬ vn.place ≤ v.place) := by
          rw [htake, hdrop]
      _ = insertByKey VNode.place vn m.live := by
          rw [insertByKey, List.orderedInsert_eq_take_drop]
  refine ⟨{ m with vnodes := cells, vnodeCount := m.vnodeCount + 1 }, ?_, ⟨h.nodes, ?_⟩, ?_, rfl,
    rfl⟩
  · simp only [RingMem.insertVnodeSorted, hpred, hscan, hins, bind, Option.bind_some]
  · show m.vnodeCount + 1 ≤ cells.length
    omega
  · show (⟨m.ids, m.nodes.length, cells.take (m.vnodeCount + 1), cells.length,
      m.virtualCount⟩ : Ring) = _
    rw [hlive, hlen]
    rfl

theorem addVnodes_refines (id : UInt32) (alloc : ℕ → Grow VNode) (is : List ℕ) (h : Fits m) :
    ∃ b m', m.addVnodes id alloc is = some (b, m') ∧ Fits m' ∧
      (abs m).addVnodes id (fun i => (alloc i).isSome) is = (b, abs m') ∧ m'.nodes = m.nodes ∧
      m'.nodeCount = m.nodeCount := by
  induction is generalizing m with
  | nil => exact ⟨true, m, rfl, h, rfl, rfl, rfl⟩
  | cons i is ih =>
    obtain ⟨habs, hroom⟩ := growVnodes_refines h (alloc i)
    unfold RingMem.addVnodes Ring.addVnodes
    rw [← habs]
    cases hgrow : m.growVnodes (alloc i) with
    | none => exact ⟨false, m, rfl, h, rfl, rfl, rfl⟩
    | some m₁ =>
      obtain ⟨hfits₁, hlt, hnodes₁, hcount₁⟩ := hroom m₁ hgrow
      obtain ⟨m₂, hins, hfits₂, habs₂, hnodes₂, hcount₂⟩ :=
        insertVnodeSorted_refines hfits₁ hlt (vnodeOf id i)
      obtain ⟨b, m', hrun, hfits, hring, hnodes, hcount⟩ := ih hfits₂
      refine ⟨b, m', ?_, hfits, ?_, ?_, ?_⟩
      · show (m₁.insertVnodeSorted (vnodeOf id i)).bind _ = _
        rw [hins]
        exact hrun
      · show ((abs m₁).insertVnodeSorted (vnodeOf id i)).addVnodes id _ is = _
        rw [← habs₂]
        exact hring
      · rw [hnodes, hnodes₂, hnodes₁]
      · rw [hcount, hcount₂, hcount₁]

theorem dropVnodes_refines (h : Fits m) (id : UInt32) :
    ∃ m', m.dropVnodes id = some m' ∧ Fits m' ∧ abs m' = (abs m).dropVnodes id ∧
      m'.nodes = m.nodes ∧ m'.nodeCount = m.nodeCount := by
  obtain ⟨cells, hrun, hlen, hfront⟩ :=
    compactFrom_zero (fun v : VNode => decide (v.nodeId ≠ id)) h.vnodes
  refine ⟨{ m with vnodes := cells, vnodeCount := ((m.vnodes.take m.vnodeCount).filter
    fun v => decide (v.nodeId ≠ id)).length }, ?_, ⟨h.nodes, ?_⟩, ?_, rfl, rfl⟩
  · simp only [RingMem.dropVnodes, hrun, bind, Option.bind_some]
  · have hle := List.length_filter_le (fun v : VNode => decide (v.nodeId ≠ id))
      (m.vnodes.take m.vnodeCount)
    rw [List.length_take, ← hlen] at hle
    exact hle.trans (Nat.min_le_right _ _)
  · show (⟨m.ids, m.nodes.length, cells.take _, cells.length, m.virtualCount⟩ : Ring) = _
    rw [hfront, hlen]
    rfl

theorem findNode_eq (h : Fits m) (id : UInt32) :
    m.findNode id = some (m.ids.takeWhile fun x => decide (x ≠ id)).length := by
  rw [RingMem.findNode, scanFrom_zero _ _ h.nodes, RingMem.ids, List.takeWhile_map,
    List.length_map]
  rfl

theorem findNode_lt (h : Fits m) (id : UInt32) :
    (m.ids.takeWhile fun x => decide (x ≠ id)).length < m.nodeCount ↔ id ∈ m.ids := by
  rw [← h.length_ids, length_takeWhile_lt]
  simp

theorem pushNode_refines (h : Fits m) (hroom : m.nodeCount < m.nodes.length) (node : RingNode) :
    ∃ cells, store m.nodes m.nodeCount node = some cells ∧
      Fits { m with nodes := cells, nodeCount := m.nodeCount + 1 } ∧
      cells.take (m.nodeCount + 1) = m.members ++ [node] ∧
      abs { m with nodes := cells, nodeCount := m.nodeCount + 1 } =
        { abs m with nodes := (abs m).nodes ++ [node.nodeId] } := by
  have hmembers := take_store hroom node
  refine ⟨_, if_pos hroom, ⟨?_, h.vnodes⟩, hmembers, ?_⟩
  · show m.nodeCount + 1 ≤ (m.nodes.set m.nodeCount node).length
    rw [List.length_set]
    exact hroom
  · simp only [abs, RingMem.ids, RingMem.live, RingMem.members, hmembers, List.length_set,
      List.map_append, List.map_singleton]

theorem popNode_refines (h : Fits m) :
    Fits { m with nodeCount := m.nodeCount - 1 } ∧
      m.nodes.take (m.nodeCount - 1) = m.members.dropLast ∧
      abs { m with nodeCount := m.nodeCount - 1 } =
        { abs m with nodes := (abs m).nodes.dropLast } := by
  have hmembers : m.nodes.take (m.nodeCount - 1) = m.members.dropLast := by
    rw [List.dropLast_eq_take, h.length_members, RingMem.members, List.take_take,
      Nat.min_eq_left (Nat.sub_le _ _)]
  refine ⟨⟨(Nat.sub_le _ _).trans h.nodes, h.vnodes⟩, hmembers, ?_⟩
  show (⟨(m.nodes.take (m.nodeCount - 1)).map RingNode.nodeId, _, _, _, _⟩ : Ring) =
    ⟨(m.members.map RingNode.nodeId).dropLast, _, _, _, _⟩
  rw [hmembers, List.map_dropLast]
  rfl

theorem add_refines (h : Fits m) (id : UInt32) (addr : List UInt8) (nodesAlloc : Grow RingNode)
    (vnodesAlloc : ℕ → Grow VNode) :
    ∃ rc m', m.add id addr nodesAlloc vnodesAlloc = some (rc, m') ∧ Fits m' ∧
      (abs m).add id nodesAlloc.isSome (fun i => (vnodesAlloc i).isSome) = (rc, abs m') ∧
      m'.members = if rc = .ok then m.members ++ [⟨id, ringAddr addr⟩] else m.members := by
  unfold RingMem.add Ring.add
  rw [findNode_eq h]
  simp only [bind, Option.bind_some]
  by_cases hmem : id ∈ m.ids
  · rw [if_pos ((findNode_lt h id).mpr hmem), if_pos (show id ∈ (abs m).nodes from hmem)]
    exact ⟨_, _, rfl, h, rfl, rfl⟩
  rw [if_neg (fun hlt => hmem ((findNode_lt h id).mp hlt)),
    if_neg (show id ∉ (abs m).nodes from hmem)]
  obtain ⟨habs, hroom⟩ := growNodes_refines h nodesAlloc
  rw [← habs]
  cases hgrow : m.growNodes nodesAlloc with
  | none => exact ⟨_, _, rfl, h, rfl, rfl⟩
  | some m₁ =>
    obtain ⟨hfits₁, hlt, hmembers₁⟩ := hroom m₁ hgrow
    obtain ⟨cells, hstore, hfits₂, hmembers₂, habs₂⟩ :=
      pushNode_refines hfits₁ hlt ⟨id, ringAddr addr⟩
    obtain ⟨b, m₃, hloop, hfits₃, hring, hnodes, hcount⟩ :=
      addVnodes_refines id vnodesAlloc (List.range m₁.virtualCount) hfits₂
    have hmembers₃ : m₃.members = m.members ++ [⟨id, ringAddr addr⟩] := by
      rw [RingMem.members, hnodes, hcount, ← hmembers₁]
      exact hmembers₂
    rw [habs₂] at hring
    have hring' : ({ abs m₁ with nodes := (abs m₁).nodes ++ [id] } : Ring).addVnodes id
        (fun i => (vnodesAlloc i).isSome) (List.range (abs m₁).virtualCount) = (b, abs m₃) := hring
    simp only [Option.map_some, hstore, Option.bind_some, hloop, hring']
    cases b with
    | true => exact ⟨_, _, rfl, hfits₃, rfl, hmembers₃⟩
    | false =>
      obtain ⟨m₄, hdrop, hfits₄, habs₄, hnodes₄, hcount₄⟩ := dropVnodes_refines hfits₃ id
      obtain ⟨hfits₅, hmembers₅, habs₅⟩ := popNode_refines hfits₄
      simp only [hdrop, Option.bind_some]
      refine ⟨_, _, rfl, hfits₅, ?_, ?_⟩
      · rw [habs₅, habs₄]
        rfl
      · show m₄.nodes.take (m₄.nodeCount - 1) = m.members
        rw [hmembers₅, RingMem.members, hnodes₄, hcount₄]
        show m₃.members.dropLast = m.members
        rw [hmembers₃, List.dropLast_concat]

end Add

/-! ## `mb_ring_remove` -/

section Remove

variable {m : RingMem}

theorem removeNode_refines (h : Fits m) (id : UInt32) :
    ∃ m', m.removeNode id = some m' ∧ Fits m' ∧
      abs m' = { abs m with nodes := (abs m).nodes.erase id } := by
  unfold RingMem.removeNode
  rw [findNode_eq h]
  simp only [bind, Option.bind_some]
  by_cases hmem : id ∈ m.ids
  · have hlt := (findNode_lt h id).mpr hmem
    obtain ⟨cells, hrun, hlen, hfront⟩ := removeCell_spec hlt h.nodes
    rw [if_pos hlt, hrun]
    refine ⟨_, rfl, ⟨?_, h.vnodes⟩, ?_⟩
    · show m.nodeCount - 1 ≤ cells.length
      rw [hlen]
      exact (Nat.sub_le _ _).trans h.nodes
    · have hids : (cells.take (m.nodeCount - 1)).map RingNode.nodeId = m.ids.erase id := by
        rw [hfront, ← List.eraseIdx_map]
        exact eraseIdx_takeWhile id m.ids
      show (⟨(cells.take (m.nodeCount - 1)).map RingNode.nodeId, cells.length, _, _, _⟩ : Ring) = _
      rw [hids, hlen]
      rfl
  · rw [if_neg (fun hlt => hmem ((findNode_lt h id).mp hlt))]
    refine ⟨_, rfl, h, ?_⟩
    rw [List.erase_of_not_mem (show id ∉ (abs m).nodes from hmem)]

theorem remove_refines (h : Fits m) (id : UInt32) :
    ∃ rc m', m.remove id = some (rc, m') ∧ Fits m' ∧ (abs m).remove id = (rc, abs m') := by
  obtain ⟨m₁, hnode, hfits₁, habs₁⟩ := removeNode_refines h id
  obtain ⟨m₂, hdrop, hfits₂, habs₂, -, -⟩ := dropVnodes_refines hfits₁ id
  refine ⟨.ok, m₂, ?_, hfits₂, ?_⟩
  · simp only [RingMem.remove, hnode, hdrop, bind, Option.bind_some]
  · rw [habs₂, habs₁]
    rfl

end Remove

/-! ## `mb_ring_lookup` -/

section Lookup

variable {m : RingMem}

/-- Where both lookups start: the index the binary search finds, round to the first. -/
def start (key : List UInt8) (l : List VNode) : ℕ :=
  let lo := lowerBound (keyBelow VNode.place (ringHash key).toNat l) l.length 0 l.length
  if lo = l.length then 0 else lo

theorem start_lt (key : List UInt8) {l : List VNode} (hl : l ≠ []) : start key l < l.length := by
  have hle := lowerBound_le (keyBelow VNode.place (ringHash key).toNat l) l.length
    (Nat.zero_le l.length)
  have hpos := List.length_pos_of_ne_nil hl
  unfold start
  dsimp only
  split <;> omega

theorem locate_eq (h : Fits m) (key : List UInt8) : m.locate key = some (start key m.live) := by
  have hbelow : (fun i => ((m.vnodes.take m.vnodeCount)[i]?).any
      fun v => decide (v.hash < ringHash key)) =
      keyBelow VNode.place (ringHash key).toNat m.live := by
    funext i
    show (m.live[i]?).any _ = _
    unfold keyBelow
    cases m.live[i]? with
    | none => rfl
    | some v =>
      rw [Option.any_some, decide_eq_decide]
      exact UInt32.lt_iff_toNat_lt
  have hsearch := searchCells_eq (fun v : VNode => decide (v.hash < ringHash key)) m.vnodes
    m.vnodeCount 0 (Nat.le_refl m.vnodeCount) h.vnodes
  rw [hbelow] at hsearch
  unfold start
  rw [h.length_live, RingMem.locate, hsearch]
  rfl

theorem live_ne_nil (h : Fits m) (h0 : m.vnodeCount ≠ 0) : m.live ≠ [] := by
  intro hnil
  have hlen := h.length_live
  rw [hnil] at hlen
  exact h0 hlen.symm

theorem live_eq_nil (h0 : m.vnodeCount = 0) : m.live = [] := by
  rw [RingMem.live, h0, List.take_zero]

theorem lookup_eq (key : List UInt8) (r : Ring) :
    r.lookup key = ((r.vnodes[start key r.vnodes]?).map VNode.nodeId).getD 0 := by
  unfold Ring.lookup start
  dsimp only
  split
  all_goals
    rename_i heq
    rw [heq]
    rfl

theorem lookup_refines (h : Fits m) (key : List UInt8) :
    m.lookup key = some ((abs m).lookup key) := by
  rw [lookup_eq key (abs m)]
  show _ = some (((m.live[start key m.live]?).map VNode.nodeId).getD 0)
  unfold RingMem.lookup
  by_cases h0 : m.vnodeCount = 0
  · rw [if_pos h0, live_eq_nil h0]
    rfl
  · have hlt := start_lt key (live_ne_nil h h0)
    rw [h.length_live] at hlt
    have hget : m.live[start key m.live]? = m.vnodes[start key m.live]? :=
      List.getElem?_take_of_lt hlt
    rw [if_neg h0, locate_eq h key, hget]
    show (m.vnodes[start key m.live]?).bind (fun v => some v.nodeId) = _
    rw [List.getElem?_eq_getElem (Nat.lt_of_lt_of_le hlt h.vnodes)]
    rfl

end Lookup

/-! ## Runs -/

theorem fits_init (virtualCount : ℤ) : Fits (RingMem.init virtualCount) :=
  ⟨Nat.le_refl 0, Nat.le_refl 0⟩

theorem reach_abs {virtualCount : ℤ} {m : RingMem}
    (hr : Reach (ringArrays virtualCount) (fun _ _ => True) m) :
    Fits m ∧ Reach (ringCalls virtualCount) (fun _ _ => True) (abs m) := by
  refine hr.invariant
    (fun m => Fits m ∧ Reach (ringCalls virtualCount) (fun _ _ => True) (abs m))
    ⟨fits_init virtualCount, Reach.init⟩ ?_
  rintro m call m' ⟨hfits, hreach⟩ - hstep
  obtain ⟨⟨rc, m''⟩, hrun, rfl⟩ := Option.map_eq_some_iff.mp hstep
  cases call with
  | add id addr nodesAlloc vnodesAlloc =>
    obtain ⟨rc', m₁, hadd, hfits₁, hring, -⟩ := add_refines hfits id addr nodesAlloc vnodesAlloc
    obtain ⟨rfl, rfl⟩ : rc' = rc ∧ m₁ = m'' := by
      have := hadd.symm.trans hrun
      simpa using this
    refine ⟨hfits₁, hreach.step (l := .add id nodesAlloc.isSome fun i => (vnodesAlloc i).isSome)
      trivial ?_⟩
    show some ((abs m).add _ _ _).2 = _
    rw [hring]
  | remove id =>
    obtain ⟨rc', m₁, hrem, hfits₁, hring⟩ := remove_refines hfits id
    obtain ⟨rfl, rfl⟩ : rc' = rc ∧ m₁ = m'' := by
      have := hrem.symm.trans hrun
      simpa using this
    refine ⟨hfits₁, hreach.step (l := .remove id) trivial ?_⟩
    show some ((abs m).remove id).2 = _
    rw [hring]

end MsgBroker.Analysis.RingArray
