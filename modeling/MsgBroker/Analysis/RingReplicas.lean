import MsgBroker.Analysis.RingArraySpec

/-!
# The representation of a ring, and the replicas of a key

What the arrays of a ring hold after any calls, what the two lookups read there, and that an
`mb_ring_add` that fails is not seen by either.
-/

set_option autoImplicit false

namespace MsgBroker.Analysis.RingArray

open Lib Model Analysis.RingSpec

variable {m : RingMem}

/-! ## The order from a key on -/

/-- The virtual nodes at or after the hash of the key, then those before it. -/
def clockwise (key : List UInt8) (l : List VNode) : List VNode :=
  (l.dropWhile fun v => decide (v.hash < ringHash key)) ++
    l.takeWhile fun v => decide (v.hash < ringHash key)

theorem clockwise_perm (key : List UInt8) (l : List VNode) : (clockwise key l).Perm l := by
  have hsplit := List.takeWhile_append_dropWhile
    (p := fun v : VNode => decide (v.hash < ringHash key)) (l := l)
  exact List.perm_append_comm.trans (List.Perm.of_eq hsplit)

theorem rotate_start (key : List UInt8) {l : List VNode} (hl : SortedByKey VNode.place l) :
    l.rotate (start key l) = clockwise key l := by
  have hpred : (fun v : VNode => decide (v.place < (ringHash key).toNat)) =
      fun v => decide (v.hash < ringHash key) := by
    funext v
    rw [decide_eq_decide]
    exact UInt32.lt_iff_toNat_lt.symm
  have hlo := hl.lowerBound_eq (h := (ringHash key).toNat)
  rw [hpred] at hlo
  obtain ⟨htake, hdrop⟩ := split_takeWhile (fun v : VNode => decide (v.hash < ringHash key)) l
  have hrotate : l.rotate (l.takeWhile fun v => decide (v.hash < ringHash key)).length =
      clockwise key l := by
    rw [List.rotate_eq_drop_append_take (List.takeWhile_prefix _).length_le, hdrop, htake]
    rfl
  unfold start
  rw [hlo]
  dsimp only
  split
  · next hend =>
    rw [hend, List.rotate_length] at hrotate
    rw [List.rotate_zero]
    exact hrotate
  · exact hrotate

theorem lookupN_eq (h : Fits m) (key : List UInt8) (maxCount : ℤ) :
    m.lookupN key maxCount =
      some (((m.live.rotate (start key m.live)).map VNode.nodeId).eraseDups.take
        maxCount.toNat) := by
  unfold RingMem.lookupN
  by_cases hmax : maxCount ≤ 0
  · rw [if_pos (Or.inl hmax), Int.toNat_of_nonpos hmax, List.take_zero]
  by_cases h0 : m.vnodeCount = 0
  · rw [if_pos (Or.inr h0), live_eq_nil h0]
    simp
  have hlt := start_lt key (live_ne_nil h h0)
  rw [h.length_live] at hlt
  rw [if_neg (by simp [hmax, h0]), locate_eq h key]
  show walkFrom VNode.nodeId m.vnodes m.vnodeCount maxCount.toNat m.vnodeCount
    (start key m.live) [] = _
  rw [walkFrom_eq VNode.nodeId h.vnodes (Nat.le_refl _) hlt, collect_eq (by simp; omega)]
  have hall : ((m.vnodes.take m.vnodeCount).rotate (start key m.live)).take m.vnodeCount =
      m.live.rotate (start key m.live) := by
    apply List.take_of_length_le
    rw [List.length_rotate]
    exact Nat.le_of_eq h.length_live
  rw [hall]
  simp

/-! ## The representation -/

section Representation

variable {virtualCount : ℤ}

theorem filter_flatMap_owner {count : ℕ} {nodes : List UInt32} (hnodup : nodes.Nodup)
    {id : UInt32} (hid : id ∈ nodes) :
    ((nodes.flatMap (vnodesOf count)).filter fun v => v.nodeId = id) = vnodesOf count id := by
  have hself : ∀ x, ((vnodesOf count x).filter fun v => v.nodeId = id) =
      if x = id then vnodesOf count id else [] := by
    intro x
    split
    · next hx =>
      subst hx
      exact List.filter_eq_self.mpr fun v hv => by simp [nodeId_of_mem_vnodesOf hv]
    · next hx =>
      exact List.filter_eq_nil_iff.mpr fun v hv => by simp [nodeId_of_mem_vnodesOf hv, hx]
  induction nodes with
  | nil => cases hid
  | cons x nodes ih =>
    obtain ⟨hx, hnodup⟩ := List.nodup_cons.mp hnodup
    rw [List.flatMap_cons, List.filter_append, hself]
    rcases List.mem_cons.mp hid with rfl | hmem
    · have hrest : ((nodes.flatMap (vnodesOf count)).filter fun v => v.nodeId = id) = [] := by
        apply List.filter_eq_nil_iff.mpr
        intro v hv
        obtain ⟨y, hy, hvy⟩ := List.mem_flatMap.mp hv
        rw [nodeId_of_mem_vnodesOf hvy]
        simpa using fun he : y = id => hx (he ▸ hy)
      rw [if_pos rfl, hrest, List.append_nil]
    · have hne : x ≠ id := fun he => hx (he.symm ▸ hmem)
      rw [if_neg hne, List.nil_append, ih hnodup hmem]

theorem wf_abs (hr : Reach (ringArrays virtualCount) (fun _ _ => True) m) :
    Fits m ∧ Wf (abs m) ∧ m.virtualCount = (RingMem.init virtualCount).virtualCount := by
  obtain ⟨hfits, hreach⟩ := reach_abs hr
  obtain ⟨hwf, hcount⟩ := wf_of_reach hreach
  exact ⟨hfits, hwf, hcount⟩

theorem sorted_live (hwf : Wf (abs m)) : SortedByKey VNode.place m.live := hwf.sorted

theorem call_defined (h : Fits m) (call : RingCall) : (call.run m).isSome = true := by
  cases call with
  | add id addr nodesAlloc vnodesAlloc =>
    obtain ⟨rc, m', hadd, -⟩ := add_refines h id addr nodesAlloc vnodesAlloc
    exact Option.isSome_iff_exists.mpr ⟨_, hadd⟩
  | remove id =>
    obtain ⟨rc, m', hrem, -⟩ := remove_refines h id
    exact Option.isSome_iff_exists.mpr ⟨_, hrem⟩

theorem lookup_first (h : Fits m) (hwf : Wf (abs m)) (key : List UInt8) :
    m.lookup key = some (((m.live.find? fun v => decide (ringHash key ≤ v.hash)).or
      m.live.head?).elim 0 VNode.nodeId) := by
  have hpred : (fun v : VNode => decide ((ringHash key).toNat ≤ v.place)) =
      fun v => decide (ringHash key ≤ v.hash) := by
    funext v
    rw [decide_eq_decide]
    exact UInt32.le_iff_toNat_le.symm
  rw [lookup_refines h, hwf.lookup_eq, successor, hpred]
  show some (Option.getD (Option.map _ ((m.live.find? _).or m.live.head?)) 0) = _
  cases (m.live.find? fun v => decide (ringHash key ≤ v.hash)).or m.live.head? with
  | none => rfl
  | some v => rfl

/-- **What the arrays of a ring hold.**  After any adds and removes on a new ring, whatever the
growth of its arrays finds: every further call is defined; `vnodes` is sorted by hash; the ids
of the members are distinct; every member has exactly the virtual nodes `id:i` for `i` below
`virtual_count`; no virtual node belongs to anyone else; and a lookup returns the node of the
first virtual node at or after the hash of the key, of `vnodes[0]` if there is none, and `0` on
an empty ring.
SRC: ring.c:58-197 -/
theorem ring_represents_members (hr : Reach (ringArrays virtualCount) (fun _ _ => True) m) :
    (∀ call : RingCall, (call.run m).isSome = true) ∧
    m.live.Pairwise (fun v w => v.hash ≤ w.hash) ∧
    m.ids.Nodup ∧
    m.virtualCount = (RingMem.init virtualCount).virtualCount ∧
    (∀ id ∈ m.ids, ((m.live.filter fun v => v.nodeId = id).map VNode.hash).Perm
      ((List.range m.virtualCount).map fun i => ringHash (vnodeName id i))) ∧
    (∀ v ∈ m.live, v.nodeId ∈ m.ids) ∧
    ∀ key, m.lookup key = some (((m.live.find? fun v => decide (ringHash key ≤ v.hash)).or
      m.live.head?).elim 0 VNode.nodeId) := by
  obtain ⟨hfits, hwf, hcount⟩ := wf_abs hr
  have hnodup : m.ids.Nodup := hwf.nodup
  refine ⟨call_defined hfits, ?_, hnodup, hcount, ?_, ?_, lookup_first hfits hwf⟩
  · exact (sorted_live hwf).imp fun hle => UInt32.le_iff_toNat_le.mpr hle
  · intro id hid
    have hperm : m.live.Perm (m.ids.flatMap (vnodesOf m.virtualCount)) := hwf.perm
    have howned := hperm.filter fun v => v.nodeId = id
    rw [filter_flatMap_owner hnodup hid] at howned
    have hhash := howned.map VNode.hash
    rwa [vnodesOf, List.map_map] at hhash
  · exact fun v hv => hwf.nodeId_mem hv

/-- An add that finds all the memory it asks for. -/
def addCall (id : UInt32) : RingCall :=
  .add id [] (some fun _ => ⟨0, []⟩) fun _ => some fun _ => ⟨0, 0⟩

/-- Two members and one that has left again, with two virtual nodes each. -/
theorem ring_represents_members_two :
    ∃ m, (ringArrays 2).run (ringArrays 2).init
        [addCall 7, addCall 8, addCall 9, .remove 8] = some m ∧
      m.ids = [7, 9] ∧ m.live.length = 4 ∧ m.live.Pairwise (fun v w => v.hash ≤ w.hash) := by
  have hrun : (ringArrays 2).run (ringArrays 2).init
      [addCall 7, addCall 8, addCall 9, .remove 8] = some _ := rfl
  have hreach := Reach.of_run_init hrun
  exact ⟨_, hrun, by decide, by decide, (ring_represents_members hreach).2.1⟩

end Representation

/-! ## Replicas -/

section Replicas

variable {virtualCount : ℤ}

theorem replicas_perm (hwf : Wf (abs m)) (key : List UInt8) :
    ((clockwise key m.live).map VNode.nodeId).eraseDups.Perm m.ids := by
  have hnodup : m.ids.Nodup := hwf.nodup
  rw [List.perm_ext_iff_of_nodup (nodup_eraseDups _) hnodup]
  intro x
  rw [List.mem_eraseDups, List.mem_map]
  constructor
  · rintro ⟨v, hv, rfl⟩
    exact hwf.nodeId_mem ((clockwise_perm key m.live).mem_iff.mp hv)
  · intro hx
    have hv : vnodeOf x 0 ∈ (abs m).vnodes := hwf.mem_vnodes_iff.mpr ⟨x, hx, 0, hwf.pos, rfl⟩
    exact ⟨vnodeOf x 0, (clockwise_perm key m.live).mem_iff.mpr hv, rfl⟩

theorem head_replicas (h : Fits m) (hwf : Wf (abs m)) (hne : m.ids ≠ []) (key : List UInt8) :
    ((clockwise key m.live).map VNode.nodeId).eraseDups.head? = m.lookup key := by
  have hlive : m.live ≠ [] := hwf.vnodes_ne_nil hne
  have hlt := start_lt key hlive
  have hring : (abs m).lookup key =
      ((m.live[start key m.live]?).map VNode.nodeId).getD 0 := lookup_eq key (abs m)
  have hhead : (clockwise key m.live).head? = m.live[start key m.live]? := by
    rw [← rotate_start key (sorted_live hwf)]
    exact List.head?_rotate hlt
  rw [lookup_refines h, hring]
  rw [List.getElem?_eq_getElem hlt] at hhead ⊢
  cases hcw : clockwise key m.live with
  | nil =>
    rw [hcw] at hhead
    cases hhead
  | cons v l =>
    rw [hcw, List.head?_cons] at hhead
    rw [List.map_cons, List.eraseDups_cons, List.head?_cons, Option.some.inj hhead]
    rfl

/-- **The replicas of a key.**  On every ring that adds and removes lead to, for every key and
every `max_count > 0`: `mb_ring_lookup_n` returns as many ids as there are members, at most
`max_count`; they are distinct members, in the order in which one meets them clockwise from the
key; the first is what `mb_ring_lookup` returns; and a smaller `max_count` gives the first of
these ids.
SRC: ring.c:174-248 -/
theorem lookup_n_selects_replicas (hr : Reach (ringArrays virtualCount) (fun _ _ => True) m)
    (key : List UInt8) (maxCount : ℤ) (hmax : 0 < maxCount) :
    ∃ out, m.lookupN key maxCount = some out ∧
      (out.length : ℤ) = min maxCount m.ids.length ∧ out.Nodup ∧ (∀ x ∈ out, x ∈ m.ids) ∧
      out = ((clockwise key m.live).map VNode.nodeId).eraseDups.take maxCount.toNat ∧
      (m.ids ≠ [] → out.head? = m.lookup key) ∧
      ∀ k ≤ maxCount, m.lookupN key k = some (out.take (min k m.ids.length).toNat) := by
  obtain ⟨hfits, hwf, -⟩ := wf_abs hr
  have hperm := replicas_perm hwf key
  have hlookup : ∀ k, m.lookupN key k =
      some (((clockwise key m.live).map VNode.nodeId).eraseDups.take k.toNat) := by
    intro k
    rw [lookupN_eq hfits, rotate_start key (sorted_live hwf)]
  refine ⟨_, hlookup maxCount, ?_, ?_, ?_, rfl, ?_, ?_⟩
  · rw [List.length_take, hperm.length_eq]
    omega
  · exact (nodup_eraseDups _).sublist (List.take_sublist _ _)
  · exact fun x hx => hperm.mem_iff.mp (List.mem_of_mem_take hx)
  · intro hne
    rw [List.head?_take, if_neg (by omega), head_replicas hfits hwf hne]
  · intro k hk
    -- a list cut at more than its length is the list
    rw [hlookup, List.take_take]
    congr 1
    have hlen := hperm.length_eq
    by_cases hkm : k ≤ m.ids.length
    · congr 1
      omega
    · rw [List.take_of_length_le (by omega), List.take_of_length_le (by omega)]

/-- The replicas of a key among three members with four virtual nodes each. -/
theorem lookup_n_selects_replicas_three :
    ∃ m out, (ringArrays 4).run (ringArrays 4).init [addCall 7, addCall 8, addCall 9] = some m ∧
      m.lookupN [107] 2 = some out ∧ (out.length : ℤ) = min 2 m.ids.length ∧
      out.head? = m.lookup [107] := by
  have hrun : (ringArrays 4).run (ringArrays 4).init [addCall 7, addCall 8, addCall 9] =
    some _ := rfl
  have hreach := Reach.of_run_init hrun
  obtain ⟨out, hout, hlen, -, -, -, hfirst, -⟩ :=
    lookup_n_selects_replicas hreach [107] 2 (by decide)
  exact ⟨_, out, hrun, hout, hlen, hfirst (by decide)⟩

end Replicas

/-! ## Failed adds -/

section Failed

variable {virtualCount : ℤ}

theorem lookups_congr {m' : RingMem} (h : Fits m) (h' : Fits m') (hlive : m'.live = m.live)
    (key : List UInt8) :
    m'.lookup key = m.lookup key ∧ ∀ n, m'.lookupN key n = m.lookupN key n := by
  refine ⟨?_, fun n => ?_⟩
  · have hvnodes : (abs m').vnodes = (abs m).vnodes := hlive
    rw [lookup_refines h', lookup_refines h, lookup_eq, lookup_eq, hvnodes]
  · rw [lookupN_eq h', lookupN_eq h, hlive]

/-- **A failed `mb_ring_add` is invisible.**  On every ring that adds and removes lead to, for
every node and whatever the growths find: when the call returns an error, which is `-EEXIST`
for a member and `-1` otherwise, the members, the virtual nodes and the results of both lookups
are what they were.
SRC: ring.c:58-144 -/
theorem failed_add_invisible (hr : Reach (ringArrays virtualCount) (fun _ _ => True) m)
    (id : UInt32) (addr : List UInt8) (nodesAlloc : Grow RingNode)
    (vnodesAlloc : ℕ → Grow VNode) :
    ∃ rc m', m.add id addr nodesAlloc vnodesAlloc = some (rc, m') ∧
      (rc ≠ .ok →
        rc = (if id ∈ m.ids then .err .EEXIST else Ring.growFailed) ∧
        m'.members = m.members ∧ m'.live = m.live ∧
        ∀ key, m'.lookup key = m.lookup key ∧ ∀ n, m'.lookupN key n = m.lookupN key n) := by
  obtain ⟨hfits, hwf, -⟩ := wf_abs hr
  obtain ⟨rc, m', hadd, hfits', hring, hmembers⟩ :=
    add_refines hfits id addr nodesAlloc vnodesAlloc
  refine ⟨rc, m', hadd, fun hrc => ?_⟩
  have hend := add_cases hwf id nodesAlloc.isSome fun i => (vnodesAlloc i).isSome
  rw [hring] at hend
  have hresult : rc = (if id ∈ m.ids then .err .EEXIST else Ring.growFailed) ∧
      m'.live = m.live := by
    generalize hp : (rc, abs m') = p at hend
    cases hend with
    | member hmem =>
      obtain ⟨rfl, habs⟩ := Prod.mk.inj hp
      exact ⟨(if_pos hmem).symm, congrArg Ring.vnodes habs⟩
    | failed hnot hn hv hc =>
      obtain ⟨rfl, rfl⟩ := Prod.mk.inj hp
      exact ⟨(if_neg hnot).symm, hv⟩
    | added hnot hn hdone =>
      obtain ⟨rfl, -⟩ := Prod.mk.inj hp
      exact absurd rfl hrc
  rw [if_neg hrc] at hmembers
  exact ⟨hresult.1, hmembers, hresult.2, lookups_congr hfits hfits' hresult.2⟩

/-- With one member there are twelve cells left; the second member needs twenty, and the twelve
virtual nodes that found a cell are taken back. -/
theorem failed_add_invisible_twelve :
    ∃ m m', (ringArrays 20).run (ringArrays 20).init [addCall 7] = some m ∧
      m.add 8 [] none (fun _ => none) = some (Ring.growFailed, m') ∧ m'.live = m.live := by
  have hrun : (ringArrays 20).run (ringArrays 20).init [addCall 7] = some _ := rfl
  have hreach := Reach.of_run_init hrun
  obtain ⟨rc, m', hadd, hsame⟩ := failed_add_invisible hreach 8 [] none fun _ => none
  have hrc := congrArg (Option.map Prod.fst) hadd
  obtain rfl : Ring.growFailed = rc := Option.some.inj hrc
  exact ⟨_, m', hrun, hadd, (hsame (by decide)).2.2.1⟩

end Failed

end MsgBroker.Analysis.RingArray
