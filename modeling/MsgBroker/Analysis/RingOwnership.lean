import Mathlib.Data.Finset.Basic
import Mathlib.Data.Finset.Lattice.Lemmas
import MsgBroker.Analysis.RingSpec

/-!
# Who owns a key

`Owns` is what consistent hashing is for: with members `M`, the owner of a place on the ring is the
member whose virtual node comes first going round from there.
-/

set_option autoImplicit false

namespace MsgBroker.Analysis.RingOwnership

open Lib Model Analysis.RingSpec

section Owns

variable {count : ℕ} {M M' : Set UInt32} {h : ℕ} {x y : UInt32}

/-- The places of the virtual nodes of the members. -/
def places (count : ℕ) (M : Set UInt32) : Set ℕ :=
  {k | ∃ x ∈ M, ∃ i < count, (vnodeOf x i).place = k}

/-- The member `x` owns the place `h`. -/
def Owns (count : ℕ) (M : Set UInt32) (h : ℕ) (x : UInt32) : Prop :=
  x ∈ M ∧ ∃ i < count, IsSuccessor (places count M) h (vnodeOf x i).place

/-- No two members have virtual nodes with one hash. -/
def Distinct (count : ℕ) (M : Set UInt32) : Prop :=
  ∀ x ∈ M, ∀ y ∈ M, ∀ i < count, ∀ j < count,
    (vnodeOf x i).place = (vnodeOf y j).place → x = y

theorem Distinct.mono (hd : Distinct count M) (hsub : M' ⊆ M) : Distinct count M' :=
  fun x hx y hy => hd x (hsub hx) y (hsub hy)

theorem Owns.unique (hd : Distinct count M) (hx : Owns count M h x) (hy : Owns count M h y) :
    x = y := by
  obtain ⟨hxM, i, hi, hsx⟩ := hx
  obtain ⟨hyM, j, hj, hsy⟩ := hy
  exact hd x hxM y hyM i hi j hj (hsx.unique hsy)

theorem Owns.mono (hx : Owns count M h x) (hsub : M' ⊆ M) (hmem : x ∈ M') :
    Owns count M' h x := by
  obtain ⟨-, i, hi, hs⟩ := hx
  refine ⟨hmem, i, hi, hs.mono ?_ ⟨x, hmem, i, hi, rfl⟩⟩
  rintro k ⟨y, hy, j, hj, rfl⟩
  exact ⟨y, hsub hy, j, hj, rfl⟩

end Owns

section Lookup

variable {r : Ring}

/-- The members of a ring as a set. -/
def members (r : Ring) : Set UInt32 := {x | x ∈ r.nodes}

theorem places_eq (hr : Wf r) :
    {k | ∃ v ∈ r.vnodes, v.place = k} = places r.virtualCount (members r) := by
  ext k
  constructor
  · rintro ⟨v, hv, rfl⟩
    obtain ⟨x, hx, i, hi, rfl⟩ := hr.mem_vnodes_iff.mp hv
    exact ⟨x, hx, i, hi, rfl⟩
  · rintro ⟨x, hx, i, hi, rfl⟩
    exact ⟨vnodeOf x i, hr.mem_vnodes_iff.mpr ⟨x, hx, i, hi, rfl⟩, rfl⟩

theorem lookup_owns (hr : Wf r) (hne : r.nodes ≠ []) (key : List UInt8) :
    Owns r.virtualCount (members r) (ringHash key).toNat (r.lookup key) := by
  have hsome : successor VNode.place (ringHash key).toNat r.vnodes ≠ none :=
    successor_ne_none (hr.vnodes_ne_nil hne)
  obtain ⟨v, hv⟩ := Option.ne_none_iff_exists'.mp hsome
  have hsucc := hr.sorted.isSuccessor hv
  rw [places_eq hr] at hsucc
  obtain ⟨x, hx, i, hi, rfl⟩ := hr.mem_vnodes_iff.mp (mem_of_successor hv)
  rw [hr.lookup_eq, hv]
  exact ⟨hx, i, hi, hsucc⟩

theorem lookup_eq_iff_owns (hr : Wf r) (hne : r.nodes ≠ [])
    (hd : Distinct r.virtualCount (members r)) (key : List UInt8) {x : UInt32} :
    r.lookup key = x ↔ Owns r.virtualCount (members r) (ringHash key).toNat x := by
  constructor
  · rintro rfl
    exact lookup_owns hr hne key
  · exact Owns.unique hd (lookup_owns hr hne key)

theorem lookup_of_nodes_nil (hr : Wf r) (h0 : r.nodes = []) (key : List UInt8) :
    r.lookup key = 0 := by
  have hperm := hr.perm
  rw [h0] at hperm
  rw [hr.lookup_eq, List.perm_nil.mp hperm]
  rfl

theorem lookup_congr {r' : Ring} (hr : Wf r) (hr' : Wf r')
    (hcount : r.virtualCount = r'.virtualCount) (hmem : members r = members r')
    (hd : Distinct r.virtualCount (members r)) (key : List UInt8) :
    r.lookup key = r'.lookup key := by
  by_cases h0 : r.nodes = []
  · have h0' : r'.nodes = [] := by
      apply List.eq_nil_iff_forall_not_mem.mpr
      intro x hx
      have hx' : x ∈ members r := hmem ▸ hx
      rw [members, h0] at hx'
      exact List.not_mem_nil hx'
    rw [lookup_of_nodes_nil hr h0, lookup_of_nodes_nil hr' h0']
  · have h0' : r'.nodes ≠ [] := by
      obtain ⟨x, hx⟩ := List.exists_mem_of_ne_nil _ h0
      have hx' : x ∈ members r' := hmem ▸ hx
      exact List.ne_nil_of_mem hx'
    rw [lookup_eq_iff_owns hr h0 hd key, hmem, hcount]
    exact lookup_owns hr' h0' key

theorem lookup_of_filter {r' : Ring} (hr : Wf r) (hr' : Wf r') {n : UInt32}
    (hfilter : r'.vnodes = r.vnodes.filter fun v => v.nodeId ≠ n) (key : List UInt8) :
    r.lookup key = n ∨ r'.lookup key = r.lookup key := by
  rw [hr.lookup_eq, hr'.lookup_eq, hfilter]
  cases hs : successor VNode.place (ringHash key).toNat r.vnodes with
  | none =>
    right
    have hnil : r.vnodes = [] := by
      by_contra hne
      exact successor_ne_none hne hs
    rw [hnil]
    rfl
  | some v =>
    by_cases hv : v.nodeId = n
    · exact Or.inl hv
    · right
      rw [successor_filter hs (by simpa using hv)]

theorem add_added (hr : Wf r) {n : UInt32} {nodesAlloc : Bool} {vnodesAlloc : ℕ → Bool}
    (hok : (r.add n nodesAlloc vnodesAlloc).1 = .ok) :
    n ∉ r.nodes ∧ (r.add n nodesAlloc vnodesAlloc).2.nodes = r.nodes ++ [n] ∧
      Added n (List.range r.virtualCount) { r with nodes := r.nodes ++ [n] }
        (r.add n nodesAlloc vnodesAlloc).2 := by
  have hend := add_cases hr n nodesAlloc vnodesAlloc
  generalize r.add n nodesAlloc vnodesAlloc = p at hend hok ⊢
  cases hend with
  | member => cases hok
  | failed => cases hok
  | added hid hnodes hadd => exact ⟨hid, hnodes, hadd⟩

end Lookup

/-! ## What moves -/

/-- **Consistent hashing moves only what it must.**  On every ring that any calls lead to, also
with collisions: after a successful add of `n` a key belongs to `n` or to its previous owner;
after a remove of `n` a key that was not `n`'s has its previous owner; and a remove right
after a successful add restores every owner.
SRC: ring.c:86-197 -/
theorem ring_moves_only_what_it_must {virtualCount : ℤ} {r : Ring}
    (hr : Reach (ringCalls virtualCount) (fun _ _ => True) r) (n : UInt32) (key : List UInt8) :
    (∀ nodesAlloc vnodesAlloc, n ∉ r.nodes → (r.add n nodesAlloc vnodesAlloc).1 = .ok →
      (r.add n nodesAlloc vnodesAlloc).2.lookup key = n ∨
        (r.add n nodesAlloc vnodesAlloc).2.lookup key = r.lookup key) ∧
    (n ∈ r.nodes → r.lookup key ≠ n → (r.remove n).2.lookup key = r.lookup key) ∧
    ∀ nodesAlloc vnodesAlloc, n ∉ r.nodes → (r.add n nodesAlloc vnodesAlloc).1 = .ok →
      ((r.add n nodesAlloc vnodesAlloc).2.remove n).2.lookup key = r.lookup key := by
  obtain ⟨hwf, -⟩ := wf_of_reach hr
  refine ⟨?_, ?_, ?_⟩
  · intro nodesAlloc vnodesAlloc _ hok
    obtain ⟨hid, -, hadd⟩ := add_added hwf hok
    have hwf' := hwf.added hid hadd
    rcases lookup_of_filter hwf' hwf (hadd.filter.trans (hwf.filter_vnodes hid)).symm key with h | h
    · exact Or.inl h
    · exact Or.inr h.symm
  · intro _ hne
    exact (lookup_of_filter hwf (hwf.remove n) rfl key).resolve_left hne
  · intro nodesAlloc vnodesAlloc _ hok
    obtain ⟨hid, -, hadd⟩ := add_added hwf hok
    have hvnodes : ((r.add n nodesAlloc vnodesAlloc).2.remove n).2.vnodes = r.vnodes :=
      hadd.filter.trans (hwf.filter_vnodes hid)
    rw [((hwf.added hid hadd).remove n).lookup_eq, hwf.lookup_eq, hvnodes]

/-- One member, and a second one that comes and goes. -/
theorem ring_moves_only_what_it_must_two :
    ∃ r, (ringCalls 1).run (ringCalls 1).init [.addOk 1] = some r ∧
      (r.add 2 true fun _ => true).1 = .ok ∧
      ((r.add 2 true fun _ => true).2.remove 2).2.lookup [107] = r.lookup [107] := by
  have hrun : (ringCalls 1).run (ringCalls 1).init [.addOk 1] = some _ := rfl
  have hreach := Reach.of_run_init hrun
  refine ⟨_, hrun, by decide, ?_⟩
  exact (ring_moves_only_what_it_must hreach 2 [107]).2.2 true (fun _ => true)
    (by decide) (by decide)

/-! ## The order of the adds -/

section Order

variable {virtualCount : ℤ} {r : Ring}

theorem lookup_last_added (hr : Wf r) {n : UInt32} {nodesAlloc : Bool} {vnodesAlloc : ℕ → Bool}
    (hok : (r.add n nodesAlloc vnodesAlloc).1 = .ok) {key : List UInt8} {i : ℕ}
    (hi : i < r.virtualCount) (hkey : (vnodeOf n i).place = (ringHash key).toNat) :
    (r.add n nodesAlloc vnodesAlloc).2.lookup key = n := by
  obtain ⟨hid, -, hadd⟩ := add_added hr hok
  have howner := hadd.owner (ringHash key).toNat (Or.inl ⟨i, List.mem_range.mpr hi, hkey⟩)
  rw [(hr.added hid hadd).lookup_eq, howner]
  rfl

theorem reach_add (hr : Reach (ringCalls virtualCount) RingOp.Succeeds r) {n : UInt32}
    (hn : n ∉ r.nodes) :
    Reach (ringCalls virtualCount) RingOp.Succeeds (r.add n true fun _ => true).2 ∧
      (r.add n true fun _ => true).1 = .ok ∧
      (r.add n true fun _ => true).2.nodes = r.nodes ++ [n] := by
  have hok := add_ok (r := r) hn
  exact ⟨hr.step (l := .addOk n) hok rfl, hok, (add_added (wf_of_reach hr).1 hok).2.1⟩

theorem reach_adds (virtualCount : ℤ) {ids : List UInt32} (hnodup : ids.Nodup) :
    ∃ r, Reach (ringCalls virtualCount) RingOp.Succeeds r ∧ r.nodes = ids := by
  induction ids using List.reverseRecOn with
  | nil => exact ⟨_, Reach.init, rfl⟩
  | append_singleton ids n ih =>
    rw [List.nodup_append] at hnodup
    obtain ⟨r, hr, rfl⟩ := ih hnodup.1
    have hn : n ∉ r.nodes := fun hin => hnodup.2.2 n hin n List.mem_cons_self rfl
    obtain ⟨hreach, -, hnodes⟩ := reach_add hr hn
    exact ⟨_, hreach, hnodes⟩

theorem exists_last_added (virtualCount : ℤ) {M : Finset UInt32} {x : UInt32} (hx : x ∈ M) :
    ∃ r, Reach (ringCalls virtualCount) RingOp.Succeeds r ∧ r.nodes.toFinset = M ∧
      ∀ key, ∀ i < r.virtualCount, (vnodeOf x i).place = (ringHash key).toNat →
        r.lookup key = x := by
  obtain ⟨r, hr, hnodes⟩ := reach_adds virtualCount (M.erase x).nodup_toList
  have hn : x ∉ r.nodes := by
    rw [hnodes, Finset.mem_toList]
    exact Finset.notMem_erase x M
  obtain ⟨hreach, hok, hnext⟩ := reach_add hr hn
  have hwf := (wf_of_reach hr).1
  refine ⟨_, hreach, ?_, fun key i hi hkey => ?_⟩
  · rw [hnext, hnodes, List.toFinset_append, Finset.toList_toFinset, List.toFinset_cons,
      List.toFinset_nil, insert_empty_eq, Finset.union_comm, ← Finset.insert_eq,
      Finset.insert_erase hx]
  · have hcount := (wf_of_reach hreach).2.trans (wf_of_reach hr).2.symm
    exact lookup_last_added hwf hok (hcount ▸ hi) hkey

end Order

/-- **When ownership depends only on the membership.**  All rings that successful adds and
removes build with the members `M` agree on the owner of every key exactly when no two
members have virtual nodes with one hash.
SRC: ring.c:8-30, 86-197 -/
theorem lookup_determined_iff (virtualCount : ℤ) (M : Finset UInt32) :
    (∀ r₁ r₂, Reach (ringCalls virtualCount) RingOp.Succeeds r₁ →
      Reach (ringCalls virtualCount) RingOp.Succeeds r₂ →
      r₁.nodes.toFinset = M → r₂.nodes.toFinset = M → ∀ key, r₁.lookup key = r₂.lookup key) ↔
    Distinct (Ring.init virtualCount).virtualCount (M : Set UInt32) := by
  constructor
  · intro hagree x hx y hy i hi j hj hplace
    obtain ⟨r₁, hr₁, hM₁, hlast₁⟩ := exists_last_added virtualCount hx
    obtain ⟨r₂, hr₂, hM₂, hlast₂⟩ := exists_last_added virtualCount hy
    -- the text of the virtual node is itself a key at the shared place
    have hkey₁ := hlast₁ (vnodeName x i) i ((wf_of_reach hr₁).2 ▸ hi) rfl
    have hkey₂ := hlast₂ (vnodeName x i) j ((wf_of_reach hr₂).2 ▸ hj) hplace.symm
    rw [← hkey₁, ← hkey₂]
    exact hagree r₁ r₂ hr₁ hr₂ hM₁ hM₂ _
  · intro hd r₁ r₂ hr₁ hr₂ hM₁ hM₂ key
    obtain ⟨hwf₁, hcount₁⟩ := wf_of_reach hr₁
    obtain ⟨hwf₂, hcount₂⟩ := wf_of_reach hr₂
    have hmem : ∀ r : Ring, r.nodes.toFinset = M → members r = (M : Set UInt32) := by
      intro r hM
      rw [← hM, List.coe_toFinset]
      rfl
    apply lookup_congr hwf₁ hwf₂ (hcount₁.trans hcount₂.symm)
      ((hmem r₁ hM₁).trans (hmem r₂ hM₂).symm)
    rw [hmem r₁ hM₁, hcount₁]
    exact hd

/-- The virtual nodes `85651:0` and `107336:0` have one hash: with one virtual node per member,
the order of two adds decides who owns the key `85651:0`. -/
theorem lookup_depends_on_order :
    ∃ r₁ r₂, Reach (ringCalls 1) RingOp.Succeeds r₁ ∧ Reach (ringCalls 1) RingOp.Succeeds r₂ ∧
      r₁.nodes.toFinset = r₂.nodes.toFinset ∧
      r₁.lookup (vnodeName 85651 0) = 107336 ∧ r₂.lookup (vnodeName 85651 0) = 85651 := by
  have hrun₁ : (ringCalls 1).run (ringCalls 1).init [.addOk 85651, .addOk 107336] = some _ := rfl
  have hrun₂ : (ringCalls 1).run (ringCalls 1).init [.addOk 107336, .addOk 85651] = some _ := rfl
  exact ⟨_, _, Reach.of_run Reach.init (by decide) hrun₁, Reach.of_run Reach.init (by decide) hrun₂,
    by decide, by decide, by decide⟩

end MsgBroker.Analysis.RingOwnership
