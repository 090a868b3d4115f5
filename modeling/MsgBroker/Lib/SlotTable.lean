import Mathlib.Data.Fintype.Card
import Mathlib.Data.List.FinRange
import Mathlib.Data.List.OfFn

/-!
# A table of slots with a stack of free indices

A table of `n` slots hands out the index of a free slot in constant time: the free indices are the
first `n - used` entries of an array that is used as a stack.
-/

set_option autoImplicit false

namespace MsgBroker.Lib

open Function (update update_of_ne update_self)

variable {n : ℕ} {α : Type}

theorem take_ofFn_succ (f : Fin n → α) (k : Fin n) :
    (List.ofFn f).take (k + 1) = (List.ofFn f).take k ++ [f k] := by
  have hk : (k : ℕ) < (List.ofFn f).length := by simp
  rw [List.take_succ_eq_append_getElem hk, List.getElem_ofFn]

theorem take_ofFn_update (f : Fin n → α) (k : Fin n) (a : α) :
    (List.ofFn (update f k a)).take k = (List.ofFn f).take k := by
  apply List.ext_getElem
  · simp
  · intro i h _
    have hik : i < k := by
      rw [List.length_take] at h
      omega
    have hne : (⟨i, by omega⟩ : Fin n) ≠ k := by
      intro e
      rw [← e] at hik
      exact Nat.lt_irrefl _ hik
    simp [update_of_ne hne]

/-- The slots, the stack of free indices and the number of slots in use. -/
structure SlotTable (n : ℕ) (α : Type) where
  slots : Fin n → Option α
  stack : Fin n → Fin n
  used : ℕ

namespace SlotTable

/-- The free indices, the top of the stack last. -/
def free (t : SlotTable n α) : List (Fin n) := (List.ofFn t.stack).take (n - t.used)

/-- The taken indices. -/
def taken (t : SlotTable n α) : List (Fin n) :=
  (List.finRange n).filter fun d => (t.slots d).isSome

/-- All slots free, the lowest index on top. -/
def empty : SlotTable n α where
  slots _ := none
  stack := Fin.rev
  used := 0

/-- Puts a value into a slot and pops the stack. -/
def put (t : SlotTable n α) (d : Fin n) (a : α) : SlotTable n α :=
  { t with slots := update t.slots d (some a), used := t.used + 1 }

/-- Clears a slot and pushes its index at place `k`. -/
def release (t : SlotTable n α) (k d : Fin n) : SlotTable n α where
  slots := update t.slots d none
  stack := update t.stack k d
  used := t.used - 1

/-- Every index is on the stack, once, or taken. -/
structure Balanced (t : SlotTable n α) : Prop where
  used_le : t.used ≤ n
  nodup : t.free.Nodup
  mem_free : ∀ d, d ∈ t.free ↔ t.slots d = none

@[simp]
theorem mem_taken {t : SlotTable n α} {d : Fin n} : d ∈ t.taken ↔ (t.slots d).isSome := by
  simp [taken]

theorem nodup_taken (t : SlotTable n α) : t.taken.Nodup :=
  (List.nodup_finRange n).filter _

theorem balanced_empty : (empty : SlotTable n α).Balanced where
  used_le := Nat.zero_le n
  nodup := by
    apply List.Nodup.sublist (List.take_sublist _ _)
    exact List.nodup_ofFn.mpr Fin.rev_injective
  mem_free d := by
    refine iff_of_true ?_ rfl
    show d ∈ (List.ofFn Fin.rev).take (n - 0)
    rw [Nat.sub_zero, List.take_of_length_le (by simp), List.mem_ofFn]
    exact ⟨Fin.rev d, Fin.rev_rev d⟩

namespace Balanced

variable {t : SlotTable n α}

theorem perm (h : t.Balanced) : (t.free ++ t.taken).Perm (List.finRange n) := by
  rw [List.perm_ext_iff_of_nodup _ (List.nodup_finRange n)]
  · intro d
    refine iff_of_true (List.mem_append.mpr ?_) (List.mem_finRange d)
    rw [h.mem_free, mem_taken]
    cases t.slots d <;> simp
  · refine List.Nodup.append h.nodup t.nodup_taken ?_
    intro d hfree htaken
    rw [mem_taken, (h.mem_free d).mp hfree] at htaken
    cases htaken

theorem length_taken (h : t.Balanced) : t.taken.length = t.used := by
  have hlen := h.perm.length_eq
  have hle := h.used_le
  have hfree : t.free.length = n - t.used := by simp [free]
  rw [List.length_append, List.length_finRange, hfree] at hlen
  omega

theorem used_pos (h : t.Balanced) {d : Fin n} (hd : t.slots d ≠ none) : 0 < t.used := by
  rw [← h.length_taken]
  apply List.length_pos_of_mem (a := d)
  rw [mem_taken]
  exact Option.isSome_iff_ne_none.mpr hd

theorem slots_eq_none (h : t.Balanced) (h0 : t.used = 0) (d : Fin n) : t.slots d = none := by
  by_contra hd
  have hpos := h.used_pos hd
  omega

theorem exists_taken (h : t.Balanced) (hpos : 0 < t.used) : ∃ d, (t.slots d).isSome := by
  rw [← h.length_taken] at hpos
  obtain ⟨d, hd⟩ := List.exists_mem_of_length_pos hpos
  exact ⟨d, mem_taken.mp hd⟩

section Top

variable {k : Fin n}

theorem free_eq_concat (hk : (k : ℕ) + 1 = n - t.used) :
    t.free = (List.ofFn t.stack).take k ++ [t.stack k] := by
  rw [free, ← hk, take_ofFn_succ]

theorem slots_top (h : t.Balanced) (hk : (k : ℕ) + 1 = n - t.used) :
    t.slots (t.stack k) = none := by
  rw [← h.mem_free, free_eq_concat hk]
  exact List.mem_append_right _ List.mem_cons_self

theorem put (h : t.Balanced) (hk : (k : ℕ) + 1 = n - t.used) (a : α) :
    (t.put (t.stack k) a).Balanced := by
  have hfree : (t.put (t.stack k) a).free = (List.ofFn t.stack).take k := by
    show (List.ofFn t.stack).take (n - (t.used + 1)) = _
    congr 1
    omega
  have hnodup := h.nodup
  rw [free_eq_concat hk, List.nodup_append] at hnodup
  refine ⟨?_, ?_, ?_⟩
  · show t.used + 1 ≤ n
    omega
  · rw [hfree]
    exact hnodup.1
  · intro d
    rw [hfree]
    show _ ↔ update t.slots (t.stack k) (some a) d = none
    have hmem := h.mem_free d
    rw [free_eq_concat hk, List.mem_append, List.mem_singleton] at hmem
    by_cases hd : d = t.stack k
    · subst hd
      rw [update_self]
      refine iff_of_false (fun hin => ?_) (by simp)
      exact hnodup.2.2 _ hin _ List.mem_cons_self rfl
    · rw [update_of_ne hd, ← hmem]
      simp [hd]

end Top

theorem release (h : t.Balanced) {k d : Fin n} (hk : (k : ℕ) = n - t.used)
    (hd : t.slots d ≠ none) : (t.release k d).Balanced := by
  have hpos := h.used_pos hd
  have hle := h.used_le
  have hfree : (t.release k d).free = t.free ++ [d] := by
    show (List.ofFn (update t.stack k d)).take (n - (t.used - 1)) = _
    have hk' : n - (t.used - 1) = k + 1 := by omega
    rw [hk', take_ofFn_succ, take_ofFn_update, update_self, free, hk]
  have hnot : d ∉ t.free := fun hin => hd ((h.mem_free d).mp hin)
  refine ⟨?_, ?_, ?_⟩
  · show t.used - 1 ≤ n
    omega
  · rw [hfree, ← List.concat_eq_append]
    exact h.nodup.concat hnot
  · intro e
    rw [hfree, List.mem_append, List.mem_singleton, h.mem_free]
    show _ ↔ update t.slots d none e = none
    by_cases he : e = d
    · subst he
      simp
    · simp [he]

end Balanced

end SlotTable

end MsgBroker.Lib
