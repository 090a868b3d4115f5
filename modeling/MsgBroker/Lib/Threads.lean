import Mathlib.Algebra.BigOperators.Group.Finset.Basic
import Mathlib.Algebra.Order.BigOperators.Group.Finset
import Mathlib.Data.Fintype.Basic
import MsgBroker.Lib.Reach

/-!
# Interleaved threads

Threads of one program that share a state `γ`; each has a place `κ` of its own in the program.
-/

set_option autoImplicit false

namespace MsgBroker.Lib

open Finset
open Function (update update_of_ne update_self)

variable {T γ κ ℓ : Type}

/-- The shared state and the place of every thread. -/
structure Threads (T γ κ : Type) where
  shared : γ
  pc : T → κ

section Interleave

variable [DecidableEq T]

/-- The threads take steps of the program in any order. -/
def interleave (program : T → ℓ → κ → γ → Option (κ × γ)) (start : Threads T γ κ) :
    System (Threads T γ κ) (T × ℓ) where
  init := start
  step s l := (program l.1 l.2 (s.pc l.1) s.shared).map fun r =>
    ⟨r.2, update s.pc l.1 r.1⟩

theorem interleave_step {program : T → ℓ → κ → γ → Option (κ × γ)}
    {start s s' : Threads T γ κ} {l : T × ℓ}
    (h : (interleave program start).step s l = some s') :
    ∃ c g, program l.1 l.2 (s.pc l.1) s.shared = some (c, g) ∧
      s' = ⟨g, update s.pc l.1 c⟩ := by
  obtain ⟨⟨c, g⟩, hstep, rfl⟩ := Option.map_eq_some_iff.mp h
  exact ⟨c, g, hstep, rfl⟩

theorem forall_update {P : T → κ → Prop} {f : T → κ} {t : T} {c : κ} (hc : P t c)
    (hf : ∀ u, u ≠ t → P u (f u)) : ∀ u, P u (update f t c u) := by
  intro u
  by_cases hu : u = t
  · subst hu
    rwa [update_self]
  · rw [update_of_ne hu]
    exact hf u hu

theorem owed_update {G G' : Prop} {O : κ → Prop} {f : T → κ} {t : T} {c : κ}
    (h : G ∨ ∃ u, O (f u)) (hstep : G ∨ O (f t) → G' ∨ O c) :
    G' ∨ ∃ u, O (update f t c u) := by
  have hself : G' ∨ O c → G' ∨ ∃ u, O (update f t c u) := by
    rintro (hG | hO)
    · exact Or.inl hG
    · exact Or.inr ⟨t, by rwa [update_self]⟩
  rcases h with hG | ⟨u, hu⟩
  · exact hself (hstep (Or.inl hG))
  · by_cases hut : u = t
    · subst hut
      exact hself (hstep (Or.inr hu))
    · exact Or.inr ⟨u, by rwa [update_of_ne hut]⟩

end Interleave

section Sum

variable [Fintype T] [DecidableEq T] (w : κ → ℤ) (f : T → κ)

theorem sum_update (t : T) (c : κ) :
    ∑ u, w (update f t c u) = ∑ u, w (f u) - w (f t) + w c := by
  have hother : ∀ u ∈ univ.erase t, w (update f t c u) = w (f u) := by
    intro u hu
    rw [update_of_ne (ne_of_mem_erase hu)]
  rw [← add_sum_erase univ (fun u => w (update f t c u)) (mem_univ t),
    ← add_sum_erase univ (fun u => w (f u)) (mem_univ t), sum_congr rfl hother,
    update_self]
  omega

variable {w f}

theorem add_le_sum_of_ne (hw : ∀ c, 0 ≤ w c) {t u : T} (htu : t ≠ u) :
    w (f t) + w (f u) ≤ ∑ v, w (f v) := by
  have hpair : ∑ v ∈ {t, u}, w (f v) = w (f t) + w (f u) := sum_pair htu
  rw [← hpair]
  exact sum_le_sum_of_subset_of_nonneg (subset_univ _) fun v _ _ => hw (f v)

omit [DecidableEq T] in
theorem le_sum (hw : ∀ c, 0 ≤ w c) (t : T) : w (f t) ≤ ∑ v, w (f v) :=
  single_le_sum (f := fun v => w (f v)) (fun v _ => hw (f v)) (mem_univ t)

end Sum

section Busy

theorem sum_change {ι : Type} [DecidableEq ι] {s : Finset ι} {f g : ι → ℤ} {i : ι} (hi : i ∈ s)
    (hother : ∀ j ∈ s, j ≠ i → g j = f j) : ∑ j ∈ s, g j = ∑ j ∈ s, f j - f i + g i := by
  have hrest : ∑ j ∈ s.erase i, g j = ∑ j ∈ s.erase i, f j :=
    sum_congr rfl fun j hj => hother j (mem_of_mem_erase hj) (ne_of_mem_erase hj)
  rw [← add_sum_erase s g hi, ← add_sum_erase s f hi, hrest]
  omega

variable [DecidableEq T] {w : κ → ℤ} {f : T → κ} {o : κ} {busy : Finset T}

theorem sum_update_busy (hbusy : ∀ t ∉ busy, f t = o) (hw : w o = 0) (t : T) (c : κ) :
    ∑ u ∈ insert t busy, w (update f t c u) = ∑ u ∈ busy, w (f u) - w (f t) + w c := by
  have hsame : ∑ u ∈ insert t busy, w (f u) = ∑ u ∈ busy, w (f u) := by
    by_cases ht : t ∈ busy
    · rw [insert_eq_of_mem ht]
    · rw [sum_insert ht, hbusy t ht, hw, zero_add]
  have hchange := sum_change (f := fun u => w (f u)) (g := fun u => w (update f t c u))
    (mem_insert_self t busy) fun u _ hu => by rw [update_of_ne hu]
  rw [update_self, hsame] at hchange
  exact hchange

theorem idle_update_busy (hbusy : ∀ t ∉ busy, f t = o) (t : T) (c : κ) :
    ∀ u ∉ insert t busy, update f t c u = o := by
  intro u hu
  rw [mem_insert, not_or] at hu
  rw [update_of_ne hu.1]
  exact hbusy u hu.2

end Busy

end MsgBroker.Lib
