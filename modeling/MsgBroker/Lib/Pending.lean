import Mathlib.Data.List.Nodup
import Mathlib.Logic.Function.Basic

/-!
# Chains with links that are still to be stored

A list in memory that several threads extend at its end: one first becomes the last item and stores
the pointer of the item before it later.
-/

set_option autoImplicit false

namespace MsgBroker.Lib

variable {α : Type}

/-- The items `ps` follow each other, and the pointers that are not stored are owed. -/
structure PendingChain (next : α → Option α) (owes : α → α → Prop) (ps : List α) : Prop where
  nodup : ps.Nodup
  link : ∀ l₁ a b l₂, ps = l₁ ++ a :: b :: l₂ → next a = some b ∨ next a = none ∧ owes a b
  last : ∀ l a, ps = l ++ [a] → next a = none
  owed : ∀ a b, owes a b → next a = none ∧ ∃ l₁ l₂, ps = l₁ ++ a :: b :: l₂

namespace PendingChain

variable {next next' : α → Option α} {owes owes' : α → α → Prop} {ps l : List α} {a b c : α}

theorem rest_unique (h : PendingChain next owes ps) {l₁ l₂ r₁ r₂ : List α}
    (h₁ : ps = l₁ ++ a :: r₁) (h₂ : ps = l₂ ++ a :: r₂) : r₁ = r₂ := by
  have hnd := h.nodup
  rw [h₁, List.nodup_middle, List.nodup_cons, List.mem_append, not_or] at hnd
  obtain ⟨⟨hleft, hright⟩, -⟩ := hnd
  have hsplit := (List.append_cons_inj_of_notMem hleft hright).mp (h₁.symm.trans h₂)
  exact hsplit.2.2

theorem congr (h : PendingChain next owes ps) (hnext : ∀ x ∈ ps, next' x = next x)
    (howes : ∀ x y, owes' x y ↔ owes x y) : PendingChain next' owes' ps where
  nodup := h.nodup
  link l₁ a b l₂ hps := by
    rw [hnext a (hps ▸ by simp), howes]
    exact h.link l₁ a b l₂ hps
  last l a hps := by
    rw [hnext a (hps ▸ by simp)]
    exact h.last l a hps
  owed a b hab := by
    obtain ⟨hnone, l₁, l₂, hps⟩ := h.owed a b ((howes a b).mp hab)
    exact ⟨(hnext a (hps ▸ by simp)).trans hnone, l₁, l₂, hps⟩

theorem singleton (hnone : next a = none) (howes : ∀ x y, ¬ owes x y) :
    PendingChain next owes [a] where
  nodup := List.nodup_singleton a
  link l₁ x y l₂ hps := by
    have hlen := congrArg List.length hps
    simp only [List.length_append, List.length_cons, List.length_nil] at hlen
    omega
  last l x hps := by
    obtain ⟨-, hx⟩ := List.append_inj' (show [] ++ [a] = l ++ [x] from hps) rfl
    obtain ⟨rfl, -⟩ := List.cons.inj hx
    exact hnone
  owed x y hxy := absurd hxy (howes x y)

theorem snoc (h : PendingChain next owes (l ++ [a])) (hb : b ∉ l ++ [a]) (hnone : next b = none)
    (howes : ∀ x y, owes' x y ↔ owes x y ∨ x = a ∧ y = b) :
    PendingChain next owes' (l ++ [a, b]) where
  nodup := by
    rw [List.append_cons]
    exact List.nodup_append'.mpr ⟨h.nodup, List.nodup_singleton b, by simpa using hb⟩
  link l₁ x y l₂ hps := by
    rcases List.eq_nil_or_concat l₂ with rfl | ⟨m, z, rfl⟩
    · -- the new link
      obtain ⟨rfl, hxy⟩ := List.append_inj' hps rfl
      obtain ⟨rfl, hy⟩ := List.cons.inj hxy
      obtain ⟨rfl, -⟩ := List.cons.inj hy
      exact .inr ⟨h.last l a rfl, (howes a b).mpr (.inr ⟨rfl, rfl⟩)⟩
    · have hps' : l ++ [a] ++ [b] = l₁ ++ x :: y :: m ++ [z] := by simpa using hps
      have hold := (List.append_inj' hps' rfl).1
      exact (h.link l₁ x y m hold).imp_right fun ⟨hx, hxy⟩ => ⟨hx, (howes x y).mpr (.inl hxy)⟩
  last k x hps := by
    have hps' : l ++ [a] ++ [b] = k ++ [x] := by simpa using hps
    obtain ⟨-, hx⟩ := List.append_inj' hps' rfl
    obtain ⟨rfl, -⟩ := List.cons.inj hx
    exact hnone
  owed x y hxy := by
    rcases (howes x y).mp hxy with hxy | ⟨rfl, rfl⟩
    · obtain ⟨hx, l₁, l₂, hps⟩ := h.owed x y hxy
      exact ⟨hx, l₁, l₂ ++ [b], by rw [List.append_cons, hps]; simp⟩
    · exact ⟨h.last l x rfl, l, [], rfl⟩

theorem store [DecidableEq α] (h : PendingChain next owes ps) (hab : owes a b)
    (howes : ∀ x y, owes' x y ↔ owes x y ∧ x ≠ a) :
    PendingChain (Function.update next a (some b)) owes' ps where
  nodup := h.nodup
  link l₁ x y l₂ hps := by
    by_cases hx : x = a
    · subst hx
      obtain ⟨-, k₁, k₂, hps'⟩ := h.owed x b hab
      obtain ⟨rfl, -⟩ := List.cons.inj (h.rest_unique hps hps')
      exact .inl (Function.update_self _ _ _)
    · rw [Function.update_of_ne hx]
      exact (h.link l₁ x y l₂ hps).imp_right fun ⟨hnone, hxy⟩ =>
        ⟨hnone, (howes x y).mpr ⟨hxy, hx⟩⟩
  last l x hps := by
    have hx : x ≠ a := by
      rintro rfl
      obtain ⟨-, k₁, k₂, hps'⟩ := h.owed x b hab
      cases h.rest_unique hps hps'
    rw [Function.update_of_ne hx]
    exact h.last l x hps
  owed x y hxy := by
    obtain ⟨hold, hx⟩ := (howes x y).mp hxy
    obtain ⟨hnone, l₁, l₂, hps⟩ := h.owed x y hold
    exact ⟨(Function.update_of_ne hx _ _).trans hnone, l₁, l₂, hps⟩

theorem next_some (h : PendingChain next owes (a :: l)) (hab : next a = some b) :
    ∃ l', l = b :: l' := by
  cases l with
  | nil => cases hab.symm.trans (h.last [] a rfl)
  | cons c l =>
    rcases h.link [] a c l rfl with hac | ⟨hnone, -⟩
    · cases hab.symm.trans hac
      exact ⟨l, rfl⟩
    · cases hab.symm.trans hnone

theorem next_none (h : PendingChain next owes (a :: l)) (hnone : next a = none) :
    l = [] ∨ ∃ b, owes a b := by
  cases l with
  | nil => exact .inl rfl
  | cons c l =>
    rcases h.link [] a c l rfl with hac | ⟨-, howed⟩
    · cases hnone.symm.trans hac
    · exact .inr ⟨c, howed⟩

theorem tail (h : PendingChain next owes (a :: l)) (hab : next a = some b) :
    PendingChain next owes l where
  nodup := (List.nodup_cons.mp h.nodup).2
  link l₁ x y l₂ hl := h.link (a :: l₁) x y l₂ (by rw [hl, List.cons_append])
  last k x hl := h.last (a :: k) x (by rw [hl, List.cons_append])
  owed x y hxy := by
    obtain ⟨hnone, l₁, l₂, hl⟩ := h.owed x y hxy
    cases l₁ with
    | nil =>
      obtain ⟨rfl, -⟩ := List.cons.inj hl
      cases hab.symm.trans hnone
    | cons z l₁ => exact ⟨hnone, l₁, l₂, (List.cons.inj hl).2⟩

end PendingChain

end MsgBroker.Lib
