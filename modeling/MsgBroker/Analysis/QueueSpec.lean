import MsgBroker.Lib.Reach
import MsgBroker.Model.Queue

/-!
# The intrusive queue is a list

`IsQueue` says which items are in a queue, in their order.
-/

set_option autoImplicit false

namespace MsgBroker.Analysis.QueueSpec

open Lib Model
open Function (update update_of_ne update_self)

variable {K : Type}

/-- The items of a queue, the first one first. -/
structure IsQueue (q : MbQueue K) (next : K → Ptr K) (l : List K) : Prop where
  head : q.head = .ofOption l.head?
  tail : q.tail = .ofOption l.getLast?
  nodup : l.Nodup
  next : ∀ l₁ a l₂, l = l₁ ++ a :: l₂ → next a = .ofOption l₂.head?

variable {q : MbQueue K} {next next' : K → Ptr K} {l : List K} {k : K}

theorem isQueue_init (next : K → Ptr K) : IsQueue .init next [] :=
  ⟨rfl, rfl, List.nodup_nil, fun l₁ _ _ heq => absurd heq.symm (by simp)⟩

theorem IsQueue.congr (h : IsQueue q next l) (hsame : ∀ a ∈ l, next' a = next a) :
    IsQueue q next' l := by
  refine ⟨h.head, h.tail, h.nodup, fun l₁ a l₂ heq => ?_⟩
  rw [hsame a (heq ▸ List.mem_append_right l₁ List.mem_cons_self)]
  exact h.next l₁ a l₂ heq

variable [DecidableEq K]

theorem IsQueue.push (h : IsQueue q next l) (hk : k ∉ l) :
    ∃ q' next', q.push k next = some (q', next') ∧ IsQueue q' next' (l ++ [k]) ∧
      ∀ a, a ≠ k → a ∉ l → next' a = next a := by
  have hnodup : (l ++ [k]).Nodup := by
    rw [List.nodup_append]
    exact ⟨h.nodup, List.nodup_singleton k, fun a ha b hb hab =>
      hk (List.mem_singleton.mp hb ▸ hab ▸ ha)⟩
  rcases List.eq_nil_or_concat l with rfl | ⟨l', t, rfl⟩
  · have htail : q.tail = .null := h.tail
    refine ⟨⟨.to k, .to k⟩, update next k .null, ?_, ⟨rfl, rfl, hnodup, ?_⟩, ?_⟩
    · simp only [MbQueue.push, htail]
    · intro l₁ a l₂ heq
      obtain ⟨rfl, -, rfl⟩ | ⟨post, -, hnil⟩ := concat_eq_append_cons_iff.mp heq
      · exact update_self k .null next
      · exact absurd hnil.symm (by simp)
    · exact fun a ha _ => update_of_ne ha .null next
  · rw [List.concat_eq_append] at *
    have htail : q.tail = .to t := by
      rw [h.tail, List.getLast?_concat]
      rfl
    have htk : t ≠ k := by
      rintro rfl
      exact hk (List.mem_append_right l' List.mem_cons_self)
    refine ⟨⟨q.head, .to k⟩, update (update next k .null) t (.to k), ?_,
      ⟨?_, ?_, hnodup, ?_⟩, ?_⟩
    · simp only [MbQueue.push, htail]
    · rw [h.head, List.head?_append_of_ne_nil (l' ++ [t]) (by simp)]
    · rw [List.getLast?_concat]
      rfl
    · intro l₁ a l₂ heq
      obtain ⟨rfl, -, rfl⟩ | ⟨post, rfl, hsplit⟩ := concat_eq_append_cons_iff.mp heq
      · rw [update_of_ne htk.symm, update_self]
        rfl
      · have hak : a ≠ k := by
          rintro rfl
          exact hk (hsplit ▸ List.mem_append_right l₁ List.mem_cons_self)
        obtain ⟨rfl, -, rfl⟩ | ⟨post', rfl, hl'⟩ := concat_eq_append_cons_iff.mp hsplit
        · rw [update_self]
          rfl
        · -- an item before the last one keeps its pointer
          have hat : a ≠ t := by
            rintro rfl
            have hlast := (List.nodup_append.mp h.nodup).2.2 a
              (hl' ▸ List.mem_append_right l₁ List.mem_cons_self) a List.mem_cons_self
            exact hlast rfl
          rw [update_of_ne hat, update_of_ne hak, h.next l₁ a _ hsplit,
            List.head?_append_of_ne_nil (post' ++ [t]) (by simp)]
    · intro a hak hal
      have hat : a ≠ t := by
        rintro rfl
        exact hal (List.mem_append_right l' List.mem_cons_self)
      rw [update_of_ne hat, update_of_ne hak]

theorem IsQueue.pop (h : IsQueue q next (k :: l)) :
    ∃ q' next', q.pop next = some (some k, q', next') ∧ IsQueue q' next' l ∧
      ∀ a, a ≠ k → next' a = next a := by
  obtain ⟨hkl, hnodup⟩ := List.nodup_cons.mp h.nodup
  have hhead : q.head = .to k := h.head
  have hnext : next k = .ofOption l.head? := h.next [] k l rfl
  refine ⟨⟨next k, if next k = .null then .null else q.tail⟩, update next k .invalid, ?_,
    ⟨hnext, ?_, hnodup, ?_⟩, fun a ha => update_of_ne ha .invalid next⟩
  · simp only [MbQueue.pop, hhead]
  · cases l with
    | nil => exact if_pos hnext
    | cons a l =>
      have hne : next k ≠ .null := by
        rw [hnext]
        nofun
      rw [if_neg hne, h.tail, List.getLast?_cons_cons]
  · intro l₁ a l₂ heq
    have hak : a ≠ k := by
      rintro rfl
      exact hkl (heq ▸ List.mem_append_right l₁ List.mem_cons_self)
    rw [update_of_ne hak]
    exact h.next (k :: l₁) a l₂ (heq ▸ rfl)

theorem IsQueue.pop_nil (h : IsQueue q next []) : q.pop next = some (none, q, next) := by
  simp only [MbQueue.pop, h.head, List.head?_nil, Ptr.ofOption_none]

end MsgBroker.Analysis.QueueSpec
