import Mathlib.Data.List.Nodup
import Mathlib.Logic.Function.Basic

/-!
# Singly linked chains

A chain is what is found from a first item along the pointers of the items to their successors, up
to the end.
-/

set_option autoImplicit false

namespace MsgBroker.Lib

variable {α : Type}

/-- The items found from `start` along `next`, up to the end. -/
def Chain (next : α → Option α) : Option α → List α → Prop
  | start, [] => start = none
  | start, a :: l => start = some a ∧ Chain next (next a) l

namespace Chain

variable {next next' : α → Option α} {start : Option α} {l l' : List α} {a : α}

theorem unique (h : Chain next start l) (h' : Chain next start l') : l = l' := by
  induction l generalizing start l' with
  | nil =>
    cases l' with
    | nil => rfl
    | cons b l' => cases h.symm.trans h'.1
  | cons a l ih =>
    cases l' with
    | nil => cases h.1.symm.trans h'
    | cons b l' =>
      cases h.1.symm.trans h'.1
      rw [ih h.2 h'.2]

theorem suffix {pre : List α} (h : Chain next start (pre ++ a :: l)) : Chain next (next a) l := by
  induction pre generalizing start with
  | nil => exact h.2
  | cons b pre ih => exact ih h.2

theorem nodup (h : Chain next start l) : l.Nodup := by
  induction l generalizing start with
  | nil => exact List.nodup_nil
  | cons a l ih =>
    refine List.nodup_cons.mpr ⟨fun hmem => ?_, ih h.2⟩
    obtain ⟨pre, post, rfl⟩ := List.append_of_mem hmem
    have hsame := h.2.unique h.2.suffix
    have hlen := congrArg List.length hsame
    rw [List.length_append, List.length_cons] at hlen
    omega

theorem congr (h : Chain next start l) (hsame : ∀ b ∈ l, next' b = next b) :
    Chain next' start l := by
  induction l generalizing start with
  | nil => exact h
  | cons a l ih =>
    refine ⟨h.1, ?_⟩
    rw [hsame a List.mem_cons_self]
    exact ih h.2 fun b hb => hsame b (List.mem_cons_of_mem a hb)

theorem push (h : Chain next start l) (hnext : next' a = start)
    (hsame : ∀ b ∈ l, next' b = next b) : Chain next' (some a) (a :: l) :=
  ⟨rfl, hnext ▸ h.congr hsame⟩

end Chain

end MsgBroker.Lib
