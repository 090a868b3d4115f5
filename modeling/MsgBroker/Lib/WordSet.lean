import Mathlib.Data.Finset.Card
import Mathlib.Data.Finset.Preimage
import Mathlib.Data.List.Infix

/-!
# Finite sets of words, letter by letter

A finite set of words is known from whether it has the empty word and from the sets of words that
follow each first letter.
-/

set_option autoImplicit false

namespace MsgBroker.Lib.WordSet

variable {α : Type}

/-- What follows the letter `a` in the words of `S` that start with it. -/
noncomputable def tails (a : α) (S : Finset (List α)) : Finset (List α) :=
  S.preimage (List.cons a) (List.cons_injective.injOn)

/-- Some word of `S` starts `m`. -/
def Starts (S : Finset (List α)) (m : List α) : Prop := ∃ w ∈ S, w <+: m

@[simp] theorem mem_tails {a : α} {S : Finset (List α)} {w : List α} :
    w ∈ tails a S ↔ a :: w ∈ S := Finset.mem_preimage

@[simp] theorem tails_empty (a : α) : tails a (∅ : Finset (List α)) = ∅ := by
  ext w
  simp

theorem card_tails_le (a : α) (S : Finset (List α)) : (tails a S).card ≤ S.card :=
  Finset.card_le_card_of_injOn (List.cons a) (fun _ hw => mem_tails.mp hw)
    List.cons_injective.injOn

theorem starts_nil {S : Finset (List α)} : Starts S [] ↔ [] ∈ S := by
  constructor
  · rintro ⟨w, hw, hpre⟩
    rwa [List.prefix_nil.mp hpre] at hw
  · exact fun h => ⟨[], h, List.nil_prefix⟩

theorem starts_cons {S : Finset (List α)} {a : α} {m : List α} :
    Starts S (a :: m) ↔ [] ∈ S ∨ Starts (tails a S) m := by
  constructor
  · rintro ⟨w, hw, hpre⟩
    cases w with
    | nil => exact Or.inl hw
    | cons b w =>
      obtain ⟨rfl, hpre'⟩ := List.cons_prefix_cons.mp hpre
      exact Or.inr ⟨w, mem_tails.mpr hw, hpre'⟩
  · rintro (h | ⟨w, hw, hpre⟩)
    · exact ⟨[], h, List.nil_prefix⟩
    · exact ⟨a :: w, mem_tails.mp hw, List.cons_prefix_cons.mpr ⟨rfl, hpre⟩⟩

theorem not_starts_empty (m : List α) : ¬Starts (∅ : Finset (List α)) m :=
  fun ⟨_, hw, _⟩ => Finset.notMem_empty _ hw

section Update

variable [DecidableEq α]

@[simp] theorem tails_insert_nil (a : α) (S : Finset (List α)) :
    tails a (insert [] S) = tails a S := by
  ext w
  simp

@[simp] theorem tails_erase_nil (a : α) (S : Finset (List α)) :
    tails a (S.erase []) = tails a S := by
  ext w
  simp

@[simp] theorem tails_insert_self (a : α) (w : List α) (S : Finset (List α)) :
    tails a (insert (a :: w) S) = insert w (tails a S) := by
  ext v
  simp

@[simp] theorem tails_erase_self (a : α) (w : List α) (S : Finset (List α)) :
    tails a (S.erase (a :: w)) = (tails a S).erase w := by
  ext v
  simp

theorem tails_insert_of_ne {a b : α} (h : b ≠ a) (w : List α) (S : Finset (List α)) :
    tails b (insert (a :: w) S) = tails b S := by
  ext v
  simp [h]

theorem tails_erase_of_ne {a b : α} (h : b ≠ a) (w : List α) (S : Finset (List α)) :
    tails b (S.erase (a :: w)) = tails b S := by
  ext v
  simp [h]

end Update

end MsgBroker.Lib.WordSet
