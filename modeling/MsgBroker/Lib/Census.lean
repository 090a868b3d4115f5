import Mathlib.Data.Set.Card

/-!
# Counting the members of a family with a property

A family of states, one for each index, and the number of indices whose state has a property.
-/

set_option autoImplicit false

namespace MsgBroker.Lib

variable {ι κ : Type} (Q : ι → κ → Prop)

/-- The indices whose state has the property. -/
def having (f : ι → κ) : Set ι := {i | Q i (f i)}

/-- The number of indices whose state has the property. -/
noncomputable def census (f : ι → κ) : ℕ := (having Q f).ncard

/-- 1 if the proposition holds. -/
def ind (p : Prop) [Decidable p] : ℤ := if p then 1 else 0

@[simp] theorem ind_pos {p : Prop} [Decidable p] (h : p) : ind p = 1 := if_pos h

@[simp] theorem ind_neg {p : Prop} [Decidable p] (h : ¬ p) : ind p = 0 := if_neg h

theorem census_eq_add_ind {f : ι → κ} (hfin : (having Q f).Finite) (i : ι)
    [Decidable (Q i (f i))] :
    (census Q f : ℤ) = (having Q f \ {i}).ncard + ind (Q i (f i)) := by
  by_cases hi : Q i (f i)
  · have hmem : i ∈ having Q f := hi
    rw [ind_pos hi, census, ← Set.ncard_sdiff_singleton_add_one hmem hfin]
    push_cast
    rfl
  · have hmem : i ∉ having Q f := hi
    rw [ind_neg hi, Set.sdiff_singleton_eq_self hmem, census, add_zero]

section Update

variable [DecidableEq ι]

theorem having_update_diff (f : ι → κ) (i : ι) (c : κ) :
    having Q (Function.update f i c) \ {i} = having Q f \ {i} := by
  ext j
  refine and_congr_left fun hj => ?_
  show Q j (Function.update f i c j) ↔ Q j (f j)
  rw [Function.update_of_ne hj]

theorem having_update_finite {f : ι → κ} (hfin : (having Q f).Finite) (i : ι) (c : κ) :
    (having Q (Function.update f i c)).Finite := by
  refine Set.Finite.of_sdiff ?_ (Set.finite_singleton i)
  rw [having_update_diff]
  exact hfin.sdiff

theorem census_update {f : ι → κ} (hfin : (having Q f).Finite) (i : ι) (c : κ)
    [Decidable (Q i (f i))] [Decidable (Q i c)] :
    (census Q (Function.update f i c) : ℤ) = census Q f - ind (Q i (f i)) + ind (Q i c) := by
  have hdec : Decidable (Q i (Function.update f i c i)) := Classical.propDecidable _
  have hnew := census_eq_add_ind Q (having_update_finite Q hfin i c) i
  have hold := census_eq_add_ind Q hfin i
  have hself : ind (Q i (Function.update f i c i)) = ind (Q i c) := by
    simp only [ind, Function.update_self]
  rw [having_update_diff, hself] at hnew
  omega

end Update

theorem having_eq_empty {f : ι → κ} (h : ∀ i, ¬ Q i (f i)) : having Q f = ∅ :=
  Set.eq_empty_of_forall_notMem h

theorem census_eq_zero {f : ι → κ} (h : ∀ i, ¬ Q i (f i)) : census Q f = 0 := by
  rw [census, having_eq_empty Q h, Set.ncard_empty]

end MsgBroker.Lib
