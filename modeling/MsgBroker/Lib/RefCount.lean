import Mathlib.Data.Multiset.Count

/-!
# Reference counts

Cells that are shared by counting: `count a` is the number in the cell `a`, or `none` if there is no
such cell.
-/

set_option autoImplicit false

namespace MsgBroker.Lib

variable {α : Type} [DecidableEq α]

/-- The counts of the cells are the numbers of their references. -/
def Balanced (count : α → Option ℕ) (R : Multiset α) : Prop :=
  ∀ a, count a = if R.count a = 0 then none else some (R.count a)

variable {count : α → Option ℕ} {R : Multiset α} {a : α}

theorem Balanced.of_mem (h : Balanced count R) (ha : a ∈ R) : count a = some (R.count a) := by
  rw [h a, if_neg (Multiset.count_ne_zero.mpr ha)]

theorem Balanced.notMem (h : Balanced count R) (ha : count a = none) : a ∉ R := by
  intro hmem
  rw [h.of_mem hmem] at ha
  cases ha

theorem Balanced.acquire (h : Balanced count R) {count' : α → Option ℕ}
    (hself : count' a = some (R.count a + 1)) (hother : ∀ b, b ≠ a → count' b = count b) :
    Balanced count' (a ::ₘ R) := by
  intro b
  by_cases hb : b = a
  · subst hb
    rw [hself, Multiset.count_cons_self, if_neg (Nat.succ_ne_zero _)]
  · rw [hother b hb, h b, Multiset.count_cons_of_ne hb]

theorem Balanced.release (h : Balanced count (a ::ₘ R)) {count' : α → Option ℕ}
    (hself : count' a = if R.count a = 0 then none else some (R.count a))
    (hother : ∀ b, b ≠ a → count' b = count b) : Balanced count' R := by
  intro b
  by_cases hb : b = a
  · subst hb
    exact hself
  · rw [hother b hb, h b, Multiset.count_cons_of_ne hb]

theorem balanced_zero : Balanced (fun _ : α => none) 0 := fun a => by
  rw [Multiset.count_zero, if_pos rfl]

end MsgBroker.Lib
