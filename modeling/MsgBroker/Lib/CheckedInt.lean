import Mathlib.Algebra.Order.Ring.Int
import Mathlib.Tactic.Common

/-!
# Signed arithmetic that must not overflow

In C the result of an operation on `int` is the exact one where an `int` can hold it, and undefined
elsewhere.
-/

set_option autoImplicit false

namespace MsgBroker.Lib.CheckedInt

/-- The `int` with this value, if there is one. -/
def ofInt? (x : ℤ) : Option Int32 :=
  if -2 ^ 31 ≤ x ∧ x < 2 ^ 31 then some (Int32.ofInt x) else none

def add? (a b : Int32) : Option Int32 := ofInt? (a.toInt + b.toInt)

def sub? (a b : Int32) : Option Int32 := ofInt? (a.toInt - b.toInt)

def mul? (a b : Int32) : Option Int32 := ofInt? (a.toInt * b.toInt)

/-- Division rounds towards zero; a division by zero is undefined too. -/
def div? (a b : Int32) : Option Int32 :=
  if b = 0 then none else ofInt? (a.toInt.tdiv b.toInt)

variable {x : ℤ} {a b c : Int32}

theorem ofInt?_eq_some_iff : ofInt? x = some c ↔ c.toInt = x := by
  unfold ofInt?
  constructor
  · intro h
    split at h
    next hx =>
      obtain rfl := Option.some.inj h
      exact Int32.toInt_ofInt_of_le hx.1 hx.2
    · cases h
  · rintro rfl
    rw [if_pos ⟨c.le_toInt, c.toInt_lt⟩, Int32.ofInt_toInt]

theorem exists_ofInt? (hlo : -2 ^ 31 ≤ x) (hhi : x < 2 ^ 31) :
    ∃ c, ofInt? x = some c ∧ c.toInt = x := by
  have hval : (Int32.ofInt x).toInt = x := Int32.toInt_ofInt_of_le hlo hhi
  exact ⟨Int32.ofInt x, ofInt?_eq_some_iff.mpr hval, hval⟩

theorem ofInt?_eq_none (h : 2 ^ 31 ≤ x) : ofInt? x = none := by
  unfold ofInt?
  rw [if_neg (by omega)]

theorem exists_div?_of_nonneg (ha : 0 ≤ a.toInt) (hb : 0 < b.toInt) :
    ∃ c, div? a b = some c ∧ c.toInt = a.toInt / b.toInt := by
  have hne : b ≠ 0 := by
    rintro rfl
    exact absurd hb (by decide)
  have hlo : 0 ≤ a.toInt / b.toInt := Int.ediv_nonneg ha hb.le
  have hle : a.toInt / b.toInt ≤ a.toInt := Int.ediv_le_self b.toInt ha
  have hlt := a.toInt_lt
  rw [div?, if_neg hne, Int.tdiv_eq_ediv_of_nonneg ha]
  exact exists_ofInt? (by omega) (by omega)

/-! ## Conversions -/

theorem toInt_toInt32 {u : UInt32} (h : u.toNat < 2 ^ 31) : u.toInt32.toInt = u.toNat := by
  show u.toBitVec.toInt = u.toBitVec.toNat
  apply BitVec.toInt_eq_toNat_of_lt
  show 2 * u.toNat < 2 ^ 32
  omega

theorem toNat_toUInt32 (h : 0 ≤ a.toInt) : (a.toUInt32.toNat : ℤ) = a.toInt := by
  show (a.toBitVec.toNat : ℤ) = a.toBitVec.toInt
  have hsign : 0 ≤ a.toBitVec.toInt := h
  rw [BitVec.toInt_eq_toNat_cond] at hsign ⊢
  have hlt := a.toBitVec.isLt
  split at hsign
  next hsmall => rw [if_pos hsmall]
  next hlarge =>
    rw [if_neg hlarge]
    omega

end MsgBroker.Lib.CheckedInt
