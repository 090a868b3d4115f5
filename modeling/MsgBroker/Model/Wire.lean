import Mathlib.Data.Nat.Bitwise
import Mathlib.Tactic.Common

/-!
# Integers on the wire

`src/utils/wire.h`: unsigned integers in network byte order.
-/

set_option autoImplicit false

namespace MsgBroker.Model

/-- `mb_wire_put_uint32`.  SRC: wire.h:13-19 -/
def putUint32 (val : ℕ) : List UInt8 :=
  [UInt8.ofNat ((val >>> 24) &&& 0xff), UInt8.ofNat ((val >>> 16) &&& 0xff),
    UInt8.ofNat ((val >>> 8) &&& 0xff), UInt8.ofNat (val &&& 0xff)]

/-- `mb_wire_get_uint32`; a missing byte of the buffer reads as `0`.  SRC: wire.h:38-42 -/
def getUint32 (buf : List UInt8) : ℕ :=
  ((buf.getD 0 0).toNat <<< 24) ||| ((buf.getD 1 0).toNat <<< 16) |||
    ((buf.getD 2 0).toNat <<< 8) ||| (buf.getD 3 0).toNat

@[simp] theorem length_putUint32 (val : ℕ) : (putUint32 val).length = 4 := rfl

theorem getUint32_eq (b₀ b₁ b₂ b₃ : UInt8) :
    getUint32 [b₀, b₁, b₂, b₃] =
      b₀.toNat * 2 ^ 24 + b₁.toNat * 2 ^ 16 + b₂.toNat * 2 ^ 8 + b₃.toNat := by
  have h₁ := b₁.toNat_lt
  have h₂ := b₂.toNat_lt
  have h₃ := b₃.toNat_lt
  -- the shifted bytes do not overlap, so each `|` is a sum
  have hor : ∀ (a b i : ℕ), b < 2 ^ i → a <<< i ||| b = a * 2 ^ i + b := by
    intro a b i hb
    rw [← Nat.shiftLeft_add_eq_or_of_lt hb, Nat.shiftLeft_eq]
  have hassoc : getUint32 [b₀, b₁, b₂, b₃] =
      b₀.toNat <<< 24 ||| (b₁.toNat <<< 16 ||| (b₂.toNat <<< 8 ||| b₃.toNat)) := by
    simp [getUint32, Nat.or_assoc]
  rw [hassoc, hor b₂.toNat _ 8 (by omega), hor b₁.toNat _ 16 (by omega),
    hor b₀.toNat _ 24 (by omega)]
  omega

theorem getUint32_putUint32 (val : ℕ) (h : val < 2 ^ 32) : getUint32 (putUint32 val) = val := by
  have hmask : ∀ x : ℕ, x &&& 0xff = x % 2 ^ 8 := fun x => Nat.and_two_pow_sub_one_eq_mod x 8
  unfold putUint32
  rw [getUint32_eq]
  simp only [hmask, Nat.shiftRight_eq_div_pow, UInt8.toNat_ofNat']
  omega

end MsgBroker.Model
