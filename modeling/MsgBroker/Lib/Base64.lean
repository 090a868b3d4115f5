import Mathlib.Algebra.GroupWithZero.Nat
import Mathlib.Data.List.Basic
import Mathlib.Tactic.Common

/-!
# The base 64 encoding

RFC 4648, section 4: 24-bit groups of three bytes as four characters of a 64-character alphabet,
with a last group of one or two bytes padded by `=`.
-/

set_option autoImplicit false

namespace MsgBroker.Lib

/-- The character of a 6-bit value. -/
def b64Char (n : ℕ) : UInt8 :=
  UInt8.ofNat
    (if n < 26 then 65 + n
      else if n < 52 then 97 + (n - 26)
      else if n < 62 then 48 + (n - 52)
      else if n = 62 then 43
      else 47)

/-- The padding character `=`. -/
def b64Pad : UInt8 := 61

/-- The 24-bit value of a group. -/
def b64Group (a b c : UInt8) : ℕ := a.toNat * 2 ^ 16 + b.toNat * 2 ^ 8 + c.toNat

/-- The character for the six bits of a group value above the lowest `6 * i` bits. -/
def b64At (v i : ℕ) : UInt8 := b64Char (v / 2 ^ (6 * i) % 64)

/-- The encoding. -/
def base64 : List UInt8 → List UInt8
  | [] => []
  | [a] =>
    let v := b64Group a 0 0
    [b64At v 3, b64At v 2, b64Pad, b64Pad]
  | [a, b] =>
    let v := b64Group a b 0
    [b64At v 3, b64At v 2, b64At v 1, b64Pad]
  | a :: b :: c :: rest =>
    let v := b64Group a b c
    b64At v 3 :: b64At v 2 :: b64At v 1 :: b64At v 0 :: base64 rest

theorem length_base64 (bytes : List UInt8) :
    (base64 bytes).length = 4 * ((bytes.length + 2) / 3) := by
  induction bytes using base64.induct with
  | case1 => rfl
  | case2 a => simp [base64]
  | case3 a b => simp [base64]
  | case4 a b c rest ih =>
    simp only [base64, List.length_cons, ih]
    omega

theorem forall_mem_base64 {P : UInt8 → Prop} (hchar : ∀ n < 64, P (b64Char n)) (hpad : P b64Pad)
    (bytes : List UInt8) : ∀ c ∈ base64 bytes, P c := by
  have hat : ∀ v i, P (b64At v i) := fun v i => hchar _ (Nat.mod_lt _ (by decide))
  induction bytes using base64.induct with
  | case1 => simp [base64]
  | case2 a => simp [base64, hat, hpad]
  | case3 a b => simp [base64, hat, hpad]
  | case4 a b c rest ih => simpa [base64, hat] using ih

/-! ## Different strings have different encodings -/

/-- The 6-bit value of a character. -/
def b64Value (c : UInt8) : ℕ :=
  if 97 ≤ c then c.toNat - 97 + 26
  else if 65 ≤ c then c.toNat - 65
  else if 48 ≤ c then c.toNat - 48 + 52
  else if c = 43 then 62
  else 63

theorem b64Value_b64Char : ∀ n < 64, b64Value (b64Char n) = n := by decide

theorem b64Char_ne_pad : ∀ n < 64, b64Char n ≠ b64Pad := by decide

theorem b64At_inj {v w i : ℕ} (h : b64At v i = b64At w i) :
    v / 2 ^ (6 * i) % 64 = w / 2 ^ (6 * i) % 64 := by
  have hv := b64Value_b64Char _ (Nat.mod_lt (v / 2 ^ (6 * i)) (by decide : 64 > 0))
  have hw := b64Value_b64Char _ (Nat.mod_lt (w / 2 ^ (6 * i)) (by decide : 64 > 0))
  rw [← hv, ← hw]
  exact congrArg b64Value h

theorem b64At_ne_pad (v i : ℕ) : b64At v i ≠ b64Pad :=
  b64Char_ne_pad _ (Nat.mod_lt _ (by decide))

theorem b64Group_inj {a b c a' b' c' : UInt8}
    (h₃ : b64At (b64Group a b c) 3 = b64At (b64Group a' b' c') 3)
    (h₂ : b64At (b64Group a b c) 2 = b64At (b64Group a' b' c') 2) :
    a = a' ∧
      (b64At (b64Group a b c) 1 = b64At (b64Group a' b' c') 1 → b = b' ∧
        (b64At (b64Group a b c) 0 = b64At (b64Group a' b' c') 0 → c = c')) := by
  have ha := a.toNat_lt
  have hb := b.toNat_lt
  have hc := c.toNat_lt
  have ha' := a'.toNat_lt
  have hb' := b'.toNat_lt
  have hc' := c'.toNat_lt
  have e₃ := b64At_inj h₃
  have e₂ := b64At_inj h₂
  simp only [b64Group] at e₃ e₂
  refine ⟨UInt8.toNat_inj.mp (by omega), fun h₁ => ?_⟩
  have e₁ := b64At_inj h₁
  simp only [b64Group] at e₁
  refine ⟨UInt8.toNat_inj.mp (by omega), fun h₀ => ?_⟩
  have e₀ := b64At_inj h₀
  simp only [b64Group] at e₀
  exact UInt8.toNat_inj.mp (by omega)

theorem base64_inj {x y : List UInt8} (h : base64 x = base64 y) : x = y := by
  induction x using base64.induct generalizing y with
  | case1 =>
    rcases y with _ | ⟨a', _ | ⟨b', _ | ⟨c', rest'⟩⟩⟩
    · rfl
    all_goals simp [base64] at h
  | case2 a =>
    rcases y with _ | ⟨a', _ | ⟨b', _ | ⟨c', rest'⟩⟩⟩
    · simp [base64] at h
    · simp only [base64, List.cons.injEq] at h
      rw [(b64Group_inj h.1 h.2.1).1]
    all_goals
      simp only [base64, List.cons.injEq] at h
      exact absurd h.2.2.1.symm (b64At_ne_pad _ _)
  | case3 a b =>
    rcases y with _ | ⟨a', _ | ⟨b', _ | ⟨c', rest'⟩⟩⟩
    · simp [base64] at h
    · simp only [base64, List.cons.injEq] at h
      exact absurd h.2.2.1 (b64At_ne_pad _ _)
    · simp only [base64, List.cons.injEq] at h
      obtain ⟨rfl, hrest⟩ := b64Group_inj h.1 h.2.1
      rw [(hrest h.2.2.1).1]
    · simp only [base64, List.cons.injEq] at h
      exact absurd h.2.2.2.1.symm (b64At_ne_pad _ _)
  | case4 a b c rest ih =>
    rcases y with _ | ⟨a', _ | ⟨b', _ | ⟨c', rest'⟩⟩⟩
    · simp [base64] at h
    · simp only [base64, List.cons.injEq] at h
      exact absurd h.2.2.1 (b64At_ne_pad _ _)
    · simp only [base64, List.cons.injEq] at h
      exact absurd h.2.2.2.1 (b64At_ne_pad _ _)
    · simp only [base64, List.cons.injEq] at h
      obtain ⟨h₃, h₂, h₁, h₀, hrest⟩ := h
      obtain ⟨rfl, hb⟩ := b64Group_inj h₃ h₂
      obtain ⟨rfl, hc⟩ := hb h₁
      rw [hc h₀, ih hrest]

end MsgBroker.Lib
