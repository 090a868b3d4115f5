import MsgBroker.Model.Backoff

/-!
# The intervals between reconnects stay in their bounds

Doubling an interval never overflows, and after `n` failed attempts the interval is the first one
doubled `n` times, up to the maximum.
-/

set_option autoImplicit false

namespace MsgBroker.Analysis.Backoff

open Lib.CheckedInt Model

variable {currentIvl ivlMax base : Int32}

/-! ## Doubling -/

theorem toInt_pos (h : 0 < currentIvl) : 0 < currentIvl.toInt := Int32.lt_iff_toInt_lt.mp h

theorem reconnectNextIvl_eq (hcur : 0 < currentIvl) (hmax : 0 < ivlMax) :
    ∃ base, reconnectNextIvl currentIvl ivlMax = some base ∧
      base.toInt = min (2 * currentIvl.toInt) ivlMax.toInt := by
  have hcur' := toInt_pos hcur
  have hmax' := toInt_pos hmax
  have hbound := ivlMax.toInt_lt
  have hnot : ¬ ivlMax ≤ 0 := by
    rw [Int32.le_iff_toInt_le, Int32.toInt_zero]
    omega
  unfold reconnectNextIvl
  rw [if_neg hnot]
  by_cases hge : ivlMax ≤ currentIvl
  · rw [Int32.le_iff_toInt_le] at hge
    refine ⟨ivlMax, if_pos (Int32.le_iff_toInt_le.mpr hge), ?_⟩
    omega
  rw [if_neg hge]
  rw [Int32.le_iff_toInt_le] at hge
  obtain ⟨half, hhalf, hval⟩ : ∃ c, div? ivlMax 2 = some c ∧ c.toInt = ivlMax.toInt / 2 :=
    exists_div?_of_nonneg hmax'.le (by decide)
  rw [hhalf, Option.bind_eq_bind, Option.bind_some]
  by_cases hlt : half < currentIvl
  · rw [if_pos hlt]
    rw [Int32.lt_iff_toInt_lt] at hlt
    refine ⟨ivlMax, rfl, ?_⟩
    omega
  · rw [if_neg hlt]
    rw [Int32.lt_iff_toInt_lt] at hlt
    obtain ⟨double, hdouble, hval'⟩ :
        ∃ c, mul? currentIvl 2 = some c ∧ c.toInt = currentIvl.toInt * 2 :=
      exists_ofInt? (x := currentIvl.toInt * 2) (by omega) (by omega)
    refine ⟨double, hdouble, ?_⟩
    omega

/-- The interval after any number of failed attempts: the first one, doubled each time, up to the
maximum.  SRC: sleep.c:55-72, transport/tcp/ctcp.c:43-64 -/
theorem reconnectIvl_eq {ivl : Int32} (hivl : 0 < ivl) (hmax : 0 < ivlMax) (n : ℕ) :
    ∃ c, reconnectIvl ivl ivlMax n = some c ∧ c.toInt = min (2 ^ n * ivl.toInt) ivlMax.toInt := by
  have hivl' := toInt_pos hivl
  have hmax' := toInt_pos hmax
  induction n with
  | zero =>
    refine ⟨_, rfl, ?_⟩
    unfold reconnectCapIvl
    rw [pow_zero, one_mul]
    by_cases hlt : ivlMax < ivl
    · rw [if_pos ⟨hmax, hlt⟩]
      rw [Int32.lt_iff_toInt_lt] at hlt
      omega
    · rw [if_neg fun h => hlt h.2]
      rw [Int32.lt_iff_toInt_lt] at hlt
      omega
  | succ n ih =>
    obtain ⟨c, hc, hval⟩ := ih
    have hpow : 0 < 2 ^ n * ivl.toInt := Int.mul_pos (Int.pow_pos (by decide)) hivl'
    have hpos : 0 < c := by
      rw [Int32.lt_iff_toInt_lt, hval, Int32.toInt_zero]
      omega
    obtain ⟨d, hd, hval'⟩ := reconnectNextIvl_eq hpos hmax
    refine ⟨d, ?_, ?_⟩
    · rw [reconnectIvl, hc, Option.bind_eq_bind, Option.bind_some, hd]
    · rw [hval', hval, pow_succ', mul_assoc]
      omega

theorem reconnectIvl_eq_capped : ∃ c, reconnectIvl 100 1000 5 = some c ∧ c.toInt = 1000 := by
  obtain ⟨c, hc, hval⟩ := reconnectIvl_eq (by decide : (0 : Int32) < 100)
    (by decide : (0 : Int32) < 1000) 5
  exact ⟨c, hc, hval.trans (by decide)⟩

/-! ## The random share -/

theorem band_eq (hpos : 0 < base.toInt) (hle : base.toInt ≤ (2 ^ 31 - 1) / 25) :
    ∃ p band, mul? base 25 = some p ∧ div? p 100 = some band ∧
      (if band < 1 then (1 : Int32) else band).toInt = max 1 (base.toInt / 4) := by
  obtain ⟨p, hp, hpval⟩ : ∃ c, mul? base 25 = some c ∧ c.toInt = base.toInt * 25 :=
    exists_ofInt? (x := base.toInt * 25) (by omega) (by omega)
  obtain ⟨band, hband, hval⟩ : ∃ c, div? p 100 = some c ∧ c.toInt = p.toInt / 100 :=
    exists_div?_of_nonneg (by omega) (by decide)
  refine ⟨p, band, hp, hband, ?_⟩
  have hone : (1 : Int32).toInt = 1 := rfl
  by_cases hlt : band < 1
  · rw [if_pos hlt, hone]
    rw [Int32.lt_iff_toInt_lt, hone] at hlt
    omega
  · rw [if_neg hlt]
    rw [Int32.lt_iff_toInt_lt, hone] at hlt
    omega

theorem draw_eq {width : Int32} (hwidth : 0 < width.toInt) (x : UInt32) :
    0 ≤ (x % width.toUInt32).toInt32.toInt ∧ (x % width.toUInt32).toInt32.toInt < width.toInt := by
  have hconv := toNat_toUInt32 hwidth.le
  have hlt : (x % width.toUInt32).toNat < width.toUInt32.toNat := by
    rw [UInt32.toNat_mod]
    apply Nat.mod_lt
    omega
  have hbound := width.toInt_lt
  rw [toInt_toInt32 (by omega)]
  omega

/-- The interval is within a quarter of the base (but at least 1), it is not above the maximum, and
it is not negative. -/
def Spread (base ivlMax result : ℤ) : Prop :=
  base - max 1 (base / 4) ≤ result ∧ result ≤ min ivlMax (base + max 1 (base / 4)) ∧ 0 ≤ result

theorem jittered_spread (hpos : 0 < base.toInt) (hle : base.toInt ≤ (2 ^ 31 - 1) / 25)
    (hmax : base.toInt ≤ ivlMax.toInt) (x : UInt32) :
    ∃ result, jittered base ivlMax x = some result ∧
      Spread base.toInt ivlMax.toInt result.toInt := by
  obtain ⟨p, band₀, hp, hband₀, hband⟩ := band_eq hpos hle
  obtain ⟨band, hdef⟩ : ∃ band, band = if band₀ < 1 then (1 : Int32) else band₀ := ⟨_, rfl⟩
  rw [← hdef] at hband
  have hzero : (0 : Int32).toInt = 0 := rfl
  obtain ⟨double, hdouble, hdoubleVal⟩ : ∃ c, mul? band 2 = some c ∧ c.toInt = band.toInt * 2 :=
    exists_ofInt? (x := band.toInt * 2) (by omega) (by omega)
  obtain ⟨width, hwidth, hwidthVal⟩ : ∃ c, add? double 1 = some c ∧ c.toInt = double.toInt + 1 :=
    exists_ofInt? (x := double.toInt + 1) (by omega) (by omega)
  obtain ⟨hdrawLo, hdrawHi⟩ := draw_eq (by omega : 0 < width.toInt) x
  obtain ⟨jitter, hjitter, hjitterVal⟩ : ∃ c, sub? (x % width.toUInt32).toInt32 band = some c ∧
      c.toInt = (x % width.toUInt32).toInt32.toInt - band.toInt :=
    exists_ofInt? (by omega) (by omega)
  obtain ⟨sum, hsum, hsumVal⟩ : ∃ c, add? base jitter = some c ∧
      c.toInt = base.toInt + jitter.toInt :=
    exists_ofInt? (by omega) (by omega)
  -- the sum is not negative, so only the maximum can cut it off
  have hnonneg : ¬ sum < 0 := by
    rw [Int32.lt_iff_toInt_lt, hzero]
    omega
  have hmaxPos : 0 < ivlMax := by
    rw [Int32.lt_iff_toInt_lt, hzero]
    omega
  have heval : jittered base ivlMax x =
      some (if 0 < ivlMax ∧ ivlMax < sum then ivlMax else sum) := by
    simp only [jittered, hp, hband₀, ← hdef, hdouble, hwidth, hjitter, hsum, if_neg hnonneg,
      Option.bind_eq_bind, Option.bind_some, Option.pure_def]
  refine ⟨_, heval, ?_⟩
  unfold Spread
  by_cases hcut : ivlMax < sum
  · rw [if_pos ⟨hmaxPos, hcut⟩]
    rw [Int32.lt_iff_toInt_lt] at hcut
    omega
  · rw [if_neg fun h => hcut h.2]
    rw [Int32.lt_iff_toInt_lt] at hcut
    omega

theorem jittered_overflow (hlt : (2 ^ 31 - 1) / 25 < base.toInt) (x : UInt32) :
    jittered base ivlMax x = none := by
  have htwentyFive : (25 : Int32).toInt = 25 := rfl
  have hproduct : mul? base 25 = none := by
    unfold mul?
    rw [htwentyFive]
    apply ofInt?_eq_none
    omega
  simp only [jittered, hproduct, Option.bind_eq_bind, Option.bind_none]

/-- For any positive interval and maximum, any state of the random numbers and any reading of the
clock, `mb_reconnect_next_ivl_jittered` goes through without signed overflow and returns an interval
within its spread, if and only if the interval before the share is at most `INT_MAX / 25`.
SRC: sleep.c:62-131 -/
theorem jittered_spread_iff (hcur : 0 < currentIvl) (hmax : 0 < ivlMax) (state : UInt32)
    (us : UInt64) :
    (∃ result state', reconnectNextIvlJittered currentIvl ivlMax state us = some (result, state') ∧
        Spread (min (2 * currentIvl.toInt) ivlMax.toInt) ivlMax.toInt result.toInt) ↔
      min (2 * currentIvl.toInt) ivlMax.toInt ≤ (2 ^ 31 - 1) / 25 := by
  obtain ⟨base, hbase, hval⟩ := reconnectNextIvl_eq hcur hmax
  have hcur' := toInt_pos hcur
  have hmax' := toInt_pos hmax
  have hpos : ¬ base ≤ 0 := by
    rw [Int32.le_iff_toInt_le, Int32.toInt_zero]
    omega
  have heval : reconnectNextIvlJittered currentIvl ivlMax state us =
      (jittered base ivlMax (jitterNext state us)).map fun r => (r, jitterNext state us) := by
    simp only [reconnectNextIvlJittered, hbase, if_neg hpos, Option.bind_eq_bind, Option.bind_some,
      Option.pure_def, Option.map_eq_bind, Function.comp_def]
  rw [← hval, heval]
  constructor
  · rintro ⟨result, state', hresult, -⟩
    by_contra hlt
    rw [jittered_overflow (by omega)] at hresult
    cases hresult
  · intro hle
    have hbound : base.toInt ≤ ivlMax.toInt := by omega
    obtain ⟨result, hresult, hspread⟩ :=
      jittered_spread (by omega) hle hbound (jitterNext state us)
    refine ⟨result, jitterNext state us, ?_, hspread⟩
    rw [hresult, Option.map_some]

/-- An interval of one second and a maximum of one minute. -/
theorem jittered_spread_iff_second : ∃ result state',
    reconnectNextIvlJittered 1000 60000 1 0 = some (result, state') ∧
      Spread 2000 60000 result.toInt :=
  (jittered_spread_iff (by decide) (by decide) 1 0).mpr (by decide)

/-- **A maximum of one day.**  From half a day on, the product overflows, whatever the random
numbers are. -/
theorem jittered_overflows_at_day :
    reconnectNextIvl 43200000 86400000 = some 86400000 ∧
      ∀ state us, reconnectNextIvlJittered 43200000 86400000 state us = none := by
  have hnext : reconnectNextIvl 43200000 86400000 = some 86400000 := by decide
  refine ⟨hnext, ?_⟩
  intro state us
  have hpos : ¬ (86400000 : Int32) ≤ 0 := by decide
  have hnone : jittered 86400000 86400000 (jitterNext state us) = none :=
    jittered_overflow (by decide) _
  simp only [reconnectNextIvlJittered, hnext, if_neg hpos, hnone, Option.bind_eq_bind,
    Option.bind_some, Option.bind_none]

end MsgBroker.Analysis.Backoff
