import Mathlib.Algebra.GroupWithZero.Nat
import Mathlib.Data.List.Basic
import Mathlib.Data.List.TakeWhile
import Mathlib.Tactic.Common

/-!
# Strings of C

A string is the list of its bytes in front of the terminating NUL.
-/

set_option autoImplicit false

namespace MsgBroker.Lib

/-- A string of C: no byte of it is NUL. -/
structure CString where
  bytes : List UInt8
  noNul : 0 ∉ bytes
deriving DecidableEq

/-- The bytes of an ASCII text. -/
def ascii (s : String) : List UInt8 := s.toList.map fun c => UInt8.ofNat c.toNat

/-- The string at the start of a buffer. -/
def cstr (buf : List UInt8) : List UInt8 := buf.takeWhile (· ≠ 0)

variable {c : UInt8} {needle s r : List UInt8}

/-! ## Searching -/

/-- The first occurrence of a string. -/
def strstr (needle : List UInt8) : List UInt8 → Option (List UInt8)
  | [] => if needle = [] then some [] else none
  | d :: s => if needle <+: d :: s then some (d :: s) else strstr needle s

/-- The first occurrence of a byte. -/
def strchr (c : UInt8) : List UInt8 → Option (List UInt8)
  | [] => none
  | d :: s => if d = c then some (d :: s) else strchr c s

/-- The last occurrence of a byte. -/
def strrchr (c : UInt8) : List UInt8 → Option (List UInt8)
  | [] => none
  | d :: s => (strrchr c s).or (if d = c then some (d :: s) else none)

/-- `a` stands in front of the first occurrence of `needle`, which is at the start of `r`. -/
structure FirstAt (needle s a r : List UInt8) : Prop where
  split : s = a ++ r
  here : needle <+: r
  first : ∀ a' r', s = a' ++ r' → needle <+: r' → a.length ≤ a'.length

variable {a l : List UInt8}

theorem FirstAt.unique {a' r' : List UInt8} (h : FirstAt needle s a r)
    (h' : FirstAt needle s a' r') : a = a' ∧ r = r' := by
  have hlen : a.length = a'.length :=
    Nat.le_antisymm (h.first a' r' h'.split h'.here) (h'.first a r h.split h.here)
  exact List.append_inj (h.split.symm.trans h'.split) hlen

theorem firstAt_of_here (hhere : needle <+: s) :
    FirstAt needle s a r ↔ a = [] ∧ s = r := by
  constructor
  · intro h
    have hzero := h.first [] s rfl hhere
    obtain rfl : a = [] := List.length_eq_zero_iff.mp (Nat.le_zero.mp hzero)
    exact ⟨rfl, h.split⟩
  · rintro ⟨rfl, rfl⟩
    exact ⟨rfl, hhere, fun _ _ _ _ => Nat.zero_le _⟩

theorem firstAt_cons_iff {d : UInt8} (hhere : ¬ needle <+: d :: s) :
    FirstAt needle (d :: s) a r ↔ ∃ a', a = d :: a' ∧ FirstAt needle s a' r := by
  constructor
  · intro h
    cases a with
    | nil =>
      have hr : d :: s = r := h.split
      exact absurd (hr ▸ h.here) hhere
    | cons x a =>
      obtain ⟨rfl, hsplit⟩ := List.cons.inj h.split
      refine ⟨a, rfl, hsplit, h.here, ?_⟩
      intro a' r' hsplit' hr'
      have hle := h.first (d :: a') r' (by rw [hsplit']; rfl) hr'
      exact Nat.le_of_succ_le_succ hle
  · rintro ⟨a, rfl, h⟩
    refine ⟨by rw [h.split]; rfl, h.here, ?_⟩
    intro a' r' hsplit hr'
    cases a' with
    | nil =>
      have hr : d :: s = r' := hsplit
      exact absurd (hr ▸ hr') hhere
    | cons x a' => exact Nat.succ_le_succ (h.first a' r' (List.cons.inj hsplit).2 hr')

theorem prefix_of_prefix_append_cons (hc : c ∉ needle)
    (h : needle <+: l ++ c :: s) : needle <+: l := by
  obtain ⟨t, ht⟩ := h
  rcases List.append_eq_append_iff.mp ht with ⟨x, rfl, -⟩ | ⟨x, rfl, hx⟩
  · exact List.prefix_append _ _
  · cases x with
    | nil => simp
    | cons d x =>
      obtain ⟨rfl, -⟩ := List.cons.inj hx
      exact absurd (by simp) hc

theorem infix_or_infix_of_append_cons (hc : c ∉ needle)
    (h : needle <:+: l ++ c :: s) : needle <:+: l ∨ needle <:+: s := by
  induction l with
  | nil =>
    rcases List.infix_cons_iff.mp h with hp | hs
    · exact Or.inl (prefix_of_prefix_append_cons (l := []) hc hp).isInfix
    · exact Or.inr hs
  | cons d l ih =>
    rcases List.infix_cons_iff.mp h with hp | hs
    · exact Or.inl (prefix_of_prefix_append_cons (l := d :: l) hc hp).isInfix
    · exact (ih hs).imp_left fun hl => List.infix_cons_iff.mpr (Or.inr hl)

theorem FirstAt.skip (hc : c ∉ needle) (hl : ¬ needle <:+: l)
    (h : FirstAt needle s a r) : FirstAt needle (l ++ c :: s) (l ++ c :: a) r := by
  induction l with
  | nil =>
    refine (firstAt_cons_iff fun hp => hl ?_).mpr ⟨a, rfl, h⟩
    exact (prefix_of_prefix_append_cons (l := []) hc hp).isInfix
  | cons d l ih =>
    refine (firstAt_cons_iff fun hp => hl ?_).mpr
      ⟨_, rfl, ih fun hi => hl (List.infix_cons_iff.mpr (Or.inr hi))⟩
    exact (prefix_of_prefix_append_cons (l := d :: l) hc hp).isInfix

theorem strstr_eq_some_iff : strstr needle s = some r ↔ ∃ a, FirstAt needle s a r := by
  induction s generalizing r with
  | nil =>
    rw [strstr]
    split
    · rename_i hneedle
      have hhere : needle <+: [] := List.prefix_nil.mpr hneedle
      simp only [firstAt_of_here hhere, exists_eq_left, Option.some.injEq]
    · rename_i hneedle
      simp only [reduceCtorEq, false_iff]
      rintro ⟨a, h⟩
      have hr := h.here
      rw [(List.append_eq_nil_iff.mp h.split.symm).2] at hr
      exact hneedle (List.prefix_nil.mp hr)
  | cons d s ih =>
    rw [strstr]
    split
    · rename_i hhere
      simp only [firstAt_of_here hhere, exists_eq_left, Option.some.injEq]
    · rename_i hhere
      rw [ih]
      simp only [firstAt_cons_iff hhere]
      exact ⟨fun ⟨a, h⟩ => ⟨d :: a, a, rfl, h⟩, fun ⟨_, a, _, h⟩ => ⟨a, h⟩⟩

theorem strchr_eq_some_iff :
    strchr c s = some r ↔ ∃ a t, r = c :: t ∧ s = a ++ c :: t ∧ c ∉ a := by
  induction s with
  | nil => simp [strchr]
  | cons d s ih =>
    rw [strchr]
    split
    · rename_i hd
      subst hd
      constructor
      · intro h
        cases h
        exact ⟨[], s, rfl, rfl, List.not_mem_nil⟩
      · rintro ⟨a, t, rfl, hsplit, ha⟩
        cases a with
        | nil => rw [hsplit]; rfl
        | cons x a =>
          obtain ⟨rfl, -⟩ := List.cons.inj hsplit
          exact absurd List.mem_cons_self ha
    · rename_i hd
      rw [ih]
      constructor
      · rintro ⟨a, t, hr, rfl, ha⟩
        exact ⟨d :: a, t, hr, rfl, List.not_mem_cons_of_ne_of_not_mem (Ne.symm hd) ha⟩
      · rintro ⟨a, t, hr, hsplit, ha⟩
        cases a with
        | nil => exact absurd (List.cons.inj hsplit).1 hd
        | cons x a =>
          exact ⟨a, t, hr, (List.cons.inj hsplit).2, List.not_mem_of_not_mem_cons ha⟩

theorem strrchr_eq_none_iff : strrchr c s = none ↔ c ∉ s := by
  induction s with
  | nil => simp [strrchr]
  | cons d s ih =>
    rw [strrchr, Option.or_eq_none_iff, ih, List.mem_cons, not_or, and_comm]
    refine and_congr_left fun _ => ?_
    rw [ite_eq_right_iff]
    constructor
    · intro h hc
      cases h hc.symm
    · intro h hc
      exact absurd hc.symm h

theorem strrchr_eq_some_iff :
    strrchr c s = some r ↔ ∃ a t, r = c :: t ∧ s = a ++ c :: t ∧ c ∉ t := by
  induction s with
  | nil => simp [strrchr]
  | cons d s ih =>
    rw [strrchr, Option.or_eq_some_iff, ih, strrchr_eq_none_iff]
    constructor
    · rintro (⟨a, t, hr, rfl, ht⟩ | ⟨hs, h⟩)
      · exact ⟨d :: a, t, hr, rfl, ht⟩
      · split at h
        · rename_i hd
          cases h
          subst hd
          exact ⟨[], s, rfl, rfl, hs⟩
        · cases h
    · rintro ⟨a, t, hr, hsplit, ht⟩
      cases a with
      | nil =>
        obtain ⟨rfl, rfl⟩ := List.cons.inj hsplit
        exact Or.inr ⟨ht, by rw [if_pos rfl, hr]⟩
      | cons x a => exact Or.inl ⟨a, t, hr, (List.cons.inj hsplit).2, ht⟩

/-! ## Numbers -/

/-- `isspace` in the "C" locale. -/
def isSpace (b : UInt8) : Bool := b = 32 || (9 ≤ b && b ≤ 13)

/-- `isdigit`. -/
def isDigit (b : UInt8) : Bool := 48 ≤ b && b ≤ 57

/-- The number the digits stand for. -/
def digitsValue (ds : List UInt8) : ℕ := ds.foldl (fun v d => 10 * v + (d.toNat - 48)) 0

/-- `ULONG_MAX`. -/
def ulongMax : ℕ := 18446744073709551615

/-- An optional sign: whether it is `-`, and the rest. -/
def sign : List UInt8 → Bool × List UInt8
  | 45 :: s => (true, s)
  | 43 :: s => (false, s)
  | s => (false, s)

/-- What `strtoul` makes of the digits. -/
def ulongValue (neg : Bool) (v : ℕ) : ℕ :=
  if ulongMax < v then ulongMax else if neg then (ulongMax + 1 - v) % (ulongMax + 1) else v

/-- `strtoul (s, &end, 10)`: the value and `end`, or `none` if there is nothing to convert. -/
def strtoul (s : List UInt8) : Option (ℕ × List UInt8) :=
  let (neg, s) := sign (s.dropWhile isSpace)
  let ds := s.takeWhile isDigit
  if ds = [] then none else some (ulongValue neg (digitsValue ds), s.dropWhile isDigit)

theorem isSpace_of_isDigit {b : UInt8} (h : isDigit b = true) : isSpace b = false := by
  unfold isDigit at h
  unfold isSpace
  simp only [Bool.and_eq_true, decide_eq_true_iff, UInt8.le_iff_toNat_le] at h
  simp only [Bool.or_eq_false_iff, Bool.and_eq_false_iff, decide_eq_false_iff_not,
    UInt8.le_iff_toNat_le, ← UInt8.toNat_inj]
  have h48 : (48 : UInt8).toNat = 48 := rfl
  have h32 : (32 : UInt8).toNat = 32 := rfl
  have h13 : (13 : UInt8).toNat = 13 := rfl
  omega

theorem sign_of_isDigit {b : UInt8} (h : isDigit b = true) (s : List UInt8) :
    sign (b :: s) = (false, b :: s) := by
  unfold sign
  split
  · rename_i heq
    rw [(List.cons.inj heq).1] at h
    exact absurd h (by decide)
  · rename_i heq
    rw [(List.cons.inj heq).1] at h
    exact absurd h (by decide)
  · rfl

/-- A text that `strtoul` reads to its end: white space, an optional sign and at least one
digit. -/
structure Numeral (blanks mark digits : List UInt8) : Prop where
  blanks : ∀ b ∈ blanks, isSpace b = true
  mark : mark = [] ∨ mark = [43] ∨ mark = [45]
  nonempty : digits ≠ []
  digits : ∀ b ∈ digits, isDigit b = true

/-- INTERNAL: only `-` is counted as a sign that negates. -/
theorem sign_mark {mark : List UInt8} (h : mark = [] ∨ mark = [43] ∨ mark = [45]) (hne : s ≠ [])
    (hall : ∀ b ∈ s, isDigit b = true) : sign (mark ++ s) = (decide (mark = [45]), s) := by
  rcases h with rfl | rfl | rfl
  · obtain ⟨b, s, rfl⟩ := List.exists_cons_of_ne_nil hne
    exact sign_of_isDigit (hall b List.mem_cons_self) s
  · rfl
  · rfl

/-- INTERNAL: `sign` divides the text into a sign and the rest. -/
theorem exists_mark (s : List UInt8) : ∃ mark, (mark = [] ∨ mark = [43] ∨ mark = [45]) ∧
    s = mark ++ (sign s).2 ∧ (sign s).1 = decide (mark = [45]) := by
  unfold sign
  split
  · exact ⟨[45], Or.inr (Or.inr rfl), rfl, rfl⟩
  · exact ⟨[43], Or.inr (Or.inl rfl), rfl, rfl⟩
  · exact ⟨[], Or.inl rfl, rfl, rfl⟩

/-- INTERNAL: no sign and no digit is white space. -/
theorem dropWhile_isSpace_mark {mark : List UInt8} (h : mark = [] ∨ mark = [43] ∨ mark = [45])
    (hne : s ≠ []) (hall : ∀ b ∈ s, isDigit b = true) :
    (mark ++ s).dropWhile isSpace = mark ++ s := by
  rcases h with rfl | rfl | rfl
  · obtain ⟨b, s, rfl⟩ := List.exists_cons_of_ne_nil hne
    rw [List.nil_append, List.dropWhile_cons, isSpace_of_isDigit (hall b List.mem_cons_self)]
    rfl
  · rfl
  · rfl

/-- `strtoul` reads exactly the numerals to their end. -/
theorem strtoul_eq_some_iff {v : ℕ} :
    strtoul s = some (v, []) ↔ ∃ blanks mark digits, Numeral blanks mark digits ∧
      s = blanks ++ (mark ++ digits) ∧ ulongValue (mark = [45]) (digitsValue digits) = v := by
  unfold strtoul
  constructor
  · intro h
    obtain ⟨mark, hmark, hs, hneg⟩ := exists_mark (s.dropWhile isSpace)
    dsimp only at h
    split at h
    · cases h
    · rename_i hne
      obtain ⟨hv, hend⟩ := Prod.mk.inj (Option.some.inj h)
      have hdigits := List.dropWhile_eq_nil_iff.mp hend
      rw [List.takeWhile_eq_self_iff.mpr hdigits] at hne hv
      refine ⟨s.takeWhile isSpace, mark, (sign (s.dropWhile isSpace)).2,
        ⟨fun b hb => List.mem_takeWhile_imp hb, hmark, hne, hdigits⟩, ?_, ?_⟩
      · rw [← hs, List.takeWhile_append_dropWhile]
      · rw [← hneg]
        exact hv
  · rintro ⟨blanks, mark, digits, hn, rfl, rfl⟩
    rw [List.dropWhile_append_of_pos hn.blanks, dropWhile_isSpace_mark hn.mark hn.nonempty hn.digits,
      sign_mark hn.mark hn.nonempty hn.digits]
    dsimp only
    rw [List.takeWhile_eq_self_iff.mpr hn.digits, List.dropWhile_eq_nil_iff.mpr hn.digits,
      if_neg hn.nonempty]

/-- INTERNAL: digits alone are a numeral. -/
theorem strtoul_digits (hne : s ≠ []) (hall : ∀ b ∈ s, isDigit b = true) :
    strtoul s = some (ulongValue false (digitsValue s), []) :=
  strtoul_eq_some_iff.mpr ⟨[], [], s, ⟨nofun, Or.inl rfl, hne, hall⟩, rfl, rfl⟩

end MsgBroker.Lib
