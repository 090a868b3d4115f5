import Mathlib.Data.List.Sort
import Mathlib.Data.Set.Defs
import Mathlib.Order.Defs.LinearOrder

/-!
# Points on a circle

Points with keys in a linear order, read as a circle: the successor of a place `h` is the point with
the least key at or after `h`, and the point with the least key of all when none is.
-/

set_option autoImplicit false

namespace MsgBroker.Lib

/-! ## Binary search -/

/-- The binary search for the first index in `[lo, hi)` that is not below, with enough fuel. -/
def lowerBound (below : ℕ → Bool) : ℕ → ℕ → ℕ → ℕ
  | 0, lo, _ => lo
  | fuel + 1, lo, hi =>
    if lo < hi then
      let mid := lo + (hi - lo) / 2
      if below mid then lowerBound below fuel (mid + 1) hi
      else lowerBound below fuel lo mid
    else lo

theorem lowerBound_spec {below : ℕ → Bool} {n : ℕ}
    (hmono : ∀ i j, i ≤ j → j < n → below j = true → below i = true) {fuel lo hi : ℕ}
    (hfuel : hi - lo ≤ fuel) (hle : lo ≤ hi) (hn : hi ≤ n)
    (hlo : ∀ i, i < lo → below i = true) (hhi : ∀ i, hi ≤ i → i < n → below i = false) :
    lowerBound below fuel lo hi ≤ n ∧
      (∀ i, i < lowerBound below fuel lo hi → below i = true) ∧
      ∀ i, lowerBound below fuel lo hi ≤ i → i < n → below i = false := by
  induction fuel generalizing lo hi with
  | zero =>
    obtain rfl : lo = hi := by omega
    exact ⟨hn, hlo, hhi⟩
  | succ fuel ih =>
    unfold lowerBound
    split
    · next hlt =>
      dsimp only
      split
      · next hbelow =>
        refine ih (by omega) (by omega) hn (fun i hi => ?_) hhi
        exact hmono i _ (Nat.le_of_lt_succ hi) (by omega) hbelow
      · next hnot =>
        refine ih (by omega) (by omega) (by omega) hlo fun i hmid hin => ?_
        by_contra hbelow
        exact hnot (hmono _ i hmid hin (by simpa using hbelow))
    · obtain rfl : lo = hi := by omega
      exact ⟨hn, hlo, hhi⟩

theorem lowerBound_le (below : ℕ → Bool) (fuel : ℕ) {lo hi : ℕ} (hle : lo ≤ hi) :
    lowerBound below fuel lo hi ≤ hi := by
  induction fuel generalizing lo hi with
  | zero => exact hle
  | succ fuel ih =>
    unfold lowerBound
    split
    · dsimp only
      split
      · exact ih (by omega)
      · exact (ih (by omega)).trans (by omega)
    · exact hle

section Circle

variable {α κ : Type} [LinearOrder κ] {key : α → κ} {h : κ}

/-! ## The successor of a place -/

/-- The key `k` is the first of `S` at or after `h`, going round. -/
def IsSuccessor (S : Set κ) (h k : κ) : Prop :=
  k ∈ S ∧ ((h ≤ k ∧ ∀ k' ∈ S, h ≤ k' → k ≤ k') ∨ ((∀ k' ∈ S, k' < h) ∧ ∀ k' ∈ S, k ≤ k'))

theorem IsSuccessor.unique {S : Set κ} {k k' : κ} (hk : IsSuccessor S h k)
    (hk' : IsSuccessor S h k') : k = k' := by
  obtain ⟨hmem, hcase⟩ := hk
  obtain ⟨hmem', hcase'⟩ := hk'
  rcases hcase with ⟨hle, hmin⟩ | ⟨hall, hmin⟩
  · rcases hcase' with ⟨hle', hmin'⟩ | ⟨hall', -⟩
    · exact le_antisymm (hmin k' hmem' hle') (hmin' k hmem hle)
    · exact absurd hle (not_le_of_gt (hall' k hmem))
  · rcases hcase' with ⟨hle', -⟩ | ⟨-, hmin'⟩
    · exact absurd hle' (not_le_of_gt (hall k' hmem'))
    · exact le_antisymm (hmin k' hmem') (hmin' k hmem)

theorem IsSuccessor.mono {S S' : Set κ} {k : κ} (hk : IsSuccessor S h k) (hsub : S' ⊆ S)
    (hmem : k ∈ S') : IsSuccessor S' h k := by
  refine ⟨hmem, ?_⟩
  rcases hk.2 with ⟨hle, hmin⟩ | ⟨hall, hmin⟩
  · exact Or.inl ⟨hle, fun k' hk' => hmin k' (hsub hk')⟩
  · exact Or.inr ⟨fun k' hk' => hall k' (hsub hk'), fun k' hk' => hmin k' (hsub hk')⟩

variable (key h) in
/-- The successor of `h` in a sorted list: the first point at or after `h`, else the first
point. -/
def successor (l : List α) : Option α :=
  (l.find? fun a => decide (h ≤ key a)).or l.head?

variable {l : List α} {a : α} {q : α → Bool}

theorem successor_ne_none (hl : l ≠ []) : successor key h l ≠ none := by
  cases l with
  | nil => exact absurd rfl hl
  | cons a l => simp [successor]

theorem mem_of_successor (hs : successor key h l = some a) : a ∈ l := by
  rcases Option.or_eq_some_iff.mp hs with hfind | ⟨-, hhead⟩
  · exact List.mem_of_find?_eq_some hfind
  · exact List.mem_of_mem_head? hhead

theorem find?_filter_of_pos {p : α → Bool} (hfind : l.find? p = some a)
    (hq : q a = true) : (l.filter q).find? p = some a := by
  induction l with
  | nil => cases hfind
  | cons b l ih =>
    rw [List.find?_cons] at hfind
    rw [List.filter_cons]
    cases hp : p b with
    | true =>
      rw [hp] at hfind
      obtain rfl : b = a := by simpa using hfind
      rw [if_pos hq, List.find?_cons, hp]
    | false =>
      rw [hp] at hfind
      split
      · rw [List.find?_cons, hp]
        exact ih hfind
      · exact ih hfind

theorem successor_filter
    (hs : successor key h l = some a) (hq : q a = true) :
    successor key h (l.filter q) = some a := by
  rcases Option.or_eq_some_iff.mp hs with hfind | ⟨hnone, hhead⟩
  · rw [successor, find?_filter_of_pos hfind hq]
    rfl
  · have hnone' : (l.filter q).find? (fun a => decide (h ≤ key a)) = none := by
      rw [List.find?_eq_none] at hnone ⊢
      exact fun b hb => hnone b (List.mem_of_mem_filter hb)
    rw [successor, hnone', Option.none_or]
    cases l with
    | nil => cases hhead
    | cons b l =>
      obtain rfl : b = a := by simpa using hhead
      rw [List.filter_cons, if_pos hq]
      rfl

/-! ## Sorted lists -/

variable (key) in
/-- The points stand in the order of their keys. -/
def SortedByKey (l : List α) : Prop := l.Pairwise fun a b => key a ≤ key b

theorem SortedByKey.isSuccessor (hl : SortedByKey key l)
    (hs : successor key h l = some a) : IsSuccessor {k | ∃ b ∈ l, key b = k} h (key a) := by
  refine ⟨⟨a, mem_of_successor hs, rfl⟩, ?_⟩
  rcases Option.or_eq_some_iff.mp hs with hfind | ⟨hnone, hhead⟩
  · left
    obtain ⟨hpa, pre, post, rfl, hpre⟩ := List.find?_eq_some_iff_append.mp hfind
    refine ⟨by simpa using hpa, ?_⟩
    rintro k' ⟨b, hb, rfl⟩ hle
    rcases List.mem_append.mp hb with hb | hb
    · have hnot := hpre b hb
      simp only [Bool.not_eq_true', decide_eq_false_iff_not] at hnot
      exact absurd hle hnot
    · rcases List.mem_cons.mp hb with rfl | hb
      · exact le_rfl
      · exact List.rel_of_pairwise_cons (List.pairwise_append.mp hl).2.1 hb
  · right
    cases l with
    | nil => cases hhead
    | cons c l =>
      obtain rfl : c = a := by simpa using hhead
      constructor
      · rintro k' ⟨b, hb, rfl⟩
        have hnot := List.find?_eq_none.mp hnone b hb
        simp only [decide_eq_true_eq] at hnot
        exact lt_of_not_ge hnot
      · rintro k' ⟨b, hb, rfl⟩
        rcases List.mem_cons.mp hb with rfl | hb
        · exact le_rfl
        · exact List.rel_of_pairwise_cons hl hb

variable (key h) in
/-- Whether the key at an index is before `h`. -/
def keyBelow (l : List α) (i : ℕ) : Bool :=
  match l[i]? with
  | some a => decide (key a < h)
  | none => false

theorem SortedByKey.lowerBound_split (hl : SortedByKey key l) :
    lowerBound (keyBelow key h l) l.length 0 l.length ≤ l.length ∧
      (∀ i, i < lowerBound (keyBelow key h l) l.length 0 l.length →
        keyBelow key h l i = true) ∧
      ∀ i, lowerBound (keyBelow key h l) l.length 0 l.length ≤ i → i < l.length →
        keyBelow key h l i = false := by
  have hmono : ∀ i j, i ≤ j → j < l.length → keyBelow key h l j = true →
      keyBelow key h l i = true := by
    intro i j hij hj hbelow
    have hi : i < l.length := by omega
    simp only [keyBelow, List.getElem?_eq_getElem hi, List.getElem?_eq_getElem hj,
      decide_eq_true_eq] at hbelow ⊢
    rcases Nat.eq_or_lt_of_le hij with rfl | hlt
    · exact hbelow
    · exact lt_of_le_of_lt (List.pairwise_iff_getElem.mp hl i j hi hj hlt) hbelow
  exact lowerBound_spec hmono (Nat.le_of_eq (Nat.sub_zero _)) (Nat.zero_le _) (Nat.le_refl _)
    (fun i hi => absurd hi (Nat.not_lt_zero i)) (fun i hi hlt => absurd hlt (by omega))

theorem SortedByKey.lowerBound_eq_findIdx (hl : SortedByKey key l) :
    lowerBound (keyBelow key h l) l.length 0 l.length = l.findIdx fun a => decide (h ≤ key a) := by
  obtain ⟨hle, hbelow, hnot⟩ := hl.lowerBound_split (h := h)
  generalize lowerBound (keyBelow key h l) l.length 0 l.length = r at hle hbelow hnot
  have hbefore : ∀ i (hi : i < l.length), i < r → decide (h ≤ key l[i]) = false := by
    intro i hi hir
    have hkey := hbelow i hir
    rw [keyBelow, List.getElem?_eq_getElem hi] at hkey
    exact decide_eq_false (not_le_of_gt (of_decide_eq_true hkey))
  symm
  rcases Nat.eq_or_lt_of_le hle with rfl | hlt
  · rw [List.findIdx_eq_length]
    intro a ha
    obtain ⟨i, hi, rfl⟩ := List.getElem_of_mem ha
    exact hbefore i hi hi
  · rw [List.findIdx_eq hlt]
    refine ⟨?_, fun i hi => hbefore i (hi.trans hlt) hi⟩
    have hkey := hnot r (Nat.le_refl r) hlt
    rw [keyBelow, List.getElem?_eq_getElem hlt] at hkey
    exact decide_eq_true (not_lt.mp (of_decide_eq_false hkey))

theorem SortedByKey.getElem?_lowerBound (hl : SortedByKey key l) :
    (let r := lowerBound (keyBelow key h l) l.length 0 l.length
     l[if r = l.length then 0 else r]?) = successor key h l := by
  have hle := (hl.lowerBound_split (h := h)).1
  dsimp only
  rw [successor, List.find?_eq_getElem?_findIdx, ← hl.lowerBound_eq_findIdx]
  split
  · next hend =>
    rw [hend, List.getElem?_eq_none (Nat.le_refl _), Option.none_or, List.head?_eq_getElem?]
  · next hne =>
    rw [List.getElem?_eq_getElem (by omega)]
    rfl

theorem SortedByKey.lowerBound_eq (hl : SortedByKey key l) :
    lowerBound (keyBelow key h l) l.length 0 l.length =
      (l.takeWhile fun a => decide (key a < h)).length := by
  rw [List.takeWhile_eq_take_findIdx_not, List.length_take_of_le List.findIdx_le_length,
    hl.lowerBound_eq_findIdx]
  simp only [← decide_not, not_lt]

/-! ## Inserting a point -/

variable (key) in
/-- Inserts a point before all points whose key is not smaller. -/
abbrev insertByKey (a : α) (l : List α) : List α :=
  l.orderedInsert (fun x y => key x ≤ key y) a

theorem SortedByKey.insertByKey (hl : SortedByKey key l) (a : α) :
    SortedByKey key (insertByKey key a l) := by
  have htotal : Std.Total fun x y : α => key x ≤ key y := ⟨fun x y => le_total _ _⟩
  have htrans : IsTrans α fun x y => key x ≤ key y := ⟨fun _ _ _ => le_trans⟩
  exact List.Pairwise.orderedInsert a l hl

theorem filter_insertByKey (ha : q a = false) (l : List α) :
    (insertByKey key a l).filter q = l.filter q := by
  induction l with
  | nil => simp [ha]
  | cons b l ih =>
    rw [insertByKey, List.orderedInsert_cons]
    split
    · rw [List.filter_cons, ha]
      rfl
    · rw [List.filter_cons, List.filter_cons]
      split
      · rw [← ih]
      · exact ih

theorem successor_insertByKey (a : α) (l : List α) :
    successor key (key a) (insertByKey key a l) = some a := by
  have hfind : (insertByKey key a l).find? (fun b => decide (key a ≤ key b)) = some a := by
    induction l with
    | nil => simp
    | cons b l ih =>
      rw [insertByKey, List.orderedInsert_cons]
      split
      · simp
      · next hlt =>
        rw [List.find?_cons, decide_eq_false hlt]
        exact ih
  rw [successor, hfind]
  rfl

variable (key h) in
theorem successor_insertByKey_cases (a : α) (l : List α) :
    successor key h (insertByKey key a l) = some a ∨
      successor key h (insertByKey key a l) = successor key h l := by
  have hfind : (insertByKey key a l).find? (fun b => decide (h ≤ key b)) = some a ∨
      (insertByKey key a l).find? (fun b => decide (h ≤ key b)) =
        l.find? fun b => decide (h ≤ key b) := by
    induction l with
    | nil =>
      by_cases ha : h ≤ key a
      · simp [ha]
      · simp [ha]
    | cons b l ih =>
      rw [insertByKey, List.orderedInsert_cons]
      split
      · by_cases ha : h ≤ key a
        · simp [ha]
        · simp [ha]
      · rw [List.find?_cons, List.find?_cons]
        cases decide (h ≤ key b) with
        | true => exact Or.inr rfl
        | false => exact ih
  have hhead : (insertByKey key a l).head? = some a ∨
      (insertByKey key a l).head? = l.head? := by
    cases l with
    | nil => exact Or.inl rfl
    | cons b l =>
      rw [insertByKey, List.orderedInsert_cons]
      split
      · exact Or.inl rfl
      · exact Or.inr rfl
  unfold successor
  rcases hfind with hfind | hfind
  · exact Or.inl (by rw [hfind]; rfl)
  · rw [hfind]
    cases l.find? fun b => decide (h ≤ key b) with
    | some b => exact Or.inr rfl
    | none => exact hhead

end Circle

end MsgBroker.Lib
