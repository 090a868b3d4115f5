import MsgBroker.Analysis.ThreadpoolBarrier

/-!
# Which workers the submissions go to

The index of a worker is a remainder of the round-robin counter, and a remainder of a negative
number is negative or zero.
-/

set_option autoImplicit false

namespace MsgBroker.Analysis.Threadpool

open Lib Model

variable {K T V : Type} {n : ℕ}

/-! ## The counter -/

theorem int32_int32_add_one (x : ℤ) : int32 (int32 x + 1) = int32 (x + 1) := by
  unfold int32
  omega

theorem dispatch_eq {ok : Dispatch → T → Prop} {d : Dispatch} (h : Reach (dispatch T n) ok d) :
    d.roundRobin = int32 d.used.length ∧
      d.used = (List.range d.used.length).map fun i : ℕ => (int32 i).tmod n := by
  apply h.invariant fun d : Dispatch => d.roundRobin = int32 d.used.length ∧
    d.used = (List.range d.used.length).map fun i : ℕ => (int32 i).tmod n
  · have hzero : int32 0 = 0 := by decide
    exact ⟨hzero.symm, rfl⟩
  · rintro s t s' ⟨hcounter, hused⟩ - hstep
    obtain rfl := Option.some.inj hstep
    have hlen : (s.choose n).used.length = s.used.length + 1 := List.length_append
    constructor
    · rw [hlen, Nat.cast_succ, ← int32_int32_add_one, ← hcounter]
      rfl
    · rw [hlen, List.range_succ, List.map_append, ← hused, List.map_singleton, ← hcounter]
      rfl

theorem tmod_inRange_iff (hn : 1 ≤ n) (c : ℤ) :
    (0 ≤ c.tmod n ∧ c.tmod n < n) ↔ 0 ≤ c ∨ (n : ℤ) ∣ c := by
  have hlt : c.tmod n < n := Int.tmod_lt_of_pos c (by omega)
  rw [and_iff_left hlt]
  constructor
  · intro hnonneg
    by_cases hc : 0 ≤ c
    · exact Or.inl hc
    · -- the remainder of a negative counter is not positive
      have hneg : 0 ≤ (-c).tmod n := Int.tmod_nonneg _ (by omega)
      rw [Int.neg_tmod] at hneg
      exact Or.inr (Int.dvd_of_tmod_eq_zero (by omega))
  · rintro (hc | hdvd)
    · exact Int.tmod_nonneg _ hc
    · exact (Int.tmod_eq_zero_of_dvd hdvd).ge

/-! ## The indices over the lifetime of a pool -/

theorem mem_used_iff {ok : Dispatch → T → Prop} {d : Dispatch} (h : Reach (dispatch T n) ok d)
    {idx : ℤ} : idx ∈ d.used ↔ ∃ i < d.used.length, (int32 i).tmod n = idx := by
  have hused := (dispatch_eq h).2
  constructor
  · intro hidx
    rw [hused, List.mem_map] at hidx
    obtain ⟨i, hi, heq⟩ := hidx
    exact ⟨i, List.mem_range.mp hi, heq⟩
  · rintro ⟨i, hi, heq⟩
    rw [hused, List.mem_map]
    exact ⟨i, List.mem_range.mpr hi, heq⟩

/-- The workers that a pool of `n` submits to are all in its array, if and only if it has one worker
or there are at most `2 ^ 31` submissions, or one more where `n` divides `2 ^ 31`.
SRC: threadpool.c:116-129 -/
theorem dispatch_inRange_iff (hn : 1 ≤ n) {d : Dispatch}
    (h : Reach (dispatch T n) (fun _ _ => True) d) :
    (∀ idx ∈ d.used, 0 ≤ idx ∧ idx < n) ↔
      n = 1 ∨ d.used.length ≤ 2 ^ 31 ∨ d.used.length = 2 ^ 31 + 1 ∧ n ∣ 2 ^ 31 := by
  have hall : (∀ idx ∈ d.used, 0 ≤ idx ∧ idx < n) ↔
      ∀ i < d.used.length, 0 ≤ int32 i ∨ (n : ℤ) ∣ int32 i := by
    constructor
    · intro hin i hi
      exact (tmod_inRange_iff hn _).mp (hin _ ((mem_used_iff h).mpr ⟨i, hi, rfl⟩))
    · intro hin idx hidx
      obtain ⟨i, hi, rfl⟩ := (mem_used_iff h).mp hidx
      exact (tmod_inRange_iff hn _).mpr (hin i hi)
  rw [hall]
  have hsmall : ∀ i : ℕ, i < 2 ^ 31 → 0 ≤ int32 i := by
    intro i hi
    rw [int32_eq (by omega) (by omega)]
    omega
  have hmin : int32 ((2 ^ 31 : ℕ) : ℤ) = -((2 ^ 31 : ℕ) : ℤ) := by decide
  have hnext : int32 ((2 ^ 31 + 1 : ℕ) : ℤ) = -((2 ^ 31 - 1 : ℕ) : ℤ) := by decide
  constructor
  · intro hin
    -- the two submissions after the counter has become negative decide
    by_cases hle : d.used.length ≤ 2 ^ 31
    · exact Or.inr (Or.inl hle)
    have hdvd : n ∣ 2 ^ 31 := by
      have hfirst := hin (2 ^ 31) (by omega)
      rw [hmin, Int.dvd_neg, Int.natCast_dvd_natCast] at hfirst
      exact hfirst.resolve_left (by decide)
    by_cases heq : d.used.length = 2 ^ 31 + 1
    · exact Or.inr (Or.inr ⟨heq, hdvd⟩)
    · have hsecond := hin (2 ^ 31 + 1) (by omega)
      rw [hnext, Int.dvd_neg, Int.natCast_dvd_natCast] at hsecond
      have hdvd' : n ∣ 2 ^ 31 - 1 := hsecond.resolve_left (by decide)
      have hone : n ∣ 2 ^ 31 - (2 ^ 31 - 1) := Nat.dvd_sub hdvd hdvd'
      exact Or.inl (Nat.dvd_one.mp hone)
  · rintro (rfl | hle | ⟨heq, hdvd⟩) i hi
    · exact Or.inr (Int.one_dvd _)
    · exact Or.inl (hsmall i (by omega))
    · by_cases hi' : i < 2 ^ 31
      · exact Or.inl (hsmall i hi')
      · obtain rfl : i = 2 ^ 31 := by omega
        rw [hmin, Int.dvd_neg, Int.natCast_dvd_natCast]
        exact Or.inr hdvd

/-- Four submissions to three workers. -/
theorem dispatch_inRange_iff_four :
    ∃ d, (dispatch Unit 3).run ⟨0, []⟩ [(), (), (), ()] = some d ∧ d.used = [0, 1, 2, 0] ∧
      ∀ idx ∈ d.used, 0 ≤ idx ∧ idx < (3 : ℕ) := by
  refine ⟨_, rfl, by decide, ?_⟩
  have hrun : (dispatch Unit 3).run (dispatch Unit 3).init [(), (), (), ()] = some _ := rfl
  exact (dispatch_inRange_iff (by decide) (Reach.of_run_init hrun)).mpr
    (Or.inr (Or.inl (by decide)))

theorem exists_reach (t : T) (k : ℕ) :
    ∃ d, Reach (dispatch T n) (fun _ _ => True) d ∧ d.used.length = k := by
  induction k with
  | zero => exact ⟨_, Reach.init, rfl⟩
  | succ k ih =>
    obtain ⟨d, hreach, hlen⟩ := ih
    refine ⟨d.choose n, hreach.step (l := t) trivial rfl, ?_⟩
    show (d.used ++ [d.roundRobin.tmod n]).length = k + 1
    rw [List.length_append, hlen]
    rfl

/-- **A pool of three workers after `2 ^ 31` submissions.**  The next one uses the index -2. -/
theorem dispatch_negative : ∃ d, Reach (dispatch Unit 3) (fun _ _ => True) d ∧
    d.used.length = 2 ^ 31 + 1 ∧ d.used[2 ^ 31]? = some (-2) := by
  obtain ⟨d, hreach, hlen⟩ := exists_reach (n := 3) () (2 ^ 31 + 1)
  refine ⟨d, hreach, hlen, ?_⟩
  rw [(dispatch_eq hreach).2, hlen, List.getElem?_map, List.getElem?_range (by decide)]
  decide

/-! ## The pool with all its threads -/

section Pool

variable [DecidableEq K] [DecidableEq T] [DecidableEq V] {s s' : Pool K T V}

end Pool

end MsgBroker.Analysis.Threadpool
