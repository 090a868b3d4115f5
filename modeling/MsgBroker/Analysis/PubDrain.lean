import MsgBroker.Analysis.PubSpec
import MsgBroker.Model.PubOrder

/-!
# The drain of a PUB socket with one pipe

With a single pipe a drain takes messages off the front of the buckets, from the highest priority
on, until the pipe refuses one: `drainBuckets_one` says how many that are, that the buckets lose
nothing else, and that they are what the log has as taken.
-/

set_option autoImplicit false

namespace MsgBroker.Analysis.PubPriority

open Lib Model
open PubQueue (flatMap_update)

/-! ## Answers in a row -/

section Leading

variable (ans : ℕ → Bool)

/-- How many of the `n` answers from the `a`-th on are `true` before the first that is not. -/
def leading : ℕ → ℕ → ℕ
  | _, 0 => 0
  | a, n + 1 => if ans a then leading (a + 1) n + 1 else 0

theorem leading_succ (a n : ℕ) :
    leading ans a (n + 1) = if ans a then leading ans (a + 1) n + 1 else 0 := rfl

theorem leading_le (a n : ℕ) : leading ans a n ≤ n := by
  induction n generalizing a with
  | zero => exact Nat.le_refl 0
  | succ n ih =>
    rw [leading_succ]
    split
    · exact Nat.succ_le_succ (ih (a + 1))
    · exact Nat.zero_le _

theorem leading_add_of_full {a n : ℕ} (h : leading ans a n = n) (m : ℕ) :
    leading ans a (n + m) = n + leading ans (a + n) m := by
  induction n generalizing a with
  | zero => rw [Nat.zero_add, Nat.zero_add, Nat.add_zero]
  | succ n ih =>
    rw [show n + 1 + m = n + m + 1 by omega]
    rw [leading_succ] at h ⊢
    split
    · next ha =>
      rw [if_pos ha] at h
      rw [ih (Nat.succ.inj h), show a + 1 + n = a + (n + 1) by omega]
      omega
    · next ha =>
      rw [if_neg ha] at h
      cases h

theorem leading_add_of_lt {a n : ℕ} (h : leading ans a n < n) (m : ℕ) :
    leading ans a (n + m) = leading ans a n := by
  induction n generalizing a with
  | zero => cases h
  | succ n ih =>
    rw [show n + 1 + m = n + m + 1 by omega, leading_succ, leading_succ]
    rw [leading_succ] at h
    cases ha : ans a with
    | false => rfl
    | true =>
      rw [ha, if_pos rfl] at h
      rw [if_pos rfl, if_pos rfl, ih (Nat.lt_of_succ_lt_succ h)]

theorem le_leading_iff {k n : ℕ} (hk : k ≤ n) (a : ℕ) :
    k ≤ leading ans a n ↔ ∀ i < k, ans (a + i) = true := by
  induction n generalizing a k with
  | zero =>
    obtain rfl : k = 0 := Nat.le_zero.mp hk
    exact iff_of_true (Nat.zero_le _) fun i hi => absurd hi (Nat.not_lt_zero i)
  | succ n ih =>
    cases k with
    | zero => exact iff_of_true (Nat.zero_le _) fun i hi => absurd hi (Nat.not_lt_zero i)
    | succ k =>
      rw [leading_succ]
      split
      · next ha =>
        rw [Nat.succ_le_succ_iff, ih (Nat.le_of_succ_le_succ hk)]
        constructor
        · intro h i hi
          cases i with
          | zero => exact ha
          | succ i => rw [show a + (i + 1) = a + 1 + i by omega]; exact h i (by omega)
        · intro h i hi
          rw [show a + 1 + i = a + (i + 1) by omega]
          exact h (i + 1) (by omega)
      · next ha =>
        refine iff_of_false (Nat.not_succ_le_zero k) fun h => ha ?_
        exact h 0 (Nat.succ_pos k)

end Leading

/-! ## The drain of one pipe -/

section Drain

variable {π : Type} [DecidableEq π] {p : π}

/-- What stays the same during a call. -/
structure SameCall (e e' : PubEnv π) : Prop where
  cur : e'.cur = e.cur
  fan : e'.fan = e.fan
  drain : e'.drain = e.drain

omit [DecidableEq π] in
theorem SameCall.trans {e e' e'' : PubEnv π} (h : SameCall e e') (h' : SameCall e' e'') :
    SameCall e e'' :=
  ⟨h'.cur.trans h.cur, h'.fan.trans h.fan, h'.drain.trans h.drain⟩

/-- The calls whose messages a log has as taken, in the order in which they were. -/
def takenCalls (log : List (PubEvent π)) : List ℕ :=
  log.filterMap fun
    | .offer _ call _ true => some call
    | _ => none

/-- The call goes on, and these messages were taken meanwhile. -/
structure Takes (ms : List (Msg ℕ)) (e e' : PubEnv π) : Prop extends SameCall e e' where
  taken : takenCalls e'.log = takenCalls e.log ++ ms.map Msg.tag

omit [DecidableEq π] in
theorem Takes.refl (e : PubEnv π) : Takes [] e e := ⟨⟨rfl, rfl, rfl⟩, (List.append_nil _).symm⟩

omit [DecidableEq π] in
theorem Takes.trans {ms ms' : List (Msg ℕ)} {e e' e'' : PubEnv π} (h : Takes ms e e')
    (h' : Takes ms' e' e'') : Takes (ms ++ ms') e e'' :=
  ⟨h.toSameCall.trans h'.toSameCall, by
    rw [h'.taken, h.taken, List.map_append, List.append_assoc]⟩

/-- INTERNAL: an offer is logged as taken if the answer is that it is. -/
theorem takes_offered (e : PubEnv π) (m : Msg ℕ) (p : π) :
    Takes (if e.answer m.tag p then [m] else []) e (e.offered m.tag p) := by
  refine ⟨⟨rfl, rfl, rfl⟩, ?_⟩
  have hlog : (e.offered m.tag p).log = e.log ++ [.offer e.cur m.tag p (e.answer m.tag p)] := rfl
  rw [hlog, takenCalls, List.filterMap_append]
  cases e.answer m.tag p with
  | false => rfl
  | true => rfl

theorem fanOut_one (msg : Msg ℕ) (e : PubEnv π) :
    fanOut PubEnv.pipes msg [p] e =
      ([if e.answer msg.tag p then .ok else .again], e.offered msg.tag p) := rfl

theorem sentCount_one (b : Bool) : sentCount [if b then .ok else .again] > 0 ↔ b = true := by
  cases b with
  | false => exact iff_of_false (by decide) Bool.false_ne_true
  | true => exact iff_of_true (by decide) rfl

theorem tryDrainOne_one (m : Msg ℕ) (e : PubEnv π) :
    Pub.tryDrainOne PubEnv.pipes [p] m e = (e.answer m.tag p, e.offered m.tag p) := by
  unfold Pub.tryDrainOne
  rw [fanOut_one]
  refine Prod.ext ?_ rfl
  rw [Bool.eq_iff_iff, decide_eq_true_iff]
  exact sentCount_one _

/-- The answers of the pipe to the messages a drain offers. -/
def answers (p : π) (e : PubEnv π) (i : ℕ) : Bool := e.drain i p

/-- INTERNAL: **the drain of one bucket** takes off as many messages as the pipe takes in a row. -/
theorem drainBucket_one (bucket : List (Msg ℕ)) (e : PubEnv π)
    (hold : ∀ m ∈ bucket, m.tag ≠ e.cur) :
    ∃ removed e', Pub.drainBucket PubEnv.pipes [p] bucket e =
        (decide (leading (answers p e) (e.asked p) bucket.length = bucket.length),
          bucket.drop (leading (answers p e) (e.asked p) bucket.length), removed, e') ∧
      removed.map Prod.fst = bucket.take (leading (answers p e) (e.asked p) bucket.length) ∧
      Takes (removed.map Prod.fst) e e' ∧
      (leading (answers p e) (e.asked p) bucket.length = bucket.length →
        e'.asked p = e.asked p + bucket.length) := by
  induction bucket generalizing e with
  | nil => exact ⟨[], e, rfl, rfl, .refl e, fun _ => rfl⟩
  | cons m bucket ih =>
    have hanswer : e.answer m.tag p = answers p e (e.asked p) :=
      if_neg (hold m List.mem_cons_self)
    have hasked : (e.offered m.tag p).asked p = e.asked p + 1 := Function.update_self p _ _
    have htakes := takes_offered e m p
    unfold Pub.drainBucket
    rw [tryDrainOne_one, hanswer, List.length_cons, leading_succ]
    rw [hanswer] at htakes
    cases hans : answers p e (e.asked p) with
    | false =>
      rw [hans] at htakes
      exact ⟨[], _, rfl, rfl, htakes, fun h => absurd h.symm (Nat.succ_ne_zero _)⟩
    | true =>
      rw [hans] at htakes
      obtain ⟨removed, e', hdrain, hremoved, hsame, hfull⟩ := ih (e.offered m.tag p)
        fun x hx => hold x (List.mem_cons_of_mem _ hx)
      rw [hasked] at hdrain hremoved hfull
      have hrest : answers p (e.offered m.tag p) = answers p e := rfl
      rw [hrest] at hdrain hremoved hfull
      simp only [hdrain, if_true]
      refine ⟨(m, e.offered m.tag p) :: removed, e', ?_, ?_, htakes.trans hsame, ?_⟩
      · simp only [List.drop_succ_cons, Nat.succ.injEq]
      · rw [List.map_cons, hremoved, List.take_succ_cons]
      · intro heq
        rw [hfull (Nat.succ.inj heq)]
        omega

theorem update_drop_suffix (buckets : Fin 8 → List (Msg ℕ)) (level : Fin 8) (j : ℕ) (l : Fin 8) :
    Function.update buckets level ((buckets level).drop j) l <:+ buckets l := by
  by_cases hl : l = level
  · rw [hl, Function.update_self]
    exact List.drop_suffix j _
  · rewrite [Function.update_of_ne hl]
    exact List.suffix_rfl

/-- INTERNAL: **the drain of the levels** takes as many messages off the front of their buckets as
the pipe takes in a row. -/
theorem drainLevels_one (ls : List (Fin 8)) (hnodup : ls.Nodup) (buckets : Fin 8 → List (Msg ℕ))
    (e : PubEnv π) (hold : ∀ l ∈ ls, ∀ m ∈ buckets l, m.tag ≠ e.cur) :
    ∃ buckets' removed e', Pub.drainLevels PubEnv.pipes [p] ls buckets e = (buckets', removed, e') ∧
      Takes (removed.map Prod.fst) e e' ∧ (∀ l ∉ ls, buckets' l = buckets l) ∧
      (∀ l, buckets' l <:+ buckets l) ∧
      removed.map Prod.fst = (ls.flatMap buckets).take
        (leading (answers p e) (e.asked p) (ls.flatMap buckets).length) ∧
      ∀ us, us <+: ls → us.flatMap buckets' =
        (us.flatMap buckets).drop
          (leading (answers p e) (e.asked p) (ls.flatMap buckets).length) := by
  induction ls generalizing buckets e with
  | nil =>
    refine ⟨buckets, [], e, rfl, .refl e, fun _ _ => rfl, fun _ => List.suffix_rfl, rfl, ?_⟩
    intro us hus
    rw [List.prefix_nil.mp hus]
    rfl
  | cons level ls ih =>
    obtain ⟨hnotin, hnodup'⟩ := List.nodup_cons.mp hnodup
    obtain ⟨removed, e₁, hdrain, hremoved, hsame, hfull⟩ :=
      drainBucket_one (p := p) (buckets level) e (hold level List.mem_cons_self)
    unfold Pub.drainLevels
    rw [hdrain, List.flatMap_cons, List.length_append]
    set j := leading (answers p e) (e.asked p) (buckets level).length with hj
    by_cases hgo : j = (buckets level).length
    · -- the bucket is empty now, and the drain goes on
      rw [decide_eq_true hgo]
      obtain ⟨buckets', removed', e', hrest, hsame', hout, hsuf, hremoved', hpre⟩ :=
        ih hnodup' (Function.update buckets level ((buckets level).drop j)) e₁ (by
          intro l hl m hm
          have hm' := (update_drop_suffix buckets level j l).subset hm
          rw [hsame.cur]
          exact hold l (List.mem_cons_of_mem _ hl) m hm')
      simp only [hrest]
      have hans : answers p e₁ = answers p e := by
        unfold answers
        rw [hsame.drain]
      refine ⟨buckets', removed ++ removed', e', rfl, ?_, ?_, ?_, ?_, ?_⟩
      · rw [List.map_append]
        exact hsame.trans hsame'
      · intro l hl
        obtain ⟨hne, hl'⟩ := not_or.mp fun h => hl (List.mem_cons.mpr h)
        rw [hout l hl', Function.update_of_ne hne]
      · intro l
        exact (hsuf l).trans (update_drop_suffix buckets level j l)
      · rw [leading_add_of_full _ (hj.symm.trans hgo), List.map_append, hremoved, hremoved',
          flatMap_update hnotin, hans, hfull hgo, hgo, List.take_length, List.take_length_add_append]
      · intro us hus
        rw [leading_add_of_full _ (hj.symm.trans hgo)]
        cases us with
        | nil => rw [List.flatMap_nil, List.flatMap_nil, List.drop_nil]
        | cons u us =>
          obtain ⟨rfl, hus'⟩ := List.cons_prefix_cons.mp hus
          have hempty : buckets' u = [] := by
            rw [hout u hnotin, Function.update_self, hgo, List.drop_length]
          rw [List.flatMap_cons, hempty, List.nil_append, hpre us hus',
            flatMap_update fun hin => hnotin (hus'.subset hin), flatMap_update hnotin, hans,
            hfull hgo, List.flatMap_cons, ← List.drop_drop, List.drop_left]
    · rw [decide_eq_false hgo]
      have hlt : j < (buckets level).length := Nat.lt_of_le_of_ne (leading_le _ _ _) hgo
      refine ⟨_, removed, e₁, rfl, hsame, ?_, update_drop_suffix buckets level j, ?_, ?_⟩
      · intro l hl
        obtain ⟨hne, -⟩ := not_or.mp fun h => hl (List.mem_cons.mpr h)
        exact Function.update_of_ne hne _ _
      · rw [leading_add_of_lt _ hlt, hremoved, List.take_append_of_le_length (Nat.le_of_lt hlt)]
      · intro us hus
        rw [leading_add_of_lt _ hlt, ← hj]
        cases us with
        | nil => rw [List.flatMap_nil, List.flatMap_nil, List.drop_nil]
        | cons u us =>
          obtain ⟨rfl, hus'⟩ := List.cons_prefix_cons.mp hus
          rw [List.flatMap_cons, List.flatMap_cons, Function.update_self,
            flatMap_update fun hin => hnotin (hus'.subset hin),
            List.drop_append_of_le_length (Nat.le_of_lt hlt)]

theorem anyCanSend_one (e : PubEnv π) :
    Pub.anyCanSend PubEnv.pipes [p] e = (e.can p, e) := by
  have hcan : PubEnv.pipes.canSend p e = (e.can p, e) := rfl
  unfold Pub.anyCanSend
  rw [hcan]
  cases e.can p with
  | false => rfl
  | true => rfl

/-- How many retained messages the pipe takes in the drain of a call that begins. -/
def drained (p : π) (e : PubEnv π) (n : ℕ) : ℕ := if e.can p then leading (answers p e) 0 n else 0

omit [DecidableEq π] in
theorem le_drained_iff (e : PubEnv π) {k n : ℕ} (hk : k ≤ n) :
    k ≤ drained p e n ↔ k = 0 ∨ e.can p = true ∧ ∀ i < k, e.drain i p = true := by
  unfold drained
  split
  · next hcan =>
    rw [le_leading_iff _ hk]
    simp only [Nat.zero_add, hcan, true_and]
    refine ⟨Or.inr, ?_⟩
    rintro (rfl | h)
    · exact fun i hi => absurd hi (Nat.not_lt_zero i)
    · exact h
  · next hcan => simp [hcan]

/-- INTERNAL: **the drain** takes messages off the front of the buckets, and these are the ones that
are logged as taken.  SRC: pub.c:177-213 -/
theorem drainBuckets_one {self : Pub π ℕ} (hpipes : self.pipes = [p]) {e : PubEnv π}
    (hstart : e.asked p = 0) (hold : ∀ l, ∀ m ∈ self.buckets l, m.tag ≠ e.cur) :
    ∃ buckets' removed e', self.drainBuckets PubEnv.pipes e =
        ({ self with buckets := buckets' }, removed, e') ∧
      Takes (removed.map Prod.fst) e e' ∧ (∀ l, buckets' l <:+ self.buckets l) ∧
      removed.map Prod.fst = (Pub.levels.flatMap self.buckets).take
        (drained p e (Pub.levels.flatMap self.buckets).length) ∧
      ∀ us, us <+: Pub.levels → us.flatMap buckets' =
        (us.flatMap self.buckets).drop (drained p e (Pub.levels.flatMap self.buckets).length) := by
  unfold Pub.drainBuckets drained
  rw [hpipes, anyCanSend_one]
  cases e.can p with
  | false =>
    refine ⟨self.buckets, [], e, ?_, .refl e, fun _ => List.suffix_rfl, rfl, fun _ _ => rfl⟩
    rw [← hpipes]
  | true =>
    obtain ⟨buckets', removed, e', hlevels, hsame, -, hsuf, hremoved, hpre⟩ :=
      drainLevels_one (p := p) Pub.levels PubQueue.nodup_levels self.buckets e fun l _ => hold l
    rw [hstart] at hremoved hpre
    simp only [hlevels]
    exact ⟨buckets', removed, e', by rw [← hpipes], hsame, hsuf, hremoved, hpre⟩

end Drain

end MsgBroker.Analysis.PubPriority
