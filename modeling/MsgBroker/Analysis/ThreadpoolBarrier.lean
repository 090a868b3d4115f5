import MsgBroker.Analysis.ThreadpoolTasks

/-!
# Waiting for a thread pool is a barrier

The pending counter is the number of submissions that have raised it and whose task is not taken off
it yet: those on their way to a queue, those in a queue and those that a worker has not taken off
(`Counts`).
-/

set_option autoImplicit false

namespace MsgBroker.Analysis.Threadpool

open Lib Model Analysis.QueueSpec
open Function (update update_eq_self update_of_ne update_self)

variable {K T V : Type}

/-! ## The counters -/

/-- A submission that has begun and not returned. -/
def begun : SubmitPc K → ℤ
  | .idle => 0
  | .add _ | .choose _ | .push _ _ => 1

/-- A submission that has raised the pending counter and not returned. -/
def added : SubmitPc K → ℤ
  | .idle | .add _ => 0
  | .choose _ | .push _ _ => 1

/-- A submission that has chosen its worker and not returned. -/
def chosen : SubmitPc K → ℤ
  | .idle | .add _ | .choose _ => 0
  | .push _ _ => 1

/-- A task that a worker has taken from its queue and not off the counter. -/
def owed : WorkerPc K → ℤ
  | .look => 0
  | .execute _ | .sub => 1

/-- The counters; the submitters outside `busy` are in no call. -/
structure Counts (n : ℕ) (s : Pool K T V) (queue : ℕ → List K) (busy : Finset T) : Prop where
  idle : ∀ t ∉ busy, s.submitters t = .idle
  submitted : (s.submitted : ℤ) =
    ∑ t ∈ busy, begun (s.submitters t) + ∑ w ∈ Finset.range n, ((s.received w).length : ℤ)
  pending : s.pending = ∑ t ∈ busy, added (s.submitters t) +
    ∑ w ∈ Finset.range n, (((queue w).length : ℤ) + owed (s.workers w))
  roundRobin : s.roundRobin =
    ∑ t ∈ busy, chosen (s.submitters t) + ∑ w ∈ Finset.range n, ((s.received w).length : ℤ)
  small : s.submitted < 2 ^ 31

variable {n : ℕ} {s s' : Pool K T V} {queue : ℕ → List K} {busy : Finset T}

theorem Tasks.owed_le (h : Tasks n s queue) (w : ℕ) :
    ((queue w).length : ℤ) + owed (s.workers w) ≤ ((s.received w).length : ℤ) := by
  have hlen : (s.received w).length =
      (s.finished w).length + (executing (s.workers w)).length + (queue w).length := by
    rw [h.received, h.started, List.length_append, List.length_append]
  cases hpc : s.workers w with
  | look =>
    simp only [owed]
    omega
  | execute k =>
    simp only [hpc, executing, List.length_singleton] at hlen
    simp only [owed]
    omega
  | sub =>
    have hpos := List.length_pos_iff.mpr (h.sub w hpc)
    simp only [owed]
    omega

theorem weights (c : SubmitPc K) : 0 ≤ chosen c ∧ chosen c ≤ added c ∧ added c ≤ begun c := by
  cases c <;> simp [chosen, added, begun]

theorem owed_nonneg (c : WorkerPc K) : 0 ≤ owed c := by
  cases c <;> simp [owed]

theorem Counts.pending_le (h : Counts n s queue busy) (htasks : Tasks n s queue) :
    0 ≤ s.pending ∧ s.pending ≤ s.submitted := by
  rw [h.pending, h.submitted]
  constructor
  · refine add_nonneg (Finset.sum_nonneg fun t _ => ?_) (Finset.sum_nonneg fun w _ => ?_)
    · exact (weights (s.submitters t)).1.trans (weights (s.submitters t)).2.1
    · exact add_nonneg (Int.natCast_nonneg _) (owed_nonneg (s.workers w))
  · exact add_le_add (Finset.sum_le_sum fun t _ => (weights (s.submitters t)).2.2)
      (Finset.sum_le_sum fun w _ => htasks.owed_le w)

theorem Counts.roundRobin_le (h : Counts n s queue busy) :
    0 ≤ s.roundRobin ∧ s.roundRobin ≤ s.submitted := by
  rw [h.roundRobin, h.submitted]
  constructor
  · exact add_nonneg (Finset.sum_nonneg fun t _ => (weights (s.submitters t)).1)
      (Finset.sum_nonneg fun w _ => Int.natCast_nonneg _)
  · refine add_le_add (Finset.sum_le_sum fun t _ => ?_) le_rfl
    exact (weights (s.submitters t)).2.1.trans (weights (s.submitters t)).2.2

/-! ## The steps -/

theorem counts_init (n : ℕ) (next : K → Ptr K) :
    Counts n (Pool.init next : Pool K T V) (fun _ => []) ∅ := by
  refine ⟨fun _ _ => rfl, ?_, ?_, ?_, Nat.two_pow_pos 31⟩
  · simp [Pool.init]
  · simp [Pool.init, owed]
  · simp [Pool.init]

section Submitters

variable [DecidableEq T] {t : T}

theorem Counts.submitter (h : Counts n s queue busy) {c : SubmitPc K} {pending roundRobin : ℤ}
    {submitted : ℕ} (hpending : pending = s.pending - added (s.submitters t) + added c)
    (hround : roundRobin = s.roundRobin - chosen (s.submitters t) + chosen c)
    (hsubmitted : (submitted : ℤ) = s.submitted - begun (s.submitters t) + begun c)
    (hsmall : submitted < 2 ^ 31) :
    Counts n { s with
      pending := pending
      roundRobin := roundRobin
      submitted := submitted
      submitters := update s.submitters t c } queue (insert t busy) := by
  refine ⟨idle_update_busy h.idle t c, ?_, ?_, ?_, hsmall⟩
  · dsimp only
    rw [sum_update_busy h.idle rfl, hsubmitted, h.submitted]
    omega
  · dsimp only
    rw [sum_update_busy h.idle rfl, hpending, h.pending]
    omega
  · dsimp only
    rw [sum_update_busy h.idle rfl, hround, h.roundRobin]
    omega

theorem Counts.push (h : Counts n s queue busy) {k : K} {i : ℕ} (hpc : s.submitters t = .push k i)
    (hi : i < n) (queues : ℕ → MbQueue K) (next : K → Ptr K) :
    Counts n { s with
      queues := queues
      next := next
      submitters := update s.submitters t .idle
      received := update s.received i (s.received i ++ [k]) }
      (update queue i (queue i ++ [k])) (insert t busy) := by
  have hmem := Finset.mem_range.mpr hi
  have hreceived : ∑ w ∈ Finset.range n,
      ((update s.received i (s.received i ++ [k]) w).length : ℤ) =
        ∑ w ∈ Finset.range n, ((s.received w).length : ℤ) + 1 := by
    rw [sum_change (f := fun w => ((s.received w).length : ℤ)) hmem fun w _ hw => by
      rw [update_of_ne hw], update_self, List.length_append,
      List.length_singleton]
    omega
  have hqueue : ∑ w ∈ Finset.range n,
      (((update queue i (queue i ++ [k]) w).length : ℤ) + owed (s.workers w)) =
        ∑ w ∈ Finset.range n, (((queue w).length : ℤ) + owed (s.workers w)) + 1 := by
    rw [sum_change (f := fun w => ((queue w).length : ℤ) + owed (s.workers w)) hmem
      fun w _ hw => by rw [update_of_ne hw], update_self, List.length_append,
      List.length_singleton]
    omega
  refine ⟨idle_update_busy h.idle t .idle, ?_, ?_, ?_, h.small⟩
  · dsimp only
    rw [sum_update_busy h.idle rfl, hreceived, h.submitted, hpc]
    simp only [begun]
    omega
  · dsimp only
    rw [sum_update_busy h.idle rfl, hqueue, h.pending, hpc]
    simp only [added]
    omega
  · dsimp only
    rw [sum_update_busy h.idle rfl, hreceived, h.roundRobin, hpc]
    simp only [chosen]
    omega

end Submitters

theorem Counts.worker (h : Counts n s queue busy) {w : ℕ} (hw : w < n) {c : WorkerPc K}
    {l : List K} {pending : ℤ} (queues : ℕ → MbQueue K) (next : K → Ptr K)
    (started finished : ℕ → List K)
    (hpending : pending = s.pending - (((queue w).length : ℤ) + owed (s.workers w)) +
      ((l.length : ℤ) + owed c)) :
    Counts n { s with
      pending := pending
      queues := queues
      next := next
      workers := update s.workers w c
      started := started
      finished := finished } (update queue w l) busy := by
  refine ⟨h.idle, h.submitted, ?_, h.roundRobin, h.small⟩
  dsimp only
  rw [sum_change (f := fun v => ((queue v).length : ℤ) + owed (s.workers v))
    (Finset.mem_range.mpr hw) fun v _ hv => by
      rw [update_of_ne hv, update_of_ne hv], update_self,
    update_self, hpending, h.pending]
  omega

/-- INTERNAL: what holds between the steps of the threads. -/
def Inv (n : ℕ) (s : Pool K T V) : Prop :=
  ∃ queue busy, Tasks n s queue ∧ Counts n s queue busy

theorem Tasks.worker_lt (h : Tasks n s queue) {w : ℕ} (hw : s.workers w ≠ .look) : w < n := by
  by_contra hn
  have hreceived := h.outside w (Nat.le_of_not_lt hn)
  have hle := h.owed_le w
  rw [hreceived] at hle
  cases hpc : s.workers w with
  | look => exact hw hpc
  | execute k =>
    rw [hpc] at hle
    simp only [owed, List.length_nil] at hle
    omega
  | sub =>
    rw [hpc] at hle
    simp only [owed, List.length_nil] at hle
    omega

section Steps

theorem inv_fetchAdd [DecidableEq T] (h : Inv n s) {t : T} (hstep : s.fetchAdd t = some s') :
    Inv n s' := by
  obtain ⟨queue, busy, htasks, hcounts⟩ := h
  unfold Pool.fetchAdd at hstep
  split at hstep
  · next k hpc =>
    cases hstep
    have htasks' : Tasks n { s with
        pending := s.pending + 1
        submitters := update s.submitters t (.choose k) } queue :=
      htasks.same_task (by rw [hpc]; rfl) nofun
    have hcounts' : Counts n { s with
        pending := s.pending + 1
        submitters := update s.submitters t (.choose k) } queue (insert t busy) := by
      refine hcounts.submitter ?_ ?_ ?_ hcounts.small
      · rw [hpc]
        simp only [added, sub_zero]
      · rw [hpc]
        simp only [chosen, sub_zero, add_zero]
      · rw [hpc]
        simp only [begun, sub_add_cancel]
    -- the counter does not wrap around, since it counts submissions
    have hle : 0 ≤ s.pending + 1 ∧ s.pending + 1 ≤ s.submitted := hcounts'.pending_le htasks'
    have hsmall := hcounts.small
    rw [int32_eq (by omega) (by omega)]
    exact ⟨queue, insert t busy, htasks', hcounts'⟩
  · cases hstep

theorem inv_choose [DecidableEq T] (h : Inv n s) (hn : 1 ≤ n) {t : T}
    (hstep : s.choose n t = some s') : Inv n s' := by
  obtain ⟨queue, busy, htasks, hcounts⟩ := h
  unfold Pool.choose at hstep
  split at hstep
  · next k hpc =>
    dsimp only at hstep
    split at hstep
    · cases hstep
    next hidx =>
    cases hstep
    have hlt : (s.roundRobin.tmod n).toNat < n := by
      have hmod := Int.tmod_lt_of_pos s.roundRobin (by omega : (0 : ℤ) < n)
      omega
    have hcounts' : Counts n { s with
        roundRobin := s.roundRobin + 1
        submitters := update s.submitters t (.push k (s.roundRobin.tmod n).toNat) }
        queue (insert t busy) := by
      refine hcounts.submitter ?_ ?_ ?_ hcounts.small
      · rw [hpc]
        simp only [added, sub_add_cancel]
      · rw [hpc]
        simp only [chosen, sub_zero]
      · rw [hpc]
        simp only [begun, sub_add_cancel]
    have hle : 0 ≤ s.roundRobin + 1 ∧ s.roundRobin + 1 ≤ s.submitted := hcounts'.roundRobin_le
    have hsmall := hcounts.small
    rw [int32_eq (by omega) (by omega)]
    refine ⟨queue, insert t busy, htasks.same_task (by rw [hpc]; rfl) ?_, hcounts'⟩
    rintro k i ⟨⟩
    exact hlt
  · cases hstep

theorem inv_push [DecidableEq K] [DecidableEq T] (h : Inv n s) {t : T}
    (hstep : s.push t = some s') : Inv n s' := by
  obtain ⟨queue, busy, htasks, hcounts⟩ := h
  unfold Pool.push at hstep
  split at hstep
  · next k i hpc =>
    have htask : (s.submitters t).task = some k := by
      rw [hpc]
      rfl
    have hi := htasks.target t k i hpc
    have hidle : Tasks n { s with submitters := update s.submitters t .idle } queue :=
      htasks.submitter nofun nofun nofun
    have hfree : ∀ u, (update s.submitters t .idle u).task ≠ some k := by
      refine forall_update (P := fun _ (c : SubmitPc K) => c.task ≠ some k) nofun fun u hut hu => ?_
      exact hut (htasks.distinct u t k hu htask)
    obtain ⟨q, next, hpush, htasks'⟩ := hidle.enqueue hi (htasks.fresh t k htask) hfree
    dsimp only at hpush
    simp only [hpush, Option.bind_eq_bind, Option.bind_some, Option.pure_def,
      Option.some.injEq] at hstep
    subst hstep
    exact ⟨_, _, htasks', hcounts.push hpc hi _ _⟩
  · cases hstep

theorem inv_pop [DecidableEq K] (h : Inv n s) {w : ℕ} (hw : w < n)
    (hstep : s.pop w = some s') : Inv n s' := by
  obtain ⟨queue, busy, htasks, hcounts⟩ := h
  unfold Pool.pop at hstep
  split at hstep
  · next hlook =>
    cases hqueue : queue w with
    | nil =>
      have hempty := htasks.queued w
      rw [hqueue] at hempty
      rw [hempty.pop_nil] at hstep
      cases hstep
      exact ⟨queue, busy, htasks, hcounts⟩
    | cons k l =>
      obtain ⟨q, next, hpop, htasks'⟩ := htasks.dequeue hqueue hlook
      simp only [hpop, Option.bind_eq_bind, Option.bind_some, Option.pure_def,
        Option.some.injEq] at hstep
      subst hstep
      refine ⟨_, busy, htasks', hcounts.worker hw _ _ _ _ ?_⟩
      rw [hqueue, hlook]
      simp only [owed, List.length_cons]
      omega
  · cases hstep

theorem inv_finish (h : Inv n s) {w : ℕ} (hstep : s.finish w = some s') : Inv n s' := by
  obtain ⟨queue, busy, htasks, hcounts⟩ := h
  unfold Pool.finish at hstep
  split at hstep
  · next k hpc =>
    cases hstep
    have hw : w < n := htasks.worker_lt (by rw [hpc]; nofun)
    have hcounts' := hcounts.worker (c := .sub) (l := queue w) hw s.queues s.next s.started
      (update s.finished w (s.finished w ++ [k]))
      (show s.pending = _ by rw [hpc]; simp only [owed, sub_add_cancel])
    rw [update_eq_self] at hcounts'
    exact ⟨queue, busy, htasks.finish hpc, hcounts'⟩
  · cases hstep

theorem inv_fetchSub (h : Inv n s) {w : ℕ} (hstep : s.fetchSub w = some s') : Inv n s' := by
  obtain ⟨queue, busy, htasks, hcounts⟩ := h
  unfold Pool.fetchSub at hstep
  split at hstep
  · next hpc =>
    cases hstep
    have hw : w < n := htasks.worker_lt (by rw [hpc]; nofun)
    have htasks' := htasks.fetchSub hpc (s.pending - 1)
    have hcounts' := hcounts.worker (c := .look) (l := queue w) hw s.queues s.next s.started
      s.finished (show s.pending - 1 = _ by rw [hpc]; simp only [owed]; omega)
    rw [update_eq_self] at hcounts'
    have hle : 0 ≤ s.pending - 1 ∧ s.pending - 1 ≤ s.submitted := hcounts'.pending_le htasks'
    have hsmall := hcounts.small
    rw [int32_eq (by omega) (by omega)]
    exact ⟨queue, busy, htasks', hcounts'⟩
  · cases hstep

end Steps

theorem finished_of_pending (htasks : Tasks n s queue) (hcounts : Counts n s queue busy)
    (hpending : s.pending ≤ 0) (w : ℕ) : s.finished w = s.received w := by
  have hnonneg : ∀ v, 0 ≤ ((queue v).length : ℤ) + owed (s.workers v) :=
    fun v => add_nonneg (Int.natCast_nonneg _) (owed_nonneg _)
  have hzero : ((queue w).length : ℤ) + owed (s.workers w) ≤ 0 := by
    by_cases hw : w < n
    · have hadded : 0 ≤ ∑ t ∈ busy, added (s.submitters t) :=
        Finset.sum_nonneg fun t _ =>
          (weights (s.submitters t)).1.trans (weights (s.submitters t)).2.1
      have hle := Finset.single_le_sum (f := fun v => ((queue v).length : ℤ) + owed (s.workers v))
        (fun v _ => hnonneg v) (Finset.mem_range.mpr hw)
      have hcounter := hcounts.pending
      omega
    · have hle := htasks.owed_le w
      rw [htasks.outside w (Nat.le_of_not_lt hw)] at hle
      exact hle
  have howed := owed_nonneg (s.workers w)
  have hqueue : queue w = [] := List.length_eq_zero_iff.mp (by omega)
  have hlook : executing (s.workers w) = [] := by
    cases hpc : s.workers w with
    | execute k =>
      rw [hpc] at hzero
      simp only [owed] at hzero
      omega
    | look => rfl
    | sub => rfl
  rw [htasks.received w, htasks.started w, hqueue, hlook, List.append_nil, List.append_nil]

/-! ## Every interleaving -/

section Runs

variable [DecidableEq K] [DecidableEq T] [DecidableEq V] {next : K → Ptr K}

theorem inv_submit {t : T} {k : K} (hinv : Inv n s) (hok : PoolStep.Allowed s (.submit t k))
    {s' : Pool K T V} (hstep : (threadpool n next).step s (.submit t k) = some s') : Inv n s' := by
  obtain ⟨queue, busy, htasks, hcounts⟩ := hinv
  obtain ⟨hsmall, hothers, hqueues⟩ := hok
  simp only [threadpool, Pool.step] at hstep
  split at hstep
  · next hidle =>
    cases hstep
    have hfresh : ∀ w, k ∉ queue w := by
      intro w
      have hw := hqueues w
      rwa [htasks.received w, List.drop_left] at hw
    refine ⟨queue, insert t busy, htasks.submitter ?_ ?_ nofun, hcounts.submitter ?_ ?_ ?_ hsmall⟩
    · rintro a ⟨⟩
      exact hfresh
    · rintro a ⟨⟩ u -
      exact hothers u
    · rw [hidle]
      simp only [added, sub_zero, add_zero]
    · rw [hidle]
      simp only [chosen, sub_zero, add_zero]
    · rw [hidle]
      simp only [begun, sub_zero, Nat.cast_add, Nat.cast_one]
  · cases hstep

theorem inv_of_reach (hn : 1 ≤ n) (h : Reach (threadpool n next) PoolStep.Allowed s) : Inv n s := by
  refine h.invariant (Inv n) ⟨_, _, tasks_init n next, counts_init n next⟩ ?_
  intro s l s' hinv hok hstep
  cases l with
  | submit t k => exact inv_submit hinv hok hstep
  | fetchAdd t => exact inv_fetchAdd hinv hstep
  | choose t => exact inv_choose hinv hn hstep
  | push t => exact inv_push hinv hstep
  | pop w =>
    simp only [threadpool, Pool.step] at hstep
    split at hstep
    · next hw => exact inv_pop hinv hw hstep
    · cases hstep
  | finish w => exact inv_finish hinv hstep
  | fetchSub w => exact inv_fetchSub hinv hstep
  | wait v =>
    obtain ⟨queue, busy, htasks, hcounts⟩ := hinv
    simp only [threadpool, Pool.step] at hstep
    split at hstep
    · cases hstep
    · cases hstep
      exact ⟨queue, busy, htasks.wait v _, hcounts.idle, hcounts.submitted, hcounts.pending,
        hcounts.roundRobin, hcounts.small⟩
  | load v =>
    obtain ⟨queue, busy, htasks, hcounts⟩ := hinv
    simp only [threadpool, Pool.step, Pool.load] at hstep
    split at hstep
    · cases hstep
      exact ⟨queue, busy, ⟨htasks.queued, htasks.received, htasks.started, htasks.sub,
        htasks.outside, htasks.disjoint, htasks.fresh, htasks.distinct, htasks.target,
        htasks.before⟩, hcounts.idle, hcounts.submitted, hcounts.pending, hcounts.roundRobin,
        hcounts.small⟩
    · cases hstep

/-- **Waiting for the pool is a barrier.**  For any number of workers, submitters and waiters, in
every interleaving with fewer than `2 ^ 31` submissions: each worker executes the tasks that its own
queue received, each once and in their order; and when a wait returns, whatever the queues had
received when it began is finished.  SRC: threadpool.c:9-34, 116-138 -/
theorem wait_is_barrier (hn : 1 ≤ n) (h : Reach (threadpool n next) PoolStep.Allowed s) :
    (∀ w, s.started w <+: s.received w) ∧ (∀ w, s.finished w <+: s.started w) ∧
      ∀ v t, s.load v = some t → t.waiting v = false → ∀ w, s.before v w <+: t.finished w := by
  obtain ⟨queue, busy, htasks, hcounts⟩ := inv_of_reach hn h
  refine ⟨fun w => ?_, fun w => ?_, fun v t hload hreturns w => ?_⟩
  · rw [htasks.received w]
    exact List.prefix_append _ _
  · rw [htasks.started w]
    exact List.prefix_append _ _
  · unfold Pool.load at hload
    split at hload
    · cases hload
      dsimp only at hreturns ⊢
      rw [update_self, decide_eq_false_iff_not] at hreturns
      rw [finished_of_pending htasks hcounts (Int.not_lt.mp hreturns) w]
      exact htasks.before v w
    · cases hload

end Runs

/-- INTERNAL: a submission, the work of one of two workers, and a wait. -/
def oneTask : List (PoolStep Bool Unit Unit) :=
  [.submit () true, .fetchAdd (), .choose (), .push (), .wait (), .load (), .pop 0, .finish 0,
    .fetchSub 0]

/-- The wait goes on while the task is in the queue, and returns when it is off the counter. -/
theorem wait_is_barrier_oneTask :
    ∃ s : Pool Bool Unit Unit, Reach (threadpool 2 fun _ => .invalid) PoolStep.Allowed s ∧
      s.waiting () = true ∧ s.before () 0 = [true] ∧
      ∃ t, s.load () = some t ∧ t.waiting () = false ∧ s.before () 0 <+: t.finished 0 := by
  have hmeets : (threadpool 2 fun _ => .invalid).Meets PoolStep.Allowed
      (threadpool 2 fun _ => .invalid).init oneTask := by
    refine ⟨⟨by decide, fun _ => nofun, fun _ => List.not_mem_nil⟩, fun s _ => ?_⟩
    refine System.meets_of_forall _ (fun l hl s => ?_) s
    simp only [List.mem_cons, List.not_mem_nil, or_false] at hl
    rcases hl with rfl | rfl | rfl | rfl | rfl | rfl | rfl | rfl <;> trivial
  have hrun : ((threadpool 2 fun _ => .invalid).run (threadpool 2 fun _ => .invalid).init
      oneTask).map (fun s => (s.waiting (), s.before () 0,
        (s.load ()).map fun t => t.waiting ())) = some (true, [true], some false) := by
    decide +kernel
  obtain ⟨s, hreach, heq⟩ := Reach.exists_of_run hmeets hrun
  simp only [Prod.mk.injEq] at heq
  obtain ⟨hwaiting, hbefore, hload⟩ := heq
  obtain ⟨t, ht, hreturns⟩ := Option.map_eq_some_iff.mp hload
  obtain ⟨-, -, hbarrier⟩ := wait_is_barrier (by decide) hreach
  exact ⟨s, hreach, hwaiting, hbefore, t, ht, hreturns, hbarrier () t ht hreturns 0⟩

end MsgBroker.Analysis.Threadpool
