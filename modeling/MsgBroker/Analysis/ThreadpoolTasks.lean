import MsgBroker.Analysis.QueueSpec
import MsgBroker.Lib.Threads
import MsgBroker.Model.Threadpool

/-!
# Where the tasks of a thread pool are

A task is being submitted, in one queue, in execution or done.
-/

set_option autoImplicit false

namespace MsgBroker.Analysis.Threadpool

open Lib Model Analysis.QueueSpec
open Function (update update_of_ne update_self)

variable {K T V : Type}

/-- The task in whose function a worker is. -/
def executing : WorkerPc K → List K
  | .execute task => [task]
  | .look | .sub => []

/-- Where the tasks are, with the items of each queue. -/
structure Tasks (n : ℕ) (s : Pool K T V) (queue : ℕ → List K) : Prop where
  queued : ∀ w, IsQueue (s.queues w) s.next (queue w)
  received : ∀ w, s.received w = s.started w ++ queue w
  started : ∀ w, s.started w = s.finished w ++ executing (s.workers w)
  sub : ∀ w, s.workers w = .sub → s.finished w ≠ []
  outside : ∀ w, n ≤ w → s.received w = []
  disjoint : ∀ v w k, k ∈ queue v → k ∈ queue w → v = w
  fresh : ∀ t k, (s.submitters t).task = some k → ∀ w, k ∉ queue w
  distinct : ∀ t u k, (s.submitters t).task = some k → (s.submitters u).task = some k → t = u
  target : ∀ t k i, s.submitters t = .push k i → i < n
  before : ∀ v w, s.before v w <+: s.received w

variable {n : ℕ} {s s' : Pool K T V} {queue : ℕ → List K}

theorem tasks_init (n : ℕ) (next : K → Ptr K) :
    Tasks n (Pool.init next : Pool K T V) fun _ => [] where
  queued _ := isQueue_init next
  received _ := rfl
  started _ := rfl
  sub _ := nofun
  outside _ _ := rfl
  disjoint _ _ _ := nofun
  fresh _ _ := nofun
  distinct _ _ _ := nofun
  target _ _ _ := nofun
  before _ _ := List.prefix_rfl

/-! ## The steps of a submitter -/

section Submitters

variable [DecidableEq T] {t : T} {c : SubmitPc K}

theorem Tasks.submitter (h : Tasks n s queue) {pending roundRobin : ℤ} {submitted : ℕ}
    (hqueue : ∀ k, c.task = some k → ∀ w, k ∉ queue w)
    (hothers : ∀ k, c.task = some k → ∀ u, u ≠ t → (s.submitters u).task ≠ some k)
    (htarget : ∀ k i, c = .push k i → i < n) :
    Tasks n { s with
      pending := pending
      roundRobin := roundRobin
      submitted := submitted
      submitters := update s.submitters t c } queue where
  queued := h.queued
  received := h.received
  started := h.started
  sub := h.sub
  outside := h.outside
  disjoint := h.disjoint
  fresh := forall_update
    (P := fun _ (c : SubmitPc K) => ∀ k, c.task = some k → ∀ w, k ∉ queue w) hqueue
    fun u _ => h.fresh u
  distinct := by
    intro u v k hu hv
    dsimp only at hu hv
    by_cases hut : u = t
    · by_cases hvt : v = t
      · rw [hut, hvt]
      · rw [hut, update_self] at hu
        rw [update_of_ne hvt] at hv
        exact absurd hv (hothers k hu v hvt)
    · rw [update_of_ne hut] at hu
      by_cases hvt : v = t
      · rw [hvt, update_self] at hv
        exact absurd hu (hothers k hv u hut)
      · rw [update_of_ne hvt] at hv
        exact h.distinct u v k hu hv
  target := forall_update (P := fun _ c => ∀ k i, c = SubmitPc.push k i → i < n) htarget
    fun u _ => h.target u
  before := h.before

theorem Tasks.same_task (h : Tasks n s queue) {pending roundRobin : ℤ}
    (htask : c.task = (s.submitters t).task) (htarget : ∀ k i, c = .push k i → i < n) :
    Tasks n { s with
      pending := pending
      roundRobin := roundRobin
      submitters := update s.submitters t c } queue := by
  refine h.submitter (fun k hk => h.fresh t k (htask ▸ hk)) (fun k hk u hut hu => ?_) htarget
  exact hut (h.distinct u t k hu (htask ▸ hk))

end Submitters

/-! ## The queues -/

section Queues

theorem mem_update_concat {i w : ℕ} {k a : K} :
    a ∈ update queue i (queue i ++ [k]) w ↔ a ∈ queue w ∨ w = i ∧ a = k := by
  by_cases hw : w = i
  · subst hw
    rw [update_self, List.mem_append, List.mem_singleton, and_iff_right rfl]
  · rw [update_of_ne hw, or_iff_left fun h => hw h.1]

variable [DecidableEq K]

theorem Tasks.enqueue (h : Tasks n s queue) {k : K} {i : ℕ} (hi : i < n) (hk : ∀ w, k ∉ queue w)
    (hfree : ∀ t, (s.submitters t).task ≠ some k) :
    ∃ q next, (s.queues i).push k s.next = some (q, next) ∧
      Tasks n { s with
        queues := update s.queues i q
        next := next
        received := update s.received i (s.received i ++ [k]) }
        (update queue i (queue i ++ [k])) := by
  obtain ⟨q, next, hpush, hqueue, hframe⟩ := (h.queued i).push (hk i)
  refine ⟨q, next, hpush, ?_, ?_, h.started, h.sub, ?_, ?_, ?_, h.distinct, h.target, ?_⟩
  · refine forall_update (P := fun w (q : MbQueue K) =>
      IsQueue q next (update queue i (queue i ++ [k]) w)) ?_ fun w hw => ?_
    · rw [update_self]
      exact hqueue
    · rw [update_of_ne hw]
      refine (h.queued w).congr fun a ha => hframe a ?_ fun hai => hw (h.disjoint w i a ha hai)
      rintro rfl
      exact hk w ha
  · refine forall_update (P := fun w l =>
      l = s.started w ++ update queue i (queue i ++ [k]) w) ?_ fun w hw => ?_
    · rw [update_self, h.received, List.append_assoc]
    · rw [update_of_ne hw]
      exact h.received w
  · refine forall_update (P := fun w l => n ≤ w → l = []) (fun hn => ?_) fun w _ => h.outside w
    exact absurd hi (Nat.not_lt.mpr hn)
  · intro v w a hv hw
    rcases mem_update_concat.mp hv with hv' | ⟨rfl, rfl⟩
    · rcases mem_update_concat.mp hw with hw' | ⟨rfl, rfl⟩
      · exact h.disjoint v w a hv' hw'
      · exact absurd hv' (hk v)
    · rcases mem_update_concat.mp hw with hw' | ⟨rfl, -⟩
      · exact absurd hw' (hk w)
      · rfl
  · intro t a ha w hmem
    rcases mem_update_concat.mp hmem with hw | ⟨-, rfl⟩
    · exact h.fresh t a ha w hw
    · exact hfree t ha
  · intro v
    refine forall_update (P := fun w l => s.before v w <+: l) ?_ fun w _ => h.before v w
    exact (h.before v i).trans (List.prefix_append _ _)

theorem Tasks.dequeue (h : Tasks n s queue) {k : K} {l : List K} {w : ℕ} (hw : queue w = k :: l)
    (hlook : s.workers w = .look) :
    ∃ q next, (s.queues w).pop s.next = some (some k, q, next) ∧
      Tasks n { s with
        queues := update s.queues w q
        next := next
        workers := update s.workers w (.execute k)
        started := update s.started w (s.started w ++ [k]) }
        (update queue w l) := by
  have hsub : ∀ v, ∀ a ∈ update queue w l v, a ∈ queue v :=
    forall_update (P := fun v l => ∀ a ∈ l, a ∈ queue v)
      (fun a ha => hw ▸ List.mem_cons_of_mem k ha) fun _ _ _ ha => ha
  have hqueued := h.queued w
  rw [hw] at hqueued
  obtain ⟨q, next, hpop, hqueue, hframe⟩ := hqueued.pop
  refine ⟨q, next, hpop, ?_, ?_, ?_, ?_, h.outside, ?_, ?_, h.distinct, h.target, h.before⟩
  · refine forall_update (P := fun v (q : MbQueue K) =>
      IsQueue q next (update queue w l v)) ?_ fun v hv => ?_
    · rw [update_self]
      exact hqueue
    · rw [update_of_ne hv]
      refine (h.queued v).congr fun a ha => hframe a ?_
      rintro rfl
      exact hv (h.disjoint v w a ha (hw ▸ List.mem_cons_self))
  · refine forall_update (P := fun v started =>
      s.received v = started ++ update queue w l v) ?_ fun v hv => ?_
    · rw [update_self, h.received, hw, List.append_assoc]
      rfl
    · rw [update_of_ne hv]
      exact h.received v
  · refine forall_update (P := fun v started => started =
      s.finished v ++ executing (update s.workers w (.execute k) v)) ?_ fun v hv => ?_
    · rw [update_self, h.started, hlook]
      simp only [executing, List.append_nil]
    · rw [update_of_ne hv]
      exact h.started v
  · exact forall_update (P := fun v c => c = WorkerPc.sub → s.finished v ≠ []) nofun
      fun v _ => h.sub v
  · exact fun u v a hu hv => h.disjoint u v a (hsub u a hu) (hsub v a hv)
  · exact fun t a ha v hv => h.fresh t a ha v (hsub v a hv)

end Queues

/-! ## The steps of a worker -/

theorem Tasks.finish (h : Tasks n s queue) {k : K} {w : ℕ} (hexecute : s.workers w = .execute k) :
    Tasks n { s with
      workers := update s.workers w .sub
      finished := update s.finished w (s.finished w ++ [k]) } queue := by
  refine ⟨h.queued, h.received, fun v => ?_, fun v hv => ?_, h.outside, h.disjoint, h.fresh,
    h.distinct, h.target, h.before⟩
  · dsimp only
    by_cases hvw : v = w
    · subst hvw
      rw [update_self, update_self, h.started, hexecute]
      simp only [executing, List.append_nil]
    · rw [update_of_ne hvw, update_of_ne hvw]
      exact h.started v
  · dsimp only at hv ⊢
    by_cases hvw : v = w
    · subst hvw
      rw [update_self]
      simp
    · rw [update_of_ne hvw] at hv ⊢
      exact h.sub v hv

theorem Tasks.fetchSub (h : Tasks n s queue) {w : ℕ} (hsub : s.workers w = .sub) (pending : ℤ) :
    Tasks n { s with
      pending := pending
      workers := update s.workers w .look } queue := by
  refine ⟨h.queued, h.received, ?_, ?_, h.outside, h.disjoint, h.fresh, h.distinct, h.target,
    h.before⟩
  · refine forall_update (P := fun v c => s.started v = s.finished v ++ executing c) ?_
      fun v _ => h.started v
    rw [h.started, hsub]
    rfl
  · exact forall_update (P := fun v c => c = WorkerPc.sub → s.finished v ≠ []) nofun
      fun v _ => h.sub v

theorem Tasks.wait [DecidableEq V] (h : Tasks n s queue) (v : V) (waiting : V → Bool) :
    Tasks n { s with
      waiting := waiting
      before := update s.before v s.received } queue :=
  ⟨h.queued, h.received, h.started, h.sub, h.outside, h.disjoint, h.fresh, h.distinct, h.target,
    forall_update (P := fun _ (before : ℕ → List K) => ∀ w, before w <+: s.received w)
      (fun _ => List.prefix_rfl) fun u _ => h.before u⟩

end MsgBroker.Analysis.Threadpool
