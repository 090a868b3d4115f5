import MsgBroker.Analysis.ReqRepSpec
import MsgBroker.Model.Pipeline

/-!
# The pipeline delivers every message once

A message that a PUSH took is on exactly one pipe, at exactly one place of what that pipe carried:
it has been received once, or it waits in the queue.
-/

set_option autoImplicit false

namespace MsgBroker.Analysis.Pipeline

open Lib Model
open Function (update update_of_ne update_self)

variable {ρ τ π μ : Type} [DecidableEq π]

/-! ## One operation -/

section Step

/-- The attached ends belong to the sockets that have them. -/
structure Attached (T : Mesh ρ τ π) (s : PipelineNet ρ τ π μ) : Prop where
  push : ∀ q, ∀ p ∈ (s.push q).ids, T.pushEnd p = q
  pull : ∀ r, ∀ p ∈ (s.pull r).ids, T.pullEnd p = r

/-- What an operation does to the history and to what the pipes carried. -/
inductive Step (T : Mesh ρ τ π) (s t : PipelineNet ρ τ π μ) : Prop where
  | quiet (sent : t.sent = s.sent) (carried : t.carried = s.carried)
      (received : ∀ e ∈ t.received, e ∈ s.received ∨ T.pullEnd e.2.1 = e.1)
  | send (p : π) (m : μ) (sent : t.sent = s.sent ++ [(T.pushEnd p, m)])
      (carried : t.carried = update s.carried p (s.carried p ++ [(m, s.sent.length)]))
      (received : t.received = s.received)

variable {T : Mesh ρ τ π} {s t : PipelineNet ρ τ π μ}

variable {lb : Rotor π} {p p' : π}

theorem mem_ids_attach {alloc : Bool}
    (h : p' ∈ (lb.attach p alloc).2.ids) : p' = p ∨ p' ∈ lb.ids := by
  unfold Rotor.attach at h
  split at h
  · rw [ids_activate, ids_rm, ids_add] at h
    rcases List.mem_cons.mp h with rfl | h
    · exact Or.inl rfl
    · simpa [or_comm] using List.mem_of_mem_erase h
  · exact Or.inr h

theorem mem_ids_refresh (h : p' ∈ (lb.refresh p).ids) :
    p' ∈ lb.ids := by
  unfold Rotor.refresh at h
  split at h
  · rename_i hp
    rw [ids_activate, ids_rm] at h
    rcases List.mem_cons.mp h with rfl | h
    · exact hp
    · exact List.mem_of_mem_erase h
  · exact h

theorem mem_ids_rm (h : p' ∈ (lb.rm p).ids) : p' ∈ lb.ids := by
  rw [ids_rm] at h
  exact List.mem_of_mem_erase h

omit [DecidableEq π] in
theorem Attached.setPush [DecidableEq ρ] (h : Attached T s) {q : ρ}
    (hlb : ∀ p ∈ lb.ids, T.pushEnd p = q ∨ p ∈ (s.push q).ids) : Attached T (s.setPush q lb) := by
  refine ⟨fun q' p hp => ?_, h.pull⟩
  by_cases hq : q' = q
  · subst hq
    simp only [PipelineNet.setPush, update_self] at hp
    exact (hlb p hp).elim id (h.push q' p)
  · simp only [PipelineNet.setPush, update_of_ne hq] at hp
    exact h.push q' p hp

omit [DecidableEq π] in
theorem Attached.setPull [DecidableEq τ] (h : Attached T s) {r : τ} {fq : Rotor π}
    (hfq : ∀ p ∈ fq.ids, T.pullEnd p = r ∨ p ∈ (s.pull r).ids) : Attached T (s.setPull r fq) := by
  refine ⟨h.push, fun r' p hp => ?_⟩
  by_cases hr : r' = r
  · subst hr
    simp only [PipelineNet.setPull, update_self] at hp
    exact (hfq p hp).elim id (h.pull r' p)
  · simp only [PipelineNet.setPull, update_of_ne hr] at hp
    exact h.pull r' p hp

theorem Step.same (hsent : t.sent = s.sent) (hrecv : t.received = s.received)
    (hwire : t.wire = s.wire) : Step T s t :=
  .quiet hsent (by funext p; rw [PipelineNet.carried, PipelineNet.carried, hrecv, hwire])
    fun _ he => Or.inl (hrecv ▸ he)

/-- INTERNAL: asking the pipes for messages moves none. -/
theorem fqCanRecvLoop_fifo (l : List (PipeData π)) (e : Ends π (μ × ℕ) × List Bool) :
    (Rotor.fqCanRecvLoop fifoPipes l e).2.1 = e.1 := by
  induction l generalizing e with
  | nil => rfl
  | cons d l ih =>
    have hkeep : (fifoPipes.hasMsg d.pipe e).2.1 = e.1 := rfl
    unfold Rotor.fqCanRecvLoop
    rcases hmsg : fifoPipes.hasMsg d.pipe e with ⟨b, e'⟩
    rw [hmsg] at hkeep
    cases b with
    | true => exact hkeep
    | false => exact (ih e').trans hkeep

variable [DecidableEq ρ] [DecidableEq τ]

/-- INTERNAL: a PUSH sends over one of its pipes or not at all. -/
theorem step_send (h : Attached T s) {q : ρ} {m : μ} {ans : List Bool}
    (hs : s.step T (.send q m ans) = some t) : Attached T t ∧ Step T s t := by
  have hlb := lbSend_fifo (s.push q) (m, s.sent.length) s.wire ans
  cases hs
  rcases hx : pushSend fifoPipes (m, s.sent.length) (s.push q) (s.wire, ans) with ⟨rc, lb, e⟩
  simp only [pushSend] at hx
  simp only [hx] at hlb
  rcases hlb with ⟨rfl, p, l₁, l₂, hids, hids', hw⟩ | ⟨rfl, hids, hw⟩
  · have hp : T.pushEnd p = q := h.push q p (by simp [hids])
    refine ⟨⟨(h.setPush fun p' hp' => Or.inr ?_).push, h.pull⟩,
      .send p m (by rw [hp]; rfl) (funext fun p' => ?_) rfl⟩
    · rw [hids'] at hp'
      simp only [hids, List.mem_append, List.mem_cons, List.not_mem_nil, or_false] at hp' ⊢
      tauto
    · simp only [PipelineNet.carried, PipelineNet.setPush, hw]
      by_cases hne : p' = p
      · subst hne
        rw [Ends.push_out_self, update_self, List.append_assoc]
      · rw [Ends.push_out_of_ne _ _ hne, update_of_ne hne]
        rfl
  · exact ⟨⟨(h.setPush fun p hp => Or.inr (hids ▸ hp)).push, h.pull⟩, .same rfl rfl hw⟩

/-- INTERNAL: a PULL receives the oldest message of one of its pipes or nothing. -/
theorem step_recv (h : Attached T s) {r : τ} {ans : List Bool}
    (hs : s.step T (.recv r ans) = some t) : Attached T t ∧ Step T s t := by
  have hfq := fqRecvPipe_fifo (s.pull r) s.wire.flip ans
  cases hs
  simp only [pullRecv]
  rcases hx : (s.pull r).fqRecvPipe fifoPipes (s.wire.flip, ans) with ⟨res, fq, e⟩
  simp only [hx] at hfq
  rcases hfq with ⟨m, ms, p, rfl, hp, hinn, hperm, hw⟩ | ⟨c, rfl, hids, hw⟩
  · refine ⟨⟨h.push, (h.setPull fun p' hp' => Or.inr (hperm.subset hp')).pull⟩,
      .quiet rfl (funext fun p' => ?_) fun x hx => ?_⟩
    · -- the head of the queue of `p` moves to the end of what was received over it
      simp only [PipelineNet.carried, hw, List.filter_append, List.map_append, Ends.flip_out]
      have hout : s.wire.out p = m :: ms := hinn
      by_cases hne : p' = p
      · subst hne
        simp [hout]
      · rw [Ends.pop_inn_of_ne _ hne]
        simp [Ne.symm hne]
    · rcases List.mem_append.mp hx with hx | hx
      · exact Or.inl hx
      · rw [List.mem_singleton.mp hx]
        exact Or.inr (h.pull r p hp)
  · refine ⟨⟨h.push, (h.setPull fun p hp => Or.inr (hids ▸ hp)).pull⟩, .same rfl rfl ?_⟩
    show e.1.flip = s.wire
    rw [hw, Ends.flip_flip]

theorem step_spec (h : Attached T s) {op : PipelineOp ρ τ π μ} (hs : s.step T op = some t) :
    Attached T t ∧ Step T s t := by
  cases op with
  | pushAdd p alloc =>
    simp only [PipelineNet.step, Option.ite_none_left_eq_some] at hs
    cases hs.2
    refine ⟨h.setPush fun p' hp' => ?_, .same rfl rfl rfl⟩
    exact (mem_ids_attach hp').imp_left fun heq => congrArg T.pushEnd heq
  | pushRm p => cases hs; exact ⟨h.setPush fun _ hp' => Or.inr (mem_ids_rm hp'), .same rfl rfl rfl⟩
  | pushOut p =>
    cases hs
    exact ⟨h.setPush fun _ hp' => Or.inr (mem_ids_refresh hp'), .same rfl rfl rfl⟩
  | pushEvents q ans =>
    cases hs
    have hrule := lbCanSendLoop_rule (fifoPipes (μ := μ × ℕ)) (fun e => e.1 = s.wire)
      (fun _ _ he => he) [] (s.push q).pipes (s.wire, ans) rfl
    refine ⟨⟨(h.setPush fun p hp => Or.inr ?_).push, h.pull⟩, .same rfl rfl hrule.2⟩
    have hids : _ = (s.push q).ids := hrule.1
    exact hids ▸ hp
  | send q m ans => exact step_send h hs
  | pullAdd p alloc =>
    simp only [PipelineNet.step, Option.ite_none_left_eq_some] at hs
    cases hs.2
    refine ⟨h.setPull fun p' hp' => ?_, .same rfl rfl rfl⟩
    exact (mem_ids_attach hp').imp_left fun heq => congrArg T.pullEnd heq
  | pullRm p => cases hs; exact ⟨h.setPull fun _ hp' => Or.inr (mem_ids_rm hp'), .same rfl rfl rfl⟩
  | pullIn p =>
    cases hs
    exact ⟨h.setPull fun _ hp' => Or.inr (mem_ids_refresh hp'), .same rfl rfl rfl⟩
  | pullEvents r ans =>
    cases hs
    refine ⟨⟨h.push, h.pull⟩, .same rfl rfl ?_⟩
    show (Rotor.fqCanRecvLoop fifoPipes (s.pull r).pipes (s.wire.flip, ans)).2.1.flip = s.wire
    rw [fqCanRecvLoop_fifo, Ends.flip_flip]
  | recv r ans => exact step_recv h hs

end Step

/-! ## Every run -/

section Run

variable [DecidableEq ρ] [DecidableEq τ] {T : Mesh ρ τ π} {s t : PipelineNet ρ τ π μ}

/-- The messages sent are those the pipes carried, each on one pipe, and every pipe has them in
the order in which they were sent. -/
structure Inv (T : Mesh ρ τ π) (s : PipelineNet ρ τ π μ) : Prop where
  attached : Attached T s
  ordered : ∀ p, (s.carried p).Pairwise fun x y => x.2 < y.2
  sent : ∀ n q m, s.sent[n]? = some (q, m) ↔ ∃ p, T.pushEnd p = q ∧ (m, n) ∈ s.carried p
  apart : ∀ p p' x x', x ∈ s.carried p → x' ∈ s.carried p' → x.2 = x'.2 → p = p'
  readers : ∀ e ∈ s.received, T.pullEnd e.2.1 = e.1

omit [DecidableEq ρ] [DecidableEq τ] in
theorem Inv.serial_lt (h : Inv T s) {p : π} {x : μ × ℕ} (hx : x ∈ s.carried p) :
    x.2 < s.sent.length :=
  (List.getElem?_eq_some_iff.mp ((h.sent x.2 (T.pushEnd p) x.1).mpr ⟨p, rfl, hx⟩)).1

omit [DecidableEq ρ] [DecidableEq τ] in
theorem mem_update_append {c : π → List (μ × ℕ)} {p p' : π} {x y : μ × ℕ} :
    y ∈ update c p (c p ++ [x]) p' ↔ y ∈ c p' ∨ p' = p ∧ y = x := by
  by_cases h : p' = p
  · subst h
    simp
  · simp [h]

omit [DecidableEq ρ] [DecidableEq τ] in
theorem Inv.of_step (h : Inv T s) (ht : Attached T t) (hstep : Step T s t) : Inv T t := by
  cases hstep with
  | quiet hsent hcarried hrecv =>
    refine ⟨ht, ?_, ?_, ?_, fun e he => (hrecv e he).elim (h.readers e) id⟩
    · rw [hcarried]; exact h.ordered
    · rw [hcarried, hsent]; exact h.sent
    · rw [hcarried]; exact h.apart
  | send p m hsent hcarried hrecv =>
    refine ⟨ht, fun p' => ?_, fun n q m' => ?_, fun p₁ p₂ x x' hx hx' heq => ?_, ?_⟩
    · rw [hcarried]
      by_cases hp : p' = p
      · subst hp
        rw [update_self, List.pairwise_append]
        refine ⟨h.ordered p', List.pairwise_singleton _ _, fun x hx y hy => ?_⟩
        rw [List.mem_singleton.mp hy]
        exact h.serial_lt hx
      · rw [update_of_ne hp]
        exact h.ordered p'
    · -- the new message has the next serial number, the others are where they were
      simp only [hcarried, hsent, mem_update_append]
      by_cases hn : n < s.sent.length
      · rw [List.getElem?_append_left hn, h.sent]
        refine exists_congr fun p' => and_congr_right fun _ => (or_iff_left ?_).symm
        rintro ⟨-, hxy⟩
        exact absurd (Prod.mk.inj hxy).2 (by omega)
      · constructor
        · intro hget
          obtain ⟨hlt, hval⟩ := List.getElem?_eq_some_iff.mp hget
          obtain rfl : n = s.sent.length := by simp at hlt; omega
          simp only [List.getElem_concat_length, Prod.mk.injEq] at hval
          exact ⟨p, hval.1, Or.inr ⟨rfl, by rw [hval.2]⟩⟩
        · rintro ⟨p', rfl, hx | ⟨rfl, hxy⟩⟩
          · exact absurd (h.serial_lt hx) hn
          · obtain ⟨rfl, rfl⟩ := Prod.mk.inj hxy
            simp
    · rw [hcarried] at hx hx'
      rcases mem_update_append.mp hx with hold | ⟨hp, hnew⟩ <;>
        rcases mem_update_append.mp hx' with hold' | ⟨hp', hnew'⟩
      · exact h.apart p₁ p₂ x x' hold hold' heq
      · exact absurd (h.serial_lt hold) (by rw [heq, hnew']; exact Nat.lt_irrefl _)
      · exact absurd (h.serial_lt hold') (by rw [← heq, hnew]; exact Nat.lt_irrefl _)
      · exact hp.trans hp'.symm
    · rw [hrecv]
      exact h.readers

/-- **Exactly once, and in order over every pipe.**  In every state of a network of PUSH and PULL
sockets, for any sequence of operations: a message is the `n`th one taken by a PUSH `q` if and
only if a pipe of `q` carried it with that number, that is, it was received over the pipe or is in
its queue; no two pipes, and no pipe twice, carried the same number; a pipe has carried its
messages in the order in which they were sent; and what was received over a pipe was received by
the PULL at its end.  SRC: push.c:25-78, pull.c:25-78, lb.c:20-112, fq.c:20-118 -/
theorem pipeline_exactly_once (h : Reach (PipelineNet.system T) (fun _ _ => True) s) :
    (∀ n q m, s.sent[n]? = some (q, m) ↔ ∃ p, T.pushEnd p = q ∧ (m, n) ∈ s.carried p) ∧
      (∀ p p' x x', x ∈ s.carried p → x' ∈ s.carried p' → x.2 = x'.2 → p = p') ∧
      (∀ p, (s.carried p).Pairwise fun x y => x.2 < y.2) ∧
      ∀ e ∈ s.received, T.pullEnd e.2.1 = e.1 := by
  have hinv : Inv T s := by
    refine h.invariant (Inv T) ?_ fun s op t hs _ hstep => ?_
    · refine ⟨⟨?_, ?_⟩, ?_, ?_, ?_, ?_⟩ <;>
        simp [PipelineNet.system, PipelineNet.init, PipelineNet.carried, Rotor.init, Rotor.ids,
          Ends.empty]
    · obtain ⟨hatt, hspec⟩ := step_spec hs.attached hstep
      exact hs.of_step hatt hspec
  exact ⟨hinv.sent, hinv.apart, hinv.ordered, hinv.readers⟩

/-- A PUSH and a PULL joined by two pipes. -/
def sampleMesh : Mesh Unit Unit Bool := ⟨fun _ => (), fun _ => ()⟩

/-- Two messages go over the two pipes, and the second pipe is read first. -/
def sampleOps : List (PipelineOp Unit Unit Bool ℕ) :=
  [.pushAdd false true, .pushAdd true true, .pullAdd true true, .pullAdd false true,
    .send () 10 [true], .send () 20 [true], .recv () [true]]

theorem pipeline_exactly_once_sample :
    ∃ s : PipelineNet Unit Unit Bool ℕ,
      (PipelineNet.system sampleMesh).run .init sampleOps = some s ∧
        s.sent = [((), 10), ((), 20)] ∧ s.received = [((), false, (20, 1))] ∧
        ∃ p, sampleMesh.pushEnd p = () ∧ (10, 0) ∈ s.carried p := by
  have hrun : (PipelineNet.system sampleMesh).run .init sampleOps = some _ := rfl
  exact ⟨_, hrun, rfl, rfl,
    ((pipeline_exactly_once (Reach.of_run_init hrun)).1 0 () 10).mp rfl⟩

end Run

end MsgBroker.Analysis.Pipeline
