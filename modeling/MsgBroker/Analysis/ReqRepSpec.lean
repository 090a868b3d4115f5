import MsgBroker.Analysis.RotorSpec
import MsgBroker.Model.ReqRepNet

/-!
# REQ and REP over FIFO pipes, one call at a time

What each protocol call does to its socket and to the queues, once the loops of the load balancer
and the fair queue are summed up by `serve_rule`.
-/

set_option autoImplicit false

namespace MsgBroker.Analysis

open Model

variable {π μ : Type} [DecidableEq π]

/-! ## Lists of pipes -/

@[simp] theorem ids_activate (lb : Rotor π) (p : π) :
    (lb.activate p).ids = p :: (lb.rm p).ids := rfl

omit [DecidableEq π] in
@[simp] theorem ids_add (lb : Rotor π) (p : π) : (lb.add p).ids = lb.ids ++ [p] := by
  simp [Rotor.add, Rotor.ids]

theorem ids_rm (lb : Rotor π) (p : π) : (lb.rm p).ids = lb.ids.erase p := by
  obtain ⟨l⟩ := lb
  induction l with
  | nil => rfl
  | cons d l ih =>
    simp only [Rotor.rm, Rotor.ids] at ih ⊢
    by_cases h : d.pipe = p
    · simp [h]
    · simp [h, ih]

theorem ids_add_activate (lb : Rotor π) (p : π) (h : p ∉ lb.ids) :
    ((lb.add p).activate p).ids = p :: lb.ids := by
  rw [ids_activate, ids_rm, ids_add, List.erase_append_right _ h]
  simp

/-! ## One pipe call -/

theorem fifo_send_cases (p : π) (m : μ) (e : Ends π μ × List Bool) :
    (fifoPipes.send p m e).1 = .ok ∧ (fifoPipes.send p m e).2.1 = e.1.push p m ∨
      (fifoPipes.send p m e).1 = .again ∧ (fifoPipes.send p m e).2.1 = e.1 := by
  simp only [fifoPipes]
  split <;> simp

theorem fifo_recv_cases (p : π) (e : Ends π μ × List Bool) :
    (∃ m ms, e.1.inn p = m :: ms ∧ (fifoPipes.recv p e).1 = .ok m ∧
        (fifoPipes.recv p e).2.1 = e.1.pop p) ∨
      (fifoPipes.recv p e).1 = .error .EAGAIN ∧ (fifoPipes.recv p e).2.1 = e.1 := by
  simp only [fifoPipes]
  cases h : e.1.inn p with
  | nil => simp
  | cons m ms => by_cases hb : e.2.headD false = true <;> simp_all

/-! ## REQ -/

theorem lbSend_fifo (lb : Rotor π) (m : μ) (w : Ends π μ) (ans : List Bool) :
    let r := lb.lbSend fifoPipes m (w, ans)
    (r.1 = .ok ∧ ∃ p l₁ l₂, lb.ids = l₁ ++ p :: l₂ ∧ r.2.1.ids = l₁ ++ l₂ ++ [p] ∧
        r.2.2.1 = w.push p m) ∨
      (r.1 = .again ∧ r.2.1.ids = lb.ids ∧ r.2.2.1 = w) := by
  intro r
  have hrule := lbSend_rule fifoPipes m lb (fun e => e.1 = w) (fun p e => e.1 = w.push p m)
    (fun _ _ => False) (w, ans) rfl (by
      intro p _ e he
      rcases fifo_send_cases p m e with ⟨h1, h2⟩ | ⟨h1, h2⟩
      all_goals
        rcases hx : fifoPipes.send p m e with ⟨rc, e'⟩
        rw [hx] at h1 h2
        subst h1
        simpa [PipeSent, he] using h2)
  simp only [r]
  rcases hs : lb.lbSend fifoPipes m (w, ans) with ⟨rc, lb', e'⟩
  rw [hs] at hrule
  cases rc with
  | ok =>
    obtain ⟨p, l₁, l₂, hw, h1, h2⟩ := hrule
    exact Or.inl ⟨rfl, p, l₁, l₂, h1, h2, hw⟩
  | err c =>
    right
    cases c <;> first
      | exact ⟨rfl, hrule.2, hrule.1⟩
      | exact hrule.1.elim

theorem req_send_fifo (q : Req π) (m : μ) (w : Ends π μ) (ans : List Bool) :
    let r := q.send fifoPipes m (w, ans)
    (r.1 = .ok ∧ q.sending = false ∧ ∃ p, p ∈ q.lb.ids ∧ r.2.1.lb.ids.Perm q.lb.ids ∧
        r.2.1.pipe = some p ∧ r.2.1.sending = true ∧ r.2.2.1 = w.push p m) ∨
      (r.1 ≠ .ok ∧ r.2.1.lb.ids = q.lb.ids ∧ r.2.1.pipe = q.pipe ∧
        r.2.1.sending = q.sending ∧ r.2.2.1 = w) := by
  intro r
  simp only [r, Req.send]
  by_cases hs : q.sending = true
  · right; simp [hs]
  · simp only [hs]
    have hlb := lbSend_fifo q.lb m w ans
    rcases hx : q.lb.lbSend fifoPipes m (w, ans) with ⟨rc, lb, e⟩
    simp only [hx] at hlb
    rcases hlb with ⟨rfl, p, l₁, l₂, h1, h2, h3⟩ | ⟨rfl, h2, h3⟩
    · left
      have hlast : lb.ids.getLast? = some p := by simp [h2]
      have hperm : lb.ids.Perm q.lb.ids := by
        rw [h2, h1, List.append_assoc]
        exact (List.perm_append_left_iff l₁).mpr (List.perm_append_singleton p l₂)
      simp only [hlast]
      exact ⟨rfl, by simp, p, by simp [h1], hperm, rfl, rfl, h3⟩
    · right; simp [h2, h3]

theorem req_recv_fifo (q : Req π) (w : Ends π μ) (ans : List Bool) :
    let r := q.recv fifoPipes (w, ans)
    (∃ m ms p, r.1 = .ok m ∧ q.sending = true ∧ q.pipe = some p ∧ w.inn p = m :: ms ∧
        r.2.1 = { q with sending := false } ∧ r.2.2.1 = w.pop p) ∨
      (∃ c, r.1 = .error c ∧ r.2.1 = q ∧ r.2.2.1 = w) := by
  intro r
  simp only [r, Req.recv]
  by_cases hs : q.sending = true
  · cases hp : q.pipe with
    | none => right; simp [hs]
    | some p =>
      simp only [hs, Bool.not_true, Bool.false_eq_true, if_false]
      rcases fifo_recv_cases p (w, ans) with ⟨m, ms, h1, h2, h3⟩ | ⟨h2, h3⟩
      all_goals
        rcases hx : fifoPipes.recv p (w, ans) with ⟨res, e⟩
        rw [hx] at h2 h3
        simp only at h2 h3
        subst h2
      · left; exact ⟨m, ms, p, rfl, trivial, rfl, h1, rfl, h3⟩
      · right; exact ⟨_, rfl, rfl, h3⟩
  · right; simp [hs]

theorem req_events_fifo (q : Req π) (w : Ends π μ) (ans : List Bool) :
    let r := q.events fifoPipes (w, ans)
    r.2.1.lb.ids = q.lb.ids ∧ r.2.1.pipe = q.pipe ∧ r.2.1.sending = q.sending ∧
      r.2.2.1 = w := by
  intro r
  simp only [r, Req.events]
  by_cases hs : q.sending = true
  · cases hp : q.pipe <;> simp [hs, hp, fifoPipes]
  · have h := lbCanSendLoop_rule (fifoPipes (μ := μ)) (fun e => e.1 = w)
      (fun _ _ he => he) [] q.lb.pipes (w, ans) rfl
    simpa [hs, Rotor.lbCanSend] using h

/-! ## REP -/

theorem fqRecvPipe_fifo (fq : Rotor π) (w : Ends π μ) (ans : List Bool) :
    let x := fq.fqRecvPipe fifoPipes (w, ans)
    (∃ m ms p, x.1 = .ok (m, p) ∧ p ∈ fq.ids ∧ w.inn p = m :: ms ∧ x.2.1.ids.Perm fq.ids ∧
        x.2.2.1 = w.pop p) ∨
      (∃ c, x.1 = .error c ∧ x.2.1.ids = fq.ids ∧ x.2.2.1 = w) := by
  intro x
  have hrule := serve_rule fifoPipes.recv fq (fun e => e.1 = w)
    (fun m p e => ∃ ms, w.inn p = m :: ms ∧ e.1 = w.pop p) (fun _ _ => False) (w, ans) rfl (by
      intro p _ e he
      rcases fifo_recv_cases p e with ⟨m, ms, h1, h2, h3⟩ | ⟨h2, h3⟩
      all_goals
        rcases hx : fifoPipes.recv p e with ⟨res, e'⟩
        rw [hx] at h2 h3
        simp only at h2 h3
        subst h2
        rw [he] at h3
      · exact ⟨ms, he ▸ h1, h3⟩
      · exact h3)
  simp only [x, Rotor.fqRecvPipe]
  rcases hs : fq.serve fifoPipes.recv (w, ans) with ⟨res, fq', e'⟩
  rw [hs] at hrule
  match res, hrule with
  | .ok (m, p), ⟨⟨ms, h1, h2⟩, l₁, l₂, h3, h4⟩ =>
    left
    refine ⟨m, ms, p, rfl, by simp [h3], h1, ?_, h2⟩
    show fq'.ids.Perm fq.ids
    rw [h4, h3, List.append_assoc]
    exact (List.perm_append_left_iff l₁).mpr (List.perm_append_singleton p l₂)
  | .error c, hrule =>
    right
    cases c <;> first
      | exact ⟨_, rfl, hrule.2, hrule.1⟩
      | exact hrule.1.elim

theorem rep_recv_fifo (r : Rep π) (w : Ends π μ) (ans : List Bool) :
    let x := r.recv fifoPipes (w, ans)
    (∃ m ms p, x.1 = .ok m ∧ r.lastPipe = none ∧ p ∈ r.fq.ids ∧ w.inn p = m :: ms ∧
        x.2.1.fq.ids.Perm r.fq.ids ∧ x.2.1.lastPipe = some p ∧ x.2.2.1 = w.pop p) ∨
      (∃ c, x.1 = .error c ∧ x.2.1.fq.ids = r.fq.ids ∧ x.2.1.lastPipe = r.lastPipe ∧
        x.2.2.1 = w) := by
  intro x
  simp only [x, Rep.recv]
  cases hl : r.lastPipe with
  | some p => right; exact ⟨_, rfl, rfl, hl, rfl⟩
  | none =>
    have hfq := fqRecvPipe_fifo r.fq w ans
    rcases hs : r.fq.fqRecvPipe fifoPipes (w, ans) with ⟨res, fq, e'⟩
    simp only [hs] at hfq
    rcases hfq with ⟨m, ms, p, rfl, hp, hinn, hperm, hw⟩ | ⟨c, rfl, hids, hw⟩
    · left
      exact ⟨m, ms, p, rfl, rfl, hp, hinn, hperm, rfl, hw⟩
    · right
      exact ⟨c, rfl, hids, rfl, hw⟩

theorem rep_send_fifo (r : Rep π) (m : μ) (w : Ends π μ) (ans : List Bool) :
    let x := r.send fifoPipes m (w, ans)
    (∃ p, x.1 = .ok ∧ r.lastPipe = some p ∧ x.2.1 = { r with lastPipe := none } ∧
        x.2.2.1 = w.push p m) ∨
      (x.1 ≠ .ok ∧ x.2.1 = r ∧ x.2.2.1 = w) := by
  intro x
  simp only [x, Rep.send]
  cases hl : r.lastPipe with
  | none => right; simp
  | some p =>
    rcases fifo_send_cases p m (w, ans) with ⟨h1, h2⟩ | ⟨h1, h2⟩
    · left; exact ⟨p, by simp [h1], rfl, by simp [h1], by simp [h1, h2]⟩
    · right; simp [h1, h2]

end MsgBroker.Analysis
