import Mathlib.Algebra.Order.BigOperators.Group.List
import Mathlib.Algebra.Order.Group.Nat
import Mathlib.Data.Fintype.Basic
import MsgBroker.Analysis.RotorSpec
import MsgBroker.Model.SurveyNet

/-!
# What the calls of a survey do to the messages in flight

A property that all messages in flight have is kept by every call (`All`), and the calls that only
drop replies leave fewer of them (`Less`).
-/

set_option autoImplicit false

namespace MsgBroker.Analysis.Survey

open Lib Model

variable {ρ π μ : Type} [DecidableEq ρ] [DecidableEq π]

/-! ## Messages in flight -/

/-- All messages in the queues satisfy `P`. -/
structure All (P : μ → Prop) (w : Delay π μ) : Prop where
  transitOut : ∀ p, ∀ m ∈ w.transit.out p, P m
  arrivedOut : ∀ p, ∀ m ∈ w.arrived.out p, P m
  transitInn : ∀ p, ∀ m ∈ w.transit.inn p, P m
  arrivedInn : ∀ p, ∀ m ∈ w.arrived.inn p, P m

section Wire

variable {P : μ → Prop} {w : Delay π μ}

omit [DecidableEq π] in
theorem All.flip (h : All P w) : All P w.flip :=
  ⟨h.transitInn, h.arrivedInn, h.transitOut, h.arrivedOut⟩

variable {e : Delay π μ × (π → Bool)}

theorem All.send (h : All P e.1) (p : π) {m : μ} (hm : P m) :
    All P (delayPipes.send p m e).2.1 := by
  unfold delayPipes
  dsimp only
  split_ifs
  · refine ⟨fun q x hx => ?_, h.arrivedOut, h.transitInn, h.arrivedInn⟩
    by_cases hq : q = p
    · subst hq
      simp only [Ends.push_out_self] at hx
      rcases List.mem_append.mp hx with hx | hx
      · exact h.transitOut q x hx
      · rw [List.mem_singleton.mp hx]
        exact hm
    · simp only [Ends.push_out_of_ne _ _ hq] at hx
      exact h.transitOut q x hx
  · exact h

theorem All.recv (h : All P e.1) (p : π) :
    All P (delayPipes.recv p e).2.1 ∧ (∀ m, (delayPipes.recv p e).1 = .ok m → P m) := by
  unfold delayPipes
  dsimp only
  cases hinn : e.1.arrived.inn p with
  | nil => exact ⟨h, nofun⟩
  | cons x rest =>
    refine ⟨⟨h.transitOut, h.arrivedOut, h.transitInn, fun q y hy => ?_⟩, fun m hm => ?_⟩
    · by_cases hq : q = p
      · subst hq
        simp only [Ends.pop_inn_self] at hy
        exact h.arrivedInn q y (List.mem_of_mem_tail hy)
      · simp only [Ends.pop_inn_of_ne _ hq] at hy
        exact h.arrivedInn q y hy
    · cases hm
      exact h.arrivedInn p _ (hinn ▸ List.mem_cons_self)

theorem All.deliver (h : All P w) {p : π} {w' : Delay π μ} (hd : w.deliver p = some w') :
    All P w' := by
  unfold Delay.deliver at hd
  split at hd
  · cases hd
  · next m rest hinn =>
    cases hd
    refine ⟨h.transitOut, h.arrivedOut, fun q x hx => ?_, fun q x hx => ?_⟩
    · by_cases hq : q = p
      · subst hq
        simp only [Ends.pop_inn_self] at hx
        exact h.transitInn q x (List.mem_of_mem_tail hx)
      · simp only [Ends.pop_inn_of_ne _ hq] at hx
        exact h.transitInn q x hx
    · by_cases hq : q = p
      · subst hq
        simp only [Function.update_self] at hx
        rcases List.mem_append.mp hx with hx | hx
        · exact h.arrivedInn q x hx
        · rw [List.mem_singleton.mp hx]
          exact h.transitInn q m (hinn ▸ List.mem_cons_self)
      · simp only [Function.update_of_ne hq] at hx
        exact h.arrivedInn q x hx

theorem All.fanOut (h : All P e.1) {m : μ} (hm : P m)
    (ps : List π) : All P (fanOut delayPipes m ps e).2.1 := by
  induction ps generalizing e with
  | nil => exact h
  | cons p ps ih => exact ih (h.send p hm)

theorem fanOut_count (accept : π → Bool) (m : μ) (ps : List π) (w : Delay π μ) :
    (sentCount (Model.fanOut delayPipes m ps (w, accept)).1 = 0 →
        (Model.fanOut delayPipes m ps (w, accept)).2.1 = w) ∧
      (sentCount (Model.fanOut delayPipes m ps (w, accept)).1 ≠ 0 →
        ∃ p ∈ ps, accept p = true) := by
  induction ps generalizing w with
  | nil => exact ⟨fun _ => rfl, fun h => absurd rfl h⟩
  | cons p ps ih =>
    cases hp : accept p with
    | true =>
      have hsend : delayPipes.send p m (w, accept) =
          (.ok, { w with transit := w.transit.push p m }, accept) := if_pos hp
      unfold Model.fanOut
      rw [hsend]
      refine ⟨fun h => ?_, fun _ => ⟨p, List.mem_cons_self, hp⟩⟩
      simp [sentCount] at h
    | false =>
      have hsend : delayPipes.send p m (w, accept) = (.again, w, accept) :=
        if_neg (Bool.eq_false_iff.mp hp)
      obtain ⟨hzero, hpos⟩ := ih w
      unfold Model.fanOut
      rw [hsend]
      refine ⟨fun h => hzero (by simpa [sentCount] using h), fun h => ?_⟩
      obtain ⟨q, hq, haq⟩ := hpos (by simpa [sentCount] using h)
      exact ⟨q, List.mem_cons_of_mem _ hq, haq⟩

end Wire

/-! ## The drain -/

/-- Some of the messages that arrived at this end are gone, and nothing else changed. -/
structure Less (w w' : Delay π μ) : Prop where
  transit : w'.transit = w.transit
  out : w'.arrived.out = w.arrived.out
  inn : ∀ p, w'.arrived.inn p <:+ w.arrived.inn p

section Drain

variable {P : μ → Prop} {w w' w'' : Delay π μ} (accept : π → Bool)

omit [DecidableEq π] in
theorem Less.refl (w : Delay π μ) : Less w w := ⟨rfl, rfl, fun _ => List.suffix_rfl⟩

omit [DecidableEq π] in
theorem Less.trans (h : Less w w') (h' : Less w' w'') : Less w w'' :=
  ⟨h'.transit.trans h.transit, h'.out.trans h.out, fun p => (h'.inn p).trans (h.inn p)⟩

omit [DecidableEq π] in
theorem All.less (h : All P w) (hl : Less w w') : All P w' :=
  ⟨hl.transit ▸ h.transitOut, hl.out ▸ h.arrivedOut, hl.transit ▸ h.transitInn,
    fun p m hm => h.arrivedInn p m ((hl.inn p).subset hm)⟩

theorem drainPipe_eq (p : π) (n : ℕ) (w : Delay π μ) (accept : π → Bool) :
    Surveyor.drainPipe delayPipes p n (w, accept) =
      ({ w with arrived := { w.arrived with
          inn := Function.update w.arrived.inn p ((w.arrived.inn p).drop n) } }, accept) := by
  induction n generalizing w with
  | zero =>
    rw [List.drop_zero, Function.update_eq_self]
    rfl
  | succ n ih =>
    cases hinn : w.arrived.inn p with
    | nil =>
      have hrecv : delayPipes.recv p (w, accept) = (.error .EAGAIN, w, accept) := by
        simp only [delayPipes, hinn]
      unfold Surveyor.drainPipe
      rw [hrecv, List.drop_nil, ← hinn, Function.update_eq_self]
    | cons m rest =>
      have hrecv : delayPipes.recv p (w, accept) =
          (.ok m, { w with arrived := w.arrived.pop p }, accept) := by
        simp only [delayPipes, hinn]
      unfold Surveyor.drainPipe
      rw [hrecv]
      dsimp only
      rw [ih]
      simp [Ends.pop, hinn]

theorem drainLoop_less (bound : ℕ) (ds : List (PipeData π)) (w : Delay π μ) :
    ∃ ds' w', Surveyor.drainLoop delayPipes bound ds (w, accept) = (ds', w', accept) ∧
      Rotor.ids ⟨ds'⟩ = Rotor.ids ⟨ds⟩ ∧ Less w w' ∧
      ∀ p ∈ Rotor.ids ⟨ds⟩, (w.arrived.inn p).length ≤ bound → w'.arrived.inn p = [] := by
  induction ds generalizing w with
  | nil => exact ⟨[], w, rfl, rfl, .refl w, nofun⟩
  | cons d ds ih =>
    have hpipe := drainPipe_eq d.pipe bound w accept
    generalize hw₁ : ({ w with arrived := { w.arrived with
      inn := Function.update w.arrived.inn d.pipe ((w.arrived.inn d.pipe).drop bound) } } :
        Delay π μ) = w₁ at hpipe
    have hless : Less w w₁ := by
      subst hw₁
      refine ⟨rfl, rfl, fun p => ?_⟩
      by_cases hp : p = d.pipe
      · subst hp
        simpa using List.drop_suffix _ _
      · simp [Function.update_of_ne hp]
    obtain ⟨ds', w', hloop, hids, hless', hempty⟩ := ih w₁
    refine ⟨⟨d.pipe, false⟩ :: ds', w', ?_, ?_, hless.trans hless', ?_⟩
    · unfold Surveyor.drainLoop
      rw [hpipe, hloop]
    · simpa using hids
    · intro p hp hlen
      rcases List.mem_cons.mp hp with rfl | hp
      · have hnil : w₁.arrived.inn d.pipe = [] := by
          subst hw₁
          simpa using hlen
        exact List.suffix_nil.mp (hnil ▸ hless'.inn d.pipe)
      · exact hempty p hp (Nat.le_trans (hless.inn p).length_le hlen)

theorem drain_less (bound : ℕ) (self : Surveyor π) (w : Delay π μ) :
    ∃ pipes w',
      self.drain delayPipes bound (w, accept) = ({ self with pipes := pipes }, w', accept) ∧
      pipes.ids = self.pipes.ids ∧ Less w w' ∧
      ∀ p ∈ self.pipes.ids, (w.arrived.inn p).length ≤ bound → w'.arrived.inn p = [] := by
  obtain ⟨ds', w', hloop, hids, hless, hempty⟩ :=
    drainLoop_less accept bound self.pipes.pipes w
  exact ⟨⟨ds'⟩, w', by simp only [Surveyor.drain, hloop], hids, hless, hempty⟩

theorem checkDeadline_less (bound now : ℕ) (self : Surveyor π) (w : Delay π μ) :
    ∃ self' w', self.checkDeadline delayPipes bound now (w, accept) = (self', w', accept) ∧
      self'.pipes.ids = self.pipes.ids ∧ Less w w' ∧
      (self'.surveying = false → self.surveying = false ∨ self.expired now = true) := by
  unfold Surveyor.checkDeadline
  by_cases hexp : self.expired now = true
  · obtain ⟨pipes, w', hdrain, hids, hless, _⟩ := drain_less accept bound
      { self with surveying := false, timedOut := true } w
    rw [if_pos hexp, hdrain]
    exact ⟨_, w', rfl, hids, hless, fun _ => Or.inr hexp⟩
  · rw [if_neg hexp]
    exact ⟨self, w, rfl, rfl, .refl w, Or.inl⟩

end Drain

/-! ## The calls -/

section Calls

variable {P : μ → Prop} {w : Delay π μ} (accept : π → Bool)

/-- INTERNAL: **`mb_surveyor_send`** fails and sends nothing, or sends over pipes that have nothing
left to read. -/
theorem send_cases (bound now later : ℕ) (m : μ) (self : Surveyor π) (w : Delay π μ)
    (hbound : ∀ p ∈ self.pipes.ids, (w.arrived.inn p).length ≤ bound) :
    ∃ rc self' w', (self.send delayPipes bound now later m (w, accept)).1 = rc ∧
      (self.send delayPipes bound now later m (w, accept)).2.1 = self' ∧
      (self.send delayPipes bound now later m (w, accept)).2.2.1 = w' ∧
      self'.pipes.ids = self.pipes.ids ∧
      (rc ≠ .ok ∧ Less w w' ∨
        rc = .ok ∧ (self.surveying = false ∨ self.expired now = true) ∧
        (∃ p ∈ self.pipes.ids, accept p = true) ∧
        ∃ w₂, Less w w₂ ∧ (∀ p ∈ self.pipes.ids, w₂.arrived.inn p = []) ∧
          w' = (fanOut delayPipes m self.pipes.ids (w₂, accept)).2.1) := by
  obtain ⟨self₁, w₁, hcheck, hids₁, hless₁, hclosed⟩ :=
    checkDeadline_less accept bound now self w
  refine ⟨_, _, _, rfl, rfl, rfl, ?_⟩
  unfold Surveyor.send Surveyor.sendSurvey
  simp only [hcheck]
  by_cases hsurveying : self₁.surveying = true
  · rw [if_pos hsurveying]
    exact ⟨hids₁, Or.inl ⟨nofun, hless₁⟩⟩
  · rw [if_neg hsurveying]
    obtain ⟨pipes, w₂, hdrain, hids₂, hless₂, hempty⟩ :=
      drain_less accept bound self₁ w₁
    have hids : pipes.ids = self.pipes.ids := hids₂.trans hids₁
    have hnil : ∀ p ∈ self.pipes.ids, w₂.arrived.inn p = [] := fun p hp =>
      hempty p (hids₁ ▸ hp) (Nat.le_trans (hless₁.inn p).length_le (hbound p hp))
    obtain ⟨hzero, hpos⟩ := fanOut_count accept m pipes.ids w₂
    simp only [hdrain]
    by_cases hcount : sentCount (fanOut delayPipes m pipes.ids (w₂, accept)).1 = 0
    · rw [if_pos hcount]
      refine ⟨hids, Or.inl ⟨nofun, ?_⟩⟩
      simp only [hzero hcount]
      exact hless₁.trans hless₂
    · rw [if_neg hcount]
      refine ⟨hids, Or.inr ⟨rfl, hclosed (Bool.eq_false_iff.mpr hsurveying), ?_, w₂,
        hless₁.trans hless₂, hnil, ?_⟩⟩
      · exact hids ▸ hpos hcount
      · rw [← hids]

theorem probe_all (h : All P w) (pipes : Rotor π) :
    Served pipes (fun e => All P e.1) (fun m _ e => All P e.1 ∧ P m) (fun _ e => All P e.1)
      (Rotor.probe delayPipes.recv [] pipes.pipes (w, accept)) := by
  refine probe_rule _ _ _ _ _ _ _ _ rfl h fun p _ e he => ?_
  obtain ⟨hall, hm⟩ := he.recv p
  generalize delayPipes.recv p e = r at hall hm
  obtain ⟨res, e'⟩ := r
  cases res with
  | ok m => exact ⟨hall, hm m rfl⟩
  | error c => cases c <;> exact hall

omit [DecidableEq π] in
theorem mem_ids_of_served {self r : Rotor π} {p : π} {l₁ l₂ : List π}
    (h : self.ids = l₁ ++ p :: l₂) (h' : r.ids = l₁ ++ l₂ ++ [p]) (q : π) :
    q ∈ r.ids ↔ q ∈ self.ids := by
  rw [h, h']
  simp only [List.mem_append, List.mem_cons, List.not_mem_nil, or_false]
  tauto

theorem recv_all (h : All P w) (bound now : ℕ) (self : Surveyor π) :
    (∀ p, p ∈ (self.recv delayPipes bound now (w, accept)).2.1.pipes.ids ↔ p ∈ self.pipes.ids) ∧
      All P (self.recv delayPipes bound now (w, accept)).2.2.1 ∧
      ∀ m, (self.recv delayPipes bound now (w, accept)).1 = .ok m → P m := by
  obtain ⟨self₁, w₁, hcheck, hids₁, hless₁, _⟩ :=
    checkDeadline_less accept bound now self w
  have h₁ := h.less hless₁
  have hprobe := probe_all accept h₁ self₁.pipes
  unfold Surveyor.recv Surveyor.recvReply
  simp only [hcheck]
  by_cases hsurveying : self₁.surveying = true
  · rw [if_pos hsurveying, ← hids₁]
    generalize Rotor.probe delayPipes.recv [] self₁.pipes.pipes (w₁, accept) = r at hprobe ⊢
    obtain ⟨res, pipes, e⟩ := r
    cases res with
    | ok a =>
      obtain ⟨m, p⟩ := a
      obtain ⟨⟨hall, hm⟩, l₁, l₂, hold, hnew⟩ := hprobe
      refine ⟨mem_ids_of_served hold hnew, hall, fun m' hm' => ?_⟩
      cases hm'
      exact hm
    | error c =>
      have hkeep : All P e.1 ∧ pipes.ids = self₁.pipes.ids := by cases c <;> exact hprobe
      exact ⟨fun p => by rw [hkeep.2], hkeep.1, nofun⟩
  · rw [if_neg hsurveying]
    split_ifs
    · exact ⟨fun p => by rw [hids₁], h₁, nofun⟩
    · exact ⟨fun p => by rw [hids₁], h₁, nofun⟩

theorem respondent_recv_all (h : All P w) (self : Respondent π) :
    All P (self.recv delayPipes (w, accept)).2.2.1 ∧
      ((∃ m, (self.recv delayPipes (w, accept)).1 = .ok m ∧ P m) ∨
        (∃ c, (self.recv delayPipes (w, accept)).1 = .error c) ∧
          (self.recv delayPipes (w, accept)).2.1.lastPipe = self.lastPipe) := by
  have hprobe := probe_all accept h self.pipes
  unfold Respondent.recv
  cases hlast : self.lastPipe with
  | some p => exact ⟨h, Or.inr ⟨⟨_, rfl⟩, hlast⟩⟩
  | none =>
    generalize Rotor.probe delayPipes.recv [] self.pipes.pipes (w, accept) = r at hprobe ⊢
    obtain ⟨res, pipes, e⟩ := r
    cases res with
    | ok a =>
      obtain ⟨m, p⟩ := a
      obtain ⟨⟨hall, hm⟩, _⟩ := hprobe
      exact ⟨hall, Or.inl ⟨m, rfl, hm⟩⟩
    | error c =>
      have hkeep : All P e.1 := by cases c <;> exact hprobe.1
      exact ⟨hkeep, Or.inr ⟨⟨c, rfl⟩, rfl⟩⟩

theorem respondent_send_all (h : All P w) (self : Respondent π) {m : μ}
    (hm : ∀ p, self.lastPipe = some p → P m) :
    All P (self.send delayPipes m (w, accept)).2.2.1 ∧
      ((self.send delayPipes m (w, accept)).2.1.lastPipe = self.lastPipe ∨
        (self.send delayPipes m (w, accept)).2.1.lastPipe = none) := by
  unfold Respondent.send
  cases hlast : self.lastPipe with
  | none => exact ⟨h, Or.inl hlast⟩
  | some p =>
    have hsend : All P (delayPipes.send p m (w, accept)).2.1 := All.send h p (hm p hlast)
    refine ⟨hsend, ?_⟩
    dsimp only
    split_ifs
    · exact Or.inl hlast
    · exact Or.inr rfl

theorem events_less (bound now : ℕ) (self : Surveyor π) (w : Delay π μ) :
    (self.events delayPipes bound now (w, accept)).2.1.pipes.ids = self.pipes.ids ∧
      Less w (self.events delayPipes bound now (w, accept)).2.2.1 := by
  have hany : ∀ (probe : π → Delay π μ × (π → Bool) → Bool × Delay π μ × (π → Bool)),
      (∀ p e, (probe p e).2 = e) → ∀ ds e, (Surveyor.anyPipe probe ds e).2 = e := by
    intro probe hprobe ds
    induction ds with
    | nil => exact fun e => rfl
    | cons d ds ih =>
      intro e
      have hd := hprobe d.pipe e
      unfold Surveyor.anyPipe
      generalize probe d.pipe e = r at hd ⊢
      obtain ⟨b, e'⟩ := r
      cases b with
      | true => exact hd
      | false => exact (ih e').trans hd
  obtain ⟨self₁, w₁, hcheck, hids₁, hless₁, _⟩ :=
    checkDeadline_less accept bound now self w
  unfold Surveyor.events
  simp only [hcheck]
  by_cases hsurveying : self₁.surveying = true
  · rw [if_pos hsurveying]
    refine ⟨hids₁, ?_⟩
    simp only [hany delayPipes.hasMsg fun _ _ => rfl]
    exact hless₁
  · rw [if_neg hsurveying]
    refine ⟨hids₁, ?_⟩
    simp only [hany delayPipes.canSend fun _ _ => rfl]
    exact hless₁

end Calls

end MsgBroker.Analysis.Survey
