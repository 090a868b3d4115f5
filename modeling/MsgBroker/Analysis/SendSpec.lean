import MsgBroker.Analysis.RotorSpec
import MsgBroker.Model.Protocols

/-!
# What a send takes

`Takes` says what a send may do to the log of the copies taken by pipes: nothing if it answers
`-EAGAIN`, and otherwise one copy for each of some pipes.
-/

set_option autoImplicit false

namespace MsgBroker.Analysis.SendAgain

open Model

/-- What a send of `msg` that answers `rc` does to the log, `nd` telling that its pipes are
listed once. -/
structure Takes {π μ : Type} (nd : Prop) (msg : μ) (rc : Rc) (log log' : List (π × μ)) :
    Prop where
  again : rc = .again → log' = log
  once : nd → ∃ ps : List π, ps.Nodup ∧ log' = log ++ ps.map fun p => (p, msg)

section Log

variable {π μ ε : Type} {nd : Prop} {msg : μ} {rc : Rc} {log : List (π × μ)}

theorem Takes.none : Takes nd msg rc log log :=
  ⟨fun _ => rfl, fun _ => ⟨[], List.nodup_nil, (List.append_nil _).symm⟩⟩

theorem Takes.one (p : π) (hrc : rc ≠ .again) : Takes nd msg rc log (log ++ [(p, msg)]) :=
  ⟨fun h => absurd h hrc, fun _ => ⟨[p], List.nodup_singleton p, rfl⟩⟩

variable (ops : Pipes π μ ε)

theorem logged_send (p : π) (m : μ) (e : ε × List (π × μ)) :
    ops.logged.send p m e = ((ops.send p m e.1).1, (ops.send p m e.1).2,
      if (ops.send p m e.1).1 = .ok then e.2 ++ [(p, m)] else e.2) := rfl

theorem send_logged (p : π) (e : ε × List (π × μ)) :
    Takes nd msg (ops.logged.send p msg e).1 e.2 (ops.logged.send p msg e).2.2 := by
  rw [logged_send]
  by_cases hok : (ops.send p msg e.1).1 = .ok
  · rw [if_pos hok, hok]
    exact .one p nofun
  · rw [if_neg hok]
    exact .none

theorem fanOut_logged (msg : μ) (ps : List π) (e : ε × List (π × μ)) :
    ∃ took : List π, List.Sublist took ps ∧
      (fanOut ops.logged msg ps e).2.2 = e.2 ++ took.map (fun p => (p, msg)) ∧
      sentCount (fanOut ops.logged msg ps e).1 = took.length := by
  induction ps generalizing e with
  | nil => exact ⟨[], List.Sublist.slnil, (List.append_nil _).symm, rfl⟩
  | cons p ps ih =>
    obtain ⟨took, hsub, hlog, hcount⟩ := ih (ops.logged.send p msg e).2
    have hfan : fanOut ops.logged msg (p :: ps) e =
        ((ops.logged.send p msg e).1 ::
            (fanOut ops.logged msg ps (ops.logged.send p msg e).2).1,
          (fanOut ops.logged msg ps (ops.logged.send p msg e).2).2) := rfl
    rw [hfan]
    by_cases hok : (ops.send p msg e.1).1 = .ok
    · refine ⟨p :: took, hsub.cons_cons p, ?_, ?_⟩
      · rw [hlog]
        simp [Pipes.logged, hok]
      · simp only [sentCount, List.length_cons, ← hcount]
        simp [Pipes.logged, hok]
    · refine ⟨took, hsub.cons p, ?_, ?_⟩
      · rw [hlog]
        simp [Pipes.logged, hok]
      · rw [← hcount]
        simp [sentCount, Pipes.logged, hok]

theorem fanOut_takes (ps : List π) (e : ε × List (π × μ)) (hnd : nd → ps.Nodup)
    (hrc : rc = .again → sentCount (fanOut ops.logged msg ps e).1 = 0) :
    Takes nd msg rc e.2 (fanOut ops.logged msg ps e).2.2 := by
  obtain ⟨took, hsub, hlog, hcount⟩ := fanOut_logged ops msg ps e
  refine ⟨fun h => ?_, fun h => ⟨took, (hnd h).sublist hsub, hlog⟩⟩
  have hnil : took = [] := List.eq_nil_of_length_eq_zero (hcount ▸ hrc h)
  rw [hlog, hnil]
  exact List.append_nil _

theorem fanOutSend_takes (ps : List π) (e : ε × List (π × μ)) :
    Takes ps.Nodup msg (fanOutSend ops.logged msg ps e).1 e.2
      (fanOutSend ops.logged msg ps e).2.2 := by
  refine fanOut_takes ops ps e id fun h => ?_
  by_contra hpos
  simp only [fanOutSend, if_neg hpos] at h
  cases h

theorem xpubSend_takes (ps : List π) (e : ε × List (π × μ)) :
    Takes ps.Nodup msg (xpubSend ops.logged msg ps e).1 e.2
      (xpubSend ops.logged msg ps e).2.2 := by
  refine fanOut_takes ops ps e id fun h => ?_
  by_contra hpos
  have hand : ¬ (ps ≠ [] ∧ sentCount (fanOut ops.logged msg ps e).1 = 0) := fun hand => hpos hand.2
  simp only [xpubSend, if_neg hand] at h
  cases h

theorem pairSend_takes (pipe : Option π) (e : ε × List (π × μ)) :
    Takes nd msg (pairSend ops.logged msg pipe e).1 e.2 (pairSend ops.logged msg pipe e).2.2 := by
  cases pipe with
  | none => exact .none
  | some p => exact send_logged ops p e

theorem lbSend_takes (lb : Rotor π) (e : ε × List (π × μ)) :
    Takes nd msg (lb.lbSend ops.logged msg e).1 e.2 (lb.lbSend ops.logged msg e).2.2.2 := by
  have hcall : ∀ p ∈ lb.ids, ∀ e' : ε × List (π × μ), e'.2 = e.2 →
      PipeSent p (fun e' => e'.2 = e.2) (fun p e' => e'.2 = e.2 ++ [(p, msg)])
        (fun _ e' => e'.2 = e.2) (ops.logged.send p msg e') := by
    intro p _ e' he'
    rw [logged_send, he']
    generalize ops.send p msg e'.1 = r
    obtain ⟨rc, e₁⟩ := r
    cases rc with
    | ok => rfl
    | err c => cases c <;> rfl
  have hsent := lbSend_rule ops.logged msg lb (fun e' => e'.2 = e.2)
    (fun p e' => e'.2 = e.2 ++ [(p, msg)]) (fun _ e' => e'.2 = e.2) e rfl hcall
  generalize lb.lbSend ops.logged msg e = r at hsent ⊢
  obtain ⟨rc, lb', e'⟩ := r
  cases rc with
  | ok =>
    obtain ⟨p, _, _, hlog, _⟩ := hsent
    show Takes nd msg .ok e.2 e'.2
    rw [hlog]
    exact .one p nofun
  | err c =>
    have hlog : e'.2 = e.2 := by cases c <;> exact hsent.1
    show Takes nd msg (.err c) e.2 e'.2
    rw [hlog]
    exact .none

theorem reqSend_takes [DecidableEq π] (self : Req π) (e : ε × List (π × μ)) :
    Takes nd msg (self.send ops.logged msg e).1 e.2 (self.send ops.logged msg e).2.2.2 := by
  have hlb : Takes nd msg (self.lb.lbSend ops.logged msg e).1 e.2
      (self.lb.lbSend ops.logged msg e).2.2.2 := lbSend_takes ops self.lb e
  have hids := lbSend_ids_ne_nil ops.logged msg self.lb e
  unfold Req.send
  split_ifs with hsending
  · exact .none
  · generalize self.lb.lbSend ops.logged msg e = r at hlb hids ⊢
    obtain ⟨rc, lb', e'⟩ := r
    cases rc with
    | err c => exact hlb
    | ok =>
      -- the list has a last item, so the answer stays `0`
      obtain ⟨p, hp⟩ := Option.ne_none_iff_exists'.mp
        (fun hnone => hids rfl (List.getLast?_eq_none_iff.mp hnone))
      simp only [hp]
      exact hlb

theorem repSend_takes [DecidableEq π] (self : Rep π) (e : ε × List (π × μ)) :
    Takes nd msg (self.send ops.logged msg e).1 e.2 (self.send ops.logged msg e).2.2.2 := by
  unfold Rep.send
  cases self.lastPipe with
  | none => exact .none
  | some p =>
    dsimp only
    split_ifs
    · exact send_logged ops p e
    · exact send_logged ops p e

theorem respondentSend_takes (self : Respondent π) (e : ε × List (π × μ)) :
    Takes nd msg (self.send ops.logged msg e).1 e.2 (self.send ops.logged msg e).2.2.2 := by
  unfold Respondent.send
  cases self.lastPipe with
  | none => exact .none
  | some p => exact send_logged ops p e

theorem xrespondentLoop_takes (seen rest : List π) (e : ε × List (π × μ)) :
    Takes nd msg (xrespondentLoop ops.logged msg seen rest e).1 e.2
      (xrespondentLoop ops.logged msg seen rest e).2.2.2 := by
  induction rest generalizing seen e with
  | nil => exact .none
  | cons p rest ih =>
    have hsend : Takes nd msg (ops.logged.send p msg e).1 e.2 (ops.logged.send p msg e).2.2 :=
      send_logged ops p e
    unfold xrespondentLoop
    generalize ops.logged.send p msg e = r at hsend ⊢
    obtain ⟨rc, e'⟩ := r
    cases rc with
    | ok => exact hsend
    | err c =>
      cases c with
      | EAGAIN =>
        have hlog : e'.2 = e.2 := hsend.again rfl
        rw [← hlog]
        exact ih _ e'
      | _ => exact hsend

/-! ### SURVEYOR -/

theorem drainPipe_logged (p : π) (n : ℕ) (e : ε × List (π × μ)) :
    (Surveyor.drainPipe ops.logged p n e).2 = e.2 := by
  induction n generalizing e with
  | zero => rfl
  | succ n ih =>
    unfold Surveyor.drainPipe
    have hrecv : (ops.logged.recv p e).2.2 = e.2 := rfl
    generalize ops.logged.recv p e = r at hrecv ⊢
    obtain ⟨res, e'⟩ := r
    cases res with
    | ok m => exact (ih e').trans hrecv
    | error c => exact hrecv

/-- INTERNAL: a drain keeps the list of pipes.  SRC: surveyor.c:32-50 -/
theorem ids_drain (ops : Pipes π μ ε) (bound : ℕ) (self : Surveyor π) (e : ε) :
    (self.drain ops bound e).1.pipes.ids = self.pipes.ids := by
  have hloop (ds : List (PipeData π)) (e : ε) :
      Rotor.ids ⟨(Surveyor.drainLoop ops bound ds e).1⟩ = Rotor.ids ⟨ds⟩ := by
    induction ds generalizing e with
    | nil => rfl
    | cons d ds ih => exact congrArg (d.pipe :: ·) (ih _)
  exact hloop self.pipes.pipes e

/-- INTERNAL: a drain sends nothing. -/
theorem drain_logged (bound : ℕ) (self : Surveyor π) (e : ε × List (π × μ)) :
    (self.drain ops.logged bound e).2.2 = e.2 := by
  have hloop (ds : List (PipeData π)) (e : ε × List (π × μ)) :
      (Surveyor.drainLoop ops.logged bound ds e).2.2 = e.2 := by
    induction ds generalizing e with
    | nil => rfl
    | cons d ds ih =>
      exact (ih (Surveyor.drainPipe ops.logged d.pipe bound e)).trans
        (drainPipe_logged ops d.pipe bound e)
  exact hloop self.pipes.pipes e

theorem checkDeadline_logged (bound now : ℕ) (self : Surveyor π) (e : ε × List (π × μ)) :
    (self.checkDeadline ops.logged bound now e).2.2 = e.2 ∧
      (self.checkDeadline ops.logged bound now e).1.pipes.ids = self.pipes.ids := by
  unfold Surveyor.checkDeadline
  split_ifs
  · exact ⟨drain_logged ops bound _ e, ids_drain _ bound _ e⟩
  · exact ⟨rfl, rfl⟩

theorem surveyorSend_takes (msg : μ) (bound now later : ℕ) (self : Surveyor π)
    (e : ε × List (π × μ)) :
    Takes self.pipes.ids.Nodup msg (self.send ops.logged bound now later msg e).1 e.2
        (self.send ops.logged bound now later msg e).2.2.2 ∧
      (self.send ops.logged bound now later msg e).2.1.pipes.ids = self.pipes.ids := by
  obtain ⟨hlog, hids⟩ := checkDeadline_logged ops bound now self e
  unfold Surveyor.send
  generalize self.checkDeadline ops.logged bound now e = r at hlog hids ⊢
  obtain ⟨self₁, e₁⟩ := r
  simp only at hlog hids ⊢
  have hlog' := drain_logged ops bound self₁ e₁
  have hids' := ids_drain ops.logged bound self₁ e₁
  unfold Surveyor.sendSurvey
  by_cases hsurveying : self₁.surveying = true
  · rw [if_pos hsurveying, hlog]
    exact ⟨.none, hids⟩
  · rw [if_neg hsurveying]
    generalize self₁.drain ops.logged bound e₁ = r at hlog' hids' ⊢
    obtain ⟨self₂, e₂⟩ := r
    simp only at hlog' hids' ⊢
    have hall : self₂.pipes.ids = self.pipes.ids := hids'.trans hids
    rw [← hlog, ← hlog', ← hall]
    by_cases hzero : sentCount (fanOut ops.logged msg self₂.pipes.ids e₂).1 = 0
    · rw [if_pos hzero]
      exact ⟨fanOut_takes ops _ e₂ id fun _ => hzero, rfl⟩
    · rw [if_neg hzero]
      exact ⟨fanOut_takes ops _ e₂ id nofun, rfl⟩

end Log

end MsgBroker.Analysis.SendAgain
