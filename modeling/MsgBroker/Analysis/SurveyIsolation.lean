import MsgBroker.Analysis.SurveySpec

/-!
# Which survey a reply belongs to

A SURVEYOR drops replies when a survey is closed and before the next one is sent, but only those
that have arrived: a reply that is still in transit then, or is sent afterwards, is read as a reply
to the next survey.
-/

set_option autoImplicit false

namespace MsgBroker.Analysis.Survey

open Lib Model

variable {ρ π μ : Type} [DecidableEq ρ] [DecidableEq π]

/-! ## The runs -/

/-- The condition on an operation: a survey that is going to be sent is sent when nothing of
an older one is left.  SRC: surveyor.c:160-202 -/
def SentQuiet (s : SurveyNet ρ π μ) : SurveyOp ρ π μ → Prop
  | .svSend _ now _ accept =>
    s.sv.surveying = false ∨ s.sv.expired now = true →
      (∃ p ∈ s.sv.pipes.ids, accept p = true) → s.Quiet
  | _ => True

instance [Fintype ρ] [Fintype π] (s : SurveyNet ρ π μ) (op : SurveyOp ρ π μ) :
    Decidable (SentQuiet s op) := by
  cases op <;> unfold SentQuiet <;> try unfold SurveyNet.Quiet
  all_goals infer_instance

/-- Everything in flight belongs to the last survey, and so did every reply read. -/
structure OfSurvey (s : SurveyNet ρ π μ) : Prop where
  ids : ∀ p, p ∈ s.sv.pipes.ids
  wire : All (fun m => m.2 = s.surveys) s.wire
  owed : ∀ r p, (s.rs r).lastPipe = some p → s.lastGot r = s.surveys
  got : ∀ x ∈ s.got, x.2 = x.1

omit [DecidableEq ρ] [DecidableEq π] in
theorem length_le_pending (s : SurveyNet ρ π μ) {p : π} (hp : p ∈ s.sv.pipes.ids) :
    (s.wire.arrived.inn p).length ≤ s.pending := by
  have hle := List.single_le_sum
    (l := s.sv.pipes.ids.map fun p => (s.wire.arrived.inn p).length) (fun _ _ => Nat.zero_le _)
    _ (List.mem_map_of_mem hp)
  unfold SurveyNet.pending
  omega

variable {s t : SurveyNet ρ π μ}

theorem OfSurvey.svSend (h : OfSurvey s) {m : μ} {now later : ℕ}
    {accept : π → Bool} (hok : SentQuiet s (.svSend m now later accept))
    (hs : s.step (.svSend m now later accept) = some t) : OfSurvey t := by
  obtain ⟨rc, sv', w', hrc, hsv, hw, hids, hcases⟩ := send_cases accept s.pending now
    later (m, s.surveys + 1) s.sv s.wire fun p hp => length_le_pending s hp
  simp only [SurveyNet.step, hrc, hsv, hw] at hs
  cases hs
  have hmem : ∀ p, p ∈ sv'.pipes.ids := fun p => hids ▸ h.ids p
  rcases hcases with ⟨hne, hless⟩ | ⟨hrcok, hidle, htaken, w₂, hless, hempty, hfan⟩
  · rw [if_neg hne]
    exact ⟨hmem, h.wire.less hless, h.owed, h.got⟩
  · rw [if_pos hrcok]
    have hquiet := hok hidle htaken
    -- nothing is left, so what is in flight afterwards is the new survey
    have hnone : All (fun x => x.2 = s.surveys + 1) w₂ := by
      refine ⟨fun p x hx => ?_, fun p x hx => ?_, fun p x hx => ?_, fun p x hx => ?_⟩
      · rw [hless.transit, (hquiet p).1] at hx
        cases hx
      · rw [hless.out, (hquiet p).2.1] at hx
        cases hx
      · rw [hless.transit, (hquiet p).2.2.1] at hx
        cases hx
      · rw [hempty p (h.ids p)] at hx
        cases hx
    refine ⟨hmem, ?_, fun r p hp => absurd hp ((hquiet p).2.2.2 r), h.got⟩
    rw [hfan]
    exact All.fanOut (e := (w₂, accept)) hnone rfl _

theorem OfSurvey.svRecv (h : OfSurvey s) {now : ℕ}
    (hs : s.step (.svRecv now) = some t) : OfSurvey t := by
  obtain ⟨hids, hall, hm⟩ :=
    recv_all (fun _ => false) h.wire s.pending now s.sv
  simp only [SurveyNet.step] at hs
  cases hs
  refine ⟨fun p => (hids p).mpr (h.ids p), hall, h.owed, ?_⟩
  generalize (s.sv.recv delayPipes s.pending now (s.wire, fun _ => false)).1 = res at hm
  cases res with
  | error c => exact h.got
  | ok m =>
    intro x hx
    rcases List.mem_append.mp hx with hx | hx
    · exact h.got x hx
    · rw [List.mem_singleton.mp hx]
      exact hm m rfl

theorem OfSurvey.rsRecv (h : OfSurvey s) {r : ρ}
    (hs : s.step (.rsRecv r) = some t) : OfSurvey t := by
  obtain ⟨hall, hcases⟩ :=
    respondent_recv_all (fun _ => false) h.wire.flip (s.rs r)
  simp only [SurveyNet.step] at hs
  generalize (s.rs r).recv delayPipes (s.wire.flip, fun _ => false) = a at hs hall hcases
  obtain ⟨res, x, e⟩ := a
  cases hs
  refine ⟨h.ids, hall.flip, fun r' p hp => ?_, h.got⟩
  simp only at hp hcases ⊢
  rcases hcases with ⟨m, rfl, hm⟩ | ⟨⟨c, rfl⟩, hlast⟩
  · by_cases hr : r' = r
    · subst hr
      simpa using hm
    · simp only [Function.update_of_ne hr] at hp ⊢
      exact h.owed r' p hp
  · by_cases hr : r' = r
    · subst hr
      simp only [Function.update_self] at hp
      exact h.owed r' p (hlast ▸ hp)
    · simp only [Function.update_of_ne hr] at hp
      exact h.owed r' p hp

theorem OfSurvey.rsSend (h : OfSurvey s) {r : ρ} {m : μ}
    {accept : π → Bool} (hs : s.step (.rsSend r m accept) = some t) : OfSurvey t := by
  obtain ⟨hall, hlast⟩ := respondent_send_all accept h.wire.flip (s.rs r)
    (m := (m, s.lastGot r)) fun p hp => h.owed r p hp
  simp only [SurveyNet.step] at hs
  generalize (s.rs r).send delayPipes (m, s.lastGot r) (s.wire.flip, accept) = a at hs hall hlast
  obtain ⟨rc, x, e⟩ := a
  cases hs
  refine ⟨h.ids, hall.flip, fun r' p hp => ?_, h.got⟩
  by_cases hr : r' = r
  · subst hr
    simp only [Function.update_self] at hp hlast
    rcases hlast with hsame | hnone
    · exact h.owed r' p (hsame ▸ hp)
    · rw [hnone] at hp
      cases hp
  · simp only [Function.update_of_ne hr] at hp
    exact h.owed r' p hp

theorem OfSurvey.step (h : OfSurvey s) (op : SurveyOp ρ π μ)
    (hok : SentQuiet s op) (hs : s.step op = some t) : OfSurvey t := by
  cases op with
  | svSend m now later accept => exact h.svSend hok hs
  | svRecv now => exact h.svRecv hs
  | svEvents now accept =>
    obtain ⟨hids, hless⟩ := events_less accept s.pending now s.sv s.wire
    simp only [SurveyNet.step] at hs
    cases hs
    exact ⟨fun p => hids ▸ h.ids p, h.wire.less hless, h.owed, h.got⟩
  | svDeadline ms =>
    simp only [SurveyNet.step] at hs
    cases hs
    refine ⟨fun p => ?_, h.wire, h.owed, h.got⟩
    have hids : (s.sv.setDeadline ms).2.pipes = s.sv.pipes := by
      unfold Surveyor.setDeadline
      split_ifs <;> rfl
    exact hids ▸ h.ids p
  | rsRecv r => exact h.rsRecv hs
  | rsSend r m accept => exact h.rsSend hs
  | toSv p =>
    obtain ⟨w, hw, rfl⟩ := Option.map_eq_some_iff.mp hs
    exact ⟨h.ids, h.wire.deliver hw, h.owed, h.got⟩
  | toRs p =>
    obtain ⟨w, hw, rfl⟩ := Option.map_eq_some_iff.mp hs
    exact ⟨h.ids, (h.wire.flip.deliver hw).flip, h.owed, h.got⟩

/-- **Replies belong to the survey they are read for**, in every run in which a survey is
sent only when no older survey is unread, no reply to one is owed and none is in transit:
every reply `mb_surveyor_recv` returns while survey `x.1` is open was sent by a RESPONDENT
that had received survey `x.1` last.  SRC: surveyor.c:31-63, 160-241, respondent.c:108-155 -/
theorem replies_belong (peer : π → ρ) (pipes : List π) (hall : ∀ p, p ∈ pipes)
    {s : SurveyNet ρ π μ} (h : Reach (SurveyNet.system peer pipes) SentQuiet s) :
    ∀ x ∈ s.got, x.2 = x.1 := by
  have hinit : OfSurvey (SurveyNet.init peer pipes : SurveyNet ρ π μ) := by
    refine ⟨fun p => ?_, ⟨nofun, nofun, nofun, nofun⟩, nofun, nofun⟩
    simpa [SurveyNet.init, Rotor.ids, Function.comp_def] using hall p
  exact (h.invariant OfSurvey hinit fun _ op _ hi hok hs => hi.step op hok hs).got

/-- Two surveys, each answered in time. -/
def twoSurveys : List (SurveyOp Unit Unit ℕ) :=
  [.svSend 1 0 0 fun _ => true, .toRs (), .rsRecv (), .rsSend () 10 fun _ => true, .toSv (),
    .svRecv 5, .svSend 2 2000 2000 fun _ => true, .toRs (), .rsRecv (),
    .rsSend () 20 fun _ => true, .toSv (), .svRecv 2005]

theorem replies_belong_twoSurveys :
    ∃ s, Reach (SurveyNet.system (fun _ : Unit => ()) [()]) (SentQuiet (μ := ℕ)) s ∧
      s.got = [(1, 1), (2, 2)] ∧ ∀ x ∈ s.got, x.2 = x.1 := by
  have hrun : ((SurveyNet.system (fun _ : Unit => ()) [()]).run
      (SurveyNet.init (fun _ => ()) [()]) twoSurveys).isSome := rfl
  have hmeets : (SurveyNet.system (fun _ : Unit => ()) [()]).Meets (SentQuiet (μ := ℕ))
      (SurveyNet.init (fun _ => ()) [()]) twoSurveys := by decide
  have hreach := Reach.of_run Reach.init hmeets (Option.some_get hrun).symm
  exact ⟨_, hreach, rfl, replies_belong _ _ (fun _ => List.mem_cons_self) hreach⟩

/-- The answer to the first survey is sent after its deadline, when the second is out. -/
def lateReply : List (SurveyOp Unit Unit ℕ) :=
  [.svSend 1 0 0 fun _ => true, .toRs (), .rsRecv (), .svSend 2 2000 2000 fun _ => true,
    .rsSend () 10 fun _ => true, .toSv (), .svRecv 2005]

/-- It is read as an answer to the second. -/
theorem reply_contaminates :
    ∃ s, Reach (SurveyNet.system (fun _ : Unit => ()) [()])
        (fun _ (_ : SurveyOp Unit Unit ℕ) => True) s ∧ s.got = [(2, 1)] := by
  have hrun : ((SurveyNet.system (fun _ : Unit => ()) [()]).run
      (SurveyNet.init (fun _ => ()) [()]) lateReply).isSome := rfl
  have hreach : Reach (SurveyNet.system (fun _ : Unit => ()) [()])
      (fun _ (_ : SurveyOp Unit Unit ℕ) => True) _ :=
    Reach.of_run_init (Option.some_get hrun).symm
  exact ⟨_, hreach, rfl⟩

end MsgBroker.Analysis.Survey
