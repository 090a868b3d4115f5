import MsgBroker.Model.SurveyClock

/-!
# The deadline of a survey and the option that set it

Every call that reads the clock closes an open survey exactly when the option is positive now and
the stored expiry is reached (`closes_eq`).
-/

set_option autoImplicit false

namespace MsgBroker.Analysis.SurveyDeadline

open Lib Model Model.SurveyClock

variable {π μ ε : Type} (ops : Pipes π μ ε) (bound : ℕ)

/-! ## What the calls do to the flag, the option and the expiry -/

section Calls

variable (sv : Surveyor π) (now : ℕ) (e : ε)

theorem drain_fields :
    (sv.drain ops bound e).1.surveying = sv.surveying ∧
      (sv.drain ops bound e).1.deadlineMs = sv.deadlineMs ∧
      (sv.drain ops bound e).1.surveyExpireMs = sv.surveyExpireMs := ⟨rfl, rfl, rfl⟩

theorem checkDeadline_fields :
    (sv.checkDeadline ops bound now e).1.surveying = (sv.surveying && !sv.expired now) ∧
      (sv.checkDeadline ops bound now e).1.deadlineMs = sv.deadlineMs ∧
      (sv.checkDeadline ops bound now e).1.surveyExpireMs = sv.surveyExpireMs := by
  unfold Surveyor.checkDeadline
  by_cases hexp : sv.expired now = true
  · rw [if_pos hexp, hexp]
    exact ⟨(Bool.and_false _).symm, rfl, rfl⟩
  · rw [if_neg hexp, Bool.eq_false_iff.mpr hexp]
    exact ⟨(Bool.and_true _).symm, rfl, rfl⟩

theorem recvReply_fields :
    (sv.recvReply ops e).2.1.surveying = sv.surveying ∧
      (sv.recvReply ops e).2.1.deadlineMs = sv.deadlineMs ∧
      (sv.recvReply ops e).2.1.surveyExpireMs = sv.surveyExpireMs := by
  unfold Surveyor.recvReply
  split
  · split <;> exact ⟨rfl, rfl, rfl⟩
  · split <;> exact ⟨rfl, rfl, rfl⟩

theorem recv_fields :
    (sv.recv ops bound now e).2.1.surveying = (sv.surveying && !sv.expired now) ∧
      (sv.recv ops bound now e).2.1.deadlineMs = sv.deadlineMs ∧
      (sv.recv ops bound now e).2.1.surveyExpireMs = sv.surveyExpireMs := by
  obtain ⟨hflag, hoption, hexpire⟩ := checkDeadline_fields ops bound sv now e
  obtain ⟨hflag', hoption', hexpire'⟩ := recvReply_fields ops
    (sv.checkDeadline ops bound now e).1 (sv.checkDeadline ops bound now e).2
  exact ⟨hflag'.trans hflag, hoption'.trans hoption, hexpire'.trans hexpire⟩

theorem events_fields :
    (sv.events ops bound now e).2.1.surveying = (sv.surveying && !sv.expired now) ∧
      (sv.events ops bound now e).2.1.deadlineMs = sv.deadlineMs ∧
      (sv.events ops bound now e).2.1.surveyExpireMs = sv.surveyExpireMs := by
  have hstate : (sv.events ops bound now e).2.1 = (sv.checkDeadline ops bound now e).1 := by
    unfold Surveyor.events
    dsimp only
    split <;> rfl
  rw [hstate]
  exact checkDeadline_fields ops bound sv now e

/-- INTERNAL: **`mb_surveyor_send`** finds the survey open, or sends nothing, or stores the expiry
of a new one. -/
theorem send_fields (later : ℕ) (msg : μ) :
    (sv.send ops bound now later msg e).2.1.deadlineMs = sv.deadlineMs ∧
    ((sv.surveying && !sv.expired now) = true ∧
        (sv.send ops bound now later msg e).1 = .err .EFSM ∧
        (sv.send ops bound now later msg e).2.1.surveying = true ∧
        (sv.send ops bound now later msg e).2.1.surveyExpireMs = sv.surveyExpireMs ∨
      (sv.surveying && !sv.expired now) = false ∧
        (sv.send ops bound now later msg e).1 = .again ∧
        (sv.send ops bound now later msg e).2.1.surveying = false ∨
      (sv.surveying && !sv.expired now) = false ∧
        (sv.send ops bound now later msg e).1 = .ok ∧
        (sv.send ops bound now later msg e).2.1.surveyExpireMs =
          if 0 < sv.deadlineMs then (later + sv.deadlineMs.toNat) % 2 ^ 64 else 0) := by
  obtain ⟨hflag, hoption, hexpire⟩ := checkDeadline_fields ops bound sv now e
  unfold Surveyor.send Surveyor.sendSurvey
  generalize sv.checkDeadline ops bound now e = r at hflag hoption hexpire
  obtain ⟨sv', e'⟩ := r
  dsimp only at hflag hoption hexpire ⊢
  by_cases hopen : sv'.surveying = true
  · rw [if_pos hopen]
    exact ⟨hoption, Or.inl ⟨hflag.symm.trans hopen, rfl, hopen, hexpire⟩⟩
  rw [if_neg hopen]
  have hclosed := hflag.symm.trans (Bool.eq_false_iff.mpr hopen)
  obtain ⟨hflag₂, hoption₂, -⟩ := drain_fields ops bound sv' e'
  split
  · exact ⟨hoption₂.trans hoption, Or.inr (Or.inl
      ⟨hclosed, rfl, hflag₂.trans (Bool.eq_false_iff.mpr hopen)⟩)⟩
  · refine ⟨hoption₂.trans hoption, Or.inr (Or.inr ⟨hclosed, rfl, ?_⟩)⟩
    rw [hoption]

end Calls

/-! ## One call on an open survey -/

section Close

variable [DecidableEq π] {ops bound} {s : SurveyClock π}

theorem closes_eq (hopen : s.sv.surveying = true) {c : SurveyCall π μ ε} (hok : Timed s c) :
    closes ops bound s c = (reading c).any s.sv.expired := by
  cases c with
  | send now later msg e =>
    show (s.sv.surveying && _) = s.sv.expired now
    obtain ⟨-, ⟨hflag, hrc, -⟩ | ⟨hflag, hrc, -⟩ | ⟨hflag, hrc, -⟩⟩ :=
      send_fields ops bound s.sv now e later msg
    all_goals
      rw [hopen, Bool.true_and] at hflag
      rw [hopen, hrc]
    · rw [Bool.not_eq_true'] at hflag
      rw [hflag]
      rfl
    · rw [Bool.not_eq_false'] at hflag
      rw [hflag]
      rfl
    · rw [Bool.not_eq_false'] at hflag
      rw [hflag]
      rfl
  | recv now e =>
    show (s.sv.surveying && !_) = s.sv.expired now
    rw [(recv_fields ops bound s.sv now e).1, hopen, Bool.true_and, Bool.true_and, Bool.not_not]
  | events now e =>
    show (s.sv.surveying && !_) = s.sv.expired now
    rw [(events_fields ops bound s.sv now e).1, hopen, Bool.true_and, Bool.true_and, Bool.not_not]
  | setDeadline ms =>
    show (s.sv.surveying && !(s.sv.setDeadline ms).2.surveying) = false
    have hkeep : (s.sv.setDeadline ms).2.surveying = s.sv.surveying := by
      unfold Surveyor.setDeadline
      split <;> rfl
    rw [hkeep, Bool.and_not_self]
  | add pipe alloc =>
    show (s.sv.surveying && !(s.sv.add pipe alloc).2.surveying) = false
    have hkeep : (s.sv.add pipe alloc).2.surveying = s.sv.surveying := by
      unfold Surveyor.add
      split <;> rfl
    rw [hkeep, Bool.and_not_self]
  | rm pipe =>
    show (s.sv.surveying && !(s.sv.surveying && !(s.sv.pipes.rm pipe).pipes.isEmpty)) = false
    have hsome : (s.sv.pipes.rm pipe).pipes.isEmpty = false := List.isEmpty_eq_false_iff.mpr hok
    rw [hsome, hopen]
    rfl

end Close

/-! ## Every trace -/

section Trace

variable [DecidableEq π] {ops bound} {s : SurveyClock π}

/-- INTERNAL: the option is in range, and the expiry of an open survey is the one it was sent
with. -/
structure Latched (s : SurveyClock π) : Prop where
  option : 0 ≤ s.sv.deadlineMs ∧ s.sv.deadlineMs < 2 ^ 31
  sent : 0 ≤ s.sentDeadline
  expire : s.sv.surveying = true →
    s.sv.surveyExpireMs =
      if 0 < s.sentDeadline then s.sentAt + s.sentDeadline.toNat else 0

omit [DecidableEq π] in
theorem Latched.keep (h : Latched s) {sv : Surveyor π} {t : ℕ}
    (hoption : sv.deadlineMs = s.sv.deadlineMs)
    (hexpire : sv.surveyExpireMs = s.sv.surveyExpireMs)
    (hflag : sv.surveying = true → s.sv.surveying = true) :
    Latched { s with sv := sv, time := t } where
  option := hoption ▸ h.option
  sent := h.sent
  expire hopen := hexpire.trans (h.expire (hflag hopen))

theorem surveying_of_and {b b' : Bool} (h : (b && b') = true) : b = true :=
  (Bool.and_eq_true_iff.mp h).1

theorem Latched.send (h : Latched s) {now later : ℕ} {msg : μ} {e : ε} {t : SurveyClock π}
    (hlater : later < 2 ^ 64 / 1000)
    (hs : SurveyClock.step ops bound s (.send now later msg e) = some t) : Latched t := by
  have hfields := send_fields ops bound s.sv now e later msg
  obtain ⟨hlow, hhigh⟩ := h.option
  simp only [SurveyClock.step] at hs
  generalize s.sv.send ops bound now later msg e = r at hfields hs
  obtain ⟨rc, sv, e'⟩ := r
  dsimp only at hfields hs
  obtain ⟨hoption, hcases⟩ := hfields
  rcases hcases with ⟨hflag, rfl, -, hexpire⟩ | ⟨-, rfl, hclosed⟩ | ⟨-, rfl, hexpire⟩
  · cases hs
    exact h.keep hoption hexpire fun _ => surveying_of_and hflag
  · cases hs
    refine ⟨hoption ▸ h.option, h.sent, fun hopen => ?_⟩
    exact absurd (hopen.symm.trans hclosed) (by decide)
  · cases hs
    refine ⟨hoption ▸ h.option, hlow, fun _ => hexpire.trans ?_⟩
    show _ = if 0 < s.sv.deadlineMs then later + s.sv.deadlineMs.toNat else 0
    split
    · apply Nat.mod_eq_of_lt
      omega
    · rfl

theorem latched_init : Latched (SurveyClock.system ops bound).init where
  option := ⟨(by decide : (0 : ℤ) ≤ 1000), (by decide : (1000 : ℤ) < 2 ^ 31)⟩
  sent := Int.le_refl 0
  expire := nofun

theorem latched_of_reach (h : Reach (SurveyClock.system ops bound) Timed s) : Latched s := by
  refine h.invariant Latched latched_init ?_
  rintro s (⟨now, later, msg, e⟩ | ⟨now, e⟩ | ⟨now, e⟩ | ⟨ms⟩ | ⟨pipe, alloc⟩ | ⟨pipe⟩) t hl hok hs
  · exact hl.send hok.2.2 hs
  · obtain ⟨hflag, hoption, hexpire⟩ := recv_fields ops bound s.sv now e
    cases hs
    exact hl.keep hoption hexpire fun hopen => surveying_of_and (hflag.symm.trans hopen)
  · obtain ⟨hflag, hoption, hexpire⟩ := events_fields ops bound s.sv now e
    cases hs
    exact hl.keep hoption hexpire fun hopen => surveying_of_and (hflag.symm.trans hopen)
  · cases hs
    unfold Surveyor.setDeadline
    split
    · exact hl
    · exact ⟨⟨Int.not_lt.mp ‹_›, hok⟩, hl.sent, hl.expire⟩
  · cases hs
    unfold Surveyor.add
    split
    · exact hl.keep rfl rfl id
    · exact hl
  · cases hs
    exact hl.keep rfl rfl surveying_of_and

omit [DecidableEq π] in
theorem expired_iff (hl : Latched s) (hopen : s.sv.surveying = true) (now : ℕ) :
    s.sv.expired now = true ↔
      0 < s.sv.deadlineMs ∧
        (if 0 < s.sentDeadline then s.sentAt + s.sentDeadline.toNat else 0) ≤ now := by
  unfold Surveyor.expired
  rw [hl.expire hopen, hopen, Bool.true_and, Bool.and_eq_true_iff, decide_eq_true_iff,
    decide_eq_true_iff]

/-- After any calls, a call on an open survey closes it exactly when its own deadline, the one
that was set when it was sent, is over, if and only if: the option is still zero, for a survey
sent with none; and for one sent with a deadline, the option is not zero, or the deadline is not
over yet.
SRC: surveyor.c:51-63, 160-217, 243-264 -/
theorem survey_closed_when_due_iff (hs : Reach (SurveyClock.system ops bound) Timed s)
    (hopen : s.sv.surveying = true) {c : SurveyCall π μ ε} (hok : Timed s c) :
    (closes ops bound s c = true ↔ Due s c) ↔
      ∀ now, reading c = some now →
        if s.sentDeadline = 0 then s.sv.deadlineMs = 0
        else now < s.sentAt + s.sentDeadline.toNat ∨ 0 < s.sv.deadlineMs := by
  have hl := latched_of_reach hs
  have hoption := hl.option.1
  have hsent := hl.sent
  rw [closes_eq hopen hok]
  unfold Due
  cases hreading : reading c with
  | none => simp
  | some now =>
    have hexp := expired_iff hl hopen now
    simp only [Option.any_some, Option.some.injEq, exists_eq_left', forall_eq', hexp]
    by_cases hzero : s.sentDeadline = 0
    · have hnot : ¬ 0 < s.sentDeadline := by omega
      simp only [hnot, if_false, if_pos hzero, Nat.zero_le, and_true, false_and, iff_false]
      omega
    · have hpos : 0 < s.sentDeadline := by omega
      simp only [hpos, if_true, if_neg hzero, true_and]
      omega

end Trace

/-! ## Changing the option while a survey is open -/

/-- INTERNAL: one respondent that takes every survey and never answers. -/
def silent : Pipes Unit Unit Unit where
  send _ _ e := (.ok, e)
  recv _ e := (.error .EAGAIN, e)
  hasMsg _ e := (false, e)
  canSend _ e := (true, e)

/-- INTERNAL: the SURVEYOR after the calls. -/
def after (calls : List (SurveyCall Unit Unit Unit)) : Option (SurveyClock Unit) :=
  (SurveyClock.system silent 0).run (SurveyClock.system silent 0).init calls

/-- INTERNAL: a survey sent with a deadline of one second, which is then made longer. -/
def extended : List (SurveyCall Unit Unit Unit) :=
  [.add () true, .send 10 10 () (), .setDeadline 5000]

/-- INTERNAL: a survey sent with a deadline of one second, which is then taken away. -/
def disabled : List (SurveyCall Unit Unit Unit) :=
  [.add () true, .send 10 10 () (), .setDeadline 0]

/-- INTERNAL: a survey sent without a deadline, which is then set. -/
def enabled : List (SurveyCall Unit Unit Unit) :=
  [.add () true, .setDeadline 0, .send 10 10 () (), .setDeadline 500]

/-- A longer deadline does not reach the open survey. -/
theorem survey_closed_when_due_extended :
    ∃ s : SurveyClock Unit, Reach (SurveyClock.system silent 0) Timed s ∧
      s.sv.surveying = true ∧
      (closes silent 0 s (.recv 1010 ()) = true ↔ Due s (.recv 1010 () : SurveyCall Unit Unit Unit))
      ∧ Due s (.recv 1010 () : SurveyCall Unit Unit Unit) := by
  have hrun : after extended = some _ := rfl
  have hreach : Reach (SurveyClock.system silent 0) Timed _ :=
    Reach.of_run Reach.init (by decide) hrun
  refine ⟨_, hreach, rfl, (survey_closed_when_due_iff hreach rfl (by decide)).mpr ?_,
    1010, rfl, by decide, by decide⟩
  rintro now ⟨⟩
  decide

/-- **The deadline of an open survey follows the option.**  With the option set to zero the survey
is not closed a minute later; with the option set from zero to 500 it is closed at once. -/
theorem deadline_follows_option :
    (∃ s : SurveyClock Unit, Reach (SurveyClock.system silent 0) Timed s ∧
      s.sv.surveying = true ∧ s.sentAt = 10 ∧ s.sentDeadline = 1000 ∧
      closes silent 0 s (.recv 60000 ()) = false) ∧
    ∃ s : SurveyClock Unit, Reach (SurveyClock.system silent 0) Timed s ∧
      s.sv.surveying = true ∧ s.sentAt = 10 ∧ s.sentDeadline = 0 ∧
      closes silent 0 s (.events 11 ()) = true := by
  have hdisabled : after disabled = some _ := rfl
  have henabled : after enabled = some _ := rfl
  exact ⟨⟨_, Reach.of_run Reach.init (by decide) hdisabled, rfl, rfl, rfl, rfl⟩,
    _, Reach.of_run Reach.init (by decide) henabled, rfl, rfl, rfl, rfl⟩

end MsgBroker.Analysis.SurveyDeadline
