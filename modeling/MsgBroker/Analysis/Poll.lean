import MsgBroker.Model.Poll

/-!
# What a poll reports

`mb_poll` hands the sockets to `poll` under other indices and collects the answer.
-/

set_option autoImplicit false

namespace MsgBroker.Analysis.Poll

open Model

variable {nfds : ℕ} {events : PollEntry → Bool} {timeout : Int32} {start : UInt64} {r : PollRound}

theorem mem_pollEntries {e : PollEntry} :
    e ∈ pollEntries nfds events ↔ e.1 < nfds ∧ events e = true := by
  obtain ⟨i, snd⟩ := e
  cases snd <;> simp [pollEntries]

theorem length_pollEntries (nfds : ℕ) (events : PollEntry → Bool) :
    (pollEntries nfds events).length ≤ 2 * nfds := by
  induction nfds with
  | zero => simp [pollEntries]
  | succ n ih =>
    unfold pollEntries at ih ⊢
    rw [List.range_succ, List.flatMap_append, List.length_append]
    simp only [List.flatMap_singleton, List.length_append]
    split <;> split <;> simp only [List.length_cons, List.length_nil] <;> omega

/-- INTERNAL: **the loop that sets `revents`** sets the bits of the entries that are ready, and no
others. -/
theorem pollCollect_eq (pollin : PollEntry → Bool) (entries : List PollEntry)
    (revents : PollEntry → Bool) (e : PollEntry) :
    pollCollect pollin entries revents e = (revents e || (decide (e ∈ entries) && pollin e)) := by
  induction entries generalizing revents with
  | nil => simp [pollCollect]
  | cons e' es ih =>
    rw [pollCollect, ih]
    by_cases he : e = e'
    · subst he
      cases pollin e <;> simp
    · cases pollin e' <;> simp [he]

/-- `poll` had nothing to report. -/
def Quiet (nfds : ℕ) (events : PollEntry → Bool) (r : PollRound) : Prop :=
  ∃ ready, r.answer (pollEntries nfds events) = .ok ready ∧
    ∀ e ∈ pollEntries nfds events, ready e = (false, false)

/-- The time is over, by a reading of the clock in the round. -/
def TimedOut (nfds : ℕ) (events : PollEntry → Bool) (timeout : Int32) (start : UInt64)
    (r : PollRound) : Prop :=
  timeout = 0 ∧ Quiet nfds events r ∨
    ∃ clock ∈ [r.before, r.after], pollExpired timeout start clock = true

/-- `poll` had something to report, and the bits are those asked for and reported. -/
def Reported (nfds : ℕ) (events : PollEntry → Bool) (r : PollRound) (revents : PollEntry → Bool) :
    Prop :=
  ¬ Quiet nfds events r ∧ ∃ ready, r.poll = .ok ready ∧
    ∀ e, revents e = (decide (e.1 < nfds) && (events e && (ready e).1))

theorem quiet_iff {ready : PollEntry → Bool × Bool}
    (hready : r.answer (pollEntries nfds events) = .ok ready) :
    Quiet nfds events r ↔
      ¬ (pollEntries nfds events).any (fun e => ready e != (false, false)) = true := by
  simp [Quiet, hready]

theorem reported_of_any {ready : PollEntry → Bool × Bool}
    (hready : r.answer (pollEntries nfds events) = .ok ready)
    (hany : (pollEntries nfds events).any (fun e => ready e != (false, false)) = true) :
    Reported nfds events r
      (pollCollect (fun e => (ready e).1) (pollEntries nfds events) fun _ => false) := by
  have hne : pollEntries nfds events ≠ [] := by
    intro hnil
    simp [hnil] at hany
  refine ⟨fun hq => (quiet_iff hready).mp hq hany, ready, ?_, fun e => ?_⟩
  · rwa [PollRound.answer, if_neg hne] at hready
  · simp [pollCollect_eq, mem_pollEntries, Bool.and_assoc]

/-- What a round leaves: the result counts the sockets with a bit, and the bits are what `poll`
reported, or there are none because the time is over. -/
def Answered (nfds : ℕ) (events : PollEntry → Bool) (timeout : Int32) (start : UInt64)
    (r : PollRound) (res : ℕ) (revents : PollEntry → Bool) : Prop :=
  res = pollCount nfds revents ∧
    (Reported nfds events r revents ∨
      (∀ e, revents e = false) ∧ TimedOut nfds events timeout start r)

/-- INTERNAL: **one round** goes on if `poll` has nothing to report, and else answers. -/
theorem pollRound_spec (nfds : ℕ) (events : PollEntry → Bool) (timeout : Int32) (start : UInt64)
    (r : PollRound) :
    (pollRound nfds events timeout start r = none → Quiet nfds events r) ∧
      ∀ res revents, pollRound nfds events timeout start r = some (.ok (res, revents)) →
        Answered nfds events timeout start r res revents := by
  have hnone (h : TimedOut nfds events timeout start r) :
      Answered nfds events timeout start r 0 fun _ => false :=
    ⟨by simp [pollCount], Or.inr ⟨fun _ => rfl, h⟩⟩
  simp only [pollRound]
  split
  · simp
  split
  · rename_i hbefore
    refine ⟨by simp, fun res revents h => ?_⟩
    cases h
    exact hnone (Or.inr ⟨r.before, by simp, hbefore⟩)
  cases hready : r.answer (pollEntries nfds events) with
  | error c => simp
  | ok ready =>
    simp only
    split
    · rename_i hany
      refine ⟨by simp, fun res revents h => ?_⟩
      cases h
      exact ⟨rfl, Or.inl (reported_of_any hready hany)⟩
    rename_i hany
    have hquiet := (quiet_iff hready).mpr hany
    split
    · rename_i hend
      refine ⟨by simp, fun res revents h => ?_⟩
      cases h
      exact hnone (hend.imp (⟨·, hquiet⟩) (⟨r.after, by simp, ·⟩))
    · exact ⟨fun _ => hquiet, by simp⟩

/-- **A poll reports what there is.**  If `mb_poll` on at least one socket returns without an error
then in the first round in which `poll` has anything to report, or because the time is over.  In
the first case exactly the bits asked for and reported are set, in the second none, and the result
counts the sockets with a bit.  The arrays, twice as long as there are sockets, hold all entries.
SRC: poll.c:24-200 -/
theorem poll_reports {alloc : Bool} {rounds : List PollRound} {res : ℕ}
    {revents : PollEntry → Bool} (hpos : nfds ≠ 0)
    (h : mbPoll nfds events timeout alloc start rounds = some (.ok (res, revents))) :
    (pollEntries nfds events).length ≤ 2 * nfds ∧
      ∃ earlier r later, rounds = earlier ++ r :: later ∧ (∀ q ∈ earlier, Quiet nfds events q) ∧
        Answered nfds events timeout start r res revents := by
  rw [mbPoll, if_neg hpos] at h
  split at h
  · cases h
  obtain ⟨earlier, r, later, rfl, hr, hearlier⟩ := List.findSome?_eq_some_iff.mp h
  have hspec := pollRound_spec nfds events timeout start
  exact ⟨length_pollEntries nfds events, earlier, r, later, rfl,
    fun q hq => (hspec q).1 (hearlier q hq), (hspec r).2 res revents hr⟩

/-- A socket that can be written to. -/
theorem poll_reports_pollout : ∃ res revents earlier r later,
    [(⟨fun _ => none, 7, .ok fun e => (e.2, false), 7⟩ : PollRound)] = earlier ++ r :: later ∧
      (∀ q ∈ earlier, Quiet 1 (fun _ => true) q) ∧
        Answered 1 (fun _ => true) (-1) 0 r res revents :=
  ⟨1, _, (poll_reports (by decide) (rfl : mbPoll 1 (fun _ => true) (-1) true 0 _ = _)).2⟩

end MsgBroker.Analysis.Poll
