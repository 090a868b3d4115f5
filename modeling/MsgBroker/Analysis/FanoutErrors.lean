import MsgBroker.Analysis.PubSpec
import MsgBroker.Analysis.SendSpec

/-!
# What the fan-out sends make of failures

The fan-out of PUB, XPUB, XSUB, BUS, XBUS, SURVEYOR, XSURVEYOR and XPAIR counts the pipes that take
the message and forgets why the others did not.
-/

set_option autoImplicit false

namespace MsgBroker.Analysis.FanoutErrors

open Model
open SendAgain (ids_drain)

variable {π μ τ ε : Type}

/-- The protocols that fan out. -/
def fansOut : Sockbase π τ → Bool
  | .pub _ | .xpub _ | .xsub _ | .bus _ | .xbus _ | .surveyor _ | .xsurveyor _ | .xpair _ => true
  | _ => false

/-- The send gets to its fan-out: a SURVEYOR must not be surveying at the time `now`, and PUB reads
a priority out of the message first. -/
def offers (now : ℕ) (msg : Msg τ) : Sockbase π τ → Bool
  | .surveyor self => !self.surveying || self.expired now
  | .pub _ => (Pub.prioDecode msg).isSome
  | _ => true

/-! ## The loop -/

section Loop

variable {ops : Pipes π μ ε} {msg : μ} {ans : π → Rc}

theorem fanOut_answers (hans : ∀ p e, (ops.send p msg e).1 = ans p) (ps : List π) (e : ε) :
    (fanOut ops msg ps e).1 = ps.map ans := by
  induction ps generalizing e with
  | nil => rfl
  | cons p ps ih =>
    show (ops.send p msg e).1 :: (fanOut ops msg ps (ops.send p msg e).2).1 = _
    rw [hans, ih]
    rfl

theorem sentCount_eq_zero_iff (ps : List π) :
    sentCount (ps.map ans) = 0 ↔ ∀ p ∈ ps, ans p ≠ .ok := by
  unfold sentCount
  rw [List.count_eq_zero, List.mem_map]
  constructor
  · intro h p hp heq
    exact h ⟨p, hp, heq⟩
  · rintro h ⟨p, hp, heq⟩
    exact h p hp heq

theorem fanOutSend_again_iff (hans : ∀ p e, (ops.send p msg e).1 = ans p) (ps : List π) (e : ε) :
    (fanOutSend ops msg ps e).1 = .again ↔ ∀ p ∈ ps, ans p ≠ .ok := by
  rw [← sentCount_eq_zero_iff, ← fanOut_answers hans ps e]
  unfold fanOutSend
  dsimp only
  split
  · next h => exact iff_of_true rfl h
  · next h => exact iff_of_false nofun h

theorem xpubSend_again_iff (hans : ∀ p e, (ops.send p msg e).1 = ans p) {ps : List π}
    (hne : ps ≠ []) (e : ε) : (xpubSend ops msg ps e).1 = .again ↔ ∀ p ∈ ps, ans p ≠ .ok := by
  rw [← sentCount_eq_zero_iff, ← fanOut_answers hans ps e]
  unfold xpubSend
  dsimp only
  split
  · next h => exact iff_of_true rfl h.2
  · next h => exact iff_of_false nofun fun hzero => h ⟨hne, hzero⟩

end Loop

/-! ## SURVEYOR -/

section Survey

variable {ops : Pipes π μ ε} {msg : μ} {ans : π → Rc}

theorem sendSurvey_again_iff (hans : ∀ p e, (ops.send p msg e).1 = ans p) (bound now : ℕ)
    (self : Surveyor π) (e : ε) :
    (self.sendSurvey ops bound now msg e).1 = .again ↔
      self.surveying = false ∧ ∀ p ∈ self.pipes.ids, ans p ≠ .ok := by
  unfold Surveyor.sendSurvey
  split
  · next h => exact iff_of_false nofun fun hand => by rw [h] at hand; cases hand.1
  · next h =>
    rw [← sentCount_eq_zero_iff, ← ids_drain _ bound self e,
      ← fanOut_answers hans _ (self.drain ops bound e).2]
    dsimp only
    split
    · next hzero => exact iff_of_true rfl ⟨Bool.eq_false_iff.mpr h, hzero⟩
    · next hzero => exact iff_of_false nofun fun hand => hzero hand.2

theorem surveyorSend_again_iff (hans : ∀ p e, (ops.send p msg e).1 = ans p) (bound now later : ℕ)
    (self : Surveyor π) (e : ε) :
    (self.send ops bound now later msg e).1 = .again ↔
      (!self.surveying || self.expired now) = true ∧ ∀ p ∈ self.pipes.ids, ans p ≠ .ok := by
  unfold Surveyor.send Surveyor.checkDeadline
  by_cases hexp : self.expired now = true
  · rw [if_pos hexp]
    dsimp only
    rw [sendSurvey_again_iff hans, ids_drain, hexp, Bool.or_true]
    exact and_congr_left' (iff_of_true rfl rfl)
  · rw [if_neg hexp]
    dsimp only
    rw [sendSurvey_again_iff hans, Bool.eq_false_iff.mpr hexp, Bool.or_false, Bool.not_eq_true']

end Survey

/-! ## PUB -/

section Publish

variable {ops : Pipes π (Msg τ) ε} {msg : Msg τ} {ans : π → Rc}

theorem drainBuckets_facts (ops : Pipes π (Msg τ) ε) (msg : Msg τ) (self : Pub π τ) (e : ε) :
    (self.drainBuckets ops e).1.pipes = self.pipes ∧
      (msg ∉ PubQueue.queue self → msg ∉ PubQueue.queue (self.drainBuckets ops e).1) := by
  have hattempt (P : Prop) : PubQueue.Attempt ops self.pipes (fun q _ => P → msg ∉ q)
      fun _ _ => True := by
    intro m q e₁ hI
    refine ⟨fun _ => ⟨?_, trivial⟩, fun _ => hI⟩
    intro hP hmem
    exact hI hP (List.mem_cons_of_mem _ hmem)
  obtain ⟨self', removed, e', hdrain, hpipes, hnew, -⟩ := PubQueue.drainBuckets_rule self
    (hattempt (msg ∉ PubQueue.queue self)) (fun _ _ _ h => h) e id
  rw [hdrain]
  exact ⟨hpipes, hnew⟩

theorem retained_map (alloc : π → Bool) (ps : List π) :
    Pub.retained alloc ps (ps.map ans) = ps.countP fun p => ans p ≠ .ok ∧ alloc p := by
  induction ps with
  | nil => rfl
  | cons p ps ih =>
    unfold Pub.retained at ih ⊢
    rw [List.map_cons, List.zip_cons_cons, List.countP_cons, List.countP_cons, ih]

theorem pubSend_again_iff (hans : ∀ p e, (ops.send p msg e).1 = ans p) (alloc : π → Bool)
    {self : Pub π τ} (hne : self.pipes ≠ []) (e : ε) :
    (self.send ops alloc msg e).1 = .again ↔
      (Pub.prioDecode msg).isSome = true ∧ ∀ p ∈ self.pipes, ans p ≠ .ok := by
  obtain ⟨hpipes, -⟩ := drainBuckets_facts ops msg self e
  rw [← hpipes] at hne ⊢
  unfold Pub.send Pub.fanOutMsg
  dsimp only
  cases Pub.prioDecode msg with
  | none => exact iff_of_false nofun fun hand => nomatch hand.1
  | some prio =>
    dsimp only
    rw [fanOut_answers hans, if_neg (by simpa using hne), ← sentCount_eq_zero_iff]
    split
    · next hpos => exact iff_of_false nofun fun hand => by omega
    · next hzero => exact iff_of_true rfl ⟨rfl, by omega⟩

theorem pubSend_retained [DecidableEq τ] (hans : ∀ p e, (ops.send p msg e).1 = ans p)
    (alloc : π → Bool) (self : Pub π τ) (e : ε) (hnew : msg ∉ PubQueue.queue self) :
    (PubQueue.queue (self.send ops alloc msg e).2.2.1).count msg =
      if (Pub.prioDecode msg).isSome then self.pipes.countP fun p => ans p ≠ .ok ∧ alloc p
      else 0 := by
  obtain ⟨hpipes, hnew'⟩ := drainBuckets_facts ops msg self e
  rw [← hpipes]
  unfold Pub.send Pub.fanOutMsg
  dsimp only
  cases Pub.prioDecode msg with
  | none => exact List.count_eq_zero.mpr (hnew' hnew)
  | some prio =>
    dsimp only
    rw [(PubQueue.queue_retain _ prio rfl).count_eq, List.count_append,
      List.count_eq_zero.mpr (hnew' hnew), List.count_replicate_self, Nat.zero_add,
      fanOut_answers hans, retained_map]
    rfl

theorem countP_eq_iff {P Q : π → Bool} (himp : ∀ p, Q p = true → P p = true) (ps : List π) :
    ps.countP P = ps.countP Q ↔ ∀ p ∈ ps, P p = true → Q p = true := by
  induction ps with
  | nil => exact iff_of_true rfl nofun
  | cons p ps ih =>
    have hle : ps.countP Q ≤ ps.countP P := List.countP_mono_left fun p _ => himp p
    rw [List.countP_cons, List.countP_cons, List.forall_mem_cons, ← ih]
    cases hP : P p with
    | false =>
      have hQ : Q p = false := by
        rw [← Bool.not_eq_true] at hP ⊢
        exact fun hq => hP (himp p hq)
      simp [hQ]
    | true =>
      cases hQ : Q p with
      | false => simp; omega
      | true => simp

theorem pubSend_retained_iff [DecidableEq τ] (hans : ∀ p e, (ops.send p msg e).1 = ans p)
    (alloc : π → Bool) (self : Pub π τ) (e : ε) (hnew : msg ∉ PubQueue.queue self) :
    (PubQueue.queue (self.send ops alloc msg e).2.2.1).count msg =
        (if (Pub.prioDecode msg).isSome then
          self.pipes.countP fun p => ans p = .again ∧ alloc p else 0) ↔
      (Pub.prioDecode msg).isSome = false ∨
        ∀ p ∈ self.pipes, alloc p = true → ans p = .ok ∨ ans p = .again := by
  rw [pubSend_retained hans alloc self e hnew]
  cases (Pub.prioDecode msg).isSome with
  | false => exact iff_of_true rfl (Or.inl rfl)
  | true =>
    simp only [if_true, Bool.true_eq_false, false_or]
    rw [countP_eq_iff]
    · simp only [decide_eq_true_eq]
      constructor
      · intro h p hp halloc
        by_cases hok : ans p = .ok
        · exact Or.inl hok
        · exact Or.inr (h p hp ⟨hok, halloc⟩).1
      · rintro h p hp ⟨hok, halloc⟩
        exact ⟨(h p hp halloc).resolve_left hok, halloc⟩
    · intro p hp
      rw [decide_eq_true_iff] at hp ⊢
      exact ⟨by rw [hp.1]; nofun, hp.2⟩

end Publish

/-! ## All of them -/

section Sockets

variable {ops : Pipes π (Msg τ) ε} {msg : Msg τ} {ans : π → Rc}

theorem send_again_iff (hans : ∀ p e, (ops.send p msg e).1 = ans p) (env : SendEnv π)
    {x : Sockbase π τ} (hfan : fansOut x = true) (hne : x.fanPipes ≠ []) (e : ε) :
    (x.send ops env msg e).1 = .again ↔
      offers env.now msg x = true ∧ ∀ p ∈ x.fanPipes, ans p ≠ .ok := by
  have hplain (ps : List π) : (fanOutSend ops msg ps e).1 = .again ↔
      true = true ∧ ∀ p ∈ ps, ans p ≠ .ok :=
    (fanOutSend_again_iff hans ps e).trans ⟨fun h => ⟨rfl, h⟩, And.right⟩
  cases x with
  | bus pipes => exact hplain pipes
  | xbus pipes => exact hplain pipes
  | xpair pipes => exact hplain pipes
  | xsurveyor pipes => exact hplain pipes
  | xsub fq => exact hplain fq.ids
  | xpub pipes =>
    have hne' : pipes ≠ [] := hne
    exact (xpubSend_again_iff hans hne' e).trans ⟨fun h => ⟨rfl, h⟩, And.right⟩
  | surveyor self => exact surveyorSend_again_iff hans env.bound env.now env.later self e
  | pub self => exact pubSend_again_iff hans env.alloc hne e
  | _ => cases hfan

/-- One attempt of `mb_send` to send the message. -/
def attempt (ops : Pipes π (Msg τ) ε) (env : SendEnv π) (msg : Msg τ) (s : Sockbase π τ × ε) :
    Rc × Sockbase π τ × ε :=
  ((s.1.send ops env msg s.2).1, (s.1.send ops env msg s.2).2.2)

theorem sendLoop_retries_iff {σ : Type} (submit : σ → Rc × σ) {timeout : ℤ} (ht : timeout ≠ 0)
    (s : σ) : (sendLoop submit false timeout [] s).1 = none ↔ (submit s).1 = .again := by
  unfold sendLoop
  rcases submit s with ⟨rc, s'⟩
  by_cases hrc : rc = .again
  · subst hrc
    simp [ht]
  · refine iff_of_false ?_ hrc
    cases rc with
    | ok => nofun
    | err c => cases c <;> first | exact absurd rfl hrc | nofun

/-- **A fan-out send reports a permanent failure as retryable exactly if no pipe takes the message
and none answers `-EAGAIN`.**  For every fan-out protocol, every non-empty list of pipes and all
answers `ans` of the pipes to the message: that the send answers `-EAGAIN` only if some pipe did,
and that a blocking `mb_send` tries again only if some pipe did, hold exactly if the send does not
get to offering the message, or some pipe takes it or answers `-EAGAIN`.  PUB keeps copies only for
the pipes that answered `-EAGAIN` exactly if no pipe for which a copy can be allocated answers
anything else but success.
SRC: bus.c:97-122, pub.c:215-298, global.c:571-607 -/
theorem again_only_if_again_iff [DecidableEq τ] (ans : π → Rc)
    (hans : ∀ p e, (ops.send p msg e).1 = ans p) (env : SendEnv π) (x : Sockbase π τ)
    (hfan : fansOut x = true) (hne : x.fanPipes ≠ []) (e : ε) :
    (((x.send ops env msg e).1 = .again → ∃ p ∈ x.fanPipes, ans p = .again) ↔
      offers env.now msg x = false ∨ ∃ p ∈ x.fanPipes, ans p = .ok ∨ ans p = .again) ∧
    (∀ timeout : ℤ, timeout ≠ 0 →
      (((sendLoop (attempt ops env msg) false timeout [] (x, e)).1 = none →
          ∃ p ∈ x.fanPipes, ans p = .again) ↔
        offers env.now msg x = false ∨ ∃ p ∈ x.fanPipes, ans p = .ok ∨ ans p = .again)) ∧
    (x.isPub = true → msg ∉ x.held →
      ((x.send ops env msg e).2.2.1.held.count msg =
          (if offers env.now msg x then
            x.fanPipes.countP fun p => ans p = .again ∧ env.alloc p else 0) ↔
        offers env.now msg x = false ∨
          ∀ p ∈ x.fanPipes, env.alloc p = true → ans p = .ok ∨ ans p = .again)) := by
  have hagain := send_again_iff hans env hfan hne e
  have hcode : ((x.send ops env msg e).1 = .again → ∃ p ∈ x.fanPipes, ans p = .again) ↔
      offers env.now msg x = false ∨ ∃ p ∈ x.fanPipes, ans p = .ok ∨ ans p = .again := by
    rw [hagain]
    constructor
    · intro h
      by_cases hoff : offers env.now msg x = true
      · right
        by_cases hok : ∃ p ∈ x.fanPipes, ans p = .ok
        · obtain ⟨p, hp, heq⟩ := hok
          exact ⟨p, hp, Or.inl heq⟩
        · obtain ⟨p, hp, heq⟩ := h ⟨hoff, fun p hp heq => hok ⟨p, hp, heq⟩⟩
          exact ⟨p, hp, Or.inr heq⟩
      · exact Or.inl (Bool.eq_false_iff.mpr hoff)
    · rintro (hoff | ⟨p, hp, hok | hag⟩) ⟨hoff', hall⟩
      · rw [hoff] at hoff'
        cases hoff'
      · exact absurd hok (hall p hp)
      · exact ⟨p, hp, hag⟩
  refine ⟨hcode, ?_, ?_⟩
  · intro timeout ht
    rw [sendLoop_retries_iff _ ht]
    exact hcode
  · intro hpub hnew
    cases x with
    | pub self => exact pubSend_retained_iff hans env.alloc self e hnew
    | _ => cases hpub

end Sockets

/-- Pipes that answer every message with a fixed code, and have nothing to receive. -/
def constant (ans : Bool → Rc) : Pipes Bool (Msg Unit) Unit where
  send p _ e := (ans p, e)
  recv _ e := (.error .EAGAIN, e)
  hasMsg _ e := (false, e)
  canSend p e := (ans p = .ok, e)

def poison : Msg Unit := ⟨[], [1, 2, 3], ()⟩

def allocating : SendEnv Bool := ⟨fun _ => true, 0, 0, 0⟩

/-- A BUS with two pipes, one of which refuses the message for good while the other is full: the
`-EAGAIN` of the send is that of a pipe. -/
theorem again_only_if_again_bus :
    ((Sockbase.bus [false, true]).send
        (constant fun p => if p then .err .EMSGSIZE else .again) allocating poison ()).1 = .again ∧
      ∃ p ∈ [false, true], (if p then Rc.err .EMSGSIZE else .again) = .again := by
  have hans : ∀ p (e : Unit), ((constant fun p => if p then .err .EMSGSIZE else .again).send
      p poison e).1 = if p then Rc.err .EMSGSIZE else .again := fun _ _ => rfl
  obtain ⟨hcode, -, -⟩ := again_only_if_again_iff _ hans allocating (Sockbase.bus [false, true]) rfl
    (by decide) ()
  exact ⟨rfl, hcode.mpr (Or.inr ⟨false, by decide, Or.inr rfl⟩) rfl⟩

/-- A BUS and a PUB whose only pipe answers `-EMSGSIZE`: both answer `-EAGAIN`, PUB keeps a copy,
and a blocking `mb_send` without a timeout tries again for as long as it is let. -/
theorem emsgsize_retried :
    ((Sockbase.bus [true]).send (constant fun _ => .err .EMSGSIZE) allocating poison ()).1 =
        .again ∧
      ((Sockbase.pub ⟨[true], fun _ => [], 0⟩).send (constant fun _ => .err .EMSGSIZE) allocating
        poison ()).1 = .again ∧
      ((Sockbase.pub ⟨[true], fun _ => [], 0⟩).send (constant fun _ => .err .EMSGSIZE) allocating
        poison ()).2.2.1.held = [poison] ∧
      ∀ n, (sendLoop (attempt (constant fun _ => .err .EMSGSIZE) allocating poison) false (-1)
        (List.replicate n ⟨false, none, id⟩) (Sockbase.bus [true], ())).1 = none := by
  refine ⟨rfl, rfl, by decide, ?_⟩
  intro n
  induction n with
  | zero => rfl
  | succ n ih => exact ih

end MsgBroker.Analysis.FanoutErrors
