import MsgBroker.Analysis.PubSpec
import MsgBroker.Model.PubOffers

/-!
# The gauge of a PUB socket, and the headers it passes on

`mb_pub_send` drains, then reads the priority, then sends, then writes the gauge, and at last drops
the header of the message it was given.
-/

set_option autoImplicit false

namespace MsgBroker.Analysis.PubOffers

open Lib Model
open PubQueue (queue)

variable {π ε : Type} [DecidableEq π] {ops : Pipes π (Msg Unit) ε}

/-! ## One call -/

section Call

variable {s t : PubOffers π} {msg : Msg Unit} {alloc : π → Bool} {e : ε}

/-- What the drain of a call leaves of the socket. -/
def drained (ops : Pipes π (Msg Unit) ε) (s : PubOffers π) (e : ε) : Pub π Unit :=
  (s.pub.drainBuckets ops.recorded (e, s.offered)).1

/-- What the pipes were offered until then, and the state they are in. -/
def drainedEnv (ops : Pipes π (Msg Unit) ε) (s : PubOffers π) (e : ε) : ε × List (π × Msg Unit) :=
  (s.pub.drainBuckets ops.recorded (e, s.offered)).2.2

theorem step_total (s : PubOffers π) (c : PubCall π ε) :
    ∃ t, (PubOffers.system ops).step s c = some t := by
  cases c with
  | send msg alloc e => exact ⟨_, rfl⟩
  | add p alloc => exact ⟨_, rfl⟩
  | rm p => exact ⟨_, rfl⟩

theorem step_send (s : PubOffers π) (msg : Msg Unit) (alloc : π → Bool) (e : ε) :
    (PubOffers.system ops).step s (.send msg alloc e) =
      some ⟨(s.pub.send ops.recorded alloc msg (e, s.offered)).2.2.1,
        (s.pub.send ops.recorded alloc msg (e, s.offered)).2.2.2.2.2⟩ := rfl

theorem step_invalid (hprio : Pub.prioDecode msg = none)
    (h : (PubOffers.system ops).step s (.send msg alloc e) = some t) :
    t = ⟨drained ops s e, (drainedEnv ops s e).2⟩ := by
  have hsend : s.pub.send ops.recorded alloc msg (e, s.offered) =
      (.err .EINVAL, msg, drained ops s e,
        (s.pub.drainBuckets ops.recorded (e, s.offered)).2.1, drainedEnv ops s e) := by
    simp only [Pub.send, Pub.fanOutMsg, hprio]
    rfl
  rw [step_send, hsend] at h
  exact (Option.some.inj h).symm

theorem step_valid {prio : Fin 8} (hprio : Pub.prioDecode msg = some prio)
    (h : (PubOffers.system ops).step s (.send msg alloc e) = some t) :
    t.pub.pipes = (drained ops s e).pipes ∧ t.pub.sndPriority = t.pub.highest ∧
      t.offered =
        (fanOut ops.recorded msg (drained ops s e).pipes (drainedEnv ops s e)).2.2 ∧
      ∃ rcs, t.pub.buckets = Function.update (drained ops s e).buckets prio
        ((drained ops s e).buckets prio ++
          List.replicate (Pub.retained alloc (drained ops s e).pipes rcs) msg) := by
  obtain ⟨rc, msg', pub, removed, e', hsend⟩ :
      ∃ rc msg' pub removed e', s.pub.send ops.recorded alloc msg (e, s.offered) =
        (rc, msg', pub, removed, e') := ⟨_, _, _, _, _, rfl⟩
  rw [step_send, hsend] at h
  obtain rfl := Option.some.inj h
  simp only [Pub.send, Pub.fanOutMsg, hprio, Prod.mk.injEq] at hsend
  obtain ⟨-, -, rfl, -, rfl⟩ := hsend
  exact ⟨rfl, rfl, rfl, _, rfl⟩

omit [DecidableEq π] in
theorem drained_frame (s : PubOffers π) (e : ε) :
    (drained ops s e).pipes = s.pub.pipes ∧
      (drained ops s e).sndPriority = s.pub.sndPriority := by
  unfold drained Pub.drainBuckets
  rcases Pub.anyCanSend ops.recorded s.pub.pipes (e, s.offered) with ⟨can, e'⟩
  cases can with
  | false => exact ⟨rfl, rfl⟩
  | true => exact ⟨rfl, rfl⟩

end Call

/-! ## The gauge -/

section Gauge

variable {s t : PubOffers π}

/-- `n` is the index of the highest bucket that is not empty, or 0 if all are empty. -/
def IsHighest {τ : Type} (buckets : Fin 8 → List (Msg τ)) (n : ℕ) : Prop :=
  (∃ l : Fin 8, n = l ∧ buckets l ≠ [] ∧ ∀ l', l < l' → buckets l' = []) ∨
    (∀ l, buckets l = []) ∧ n = 0

theorem levels_desc : Pub.levels.Pairwise (· > ·) := by decide

omit [DecidableEq π] in
theorem isHighest_iff {τ : Type} (self : Pub π τ) (n : ℕ) :
    IsHighest self.buckets n ↔ n = self.highest := by
  unfold Pub.highest
  cases hfind : Pub.levels.find? fun level => !(self.buckets level).isEmpty with
  | none =>
    have hall : ∀ l, self.buckets l = [] := by
      intro l
      have hl := List.find?_eq_none.mp hfind l (PubQueue.mem_levels l)
      simpa using hl
    constructor
    · rintro (⟨l, -, hne, -⟩ | ⟨-, hn⟩)
      · exact absurd (hall l) hne
      · exact hn
    · exact fun hn => Or.inr ⟨hall, hn⟩
  | some l =>
    obtain ⟨hl, as, bs, hsplit, has⟩ := List.find?_eq_some_iff_append.mp hfind
    have hne : self.buckets l ≠ [] := by simpa using hl
    -- The levels above `l` stand before it, so the loop has seen that they are empty.
    have habove : ∀ l', l < l' → self.buckets l' = [] := by
      intro l' hlt
      have hmem : l' ∈ as ++ l :: bs := hsplit ▸ PubQueue.mem_levels l'
      rcases List.mem_append.mp hmem with hin | hin
      · simpa using has l' hin
      · have hdesc := (List.pairwise_append.mp (hsplit ▸ levels_desc)).2.1
        rcases List.mem_cons.mp hin with rfl | hin
        · exact absurd hlt (lt_irrefl _)
        · exact absurd hlt (lt_asymm ((List.pairwise_cons.mp hdesc).1 l' hin))
    constructor
    · rintro (⟨k, rfl, hk, hkabove⟩ | ⟨hall, -⟩)
      · rcases lt_trichotomy k l with hlt | rfl | hlt
        · exact absurd (hkabove l hlt) hne
        · rfl
        · exact absurd (habove k hlt) hk
      · exact absurd (hall l) hne
    · rintro rfl
      exact Or.inl ⟨l, rfl, hne, habove⟩

/-- `MB_STAT_CURRENT_SND_PRIORITY` is the index of the highest bucket that is not empty. -/
def Current (s : PubOffers π) : Prop := IsHighest s.pub.buckets s.pub.sndPriority

/-- No pipe can send, asked one after another. -/
def NoneCanSend (ops : Pipes π (Msg Unit) ε) : List π → ε → Prop
  | [], _ => True
  | p :: ps, e => (ops.canSend p e).1 = false ∧ NoneCanSend ops ps (ops.canSend p e).2

/-- A call with an invalid priority finds only the lowest bucket in use, or none, or no pipe that can
send. -/
def KeepsBuckets (ops : Pipes π (Msg Unit) ε) (s : PubOffers π) : PubCall π ε → Prop
  | .send msg _ e => Pub.prioDecode msg = none →
    (∀ l : Fin 8, 0 < l.val → s.pub.buckets l = []) ∨ NoneCanSend ops s.pub.pipes e
  | _ => True

instance decidableNoneCanSend (ops : Pipes π (Msg Unit) ε) :
    (ps : List π) → (e : ε) → Decidable (NoneCanSend ops ps e)
  | [], _ => isTrue trivial
  | p :: ps, e =>
    have : Decidable (NoneCanSend ops ps (ops.canSend p e).2) := decidableNoneCanSend ops ps _
    inferInstanceAs (Decidable (_ ∧ _))

instance (s : PubOffers π) : (c : PubCall π ε) → Decidable (KeepsBuckets ops s c)
  | .send _ _ _ => inferInstanceAs (Decidable (_ = _ → (∀ _, _ → _ = _) ∨ _))
  | .add _ _ | .rm _ => isTrue trivial

omit [DecidableEq π] in
/-- INTERNAL: the drain does not start if no pipe can send.  SRC: pub.c:185-196 -/
theorem drained_of_noneCanSend {s : PubOffers π} {e : ε} (h : NoneCanSend ops s.pub.pipes e) :
    drained ops s e = s.pub := by
  have hcan : ∀ (ps : List π) (e : ε) (log : List (π × Msg Unit)), NoneCanSend ops ps e →
      (Pub.anyCanSend ops.recorded ps (e, log)).1 = false := by
    intro ps
    induction ps with
    | nil => exact fun _ _ _ => rfl
    | cons p ps ih =>
      intro e log h
      have hp : (ops.recorded.canSend p (e, log)).1 = false := h.1
      rw [Pub.anyCanSend]
      rcases hask : ops.recorded.canSend p (e, log) with ⟨can, e'⟩
      rw [hask] at hp
      obtain rfl : can = false := hp
      obtain rfl : ((ops.canSend p e).2, log) = e' := (Prod.mk.inj hask).2
      exact ih _ log h.2
  have hnone := hcan s.pub.pipes e s.offered h
  unfold drained Pub.drainBuckets
  rcases hask : Pub.anyCanSend ops.recorded s.pub.pipes (e, s.offered) with ⟨can, e'⟩
  rw [hask] at hnone
  obtain rfl : can = false := hnone
  rfl

omit [DecidableEq π] in
/-- INTERNAL: the drain puts nothing in a bucket. -/
theorem drainLevels_empty (P : Pipes π (Msg Unit) ε) (ps : List π) {l : Fin 8} (ls : List (Fin 8))
    {b : Fin 8 → List (Msg Unit)} (h : b l = []) (e : ε) :
    (Pub.drainLevels P ps ls b e).1 l = [] := by
  induction ls generalizing b e with
  | nil => exact h
  | cons a ls ih =>
    unfold Pub.drainLevels
    rcases hb : Pub.drainBucket P ps (b a) e with ⟨goOn, left, removed, e'⟩
    have hleft : Function.update b a left l = [] := by
      by_cases hla : l = a
      · subst hla
        rw [h] at hb
        cases hb
        exact Function.update_self _ _ _
      · rw [Function.update_of_ne hla]
        exact h
    cases goOn with
    | false => exact hleft
    | true => exact ih hleft e'

omit [DecidableEq π] in
/-- INTERNAL: a drain puts nothing in a bucket. -/
theorem drained_empty {s : PubOffers π} {l : Fin 8} (h : s.pub.buckets l = []) (e : ε) :
    (drained ops s e).buckets l = [] := by
  unfold drained Pub.drainBuckets
  rcases Pub.anyCanSend ops.recorded s.pub.pipes (e, s.offered) with ⟨can, e'⟩
  cases can with
  | false => exact h
  | true => exact drainLevels_empty ops.recorded s.pub.pipes Pub.levels h e'

omit [DecidableEq π] in
/-- INTERNAL: the gauge that was right is right after a drain. -/
theorem drained_highest {s : PubOffers π} {e : ε}
    (h : (∀ l : Fin 8, 0 < l.val → s.pub.buckets l = []) ∨ NoneCanSend ops s.pub.pipes e) :
    s.pub.highest = (drained ops s e).highest := by
  rcases h with hlow | hnone
  · -- The gauge is 0 with and without messages in the lowest bucket.
    have hzero : ∀ b : Pub π Unit, (∀ l : Fin 8, 0 < l.val → b.buckets l = []) → b.highest = 0 := by
      intro b hb
      refine ((isHighest_iff b 0).mp ?_).symm
      by_cases h0 : b.buckets 0 = []
      · refine Or.inr ⟨fun l => ?_, rfl⟩
        by_cases hl : l = 0
        · rw [hl, h0]
        · exact hb l (Fin.pos_of_ne_zero hl)
      · exact Or.inl ⟨0, rfl, h0, hb⟩
    rw [hzero s.pub hlow, hzero (drained ops s e) fun l hl => drained_empty (hlow l hl) e]
  · rw [drained_of_noneCanSend hnone]

/-- INTERNAL: one call leaves the gauge right. -/
theorem current_step (hs : Current s) {c : PubCall π ε} (hc : KeepsBuckets ops s c)
    (h : (PubOffers.system ops).step s c = some t) : Current t := by
  cases c with
  | send msg alloc e =>
    cases hprio : Pub.prioDecode msg with
    | none =>
      obtain rfl := step_invalid hprio h
      have hgauge : s.pub.sndPriority = s.pub.highest := (isHighest_iff _ _).mp hs
      refine (isHighest_iff _ _).mpr ?_
      dsimp only
      rw [(drained_frame s e).2, hgauge, drained_highest (hc hprio)]
    | some prio => exact (isHighest_iff _ _).mpr (step_valid hprio h).2.1
  | add p alloc =>
    cases h
    unfold Current Pub.add
    split
    · exact hs
    · exact hs
  | rm p =>
    cases h
    exact hs

/-- **When the gauge of a PUB socket is current.**  In every run of a PUB socket with any pipes in
which every call with an invalid priority finds only bucket 0 in use, or none, or no pipe that can
send, `MB_STAT_CURRENT_SND_PRIORITY` is the index of the highest bucket that is not empty after every
call.  SRC: pub.c:215-277 -/
theorem gauge_current {ops : Pipes π (Msg Unit) ε} {s : PubOffers π}
    (h : Reach (PubOffers.system ops) (KeepsBuckets ops) s) : Current s :=
  h.invariant Current (Or.inr ⟨fun _ => rfl, rfl⟩) fun _ _ _ hs hc ht => current_step hs hc ht

/-- Pipes that take everything or nothing. -/
def allOrNothing : Pipes Unit (Msg Unit) Bool where
  send _ _ b := (if b then .ok else .again, b)
  recv _ b := (.error .EAGAIN, b)
  hasMsg _ b := (false, b)
  canSend _ b := (b, b)

/-- The one pipe refuses a message of priority 7; then a message of priority 9 is sent, while it takes
messages or not. -/
def staleCalls (takes : Bool) : List (PubCall Unit Bool) :=
  [.add () true, .send ⟨[7, 0, 0, 0], [1], ()⟩ (fun _ => true) false,
    .send ⟨[9, 0, 0, 0], [2], ()⟩ (fun _ => true) takes]

/-- If it does not, the message of priority 7 is still there, and the gauge is right. -/
theorem gauge_current_refused :
    ∃ s, (PubOffers.system allOrNothing).run (PubOffers.system allOrNothing).init
        (staleCalls false) = some s ∧
      s.pub.sndPriority = 7 ∧ Current s := by
  have hrun : ((PubOffers.system allOrNothing).run (PubOffers.system allOrNothing).init
      (staleCalls false)).map (fun s => s.pub.sndPriority) = some 7 := by decide +kernel
  obtain ⟨s, hs, hgauge⟩ := Option.map_eq_some_iff.mp hrun
  exact ⟨s, hs, hgauge, gauge_current (Reach.of_run Reach.init (by decide +kernel) hs)⟩

/-- If it does, the second send returns `-EINVAL` and has emptied all buckets; the gauge is still
7. -/
theorem gauge_stale_after_einval :
    ((PubOffers.system allOrNothing).run (PubOffers.system allOrNothing).init (staleCalls true)).map
      (fun s => (s.pub.sndPriority, s.pub.highest, Pub.levels.map s.pub.buckets)) =
        some (7, 0, List.replicate 8 []) := by decide +kernel

end Gauge

/-! ## The headers -/

section Headers

variable {s t : PubOffers π}

/-- No message of the record has an `sphdr`. -/
def NoHeaders (offered : List (π × Msg Unit)) : Prop := ∀ o ∈ offered, o.2.sphdr = []

/-- Every retained message was offered to some pipe. -/
def Kept (q : List (Msg Unit)) (offered : List (π × Msg Unit)) : Prop :=
  ∀ m ∈ q, ∃ p, (p, m) ∈ offered

omit [DecidableEq π] in
theorem offered_fanOut (msg : Msg Unit) (ps : List π) (e : ε × List (π × Msg Unit)) :
    (fanOut ops.recorded msg ps e).2.2 = e.2 ++ ps.map fun p => (p, msg) := by
  induction ps generalizing e with
  | nil => exact (List.append_nil e.2).symm
  | cons p ps ih =>
    show (fanOut ops.recorded msg ps (ops.recorded.send p msg e).2).2.2 = _
    rw [ih, List.map_cons, List.append_cons]
    rfl

omit [DecidableEq π] in
theorem noHeaders_offer (offered : List (π × Msg Unit)) (ps : List π) (msg : Msg Unit) :
    NoHeaders (offered ++ ps.map fun p => (p, msg)) ↔
      NoHeaders offered ∧ (ps ≠ [] → msg.sphdr = []) := by
  unfold NoHeaders
  rw [List.forall_mem_append, List.forall_mem_map]
  refine and_congr_right fun _ => ?_
  constructor
  · intro hall hne
    obtain ⟨p, hp⟩ := List.exists_mem_of_ne_nil ps hne
    exact hall p hp
  · exact fun hmsg p hp => hmsg (List.ne_nil_of_mem hp)

omit [DecidableEq π] in
theorem drained_offers (ops : Pipes π (Msg Unit) ε) (s : PubOffers π) (e : ε)
    (hkept : Kept (queue s.pub) s.offered) :
    Kept (queue (drained ops s e)) (drainedEnv ops s e).2 ∧
      (NoHeaders (drainedEnv ops s e).2 ↔ NoHeaders s.offered) := by
  let I (q : List (Msg Unit)) (e : ε × List (π × Msg Unit)) : Prop :=
    Kept q e.2 ∧ (NoHeaders e.2 ↔ NoHeaders s.offered)
  have hattempt : PubQueue.Attempt ops.recorded s.pub.pipes I fun _ _ => True := by
    rintro m q e ⟨hq, hiff⟩
    have henv : (Pub.tryDrainOne ops.recorded s.pub.pipes m e).2.2 =
        e.2 ++ s.pub.pipes.map fun p => (p, m) := offered_fanOut m s.pub.pipes e
    obtain ⟨p, hp⟩ := hq m List.mem_cons_self
    have hstays : I (m :: q) (Pub.tryDrainOne ops.recorded s.pub.pipes m e).2 := by
      constructor
      · intro m' hm'
        obtain ⟨p', hp'⟩ := hq m' hm'
        exact ⟨p', henv ▸ List.mem_append_left _ hp'⟩
      · rw [henv, noHeaders_offer, ← hiff]
        exact and_iff_left_of_imp fun hall _ => hall (p, m) hp
    exact ⟨fun _ => ⟨⟨fun m' hm' => hstays.1 m' (List.mem_cons_of_mem _ hm'), hstays.2⟩, trivial⟩,
      fun _ => hstays⟩
  obtain ⟨self', removed, e', heq, -, hI, -⟩ :=
    PubQueue.drainBuckets_rule s.pub hattempt (fun _ _ _ h => h) (e, s.offered) ⟨hkept, Iff.rfl⟩
  unfold drained drainedEnv
  rw [heq]
  exact hI

/-- A message with a valid priority that is sent to some pipe has no `sphdr`. -/
def SendsNoHeader (s : PubOffers π) : PubCall π ε → Prop
  | .send msg _ _ => Pub.prioDecode msg ≠ none → s.pub.pipes ≠ [] → msg.sphdr = []
  | _ => True

theorem headers_step (hkept : Kept (queue s.pub) s.offered) {c : PubCall π ε}
    (h : (PubOffers.system ops).step s c = some t) :
    Kept (queue t.pub) t.offered ∧
      (NoHeaders t.offered ↔ NoHeaders s.offered ∧ SendsNoHeader s c) := by
  cases c with
  | send msg alloc e =>
    obtain ⟨hdrain, hiff⟩ := drained_offers ops s e hkept
    cases hprio : Pub.prioDecode msg with
    | none =>
      obtain rfl := step_invalid hprio h
      refine ⟨hdrain, hiff.trans (and_iff_left ?_).symm⟩
      exact fun hvalid => absurd hprio hvalid
    | some prio =>
      obtain ⟨-, -, hoffered, rcs, hbuckets⟩ := step_valid hprio h
      rw [offered_fanOut, (drained_frame s e).1] at hoffered
      rw [(drained_frame s e).1] at hbuckets
      constructor
      · intro m hm
        rw [hoffered]
        rcases List.mem_append.mp
          ((PubQueue.queue_retain _ prio hbuckets).mem_iff.mp hm) with hold | hnew
        · obtain ⟨p, hp⟩ := hdrain m hold
          exact ⟨p, List.mem_append_left _ hp⟩
        · -- A copy is retained for a pipe that was offered the message.
          obtain ⟨hcount, rfl⟩ := List.mem_replicate.mp hnew
          cases hpipes : s.pub.pipes with
          | nil =>
            rw [hpipes] at hcount
            exact absurd rfl hcount
          | cons p ps =>
            exact ⟨p, List.mem_append_right _ (List.mem_map.mpr ⟨p, List.mem_cons_self, rfl⟩)⟩
      · rw [hoffered, noHeaders_offer, hiff]
        refine and_congr_right fun _ => ⟨fun hmsg _ => hmsg, fun hmsg => hmsg ?_⟩
        rw [hprio]
        exact Option.some_ne_none _
  | add p alloc =>
    cases h
    refine ⟨?_, (and_iff_left trivial).symm⟩
    unfold Pub.add
    split
    · exact hkept
    · exact hkept
  | rm p =>
    cases h
    exact ⟨hkept, (and_iff_left trivial).symm⟩

/-- In every run of a PUB socket with any pipes, every message that is passed to `mb_pipe_send`,
at once or from a bucket, has an empty `sphdr` exactly if every message with a valid priority that
was given to `mb_pub_send` while a pipe was attached had one already.  SRC: pub.c:146-283 -/
theorem headers_dropped_iff (ops : Pipes π (Msg Unit) ε) (calls : List (PubCall π ε)) :
    ∃ s, (PubOffers.system ops).run (PubOffers.system ops).init calls = some s ∧
      ((∀ o ∈ s.offered, o.2.sphdr = []) ↔
        (PubOffers.system ops).Meets SendsNoHeader (PubOffers.system ops).init calls) := by
  obtain ⟨s, hs⟩ := System.run_total step_total (PubOffers.system ops).init calls
  refine ⟨s, hs, ?_⟩
  have hstart : Kept (queue (PubOffers.system ops).init.pub) (PubOffers.system ops).init.offered :=
    List.forall_mem_nil _
  have hiff := System.run_iff_meets
    (fun (s : PubOffers π) _ _ (hkept : Kept (queue s.pub) s.offered) ht =>
      headers_step hkept ht) hstart hs
  exact hiff.trans (and_iff_right (List.forall_mem_nil _))

/-- The one pipe takes a message with the priority 4, which is also the default. -/
def leakCalls (sphdr : List UInt8) : List (PubCall Unit Bool) :=
  [.add () true, .send ⟨sphdr, [1], ()⟩ (fun _ => true) true]

/-- The priority bytes go to the pipe: with and without them the same message of the same priority
is offered differently. -/
theorem priority_bytes_offered :
    ((PubOffers.system allOrNothing).run (PubOffers.system allOrNothing).init
      (leakCalls [4, 0, 0, 0])).map PubOffers.offered = some [((), ⟨[4, 0, 0, 0], [1], ()⟩)] ∧
    ((PubOffers.system allOrNothing).run (PubOffers.system allOrNothing).init
      (leakCalls [])).map PubOffers.offered = some [((), ⟨[], [1], ()⟩)] := by decide +kernel

end Headers

end MsgBroker.Analysis.PubOffers
