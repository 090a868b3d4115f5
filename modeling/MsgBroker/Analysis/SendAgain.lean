import MsgBroker.Analysis.PubSpec
import MsgBroker.Analysis.SendSpec

/-!
# What `-EAGAIN` from a send means

The blocking calls submit a message again while the protocol answers `-EAGAIN`, so the answer has to
mean that the message was not taken.
-/

set_option autoImplicit false

namespace MsgBroker.Analysis.SendAgain

open Model

/-! ## Any protocol but PUB -/

section Sockets

variable {π τ ε : Type} [DecidableEq π] (ops : Pipes π (Msg τ) ε)

/-- The state of the pipes with their log, and the socket. -/
abbrev Running (π τ ε : Type) := Sockbase π τ × ε × List (π × Msg τ)

/-- What a send of `msg` through `x` does. -/
structure Submits (x : Sockbase π τ) (msg : Msg τ) (log : List (π × Msg τ))
    (r : Rc × Msg τ × Running π τ ε) : Prop where
  takes : Takes x.fanPipes.Nodup msg r.1 log r.2.2.2.2
  msg : r.2.1 = msg
  isPub : r.2.2.1.isPub = false
  fanPipes : r.2.2.1.fanPipes = x.fanPipes

/-- INTERNAL: **every send but that of PUB** takes nothing when it answers `-EAGAIN`. -/
theorem send_takes (env : SendEnv π) (msg : Msg τ) (x : Sockbase π τ)
    (e : ε × List (π × Msg τ)) (hpub : x.isPub = false) :
    Submits x msg e.2 (x.send ops.logged env msg e) := by
  cases x with
  | pub self => cases hpub
  | pair pipe => exact ⟨pairSend_takes ops pipe e, rfl, rfl, rfl⟩
  | push lb => exact ⟨lbSend_takes ops lb e, rfl, rfl, rfl⟩
  | req self => exact ⟨reqSend_takes ops self e, rfl, rfl, rfl⟩
  | rep self => exact ⟨repSend_takes ops self e, rfl, rfl, rfl⟩
  | bus pipes => exact ⟨fanOutSend_takes ops pipes e, rfl, rfl, rfl⟩
  | surveyor self =>
    obtain ⟨htakes, hids⟩ :=
      surveyorSend_takes ops msg env.bound env.now env.later self e
    exact ⟨htakes, rfl, rfl, hids⟩
  | respondent self => exact ⟨respondentSend_takes ops self e, rfl, rfl, rfl⟩
  | xpair pipes => exact ⟨fanOutSend_takes ops pipes e, rfl, rfl, rfl⟩
  | xpush lb => exact ⟨lbSend_takes ops lb e, rfl, rfl, rfl⟩
  | xreq lb => exact ⟨lbSend_takes ops lb e, rfl, rfl, rfl⟩
  | xrep lb => exact ⟨lbSend_takes ops lb e, rfl, rfl, rfl⟩
  | xpub pipes => exact ⟨xpubSend_takes ops pipes e, rfl, rfl, rfl⟩
  | xsub fq => exact ⟨fanOutSend_takes ops fq.ids e, rfl, rfl, rfl⟩
  | xbus pipes => exact ⟨fanOutSend_takes ops pipes e, rfl, rfl, rfl⟩
  | xsurveyor pipes => exact ⟨fanOutSend_takes ops pipes e, rfl, rfl, rfl⟩
  | xrespondent pipes => exact ⟨xrespondentLoop_takes ops [] pipes e, rfl, rfl, rfl⟩

omit [DecidableEq π] in
theorem held_eq_nil {x : Sockbase π τ} (h : x.isPub = false) : x.held = [] := by
  cases x with
  | pub self => cases h
  | _ => rfl

/-! ## The loops -/

/-- A socket other than PUB that lists its pipes once. -/
def Plain (s : Running π τ ε) : Prop := s.1.isPub = false ∧ s.1.fanPipes.Nodup

/-- One attempt of `mb_send` to send the message, as `mb_sock_send` makes it; what the send
depends on besides may be different each time. -/
def submit (env : Running π τ ε → SendEnv π) (msg : Msg τ) (s : Running π τ ε) :
    Rc × Running π τ ε :=
  let (rc, _, s') := s.1.send ops.logged (env s) msg s.2
  (rc, s')

variable [DecidableEq τ]

omit [DecidableEq π] in
theorem Takes.count_le [DecidableEq π] {nd : Prop} {msg : Msg τ} {rc : Rc}
    {log log' : List (π × Msg τ)} (h : Takes nd msg rc log log') (hnd : nd) (p : π) :
    log'.count (p, msg) ≤ log.count (p, msg) + 1 := by
  obtain ⟨ps, hps, rfl⟩ := h.once hnd
  have hinj : Function.Injective fun p : π => (p, msg) := fun a b hab => congrArg Prod.fst hab
  have hone := List.nodup_iff_count_le_one.mp (hps.map hinj) (p, msg)
  rw [List.count_append]
  omega

/-- Between two attempts the socket stays plain, and nobody else sends this message. -/
def Fair (msg : Msg τ) (r : Round (Running π τ ε)) : Prop :=
  ∀ s, Plain s → Plain (r.between s) ∧
    ∀ p, (r.between s).2.2.count (p, msg) = s.2.2.count (p, msg)

theorem submit_takes (env : Running π τ ε → SendEnv π) (msg : Msg τ) {s : Running π τ ε}
    (h : Plain s) :
    Plain (submit ops env msg s).2 ∧
      ((submit ops env msg s).1 = .again → (submit ops env msg s).2.2.2 = s.2.2) ∧
      ∀ p, (submit ops env msg s).2.2.2.count (p, msg) ≤ s.2.2.count (p, msg) + 1 := by
  have hsub := send_takes ops (env s) msg s.1 s.2 h.1
  refine ⟨⟨hsub.isPub, ?_⟩, hsub.takes.again, hsub.takes.count_le h.2⟩
  exact (congrArg List.Nodup hsub.fanPipes).mpr h.2

omit [DecidableEq π] in
theorem Fair.resume [DecidableEq π] {msg : Msg τ} {r : Round (Running π τ ε)} (hfair : Fair msg r)
    {s s' : Running π τ ε} (hplain : Plain s') (hlog : s'.2.2 = s.2.2) {p : π} {n : ℕ}
    (hrest : Plain (r.between s') → n ≤ (r.between s').2.2.count (p, msg) + 1) :
    n ≤ s.2.2.count (p, msg) + 1 := by
  obtain ⟨hplain', hsame⟩ := hfair s' hplain
  have hnext := hrest hplain'
  rw [hsame p, hlog] at hnext
  exact hnext

/-- INTERNAL: **one turn of the loop of `mb_send` and `mb_sendmsg`**: the attempt is the last one,
or it was answered `-EAGAIN` and the loop goes on. -/
theorem sendLoop_cases {σ : Type} (submit : σ → Rc × σ) (dontwait : Bool) (timeout : ℤ)
    (rounds : List (Round σ)) (s : σ) :
    (sendLoop submit dontwait timeout rounds s).2 = (submit s).2 ∨
      ∃ r rest timeout', rounds = r :: rest ∧ (submit s).1 = .again ∧
        sendLoop submit dontwait timeout rounds s =
          sendLoop submit dontwait timeout' rest (r.between (submit s).2) := by
  rw [sendLoop.eq_def]
  dsimp only
  rcases submit s with ⟨_ | c, s'⟩
  · exact Or.inl rfl
  cases c with
  | EAGAIN =>
    cases rounds with
    | nil =>
      left
      dsimp only
      split <;> rfl
    | cons r rest =>
      dsimp only
      split
      · exact Or.inl rfl
      split
      · exact Or.inl rfl
      split
      · exact Or.inl rfl
      cases r.rebuild with
      | some c => exact Or.inl rfl
      | none => exact Or.inr ⟨r, rest, _, rfl, rfl, rfl⟩
  | _ => exact Or.inl rfl

theorem sendLoop_once (env : Running π τ ε → SendEnv π) (msg : Msg τ) (dontwait : Bool)
    (timeout : ℤ) (rounds : List (Round (Running π τ ε))) (hfair : ∀ r ∈ rounds, Fair msg r)
    (s : Running π τ ε) (h : Plain s) (p : π) :
    (sendLoop (submit ops env msg) dontwait timeout rounds s).2.2.2.count (p, msg) ≤
      s.2.2.count (p, msg) + 1 := by
  induction rounds generalizing timeout s with
  | nil =>
    obtain ⟨_, _, hcount⟩ := submit_takes ops env msg h
    obtain hend | ⟨r, rest, _, hcon, _⟩ :=
      sendLoop_cases (submit ops env msg) dontwait timeout [] s
    · rw [hend]
      exact hcount p
    · cases hcon
  | cons r rounds ih =>
    obtain ⟨hplain, hagain, hcount⟩ := submit_takes ops env msg h
    obtain hend | ⟨r', rest, timeout', hrounds, hrc, hnext⟩ :=
      sendLoop_cases (submit ops env msg) dontwait timeout (r :: rounds) s
    · rw [hend]
      exact hcount p
    · obtain ⟨rfl, rfl⟩ := List.cons.inj hrounds
      obtain ⟨hfair_r, hfair⟩ := List.forall_mem_cons.mp hfair
      rw [hnext]
      exact hfair_r.resume hplain (hagain hrc) (ih timeout' hfair _)

/-- INTERNAL: **the loop of `mb_device_forward`**, with an invariant of the states before an attempt:
it is left between two attempts, if at all because of the flag, or with the answer of an attempt that
is not `-EAGAIN`.  SRC: device.c:28-55 -/
theorem forwardLoop_rule {σ μ : Type} (submit : μ → σ → Rc × μ × σ) (msg : μ) {I : σ → Prop}
    (rounds : List (Round σ))
    (hagain : ∀ r ∈ rounds, ∀ s, I s → (submit msg s).1 = .again →
      (submit msg s).2.1 = msg ∧ I (r.between (submit msg s).2.2)) {s : σ} (h : I s) :
    (I (forwardLoop submit rounds msg s).2 ∧ ((forwardLoop submit rounds msg s).1 = none ∨
        (forwardLoop submit rounds msg s).1 = some .again ∧ ∃ r ∈ rounds, r.stopping = true)) ∨
      ∃ s', I s' ∧ (submit msg s').1 ≠ .again ∧
        forwardLoop submit rounds msg s = (some (submit msg s').1, (submit msg s').2.2) := by
  induction rounds generalizing s with
  | nil => exact Or.inl ⟨h, Or.inl rfl⟩
  | cons r rounds ih =>
    obtain ⟨hround, hrest⟩ := List.forall_mem_cons.mp hagain
    unfold forwardLoop
    split_ifs with hstop
    · exact Or.inl ⟨h, Or.inr ⟨rfl, r, List.mem_cons_self, hstop⟩⟩
    · by_cases hrc : (submit msg s).1 = .again
      · obtain ⟨hmsg, hI⟩ := hround s h hrc
        rcases hsub : submit msg s with ⟨rc, msg', s'⟩
        rw [hsub] at hrc hmsg hI
        obtain rfl : rc = .again := hrc
        obtain rfl : msg' = msg := hmsg
        rcases ih hrest hI with ⟨hI', hwhy⟩ | hlast
        · refine Or.inl ⟨hI', hwhy.imp_right ?_⟩
          rintro ⟨hres, r', hr', hflag⟩
          exact ⟨hres, r', List.mem_cons_of_mem _ hr', hflag⟩
        · exact Or.inr hlast
      · refine Or.inr ⟨s, h, hrc, ?_⟩
        rcases hsub : submit msg s with ⟨rc, msg', s'⟩
        rw [hsub] at hrc
        split
        · rename_i heq
          obtain ⟨rfl, -⟩ := Prod.mk.inj heq
          exact absurd rfl hrc
        · rename_i heq
          cases heq
          rfl

theorem forwardLoop_once (env : Running π τ ε → SendEnv π) (msg : Msg τ)
    (rounds : List (Round (Running π τ ε))) (hfair : ∀ r ∈ rounds, Fair msg r)
    (s : Running π τ ε) (h : Plain s) (p : π) :
    (forwardLoop (fun m s => s.1.send ops.logged (env s) m s.2) rounds msg s).2.2.2.count
        (p, msg) ≤ s.2.2.count (p, msg) + 1 := by
  rcases forwardLoop_rule (fun m s => s.1.send ops.logged (env s) m s.2) msg
      (I := fun s' => Plain s' ∧ s'.2.2.count (p, msg) = s.2.2.count (p, msg)) rounds
      (fun r hr s' hI hrc => by
        obtain ⟨hplain, hagain, -⟩ := submit_takes ops env msg hI.1
        obtain ⟨hplain', hsame⟩ := hfair r hr _ hplain
        refine ⟨(send_takes ops (env s') msg s'.1 s'.2 hI.1.1).msg, hplain', (hsame p).trans ?_⟩
        rw [hagain hrc]
        exact hI.2) ⟨h, rfl⟩ with ⟨⟨-, hcount⟩, -⟩ | ⟨s', ⟨hplain, hcount⟩, -, heq⟩
  · exact hcount.le.trans (Nat.le_succ _)
  · rw [heq, ← hcount]
    exact (submit_takes ops env msg hplain).2.2 p

/-! ## PUB -/

theorem count_other {msg m : Msg τ} (hne : m ≠ msg) (log : List (π × Msg τ)) (took : List π)
    (p : π) : (log ++ took.map fun q => (q, m)).count (p, msg) = log.count (p, msg) := by
  have hnone : (p, msg) ∉ took.map fun q => (q, m) := by
    intro hmem
    obtain ⟨q, _, heq⟩ := List.mem_map.mp hmem
    exact hne (congrArg Prod.snd heq)
  rw [List.count_append, List.count_eq_zero.mpr hnone, Nat.add_zero]

omit [DecidableEq π] in
theorem retained_all {alloc : π → Bool} {ps : List π} {rcs : List Rc}
    (halloc : ∀ p ∈ ps, alloc p = true) (hlen : rcs.length = ps.length)
    (hsent : sentCount rcs = 0) : Pub.retained alloc ps rcs = ps.length := by
  have hzip : (ps.zip rcs).length = ps.length := by
    rw [List.length_zip, hlen, Nat.min_self]
  rw [← hzip]
  refine List.countP_eq_length.mpr fun x hx => ?_
  obtain ⟨hp, hrc⟩ := List.of_mem_zip (a := x.1) (b := x.2) hx
  have hne : x.2 ≠ .ok := fun heq => List.count_eq_zero.mp hsent (heq ▸ hrc)
  simp [hne, halloc x.1 hp]

/-- INTERNAL: **`-EAGAIN` from PUB**: no pipe took the message, and a copy is retained for each. -/
theorem pubSend_again (alloc : π → Bool) (msg : Msg τ) (self : Pub π τ)
    (e : ε × List (π × Msg τ)) (hnew : msg ∉ PubQueue.queue self)
    (h : (self.send ops.logged alloc msg e).1 = .again) :
    (∀ p, (self.send ops.logged alloc msg e).2.2.2.2.2.count (p, msg) = e.2.count (p, msg)) ∧
      ((∀ p ∈ self.pipes, alloc p = true) →
        (PubQueue.queue (self.send ops.logged alloc msg e).2.2.1).count msg =
          self.pipes.length) := by
  obtain ⟨self', removed, e', hdrain, hpipes, ⟨hnew', hlog⟩, _⟩ :=
    PubQueue.drainBuckets_rule self (P := ops.logged) (R := fun _ _ => True)
      (I := fun q e' => msg ∉ q ∧ ∀ p, e'.2.count (p, msg) = e.2.count (p, msg))
      (fun m q e₁ ⟨hq, hl⟩ => by
        have hne : m ≠ msg := fun heq => hq (heq ▸ List.mem_cons_self)
        obtain ⟨took, _, hfan, _⟩ := fanOut_logged ops m self.pipes e₁
        have hsame : ∀ p, (Pub.tryDrainOne ops.logged self.pipes m e₁).2.2.count (p, msg) =
            e.2.count (p, msg) := fun p => by
          rw [Pub.tryDrainOne, hfan, count_other hne]
          exact hl p
        exact ⟨fun _ => ⟨⟨fun hmem => hq (List.mem_cons_of_mem _ hmem), hsame⟩, trivial⟩,
          fun _ => ⟨hq, hsame⟩⟩)
      (fun _ _ _ hI => hI) e ⟨hnew, fun _ => rfl⟩
  simp only [Pub.send, hdrain, Pub.fanOutMsg] at h ⊢
  cases hprio : Pub.prioDecode msg with
  | none =>
    rw [hprio] at h
    cases h
  | some prio =>
    simp only [hprio] at h ⊢
    obtain ⟨took, _, hfan, hcount⟩ := fanOut_logged ops msg self'.pipes e'
    have hzero : sentCount (fanOut ops.logged msg self'.pipes e').1 = 0 := by
      by_contra hpos
      have hgt : sentCount (fanOut ops.logged msg self'.pipes e').1 > 0 := Nat.pos_of_ne_zero hpos
      rw [if_pos hgt, ite_self] at h
      cases h
    have hnil : took = [] := List.eq_nil_of_length_eq_zero (hcount ▸ hzero)
    refine ⟨fun p => ?_, fun halloc => ?_⟩
    · rw [hfan, hnil, List.map_nil, List.append_nil]
      exact hlog p
    · rw [(PubQueue.queue_retain self' prio rfl).count_eq, List.count_append,
        List.count_eq_zero.mpr hnew', List.count_replicate_self, Nat.zero_add,
        retained_all (hpipes.symm ▸ halloc) (length_fanOut ops.logged msg _ _) hzero, hpipes]

/-- **`-EAGAIN` from a send of any protocol other than PUB means that the message was not
taken**: no pipe took a copy and the protocol keeps none.  Hence the loops of `mb_send`,
`mb_sendmsg` and `mb_device` on such a socket make a pipe take the message at most once.
`-EAGAIN` from PUB means that no pipe took the message, but a copy is kept for each.
SRC: global.c:571-607, 787-823, device.c:28-55, pub.c:215-298, lb.c:67-112 -/
theorem again_not_taken (ops : Pipes π (Msg τ) ε) (msg : Msg τ) :
    (∀ (x : Sockbase π τ) env e, x.isPub = false →
      (x.send ops.logged env msg e).1 = .again →
        (x.send ops.logged env msg e).2.2.2.2 = e.2 ∧
          (x.send ops.logged env msg e).2.2.1.held = []) ∧
    (∀ env (rounds : List (Round (Running π τ ε))) s, Plain s → (∀ r ∈ rounds, Fair msg r) →
      ∀ p,
        (∀ dontwait timeout,
          (sendLoop (submit ops env msg) dontwait timeout rounds s).2.2.2.count (p, msg) ≤
            s.2.2.count (p, msg) + 1) ∧
        (forwardLoop (fun m s => s.1.send ops.logged (env s) m s.2) rounds msg s).2.2.2.count
            (p, msg) ≤ s.2.2.count (p, msg) + 1) ∧
    (∀ (x : Pub π τ) env e, msg ∉ (Sockbase.pub x).held →
      ((Sockbase.pub x).send ops.logged env msg e).1 = .again →
        (∀ p, ((Sockbase.pub x).send ops.logged env msg e).2.2.2.2.count (p, msg) =
          e.2.count (p, msg)) ∧
        ((∀ p ∈ x.pipes, env.alloc p = true) →
          ((Sockbase.pub x).send ops.logged env msg e).2.2.1.held.count msg =
            x.pipes.length)) := by
  refine ⟨fun x env e hpub hagain => ?_, fun env rounds s hs hfair p => ?_, fun x env e => ?_⟩
  · have hsub := send_takes ops env msg x e hpub
    exact ⟨hsub.takes.again hagain, held_eq_nil hsub.isPub⟩
  · exact ⟨fun dontwait timeout => sendLoop_once ops env msg dontwait timeout rounds hfair s hs p,
      forwardLoop_once ops env msg rounds hfair s hs p⟩
  · exact pubSend_again ops env.alloc msg x e

end Sockets

/-- One pipe that takes a message or refuses it as the state says. -/
def scripted : Pipes Unit (Msg Unit) (List Bool) where
  send _ _ e := (if e.headD false then .ok else .again, e.tail)
  recv _ e := (.error .EAGAIN, e)
  hasMsg _ e := (false, e)
  canSend _ e := (e.headD false, e)

def hello : Msg Unit := ⟨[], [104, 105], ()⟩

def quietEnv : SendEnv Unit := ⟨fun _ => true, 0, 0, 0⟩

/-- A PUSH whose pipe refuses first: the send has no effect, and `mb_send` sends once. -/
theorem again_not_taken_push :
    ((Sockbase.push ⟨[⟨(), true⟩]⟩).send scripted.logged quietEnv hello ([], [])).2.2.2.2 = [] ∧
      (sendLoop (submit scripted (fun _ => quietEnv) hello) false (-1)
          [⟨false, none, fun s => (s.1, [true], s.2.2)⟩]
          (.push ⟨[⟨(), true⟩]⟩, [], [])).1 = some .ok ∧
      (sendLoop (submit scripted (fun _ => quietEnv) hello) false (-1)
          [⟨false, none, fun s => (s.1, [true], s.2.2)⟩]
          (.push ⟨[⟨(), true⟩]⟩, [], [])).2.2.2.count ((), hello) ≤ 1 := by
  obtain ⟨hsend, hloop, _⟩ := again_not_taken scripted hello
  refine ⟨(hsend _ quietEnv ([], []) rfl rfl).1, rfl, ?_⟩
  have hplain : Plain ((.push ⟨[⟨(), true⟩]⟩, [], []) : Running Unit Unit (List Bool)) :=
    ⟨rfl, List.nodup_nil⟩
  refine ((hloop (fun _ => quietEnv) _ _ hplain ?_ ()).1 false (-1))
  intro r hr
  rw [List.mem_singleton.mp hr]
  exact fun s hs => ⟨hs, fun _ => rfl⟩

/-- A PUB whose pipe refuses the message answers `-EAGAIN` and keeps a copy; a retry of
`mb_send` then makes the pipe take the message twice. -/
theorem again_retained :
    ((Sockbase.pub ⟨[()], fun _ => [], 0⟩).send scripted.logged quietEnv hello ([], [])).1 =
        .again ∧
      ((Sockbase.pub ⟨[()], fun _ => [], 0⟩).send scripted.logged quietEnv hello
        ([], [])).2.2.1.held = [hello] ∧
      (sendLoop (submit scripted (fun _ => quietEnv) hello) false (-1)
          [⟨false, none, fun s => (s.1, [true, true], s.2.2)⟩]
          (.pub ⟨[()], fun _ => [], 0⟩, [], [])).2.2.2.count ((), hello) = 2 := by
  refine ⟨rfl, ?_, ?_⟩ <;> decide

end MsgBroker.Analysis.SendAgain
