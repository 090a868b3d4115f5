import Mathlib.Data.List.Induction
import MsgBroker.Analysis.ReqRepSpec

/-!
# What a network of REQ and REP sockets keeps

The protocols have no request numbers. What ties a reply to its request is where the one open
request of a REQ can be (`Phase`): still queued on its pipe, held by the REP as `last_pipe`,
answered and queued back, or lost with a pipe end.
-/

set_option autoImplicit false

namespace MsgBroker.Analysis.ReqRep

open Model Lib

variable {ρ τ π μ : Type} [DecidableEq ρ] [DecidableEq τ] [DecidableEq π]

/-! ## Histories -/

section History

variable (log : List (RREvent ρ τ μ))

omit [DecidableEq τ] in
theorem lastSent_concat (q : ρ) (e : RREvent ρ τ μ) :
    RREvent.lastSent q (log ++ [e]) = match e with
      | .reqSend q' _ k => if q' = q then some k else RREvent.lastSent q log
      | _ => RREvent.lastSent q log := by
  cases e <;> simp only [RREvent.lastSent, List.foldl_append, List.foldl_cons, List.foldl_nil]

omit [DecidableEq ρ] in
theorem lastGot_concat (r : τ) (e : RREvent ρ τ μ) :
    RREvent.lastGot r (log ++ [e]) = match e with
      | .repRecv r' _ k => if r' = r then some k else RREvent.lastGot r log
      | _ => RREvent.lastGot r log := by
  cases e <;> simp only [RREvent.lastGot, List.foldl_append, List.foldl_cons, List.foldl_nil]

omit [DecidableEq ρ] in
theorem answers_mono {log' : List (RREvent ρ τ μ)} (hlog : log <+: log') {j k : ℕ}
    {m : μ} (h : RREvent.Answers log j m k) : RREvent.Answers log' j m k := by
  obtain ⟨r, pre, post, rfl, hgot⟩ := h
  obtain ⟨more, rfl⟩ := hlog
  exact ⟨r, pre, post ++ more, by simp, hgot⟩

omit [DecidableEq τ] in
theorem lastSent_append (q : ρ) (l : List (RREvent ρ τ μ))
    (h : ∃ m j, RREvent.reqSend q m j ∈ l) :
    ∃ m j, RREvent.reqSend q m j ∈ l ∧ RREvent.lastSent q (log ++ l) = some j := by
  induction l using List.reverseRecOn with
  | nil => simp at h
  | append_singleton l e ih =>
    rw [← List.append_assoc, lastSent_concat]
    by_cases he : ∃ m j, e = .reqSend q m j
    · obtain ⟨m, j, rfl⟩ := he
      exact ⟨m, j, by simp, by simp⟩
    · have hl : ∃ m j, RREvent.reqSend q m j ∈ l := by
        obtain ⟨m, j, hmj⟩ := h
        rcases List.mem_append.mp hmj with hmj | hmj
        · exact ⟨m, j, hmj⟩
        · exact absurd ⟨m, j, (List.mem_singleton.mp hmj).symm⟩ he
      obtain ⟨m, j, hm, hj⟩ := ih hl
      refine ⟨m, j, List.mem_append_left _ hm, ?_⟩
      cases e with
      | reqSend q' m' k =>
        have hq : q' ≠ q := fun hq => he ⟨m', k, by rw [hq]⟩
        simpa [hq] using hj
      | repRecv r m' k => exact hj
      | repSend r m' k => exact hj
      | reqRecv q' m' k => exact hj

omit [DecidableEq τ] in
theorem lastSent_mem (q : ρ) {j : ℕ} (h : RREvent.lastSent q log = some j) :
    ∃ m, RREvent.reqSend q m j ∈ log := by
  induction log using List.reverseRecOn with
  | nil => simp [RREvent.lastSent] at h
  | append_singleton l e ih =>
    rw [lastSent_concat] at h
    cases e with
    | reqSend q' m k =>
      by_cases hq : q' = q
      · simp only [hq, if_true, Option.some.injEq] at h
        exact ⟨m, by simp [hq, h]⟩
      · simp only [hq, if_false] at h
        obtain ⟨m', hm'⟩ := ih h
        exact ⟨m', List.mem_append_left _ hm'⟩
    | _ =>
      obtain ⟨m', hm'⟩ := ih h
      exact ⟨m', List.mem_append_left _ hm'⟩

/-- Every reply received so far answers the last request its REQ had sent, the REQ sends
again between two replies, and a serial number is the position of its sending. -/
structure LogOk : Prop where
  answered : ∀ pre q m k post, log = pre ++ .reqRecv q m k :: post →
    ∃ j, RREvent.lastSent q pre = some j ∧ RREvent.Answers pre j m k
  once : ∀ pre q m k mid m' k' post,
    log = pre ++ .reqRecv q m k :: (mid ++ .reqRecv q m' k' :: post) →
      ∃ m'' j, RREvent.reqSend q m'' j ∈ mid
  serial : ∀ pre e post k, log = pre ++ e :: post → e.sentSerial = some k → k = pre.length

/-- The REQ has sent a request since its last reply. -/
def Renewed (q : ρ) : Prop :=
  ∀ pre m k post, log = pre ++ .reqRecv q m k :: post → ∃ m' j, RREvent.reqSend q m' j ∈ post

variable {log}

omit [DecidableEq ρ] [DecidableEq τ] in
theorem renewed_concat_send (q : ρ) (m : μ) (k : ℕ) :
    Renewed (log ++ [RREvent.reqSend q m k]) q := by
  intro pre m' k' post h
  rcases concat_eq_append_cons_iff.mp h with ⟨_, _, he⟩ | ⟨post', rfl, _⟩
  · cases he
  · exact ⟨m, k, by simp⟩

omit [DecidableEq ρ] [DecidableEq τ] in
theorem Renewed.concat {q : ρ} (h : Renewed log q) {e : RREvent ρ τ μ}
    (he : ∀ m k, e ≠ .reqRecv q m k) : Renewed (log ++ [e]) q := by
  intro pre m k post hsplit
  rcases concat_eq_append_cons_iff.mp hsplit with ⟨_, _, heq⟩ | ⟨post', rfl, hlog⟩
  · exact absurd heq (he m k)
  · obtain ⟨m', j, hmem⟩ := h pre m k post' hlog
    exact ⟨m', j, List.mem_append_left _ hmem⟩

theorem LogOk.concat (h : LogOk log) {e : RREvent ρ τ μ} (he : ∀ q m k, e ≠ .reqRecv q m k)
    (hk : ∀ k, e.sentSerial = some k → k = log.length) : LogOk (log ++ [e]) where
  answered pre q m k post hsplit := by
    rcases concat_eq_append_cons_iff.mp hsplit with ⟨_, _, heq⟩ | ⟨post', _, hlog⟩
    · exact absurd heq (he q m k)
    · exact h.answered pre q m k post' hlog
  once pre q m k mid m' k' post hsplit := by
    rw [← List.cons_append, ← List.append_assoc] at hsplit
    rcases concat_eq_append_cons_iff.mp hsplit with ⟨_, _, heq⟩ | ⟨post', _, hlog⟩
    · exact absurd heq (he q m' k')
    · exact h.once pre q m k mid m' k' post' (by simpa using hlog)
  serial pre e' post k hsplit hser := by
    rcases concat_eq_append_cons_iff.mp hsplit with ⟨_, rfl, rfl⟩ | ⟨post', _, hlog⟩
    · exact hk k hser
    · exact h.serial pre e' post' k hlog hser

theorem LogOk.concat_recv (h : LogOk log) {q : ρ} {m : μ} {j k : ℕ}
    (hsent : RREvent.lastSent q log = some j) (hans : RREvent.Answers log j m k)
    (hnew : Renewed log q) : LogOk (log ++ [.reqRecv q m k]) where
  answered pre q' m' k' post hsplit := by
    rcases concat_eq_append_cons_iff.mp hsplit with ⟨_, rfl, heq⟩ | ⟨post', _, hlog⟩
    · cases heq
      exact ⟨j, hsent, hans⟩
    · exact h.answered pre q' m' k' post' hlog
  once pre q' m₁ k₁ mid m₂ k₂ post hsplit := by
    rw [← List.cons_append, ← List.append_assoc] at hsplit
    rcases concat_eq_append_cons_iff.mp hsplit with ⟨_, hlog, heq⟩ | ⟨post', _, hlog⟩
    · -- the second reply is the new event, so the exchange before it was renewed
      cases heq
      exact hnew pre m₁ k₁ mid hlog
    · exact h.once pre q' m₁ k₁ mid m₂ k₂ post' (by simpa using hlog)
  serial pre e post k' hsplit hser := by
    rcases concat_eq_append_cons_iff.mp hsplit with ⟨_, _, rfl⟩ | ⟨post', _, hlog⟩
    · cases hser
    · exact h.serial pre e post' k' hlog hser

theorem LogOk.lastSent_ne (h : LogOk log) {pre mid post : List (RREvent ρ τ μ)} {q : ρ}
    {m m' : μ} {k k' : ℕ}
    (hsplit : log = pre ++ .reqRecv q m k :: (mid ++ .reqRecv q m' k' :: post)) :
    RREvent.lastSent q pre ≠ RREvent.lastSent q (pre ++ .reqRecv q m k :: mid) := by
  obtain ⟨j, hj, _⟩ := h.answered pre q m k _ hsplit
  obtain ⟨mj, hjmem⟩ := lastSent_mem pre q hj
  obtain ⟨a, b, hab⟩ := List.append_of_mem hjmem
  have hjpos : j = a.length :=
    h.serial a (.reqSend q mj j) (b ++ .reqRecv q m k :: (mid ++ .reqRecv q m' k' :: post)) j
      (by rw [hsplit, hab]; simp) rfl
  -- the later request lies in `mid`, behind all of `pre`
  obtain ⟨mi, i, hi, hlast⟩ := lastSent_append (pre ++ [.reqRecv q m k]) q mid
    (h.once pre q m k mid m' k' post hsplit)
  obtain ⟨c, d, hcd⟩ := List.append_of_mem hi
  have hipos : i = (pre ++ .reqRecv q m k :: c).length :=
    h.serial (pre ++ .reqRecv q m k :: c) (.reqSend q mi i) (d ++ .reqRecv q m' k' :: post) i
      (by rw [hsplit, hcd]; simp) rfl
  have hlast' : RREvent.lastSent q (pre ++ .reqRecv q m k :: mid) = some i := by
    simpa using hlast
  rw [hj, hlast']
  intro heq
  have hlen : pre.length = a.length + (b.length + 1) := by rw [hab]; simp
  simp only [Option.some.injEq] at heq
  simp only [List.length_append, List.length_cons] at hipos
  omega

end History

/-! ## Where an open request can be -/

section Invariant

variable (T : Topology ρ τ π) (s : RRNet ρ τ π μ)

/-- The REP holds a request of the pipe that it has not answered. -/
def Held (p : π) : Prop := (s.rep (T.repEnd p)).lastPipe = some p

/-- The REQ waits for a reply on the pipe. -/
def Waiting (p : π) : Prop :=
  (s.req (T.reqEnd p)).sending = true ∧ (s.req (T.reqEnd p)).pipe = some p

/-- The REQ may still send on the pipe: its end is attached or not yet attached. -/
def Usable (p : π) : Prop :=
  p ∈ (s.req (T.reqEnd p)).lb.ids ∨ s.reqUsed p = false

/-- The pipe carries nothing, in either direction or inside the REP. -/
def Idle (p : π) : Prop := s.wire.out p = [] ∧ ¬ Held T s p ∧ s.wire.inn p = []

/-- The places of request `j`, open on pipe `p`. -/
inductive Phase (p : π) (j : ℕ) : Prop where
  | asked (m : μ) (hout : s.wire.out p = [(m, j)]) (hheld : ¬ Held T s p)
      (hinn : s.wire.inn p = [])
  | taken (hout : s.wire.out p = []) (hheld : Held T s p)
      (hgot : RREvent.lastGot (T.repEnd p) s.log = some j) (hinn : s.wire.inn p = [])
  | answered (m : μ) (k : ℕ) (hout : s.wire.out p = []) (hheld : ¬ Held T s p)
      (hinn : s.wire.inn p = [(m, k)]) (hans : RREvent.Answers s.log j m k)
  | lost (h : Idle T s p)

/-- What holds of pipe `p`: it carries nothing unless its REQ waits for it, and then the
open request is in one of its places. -/
structure Flight (p : π) : Prop where
  quiet : Usable T s p → ¬ Waiting T s p → Idle T s p
  waiting : Waiting T s p →
    ∃ j, RREvent.lastSent (T.reqEnd p) s.log = some j ∧ Phase T s p j

/-- A REQ socket on its own: its pipes are attached once, and the pipe it remembers is one
of them. -/
structure ReqOk (used : π → Bool) (q : ρ) (x : Req π) : Prop where
  mem : ∀ p ∈ x.lb.ids, T.reqEnd p = q ∧ used p = true
  nodup : x.lb.ids.Nodup
  pipe_mem : ∀ p, x.pipe = some p → p ∈ x.lb.ids
  sending_pipe : x.sending = true → ∃ p, x.pipe = some p

/-- A REP socket on its own. -/
structure RepOk (used : π → Bool) (r : τ) (x : Rep π) : Prop where
  mem : ∀ p ∈ x.fq.ids, T.repEnd p = r ∧ used p = true
  last_mem : ∀ p, x.lastPipe = some p → p ∈ x.fq.ids

/-- What every reachable network satisfies. -/
structure Inv : Prop where
  req : ∀ q, ReqOk T s.reqUsed q (s.req q)
  rep : ∀ r, RepOk T s.repUsed r (s.rep r)
  flight : ∀ p, Flight T s p
  renewed : ∀ q, (s.req q).sending = true → Renewed s.log q
  log : LogOk s.log

end Invariant

/-! ## One socket at a time -/

section Sockets

variable {T : Topology ρ τ π} {used : π → Bool} {q : ρ} {x y : Req π}

omit [DecidableEq ρ] [DecidableEq τ] [DecidableEq π] in
theorem ReqOk.of_perm (h : ReqOk T used q x) (hids : y.lb.ids.Perm x.lb.ids)
    (hpipe : ∀ p, y.pipe = some p → p ∈ x.lb.ids)
    (hsend : y.sending = true → ∃ p, y.pipe = some p) : ReqOk T used q y where
  mem p hp := h.mem p (hids.mem_iff.mp hp)
  nodup := hids.nodup_iff.mpr h.nodup
  pipe_mem p hp := hids.mem_iff.mpr (hpipe p hp)
  sending_pipe := hsend

omit [DecidableEq ρ] [DecidableEq τ] in
theorem forall_attach {ids : List π} {Ends : π → Prop} (h : ∀ p ∈ ids, Ends p ∧ used p = true)
    {p : π} (hends : Ends p) (hp : used p = false) :
    p ∉ ids ∧ ∀ p' ∈ p :: ids, Ends p' ∧ Function.update used p true p' = true := by
  have hnew : p ∉ ids := fun hmem => by simp [(h p hmem).2] at hp
  refine ⟨hnew, List.forall_mem_cons.mpr ⟨⟨hends, Function.update_self _ _ _⟩, fun p' hp' => ?_⟩⟩
  obtain ⟨hends', hused⟩ := h p' hp'
  have hne : p' ≠ p := fun heq => hnew (heq ▸ hp')
  exact ⟨hends', by rw [Function.update_of_ne hne, hused]⟩

omit [DecidableEq ρ] [DecidableEq τ] in
theorem ReqOk.add (h : ReqOk T used q x) {p : π} (hq : T.reqEnd p = q)
    (hp : used p = false) (alloc : Bool) :
    ReqOk T (Function.update used p true) q (x.add p alloc).2 := by
  obtain ⟨hnew, hmem⟩ := forall_attach h.mem hq hp
  cases alloc with
  | false => exact ⟨(List.forall_mem_cons.mp hmem).2, h.nodup, h.pipe_mem, h.sending_pipe⟩
  | true =>
    simp only [Req.add, if_true]
    constructor
    · intro p' hp'
      rw [ids_add_activate _ _ hnew] at hp'
      exact hmem p' hp'
    · show ((x.lb.add p).activate p).ids.Nodup
      rw [ids_add_activate _ _ hnew]
      exact List.nodup_cons.mpr ⟨hnew, h.nodup⟩
    · intro p' hp'
      rw [ids_add_activate _ _ hnew]
      cases hx : x.pipe with
      | none =>
        simp only [hx, Option.none_or, Option.some.injEq] at hp'
        exact hp' ▸ List.mem_cons_self
      | some p₀ =>
        simp only [hx, Option.some_or, Option.some.injEq] at hp'
        exact List.mem_cons_of_mem _ (h.pipe_mem p' (hp' ▸ hx))
    · intro hs
      obtain ⟨p', hp'⟩ := h.sending_pipe hs
      exact ⟨p', by simp [hp']⟩

omit [DecidableEq ρ] [DecidableEq τ] in
theorem ReqOk.rm (h : ReqOk T used q x) (p : π) : ReqOk T used q (x.rm p) := by
  have hmem : ∀ p' ∈ (x.lb.rm p).ids, T.reqEnd p' = q ∧ used p' = true := fun p' hp' =>
    h.mem p' (List.mem_of_mem_erase (ids_rm x.lb p ▸ hp'))
  have hnodup : (x.lb.rm p).ids.Nodup := by
    rw [ids_rm]
    exact h.nodup.erase p
  unfold Req.rm
  by_cases hp : x.pipe = some p
  · simp only [hp, if_true]
    exact ⟨hmem, hnodup, fun p' hp' => List.mem_of_mem_head? hp', fun hs => by cases hs⟩
  · simp only [hp, if_false]
    refine ⟨hmem, hnodup, fun p' hp' => ?_, h.sending_pipe⟩
    have hne : p' ≠ p := fun heq => hp (heq ▸ hp')
    rw [ids_rm]
    exact (List.mem_erase_of_ne hne).mpr (h.pipe_mem p' hp')

omit [DecidableEq ρ] [DecidableEq τ] in
theorem ids_onIn (x : Req π) (p : π) : (x.onIn p).lb.ids.Perm x.lb.ids := by
  unfold Req.onIn
  split
  next hmem =>
    show (x.lb.activate p).ids.Perm x.lb.ids
    rw [ids_activate, ids_rm]
    exact (List.perm_cons_erase hmem).symm
  next => exact List.Perm.refl _

variable {r : τ} {z : Rep π}

omit [DecidableEq ρ] [DecidableEq τ] in
theorem RepOk.add (h : RepOk T used r z) {p : π} (hr : T.repEnd p = r)
    (hp : used p = false) (allocFq allocLb : Bool) :
    RepOk T (Function.update used p true) r (z.add p allocFq allocLb).2 := by
  obtain ⟨hnew, hmem⟩ := forall_attach h.mem hr hp
  have hold := (List.forall_mem_cons.mp hmem).2
  have hids := ids_add_activate z.fq p hnew
  unfold Rep.add
  cases allocFq with
  | false => exact ⟨hold, h.last_mem⟩
  | true =>
    cases allocLb with
    | true =>
      refine ⟨fun p' hp' => ?_, fun p' hp' => ?_⟩
      · exact hmem p' (hids ▸ hp')
      · exact hids ▸ List.mem_cons_of_mem _ (h.last_mem p' hp')
    | false =>
      -- the second allocation failed: the new item is unlinked again
      have hback : (((z.fq.add p).activate p).rm p).ids = z.fq.ids := by
        rw [ids_rm, hids, List.erase_cons_head]
      exact ⟨fun p' hp' => hold p' (hback ▸ hp'),
        fun p' hp' => hback ▸ h.last_mem p' hp'⟩

omit [DecidableEq ρ] [DecidableEq τ] in
theorem RepOk.rm (h : RepOk T used r z) (p : π) : RepOk T used r (z.rm p) := by
  refine ⟨fun p' hp' => h.mem p' (List.mem_of_mem_erase (ids_rm z.fq p ▸ hp')), ?_⟩
  intro p' hp'
  have hlast : z.lastPipe = some p' ∧ p' ≠ p := by
    simp only [Rep.rm] at hp'
    split at hp'
    next => cases hp'
    next hne => exact ⟨hp', fun heq => hne (heq ▸ hp')⟩
  show p' ∈ (z.fq.rm p).ids
  rw [ids_rm]
  exact (List.mem_erase_of_ne hlast.2).mpr (h.last_mem p' hlast.1)

omit [DecidableEq ρ] [DecidableEq τ] [DecidableEq π] in
theorem ReqOk.mono (h : ReqOk T used q x) {used' : π → Bool}
    (hle : ∀ p, used p = true → used' p = true) : ReqOk T used' q x :=
  ⟨fun p hp => ⟨(h.mem p hp).1, hle p (h.mem p hp).2⟩, h.nodup, h.pipe_mem, h.sending_pipe⟩

omit [DecidableEq ρ] [DecidableEq τ] [DecidableEq π] in
theorem RepOk.mono (h : RepOk T used r z) {used' : π → Bool}
    (hle : ∀ p, used p = true → used' p = true) : RepOk T used' r z :=
  ⟨fun p hp => ⟨(h.mem p hp).1, hle p (h.mem p hp).2⟩, h.last_mem⟩

omit [DecidableEq ρ] [DecidableEq τ] [DecidableEq π] in
theorem RepOk.of_perm (h : RepOk T used r z) {z' : Rep π} (hids : z'.fq.ids.Perm z.fq.ids)
    (hlast : ∀ p, z'.lastPipe = some p → p ∈ z.fq.ids) : RepOk T used r z' where
  mem p hp := h.mem p (hids.mem_iff.mp hp)
  last_mem p hp := hids.mem_iff.mpr (hlast p hp)

end Sockets

end MsgBroker.Analysis.ReqRep
