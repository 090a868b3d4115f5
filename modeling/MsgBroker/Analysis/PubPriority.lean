import MsgBroker.Analysis.PubDrain

/-!
# Priorities towards a single peer

The drain of a PUB socket serves the retained messages in order: a message it delivers has no other
before it.
-/

set_option autoImplicit false

namespace MsgBroker.Analysis.PubPriority

open Lib Model

/-! ## The drain keeps to the order -/

theorem prioDecode_mark (sphdr body : List UInt8) (n n' : ℕ) :
    Pub.prioDecode (⟨sphdr, body, n⟩ : Msg ℕ) = Pub.prioDecode (⟨sphdr, body, n'⟩ : Msg ℕ) := rfl

/-- The buckets are in order: each holds messages of its priority, the one sent first in front. -/
structure Sorted (buckets : Fin 8 → List (Msg ℕ)) : Prop where
  prio : ∀ l, ∀ m ∈ buckets l, Pub.prioDecode m = some l
  sent : ∀ l, (buckets l).Pairwise fun m m' => m.tag < m'.tag

/-- The message goes before the other: its priority is higher, or it was sent earlier with the
same. -/
def Before (m m' : Msg ℕ) : Prop :=
  ∃ l l', Pub.prioDecode m = some l ∧ Pub.prioDecode m' = some l' ∧
    (l' < l ∨ l' = l ∧ m.tag < m'.tag)

theorem Before.ne {m m' : Msg ℕ} (h : Before m m') : m ≠ m' := by
  rintro rfl
  obtain ⟨l, l', hl, hl', horder⟩ := h
  obtain rfl : l = l' := Option.some.inj (hl.symm.trans hl')
  exact horder.elim (lt_irrefl l) fun hlt => Nat.lt_irrefl _ hlt.2

/-- The buckets hold the messages of the queue, each once and in the bucket of its priority. -/
structure Holds (buckets : Fin 8 → List (Msg ℕ)) (q : List (Msg ℕ)) : Prop where
  nodup : ∀ l, (buckets l).Nodup
  mem : ∀ l m, m ∈ buckets l ↔ m ∈ q ∧ Pub.prioDecode m = some l

section Order

variable {buckets : Fin 8 → List (Msg ℕ)} {q : List (Msg ℕ)} {m : Msg ℕ}

/-- INTERNAL: buckets in order, from the highest priority to the lowest, are one queue in order. -/
theorem Sorted.pairwise (h : Sorted buckets) : (Pub.levels.flatMap buckets).Pairwise Before := by
  refine List.pairwise_flatMap.mpr ⟨fun l _ => ?_, ?_⟩
  · exact (h.sent l).imp_of_mem fun hm hm' hlt =>
      ⟨l, l, h.prio l _ hm, h.prio l _ hm', Or.inr ⟨rfl, hlt⟩⟩
  · have hdesc : Pub.levels.Pairwise (· > ·) := by decide
    exact hdesc.imp fun {l l'} hlt m hm m' hm' =>
      ⟨l, l', h.prio l m hm, h.prio l' m' hm', Or.inl hlt⟩

theorem Sorted.holds (h : Sorted buckets) : Holds buckets (Pub.levels.flatMap buckets) where
  nodup l := (h.sent l).imp fun {m m'} (hlt : m.tag < m'.tag) (heq : m = m') =>
    Nat.lt_irrefl _ (heq ▸ hlt)
  mem l m := by
    rw [List.mem_flatMap]
    refine ⟨fun hm => ⟨⟨l, PubQueue.mem_levels l, hm⟩, h.prio l m hm⟩, ?_⟩
    rintro ⟨⟨l', -, hm⟩, hprio⟩
    obtain rfl : l' = l := Option.some.inj ((h.prio l' m hm).symm.trans hprio)
    exact hm

/-- INTERNAL: the first message of the queue leaves its bucket. -/
theorem Holds.erase (h : Holds buckets (m :: q)) (hq : (m :: q).Pairwise Before) :
    Holds (fun l => (buckets l).erase m) q where
  nodup l := (h.nodup l).erase m
  mem l x := by
    rw [(h.nodup l).mem_erase_iff, h.mem l x, List.mem_cons]
    constructor
    · rintro ⟨hne, hx, hprio⟩
      exact ⟨hx.resolve_left hne, hprio⟩
    · rintro ⟨hx, hprio⟩
      exact ⟨((List.pairwise_cons.mp hq).1 x hx).ne.symm, Or.inr hx, hprio⟩

/-- INTERNAL: the first message of the queue is taken in order. -/
theorem Holds.inOrder (h : Holds buckets (m :: q)) (hq : (m :: q).Pairwise Before) :
    (Acceptance.mk m buckets).InOrder := by
  intro prio hprio
  have hlater : ∀ l, ∀ x ∈ buckets l, x = m ∨ l < prio ∨ l = prio ∧ m.tag < x.tag := by
    intro l x hx
    obtain ⟨hmem, hl⟩ := (h.mem l x).mp hx
    refine (List.mem_cons.mp hmem).imp_right fun hx => ?_
    obtain ⟨l₁, l₂, h₁, h₂, horder⟩ := (List.pairwise_cons.mp hq).1 x hx
    obtain rfl : l₁ = prio := Option.some.inj (h₁.symm.trans hprio)
    obtain rfl : l₂ = l := Option.some.inj (h₂.symm.trans hl)
    exact horder
  constructor
  · intro l hl
    refine List.eq_nil_iff_forall_not_mem.mpr fun x hx => ?_
    rcases hlater l x hx with rfl | hlt | ⟨rfl, -⟩
    · obtain rfl : l = prio := Option.some.inj (((h.mem l x).mp hx).2.symm.trans hprio)
      exact lt_irrefl l hl
    · exact lt_asymm hl hlt
    · exact lt_irrefl l hl
  · intro x hx hlt
    rcases hlater prio x hx with rfl | habove | ⟨-, hgt⟩
    · exact Nat.lt_irrefl _ hlt
    · exact lt_irrefl prio habove
    · exact Nat.lt_asymm hlt hgt

/-- INTERNAL: **messages taken off the front of the queue** are taken in order, so what comes after
them decides. -/
theorem heldAt_inOrder_iff {rest : List (Msg ℕ)} (h : Holds buckets (q ++ rest))
    (hq : (q ++ rest).Pairwise Before) (news : List (Msg ℕ)) :
    ∃ buckets', Holds buckets' rest ∧
      ((∀ a ∈ Pub.heldAt buckets (q ++ news), a.InOrder) ↔
        ∀ a ∈ Pub.heldAt buckets' news, a.InOrder) := by
  induction q generalizing buckets with
  | nil => exact ⟨buckets, h, Iff.rfl⟩
  | cons m q ih =>
    obtain ⟨buckets', hholds, hiff⟩ := ih (h.erase hq) (List.pairwise_cons.mp hq).2
    refine ⟨buckets', hholds, ?_⟩
    rw [List.cons_append, Pub.heldAt, List.forall_mem_cons, hiff, and_iff_right (h.inOrder hq)]

end Order

/-- The buckets are in order, and all their messages were sent before the call `n`. -/
structure SortedBefore (n : ℕ) (buckets : Fin 8 → List (Msg ℕ)) : Prop extends Sorted buckets where
  old : ∀ l, ∀ m ∈ buckets l, m.tag < n

theorem SortedBefore.suffix {n : ℕ} {buckets buckets' : Fin 8 → List (Msg ℕ)}
    (h : SortedBefore n buckets) (hsuf : ∀ l, buckets' l <:+ buckets l) :
    SortedBefore n buckets' where
  prio l m hm := h.prio l m ((hsuf l).subset hm)
  sent l := (h.sent l).sublist (hsuf l).sublist
  old l m hm := h.old l m ((hsuf l).subset hm)

theorem SortedBefore.retain {n : ℕ} {buckets : Fin 8 → List (Msg ℕ)} (h : SortedBefore n buckets)
    {msg : Msg ℕ} (htag : msg.tag = n) {prio : Fin 8} (hprio : Pub.prioDecode msg = some prio)
    {copies : List (Msg ℕ)} (hcopies : copies = [] ∨ copies = [msg]) :
    SortedBefore (n + 1) (Function.update buckets prio (buckets prio ++ copies)) := by
  have hmem {l : Fin 8} {m : Msg ℕ}
      (hm : m ∈ Function.update buckets prio (buckets prio ++ copies) l) :
      m ∈ buckets l ∨ (l = prio ∧ m = msg) := by
    by_cases hl : l = prio
    · subst hl
      rw [Function.update_self, List.mem_append] at hm
      rcases hm with hm | hm
      · exact Or.inl hm
      · rcases hcopies with rfl | rfl
        · cases hm
        · exact Or.inr ⟨rfl, List.mem_singleton.mp hm⟩
    · rw [Function.update_of_ne hl] at hm
      exact Or.inl hm
  refine ⟨⟨?_, ?_⟩, ?_⟩
  · intro l m hm
    rcases hmem hm with hm | ⟨rfl, rfl⟩
    · exact h.prio l m hm
    · exact hprio
  · intro l
    by_cases hl : l = prio
    · subst hl
      rw [Function.update_self]
      rcases hcopies with rfl | rfl
      · rw [List.append_nil]
        exact h.sent l
      · refine List.pairwise_append.mpr ⟨h.sent l, List.pairwise_singleton _ _, ?_⟩
        intro m hm m' hm'
        rw [List.mem_singleton.mp hm', htag]
        exact h.old l m hm
    · rw [Function.update_of_ne hl]
      exact h.sent l
  · intro l m hm
    rcases hmem hm with hm | ⟨rfl, rfl⟩
    · exact Nat.lt_succ_of_lt (h.old l m hm)
    · exact htag ▸ Nat.lt_succ_self n

/-! ## Runs -/

section Runs

variable {π : Type} [DecidableEq π] {p : π} {s t : PubRun π}

variable {self : Pub π ℕ} {e : PubEnv π} {msg : Msg ℕ} {prio : Fin 8}

theorem send_sorted (hpipes : self.pipes = [p])
    (hstart : e.asked p = 0) (hsorted : SortedBefore e.cur self.buckets)
    (htag : msg.tag = e.cur) (hprio : Pub.prioDecode msg = some prio)
    (alloc : π → Bool) :
    (self.send PubEnv.pipes alloc msg e).2.2.1.pipes = [p] ∧
      SortedBefore (e.cur + 1) (self.send PubEnv.pipes alloc msg e).2.2.1.buckets := by
  obtain ⟨buckets', removed, e', hdrain, -, hsuf, -, -⟩ :=
    drainBuckets_one hpipes hstart fun l m hm => (hsorted.old l m hm).ne
  unfold Pub.send Pub.fanOutMsg
  simp only [hdrain, hprio, hpipes, true_and]
  refine (hsorted.suffix hsuf).retain htag hprio ?_
  -- with one pipe there is at most one copy
  rw [fanOut_one]
  generalize (if e'.answer msg.tag p then Rc.ok else Rc.again) = rc
  unfold Pub.retained
  rw [List.zip_cons_cons, List.zip_nil_left, List.countP_cons, List.countP_nil, Nat.zero_add]
  split
  · exact Or.inr rfl
  · exact Or.inl rfl

/-- What every run of a socket with the one pipe `p` keeps. -/
def Inv (p : π) (s : PubRun π) : Prop :=
  s.pub.pipes = [p] ∧ SortedBefore s.calls s.pub.buckets

theorem inv_of_reach (h : Reach (PubRun.onePipe p) PubRun.ValidSend s) : Inv p s := by
  apply h.invariant (Inv p)
  · exact ⟨rfl, ⟨fun _ _ hm => absurd hm List.not_mem_nil, fun _ => List.Pairwise.nil⟩,
      fun _ _ hm => absurd hm List.not_mem_nil⟩
  · rintro s op t ⟨hpipes, hsorted⟩ hop hstep
    cases op with
    | add q alloc => cases hop
    | rm q => cases hop
    | send sphdr body can fan drain alloc =>
      obtain ⟨prio, hprio⟩ := Option.isSome_iff_exists.mp hop
      rw [prioDecode_mark sphdr body 0 s.calls] at hprio
      have hsend := send_sorted (e := ⟨s.calls, can, fan, drain, fun _ => 0, s.log⟩) hpipes rfl
        hsorted rfl hprio alloc
      rw [← Option.some.inj hstep]
      exact hsend

theorem filter_levels_start (prio : Fin 8) : Pub.levels.filter (prio ≤ ·) <+: Pub.levels := by
  revert prio
  decide

omit [DecidableEq π] in
theorem ahead_le (self : Pub π ℕ) (prio : Fin 8) :
    self.ahead prio ≤ (Pub.levels.flatMap self.buckets).length := by
  obtain ⟨rest, hrest⟩ := filter_levels_start prio
  unfold Pub.ahead
  rw [← hrest, List.flatMap_append, List.length_append, hrest]
  exact Nat.le_add_right _ _

omit [DecidableEq π] in
theorem ahead_left (prio : Fin 8) {buckets' : Fin 8 → List (Msg ℕ)} {j : ℕ}
    (hpre : ∀ us, us <+: Pub.levels → us.flatMap buckets' = (us.flatMap self.buckets).drop j) :
    (∀ l, prio ≤ l → buckets' l = []) ↔ self.ahead prio ≤ j := by
  have hflat := hpre _ (filter_levels_start prio)
  unfold Pub.ahead
  rw [← List.drop_eq_nil_iff, ← hflat, List.flatMap_eq_nil_iff]
  constructor
  · intro h l hl
    exact h l (by simpa using (List.mem_filter.mp hl).2)
  · intro h l hl
    exact h l (List.mem_filter.mpr ⟨PubQueue.mem_levels l, by simpa using hl⟩)

theorem inOrder_new_iff {n : ℕ} {buckets : Fin 8 → List (Msg ℕ)}
    (hold : ∀ l, ∀ m ∈ buckets l, m.tag < n) (htag : msg.tag = n)
    (hprio : Pub.prioDecode msg = some prio) :
    (Acceptance.mk msg buckets).InOrder ↔ ∀ l, prio ≤ l → buckets l = [] := by
  constructor
  · intro horder l hl
    obtain ⟨habove, hsame⟩ := horder prio hprio
    rcases hl.lt_or_eq with hlt | rfl
    · exact habove l hlt
    · refine List.eq_nil_iff_forall_not_mem.mpr fun m hm => hsame m hm ?_
      show m.tag < msg.tag
      rw [htag]
      exact hold prio m hm
  · intro hempty prio' hprio'
    obtain rfl : prio = prio' := Option.some.inj (hprio.symm.trans hprio')
    refine ⟨fun l hl => hempty l (le_of_lt hl), ?_⟩
    intro m hm
    rw [show (Acceptance.mk msg buckets).buckets prio = [] from hempty prio (le_refl prio)] at hm
    cases hm

/-- INTERNAL: **what a send with one pipe does**: the pipe takes messages off the front of the
queue, and then the new one or not. -/
theorem send_one (hpipes : self.pipes = [p])
    (hstart : e.asked p = 0) (hsorted : SortedBefore e.cur self.buckets)
    (htag : msg.tag = e.cur) (hprio : Pub.prioDecode msg = some prio)
    (alloc : π → Bool) :
    ∃ buckets' ms, SortedBefore e.cur buckets' ∧
      Pub.levels.flatMap self.buckets = ms ++ Pub.levels.flatMap buckets' ∧
      ((∀ l, prio ≤ l → buckets' l = []) ↔
        self.ahead prio ≤ drained p e (Pub.levels.flatMap self.buckets).length) ∧
      self.accepted PubEnv.pipes alloc msg e =
        Pub.heldAt self.buckets (ms ++ if e.fan p then [msg] else []) ∧
      Takes (ms ++ if e.fan p then [msg] else []) e
        (self.send PubEnv.pipes alloc msg e).2.2.2.2 := by
  obtain ⟨buckets', removed, e', hdrain, htakes, hsuf, hremoved, hpre⟩ :=
    drainBuckets_one hpipes hstart fun l m hm => (hsorted.old l m hm).ne
  have hanswer : e'.answer msg.tag p = e.fan p := by
    unfold PubEnv.answer
    rw [if_pos (htag.trans htakes.cur.symm), htakes.fan]
  refine ⟨buckets', removed.map Prod.fst, hsorted.suffix hsuf, ?_, ahead_left prio hpre, ?_⟩
  · rw [hremoved, hpre _ List.prefix_rfl, List.take_append_drop]
  have hnew := takes_offered e' msg p
  rw [hanswer] at hnew
  unfold Pub.accepted Pub.send Pub.fanOutMsg
  simp only [hdrain, hprio, hpipes, fanOut_one, sentCount_one, hanswer, List.isEmpty_cons,
    Bool.false_eq_true, if_false]
  refine ⟨?_, htakes.trans hnew⟩
  cases e.fan p with
  | false => rfl
  | true => rfl

/-- **What is accepted is what the log has as taken**: the offers of a send that its log has as taken
are those of the messages `accepted` lists, in the same order.  SRC: pub.c:146-298 -/
theorem accepted_log (hpipes : self.pipes = [p])
    (hstart : e.asked p = 0) (hsorted : SortedBefore e.cur self.buckets)
    (htag : msg.tag = e.cur) (hprio : Pub.prioDecode msg = some prio)
    (alloc : π → Bool) :
    takenCalls (self.send PubEnv.pipes alloc msg e).2.2.2.2.log = takenCalls e.log ++
      (self.accepted PubEnv.pipes alloc msg e).map fun a => a.msg.tag := by
  obtain ⟨_, _, -, -, -, haccepted, htakes⟩ := send_one hpipes hstart hsorted htag hprio alloc
  have hmsgs (buckets : Fin 8 → List (Msg ℕ)) (ms : List (Msg ℕ)) :
      (Pub.heldAt buckets ms).map (fun a => a.msg.tag) = ms.map Msg.tag := by
    induction ms generalizing buckets with
    | nil => rfl
    | cons m ms ih => rw [Pub.heldAt, List.map_cons, ih, List.map_cons]
  rw [htakes.taken, haccepted, hmsgs]

/-- INTERNAL: all that a send makes the pipe take is taken in order, unless it is the new message
that comes too early. -/
theorem accepted_inOrder_iff (hpipes : self.pipes = [p])
    (hstart : e.asked p = 0) (hsorted : SortedBefore e.cur self.buckets)
    (htag : msg.tag = e.cur) (hprio : Pub.prioDecode msg = some prio)
    (alloc : π → Bool) :
    (∀ a ∈ self.accepted PubEnv.pipes alloc msg e, a.InOrder) ↔
      (e.fan p = true → self.ahead prio = 0 ∨
        e.can p = true ∧ ∀ i < self.ahead prio, e.drain i p = true) := by
  obtain ⟨buckets', _, hsorted', hqueue, hahead, haccepted, -⟩ :=
    send_one hpipes hstart hsorted htag hprio alloc
  have hholds := hsorted.toSorted.holds
  have horder := hsorted.toSorted.pairwise
  rw [hqueue] at hholds horder
  obtain ⟨buckets'', hholds', hiff⟩ :=
    heldAt_inOrder_iff hholds horder (if e.fan p = true then [msg] else [])
  -- the two descriptions of what is left agree on which messages that are
  have hsame : ∀ l m, m ∈ buckets'' l ↔ m ∈ buckets' l := fun l m =>
    (hholds'.mem l m).trans (hsorted'.toSorted.holds.mem l m).symm
  have hempty : (∀ l, prio ≤ l → buckets'' l = []) ↔ ∀ l, prio ≤ l → buckets' l = [] := by
    simp only [List.eq_nil_iff_forall_not_mem, hsame]
  have hnew := inOrder_new_iff (fun l m hm => hsorted'.old l m ((hsame l m).mp hm)) htag hprio
  rw [hempty, hahead, le_drained_iff e (ahead_le self prio)] at hnew
  rw [haccepted, hiff]
  cases e.fan p with
  | false => exact iff_of_true nofun nofun
  | true =>
    rw [if_pos rfl, Pub.heldAt, Pub.heldAt, List.forall_mem_singleton, hnew]
    exact ⟨fun h _ => h, fun h => h rfl⟩

/-- **A PUB socket serves a single pipe in the order of priorities exactly if the pipe does not take
the new message before those it has to come after.**  In every state reached by sends with valid
priorities: all messages the pipe takes during the next send are taken in order, that is, with no
message of higher priority and no earlier message of the same priority retained at that moment, if
and only if the pipe refuses the new message itself, or takes, from the start of the call on, as
many retained messages in a row as there are of at least its priority.
SRC: pub.c:15-22, 146-266 -/
theorem priority_order_iff (h : Reach (PubRun.onePipe p) PubRun.ValidSend s)
    (sphdr body : List UInt8) (can fan : π → Bool) (drain : ℕ → π → Bool) (alloc : π → Bool)
    {prio : Fin 8} (hprio : Pub.prioDecode (⟨sphdr, body, s.calls⟩ : Msg ℕ) = some prio) :
    (∀ a ∈ s.acceptedBy sphdr body can fan drain alloc, a.InOrder) ↔
      (fan p = true → s.pub.ahead prio = 0 ∨
        can p = true ∧ ∀ i < s.pub.ahead prio, drain i p = true) := by
  obtain ⟨hpipes, hsorted⟩ := inv_of_reach h
  exact accepted_inOrder_iff hpipes rfl hsorted rfl hprio alloc

end Runs

/-- Priority `7` and priority `0` as they stand in the `SP_HDR`. -/
abbrev high : List UInt8 := [7, 0, 0, 0]

abbrev low : List UInt8 := [0, 0, 0, 0]

/-- A send whose message the pipe refuses. -/
abbrev refused (sphdr : List UInt8) : PubOp Unit :=
  .send sphdr [1, 2] (fun _ => false) (fun _ => false) (fun _ _ => false) fun _ => true

/-- A message of priority `7` is retained; in the next send the pipe takes it and then the new
message of priority `0`: both in order. -/
theorem priority_order_drained :
    ∃ s, Reach (PubRun.onePipe ()) PubRun.ValidSend s ∧ s.pub.ahead 0 = 1 ∧
      ∀ a ∈ s.acceptedBy low [3] (fun _ => true) (fun _ => true) (fun _ _ => true) (fun _ => true),
        a.InOrder := by
  have hrun : (PubRun.onePipe ()).run (PubRun.onePipe ()).init [refused high] = some _ := rfl
  have hreach : Reach (PubRun.onePipe ()) PubRun.ValidSend _ :=
    Reach.of_run Reach.init (by decide) hrun
  refine ⟨_, hreach, by decide +kernel, ?_⟩
  have hprio (n : ℕ) : Pub.prioDecode (⟨low, [3], n⟩ : Msg ℕ) = some 0 :=
    (prioDecode_mark low [3] n 0).trans (by decide)
  refine (priority_order_iff hreach low [3] _ _ _ _ (hprio _)).mpr fun _ => ?_
  exact Or.inr ⟨rfl, fun _ _ => rfl⟩

/-- A message of priority `7` is retained; in the next send the pipe refuses it once more but takes
the new message of priority `0`, which is smaller. -/
theorem low_overtakes_high :
    ∃ s, Reach (PubRun.onePipe ()) PubRun.ValidSend s ∧
      ∃ a ∈ s.acceptedBy low [3] (fun _ => true) (fun _ => true) (fun _ _ => false) fun _ => true,
        a.msg.sphdr = low ∧ (a.buckets 7).map Msg.sphdr = [high] ∧ ¬ a.InOrder := by
  have hrun : (PubRun.onePipe ()).run (PubRun.onePipe ()).init [refused high] = some _ := rfl
  have hreach : Reach (PubRun.onePipe ()) PubRun.ValidSend _ :=
    Reach.of_run Reach.init (by decide) hrun
  exact ⟨_, hreach, by decide +kernel⟩

end MsgBroker.Analysis.PubPriority
