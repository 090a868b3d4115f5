import MsgBroker.Analysis.PubSpec
import MsgBroker.Model.PubRun

/-!
# What retention does to the messages of a PUB socket

A retained copy does not remember which pipe refused it: the drain offers it to every attached pipe
and removes it when any one of them takes it.
-/

set_option autoImplicit false

namespace MsgBroker.Analysis.PubQueue

open Lib Model

variable {π : Type} [DecidableEq π]

/-! ## The fan-out over the pipes of a run -/

/-- The events of offering a copy to every pipe. -/
def offers (e : PubEnv π) (call : ℕ) (ps : List π) : List (PubEvent π) :=
  ps.map fun p => .offer e.cur call p (e.answer call p)

variable {p : π} {ps : List π} {s t : PubRun π}

theorem answer_offered {e : PubEnv π} {call : ℕ} {q : π} (h : q ≠ p) :
    (e.offered call p).answer call q = e.answer call q := by
  simp only [PubEnv.answer, PubEnv.offered, Function.update_of_ne h]

theorem fanOut_env (msg : Msg ℕ) (hnd : ps.Nodup) (e : PubEnv π) :
    ∃ asked, fanOut PubEnv.pipes msg ps e =
        (ps.map fun p => if e.answer msg.tag p then .ok else .again,
          { e with asked := asked, log := e.log ++ offers e msg.tag ps }) ∧
      (∀ p ∈ ps, asked p = e.asked p + 1) ∧ ∀ p ∉ ps, asked p = e.asked p := by
  induction ps generalizing e with
  | nil => exact ⟨e.asked, by simp [fanOut, offers], nofun, fun _ _ => rfl⟩
  | cons p ps ih =>
    obtain ⟨hp, hnd'⟩ := List.nodup_cons.mp hnd
    obtain ⟨asked, hrest, hin, hout⟩ := ih hnd' (e.offered msg.tag p)
    have hsame : ∀ q ∈ ps, (e.offered msg.tag p).answer msg.tag q = e.answer msg.tag q :=
      fun q hq => answer_offered fun heq => hp (heq ▸ hq)
    have hoffers : offers (e.offered msg.tag p) msg.tag ps = offers e msg.tag ps :=
      List.map_congr_left fun q hq => by rw [hsame q hq]; rfl
    have hrcs : (ps.map fun q => if (e.offered msg.tag p).answer msg.tag q then Rc.ok else .again) =
        ps.map fun q => if e.answer msg.tag q then Rc.ok else .again :=
      List.map_congr_left fun q hq => by rw [hsame q hq]
    refine ⟨asked, ?_, ?_, ?_⟩
    · have hsend : PubEnv.pipes.send p msg e =
          (if e.answer msg.tag p then .ok else .again, e.offered msg.tag p) := rfl
      unfold fanOut
      rw [hsend]
      simp only [hrest, hrcs, hoffers]
      simp [PubEnv.offered, offers]
    · intro q hq
      rcases List.mem_cons.mp hq with rfl | hq
      · rw [hout q hp]
        simp [PubEnv.offered]
      · have hne : q ≠ p := fun heq => hp (heq ▸ hq)
        rw [hin q hq]
        simp [PubEnv.offered, hne]
    · intro q hq
      rw [hout q (List.not_mem_of_not_mem_cons hq)]
      simp [PubEnv.offered, List.ne_of_not_mem_cons hq]

omit [DecidableEq π] in
theorem sent_pos {a : π → Bool} :
    sentCount (ps.map fun p => if a p then Rc.ok else .again) > 0 ↔ ∃ p ∈ ps, a p = true := by
  rw [gt_iff_lt, sentCount, List.count_pos_iff, List.mem_map]
  refine exists_congr fun p => and_congr_right fun _ => ?_
  cases a p <;> simp

theorem tryDrainOne_env (msg : Msg ℕ) (hnd : ps.Nodup) (e : PubEnv π) :
    ∃ took asked, Pub.tryDrainOne PubEnv.pipes ps msg e =
        (took, { e with asked := asked, log := e.log ++ offers e msg.tag ps }) ∧
      (took = true ↔ ∃ p ∈ ps, e.answer msg.tag p = true) ∧
      ∀ p ∈ ps, asked p = e.asked p + 1 := by
  obtain ⟨asked, hfan, hin, _⟩ := fanOut_env msg hnd e
  have htry : Pub.tryDrainOne PubEnv.pipes ps msg e =
      (decide (sentCount (ps.map fun p => if e.answer msg.tag p then Rc.ok else .again) > 0),
        { e with asked := asked, log := e.log ++ offers e msg.tag ps }) := by
    simp only [Pub.tryDrainOne, hfan]
  exact ⟨_, asked, htry, decide_eq_true_iff.trans sent_pos, hin⟩

/-! ## The calls -/

omit [DecidableEq π] in
theorem retained_eq (alloc a : π → Bool) (ps : List π) :
    Pub.retained alloc ps (ps.map fun p => if a p then Rc.ok else .again) =
      ps.countP fun p => !a p && alloc p := by
  unfold Pub.retained
  rw [List.zip_map_right, List.countP_map]
  induction ps with
  | nil => rfl
  | cons p ps ih =>
    rw [List.zip_cons_cons, List.countP_cons, List.countP_cons, ih]
    cases ha : a p <;> cases hal : alloc p <;> simp [ha, hal]

/-- INTERNAL: **a send**: what the attempts to drain keep holds when the message is dropped for its
header, or offered to every pipe. -/
theorem send_rule {I : List (Msg ℕ) → PubEnv π → Prop}
    {R : Msg ℕ → PubEnv π → Prop} {sphdr body : List UInt8} {can fan alloc : π → Bool}
    {drain : ℕ → π → Bool} (hnd : s.pub.pipes.Nodup)
    (hI : Attempt PubEnv.pipes s.pub.pipes I R)
    (hinit : I (queue s.pub) ⟨s.calls, can, fan, drain, fun _ => 0, s.log⟩)
    (hs : s.step (.send sphdr body can fan drain alloc) = some t) :
    ∃ (q : List (Msg ℕ)) (e : PubEnv π) (removed : List (Msg ℕ × PubEnv π)),
      I q e ∧ (∀ r ∈ removed, R r.1 r.2) ∧
      t.pub.pipes = s.pub.pipes ∧ t.calls = s.calls + 1 ∧
      (t.removals = s.removals ++ removed.map fun r => (r.1.tag, r.2.log)) ∧
      (queue t.pub = q ∧ t.log = e.log ∨
        List.Perm (queue t.pub) (q ++ List.replicate
          (s.pub.pipes.countP fun p => !e.answer s.calls p && alloc p) ⟨sphdr, body, s.calls⟩) ∧
          t.log = e.log ++ offers e s.calls s.pub.pipes) := by
  obtain ⟨pub', removed, e, hdrain, hpipes, hkept, hremoved⟩ :=
    drainBuckets_rule s.pub hI (fun _ _ _ h => h) _ hinit
  refine ⟨queue pub', e, removed, hkept, hremoved, ?_⟩
  simp only [PubRun.step, Pub.send, hdrain, Pub.fanOutMsg] at hs
  cases hprio : Pub.prioDecode (⟨sphdr, body, s.calls⟩ : Msg ℕ) with
  | none =>
    simp only [hprio] at hs
    cases hs
    exact ⟨hpipes, rfl, rfl, Or.inl ⟨rfl, rfl⟩⟩
  | some prio =>
    obtain ⟨asked, hout, _, _⟩ :=
      fanOut_env (⟨sphdr, body, s.calls⟩ : Msg ℕ) (hpipes ▸ hnd : pub'.pipes.Nodup) e
    simp only [hprio, hout, retained_eq] at hs
    cases hs
    rw [← hpipes]
    exact ⟨rfl, rfl, rfl, Or.inr ⟨queue_retain pub' prio rfl, rfl⟩⟩

theorem step_add {alloc : Bool} (hs : s.step (.add p alloc) = some t) :
    t = s ∨ p ∉ s.pub.pipes ∧
      t = { s with pub := { s.pub with pipes := s.pub.pipes ++ [p] } } := by
  simp only [PubRun.step] at hs
  split_ifs at hs with hin
  cases hs
  cases alloc with
  | false => exact Or.inl rfl
  | true => exact Or.inr ⟨hin, rfl⟩

theorem step_rm (hs : s.step (.rm p) = some t) :
    t = { s with pub := s.pub.rm p, log := s.log ++ [.detached p] } := by
  simp only [PubRun.step] at hs
  split_ifs at hs
  cases hs
  rfl

omit [DecidableEq π] in
theorem nodup_attach (h : ps.Nodup) (hp : p ∉ ps) : (ps ++ [p]).Nodup :=
  List.Nodup.append h (List.nodup_singleton p) (by simpa using hp)

/-! ## Counting copies -/

section Taken

variable {log : List (PubEvent π)} {call n : ℕ} {ps : List π} {e : PubEnv π}

theorem taken_append (log evs : List (PubEvent π)) (n : ℕ) (p : π) :
    copiesTaken (log ++ evs) n p = copiesTaken log n p + copiesTaken evs n p := List.countP_append

theorem taken_offers_le (hnd : ps.Nodup) (p : π) : copiesTaken (offers e call ps) n p ≤ 1 := by
  have hcount : ps.count p ≤ 1 := List.nodup_iff_count_le_one.mp hnd p
  refine le_trans ?_ hcount
  rw [copiesTaken, offers, List.countP_map, List.count]
  refine List.countP_mono_left fun q _ hq => ?_
  simp only [Function.comp_apply] at hq
  split at hq
  · next heq =>
    obtain ⟨_, rfl, rfl, _⟩ := PubEvent.offer.inj heq
    exact beq_iff_eq.mpr (of_decide_eq_true hq).2
  · cases hq

theorem taken_offers_eq_zero (h : n ≠ call ∨ ∀ p ∈ ps, e.answer call p = false) (p : π) :
    copiesTaken (offers e call ps) n p = 0 := by
  rw [copiesTaken, offers, List.countP_map, List.countP_eq_zero]
  intro q hq hyes
  simp only [Function.comp_apply] at hyes
  split at hyes
  · next heq =>
    obtain ⟨_, rfl, rfl, hanswer⟩ := PubEvent.offer.inj heq
    rcases h with hne | hall
    · exact hne (of_decide_eq_true hyes).1.symm
    · rw [hall q hq] at hanswer
      cases hanswer
  · cases hyes

end Taken

/-! ## No message twice -/

/-- The retained messages and the log, before the call `cur`: a message is retained once,
and then no pipe took it; no pipe took a message twice. -/
structure Once (cur : ℕ) (q : List (Msg ℕ)) (log : List (PubEvent π)) : Prop where
  tags : ∀ m ∈ q, m.tag < cur
  nodup : (q.map Msg.tag).Nodup
  fresh : ∀ m ∈ q, ∀ p, copiesTaken log m.tag p = 0
  once : ∀ n p, copiesTaken log n p ≤ 1
  future : ∀ n p, cur ≤ n → copiesTaken log n p = 0

namespace Once

variable {cur : ℕ} {q q' : List (Msg ℕ)} {log : List (PubEvent π)}

theorem perm (h : Once cur q log) (hp : List.Perm q' q) : Once cur q' log where
  tags m hm := h.tags m (hp.mem_iff.mp hm)
  nodup := ((hp.map Msg.tag).nodup_iff).mpr h.nodup
  fresh m hm := h.fresh m (hp.mem_iff.mp hm)
  once := h.once
  future := h.future

theorem congr (h : Once cur q log) {log' : List (PubEvent π)}
    (hsame : ∀ n p, copiesTaken log' n p = copiesTaken log n p) : Once cur q log' where
  tags := h.tags
  nodup := h.nodup
  fresh m hm p := (hsame _ p).trans (h.fresh m hm p)
  once n p := (hsame n p).trans_le (h.once n p)
  future n p hn := (hsame n p).trans (h.future n p hn)

theorem succ (h : Once cur q log) : Once (cur + 1) q log where
  tags m hm := Nat.lt_succ_of_lt (h.tags m hm)
  nodup := h.nodup
  fresh := h.fresh
  once := h.once
  future n p hn := h.future n p (Nat.le_of_succ_le hn)

variable {ps : List π}

theorem attempt {m : Msg ℕ} {e : PubEnv π} (h : Once cur (m :: q) log)
    (hnd : ps.Nodup) :
    Once cur q (log ++ offers e m.tag ps) ∧
      ((∀ p ∈ ps, e.answer m.tag p = false) → Once cur (m :: q) (log ++ offers e m.tag ps)) := by
  have hlt := h.tags m List.mem_cons_self
  obtain ⟨hm, hq⟩ := List.nodup_cons.mp h.nodup
  refine ⟨⟨fun x hx => h.tags x (List.mem_cons_of_mem _ hx), hq, ?_, ?_, ?_⟩, fun hall => ?_⟩
  · intro x hx p
    have hne : x.tag ≠ m.tag := fun heq => hm (heq ▸ List.mem_map_of_mem hx)
    rw [taken_append, h.fresh x (List.mem_cons_of_mem _ hx), taken_offers_eq_zero (Or.inl hne)]
  · intro n p
    rw [taken_append]
    by_cases hn : n = m.tag
    · have hone : copiesTaken (offers e m.tag ps) n p ≤ 1 := taken_offers_le hnd p
      rw [hn, h.fresh m List.mem_cons_self] at *
      omega
    · rw [taken_offers_eq_zero (Or.inl hn)]
      exact h.once n p
  · intro n p hn
    rw [taken_append, h.future n p hn, taken_offers_eq_zero (Or.inl (by omega))]
  · refine h.congr fun n p => ?_
    rw [taken_append, taken_offers_eq_zero (Or.inr hall), Nat.add_zero]

theorem drains (hnd : ps.Nodup) (cur : ℕ) (fan : π → Bool) :
    Attempt PubEnv.pipes ps (fun q e => Once cur q e.log ∧ e.cur = cur ∧ e.fan = fan)
      fun _ _ => True := by
  rintro m q e ⟨honce, hcur, hfan⟩
  obtain ⟨took, asked, htry, htook, _⟩ := tryDrainOne_env m hnd e
  rw [htry]
  refine ⟨fun _ => ⟨⟨(honce.attempt hnd).1, hcur, hfan⟩, trivial⟩, fun hno => ?_⟩
  refine ⟨(honce.attempt hnd).2 fun p hp => ?_, hcur, hfan⟩
  rw [Bool.eq_false_iff]
  intro hyes
  rw [htook.mpr ⟨p, hp, hyes⟩] at hno
  cases hno

theorem fan {sphdr body : List UInt8} {e : PubEnv π} {r : ℕ}
    (h : Once cur q log) (hnd : ps.Nodup) (hr : r ≤ 1)
    (hnone : 0 < r → ∀ p ∈ ps, e.answer cur p = false) :
    Once (cur + 1) (q ++ List.replicate r ⟨sphdr, body, cur⟩) (log ++ offers e cur ps) where
  tags m hm := by
    rcases List.mem_append.mp hm with hm | hm
    · exact Nat.lt_succ_of_lt (h.tags m hm)
    · rw [List.eq_of_mem_replicate hm]
      exact Nat.lt_succ_self cur
  nodup := by
    rw [List.map_append, List.nodup_append']
    refine ⟨h.nodup, ?_, ?_⟩
    · rw [List.map_replicate, List.nodup_replicate]
      exact hr
    · intro n hn hn'
      obtain ⟨m, hm, rfl⟩ := List.mem_map.mp hn
      rw [List.map_replicate] at hn'
      exact absurd (List.eq_of_mem_replicate hn') (h.tags m hm).ne
  fresh m hm p := by
    rcases List.mem_append.mp hm with hm | hm
    · rw [taken_append, h.fresh m hm, taken_offers_eq_zero (Or.inl (h.tags m hm).ne)]
    · have hpos : 0 < r := by
        rcases Nat.eq_zero_or_pos r with rfl | hpos
        · cases hm
        · exact hpos
      rw [List.eq_of_mem_replicate hm, taken_append, h.future cur p le_rfl,
        taken_offers_eq_zero (Or.inr (hnone hpos))]
  once n p := by
    rw [taken_append]
    by_cases hn : n = cur
    · have hone : copiesTaken (offers e cur ps) n p ≤ 1 := taken_offers_le hnd p
      rw [hn, h.future cur p le_rfl] at *
      omega
    · rw [taken_offers_eq_zero (Or.inl hn)]
      exact h.once n p
  future n p hn := by
    rw [taken_append, h.future n p (by omega), taken_offers_eq_zero (Or.inl (by omega))]

end Once

/-- The condition on a call: its fan-out retains a copy only if it is the only one it
retains and no pipe takes the message.  SRC: pub.c:234-266 -/
def RetainsAlone (s : PubRun π) : PubOp π → Prop
  | .send _ _ _ fan _ alloc =>
    ∀ p ∈ s.pub.pipes, fan p = false → alloc p = true →
      ∀ q ∈ s.pub.pipes, q ≠ p → fan q = false ∧ alloc q = false
  | _ => True

instance (s : PubRun π) (op : PubOp π) : Decidable (RetainsAlone s op) := by
  cases op <;> unfold RetainsAlone <;> infer_instance

theorem retained_alone {fan alloc : π → Bool} (hnd : ps.Nodup)
    (h : ∀ p ∈ ps, fan p = false → alloc p = true →
      ∀ q ∈ ps, q ≠ p → fan q = false ∧ alloc q = false) :
    (ps.countP fun p => !fan p && alloc p) ≤ 1 ∧
      ((0 < ps.countP fun p => !fan p && alloc p) → ∀ p ∈ ps, fan p = false) := by
  rcases Nat.eq_zero_or_pos (ps.countP fun p => !fan p && alloc p) with hzero | hpos
  · exact ⟨by omega, fun hp => by omega⟩
  · obtain ⟨p, hp, hpred⟩ := List.countP_pos_iff.mp hpos
    obtain ⟨hfan, halloc⟩ : fan p = false ∧ alloc p = true := by
      cases hf : fan p <;> cases ha : alloc p <;> simp_all
    refine ⟨?_, fun _ q hq => ?_⟩
    · -- every retained copy is the one for `p`, which is in the list once
      refine le_trans ?_ (List.nodup_iff_count_le_one.mp hnd p)
      refine List.countP_mono_left fun q hq hq' => ?_
      by_contra hne
      obtain ⟨_, hq''⟩ := h p hp hfan halloc q hq fun heq => hne (beq_iff_eq.mpr heq)
      rw [hq'', Bool.and_false] at hq'
      cases hq'
    · by_cases heq : q = p
      · rw [heq]
        exact hfan
      · exact (h p hp hfan halloc q hq heq).1

/-- The state of a run in which no pipe took a message twice. -/
structure OnceRun (s : PubRun π) : Prop where
  pipes : s.pub.pipes.Nodup
  once : Once s.calls (queue s.pub) s.log

theorem OnceRun.step (h : OnceRun s) (op : PubOp π)
    (hok : RetainsAlone s op) (hs : s.step op = some t) : OnceRun t := by
  cases op with
  | send sphdr body can fan drain alloc =>
    obtain ⟨q, e, _, ⟨honce, hcur, hfan⟩, _, hpipes, hcalls, _, hend⟩ :=
      send_rule h.pipes (Once.drains h.pipes s.calls fan) ⟨h.once, rfl, rfl⟩ hs
    refine ⟨hpipes ▸ h.pipes, ?_⟩
    rw [hcalls]
    obtain ⟨rfl, hlog⟩ | ⟨hq, hlog⟩ := hend
    · rw [hlog]
      exact honce.succ
    · have hanswer : ∀ p, e.answer s.calls p = fan p := fun p => by
        rw [PubEnv.answer, if_pos hcur.symm, hfan]
      simp only [hanswer] at hq
      obtain ⟨hle, hnone⟩ := retained_alone h.pipes hok
      rw [hlog]
      refine Once.perm ?_ hq
      exact honce.fan h.pipes hle fun hpos p hp => (hanswer p).trans (hnone hpos p hp)
  | add p alloc =>
    obtain rfl | ⟨hp, rfl⟩ := step_add hs
    · exact h
    · exact ⟨nodup_attach h.pipes hp, h.once⟩
  | rm p =>
    obtain rfl := step_rm hs
    refine ⟨h.pipes.erase p, h.once.congr fun n q => ?_⟩
    rw [taken_append]
    rfl

/-- **A PUB socket gives each pipe at most one copy of a message**, in every run whose
fan-outs retain a copy only if it is the only one and no pipe took the message.
SRC: pub.c:146-298 -/
theorem pub_takes_once {s : PubRun π} (h : Reach PubRun.system RetainsAlone s) (call : ℕ)
    (p : π) : copiesTaken s.log call p ≤ 1 := by
  have hinit : OnceRun (PubRun.init : PubRun π) :=
    ⟨List.nodup_nil, ⟨nofun, List.nodup_nil, nofun, fun _ _ => Nat.zero_le _, fun _ _ _ => rfl⟩⟩
  have hinv : OnceRun s :=
    h.invariant OnceRun hinit fun _ op _ hi hok hs => hi.step op hok hs
  exact hinv.once.once call p

/-- A pipe refuses a message, and two pipes take it from its bucket later. -/
def retainedForOne : List (PubOp Bool) :=
  [.add true true,
    .send [] [7] (fun _ => true) (fun _ => false) (fun _ _ => true) fun _ => true,
    .add false true,
    .send [] [8] (fun _ => true) (fun _ => true) (fun _ _ => true) fun _ => true]

/-- Both have it once. -/
theorem pub_takes_once_retainedForOne :
    ∃ s, Reach PubRun.system (RetainsAlone (π := Bool)) s ∧ copiesTaken s.log 0 true = 1 ∧
      copiesTaken s.log 0 false = 1 ∧ ∀ p, copiesTaken s.log 0 p ≤ 1 := by
  have hrun : (PubRun.system.run (PubRun.init : PubRun Bool) retainedForOne).isSome := by decide
  have hreach : Reach PubRun.system (RetainsAlone (π := Bool)) _ :=
    Reach.of_run Reach.init (by decide) (Option.some_get hrun).symm
  exact ⟨_, hreach, rfl, rfl, pub_takes_once hreach 0⟩

/-- Of two pipes one takes a message and the other refuses it; both take it from its bucket
in the next call. -/
def retainedAfterTaken : List (PubOp Bool) :=
  [.add true true, .add false true,
    .send [] [7] (fun _ => true) (fun p => p) (fun _ _ => true) fun _ => true,
    .send [] [8] (fun _ => true) (fun _ => true) (fun _ _ => true) fun _ => true]

/-- The first pipe has it twice. -/
theorem pub_takes_twice :
    ∃ s, Reach PubRun.system (fun _ (_ : PubOp Bool) => True) s ∧ copiesTaken s.log 0 true = 2 := by
  have hrun : (PubRun.system.run (PubRun.init : PubRun Bool) retainedAfterTaken).isSome := by
    decide
  have hreach : Reach PubRun.system (fun _ (_ : PubOp Bool) => True) _ :=
    Reach.of_run_init (Option.some_get hrun).symm
  exact ⟨_, hreach, rfl⟩

/-! ## No message lost -/

/-- The pipes still owed the message they refused are attached. -/
def Attached (pipes : List π) (log : List (PubEvent π)) : Prop :=
  ∀ n p l₁ l₂, log = l₁ ++ .offer n n p false :: l₂ → p ∈ pipes ∨ .detached p ∈ l₂

omit [DecidableEq π] in
theorem Attached.append {pipes : List π} {log evs : List (PubEvent π)}
    (h : Attached pipes log) (hevs : ∀ n p, .offer n n p false ∈ evs → p ∈ pipes) :
    Attached pipes (log ++ evs) := by
  intro n p l₁ l₂ hsplit
  rcases append_eq_append_cons hsplit with ⟨post, rfl, hlog⟩ | hmem
  · rcases h n p l₁ post hlog with hp | hd
    · exact Or.inl hp
    · exact Or.inr (List.mem_append_left _ hd)
  · exact Or.inl (hevs n p hmem)

/-- The condition on a call: in each attempt to drain a message the attached pipes answer
alike.  SRC: pub.c:147-213 -/
def Alike (s : PubRun π) : PubOp π → Prop
  | .send _ _ _ _ drain _ =>
    ∀ k, ∀ p ∈ s.pub.pipes, drain k p = true → ∀ q ∈ s.pub.pipes, drain k q = true
  | _ => True

/-- The queue and the pipes during the call `n`. -/
structure Owed (n : ℕ) (script : ℕ → π → Bool) (pipes : List π) (q : List (Msg ℕ))
    (e : PubEnv π) : Prop where
  cur : e.cur = n
  drain : e.drain = script
  tags : ∀ m ∈ q, m.tag < n
  asked : ∃ k, ∀ p ∈ pipes, e.asked p = k
  attached : Attached pipes e.log

/-- INTERNAL: **one attempt to drain** serves every pipe that refused the message, if it removes it.
-/
theorem Owed.attempt (cur : ℕ) {drain : ℕ → π → Bool} {pipes : List π} (hnd : pipes.Nodup)
    (halike : ∀ k, ∀ p ∈ pipes, drain k p = true → ∀ q ∈ pipes, drain k q = true) :
    Attempt PubEnv.pipes pipes (Owed cur drain pipes) fun m e => RefusersServed m.tag e.log := by
  intro m q e h
  obtain ⟨took, asked, htry, htook, hasked⟩ := tryDrainOne_env m hnd e
  obtain ⟨k, hk⟩ := h.asked
  have hlt := h.tags m List.mem_cons_self
  have hanswer : ∀ p ∈ pipes, e.answer m.tag p = drain k p := by
    intro p hp
    rw [PubEnv.answer, if_neg (by rw [h.cur]; omega), h.drain, hk p hp]
  have hno : ∀ n p, .offer n n p false ∉ offers e m.tag pipes := by
    intro n p hmem
    obtain ⟨_, _, heq⟩ := List.mem_map.mp hmem
    obtain ⟨hcur, htag, _, _⟩ := PubEvent.offer.inj heq
    have := h.cur
    omega
  have hkeep : ∀ q', (∀ x ∈ q', x.tag < cur) → Owed cur drain pipes q'
      { e with asked := asked, log := e.log ++ offers e m.tag pipes } := fun q' hq' =>
    ⟨h.cur, h.drain, hq', ⟨k + 1, fun p hp => (hasked p hp).trans (congrArg (· + 1) (hk p hp))⟩,
      h.attached.append fun n p hmem => absurd hmem (hno n p)⟩
  rw [htry]
  refine ⟨fun hyes => ⟨hkeep q fun x hx => h.tags x (List.mem_cons_of_mem _ hx), ?_⟩,
    fun _ => hkeep _ h.tags⟩
  -- one pipe took it, so every attached pipe did
  obtain ⟨p₀, hp₀, hone⟩ := htook.mp hyes
  have hall := halike k p₀ hp₀ ((hanswer p₀ hp₀).symm.trans hone)
  intro p l₁ l₂ hsplit
  rcases append_eq_append_cons hsplit with ⟨post, rfl, hlog⟩ | hmem
  · rcases h.attached m.tag p l₁ post hlog with hp | hd
    · left
      refine ⟨e.cur, List.mem_append_right _ (List.mem_map.mpr ⟨p, hp, ?_⟩)⟩
      rw [hanswer p hp, hall p hp]
    · exact Or.inr (List.mem_append_left _ hd)
  · exact absurd hmem (hno m.tag p)

/-- The state of a run in which no message was removed too early. -/
structure OwedRun (s : PubRun π) : Prop where
  pipes : s.pub.pipes.Nodup
  tags : ∀ m ∈ queue s.pub, m.tag < s.calls
  attached : Attached s.pub.pipes s.log
  served : ∀ r ∈ s.removals, RefusersServed r.1 r.2

theorem OwedRun.step (h : OwedRun s) (op : PubOp π) (hok : Alike s op)
    (hs : s.step op = some t) : OwedRun t := by
  cases op with
  | send sphdr body can fan drain alloc =>
    obtain ⟨q, e, removed, howed, hserved, hpipes, hcalls, hremovals, hend⟩ :=
      send_rule h.pipes (Owed.attempt s.calls h.pipes hok)
        ⟨rfl, rfl, h.tags, ⟨0, fun _ _ => rfl⟩, h.attached⟩ hs
    have hall : ∀ r ∈ t.removals, RefusersServed r.1 r.2 := by
      rw [hremovals]
      intro r hr
      rcases List.mem_append.mp hr with hr | hr
      · exact h.served r hr
      · obtain ⟨x, hx, rfl⟩ := List.mem_map.mp hr
        exact hserved x hx
    refine ⟨hpipes ▸ h.pipes, ?_, ?_, hall⟩
    · rw [hcalls]
      intro m hm
      obtain ⟨rfl, _⟩ | ⟨hq, _⟩ := hend
      · exact Nat.lt_succ_of_lt (howed.tags m hm)
      rcases List.mem_append.mp (hq.mem_iff.mp hm) with hm | hm
      · exact Nat.lt_succ_of_lt (howed.tags m hm)
      · rw [List.eq_of_mem_replicate hm]
        exact Nat.lt_succ_self _
    · rw [hpipes]
      obtain ⟨_, hlog⟩ | ⟨_, hlog⟩ := hend
      · rw [hlog]
        exact howed.attached
      rw [hlog]
      refine howed.attached.append fun n p hmem => ?_
      obtain ⟨q, hq, heq⟩ := List.mem_map.mp hmem
      obtain ⟨_, _, rfl, _⟩ := PubEvent.offer.inj heq
      exact hq
  | add p alloc =>
    obtain rfl | ⟨hp, rfl⟩ := step_add hs
    · exact h
    · exact ⟨nodup_attach h.pipes hp, h.tags, fun n q l₁ l₂ hsplit =>
        (h.attached n q l₁ l₂ hsplit).imp_left (List.mem_append_left _), h.served⟩
  | rm p =>
    obtain rfl := step_rm hs
    refine ⟨h.pipes.erase p, h.tags, ?_, h.served⟩
    intro n q l₁ l₂ hsplit
    rcases append_eq_append_cons hsplit with ⟨post, rfl, hlog⟩ | hmem
    · rcases h.attached n q l₁ post hlog with hq | hd
      · by_cases heq : q = p
        · rw [heq]
          exact Or.inr (List.mem_append_right _ List.mem_cons_self)
        · exact Or.inl ((List.mem_erase_of_ne heq).mpr hq)
      · exact Or.inr (List.mem_append_left _ hd)
    · cases List.mem_singleton.mp hmem

/-- **A PUB socket removes no message that is still owed**, in every run in which the
attached pipes answer each attempt to drain a message alike: when a retained message is
removed, every pipe that refused it in its fan-out has taken it since or is detached.
SRC: pub.c:146-266 -/
theorem pub_serves_refused {s : PubRun π} (h : Reach PubRun.system Alike s) :
    ∀ r ∈ s.removals, RefusersServed r.1 r.2 := by
  have hinit : OwedRun (PubRun.init : PubRun π) := by
    refine ⟨List.nodup_nil, nofun, ?_, nofun⟩
    intro n p l₁ l₂ hsplit
    exact absurd hsplit.symm (List.append_ne_nil_of_right_ne_nil _ (List.cons_ne_nil _ _))
  have hinv : OwedRun s :=
    h.invariant OwedRun hinit fun _ op _ hi hok hs => hi.step op hok hs
  exact hinv.served

/-- Two pipes refuse a message, and both take it from its bucket later. -/
def bothServed : List (PubOp Bool) :=
  [.add true true, .add false true,
    .send [] [7] (fun _ => true) (fun _ => false) (fun _ _ => true) fun p => p,
    .send [] [8] (fun _ => true) (fun _ => true) (fun _ _ => true) fun _ => true]

/-- It is removed once, with both served. -/
theorem pub_serves_refused_bothServed :
    ∃ s, Reach PubRun.system (Alike (π := Bool)) s ∧ s.removals.map Prod.fst = [0] ∧
      ∀ r ∈ s.removals, RefusersServed r.1 r.2 := by
  have hrun : (PubRun.system.run (PubRun.init : PubRun Bool) bothServed).isSome := by decide
  have hok : ∀ op ∈ bothServed, ∀ s, Alike s op := by simp [bothServed, Alike]
  have hreach : Reach PubRun.system (Alike (π := Bool)) _ :=
    Reach.of_run Reach.init (System.meets_of_forall _ hok _) (Option.some_get hrun).symm
  exact ⟨_, hreach, rfl, pub_serves_refused hreach⟩

/-- Two pipes refuse a message; in the next call one takes it from its bucket and the other
refuses it again. -/
def oneServed : List (PubOp Bool) :=
  [.add true true, .add false true,
    .send [] [7] (fun _ => true) (fun _ => false) (fun _ _ => true) fun _ => true,
    .send [] [8] (fun _ => true) (fun _ => true) (fun _ p => p) fun _ => true]

/-- The message is removed, and the second pipe, still attached, never had it. -/
theorem pub_drops_refused :
    ∃ s, Reach PubRun.system (fun _ (_ : PubOp Bool) => True) s ∧ s.pub.pipes = [true, false] ∧
      copiesTaken s.log 0 false = 0 ∧ ∃ r ∈ s.removals, ¬ RefusersServed r.1 r.2 := by
  have hrun : (PubRun.system.run (PubRun.init : PubRun Bool) oneServed).isSome := by decide
  have hreach : Reach PubRun.system (fun _ (_ : PubOp Bool) => True) _ :=
    Reach.of_run_init (Option.some_get hrun).symm
  refine ⟨_, hreach, rfl, rfl, (0, [.offer 0 0 true false, .offer 0 0 false false,
    .offer 1 0 true true, .offer 1 0 false false]), List.mem_cons_self, fun h => ?_⟩
  have hserved := h false [.offer 0 0 true false] [.offer 1 0 true true, .offer 1 0 false false] rfl
  simp at hserved

end MsgBroker.Analysis.PubQueue
