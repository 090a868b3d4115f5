import MsgBroker.Analysis.TimersetList

/-!
# What a tick of the timer set fires

`Holds s ps` is the invariant of a run: the handles `ps` of the list come by their expiry, those
with the same expiry by their last insertion, and a handle is in the list if and only if the last
thing that happened to it was an insertion.
-/

set_option autoImplicit false

namespace MsgBroker.Analysis.Timerset

open Lib Model Model.Timerset

variable {H : Type}

section SortedInsertion

variable {a : H} {l : List H} {key stamp : H → ℕ}

theorem pairwise_orderedInsert
    (hl : l.Pairwise fun a b => key a < key b ∨ key a = key b ∧ stamp a < stamp b)
    (ha : ∀ b ∈ l, stamp b < stamp a) :
    (l.orderedInsert (fun a b => key a < key b) a).Pairwise fun a b =>
      key a < key b ∨ key a = key b ∧ stamp a < stamp b := by
  induction l with
  | nil => exact List.pairwise_singleton _ _
  | cons b l ih =>
    obtain ⟨hb, hl'⟩ := List.pairwise_cons.mp hl
    rw [List.orderedInsert_cons]
    split_ifs with hlt
    · refine List.pairwise_cons.mpr ⟨fun c hc => .inl ?_, hl⟩
      rcases List.mem_cons.mp hc with rfl | hc
      · exact hlt
      · rcases hb c hc with hbc | ⟨hbc, -⟩ <;> omega
    · refine List.pairwise_cons.mpr ⟨fun c hc => ?_, ih hl' fun c hc => ha c (.tail b hc)⟩
      rcases (List.mem_orderedInsert _).mp hc with rfl | hc
      · have hstamp := ha b List.mem_cons_self
        omega
      · exact hb c hc

theorem filter_orderedInsert {p : H → Bool} (ha : p a = false) :
    (l.orderedInsert (fun a b => key a < key b) a).filter p = l.filter p := by
  rw [List.orderedInsert_eq_take_drop, List.filter_append, List.filter_cons_of_neg (by simp [ha]),
    ← List.filter_append, List.takeWhile_append_dropWhile]

end SortedInsertion

@[simp] theorem hndl_inserted (h : H) : (TimerEvent.inserted h).hndl = h := rfl

@[simp] theorem hndl_expired (h : H) (called : Bool) : (TimerEvent.expired h called).hndl = h := rfl

section Events

variable [DecidableEq H] {g h : H} {e : TimerEvent H} {log evs evs' : List (TimerEvent H)}

/-- The first thing that happened to a handle. -/
def firstEvent (h : H) (evs : List (TimerEvent H)) : Option (TimerEvent H) :=
  evs.find? fun e => e.hndl = h

/-- The last thing that happened to a handle. -/
def lastEvent (h : H) (evs : List (TimerEvent H)) : Option (TimerEvent H) :=
  evs.reverse.find? fun e => e.hndl = h

/-- The handles whose callbacks were called, in this order. -/
def callbacks (evs : List (TimerEvent H)) : List H := evs.filterMap TimerEvent.callback

theorem lastEvent_concat : lastEvent h (log ++ [e]) =
    if e.hndl = h then some e else lastEvent h log := by
  unfold lastEvent
  rw [List.reverse_append, List.reverse_singleton, List.singleton_append, List.find?_cons]
  by_cases he : e.hndl = h <;> simp [he]

theorem firstEvent_cons : firstEvent h (e :: evs) =
    if e.hndl = h then some e else firstEvent h evs := by
  unfold firstEvent
  rw [List.find?_cons]
  by_cases he : e.hndl = h <;> simp [he]

theorem firstEvent_append_of_notMem (hh : h ∉ evs.map TimerEvent.hndl) :
    firstEvent h (evs ++ evs') = firstEvent h evs' := by
  unfold firstEvent
  rw [List.find?_append, List.find?_eq_none.mpr, Option.none_or]
  intro e he
  simpa using fun heq : e.hndl = h => hh (heq ▸ List.mem_map_of_mem he)

theorem firstEvent_append_of_mem (hh : h ∈ evs.map TimerEvent.hndl)
    (evs' : List (TimerEvent H)) :
    ∃ e ∈ evs, firstEvent h (evs ++ evs') = some e := by
  obtain ⟨e, he, rfl⟩ := List.mem_map.mp hh
  have hsome : (evs.find? fun e' => e'.hndl = e.hndl).isSome := by
    rw [List.find?_isSome]
    exact ⟨e, he, by simp⟩
  obtain ⟨e', he'⟩ := Option.isSome_iff_exists.mp hsome
  refine ⟨e', List.mem_of_find?_eq_some he', ?_⟩
  unfold firstEvent
  rw [List.find?_append, he', Option.some_or]

end Events

/-- **What a tick with the events `evs` fires**, if the handles `ps` are due when it begins: their
callbacks are called in this order and at most once, and the callback of a due handle is called
exactly if the first thing that happens to the handle is its expiry. -/
structure Fires [DecidableEq H] (fn : H → Bool) (ps : List H) (evs : List (TimerEvent H)) :
    Prop where
  once : (callbacks evs).Sublist ps
  first : ∀ h ∈ ps, ∃ e, firstEvent h evs = some e ∧
    (h ∈ callbacks evs ↔ e.isExpiry = true ∧ fn h = true)

namespace Fires

variable [DecidableEq H] {fn : H → Bool} {h : H} {ps : List H} {evs evs' : List (TimerEvent H)}

theorem nil : Fires fn [] [] := ⟨List.Sublist.refl _, nofun⟩

theorem cons (hh : h ∉ ps) (hevs : ∀ e ∈ evs, e.isExpiry = false)
    (hrest : Fires fn (ps.filter fun h => h ∉ evs.map TimerEvent.hndl) evs') :
    Fires fn (h :: ps) (.expired h (fn h) :: evs ++ evs') := by
  have hsub : (callbacks evs').Sublist ps := hrest.once.trans List.filter_sublist
  have hnone : callbacks evs = [] := List.filterMap_eq_nil_iff.mpr fun e he => by
    have hno := hevs e he
    cases e with
    | inserted => rfl
    | cancelled => rfl
    | expired => cases hno
  have hcallbacks : callbacks (.expired h (fn h) :: evs ++ evs') =
      if fn h then h :: callbacks evs' else callbacks evs' := by
    unfold callbacks at hnone ⊢
    rw [List.cons_append, List.filterMap_cons, List.filterMap_append, hnone, List.nil_append]
    cases fn h <;> rfl
  refine ⟨?_, fun g hg => ?_⟩
  · rw [hcallbacks]
    split_ifs
    · exact hsub.cons_cons h
    · exact hsub.cons h
  · rw [hcallbacks, List.cons_append, firstEvent_cons]
    rcases List.mem_cons.mp hg with rfl | hg
    · refine ⟨.expired g (fn g), if_pos rfl, ?_⟩
      have hnot : g ∉ callbacks evs' := fun hmem => hh (hsub.subset hmem)
      cases fn g <;> simp [TimerEvent.isExpiry, hnot]
    · have hgh : g ≠ h := fun heq => hh (heq ▸ hg)
      have hmem : (g ∈ if fn h then h :: callbacks evs' else callbacks evs') ↔
          g ∈ callbacks evs' := by
        split_ifs <;> simp [hgh]
      rw [if_neg (fun heq => hgh heq.symm), hmem]
      by_cases htouched : g ∈ evs.map TimerEvent.hndl
      · -- a callback cancelled or inserted the handle before its turn
        obtain ⟨e, he, hfirst⟩ := firstEvent_append_of_mem htouched evs'
        refine ⟨e, hfirst, ⟨fun hcalled => ?_, fun hexpiry => ?_⟩⟩
        · have hleft := List.of_mem_filter (hrest.once.subset hcalled)
          exact absurd htouched (by simpa using hleft)
        · rw [hevs e he] at hexpiry
          cases hexpiry.1
      · rw [firstEvent_append_of_notMem htouched]
        exact hrest.first g (List.mem_filter.mpr ⟨hg, by simpa using htouched⟩)

end Fires

/-- The order of the list: by the expiry, then by the last insertion. -/
def Before (s : Timers H) (a b : H) : Prop :=
  (s.timerset.hndls a).expiry < (s.timerset.hndls b).expiry ∨
    (s.timerset.hndls a).expiry = (s.timerset.hndls b).expiry ∧ s.stamp a < s.stamp b

/-- The handles of the list that are due at `now`. -/
def due (now : ℕ) (s : Timers H) (ps : List H) : List H :=
  ps.filter fun h => (s.timerset.hndls h).expiry ≤ now

variable [DecidableEq H]

/-- The handles `ps` are in the list of the set, in its order, and the events agree. -/
structure Holds (s : Timers H) (ps : List H) : Prop where
  list : IsTimers s.timerset ps
  sorted : ps.Pairwise (Before s)
  stamps : ∀ h ∈ ps, s.stamp h < s.inserts
  length : ps.length ≤ s.inserts
  clock : s.clock < 2 ^ 64
  last : ∀ h, h ∈ ps ↔ lastEvent h s.log = some (.inserted h)
  fired : ∀ pre h called post, s.log = pre ++ .expired h called :: post →
    lastEvent h pre = some (.inserted h)

/-- A piece of a run with the events `evs`: the handles of its events are no longer due. -/
structure Follows (now : ℕ) (s : Timers H) (ps : List H) (evs : List (TimerEvent H))
    (t : Timers H) (qs : List H) : Prop where
  holds : Holds t qs
  log : t.log = s.log ++ evs
  clock : s.clock ≤ t.clock
  fn : ∀ b, (t.timerset.hndls b).fn = (s.timerset.hndls b).fn
  due : due now t qs = (due now s ps).filter fun h => h ∉ evs.map TimerEvent.hndl

namespace Follows

variable {now : ℕ} {s t u : Timers H} {ps qs rs : List H} {evs evs' : List (TimerEvent H)}

theorem refl (hs : Holds s ps) : Follows now s ps [] s ps where
  holds := hs
  log := (List.append_nil _).symm
  clock := le_rfl
  fn _ := rfl
  due := by simp

theorem trans (h₁ : Follows now s ps evs t qs) (h₂ : Follows now t qs evs' u rs) :
    Follows now s ps (evs ++ evs') u rs where
  holds := h₂.holds
  log := by rw [h₂.log, h₁.log, List.append_assoc]
  clock := h₁.clock.trans h₂.clock
  fn b := (h₂.fn b).trans (h₁.fn b)
  due := by
    rw [h₂.due, h₁.due, List.filter_filter]
    refine List.filter_congr fun h _ => ?_
    simp [Bool.and_comm]

end Follows

namespace Holds

variable {now : ℕ} {s t : Timers H} {ps qs : List H} {h : H} {e : TimerEvent H}

theorem off (hs : Holds s ps) (he : e ≠ .inserted e.hndl)
    (hexpiry : e.isExpiry → e.hndl ∈ ps) :
    Follows now s ps [e]
      { s with timerset := s.timerset.cancel e.hndl, log := s.log ++ [e] }
      (ps.filter (· ≠ e.hndl)) := by
  have hkeeps := fun b => hs.list.cancel_keeps e.hndl b
  refine ⟨⟨hs.list.cancel e.hndl, ?_, ?_, ?_, hs.clock, fun h => ?_, ?_⟩, rfl, le_rfl,
    fun b => (hkeeps b).2, ?_⟩
  · refine (hs.sorted.imp fun {a b} hab => ?_).filter _
    simpa only [Before, (hkeeps a).1, (hkeeps b).1] using hab
  · exact fun h hh => hs.stamps h (List.mem_of_mem_filter hh)
  · exact (List.length_filter_le _ _).trans hs.length
  · rw [lastEvent_concat, List.mem_filter]
    split_ifs with heq
    · subst heq
      simp [he]
    · simpa [Ne.symm heq, eq_comm] using hs.last h
  · intro pre h called post hlog
    rcases concat_eq_append_cons_iff.mp hlog with ⟨-, rfl, rfl⟩ | ⟨post', -, hold⟩
    · exact (hs.last h).mp (hexpiry rfl)
    · exact hs.fired pre h called post' hold
  · unfold Timerset.due
    rw [List.filter_filter, List.filter_filter]
    refine List.filter_congr fun h _ => ?_
    simp [(hkeeps h).1, Bool.and_comm]

theorem le_later (hs : Holds s ps) (n : ℕ) : s.clock ≤ s.later n := by
  have hclock := hs.clock
  unfold Timers.later
  omega

theorem insert (hs : Holds s ps) (hnow : now ≤ mbClockMs s.clock) (h : H) (timeout : Timeout)
    (n : ℕ) :
    ∃ t qs, s.call (.insert h timeout n) = some t ∧ Follows now s ps [.inserted h] t qs := by
  obtain ⟨ts, hrun, hlist, hself, hother, hfn⟩ :=
    hs.list.insert (Nat.lt_succ_of_le hs.length) (s.later n) timeout h
  have hlater := hs.le_later n
  have hsmall : s.later n < 2 ^ 64 := by
    unfold Timers.later
    omega
  -- the expiry does not wrap, and it is after `now`
  have hexpiry : now < (ts.hndls h).expiry := by
    have htimeout := timeout.2
    unfold mbClockMs at hnow hself
    rw [hself]
    omega
  have hne : ∀ b ∈ ps.filter (· ≠ h), b ≠ h := fun b hb => by simpa using List.of_mem_filter hb
  refine ⟨_, _, by simp only [Timers.call, hrun, Option.bind_eq_bind, Option.bind_some]; rfl,
    ⟨hlist, ?_, fun b hb => ?_, ?_, hsmall, fun b => ?_, ?_⟩, rfl, hlater, hfn, ?_⟩
  · refine pairwise_orderedInsert ?_ fun b hb => ?_
    · refine (hs.sorted.filter _).imp_of_mem fun {a b} ha hb hab => ?_
      simpa only [Before, hother a (hne a ha), hother b (hne b hb),
        Function.update_of_ne (hne a ha), Function.update_of_ne (hne b hb)] using hab
    · dsimp only
      rw [Function.update_of_ne (hne b hb), Function.update_self]
      exact hs.stamps b (List.mem_of_mem_filter hb)
  · dsimp only
    rcases (List.mem_orderedInsert _).mp hb with rfl | hb
    · rw [Function.update_self]
      omega
    · rw [Function.update_of_ne (hne b hb)]
      exact Nat.lt_succ_of_lt (hs.stamps b (List.mem_of_mem_filter hb))
  · rw [List.orderedInsert_length]
    exact Nat.succ_le_succ ((List.length_filter_le _ _).trans hs.length)
  · rw [lastEvent_concat, List.mem_orderedInsert, List.mem_filter]
    by_cases hb : b = h
    · subst hb
      simp
    · simpa [hb, Ne.symm hb] using hs.last b
  · intro pre b called post hlog
    rcases concat_eq_append_cons_iff.mp hlog with ⟨-, -, heq⟩ | ⟨post', -, hold⟩
    · cases heq
    · exact hs.fired pre b called post' hold
  · unfold Timerset.due
    rw [filter_orderedInsert (by simpa using hexpiry), List.filter_filter, List.filter_filter]
    refine List.filter_congr fun b _ => ?_
    by_cases hb : b = h
    · simp [hb]
    · simp [hb, hother b hb]

theorem call (hs : Holds s ps) (hnow : now ≤ mbClockMs s.clock) (o : TimerOp H) :
    ∃ t qs, s.call o = some t ∧ Follows now s ps [o.event] t qs := by
  cases o with
  | insert h timeout n => exact hs.insert hnow h timeout n
  | cancel h => exact ⟨_, _, rfl, hs.off (e := .cancelled h) nofun nofun⟩

theorem calls (hs : Holds s ps) (hnow : now ≤ mbClockMs s.clock) (ops : List (TimerOp H)) :
    ∃ t qs, s.calls ops = some t ∧ Follows now s ps (ops.map TimerOp.event) t qs := by
  induction ops generalizing s ps with
  | nil => exact ⟨s, ps, rfl, Follows.refl hs⟩
  | cons o ops ih =>
    obtain ⟨t, qs, hcall, hfirst⟩ := hs.call hnow o
    obtain ⟨u, rs, hcalls, hrest⟩ :=
      ih hfirst.holds (hnow.trans (Nat.div_le_div_right hfirst.clock))
    refine ⟨u, rs, ?_, hfirst.trans hrest⟩
    rw [Timers.calls, List.foldlM_cons, hcall]
    exact hcalls

theorem due_eq_nil (hs : Holds s (h :: ps)) (hlate : ¬ (s.timerset.hndls h).expiry ≤ now) :
    due now s (h :: ps) = [] := by
  refine List.filter_eq_nil_iff.mpr fun b hb => ?_
  have hle : (s.timerset.hndls h).expiry ≤ (s.timerset.hndls b).expiry := by
    rcases List.mem_cons.mp hb with rfl | hb
    · exact le_rfl
    · rcases (List.pairwise_cons.mp hs.sorted).1 b hb with hlt | ⟨heq, -⟩
      · exact hlt.le
      · exact heq.le
  simpa using fun hdue => hlate (hle.trans hdue)

/-- INTERNAL: **the loop of a tick** ends, with as many rounds as there are due handles, and fires
what is due. -/
theorem tickLoop_eq (hs : Holds s ps) (hnow : now ≤ mbClockMs s.clock)
    (ops : ℕ → List (TimerOp H)) {fuel : ℕ} (k : ℕ) (hfuel : (due now s ps).length < fuel) :
    ∃ t evs qs, Timers.tickLoop now ops fuel k s = some t ∧ Holds t qs ∧ t.log = s.log ++ evs ∧
      Fires (fun h => (s.timerset.hndls h).fn) (due now s ps) evs := by
  induction fuel generalizing s ps k with
  | zero => omega
  | succ fuel ih =>
    rw [Timers.tickLoop, hs.list.head]
    cases ps with
    | nil => exact ⟨s, [], [], rfl, hs, (List.append_nil _).symm, Fires.nil⟩
    | cons h ps =>
      rw [List.head?_cons]
      dsimp only
      by_cases hdue : (s.timerset.hndls h).expiry ≤ now
      · rw [if_pos hdue]
        have hnd := List.nodup_cons.mp hs.list.linked.nodup
        have hdues : due now s (h :: ps) = h :: due now s ps :=
          List.filter_cons_of_pos (by simpa using hdue)
        have hoff : Follows now s (h :: ps) [.expired h (s.timerset.hndls h).fn] (s.expire h) _ :=
          hs.off (e := .expired h (s.timerset.hndls h).fn) nofun fun _ => List.mem_cons_self
        have hclock : now ≤ mbClockMs (s.expire h).clock := hnow
        obtain ⟨t, qs, hcalls, hfollows⟩ := hoff.holds.calls hclock
          (if (s.timerset.hndls h).fn then ops k else [])
        set calls := (if (s.timerset.hndls h).fn then ops k else []) with hcallsdef
        have hall := hoff.trans hfollows
        -- what is due afterwards: the other due handles that the callback left alone
        have hafter : due now t qs =
            (due now s ps).filter fun b => b ∉ (calls.map TimerOp.event).map TimerEvent.hndl := by
          rw [hall.due, hdues, List.filter_cons_of_neg (by simp)]
          refine List.filter_congr fun b hb => ?_
          have hbh : b ≠ h := fun heq => hnd.1 (heq ▸ List.mem_of_mem_filter hb)
          simp [hbh]
        have hshort : (due now t qs).length < fuel := by
          rw [hdues, List.length_cons] at hfuel
          rw [hafter]
          exact (List.length_filter_le _ _).trans_lt (by omega)
        obtain ⟨u, evs, rs, hloop, hu, hlog, hfires⟩ :=
          ih hall.holds (hnow.trans (Nat.div_le_div_right hall.clock)) (k + 1) hshort
        have hfn : (fun b => (t.timerset.hndls b).fn) = fun b => (s.timerset.hndls b).fn :=
          funext hall.fn
        rw [hafter, hfn] at hfires
        have hcallback : ∀ e ∈ calls.map TimerOp.event, e.isExpiry = false := by
          intro e he
          obtain ⟨o, -, rfl⟩ := List.mem_map.mp he
          cases o <;> rfl
        refine ⟨u, _, rs, ?_, hu, ?_, hdues ▸ Fires.cons ?_ hcallback hfires⟩
        · rw [hcalls]
          exact hloop
        · rw [hlog, hall.log, List.append_assoc, List.append_assoc]
          rfl
        · exact fun hmem => hnd.1 (List.mem_of_mem_filter hmem)
      · rw [if_neg hdue, hs.due_eq_nil hdue]
        exact ⟨s, [], h :: ps, rfl, hs, (List.append_nil _).symm, Fires.nil⟩

theorem tick (hs : Holds s ps) (n : ℕ) (ops : ℕ → List (TimerOp H)) :
    ∃ t evs qs, s.tick n ops = some t ∧ Holds t qs ∧ t.log = s.log ++ evs ∧
      Fires (fun h => (s.timerset.hndls h).fn) (due (mbClockMs (s.later n)) s ps) evs := by
  have hread : Holds { s with clock := s.later n } ps := by
    refine ⟨hs.list, hs.sorted, hs.stamps, hs.length, ?_, hs.last, hs.fired⟩
    show s.later n < 2 ^ 64
    unfold Timers.later
    omega
  exact hread.tickLoop_eq le_rfl ops 0
    (Nat.lt_succ_of_le ((List.length_filter_le _ _).trans hs.length))

end Holds

section Runs

variable {fns : H → Bool} {s : Timers H}

theorem holds_of_reach (h : Reach (timerset fns) (fun _ _ => True) s) : ∃ ps, Holds s ps := by
  refine h.invariant (fun s => ∃ ps, Holds s ps) ⟨[], ?_⟩ ?_
  · refine ⟨⟨Linked.nil _, rfl, by simp [timerset]⟩, List.Pairwise.nil, nofun, Nat.zero_le _,
      by simp [timerset], fun h => ?_, fun pre h called post hlog => ?_⟩
    · simp [timerset, lastEvent]
    · simp [timerset] at hlog
  · rintro s call t ⟨ps, hs⟩ - hstep
    cases call with
    | op o =>
      obtain ⟨u, qs, hcall, hfollows⟩ := hs.call (Nat.zero_le _) o
      obtain rfl : t = u := Option.some.inj (hstep.symm.trans hcall)
      exact ⟨qs, hfollows.holds⟩
    | tick n ops =>
      obtain ⟨u, evs, qs, htick, hu, -⟩ := hs.tick n ops
      obtain rfl : t = u := Option.some.inj (hstep.symm.trans htick)
      exact ⟨qs, hu⟩

/-- **The timer set fires exactly what is due.**  With a clock that does not go back, after any
insertions, cancellations and ticks, also from inside callbacks: the list is linked in both
directions, without duplicates, in the order of the expiries and of the insertions among equal ones;
every call returns; a tick calls the callback of each handle that is due at its reading of the clock
and that no callback of the same tick cancelled or inserted before, once and in the order of the
list; and whatever expires was inserted after it was last cancelled.  SRC: timerset.c:25-85 -/
theorem tick_fires_due (h : Reach (timerset fns) (fun _ _ => True) s) :
    (∃ ps, IsTimers s.timerset ps ∧ ps.Pairwise (Before s) ∧
      ∀ n ops, ∃ t evs, s.tick n ops = some t ∧ t.log = s.log ++ evs ∧
        Fires (fun h => (s.timerset.hndls h).fn) (due (mbClockMs (s.later n)) s ps) evs) ∧
      (∀ o, ∃ t, s.call o = some t) ∧
      ∀ pre h called post, s.log = pre ++ .expired h called :: post →
        lastEvent h pre = some (.inserted h) := by
  obtain ⟨ps, hs⟩ := holds_of_reach h
  refine ⟨⟨ps, hs.list, hs.sorted, fun n ops => ?_⟩, fun o => ?_, hs.fired⟩
  · obtain ⟨t, evs, -, htick, -, hlog, hfires⟩ := hs.tick n ops
    exact ⟨t, evs, htick, hlog, hfires⟩
  · obtain ⟨t, -, hcall, -⟩ := hs.call (Nat.zero_le _) o
    exact ⟨t, hcall⟩

end Runs

/-- INTERNAL: two handles that expire at the same time. -/
def twoTimers : List (TimerCall Bool) :=
  [.op (.insert false ⟨5, by decide⟩ 0), .op (.insert true ⟨5, by decide⟩ 700)]

/-- The first of them expires, and its callback cancels the second. -/
theorem tick_fires_due_twoTimers :
    ∃ s ps t evs, Reach (timerset fun _ : Bool => true) (fun _ _ => True) s ∧
      IsTimers s.timerset ps ∧ s.tick 4300 (fun _ => [.cancel true]) = some t ∧
      t.log = s.log ++ evs ∧ callbacks evs = [false] ∧
      firstEvent true evs = some (.cancelled true) ∧
      Fires (fun h => (s.timerset.hndls h).fn) (due (mbClockMs (s.later 4300)) s ps) evs := by
  have hrun : ((timerset fun _ => true).run (timerset fun _ => true).init twoTimers).map
      (fun s => (s.log, (s.tick 4300 fun _ => [.cancel true]).map fun t => t.log)) =
      some ([.inserted false, .inserted true],
        some [.inserted false, .inserted true, .expired false true, .cancelled true]) := by
    decide +kernel
  obtain ⟨s, hs, heq⟩ := Option.map_eq_some_iff.mp hrun
  obtain ⟨hbegin, hend⟩ := Prod.mk.inj heq
  have hreach := Reach.of_run_init hs
  obtain ⟨⟨ps, hlist, -, htick⟩, -⟩ := tick_fires_due hreach
  obtain ⟨t, evs, ht, hlog, hfires⟩ := htick 4300 fun _ => [.cancel true]
  have hevs : evs = [.expired false true, .cancelled true] := by
    rw [ht, Option.map_some, hlog, hbegin] at hend
    simpa using hend
  subst hevs
  exact ⟨s, ps, t, _, hreach, hlist, ht, hlog, rfl, rfl, hfires⟩

end MsgBroker.Analysis.Timerset
