import MsgBroker.Model.Evloop

/-!
# One poll for each registration

Between the calls of its owner, the event loop should have exactly one poll in flight for each
active entry, armed with what the entry says now.
-/

set_option autoImplicit false

namespace MsgBroker.Analysis.Evloop

open Lib Model Model.Evloop
open Function (update_of_ne)

variable {C : Type}

/-- The polls in flight for an entry. -/
def pollsOf (s : Evloop C) (i : Fin evloopMaxEvents) : List UringPoll :=
  s.polls.filter fun p => p.slot = i

/-- **The loop watches its entries**: every active entry has one poll in flight, which is armed with
its descriptor and its events, and callbacks were only called for completions of polls that their
own registration had armed. -/
structure Watched (s : Evloop C) : Prop where
  one : ∀ i, (s.entries i).active = true → ∃ p, pollsOf s i = [p] ∧
    p.fd = (s.entries i).fd ∧ p.mask = uringMask (s.entries i).events
  own : ∀ c ∈ s.invoked, c.1.reg = c.2

/-- The calls that keep the loop watching its entries while the callback for the entry `called` is
running, or between the calls of the owner if there is none: `mb_evloop_add` does not take that
entry, and `mb_evloop_modify` neither finds that entry nor changes the mask of the one it finds. -/
def CallKeeps (s : Evloop C) (called : Option (Fin evloopMaxEvents)) : EvOp C → Prop
  | .add fd _ _ => s.findEntry fd = none → ∀ i, s.allocEntry = some i → called ≠ some i
  | .modify fd events _ => ∀ i, s.findEntry fd = some i →
    called ≠ some i ∧ uringMask events = uringMask (s.entries i).events
  | .remove _ => True

/-- All calls of the callback are so, each in the state in which it is made. -/
def CallsKeep (called : Option (Fin evloopMaxEvents)) : Evloop C → List (EvOp C) → Prop
  | _, [] => True
  | s, o :: ops => CallKeeps s called o ∧ CallsKeep called (s.call o) ops

/-- The state in which the callback for the `k`-th poll starts.  SRC: evloop.c:288-303 -/
def calledAt (s : Evloop C) (k : ℕ) (p : UringPoll) : Evloop C :=
  { s.complete k p with invoked := s.invoked ++ [(p, s.reg p.slot)] }

/-- The calls of the owner that keep the loop watching its entries: no poll of an active entry
completes with an error, and the calls of a callback are as they should. -/
def Keeps (s : Evloop C) : EvCall C → Prop
  | .op o => CallKeeps s none o
  | .poll k res ops => ∀ p, s.polls[k]? = some p →
    if res.slt 0 then (s.entries p.slot).active = false
    else evFlags res ≠ 0 ∧ (s.entries p.slot).active = true ∧ (s.entries p.slot).cb.isSome = true →
      CallsKeep (some p.slot) (calledAt s k p) ops

instance (s : Evloop C) (called : Option (Fin evloopMaxEvents)) :
    (o : EvOp C) → Decidable (CallKeeps s called o)
  | .add fd _ _ => inferInstanceAs (Decidable
      (s.findEntry fd = none → ∀ i, s.allocEntry = some i → called ≠ some i))
  | .modify fd events _ => inferInstanceAs (Decidable (∀ i, s.findEntry fd = some i →
      called ≠ some i ∧ uringMask events = uringMask (s.entries i).events))
  | .remove _ => .isTrue trivial

instance decidableCallsKeep (called : Option (Fin evloopMaxEvents)) :
    (s : Evloop C) → (ops : List (EvOp C)) → Decidable (CallsKeep called s ops)
  | _, [] => .isTrue trivial
  | s, o :: ops =>
    have : Decidable (CallsKeep called (s.call o) ops) := decidableCallsKeep called _ ops
    inferInstanceAs (Decidable (CallKeeps s called o ∧ CallsKeep called (s.call o) ops))

instance (s : Evloop C) : (call : EvCall C) → Decidable (Keeps s call)
  | .op o => inferInstanceAs (Decidable (CallKeeps s none o))
  | .poll k res ops =>
    decidable_of_iff (∀ p ∈ s.polls[k]?, if res.slt 0 then (s.entries p.slot).active = false
      else evFlags res ≠ 0 ∧ (s.entries p.slot).active = true ∧
        (s.entries p.slot).cb.isSome = true →
          CallsKeep (some p.slot) (calledAt s k p) ops) Iff.rfl

/-! ## The flags of the entries and the polls in flight -/

/-- The flags of the entries agree with the polls in flight: an entry that is pending has one poll,
any other has none, the poll of an active entry is armed with what the entry says, and all active
entries but the one whose callback is running are pending. -/
structure Core (s : Evloop C) (called : Option (Fin evloopMaxEvents)) : Prop where
  pending : ∀ i, (s.entries i).pending = true → ∃ p, pollsOf s i = [p]
  quiet : ∀ i, (s.entries i).pending = false → pollsOf s i = []
  armed : ∀ p ∈ s.polls, (s.entries p.slot).active = true → p.reg = s.reg p.slot ∧
    p.fd = (s.entries p.slot).fd ∧ p.mask = uringMask (s.entries p.slot).events
  active : ∀ i, (s.entries i).active = true → ((s.entries i).pending = true ↔ called ≠ some i)
  own : ∀ c ∈ s.invoked, c.1.reg = c.2

/-- INTERNAL: a write to one entry, read at any entry. -/
theorem modifyEntry_entries (s : Evloop C) (i j : Fin evloopMaxEvents)
    (f : EvEntry C → EvEntry C) : (s.modifyEntry i f).entries j =
      if j = i then f (s.entries j) else s.entries j := by
  unfold modifyEntry
  by_cases hj : j = i
  · subst hj
    simp
  · simp [hj]

section Core

variable {s t : Evloop C} {called called' : Option (Fin evloopMaxEvents)}
  {i : Fin evloopMaxEvents} {p : UringPoll} {k : ℕ}

theorem mem_pollsOf : p ∈ pollsOf s i ↔ p ∈ s.polls ∧ p.slot = i := by
  simp [pollsOf]

/-- INTERNAL: an entry that is not pending has no poll in flight. -/
theorem Core.slot_ne (hs : Core s called) (hpending : (s.entries i).pending = false)
    (hp : p ∈ s.polls) : p.slot ≠ i := by
  intro hslot
  have hmem : p ∈ pollsOf s i := mem_pollsOf.mpr ⟨hp, hslot⟩
  rw [hs.quiet i hpending] at hmem
  cases hmem

/-- INTERNAL: **between the calls of the owner** the agreement is what the loop is for. -/
theorem Core.watched (hs : Core s none) : Watched s := by
  refine ⟨fun i hactive => ?_, hs.own⟩
  obtain ⟨p, hp⟩ := hs.pending i ((hs.active i hactive).mpr nofun)
  have hmem : p ∈ pollsOf s i := by rw [hp]; exact List.mem_singleton_self p
  obtain ⟨hpolls, rfl⟩ := mem_pollsOf.mp hmem
  exact ⟨p, hp, (hs.armed p hpolls hactive).2⟩

/-- INTERNAL: a change of an entry that keeps its flag and, if it stays active, what its poll is
armed with. -/
theorem Core.edit (hs : Core s called) {f : EvEntry C → EvEntry C}
    (hpending : (f (s.entries i)).pending = (s.entries i).pending)
    (hactive : (f (s.entries i)).active = true → (s.entries i).active = true ∧
      (f (s.entries i)).fd = (s.entries i).fd ∧
        uringMask (f (s.entries i)).events = uringMask (s.entries i).events) :
    Core (s.modifyEntry i f) called := by
  have hflag : ∀ j, ((s.modifyEntry i f).entries j).pending = (s.entries j).pending := by
    intro j
    rw [modifyEntry_entries]
    split_ifs with hj
    · rw [hj, hpending]
    · rfl
  have hkept : ∀ j, ((s.modifyEntry i f).entries j).active = true →
      (s.entries j).active = true ∧ ((s.modifyEntry i f).entries j).fd = (s.entries j).fd ∧
        uringMask ((s.modifyEntry i f).entries j).events = uringMask (s.entries j).events := by
    intro j hj
    rw [modifyEntry_entries] at hj ⊢
    split_ifs at hj ⊢ with hji
    · subst hji
      exact hactive hj
    · exact ⟨hj, rfl, rfl⟩
  refine ⟨fun j hj => hs.pending j (hflag j ▸ hj), fun j hj => hs.quiet j (hflag j ▸ hj),
    fun p hp hj => ?_, fun j hj => ?_, hs.own⟩
  · obtain ⟨hold, hfd, hmask⟩ := hkept p.slot hj
    rw [hfd, hmask]
    exact hs.armed p hp hold
  · rw [hflag]
    exact hs.active j (hkept j hj).1

/-- INTERNAL: **a poll is submitted** for an entry that had none.  SRC: evloop.c:164-180 -/
theorem Core.arm (hs : Core s called) (hquiet : (s.entries i).pending = false)
    (hother : ∀ j, j ≠ i → t.entries j = s.entries j ∧ t.reg j = s.reg j)
    (hpending : (t.entries i).pending = true) (hinvoked : t.invoked = s.invoked)
    (hpolls : t.polls =
      s.polls ++ [⟨i, (t.entries i).fd, uringMask (t.entries i).events, t.reg i⟩])
    (hcalled : ∀ j, called' = some j ↔ called = some j ∧ j ≠ i) : Core t called' := by
  have hpollsOf : ∀ j, j ≠ i → pollsOf t j = pollsOf s j := by
    intro j hj
    simp [pollsOf, hpolls, hj.symm]
  refine ⟨fun j hj => ?_, fun j hj => ?_, fun p hp hj => ?_, fun j hj => ?_, hinvoked ▸ hs.own⟩
  · by_cases hji : j = i
    · have hnone : s.polls.filter (fun p => p.slot = i) = [] := hs.quiet i hquiet
      rw [hji, pollsOf, hpolls, List.filter_append, hnone]
      simp
    · rw [(hother j hji).1] at hj
      rw [hpollsOf j hji]
      exact hs.pending j hj
  · have hji : j ≠ i := by
      rintro rfl
      cases hpending.symm.trans hj
    rw [(hother j hji).1] at hj
    rw [hpollsOf j hji]
    exact hs.quiet j hj
  · rw [hpolls, List.mem_append, List.mem_singleton] at hp
    rcases hp with hp | rfl
    · obtain ⟨hentry, hreg⟩ := hother p.slot (hs.slot_ne hquiet hp)
      rw [hentry] at hj ⊢
      rw [hreg]
      exact hs.armed p hp hj
    · exact ⟨rfl, rfl, rfl⟩
  · by_cases hji : j = i
    · subst hji
      refine iff_of_true hpending fun h => ?_
      exact ((hcalled j).mp h).2 rfl
    · rw [(hother j hji).1] at hj ⊢
      rw [hs.active j hj, ne_eq, ne_eq, hcalled, and_iff_left hji]

/-- INTERNAL: an element of a list, and the list without it. -/
theorem eraseIdx_split {α : Type} {l : List α} {a : α} (h : l[k]? = some a) :
    ∃ l₁ l₂, l = l₁ ++ a :: l₂ ∧ l.eraseIdx k = l₁ ++ l₂ := by
  obtain ⟨hk, rfl⟩ := List.getElem?_eq_some_iff.mp h
  refine ⟨l.take k, l.drop (k + 1), ?_, List.eraseIdx_eq_take_drop_succ l k⟩
  rw [← List.drop_eq_getElem_cons hk, List.take_append_drop]

/-- INTERNAL: **a poll completes** and is taken off the ring; its entry has no other.
SRC: evloop.c:288-300 -/
theorem Core.complete (hs : Core s none) (hp : s.polls[k]? = some p) :
    Core (s.complete k p) (some p.slot) := by
  obtain ⟨l₁, l₂, hsplit, herase⟩ := eraseIdx_split hp
  have hentry : ∀ j, (s.complete k p).entries j =
      if j = p.slot then { s.entries j with pending := false } else s.entries j := fun j =>
    modifyEntry_entries _ _ _ _
  have hother : ∀ j, j ≠ p.slot → pollsOf (s.complete k p) j = pollsOf s j := by
    intro j hj
    show (s.polls.eraseIdx k).filter _ = s.polls.filter _
    rw [herase, hsplit, List.filter_append, List.filter_append,
      List.filter_cons_of_neg (by simpa using hj.symm)]
  have hself : pollsOf (s.complete k p) p.slot = [] := by
    obtain ⟨q, hq⟩ : ∃ q, pollsOf s p.slot = [q] := by
      refine hs.pending _ (Bool.of_not_eq_false fun hpending => ?_)
      exact hs.slot_ne hpending (List.mem_of_getElem? hp) rfl
    have hlen := congrArg List.length hq
    show (s.polls.eraseIdx k).filter _ = []
    rw [pollsOf, hsplit, List.filter_append, List.filter_cons_of_pos (by simp)] at hlen
    rw [herase, List.filter_append, ← List.length_eq_zero_iff]
    simp only [List.length_append, List.length_cons, List.length_nil] at hlen ⊢
    omega
  refine ⟨fun j hj => ?_, fun j hj => ?_, fun q hq hj => ?_, fun j hj => ?_, hs.own⟩
  · rw [hentry] at hj
    split_ifs at hj with hji
    rw [hother j hji]
    exact hs.pending j hj
  · by_cases hji : j = p.slot
    · rw [hji, hself]
    · rw [hentry, if_neg hji] at hj
      rw [hother j hji]
      exact hs.quiet j hj
  · have hold := hs.armed q (List.mem_of_mem_eraseIdx hq)
    rw [hentry] at hj ⊢
    split_ifs at hj ⊢ <;> exact hold hj
  · rw [hentry] at hj ⊢
    split_ifs at hj ⊢ with hji
    · exact iff_of_false nofun fun h => h (congrArg some hji.symm)
    · refine (hs.active j hj).trans (iff_of_true nofun fun h => ?_)
      exact hji (Option.some.inj h).symm

/-- INTERNAL: once the entry is no longer active, its callback does not matter. -/
theorem Core.close (hs : Core s (some i)) (hinactive : ¬ (s.entries i).active = true) :
    Core s none := by
  refine { hs with active := fun j hj => (hs.active j hj).trans (iff_of_true ?_ nofun) }
  rintro ⟨⟩
  exact hinactive hj

/-- INTERNAL: a callback is called for a poll of its own registration. -/
theorem Core.invoke (hs : Core s called) (hreg : p.reg = s.reg p.slot) :
    Core { s with invoked := s.invoked ++ [(p, s.reg p.slot)] } called := by
  refine { hs with own := fun c hc => ?_ }
  rcases List.mem_append.mp hc with hc | hc
  · exact hs.own c hc
  · rw [List.mem_singleton] at hc
    rw [hc]
    exact hreg

end Core

/-! ## The calls -/

section Calls

variable {s : Evloop C} {called : Option (Fin evloopMaxEvents)}

/-- INTERNAL: **`mb_evloop_add`** arms a poll for the entry it takes.  SRC: evloop.c:197-222 -/
theorem Core.add (hs : Core s called) {fd : ℤ} {events : BitVec 32} {cb : Option C}
    (hkeeps : CallKeeps s called (.add fd events cb)) : Core (s.add fd events cb).2 called := by
  unfold Evloop.add
  cases hfind : s.findEntry fd with
  | some j => exact hs
  | none =>
    cases halloc : s.allocEntry with
    | none => exact hs
    | some i =>
      have hfree : (s.entries i).active = false ∧ (s.entries i).pending = false := by
        simpa using List.find?_some halloc
      refine hs.arm (i := i) hfree.2 (fun j hj => ⟨?_, update_of_ne hj _ _⟩) ?_ rfl ?_ fun j => ?_
      · exact (update_of_ne hj _ _).trans (update_of_ne hj _ _)
      · simp [submitUringPoll, modifyEntry]
      · simp [submitUringPoll, modifyEntry]
      · refine (and_iff_left_of_imp fun hj => ?_).symm
        rintro rfl
        exact hkeeps hfind j halloc hj

/-- INTERNAL: **`mb_evloop_modify`** finds an entry whose poll is armed for its new events already.
SRC: evloop.c:229-244 -/
theorem Core.modify (hs : Core s called) {fd : ℤ} {events : BitVec 32} {cb : Option C}
    (hkeeps : CallKeeps s called (.modify fd events cb)) :
    Core (s.modify fd events cb).2 called := by
  unfold Evloop.modify
  cases hfind : s.findEntry fd with
  | none => exact hs
  | some i =>
    have hfound : (s.entries i).active = true ∧ (s.entries i).fd = fd := by
      simpa using List.find?_some hfind
    obtain ⟨hcalled, hmask⟩ := hkeeps i hfind
    have hpending : ((s.modifyEntry i ({ · with events := events, cb := cb })).entries i).pending =
        true := by
      rw [modifyEntry_entries, if_pos rfl]
      exact (hs.active i hfound.1).mpr hcalled
    dsimp only
    rw [if_pos hpending]
    dsimp only
    refine hs.edit ?_ fun hactive => ?_
    · rfl
    · exact ⟨hactive, rfl, hmask⟩

/-- INTERNAL: **one call** of the callback, or of the owner. -/
theorem Core.call (hs : Core s called) {o : EvOp C} (hkeeps : CallKeeps s called o) :
    Core (s.call o) called := by
  cases o with
  | add fd events cb => exact hs.add hkeeps
  | modify fd events cb => exact hs.modify hkeeps
  | remove fd =>
    rw [Evloop.call, Evloop.remove]
    cases s.findEntry fd with
    | none => exact hs
    | some i =>
      dsimp only
      refine hs.edit ?_ fun hactive => ?_
      · rfl
      · cases hactive

/-- INTERNAL: **all calls of a callback**. -/
theorem Core.calls (hs : Core s called) {ops : List (EvOp C)} (hkeep : CallsKeep called s ops) :
    Core (ops.foldl Evloop.call s) called := by
  induction ops generalizing s with
  | nil => exact hs
  | cons o ops ih => exact ih (hs.call hkeep.1) hkeep.2

/-- INTERNAL: **the entry is watched again** after its callback.  SRC: evloop.c:305-307 -/
theorem Core.rearm {i : Fin evloopMaxEvents} (hs : Core s (some i)) : Core (s.rearm i) none := by
  unfold Evloop.rearm
  split_ifs with hactive
  · have hquiet : (s.entries i).pending = false :=
      Bool.eq_false_iff.mpr fun h => (hs.active i hactive).mp h rfl
    refine hs.arm (i := i) hquiet (fun j hj => ⟨update_of_ne hj _ _, rfl⟩) ?_ rfl ?_ fun j => ?_
    · simp [submitUringPoll, modifyEntry]
    · simp [submitUringPoll, modifyEntry]
    · exact iff_of_false nofun fun h => h.2 (Option.some.inj h.1).symm
  · exact hs.close hactive

/-- INTERNAL: **`mb_evloop_poll`**.  SRC: evloop.c:267-310 -/
theorem Core.poll (hs : Core s none) {k : ℕ} {res : BitVec 32} {ops : List (EvOp C)}
    (hkeeps : Keeps s (.poll k res ops)) : Core (s.poll k res ops).2 none := by
  unfold Evloop.poll
  cases hp : s.polls[k]? with
  | none => exact hs
  | some p =>
    have hentry : (s.complete k p).entries p.slot = { s.entries p.slot with pending := false } :=
      (modifyEntry_entries _ _ _ _).trans (if_pos rfl)
    have hdone := hs.complete hp
    have hcall := hkeeps p hp
    dsimp only
    split_ifs at hcall ⊢
    · exact hdone.close (by rw [hentry, hcall]; nofun)
    · refine Core.rearm ?_
      unfold Evloop.dispatch
      dsimp only
      rw [hentry]
      split_ifs with hcalled
      · have hreg := (hs.armed p (List.mem_of_getElem? hp) hcalled.2.1).1
        exact (hdone.invoke hreg).calls (hcall hcalled)
      · exact hdone

end Calls

/-- **When the event loop keeps one correct poll for each registration.**  In every run of calls of
the owner and of its callbacks, with any completions, in which each call is one that keeps it so,
the loop watches its entries after every call of the owner: no `mb_evloop_modify` changes the mask
of an entry, no poll of an active entry completes with an error, and a callback neither modifies its
own descriptor nor has an `mb_evloop_add` take its entry.  SRC: evloop.c:164-310 -/
theorem polls_watched {s : Evloop C} (h : Reach (evloop C) Keeps s) : Watched s := by
  refine (h.invariant (Core · none) ?_ fun s call t hs hkeeps hstep => ?_).watched
  · exact ⟨nofun, fun _ _ => rfl, nofun, nofun, nofun⟩
  · cases call with
    | op o =>
      cases hstep
      exact hs.call hkeeps
    | poll k res ops =>
      cases hstep
      exact hs.poll hkeeps

/-- INTERNAL: the first entry. -/
def firstSlot : Fin evloopMaxEvents := ⟨0, Nat.zero_lt_succ 63⟩

/-- INTERNAL: a callback adds a second descriptor, and the first one is removed before its poll
completes. -/
def addingRun : List (EvCall Unit) :=
  [.op (.add 5 evloopIn (some ())), .poll 0 pollIn [.add 6 evloopOut (some ())],
    .op (.remove 5), .poll 1 pollIn []]

/-- The second descriptor is watched then, by the only poll that is in flight. -/
theorem polls_watched_adding : ∃ s, (evloop Unit).run (evloop Unit).init addingRun = some s ∧
    s.polls.map UringPoll.fd = [6] ∧ Watched s := by
  have hrun : ((evloop Unit).run (evloop Unit).init addingRun).map
      (fun s => s.polls.map UringPoll.fd) = some [6] := by decide +kernel
  obtain ⟨s, hs, hpolls⟩ := Option.map_eq_some_iff.mp hrun
  exact ⟨s, hs, hpolls, polls_watched (Reach.of_run Reach.init (by decide +kernel) hs)⟩

/-- INTERNAL: a descriptor that is added for reading and then modified for writing. -/
def readThenWrite : List (EvCall Unit) :=
  [.op (.add 5 evloopIn (some ())), .op (.modify 5 evloopOut (some ()))]

/-- The only poll in flight is still armed for reading. -/
theorem modify_leaves_old_poll :
    ∃ s, (evloop Unit).run (evloop Unit).init readThenWrite = some s ∧
      (s.entries firstSlot).active = true ∧ uringMask (s.entries firstSlot).events = pollOut ∧
      pollsOf s firstSlot = [⟨firstSlot, 5, pollIn, 0⟩] ∧ ¬ Watched s := by
  have hrun : ((evloop Unit).run (evloop Unit).init readThenWrite).map
      (fun s => ((s.entries firstSlot).active, uringMask (s.entries firstSlot).events,
        pollsOf s firstSlot)) = some (true, pollOut, [⟨firstSlot, 5, pollIn, 0⟩]) := by
    decide +kernel
  obtain ⟨s, hs, heq⟩ := Option.map_eq_some_iff.mp hrun
  simp only [Prod.mk.injEq] at heq
  obtain ⟨hactive, hmask, hpolls⟩ := heq
  refine ⟨s, hs, hactive, hmask, hpolls, fun hw => ?_⟩
  obtain ⟨p, hp, -, harmed⟩ := hw.one firstSlot hactive
  cases hpolls.symm.trans hp
  rw [hmask] at harmed
  exact absurd harmed (by decide)

-- A callback that modifies its own descriptor: two polls are in flight afterwards.
example : ((evloop Unit).run (evloop Unit).init
    [.op (.add 5 evloopIn (some ())), .poll 0 pollIn [.modify 5 evloopOut (some ())]]).map
      (fun s => (pollsOf s firstSlot).map UringPoll.mask) = some [pollOut, pollOut] := by
  decide +kernel

end MsgBroker.Analysis.Evloop
