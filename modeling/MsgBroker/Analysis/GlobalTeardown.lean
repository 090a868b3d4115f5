import MsgBroker.Analysis.GlobalRuns

/-!
# Global teardown against socket teardown

`mb_close` takes its socket out of the table and lowers `nsocks` before it stops the socket, without
the lock.
-/

set_option autoImplicit false

namespace MsgBroker.Analysis.GlobalTeardown

open Lib Model Model.Global Model.GlobalThreads
open Analysis.GlobalTable Analysis.GlobalRuns
open Function (update update_of_ne update_self)

variable {T : Type}

/-- The last socket is closed only when no other `mb_close` is in progress, and while no socket
is in the table and one is being stopped, no `mb_socket` is called that will fail. -/
def Alone (s : Threads T Global ClosePc) : T × GlobalAct → Prop
  | (t, .close d) => s.shared.isOpen d = true → s.shared.nsocks = 1 →
      ∀ u, u ≠ t → s.pc u = .idle
  | (_, .socket a) => s.shared.nsocks = 0 → (∃ u, s.pc u = .stopping) → Accepted a
  | (_, .run) => True

instance [Fintype T] [DecidableEq T] (s : Threads T Global ClosePc) :
    (l : T × GlobalAct) → Decidable (Alone s l)
  | (t, .close d) => inferInstanceAs (Decidable
      (s.shared.isOpen d = true → s.shared.nsocks = 1 → ∀ u, u ≠ t → s.pc u = .idle))
  | (_, .socket a) => inferInstanceAs (Decidable
      (s.shared.nsocks = 0 → (∃ u, s.pc u = .stopping) → Accepted a))
  | (_, .run) => inferInstanceAs (Decidable True)

/-- What holds between the locked regions of a run in that order. -/
structure Inv (s : Threads T Global ClosePc) : Prop where
  ok : Ok s.shared
  single : s.shared.nsocks = 0 → ∀ t u, t ≠ u → s.pc t ≠ .idle → s.pc u = .idle

/-! ## The regions -/

theorem unpublish_facts {g g' : Global} {d : ℤ} {sock : Sock}
    (h : unpublish d g = some (.ok sock, g')) :
    g.isOpen d = true ∧ g.nsocks = g'.nsocks + 1 ∧ g'.teardowns = g.teardowns := by
  obtain ⟨e, k, t, he, ht, hsock, hpos, -, rfl⟩ := unpublish_ok h
  refine ⟨by simp [isOpen, he, lookup, ht, hsock], ?_, rfl⟩
  show g.nsocks = g.nsocks - 1 + 1
  omega

theorem teardowns_init (b : Bool) (g : Global) : (Global.init b g).teardowns = g.teardowns := by
  unfold Global.init
  split
  · rfl
  · split <;> rfl

theorem nsocks_of_teardown {g : Global} (h : g.teardowns < (Global.term g).teardowns) :
    g.nsocks = 0 := by
  by_contra hne
  rw [term_eq_self (Nat.pos_of_ne_zero hne)] at h
  exact Nat.lt_irrefl _ h

theorem mbSocket_nsocks {g g' : Global} {a : SocketArgs} {r : Except Errno (Fin maxSockets)}
    (hg : Ok g) (h : mbSocket a g = some (r, g')) : Ok g' ∧ g.nsocks ≤ g'.nsocks := by
  cases r with
  | ok d =>
    obtain ⟨hset, -, -, -, hn⟩ := mbSocket_ok hg h
    exact ⟨hset.toOk, by omega⟩
  | error e =>
    rcases mbSocket_error hg h with ⟨-, -, rfl⟩ | ⟨-, -, -, rfl⟩
    · exact ⟨hg.inited, Nat.le_refl _⟩
    · refine ⟨(hg.inited.init _).term.toOk, ?_⟩
      rw [nsocks_term, nsocks_init hg.inited]

theorem mbSocket_teardown {g g' : Global} {a : SocketArgs} {r : Except Errno (Fin maxSockets)}
    (hg : Ok g) (h : mbSocket a g = some (r, g')) (hterm : g.teardowns < g'.teardowns) :
    g.nsocks = 0 ∧ ¬ Accepted a := by
  cases r with
  | ok d =>
    exfalso
    unfold mbSocket at h
    dsimp only at h
    split at h
    · cases h
    obtain ⟨⟨res, u⟩, hcreate, hafter⟩ := Option.map_eq_some_iff.mp h
    cases res with
    | error e => cases hafter
    | ok d' =>
      cases hafter
      obtain ⟨t, k, sock, -, -, -, rfl⟩ := createSocket_ok hcreate
      dsimp only at hterm
      rw [teardowns_init] at hterm
      exact Nat.lt_irrefl _ hterm
  | error e =>
    rcases mbSocket_error hg h with ⟨-, -, rfl⟩ | ⟨-, -, hrej, rfl⟩
    · exact absurd hterm (Nat.lt_irrefl _)
    · have h0 : g.nsocks = 0 := by
        rw [← nsocks_init hg.inited a.tableAlloc]
        apply nsocks_of_teardown
        rw [teardowns_init]
        exact hterm
      exact ⟨h0, fun hacc => hrej ⟨hacc, by rw [h0]; decide⟩⟩

/-- What a thread can do: a region of `mb_socket`, or one of `mb_close`. -/
inductive Moves (a : GlobalAct) (c : ClosePc) (g : Global) : ClosePc → Global → Prop where
  | socket {args r g'} : a = .socket args → c = .idle → mbSocket args g = some (r, g') →
      Moves a c g .idle g'
  | refused {d} : a = .close d → c = .idle → Moves a c g .idle g
  | unpublish {d sock g'} : a = .close d → c = .idle → unpublish d g = some (.ok sock, g') →
      Moves a c g .stopping g'
  | stopped : a = .run → c = .stopping → Moves a c g .finishing g
  | finish : a = .run → c = .finishing → Moves a c g .idle (Global.term g)

theorem moves_of_program {t : T} {a : GlobalAct} {c c' : ClosePc} {g g' : Global}
    (h : program t a c g = some (c', g')) : Moves a c g c' g' := by
  unfold program at h
  split at h
  · next args g =>
    obtain ⟨⟨r, u⟩, hcall, he⟩ := Option.map_eq_some_iff.mp h
    cases he
    exact .socket rfl rfl hcall
  · next d g =>
    obtain ⟨⟨r, u⟩, hcall, he⟩ := Option.map_eq_some_iff.mp h
    cases r with
    | error e =>
      cases he
      obtain rfl := unpublish_error hcall
      exact .refused rfl rfl
    | ok sock =>
      cases he
      exact .unpublish rfl rfl hcall
  · cases h
    exact .stopped rfl rfl
  · cases h
    exact .finish rfl rfl
  · cases h

/-! ## Runs -/

section Runs

variable [DecidableEq T]

theorem inv_start : Inv (system (T := T)).init := ⟨ok_start, fun _ _ _ _ h => absurd rfl h⟩

theorem single_update {f : T → ClosePc} {t : T} {c : ClosePc} (hc : c ≠ .idle → f t ≠ .idle)
    (h : ∀ v u, v ≠ u → f v ≠ .idle → f u = .idle) :
    ∀ v u, v ≠ u → update f t c v ≠ .idle → update f t c u = .idle := by
  intro v u hvu hv
  by_cases hut : u = t
  · subst hut
    rw [update_of_ne hvu] at hv
    rw [update_self]
    by_contra hne
    exact hc hne (h v u hvu hv)
  · rw [update_of_ne hut]
    by_cases hvt : v = t
    · subst hvt
      rw [update_self] at hv
      exact h v u hvu (hc hv)
    · rw [update_of_ne hvt] at hv
      exact h v u hvu hv

theorem single_of_others_idle {f : T → ClosePc} {t : T} {c : ClosePc}
    (h : ∀ u, u ≠ t → f u = .idle) :
    ∀ v u, v ≠ u → update f t c v ≠ .idle → update f t c u = .idle := by
  intro v u hvu hv
  by_cases hut : u = t
  · subst hut
    rw [update_of_ne hvu] at hv
    exact absurd (h v hvu) hv
  · rw [update_of_ne hut]
    exact h u hut

theorem Inv.step {s s' : Threads T Global ClosePc} {l : T × GlobalAct} (hs : Inv s)
    (hok : Alone s l) (hstep : system.step s l = some s') : Inv s' := by
  obtain ⟨c, g, hprog, rfl⟩ := interleave_step hstep
  obtain ⟨t, a⟩ := l
  cases moves_of_program hprog with
  | socket ha hc hcall =>
    obtain ⟨hg, hle⟩ := mbSocket_nsocks hs.ok hcall
    refine ⟨hg, fun h0 => single_update (fun h => absurd rfl h) (hs.single ?_)⟩
    dsimp only at h0
    omega
  | refused ha hc => exact ⟨hs.ok, fun h0 => single_update (fun h => absurd rfl h) (hs.single h0)⟩
  | unpublish ha hc hcall =>
    refine ⟨hs.ok.unpublish hcall, fun h0 => ?_⟩
    subst ha
    obtain ⟨hopen, hn, -⟩ := unpublish_facts hcall
    -- the socket was the last one, so no other thread is in `mb_close`
    dsimp only at h0
    exact single_of_others_idle (hok hopen (by omega))
  | stopped ha hc =>
    exact ⟨hs.ok, fun h0 => single_update (fun _ => by simp [hc]) (hs.single h0)⟩
  | finish ha hc =>
    refine ⟨hs.ok.term.toOk, fun h0 => single_update (fun _ => by simp [hc]) (hs.single ?_)⟩
    rwa [nsocks_term] at h0

theorem inv_of_reach {s : Threads T Global ClosePc} (h : Reach system Alone s) : Inv s :=
  h.invariant Inv inv_start fun _ _ _ hs hok hstep => hs.step hok hstep

/-- **Global teardown excludes socket teardown, in the right order of calls.**  In every run
whose steps meet `Alone`, whenever a step ends the pool and the transports and frees the
table, no other thread is between the point where its `mb_close` took a socket out of the
table and the point where that socket is stopped and gone.
SRC: global.c:163-182, 261-295, 297-344 -/
theorem teardown_excludes_stopping {s s' : Threads T Global ClosePc} {l : T × GlobalAct}
    (hs : Reach system Alone s) (hok : Alone s l) (hstep : system.step s l = some s')
    (hterm : s.shared.teardowns < s'.shared.teardowns) (u : T) (hu : u ≠ l.1) :
    s.pc u ≠ .stopping := by
  have hinv := inv_of_reach hs
  obtain ⟨c, g, hprog, rfl⟩ := interleave_step hstep
  obtain ⟨t, a⟩ := l
  dsimp only at hterm hu
  intro hstop
  cases moves_of_program hprog with
  | socket ha hc hcall =>
    subst ha
    obtain ⟨h0, hrej⟩ := mbSocket_teardown hinv.ok hcall hterm
    exact hrej (hok h0 ⟨u, hstop⟩)
  | refused ha hc => exact Nat.lt_irrefl _ hterm
  | unpublish ha hc hcall =>
    obtain ⟨-, -, hsame⟩ := unpublish_facts hcall
    omega
  | stopped ha hc => exact Nat.lt_irrefl _ hterm
  | finish ha hc =>
    have hidle := hinv.single (nsocks_of_teardown hterm) t u (Ne.symm hu) (by simp [hc])
    rw [hidle] at hstop
    cases hstop

end Runs

/-- A call for a `PAIR` socket that finds all the memory it asks for. -/
def openPair : GlobalAct := .socket ⟨AF_MB, 16, true, true, true⟩

/-- The steps of two threads that close a socket each at the same time, while a third one is in the
table; then the second thread closes that one too. -/
def twoCloses {T : Type} (a b : T) : List (T × GlobalAct) :=
  [(a, openPair), (a, openPair), (a, openPair), (a, .close 0), (b, .close 1), (a, .run), (b, .run),
    (a, .run), (b, .run), (b, .close 2), (b, .run)]

/-- After two closes at the same time and one alone, the last step tears everything down. -/
theorem teardown_excludes_stopping_two :
    ∃ s s' : Threads (Fin 2) Global ClosePc,
      system.run system.init (twoCloses 0 1) = some s ∧ system.step s (1, .run) = some s' ∧
      s.shared.teardowns < s'.shared.teardowns ∧ s.pc 0 ≠ .stopping := by
  refine ⟨_, _, rfl, rfl, by decide, ?_⟩
  have hrun : system.run (system (T := Fin 2)).init (twoCloses 0 1) = some _ := rfl
  exact teardown_excludes_stopping (Reach.of_run Reach.init (by decide) hrun) trivial
    (l := (1, .run)) rfl (by decide) 0 (by decide)

/-- Two sockets closed by two threads: the second thread tears everything down while the first
is still stopping its socket. -/
theorem teardown_during_stopping :
    ∃ s s' : Threads (Fin 2) Global ClosePc,
      Reach system (fun _ _ => True) s ∧ system.step s (1, .run) = some s' ∧
      s.shared.teardowns < s'.shared.teardowns ∧ s.pc 0 = .stopping := by
  have hrun : system.run (system (T := Fin 2)).init
      [(0, openPair), (0, openPair), (0, .close 0), (1, .close 1), (1, .run)] = some _ := rfl
  exact ⟨_, _, Reach.of_run_init hrun,
    rfl, by decide, rfl⟩

end MsgBroker.Analysis.GlobalTeardown
