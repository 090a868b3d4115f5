import MsgBroker.Model.Coroutine

/-!
# When the current coroutine is the one that executes

In a well-nested run the coroutines that have been entered and not left form a stack: the innermost
one executes, and each one's caller is the next (`Nested`).
-/

set_option autoImplicit false

namespace MsgBroker.Analysis.CoroutineCurrent

open Lib Model

variable {C : Type}

/-! ## The stack of the coroutines that have been entered -/

/-- Each of the coroutines is running, and the next one called it. -/
def Callers (coros : C → Option (Coro C)) : List C → Prop
  | [] => True
  | c :: rest =>
    (∃ r, coros c = some r ∧ r.state = .running ∧ r.callerUctx = rest.head?) ∧ Callers coros rest

/-- The coroutines that have been entered and not left, the innermost one first. -/
structure Nested (s : Coros C) (stack : List C) : Prop where
  executing : s.executing = stack.head?
  nodup : stack.Nodup
  callers : Callers s.coros stack
  running : ∀ c r, s.coros c = some r → r.state = .running → c ∈ stack
  yielded : ∀ c r, s.coros c = some r → r.state = .yielded → r.uctx = some c

/-- What the global pointer names, depending on the last change of contexts. -/
structure Tracks (s : Coros C × Option CoroSwitch) (stack : List C) : Prop where
  enter : s.2 ≠ some .leave → s.1.current = stack.head?
  leave : s.2 = some .leave → ∃ c, s.1.current = some c ∧ c ∉ stack

variable {coros : C → Option (Coro C)}

theorem Callers.congr {coros' : C → Option (Coro C)} {stack : List C}
    (h : Callers coros stack) (hsame : ∀ c ∈ stack, coros' c = coros c) :
    Callers coros' stack := by
  induction stack with
  | nil => trivial
  | cons c rest ih =>
    obtain ⟨⟨r, hc, hr⟩, hrest⟩ := h
    refine ⟨⟨r, (hsame c List.mem_cons_self).trans hc, hr⟩, ih hrest fun d hd => ?_⟩
    exact hsame d (List.mem_cons_of_mem c hd)

theorem Callers.mem {stack : List C} (h : Callers coros stack) {c : C}
    (hc : c ∈ stack) : ∃ r, coros c = some r ∧ r.state = .running := by
  induction stack with
  | nil => cases hc
  | cons d rest ih =>
    rcases List.mem_cons.mp hc with rfl | hc
    · obtain ⟨r, hr, hstate, -⟩ := h.1
      exact ⟨r, hr, hstate⟩
    · exact ih h.2 hc

variable {s : Coros C} {stack rest : List C} {c : C} {r : Coro C}

theorem Nested.notMem (h : Nested s stack) (hc : ∀ r, s.coros c = some r → r.state ≠ .running) :
    c ∉ stack := by
  intro hmem
  obtain ⟨r, hr, hstate⟩ := h.callers.mem hmem
  exact hc r hr hstate

theorem Tracks.innermost_left {last : Option CoroSwitch} (h : Tracks (s, last) (c :: rest))
    (hnodup : (c :: rest).Nodup) : ∃ d, s.current = some d ∧ d ∉ rest := by
  by_cases hlast : last = some .leave
  · obtain ⟨d, hd, hnotMem⟩ := h.leave hlast
    exact ⟨d, hd, fun hmem => hnotMem (List.mem_cons_of_mem c hmem)⟩
  · exact ⟨c, h.enter hlast, (List.nodup_cons.mp hnodup).1⟩

theorem Tracks.same {last : Option CoroSwitch} {t : Coros C} (h : Tracks (s, last) stack)
    (hcurrent : t.current = s.current) : Tracks (t, (none : Option CoroSwitch).or last) stack :=
  ⟨fun hlast => hcurrent.trans (h.enter hlast), fun hlast => hcurrent ▸ h.leave hlast⟩

variable [DecidableEq C]

theorem Callers.update (h : Callers coros stack) (hc : c ∉ stack)
    (new : Option (Coro C)) : Callers (Function.update coros c new) stack := by
  refine h.congr fun d hd => ?_
  have hne : d ≠ c := by
    rintro rfl
    exact hc hd
  exact Function.update_of_ne hne new coros

theorem update_eq_some {new : Option (Coro C)} {d : C}
    (h : Function.update coros c new d = some r) : d = c ∧ new = some r ∨ coros d = some r := by
  by_cases hd : d = c
  · subst hd
    rw [Function.update_self] at h
    exact Or.inl ⟨rfl, h⟩
  · rw [Function.update_of_ne hd] at h
    exact Or.inr h

theorem Nested.update (h : Nested s stack) (hc : c ∉ stack) {new : Option (Coro C)}
    (hnew : ∀ r, new = some r → r.state = .ready) :
    Nested { s with coros := Function.update s.coros c new } stack where
  executing := h.executing
  nodup := h.nodup
  callers := h.callers.update hc new
  running := by
    intro d r' hd hstate
    rcases update_eq_some hd with ⟨-, hself⟩ | hold
    · cases hstate.symm.trans (hnew r' hself)
    · exact h.running d r' hold hstate
  yielded := by
    intro d r' hd hstate
    rcases update_eq_some hd with ⟨-, hself⟩ | hold
    · cases hstate.symm.trans (hnew r' hself)
    · exact h.yielded d r' hold hstate

theorem Nested.enter (h : Nested s stack) (hc : c ∉ stack) (hctx : r.uctx = some c) :
    Nested (s.enter c r).2 (c :: stack) where
  executing := hctx
  nodup := List.nodup_cons.mpr ⟨hc, h.nodup⟩
  callers := ⟨⟨_, Function.update_self c _ s.coros, rfl, h.executing⟩, h.callers.update hc _⟩
  running := by
    intro d r' hd hstate
    rcases update_eq_some hd with ⟨rfl, -⟩ | hold
    · exact List.mem_cons_self
    · exact List.mem_cons_of_mem c (h.running d r' hold hstate)
  yielded := by
    intro d r' hd hstate
    rcases update_eq_some hd with ⟨-, hself⟩ | hold
    · cases hself
      cases hstate
    · exact h.yielded d r' hold hstate

theorem Nested.leave (h : Nested s (c :: rest)) (hc : s.coros c = some r) {new : Coro C}
    (hnew : new.state ≠ .running) (hctx : new.state = .yielded → new.uctx = some c) :
    Nested { s with coros := Function.update s.coros c (some new), executing := r.callerUctx }
      rest := by
  obtain ⟨hnotMem, hnodup⟩ := List.nodup_cons.mp h.nodup
  obtain ⟨⟨r', hr', -, hcaller⟩, hcallers⟩ := h.callers
  cases hc.symm.trans hr'
  refine ⟨hcaller, hnodup, hcallers.update hnotMem _, ?_, ?_⟩
  · intro d r' hd hstate
    by_cases hdc : d = c
    · subst hdc
      cases (Function.update_self d _ s.coros).symm.trans hd
      exact absurd hstate hnew
    · have hold : s.coros d = some r' := (Function.update_of_ne hdc _ s.coros).symm.trans hd
      exact (List.mem_cons.mp (h.running d r' hold hstate)).resolve_left hdc
  · intro d r' hd hstate
    rcases update_eq_some hd with ⟨rfl, hself⟩ | hold
    · cases hself
      exact hctx hstate
    · exact h.yielded d r' hold hstate

/-! ## Every call keeps the stack -/

/-- INTERNAL: what holds between the calls. -/
def Inv (s : Coros C × Option CoroSwitch) : Prop := ∃ stack, Nested s.1 stack ∧ Tracks s stack

variable {last sw : Option CoroSwitch} {t : Coros C}

theorem inv_resume (h : Inv (s, last)) (hok : ∀ r, s.coros c = some r → r.state ≠ .running)
    (hcall : s.resume c = some (sw, t)) : Inv (t, sw.or last) := by
  obtain ⟨stack, hnested, htracks⟩ := h
  have hnotMem := hnested.notMem hok
  have hentered : ∀ r : Coro C, r.uctx = some c →
      Inv ((s.enter c r).2, (s.enter c r).1.or last) :=
    fun r hr => ⟨c :: stack, hnested.enter hnotMem hr, fun _ => rfl, nofun⟩
  obtain ⟨r, hr, hcall⟩ := Option.bind_eq_some_iff.mp hcall
  split at hcall
  · cases hcall
    exact ⟨stack, hnested, htracks⟩
  · cases hcall
    exact hentered _ rfl
  · next hstate => exact absurd hstate (hok r hr)
  · next hstate =>
    cases hcall
    exact hentered r (hnested.yielded c r hr hstate)

theorem inv_yield (h : Inv (s, last)) {arg : Option C} (hok : arg = none ∨ arg = s.executing)
    (hcall : s.yield arg = some (sw, t)) : Inv (t, sw.or last) := by
  obtain ⟨stack, hnested, htracks⟩ := h
  unfold Coros.yield at hcall
  split at hcall
  · cases hcall
    exact ⟨stack, hnested, htracks⟩
  next c hcoro =>
  obtain ⟨r, hr, hcall⟩ := Option.bind_eq_some_iff.mp hcall
  split at hcall
  · cases hcall
    exact ⟨stack, hnested, htracks⟩
  next hstate =>
  cases hcall
  have hmem := hnested.running c r hr (not_not.mp hstate)
  -- the coroutine is running, so it is on the stack and the pointer that names it is right
  have hhead : stack.head? = some c := by
    rcases hok with rfl | rfl
    · rw [Option.none_or] at hcoro
      by_cases hlast : last = some .leave
      · obtain ⟨d, hd, hnotMem⟩ := htracks.leave hlast
        cases hd.symm.trans hcoro
        exact absurd hmem hnotMem
      · exact (htracks.enter hlast).symm.trans hcoro
    · rw [hnested.executing] at hcoro
      cases stack with
      | nil => cases hmem
      | cons d rest => exact hcoro
  obtain ⟨rest, rfl⟩ : ∃ rest, stack = c :: rest := List.head?_eq_some_iff.mp hhead
  refine ⟨rest, hnested.leave hr nofun fun _ => hnested.executing.trans hhead, nofun, fun _ => ?_⟩
  exact htracks.innermost_left hnested.nodup

theorem inv_finish (h : Inv (s, last)) (hcall : s.finish = some (sw, t)) : Inv (t, sw.or last) := by
  obtain ⟨stack, hnested, htracks⟩ := h
  obtain ⟨c, hc, hcall⟩ := Option.bind_eq_some_iff.mp hcall
  obtain ⟨r, hr, hcall⟩ := Option.bind_eq_some_iff.mp hcall
  cases hcall
  obtain ⟨rest, rfl⟩ : ∃ rest, stack = c :: rest :=
    List.head?_eq_some_iff.mp (hnested.executing.symm.trans hc)
  refine ⟨rest, hnested.leave hr nofun nofun, nofun, fun _ => ?_⟩
  exact htracks.innermost_left hnested.nodup

theorem inv_of_reach {s : Coros C × Option CoroSwitch}
    (h : Reach (coroutines C) CoroCall.WellNested s) : Inv s := by
  refine h.invariant Inv ⟨[], ⟨rfl, List.nodup_nil, trivial, nofun, nofun⟩, fun _ => rfl, nofun⟩ ?_
  rintro ⟨s, last⟩ l s' hinv hok hstep
  obtain ⟨⟨sw, t⟩, hcall, rfl⟩ := Option.map_eq_some_iff.mp hstep
  cases l with
  | create answer =>
    obtain ⟨stack, hnested, htracks⟩ := hinv
    cases hcall
    refine ⟨stack, ?_, ?_⟩
    · cases answer with
      | none => exact hnested
      | some c =>
        refine hnested.update (hnested.notMem fun r hr => ?_) ?_
        · cases (hok c rfl).symm.trans hr
        · rintro r ⟨⟩
          rfl
    · refine htracks.same ?_
      cases answer with
      | none => rfl
      | some c => rfl
  | destroy coro =>
    obtain ⟨stack, hnested, htracks⟩ := hinv
    obtain ⟨t, hdestroy, heq⟩ := Option.map_eq_some_iff.mp hcall
    cases heq
    cases coro with
    | none =>
      cases hdestroy
      exact ⟨stack, hnested, htracks⟩
    | some c =>
      obtain ⟨r, hr, heq⟩ := Option.bind_eq_some_iff.mp hdestroy
      cases heq
      refine ⟨stack, hnested.update (hnested.notMem (hok c rfl)) nofun, ?_⟩
      exact htracks.same rfl
  | resume c => exact inv_resume hinv hok hcall
  | yield coro => exact inv_yield hinv hok hcall
  | finish => exact inv_finish hinv hcall

/-! ## Where the pointer is right -/

/-- `mb_coro_yield (NULL)` suspends the coroutine and continues its caller. -/
def Suspends (s : Coros C) (c : C) : Prop :=
  ∃ r t, s.coros c = some r ∧ s.yield none = some (some .leave, t) ∧
    t.coros c = some { r with state := .yielded, uctx := some c } ∧ t.executing = r.callerUctx

theorem not_leave_of_notMem (h : Nested s stack) (hcurrent : s.current = some c) (hc : c ∉ stack) :
    s.yield none ≠ some (some .leave, t) := by
  intro hyield
  simp only [Coros.yield, Option.none_or, hcurrent] at hyield
  obtain ⟨r, hr, hyield⟩ := Option.bind_eq_some_iff.mp hyield
  split at hyield
  · cases hyield
  · next hstate => exact hc (h.running c r hr (not_not.mp hstate))

/-- At every point of a well-nested run, `mb_coro_current` is the innermost coroutine that executes,
and `NULL` if there is none, if and only if the last change of contexts did not leave a coroutine;
and exactly then `mb_coro_yield (NULL)` suspends the coroutine that calls it.
SRC: coroutine.c:85-165 -/
theorem current_executes_iff {s : Coros C × Option CoroSwitch}
    (h : Reach (coroutines C) CoroCall.WellNested s) :
    (s.1.current = s.1.executing ↔ s.2 ≠ some .leave) ∧
      ∀ c, s.1.executing = some c → (Suspends s.1 c ↔ s.2 ≠ some .leave) := by
  obtain ⟨stack, hnested, htracks⟩ := inv_of_reach h
  obtain ⟨s, last⟩ := s
  by_cases hlast : last = some .leave
  · obtain ⟨d, hd, hnotMem⟩ := htracks.leave hlast
    refine ⟨iff_of_false (fun heq => ?_) (not_not.mpr hlast), fun c hc =>
      iff_of_false (fun hsuspends => ?_) (not_not.mpr hlast)⟩
    · have hhead : stack.head? = some d := hnested.executing.symm.trans (heq.symm.trans hd)
      exact hnotMem (List.mem_of_mem_head? hhead)
    · obtain ⟨-, t, -, hyield, -⟩ := hsuspends
      exact not_leave_of_notMem hnested hd hnotMem hyield
  · have hcurrent := (htracks.enter hlast).trans hnested.executing.symm
    refine ⟨iff_of_true hcurrent hlast, fun c hc => iff_of_true ?_ hlast⟩
    obtain ⟨rest, rfl⟩ : ∃ rest, stack = c :: rest :=
      List.head?_eq_some_iff.mp (hnested.executing.symm.trans hc)
    obtain ⟨r, hr, hstate, -⟩ := hnested.callers.1
    refine ⟨r, { s with
      coros := Function.update s.coros c (some { r with state := .yielded, uctx := some c })
      executing := r.callerUctx }, hr, ?_, Function.update_self c _ s.coros, rfl⟩
    have hpointer : s.current = some c := hcurrent.trans hc
    dsimp only at hr hc
    simp only [Coros.yield, Option.none_or, hpointer, hr, hstate, hc, ne_eq, not_true, if_false,
      Option.bind_eq_bind, Option.bind_some, Option.pure_def]

/-! ## Two coroutines -/

/-- INTERNAL: one coroutine resumes another. -/
def nestedCalls : List (CoroCall Bool) :=
  [.create (some true), .create (some false), .resume true, .resume false]

/-- The inner coroutine is current, and can suspend itself. -/
theorem current_executes_nested :
    ∃ s : Coros Bool × Option CoroSwitch, Reach (coroutines Bool) CoroCall.WellNested s ∧
      s.1.executing = some false ∧ s.1.current = s.1.executing ∧ Suspends s.1 false := by
  have hmeets : (coroutines Bool).Meets CoroCall.WellNested (coroutines Bool).init nestedCalls := by
    decide +kernel
  have hrun : ((coroutines Bool).run (coroutines Bool).init nestedCalls).map
      (fun s => (s.1.executing, s.2)) = some (some false, some .enter) := by
    decide +kernel
  obtain ⟨s, hreach, heq⟩ := Reach.exists_of_run hmeets hrun
  obtain ⟨hexecuting, hlast⟩ := Prod.mk.inj heq
  have hne : s.2 ≠ some .leave := by
    rw [hlast]
    nofun
  obtain ⟨hcurrent, hsuspends⟩ := current_executes_iff hreach
  exact ⟨s, hreach, hexecuting, hcurrent.mpr hne, (hsuspends false hexecuting).mpr hne⟩

/-- **The inner coroutine has yielded.**  The outer one executes, `mb_coro_current` still is the
inner one, and `mb_coro_yield (NULL)` of the outer one returns at once. -/
theorem current_stale_after_yield :
    ∃ s : Coros Bool × Option CoroSwitch, Reach (coroutines Bool) CoroCall.WellNested s ∧
      s.1.executing = some true ∧ s.1.current = some false ∧
      (s.1.yield none).map Prod.fst = some none := by
  have hmeets : (coroutines Bool).Meets CoroCall.WellNested (coroutines Bool).init
      (nestedCalls ++ [.yield none]) := by
    decide +kernel
  have hrun : ((coroutines Bool).run (coroutines Bool).init (nestedCalls ++ [.yield none])).map
      (fun s => (s.1.executing, s.1.current, (s.1.yield none).map Prod.fst)) =
        some (some true, some false, some none) := by
    decide +kernel
  obtain ⟨s, hreach, heq⟩ := Reach.exists_of_run hmeets hrun
  simp only [Prod.mk.injEq] at heq
  exact ⟨s, hreach, heq⟩

end MsgBroker.Analysis.CoroutineCurrent
