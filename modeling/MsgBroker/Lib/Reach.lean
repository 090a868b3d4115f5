import Mathlib.Data.List.Basic
import Mathlib.Tactic.Common

/-!
# Labelled systems, the states they reach, and what every run keeps

A system fires labels: from a state, a label either leads to one next state or is disabled.
-/

set_option autoImplicit false

namespace MsgBroker.Lib

section System

variable {σ ℓ : Type}

/-- A labelled system with deterministic, possibly disabled steps. -/
structure System (σ ℓ : Type) where
  /-- The state every run starts from. -/
  init : σ
  /-- The state after the label, or `none` where the label is disabled. -/
  step : σ → ℓ → Option σ

/-- The states reached by runs whose steps all meet `ok`. -/
inductive Reach (M : System σ ℓ) (ok : σ → ℓ → Prop) : σ → Prop where
  | init : Reach M ok M.init
  | step {s t : σ} {l : ℓ} : Reach M ok s → ok s l → M.step s l = some t → Reach M ok t

/-- The run that fires the labels in order, `none` once a label is disabled. -/
def System.run (M : System σ ℓ) (s : σ) : List ℓ → Option σ
  | [] => some s
  | l :: ls => (M.step s l).bind fun t => M.run t ls

variable {M : System σ ℓ} {s t : σ} {ok : σ → ℓ → Prop} {ls : List ℓ}

theorem System.run_cons {l : ℓ} (h : M.step s l = some t)
    (ls : List ℓ) : M.run s (l :: ls) = M.run t ls := by
  simp only [System.run, h, Option.bind_some]

theorem Reach.invariant_of_reach
    (h : Reach M ok s) (P : σ → Prop) (hinit : P M.init)
    (hstep : ∀ s l t, Reach M ok s → P s → ok s l → M.step s l = some t → P t) : P s := by
  induction h with
  | init => exact hinit
  | step hreach hok hs ih => exact hstep _ _ _ hreach ih hok hs

theorem Reach.invariant (h : Reach M ok s)
    (P : σ → Prop) (hinit : P M.init)
    (hstep : ∀ s l t, P s → ok s l → M.step s l = some t → P t) : P s :=
  h.invariant_of_reach P hinit fun s l t _ => hstep s l t

/-- Every label of the run meets `ok` where it is fired. -/
def System.Meets (M : System σ ℓ) (ok : σ → ℓ → Prop) (s : σ) : List ℓ → Prop
  | [] => True
  | l :: ls => ok s l ∧ ∀ t, M.step s l = some t → M.Meets ok t ls

/-- A condition that can be decided can be decided along a run. -/
instance System.decidableMeets (M : System σ ℓ) {ok : σ → ℓ → Prop} [∀ s l, Decidable (ok s l)] :
    (s : σ) → (ls : List ℓ) → Decidable (M.Meets ok s ls)
  | _, [] => isTrue trivial
  | s, l :: ls =>
    match h : M.step s l with
    | none => decidable_of_iff (ok s l)
        ⟨fun hok => ⟨hok, fun t ht => by rw [h] at ht; cases ht⟩, And.left⟩
    | some t =>
      have : Decidable (M.Meets ok t ls) := decidableMeets M t ls
      decidable_of_iff (ok s l ∧ M.Meets ok t ls)
        ⟨fun hok => ⟨hok.1, fun u hu => by rw [h] at hu; cases hu; exact hok.2⟩,
          fun hok => ⟨hok.1, hok.2 t h⟩⟩

theorem System.meets_of_forall (M : System σ ℓ)
    (h : ∀ l ∈ ls, ∀ s, ok s l) (s : σ) : M.Meets ok s ls := by
  induction ls generalizing s with
  | nil => trivial
  | cons l ls ih =>
    exact ⟨h l List.mem_cons_self s,
      fun t _ => ih (fun l' hl' => h l' (List.mem_cons_of_mem _ hl')) t⟩

/-- A run that meets a condition meets every weaker one. -/
theorem System.Meets.imp {ok' : σ → ℓ → Prop} (h : M.Meets ok s ls)
    (himp : ∀ s l, ok s l → ok' s l) : M.Meets ok' s ls := by
  induction ls generalizing s with
  | nil => trivial
  | cons l ls ih => exact ⟨himp s l h.1, fun t ht => ih (h.2 t ht)⟩

theorem System.run_total (htotal : ∀ s l, ∃ t, M.step s l = some t) (s : σ)
    (ls : List ℓ) : ∃ t, M.run s ls = some t := by
  induction ls generalizing s with
  | nil => exact ⟨s, rfl⟩
  | cons l ls ih =>
    obtain ⟨t, ht⟩ := htotal s l
    obtain ⟨u, hu⟩ := ih t
    exact ⟨u, (System.run_cons ht ls).trans hu⟩

theorem System.run_iff_meets {I P : σ → Prop}
    (hstep : ∀ s l t, I s → M.step s l = some t → I t ∧ (P t ↔ P s ∧ ok s l))
    (hs : I s) (hr : M.run s ls = some t) : P t ↔ P s ∧ M.Meets ok s ls := by
  induction ls generalizing s with
  | nil =>
    cases hr
    exact (and_iff_left trivial).symm
  | cons l ls ih =>
    obtain ⟨u, hu, hrest⟩ := Option.bind_eq_some_iff.mp hr
    obtain ⟨hI, hiff⟩ := hstep s l u hs hu
    rw [ih hI hrest, hiff, and_assoc]
    refine and_congr_right fun _ => and_congr_right fun _ => ?_
    constructor
    · intro hmeets v hv
      obtain rfl : u = v := Option.some.inj (hu.symm.trans hv)
      exact hmeets
    · exact fun hall => hall u hu

theorem Reach.of_run
    (h : Reach M ok s) (hok : M.Meets ok s ls) (hr : M.run s ls = some t) :
    Reach M ok t := by
  induction ls generalizing s with
  | nil =>
    simp only [System.run, Option.some.injEq] at hr
    exact hr ▸ h
  | cons l ls ih =>
    simp only [System.run, Option.bind_eq_some_iff] at hr
    obtain ⟨u, hu, hrest⟩ := hr
    exact ih (h.step hok.1 hu) (hok.2 u hu) hrest

theorem Reach.of_run_init
    (hr : M.run M.init ls = some t) : Reach M (fun _ _ => True) t :=
  Reach.of_run Reach.init (M.meets_of_forall (fun _ _ _ => trivial) _) hr

theorem Reach.exists_of_run {α : Type}
    {f : σ → α} {a : α} (hok : M.Meets ok M.init ls) (hr : (M.run M.init ls).map f = some a) :
    ∃ s, Reach M ok s ∧ f s = a := by
  obtain ⟨s, hs, heq⟩ := Option.map_eq_some_iff.mp hr
  exact ⟨s, Reach.of_run Reach.init hok hs, heq⟩

end System

section History

variable {α : Type}

theorem concat_eq_append_cons_iff {log pre post : List α} {e x : α} :
    log ++ [e] = pre ++ x :: post ↔
      (post = [] ∧ log = pre ∧ e = x) ∨
        ∃ post', post = post' ++ [e] ∧ log = pre ++ x :: post' := by
  constructor
  · intro h
    rcases List.eq_nil_or_concat post with rfl | ⟨post', y, rfl⟩
    · left
      have h' : log ++ [e] = pre ++ [x] := h
      obtain ⟨h1, h2⟩ := List.append_inj' h' rfl
      exact ⟨rfl, h1, by simpa using h2⟩
    · right
      have h' : log ++ [e] = (pre ++ x :: post') ++ [y] := by simpa using h
      obtain ⟨h1, h2⟩ := List.append_inj' h' rfl
      have hy : e = y := by simpa using h2
      exact ⟨post', by rw [hy, List.concat_eq_append], h1⟩
  · rintro (⟨rfl, rfl, rfl⟩ | ⟨post', rfl, rfl⟩)
    · rfl
    · simp

theorem append_eq_append_cons {log evs pre post : List α} {x : α}
    (h : log ++ evs = pre ++ x :: post) :
    (∃ post', post = post' ++ evs ∧ log = pre ++ x :: post') ∨ x ∈ evs := by
  rcases List.append_eq_append_iff.mp h with ⟨mid, hpre, hevs⟩ | ⟨mid, hlog, hpost⟩
  · right
    rw [hevs]
    exact List.mem_append_right _ List.mem_cons_self
  · cases mid with
    | nil =>
      right
      rw [List.nil_append] at hpost
      rw [← hpost]
      exact List.mem_cons_self
    | cons y mid =>
      obtain ⟨rfl, hpost'⟩ := List.cons.inj hpost
      exact Or.inl ⟨mid, hpost', hlog⟩

end History

end MsgBroker.Lib
