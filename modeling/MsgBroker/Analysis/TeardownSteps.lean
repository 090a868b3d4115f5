import MsgBroker.Model.Teardown

/-!
# The steps of a teardown

What one step of a thread can do to the holds, the mutex, the table, the flag and the ledger.
-/

set_option autoImplicit false

namespace MsgBroker.Analysis.TeardownSafety

open Lib Model Model.Teardown

variable {T : Type} [DecidableEq T]

attribute [local grind cases] Stopper HoldOp
attribute [local grind] afterHold afterStop release dropPermanent

/-! ## What a step of one thread can do -/

theorem program_cases {me : T} {l : Act} {c c' : Pc} {g g' : Shared T}
    (h : program me l c g = some (c', g')) :
    (c = .idle ∧ g.lock = none ∧ g' = { g with lock := some me } ∧
      ((∃ op, c' = .lookup op) ∨ c' = .unpublish)) ∨
    (l = .run ∧ advance c g = some (c', g')) := by
  cases l with
  | run => exact .inr ⟨rfl, h⟩
  | close =>
    cases c <;> simp only [program, reduceCtorEq] at h
    simp only [lock, Option.ite_none_right_eq_some, Option.some.injEq, Prod.mk.injEq] at h
    obtain ⟨hlock, rfl, rfl⟩ := h
    exact .inl ⟨rfl, hlock, rfl, .inr rfl⟩
  | hold op =>
    cases c <;> simp only [program, reduceCtorEq] at h
    simp only [lock, Option.ite_none_right_eq_some, Option.some.injEq, Prod.mk.injEq] at h
    obtain ⟨hlock, rfl, rfl⟩ := h
    exact .inl ⟨rfl, hlock, rfl, .inl ⟨op, rfl⟩⟩

/-- The places of a thread that has the mutex. -/
def locks : Pc → Bool
  | .lookup _ => true
  | .probe _ => true
  | .grab _ => true
  | .grabbed _ => true
  | .refused => true
  | .unpublish => true
  | .leave => true
  | _ => false

/-- What the ledger says while `mb_close` is at this place, after it has taken the socket
out of the table. -/
def closing : Pc → Option Ledger
  | .leave => some ⟨2, 0, 0, 0⟩
  | .closeFlag => some ⟨2, 0, 0, 0⟩
  | .drop => some ⟨2, 0, 0, 0⟩
  | .dropLast => some ⟨1, 0, 0, 0⟩
  | .drain => some ⟨0, 0, 0, 0⟩
  | .stop .close => some ⟨0, 0, 0, 0⟩
  | .stopping .close => some ⟨0, 0, 0, 0⟩
  | .term => some ⟨0, 0, 0, 0⟩
  | .free => some ⟨0, 1, 0, 0⟩
  | .finish => some ⟨0, 1, 1, 0⟩
  | _ => none

/-- `mb_close` has waited for all holds to be released. -/
def drained : Pc → Bool
  | .stop .close => true
  | .stopping .close => true
  | .term => true
  | .free => true
  | .finish => true
  | _ => false

/-- `mb_global_hold_socket` has found the socket in the table. -/
def found : Pc → Bool
  | .probe _ => true
  | .grab _ => true
  | _ => false

section Step

variable {me : T} {l : Act} {c c' : Pc} {g g' : Shared T}

theorem program_holds (h : program me l c g = some (c', g')) :
    g'.holds - g'.ledger.permanent - held c' = g.holds - g.ledger.permanent - held c := by
  rcases program_cases h with ⟨rfl, -, rfl, ⟨op, rfl⟩ | rfl⟩ | ⟨-, h⟩
  · rfl
  · rfl
  · cases c <;> grind [advance, held]

theorem program_lock (h : program me l c g = some (c', g')) :
    (locks c' = locks c ∧ g'.lock = g.lock) ∨
    (g.lock = none ∧ locks c' = true ∧ g'.lock = some me) ∨
    (locks c = true ∧ locks c' = false ∧ g'.lock = none) := by
  rcases program_cases h with ⟨rfl, hlock, rfl, ⟨op, rfl⟩ | rfl⟩ | ⟨-, h⟩
  · exact .inr (.inl ⟨hlock, rfl, rfl⟩)
  · exact .inr (.inl ⟨hlock, rfl, rfl⟩)
  · cases c <;> grind [advance, locks]

theorem program_open (h : program me l c g = some (c', g')) (hc : closing c = none) :
    (closing c' = none ∧ g'.published = g.published ∧ g'.ledger = g.ledger) ∨
    (c = .unpublish ∧ c' = .leave ∧ g.published = true ∧ g'.published = false ∧
      g'.ledger = g.ledger) := by
  rcases program_cases h with ⟨rfl, -, rfl, ⟨op, rfl⟩ | rfl⟩ | ⟨-, h⟩
  · exact .inl ⟨rfl, rfl, rfl⟩
  · exact .inl ⟨rfl, rfl, rfl⟩
  · cases c <;> grind [advance, closing]

theorem program_closing (h : program me l c g = some (c', g'))
    (hc : closing c = some g.ledger) :
    g'.published = g.published ∧
    (closing c' = some g'.ledger ∨ closing c' = none ∧ g'.ledger = ⟨0, 1, 1, 1⟩) := by
  rcases program_cases h with ⟨rfl, -, rfl, hc' | hc'⟩ | ⟨-, h⟩
  · cases hc
  · cases hc
  · cases c <;> grind [advance, closing]

theorem program_held (h : program me l c g = some (c', g')) :
    held c' ≤ held c ∨ found c = true := by
  rcases program_cases h with ⟨rfl, -, rfl, ⟨op, rfl⟩ | rfl⟩ | ⟨-, h⟩
  · exact .inl le_rfl
  · exact .inl le_rfl
  · cases c with
    | stop b => cases b <;> grind [advance, held]
    | stopping b => cases b <;> grind [advance, held]
    | _ => grind [advance, held, found]

theorem program_found (h : program me l c g = some (c', g')) (hc' : found c' = true) :
    g'.published = g.published ∧ (found c = true ∨ g.published = true) := by
  rcases program_cases h with ⟨rfl, -, rfl, ⟨op, rfl⟩ | rfl⟩ | ⟨-, h⟩
  · cases hc'
  · cases hc'
  · cases c <;> grind [advance, found]

theorem program_drained (h : program me l c g = some (c', g')) (hc' : drained c' = true) :
    drained c = true ∨ (c = .drain ∧ g.holds ≤ 0 ∧ held c' = 0) := by
  rcases program_cases h with ⟨rfl, -, rfl, ⟨op, rfl⟩ | rfl⟩ | ⟨-, h⟩
  · cases hc'
  · cases hc'
  · cases c <;> grind [advance, drained, held]

theorem program_stopping (h : program me l c g = some (c', g')) :
    (g.stopping = true → g'.stopping = true) ∧
    (c' = .drop ∨ c' = .dropLast → g'.stopping = true ∨ c = .drop) ∧
    (g'.ledger.permanent = g.ledger.permanent ∨ l = .run ∧ (c = .drop ∨ c = .dropLast)) := by
  rcases program_cases h with ⟨rfl, -, rfl, ⟨op, rfl⟩ | rfl⟩ | ⟨hl, h⟩
  · simp
  · simp
  · cases c <;> grind [advance]

theorem program_entering (h : program me l c g = some (c', g')) :
    (entering c' = true → g.stopping = false) ∧
    (inFlight c' = true → inFlight c = true ∨ entering c = true) := by
  rcases program_cases h with ⟨rfl, -, rfl, ⟨op, rfl⟩ | rfl⟩ | ⟨-, h⟩
  · simp [entering, inFlight]
  · simp [entering, inFlight]
  · cases c with
    | grab op => cases op <;> grind [advance, entering, inFlight]
    | _ => grind [advance, entering, inFlight]

theorem program_wait (h : program me l c g = some (c', g')) :
    (c' = .wait → c = .wait ∨
      (l = .run ∧ c = .flag ∧ g.stopping = false ∧ g' = { g with stopping := true })) ∧
    (c' = .stop .shutdown → c = .wait ∧ g.holds ≤ 3) := by
  rcases program_cases h with ⟨rfl, -, rfl, ⟨op, rfl⟩ | rfl⟩ | ⟨hl, h⟩
  · simp
  · simp
  · cases c <;> grind [advance]

end Step

end MsgBroker.Analysis.TeardownSafety
