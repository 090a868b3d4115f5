import Mathlib.Data.List.Basic
import Mathlib.Tactic.Common

/-!
# Walks along a partial successor

The loop `for (p = first; p; p = next (p))`. `posAt` is the position after a number of rounds,
`trail` lists the positions with a bound on the rounds, and `forWalk` runs a body that may stop the
loop.
-/

set_option autoImplicit false

namespace MsgBroker.Lib

variable {α σ ε : Type}

/-- The position after `n` rounds. -/
def posAt (next : α → Option α) (first : Option α) : ℕ → Option α
  | 0 => first
  | n + 1 => (posAt next first n).bind next

/-- The positions of at most `fuel` rounds. -/
def trail (next : α → Option α) : ℕ → Option α → List α
  | fuel + 1, some p => p :: trail next fuel (next p)
  | _, _ => []

/-- The loop with a body that may stop it with an error; `none` if it is not over after `fuel`
rounds. -/
def forWalk (next : α → Option α) (body : α → σ → Except ε σ) :
    ℕ → Option α → σ → Option (Except ε σ)
  | _, none, s => some (.ok s)
  | 0, some _, _ => none
  | fuel + 1, some p, s =>
    match body p s with
    | .error e => some (.error e)
    | .ok s' => forWalk next body fuel (next p) s'

/-- The body over all positions of a list. -/
def foldBody (body : α → σ → Except ε σ) : List α → σ → Except ε σ
  | [], s => .ok s
  | p :: ps, s =>
    match body p s with
    | .error e => .error e
    | .ok s' => foldBody body ps s'

/-- An invariant of the positions, and a measure that bounds the rounds that are left. -/
structure Bounded (next : α → Option α) (I : α → Prop) (μ : α → ℕ) : Prop where
  pos : ∀ p, I p → 0 < μ p
  step : ∀ p q, I p → next p = some q → I q ∧ μ q < μ p

section Trail

variable {next : α → Option α} {I : α → Prop} {μ : α → ℕ}

theorem length_trail_le (next : α → Option α) (fuel : ℕ) (first : Option α) :
    (trail next fuel first).length ≤ fuel := by
  induction fuel generalizing first with
  | zero => exact Nat.le_refl 0
  | succ fuel ih =>
    cases first with
    | none => exact Nat.zero_le _
    | some p => exact Nat.succ_le_succ (ih (next p))

theorem posAt_succ' (next : α → Option α) (first : Option α) (n : ℕ) :
    posAt next first (n + 1) = posAt next (first.bind next) n := by
  induction n with
  | zero => rfl
  | succ n ih =>
    show (posAt next first (n + 1)).bind next = (posAt next (first.bind next) n).bind next
    rw [ih]

theorem posAt_none (next : α → Option α) (n : ℕ) : posAt next none n = none := by
  induction n with
  | zero => rfl
  | succ n ih => rw [posAt, ih, Option.bind_none]

variable {fuel : ℕ} {first : Option α}

theorem Bounded.induction (hb : Bounded next I μ) {P : ℕ → Option α → Prop}
    (hnone : ∀ fuel, P fuel none) (hsome : ∀ fuel p, P fuel (next p) → P (fuel + 1) (some p))
    (hfirst : ∀ p, first = some p → I p ∧ μ p ≤ fuel) :
    P fuel first := by
  induction fuel generalizing first with
  | zero =>
    cases first with
    | none => exact hnone 0
    | some p =>
      obtain ⟨hI, hle⟩ := hfirst p rfl
      exact absurd hle (Nat.not_le.mpr (hb.pos p hI))
  | succ fuel ih =>
    cases first with
    | none => exact hnone (fuel + 1)
    | some p =>
      obtain ⟨hI, hle⟩ := hfirst p rfl
      refine hsome fuel p (ih fun q hq => ?_)
      obtain ⟨hIq, hlt⟩ := hb.step p q hI hq
      exact ⟨hIq, by omega⟩

theorem posAt_eq_trail (hb : Bounded next I μ)
    (hfirst : ∀ p, first = some p → I p ∧ μ p ≤ fuel) (n : ℕ) :
    posAt next first n = (trail next fuel first)[n]? := by
  refine hb.induction (P := fun fuel first => ∀ n, posAt next first n = (trail next fuel first)[n]?)
    ?_ ?_ hfirst n
  · intro fuel n
    rw [posAt_none]
    cases fuel <;> rfl
  · intro fuel p ih n
    cases n with
    | zero => rfl
    | succ n =>
      rw [posAt_succ', Option.bind_some, ih]
      rfl

theorem forall_mem_trail (hb : Bounded next I μ)
    (hfirst : ∀ p, first = some p → I p) : ∀ p ∈ trail next fuel first, I p := by
  induction fuel generalizing first with
  | zero => exact List.forall_mem_nil _
  | succ fuel ih =>
    cases first with
    | none => exact List.forall_mem_nil _
    | some p =>
      have hI := hfirst p rfl
      exact List.forall_mem_cons.mpr ⟨hI, ih fun q hq => (hb.step p q hI hq).1⟩

theorem next_of_trail_eq (next : α → Option α) {pre post : List α}
    {p q : α} (h : trail next fuel first = pre ++ p :: q :: post) : next p = some q := by
  induction fuel generalizing first pre with
  | zero => exact absurd h.symm (List.append_ne_nil_of_right_ne_nil _ (List.cons_ne_nil _ _))
  | succ fuel ih =>
    cases first with
    | none => exact absurd h.symm (List.append_ne_nil_of_right_ne_nil _ (List.cons_ne_nil _ _))
    | some r =>
      have h' : r :: trail next fuel (next r) = pre ++ p :: q :: post := h
      cases pre with
      | cons a pre => exact ih (List.cons.inj h').2
      | nil =>
        obtain ⟨rfl, htail⟩ := List.cons.inj h'
        -- The rest of the trail starts with `q`, so `q` is the successor it was started from.
        cases fuel with
        | zero => cases htail
        | succ fuel =>
          cases hn : next r with
          | none => rw [hn] at htail; cases htail
          | some b =>
            rw [hn] at htail
            exact congrArg some (List.cons.inj htail).1

theorem pairwise_trail {lt : α → α → Prop} (htrans : ∀ a b c, lt a b → lt b c → lt a c)
    (hb : Bounded next I μ) (hlt : ∀ p q, I p → next p = some q → lt p q)
    (hfirst : ∀ p, first = some p → I p) :
    (trail next fuel first).Pairwise lt := by
  induction fuel generalizing first with
  | zero => exact List.Pairwise.nil
  | succ fuel ih =>
    cases first with
    | none => exact List.Pairwise.nil
    | some p =>
      have hI := hfirst p rfl
      have hrest : (trail next fuel (next p)).Pairwise lt :=
        ih fun q hq => (hb.step p q hI hq).1
      refine List.Pairwise.cons ?_ hrest
      -- The first position of the rest is above `p`, and all others are above that.
      cases fuel with
      | zero => exact List.forall_mem_nil _
      | succ fuel =>
        cases hn : next p with
        | none => exact List.forall_mem_nil _
        | some q =>
          rw [hn] at hrest
          have hq := hlt p q hI hn
          exact List.forall_mem_cons.mpr
            ⟨hq, fun r hr => htrans p q r hq ((List.pairwise_cons.mp hrest).1 r hr)⟩

theorem forWalk_eq (hb : Bounded next I μ) (body : α → σ → Except ε σ)
    (hfirst : ∀ p, first = some p → I p ∧ μ p ≤ fuel) (s : σ) :
    forWalk next body fuel first s = some (foldBody body (trail next fuel first) s) := by
  refine hb.induction (P := fun fuel first => ∀ s, forWalk next body fuel first s =
    some (foldBody body (trail next fuel first) s)) ?_ ?_ hfirst s
  · intro fuel s
    cases fuel <;> rfl
  · intro fuel p ih s
    rw [forWalk, trail, foldBody]
    cases body p s with
    | error e => rfl
    | ok s' => exact ih s'

end Trail

section Fold

variable {body : α → σ → Except ε σ}

theorem foldBody_eq_error {ps : List α} {s : σ} {e : ε} (h : foldBody body ps s = .error e) :
    ∃ pre p post u, ps = pre ++ p :: post ∧ foldBody body pre s = .ok u ∧
      body p u = .error e := by
  induction ps generalizing s with
  | nil => cases h
  | cons p ps ih =>
    rw [foldBody] at h
    cases hb : body p s with
    | error e' =>
      rw [hb] at h
      cases h
      exact ⟨[], p, ps, s, rfl, rfl, hb⟩
    | ok s' =>
      rw [hb] at h
      obtain ⟨pre, q, post, u, rfl, hpre, hq⟩ := ih h
      exact ⟨p :: pre, q, post, u, rfl, by rw [foldBody, hb]; exact hpre, hq⟩

end Fold

end MsgBroker.Lib
