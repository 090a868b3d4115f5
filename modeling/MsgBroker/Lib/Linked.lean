import Mathlib.Data.List.Nodup
import Mathlib.Logic.Function.Basic

/-!
# Doubly linked lists in a heap

A heap of cells that point at each other. A cell that is not allocated (`none`) must not be read.
-/

set_option autoImplicit false

namespace MsgBroker.Lib

variable {α : Type}

/-- A pointer to a cell, the null pointer, or a value that must not be followed. -/
inductive Ptr (α : Type) where
  | null
  | invalid
  | to (a : α)
deriving DecidableEq, Repr

def Ptr.ofOption : Option α → Ptr α
  | none => .null
  | some a => .to a

@[simp] theorem Ptr.ofOption_none : Ptr.ofOption (none : Option α) = .null := rfl

@[simp] theorem Ptr.ofOption_some (a : α) : Ptr.ofOption (some a) = .to a := rfl

@[simp] theorem Ptr.ofOption_inj {x y : Option α} : Ptr.ofOption x = .ofOption y ↔ x = y := by
  cases x <;> cases y <;> simp [Ptr.ofOption]

/-- A cell of a list. -/
structure Cell (α : Type) where
  next : Ptr α
  prev : Ptr α
deriving DecidableEq, Repr

/-- The allocated cells. -/
abbrev Heap (α : Type) := α → Option (Cell α)

/-- The cells of `ps` are linked in this order. -/
structure Linked (h : Heap α) (ps : List α) : Prop where
  nodup : ps.Nodup
  cell : ∀ l₁ a l₂, ps = l₁ ++ a :: l₂ →
    h a = some ⟨.ofOption l₂.head?, .ofOption l₁.getLast?⟩

namespace Linked

variable {h h' : Heap α} {ps l₁ l₂ : List α} {a : α}

theorem nil (h : Heap α) : Linked h [] :=
  ⟨List.nodup_nil, fun l₁ _ _ heq => absurd heq.symm (by simp)⟩

theorem congr (hl : Linked h ps) (hsame : ∀ a ∈ ps, h' a = h a) : Linked h' ps :=
  ⟨hl.nodup, fun l₁ a l₂ heq => by
    rw [hsame a (heq ▸ List.mem_append_right _ List.mem_cons_self)]
    exact hl.cell l₁ a l₂ heq⟩

private theorem eq_last_of_concat {x z : α} {m k : List α}
    (heq : l₁ ++ x :: m.concat z = k ++ [x]) : x = z := by
  have hsplit : (l₁ ++ x :: m) ++ [z] = k ++ [x] := by simpa using heq
  obtain ⟨-, hlast⟩ := List.append_inj' hsplit rfl
  exact (List.cons.inj hlast).1.symm

private theorem ne_last_of_nodup {x z : α} {m k : List α}
    (hnd : (l₁ ++ x :: m.concat z).Nodup) : l₁ ++ x :: m.concat z ≠ k ++ [x] := by
  intro heq
  rw [← eq_last_of_concat heq] at hnd
  simp [List.nodup_append'] at hnd

private theorem ne_head_of_nodup {x y : α} {m k : List α} (hnd : (y :: m ++ x :: l₂).Nodup) :
    y :: m ++ x :: l₂ ≠ x :: k := by
  intro heq
  rw [(List.cons.inj heq).1] at hnd
  simp at hnd

theorem insert (hl : Linked h (l₁ ++ l₂)) (ha : a ∉ l₁ ++ l₂)
    (hnew : h' a = some ⟨.ofOption l₂.head?, .ofOption l₁.getLast?⟩)
    (hpred : ∀ k b, l₁ = k ++ [b] → h' b = some ⟨.to a, .ofOption k.getLast?⟩)
    (hsucc : ∀ b k, l₂ = b :: k → h' b = some ⟨.ofOption k.head?, .to a⟩)
    (hrest : ∀ b ∈ l₁ ++ l₂, (∀ k, l₁ ≠ k ++ [b]) → (∀ k, l₂ ≠ b :: k) → h' b = h b) :
    Linked h' (l₁ ++ a :: l₂) := by
  refine ⟨List.nodup_middle.mpr (List.nodup_cons.mpr ⟨ha, hl.nodup⟩), ?_⟩
  obtain ⟨hnd₁, hnd₂, hboth⟩ := List.nodup_append'.mp hl.nodup
  intro k₁ x k₂ hsplit
  rcases List.append_eq_append_iff.mp hsplit with ⟨m, rfl, hl₂⟩ | ⟨m, rfl, hk⟩
  · cases m with
    | nil =>
      -- the new cell itself
      obtain ⟨rfl, rfl⟩ := List.cons.inj hl₂
      rw [List.append_nil]
      exact hnew
    | cons y m =>
      obtain ⟨rfl, rfl⟩ := List.cons.inj hl₂
      cases m with
      | nil => exact (hsucc x k₂ rfl).trans (by simp)
      | cons y m =>
        have hx : x ∈ y :: m ++ x :: k₂ := by simp
        rw [hrest x (List.mem_append_right _ hx)
          (fun k heq => hboth (heq ▸ by simp) hx) (fun k => ne_head_of_nodup hnd₂),
          hl.cell (l₁ ++ y :: m) x k₂ (by simp)]
        simp [List.getLast?_append]
  · cases m with
    | nil =>
      obtain ⟨rfl, rfl⟩ := List.cons.inj hk
      rw [List.append_nil] at hnew
      exact hnew
    | cons y m =>
      obtain ⟨rfl, rfl⟩ := List.cons.inj hk
      have hx : x ∈ k₁ ++ x :: m := by simp
      rcases List.eq_nil_or_concat m with rfl | ⟨m', z, rfl⟩
      · exact hpred k₁ x rfl
      · rw [hrest x (List.mem_append_left _ hx) (fun k => ne_last_of_nodup hnd₁)
          (fun k heq => hboth hx (heq ▸ by simp)),
          hl.cell k₁ x (m'.concat z ++ l₂) (by simp)]
        cases m' <;> simp

theorem snoc (hl : Linked h ps) (ha : a ∉ ps)
    (hnew : h' a = some ⟨.null, .ofOption ps.getLast?⟩)
    (hlast : ∀ l b, ps = l ++ [b] → h' b = some ⟨.to a, .ofOption l.getLast?⟩)
    (hrest : ∀ b ∈ ps, (∀ l, ps ≠ l ++ [b]) → h' b = h b) : Linked h' (ps ++ [a]) := by
  rw [← List.append_nil ps] at hl
  refine hl.insert (by simpa using ha) hnew hlast (fun b k heq => nomatch heq) ?_
  intro b hb hne _
  exact hrest b (by simpa using hb) hne

theorem cons (hl : Linked h ps) (ha : a ∉ ps)
    (hnew : h' a = some ⟨.ofOption ps.head?, .null⟩)
    (hhead : ∀ b l, ps = b :: l → h' b = some ⟨.ofOption l.head?, .to a⟩)
    (hrest : ∀ b ∈ ps, (∀ l, ps ≠ b :: l) → h' b = h b) : Linked h' (a :: ps) := by
  show Linked h' ([] ++ a :: ps)
  refine insert hl ha hnew (fun k b heq => ?_) hhead (fun b hb _ hne => hrest b hb hne)
  simp at heq

theorem remove (hl : Linked h (l₁ ++ a :: l₂))
    (hpred : ∀ k b, l₁ = k ++ [b] → h' b = some ⟨.ofOption l₂.head?, .ofOption k.getLast?⟩)
    (hsucc : ∀ b k, l₂ = b :: k → h' b = some ⟨.ofOption k.head?, .ofOption l₁.getLast?⟩)
    (hrest : ∀ b ∈ l₁ ++ l₂, (∀ k, l₁ ≠ k ++ [b]) → (∀ k, l₂ ≠ b :: k) → h' b = h b) :
    Linked h' (l₁ ++ l₂) := by
  have hnd : (l₁ ++ l₂).Nodup := by
    have hall := hl.nodup
    rw [List.nodup_middle] at hall
    exact (List.nodup_cons.mp hall).2
  refine ⟨hnd, ?_⟩
  obtain ⟨hnd₁, hnd₂, hboth⟩ := List.nodup_append'.mp hnd
  intro k₁ x k₂ hsplit
  have hright : ∀ m, k₁ = l₁ ++ m → l₂ = m ++ x :: k₂ →
      h' x = some ⟨.ofOption k₂.head?, .ofOption k₁.getLast?⟩ := by
    rintro m rfl rfl
    cases m with
    | nil =>
      rw [List.append_nil]
      exact hsucc x k₂ rfl
    | cons y m =>
      have hx : x ∈ y :: m ++ x :: k₂ := by simp
      rw [hrest x (List.mem_append_right _ hx)
        (fun k heq => hboth (heq ▸ by simp) hx) (fun k => ne_head_of_nodup hnd₂),
        hl.cell (l₁ ++ a :: y :: m) x k₂ (by simp)]
      simp [List.getLast?_append]
  rcases List.append_eq_append_iff.mp hsplit with ⟨m, hk, hl₂⟩ | ⟨m, rfl, hk⟩
  · exact hright m hk hl₂
  · cases m with
    | nil => exact hright [] (by simp) hk.symm
    | cons y m =>
      obtain ⟨rfl, rfl⟩ := List.cons.inj hk
      have hx : x ∈ k₁ ++ x :: m := by simp
      rcases List.eq_nil_or_concat m with rfl | ⟨m', z, rfl⟩
      · exact hpred k₁ x rfl
      · rw [hrest x (List.mem_append_left _ hx) (fun k => ne_last_of_nodup hnd₁)
          (fun k heq => hboth hx (heq ▸ by simp)),
          hl.cell k₁ x (m'.concat z ++ a :: l₂) (by simp)]
        cases m' <;> simp

end Linked

end MsgBroker.Lib
