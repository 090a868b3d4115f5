import Mathlib.Data.List.Basic
import Mathlib.Data.List.Perm.Subperm
import Mathlib.Data.List.TakeWhile
import Mathlib.Tactic.Common

/-!
# Serving the first that is ready

A list is scanned for the first element that is ready; the element found is served and goes to the
end of the list.
-/

set_option autoImplicit false

namespace MsgBroker.Lib

variable {α : Type} [DecidableEq α]

/-- One scan: the element served, if any is ready, and the list after it. -/
def scan (ready : α → Bool) (l : List α) : Option α × List α :=
  match l.find? ready with
  | some p => (some p, l.erase p ++ [p])
  | none => (none, l)

/-- Scan after scan: the elements served, in order, and the list after them. -/
def scans : List (α → Bool) → List α → List α × List α
  | [], l => ([], l)
  | ready :: rs, l =>
    let (p, l') := scan ready l
    let (ps, l'') := scans rs l'
    (p.toList ++ ps, l'')

variable {ready : α → Bool} {l l₁ l₂ : List α} {p q : α} {rs : List (α → Bool)}

theorem scan_perm (ready : α → Bool) (l : List α) : (scan ready l).2.Perm l := by
  unfold scan
  split
  · next p hp =>
    have hmem : p ∈ l := List.mem_of_find?_eq_some hp
    exact (List.perm_append_singleton p _).trans (List.perm_cons_erase hmem).symm
  · exact List.Perm.refl l

theorem scans_perm (rs : List (α → Bool)) (l : List α) : (scans rs l).2.Perm l := by
  induction rs generalizing l with
  | nil => exact List.Perm.refl l
  | cons ready rs ih => exact (ih _).trans (scan_perm ready l)

theorem scan_of_split (hl : l = l₁ ++ q :: l₂) (hnodup : l.Nodup)
    (hfirst : ∀ a ∈ l₁, ready a = false) (hq : ready q = true) :
    scan ready l = (some q, l₁ ++ l₂ ++ [q]) := by
  have hfind : l.find? ready = some q := by
    rw [hl, List.find?_append, List.find?_eq_none.mpr (by simpa using hfirst), Option.none_or,
      List.find?_cons_of_pos hq]
  have hnot : q ∉ l₁ := by
    rw [hl] at hnodup
    intro hmem
    exact (List.nodup_append.mp hnodup).2.2 q hmem q List.mem_cons_self rfl
  have herase : l.erase q = l₁ ++ l₂ := by
    rw [hl, List.erase_append_right _ hnot, List.erase_cons_head]
  unfold scan
  simp only [hfind, herase]

theorem scan_before (hnodup : (l₁ ++ p :: l₂).Nodup) (hp : ready p = true) :
    scan ready (l₁ ++ p :: l₂) = (some p, l₁ ++ l₂ ++ [p]) ∨
      ∃ q front back, l₁ = front ++ q :: back ∧
        scan ready (l₁ ++ p :: l₂) = (some q, (front ++ back) ++ p :: (l₂ ++ [q])) := by
  cases hfind : l₁.find? ready with
  | none =>
    left
    exact scan_of_split rfl hnodup (by simpa using List.find?_eq_none.mp hfind) hp
  | some q =>
    right
    obtain ⟨hq, front, back, hsplit, hfront⟩ := List.find?_eq_some_iff_append.mp hfind
    refine ⟨q, front, back, hsplit, ?_⟩
    have hl : l₁ ++ p :: l₂ = front ++ q :: (back ++ p :: l₂) := by rw [hsplit]; simp
    rw [scan_of_split hl hnodup (by simpa using hfront) hq]
    simp

theorem served_before (hnodup : (l₁ ++ p :: l₂).Nodup) (hready : ∀ r ∈ rs, r p = true) :
    ((scans rs (l₁ ++ p :: l₂)).1.takeWhile (· ≠ p)).Nodup ∧
      ∀ q ∈ (scans rs (l₁ ++ p :: l₂)).1.takeWhile (· ≠ p), q ∈ l₁ := by
  induction rs generalizing l₁ l₂ with
  | nil => exact ⟨List.nodup_nil, nofun⟩
  | cons r rs ih =>
    have hperm := scan_perm r (l₁ ++ p :: l₂)
    rcases scan_before hnodup (hready r List.mem_cons_self) with h | ⟨q, front, back, hsplit, h⟩
    · have hserved : (scans (r :: rs) (l₁ ++ p :: l₂)).1 = p :: (scans rs (l₁ ++ l₂ ++ [p])).1 := by
        simp only [scans, h, Option.toList_some, List.singleton_append]
      rw [hserved, List.takeWhile_cons_of_neg (by simp)]
      exact ⟨List.nodup_nil, nofun⟩
    · rw [h] at hperm
      have hnodup' := hperm.nodup_iff.mpr hnodup
      obtain ⟨ih₁, ih₂⟩ := ih hnodup' fun r' hr' => hready r' (List.mem_cons_of_mem _ hr')
      have hl₁ : l₁.Nodup := (List.nodup_append.mp hnodup).1
      have hqp : q ≠ p := by
        rintro rfl
        have hmem : q ∈ l₁ := by rw [hsplit]; simp
        exact (List.nodup_append.mp hnodup).2.2 q hmem q List.mem_cons_self rfl
      have hserved : (scans (r :: rs) (l₁ ++ p :: l₂)).1 =
          q :: (scans rs ((front ++ back) ++ p :: (l₂ ++ [q]))).1 := by
        simp only [scans, h, Option.toList_some, List.singleton_append]
      rw [hserved, List.takeWhile_cons_of_pos (by simpa using hqp)]
      rw [hsplit] at hl₁
      obtain ⟨hnotin, -⟩ := List.nodup_cons.mp (List.perm_middle.nodup_iff.mp hl₁)
      refine ⟨List.nodup_cons.mpr ⟨fun hmem => hnotin (ih₂ q hmem), ih₁⟩, ?_⟩
      intro a ha
      rw [hsplit]
      rcases List.mem_cons.mp ha with rfl | hmem
      · simp
      · have hback := ih₂ a hmem
        simp only [List.mem_append, List.mem_cons] at hback ⊢
        tauto

theorem length_scans (hmem : p ∈ l) (hready : ∀ r ∈ rs, r p = true) :
    (scans rs l).1.length = rs.length := by
  induction rs generalizing l with
  | nil => rfl
  | cons r rs ih =>
    have hfind : (l.find? r).isSome := List.find?_isSome.mpr ⟨p, hmem, hready r List.mem_cons_self⟩
    obtain ⟨q, hq⟩ := Option.isSome_iff_exists.mp hfind
    have hscan : scan r l = (some q, l.erase q ++ [q]) := by
      unfold scan
      rw [hq]
    have hmem' : p ∈ l.erase q ++ [q] := by
      have hperm := scan_perm r l
      rw [hscan] at hperm
      exact hperm.mem_iff.mpr hmem
    have hrest := ih hmem' fun r' hr' => hready r' (List.mem_cons_of_mem _ hr')
    simp only [scans, hscan, Option.toList_some, List.singleton_append, List.length_cons, hrest]

theorem bypass (hnodup : l.Nodup) (hmem : p ∈ l) (hready : ∀ r ∈ rs, r p = true) :
    (scans rs l).1.length = rs.length ∧ ((scans rs l).1.takeWhile (· ≠ p)).Nodup ∧
      (l.length ≤ rs.length → p ∈ (scans rs l).1) := by
  obtain ⟨l₁, l₂, rfl⟩ := List.append_of_mem hmem
  have hlen := length_scans hmem hready
  obtain ⟨hnd, hsub⟩ := served_before hnodup hready
  refine ⟨hlen, hnd, ?_⟩
  intro hle
  by_contra hnot
  have hall : (scans rs (l₁ ++ p :: l₂)).1.takeWhile (· ≠ p) = (scans rs (l₁ ++ p :: l₂)).1 := by
    rw [List.takeWhile_eq_self_iff]
    intro q hq
    have hne : q ≠ p := fun heq => hnot (heq ▸ hq)
    simpa using hne
  rw [hall] at hnd hsub
  have hbound := (hnd.subperm hsub).length_le
  rw [hlen] at hbound
  rw [List.length_append, List.length_cons] at hle
  omega

end MsgBroker.Lib
