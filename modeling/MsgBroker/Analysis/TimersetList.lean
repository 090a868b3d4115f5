import Mathlib.Data.List.Sort
import MsgBroker.Lib.Linked
import MsgBroker.Model.Timerset

/-!
# The list of a timer set

`IsTimers ts ps` says that the set's list has the handles `ps`: they are linked in both directions,
the head is the first of them, and exactly their handles point back at the set.
-/

set_option autoImplicit false

namespace MsgBroker.Analysis.Timerset

open Lib Model Model.Timerset

variable {H : Type}

/-- The handles as cells of a list. -/
def cells (self : Timerset H) : Heap H := fun h =>
  some ⟨.ofOption (self.hndls h).next, .ofOption (self.hndls h).prev⟩

/-- The list of the set has the handles `ps`. -/
structure IsTimers (ts : Timerset H) (ps : List H) : Prop where
  linked : Linked (cells ts) ps
  head : ts.head = ps.head?
  inSet : ∀ h, (ts.hndls h).inSet = true ↔ h ∈ ps

section Writes

variable [DecidableEq H] (s : Timerset H) (h b : H) (x v : Option H)
  (f : TimerHndl H → TimerHndl H)

@[simp] theorem modify_head : (s.modify h f).head = s.head := rfl

@[simp] theorem modify_hndls :
    (s.modify h f).hndls b = if b = h then f (s.hndls b) else s.hndls b := by
  unfold Timerset.modify
  by_cases hb : b = h
  · subst hb
    simp
  · simp [hb]

@[simp] theorem linkAfter_head : (s.linkAfter x v).head = if x = none then v else s.head := by
  cases x <;> simp [linkAfter]

@[simp] theorem linkAfter_hndls :
    (s.linkAfter x v).hndls b =
      if x = some b then { s.hndls b with next := v } else s.hndls b := by
  cases x with
  | none => simp [linkAfter]
  | some p => simp [linkAfter, eq_comm]

@[simp] theorem linkBefore_head : (s.linkBefore x v).head = s.head := by
  cases x <;> simp [linkBefore]

@[simp] theorem linkBefore_hndls :
    (s.linkBefore x v).hndls b =
      if x = some b then { s.hndls b with prev := v } else s.hndls b := by
  cases x with
  | none => simp [linkBefore]
  | some p => simp [linkBefore, eq_comm]

end Writes

namespace IsTimers

variable {s t : Timerset H} {ps l₁ l₂ : List H} {a b h : H}

theorem links (hs : IsTimers s (l₁ ++ a :: l₂)) :
    (s.hndls a).next = l₂.head? ∧ (s.hndls a).prev = l₁.getLast? := by
  have hcell := hs.linked.cell l₁ a l₂ rfl
  simpa [cells] using hcell

theorem congr (hs : IsTimers s ps) (hhead : t.head = s.head)
    (hnext : ∀ a, (t.hndls a).next = (s.hndls a).next)
    (hprev : ∀ a, (t.hndls a).prev = (s.hndls a).prev)
    (hinSet : ∀ a, (t.hndls a).inSet = (s.hndls a).inSet) : IsTimers t ps :=
  ⟨hs.linked.congr fun a _ => by simp only [cells, hnext, hprev], hhead.trans hs.head,
    fun a => by rw [hinSet, hs.inSet]⟩

theorem getLast?_ne (hnd : (l₁ ++ l₂).Nodup) (hb : b ∈ l₂) : l₁.getLast? ≠ some b := fun heq =>
  (List.nodup_append'.mp hnd).2.2 (List.mem_of_getLast? heq) hb

theorem head?_ne (hnd : (l₁ ++ l₂).Nodup) (hb : b ∈ l₁) : l₂.head? ≠ some b := fun heq =>
  (List.nodup_append'.mp hnd).2.2 hb (List.mem_of_head? heq)

theorem walkSorted_eq {e fuel : ℕ} (hs : Linked (cells s) ps) (hps : ps = l₁ ++ l₂)
    (hfuel : l₂.length < fuel) :
    s.walkSorted e fuel l₁.getLast? l₂.head? =
      some ((l₁ ++ l₂.takeWhile fun b => (s.hndls b).expiry ≤ e).getLast?,
        (l₂.dropWhile fun b => (s.hndls b).expiry ≤ e).head?) := by
  induction l₂ generalizing l₁ fuel with
  | nil =>
    obtain ⟨fuel, rfl⟩ := Nat.exists_eq_add_of_lt hfuel
    simp [walkSorted]
  | cons it l₂ ih =>
    obtain ⟨fuel, rfl⟩ : ∃ n, fuel = n + 1 := ⟨fuel - 1, by omega⟩
    have hnext : (s.hndls it).next = l₂.head? := by
      have hcell := hs.cell l₁ it l₂ hps
      simp only [cells, Option.some.injEq, Cell.mk.injEq, Ptr.ofOption_inj] at hcell
      exact hcell.1
    rw [List.head?_cons, walkSorted]
    by_cases hle : (s.hndls it).expiry ≤ e
    · have hgo := ih (hps.trans (List.append_cons _ _ _)) (Nat.lt_of_succ_lt_succ hfuel)
      rw [List.getLast?_concat] at hgo
      rw [if_pos hle, hnext, hgo, List.takeWhile_cons_of_pos (by simpa using hle),
        List.dropWhile_cons_of_pos (by simpa using hle), ← List.append_cons]
    · rw [if_neg hle, List.takeWhile_cons_of_neg (by simpa using hle),
        List.dropWhile_cons_of_neg (by simpa using hle), List.append_nil, List.head?_cons]

variable [DecidableEq H]

theorem cancel_of_notMem (hs : IsTimers s ps) (hh : h ∉ ps) : s.cancel h = s := by
  have hin : (s.hndls h).inSet = false := by
    rw [← Bool.not_eq_true, hs.inSet]
    exact hh
  simp [Timerset.cancel, hin]

section Middle

variable (hs : IsTimers s (l₁ ++ h :: l₂))
include hs

theorem cancel_head : (s.cancel h).head = if l₁.getLast? = none then l₂.head? else s.head := by
  have hin : (s.hndls h).inSet = true := (hs.inSet h).mpr (by simp)
  obtain ⟨hnext, hprev⟩ := hs.links
  simp [Timerset.cancel, hin, hnext, hprev]

theorem cancel_hndls : (s.cancel h).hndls b =
    if b = h then { s.hndls b with inSet := false, prev := none, next := none }
    else { s.hndls b with
      next := if l₁.getLast? = some b then l₂.head? else (s.hndls b).next
      prev := if l₂.head? = some b then l₁.getLast? else (s.hndls b).prev } := by
  have hin : (s.hndls h).inSet = true := (hs.inSet h).mpr (by simp)
  obtain ⟨hnext, hprev⟩ := hs.links
  have hnd := hs.linked.nodup
  have hlast : l₁.getLast? ≠ some h := getLast?_ne hnd List.mem_cons_self
  have hhead : l₂.head? ≠ some h := by
    rw [List.append_cons] at hnd
    exact head?_ne hnd (by simp)
  simp only [Timerset.cancel, hin, Bool.true_eq_false, if_false, modify_hndls, linkBefore_hndls,
    linkAfter_hndls, hnext, hprev, hlast]
  by_cases hb : b = h
  · subst hb
    simp [hlast, hhead]
  · simp only [hb, if_false]
    split_ifs <;> rfl

theorem cancel_mem : IsTimers (s.cancel h) (l₁ ++ l₂) := by
  have hnd := hs.linked.nodup
  have hnot : h ∉ l₁ ++ l₂ := (List.nodup_cons.mp (List.nodup_middle.mp hnd)).1
  have hnd' : (l₁ ++ l₂).Nodup := (List.nodup_cons.mp (List.nodup_middle.mp hnd)).2
  have hcell : ∀ b ≠ h, cells (s.cancel h) b =
      some ⟨.ofOption (if l₁.getLast? = some b then l₂.head? else (s.hndls b).next),
        .ofOption (if l₂.head? = some b then l₁.getLast? else (s.hndls b).prev)⟩ := by
    intro b hb
    simp only [cells, hs.cancel_hndls, hb, if_false]
  refine ⟨hs.linked.remove ?_ ?_ ?_, ?_, fun b => ?_⟩
  · rintro k b rfl
    have hb : b ≠ h := fun heq => hnot (heq ▸ by simp)
    have hlinks := hs
    rw [List.append_assoc] at hlinks
    rw [hcell b hb, hlinks.links.2, if_pos (by simp), if_neg (head?_ne hnd' (by simp))]
  · rintro b k rfl
    have hb : b ≠ h := fun heq => hnot (heq ▸ by simp)
    have hlinks := hs
    rw [List.append_cons] at hlinks
    rw [hcell b hb, hlinks.links.1, if_neg (getLast?_ne hnd' (by simp)), if_pos (by simp)]
  · intro b hmem hlast hhead
    have hb : b ≠ h := fun heq => hnot (heq ▸ hmem)
    have hlast' : l₁.getLast? ≠ some b := fun heq => by
      obtain ⟨k, rfl⟩ := List.getLast?_eq_some_iff.mp heq
      exact hlast k rfl
    have hhead' : l₂.head? ≠ some b := fun heq => by
      obtain ⟨k, rfl⟩ := List.head?_eq_some_iff.mp heq
      exact hhead k rfl
    rw [hcell b hb, if_neg hlast', if_neg hhead']
    rfl
  · rw [hs.cancel_head, hs.head]
    cases l₁ <;> simp
  · rw [hs.cancel_hndls]
    by_cases hb : b = h
    · subst hb
      simpa using hnot
    · simp [hb, hs.inSet]

end Middle

theorem cancel (hs : IsTimers s ps) (h : H) : IsTimers (s.cancel h) (ps.filter (· ≠ h)) := by
  by_cases hh : h ∈ ps
  · obtain ⟨l₁, l₂, rfl⟩ := List.append_of_mem hh
    have hnot := (List.nodup_cons.mp (List.nodup_middle.mp hs.linked.nodup)).1
    have hfilter : (l₁ ++ h :: l₂).filter (· ≠ h) = l₁ ++ l₂ := by
      rw [List.filter_append, List.filter_cons_of_neg (by simp), ← List.filter_append]
      exact List.filter_eq_self.mpr fun b hb => by
        simpa using fun heq : b = h => hnot (heq ▸ hb)
    rw [hfilter]
    exact hs.cancel_mem
  · have hfilter : ps.filter (· ≠ h) = ps := List.filter_eq_self.mpr fun b hb => by
      simpa using fun heq : b = h => hh (heq ▸ hb)
    rw [hs.cancel_of_notMem hh, hfilter]
    exact hs

theorem cancel_keeps (hs : IsTimers s ps) (h b : H) :
    ((s.cancel h).hndls b).expiry = (s.hndls b).expiry ∧
      ((s.cancel h).hndls b).fn = (s.hndls b).fn := by
  by_cases hh : h ∈ ps
  · obtain ⟨l₁, l₂, rfl⟩ := List.append_of_mem hh
    rw [hs.cancel_hndls]
    split_ifs <;> exact ⟨rfl, rfl⟩
  · rw [hs.cancel_of_notMem hh]
    exact ⟨rfl, rfl⟩

section Insert

variable (hs : IsTimers s (l₁ ++ l₂)) (hh : h ∉ l₁ ++ l₂)
include hs hh

theorem link_between
    (hhead : t.head = if l₁.getLast? = none then some h else s.head)
    (hself : (t.hndls h).inSet = true ∧ (t.hndls h).next = l₂.head? ∧
      (t.hndls h).prev = l₁.getLast?)
    (hother : ∀ b ≠ h, (t.hndls b).inSet = (s.hndls b).inSet ∧
      (t.hndls b).next = (if l₁.getLast? = some b then some h else (s.hndls b).next) ∧
      (t.hndls b).prev = if l₂.head? = some b then some h else (s.hndls b).prev) :
    IsTimers t (l₁ ++ h :: l₂) := by
  have hnd := hs.linked.nodup
  refine ⟨hs.linked.insert hh ?_ ?_ ?_ ?_, ?_, fun b => ?_⟩
  · simp only [cells, hself.2.1, hself.2.2]
  · rintro k b rfl
    have hb : b ≠ h := fun heq => hh (heq ▸ by simp)
    have hlinks := hs
    rw [List.append_assoc] at hlinks
    obtain ⟨-, hnext, hprev⟩ := hother b hb
    rw [if_pos (by simp)] at hnext
    rw [if_neg (head?_ne hnd (by simp)), hlinks.links.2] at hprev
    simp only [cells, hnext, hprev, Ptr.ofOption_some]
  · rintro b k rfl
    have hb : b ≠ h := fun heq => hh (heq ▸ by simp)
    obtain ⟨-, hnext, hprev⟩ := hother b hb
    rw [if_neg (getLast?_ne hnd (by simp)), hs.links.1] at hnext
    rw [if_pos (by simp)] at hprev
    simp only [cells, hnext, hprev, Ptr.ofOption_some]
  · intro b hmem hlast hfirst
    have hb : b ≠ h := fun heq => hh (heq ▸ hmem)
    obtain ⟨-, hnext, hprev⟩ := hother b hb
    rw [if_neg fun heq => (List.getLast?_eq_some_iff.mp heq).elim hlast] at hnext
    rw [if_neg fun heq => (List.head?_eq_some_iff.mp heq).elim hfirst] at hprev
    simp only [cells, hnext, hprev]
  · rw [hhead, hs.head]
    cases l₁ <;> simp
  · by_cases hb : b = h
    · subst hb
      simp [hself.1]
    · simp [(hother b hb).1, hs.inSet, hb]

end Insert

/-- INTERNAL: **a handle inserted.**  It goes after the last handle that does not expire later. -/
theorem insertSorted (hs : IsTimers s ps) (hh : h ∉ ps) {fuel : ℕ} (hfuel : ps.length < fuel) :
    ∃ t, s.insertSorted fuel h = some t ∧
      IsTimers t (ps.orderedInsert (fun a b => (s.hndls a).expiry < (s.hndls b).expiry) h) ∧
      ∀ b, (t.hndls b).expiry = (s.hndls b).expiry ∧ (t.hndls b).fn = (s.hndls b).fn := by
  rw [List.orderedInsert_eq_take_drop]
  simp only [Nat.not_lt]
  set late := (s.hndls h).expiry with hlate
  set l₁ := ps.takeWhile fun b => (s.hndls b).expiry ≤ late with hl₁
  set l₂ := ps.dropWhile fun b => (s.hndls b).expiry ≤ late with hl₂
  have hps : ps = l₁ ++ l₂ := List.takeWhile_append_dropWhile.symm
  -- the walk meets the handles of the list only, and the new one is not there
  set r := s.modify h ({ · with inSet := true, prev := none, next := none }) with hr
  have hcells : Linked (cells r) ps := hs.linked.congr fun a ha => by
    have hah : a ≠ h := fun heq => hh (heq ▸ ha)
    simp [cells, r, hah]
  have hexpiry : ∀ b, (r.hndls b).expiry = (s.hndls b).expiry := fun b => by
    rw [hr, modify_hndls]
    split_ifs <;> rfl
  have hwalk := walkSorted_eq (e := late) hcells (List.nil_append ps).symm hfuel
  simp only [List.getLast?_nil, List.nil_append, hexpiry, ← hl₁, ← hl₂] at hwalk
  have hrun : s.insertSorted fuel h =
      some (((r.modify h ({ · with prev := l₁.getLast?, next := l₂.head? })).linkAfter
        l₁.getLast? (some h)).linkBefore l₂.head? (some h)) := by
    simp only [Timerset.insertSorted, ← hr, hexpiry, ← hlate, hs.head, hwalk, Option.bind_eq_bind,
      Option.bind_some]
    rfl
  rw [hps] at hs hh
  have hlast : l₁.getLast? ≠ some h := fun heq =>
    hh (List.mem_append_left _ (List.mem_of_getLast? heq))
  have hfirst : l₂.head? ≠ some h := fun heq =>
    hh (List.mem_append_right _ (List.mem_of_head? heq))
  refine ⟨_, hrun, hs.link_between hh ?_ ?_ fun b hb => ?_, fun b => ?_⟩
  · simp [r]
  · simp [r, hlast, hfirst]
  · simp only [linkBefore_hndls, linkAfter_hndls, modify_hndls, r, if_neg hb]
    split_ifs <;> exact ⟨rfl, rfl, rfl⟩
  · simp only [linkBefore_hndls, linkAfter_hndls, modify_hndls, r]
    split_ifs <;> exact ⟨rfl, rfl⟩

/-- INTERNAL: **`mb_timerset_insert`** takes the handle out of the list, if it is there, and puts it
in again by its new expiry. -/
theorem insert (hs : IsTimers s ps) {fuel : ℕ} (hfuel : ps.length < fuel) (us : ℕ)
    (timeout : Timeout) (h : H) :
    ∃ t, s.insert fuel us timeout h = some t ∧
      IsTimers t ((ps.filter (· ≠ h)).orderedInsert
        (fun a b => (t.hndls a).expiry < (t.hndls b).expiry) h) ∧
      (t.hndls h).expiry = (mbClockMs us + timeout) % 2 ^ 64 ∧
      (∀ b ≠ h, (t.hndls b).expiry = (s.hndls b).expiry) ∧
      ∀ b, (t.hndls b).fn = (s.hndls b).fn := by
  have hcancel : (if (s.hndls h).inSet then s.cancel h else s) = s.cancel h := by
    cases hin : (s.hndls h).inSet <;> simp [Timerset.cancel, hin]
  set r := (s.cancel h).modify h ({ · with expiry := (mbClockMs us + timeout) % 2 ^ 64 }) with hr
  have hrlist : IsTimers r (ps.filter (· ≠ h)) := by
    refine (hs.cancel h).congr rfl ?_ ?_ ?_ <;> intro a <;> rw [hr, modify_hndls] <;>
      split_ifs <;> rfl
  obtain ⟨t, hrun, ht, hkeeps⟩ := hrlist.insertSorted (h := h) (by simp)
    ((List.length_filter_le _ _).trans_lt hfuel)
  have hexpiry : ∀ b, (t.hndls b).expiry = (r.hndls b).expiry := fun b => (hkeeps b).1
  simp only [← hexpiry] at ht
  refine ⟨t, ?_, ht, ?_, fun b hb => ?_, fun b => ?_⟩
  · simp only [Timerset.insert, hcancel, ← hr, hrun]
  · rw [hexpiry, hr, modify_hndls, if_pos rfl]
  · rw [hexpiry, hr, modify_hndls, if_neg hb, (hs.cancel_keeps h b).1]
  · rw [(hkeeps b).2, hr, modify_hndls, ← (hs.cancel_keeps h b).2]
    split_ifs <;> rfl

end IsTimers

end MsgBroker.Analysis.Timerset
