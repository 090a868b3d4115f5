import MsgBroker.Model.MsgQueue

/-!
# What an inproc queue holds

`Holds q l` relates a queue to the list of its messages.
-/

set_option autoImplicit false

namespace MsgBroker.Analysis.MsgQueueSpec

open Lib Model

variable {μ : Type} {size : μ → UInt64} {q : MsgQueue μ} {l : List μ}

/-- The queue holds the messages of the list, in order. -/
structure Holds (q : MsgQueue μ) (l : List μ) : Prop where
  stores : q.store.Stores l
  count : q.count = l.length

theorem holds_init (maxmem : UInt64) : Holds (MsgQueue.init maxmem : MsgQueue μ) [] :=
  ⟨ChunkQueue.stores_empty, rfl⟩

theorem holds_clearPending : Holds q.clearPending l ↔ Holds q l := by
  unfold MsgQueue.clearPending
  split
  · exact ⟨fun h => ⟨h.stores, h.count⟩, fun h => ⟨h.stores, h.count⟩⟩
  · rfl

theorem Holds.setMaxmem (h : Holds q l) (maxmem : UInt64) : Holds (q.setMaxmem maxmem) l :=
  holds_clearPending.mpr ⟨h.stores, h.count⟩

theorem empty_setMaxmem (maxmem : UInt64) : (q.setMaxmem maxmem).empty = q.empty := by
  unfold MsgQueue.setMaxmem MsgQueue.clearPending
  split
  · rfl
  · rfl

theorem Holds.empty_iff (h : Holds q l) : q.empty = true ↔ l = [] := by
  unfold MsgQueue.empty
  rw [decide_eq_true_iff, h.count, List.length_eq_zero_iff]

theorem allocChunk_facts {alloc : Bool} {r : Vector (Option μ) granularity × MsgQueue μ}
    (h : q.allocChunk alloc = some r) : r.2.store = q.store ∧ r.2.count = q.count := by
  unfold MsgQueue.allocChunk at h
  split at h
  · cases h
    exact ⟨rfl, rfl⟩
  · split at h
    · cases h
      exact ⟨rfl, rfl⟩
    · cases h

theorem Holds.writable (h : Holds q l) {alloc : Bool} {q' : MsgQueue μ}
    (hq : q.writable alloc = some q') : Holds q' l ∧ ¬ q'.store.Full := by
  unfold MsgQueue.writable at hq
  split at hq
  · next hfull =>
    obtain ⟨r, hr, rfl⟩ := Option.map_eq_some_iff.mp hq
    refine ⟨⟨h.stores.addChunk hfull (by decide) r.1, ?_⟩, ?_⟩
    · exact (allocChunk_facts hr).2.trans h.count
    · rintro (hnil | hpos)
      · exact List.append_ne_nil_of_right_ne_nil _ (by simp) hnil
      · have hzero : 0 = granularity := hpos
        cases hzero
  · next hroom =>
    cases hq
    exact ⟨h, hroom⟩

theorem Holds.prepareNext (h : Holds q l) (alloc : Bool) : Holds (q.prepareNext alloc) l := by
  unfold MsgQueue.prepareNext
  split
  · next hpos =>
    split
    · next chunk q' hq =>
      exact ⟨h.stores.addChunk (Or.inr hpos) (by decide) chunk,
        (allocChunk_facts hq).2.trans h.count⟩
    · exact h
  · exact h

/-- INTERNAL: **a push appends the message and says whether it is the first, or fails and leaves the
messages alone.** -/
theorem Holds.push (h : Holds q l) (size : μ → UInt64) (alloc allocNext : Bool) (m : μ) :
    (∃ q', q.push size alloc allocNext m = some (.ok (decide (l = [])), q') ∧
      Holds q' (l ++ [m])) ∨
    ∃ e q', q.push size alloc allocNext m = some (.error e, q') ∧ Holds q' l := by
  unfold MsgQueue.push
  dsimp only
  split
  · split
    · exact Or.inr ⟨_, _, rfl, h⟩
    · next q₁ hq₁ =>
      obtain ⟨hholds, hroom⟩ := h.writable hq₁
      obtain ⟨store, hput, hstores⟩ := hholds.stores.put hroom m
      have hempty : q.empty = decide (l = []) := by
        rw [Bool.eq_iff_iff, h.empty_iff, decide_eq_true_iff]
      rw [hput, Option.map_some, hempty]
      refine Or.inl ⟨_, rfl, Holds.prepareNext ?_ allocNext⟩
      rw [holds_clearPending]
      refine ⟨hstores, ?_⟩
      show q₁.count + 1 = _
      rw [hholds.count, List.length_append, List.length_singleton]
  · refine Or.inr ⟨_, _, rfl, ?_⟩
    split
    · exact ⟨h.stores, h.count⟩
    · exact h

theorem Holds.pop_nil (h : Holds q []) (size : μ → UInt64) : q.pop size = some (none, q) :=
  if_pos h.count

theorem Holds.pop_cons {m : μ} (h : Holds q (m :: l)) (size : μ → UInt64) :
    ∃ q', q.pop size = some (some m, q') ∧ Holds q' l := by
  obtain ⟨c, store, htake, hstores⟩ := h.stores.take
  have hcount : q.count = l.length + 1 := h.count
  unfold MsgQueue.pop
  rw [if_neg (by omega), htake, Option.map_some]
  refine ⟨_, rfl, ?_⟩
  rw [holds_clearPending]
  refine ⟨hstores, ?_⟩
  show q.count - 1 = l.length
  omega

theorem Holds.of_push (h : Holds q l) {alloc allocNext : Bool} {m : μ}
    {r : Except Errno Bool × MsgQueue μ} (hr : q.push size alloc allocNext m = some r) :
    (∃ l', Holds r.2 l') ∧ (r.2.empty = false → r.1.toOption = some true ∨ q.empty = false) := by
  rcases h.push size alloc allocNext m with ⟨q', hpush, hq'⟩ | ⟨e, q', hpush, hq'⟩
  · rw [hpush] at hr
    cases hr
    refine ⟨⟨_, hq'⟩, fun _ => ?_⟩
    by_cases hl : l = []
    · left
      rw [decide_eq_true hl]
      rfl
    · right
      rw [← Bool.not_eq_true, h.empty_iff]
      exact hl
  · rw [hpush] at hr
    cases hr
    refine ⟨⟨_, hq'⟩, fun hne => Or.inr ?_⟩
    rw [← Bool.not_eq_true, hq'.empty_iff] at hne
    rw [← Bool.not_eq_true, h.empty_iff]
    exact hne

theorem Holds.of_pop (h : Holds q l) {r : Option μ × MsgQueue μ} (hr : q.pop size = some r) :
    ∃ l', Holds r.2 l' := by
  cases l with
  | nil =>
    rw [h.pop_nil size] at hr
    cases hr
    exact ⟨[], h⟩
  | cons m l =>
    obtain ⟨q', hpop, hq'⟩ := h.pop_cons size
    rw [hpop] at hr
    cases hr
    exact ⟨l, hq'⟩

theorem Holds.messages_eq (h : Holds q l) : q.messages = l := h.stores.stored_eq

end MsgBroker.Analysis.MsgQueueSpec
