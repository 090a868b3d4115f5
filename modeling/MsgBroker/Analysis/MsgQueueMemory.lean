import Mathlib.Algebra.GroupWithZero.Nat
import MsgBroker.Analysis.MsgQueueSpec

/-!
# What the messages of an inproc queue are charged with

Under a cap, `mem` is the sum of what the queued messages are charged with, and no sum of the code
leaves `size_t`.
-/

set_option autoImplicit false

namespace MsgBroker.Analysis.MsgQueueSpec

open Lib Model

variable {μ : Type} {size : μ → UInt64} {q q' : MsgQueue μ} {l : List μ} {alloc allocNext : Bool}
  {m : μ}

/-- A queue with a cap: `mem` is what its messages are charged with. -/
structure Charged (size : μ → UInt64) (q : MsgQueue μ) (l : List μ) : Prop extends
    Holds q l where
  mem : q.mem.toNat = (l.map (MsgQueue.charge size)).sum
  capped : q.maxmem ≠ 0

theorem toNat_checkSz (h : q.maxmem ≠ 0) (sz : UInt64) :
    (q.checkSz sz).toNat = max 1 sz.toNat := by
  have hpos : 0 < q.maxmem := UInt64.pos_iff_ne_zero.mpr h
  unfold MsgQueue.checkSz
  by_cases hz : sz = 0
  · rw [if_pos ⟨hpos, hz⟩, hz]
    rfl
  · rw [if_neg fun hand => hz hand.2]
    have hne : sz.toNat ≠ 0 := fun h0 => hz (UInt64.toNat_inj.mp h0)
    omega

theorem fitsLocked_iff (h : q.maxmem ≠ 0) (sz : UInt64) :
    q.fitsLocked sz = true ↔ q.mem.toNat + sz.toNat ≤ q.maxmem.toNat := by
  unfold MsgQueue.fitsLocked
  rw [decide_eq_false h, Bool.false_or, Bool.and_eq_true, decide_eq_true_iff, decide_eq_true_iff]
  constructor
  · rintro ⟨hle, hmem⟩
    rw [UInt64.le_iff_toNat_le, UInt64.toNat_sub_of_le _ _ hle] at hmem
    rw [UInt64.le_iff_toNat_le] at hle
    omega
  · intro hsum
    have hle : sz ≤ q.maxmem := UInt64.le_iff_toNat_le.mpr (by omega)
    refine ⟨hle, ?_⟩
    rw [UInt64.le_iff_toNat_le, UInt64.toNat_sub_of_le _ _ hle]
    omega

theorem canPushSz_iff (h : q.maxmem ≠ 0) (m : μ) :
    q.canPushSz (size m) = true ↔
      q.mem.toNat + MsgQueue.charge size m ≤ q.maxmem.toNat := by
  unfold MsgQueue.canPushSz
  rw [fitsLocked_iff h, toNat_checkSz h]
  rfl

/-- The size that failed and is remembered is one the cap allows at all. -/
def PendingWithin (q : MsgQueue μ) : Prop := q.pendingSz ≤ q.maxmem

theorem pendingWithin_clearPending (h : q.maxmem ≠ 0) :
    PendingWithin q.clearPending ↔ PendingWithin q := by
  unfold MsgQueue.clearPending
  split
  · next hfits =>
    have hle : q.pendingSz.toNat ≤ q.maxmem.toNat := by
      have hsum := (fitsLocked_iff h _).mp hfits.2
      omega
    constructor
    · intro _
      exact UInt64.le_iff_toNat_le.mpr hle
    · intro _
      exact UInt64.zero_le
  · rfl

/-- The part of a queue that is about memory. -/
def ledger (q : MsgQueue μ) : UInt64 × UInt64 × UInt64 := (q.mem, q.maxmem, q.pendingSz)

theorem ledger_allocChunk {r : Vector (Option μ) granularity × MsgQueue μ}
    (h : q.allocChunk alloc = some r) : ledger r.2 = ledger q := by
  unfold MsgQueue.allocChunk at h
  split at h
  · cases h
    rfl
  · split at h
    · cases h
      rfl
    · cases h

theorem ledger_writable (h : q.writable alloc = some q') : ledger q' = ledger q := by
  unfold MsgQueue.writable at h
  split at h
  · obtain ⟨r, hr, rfl⟩ := Option.map_eq_some_iff.mp h
    exact ledger_allocChunk hr
  · cases h
    rfl

theorem ledger_prepareNext : ledger (q.prepareNext alloc) = ledger q := by
  unfold MsgQueue.prepareNext
  split
  · split
    · next hq => exact ledger_allocChunk hq
    · rfl
  · rfl

/-- What a call that moves a message does to the memory: the sum changes as told, the cap stays,
and the remembered size stays one the cap allows, or does not. -/
structure Moved (q q' : MsgQueue μ) (mem : UInt64) : Prop where
  mem : q'.mem = mem
  maxmem : q'.maxmem = q.maxmem
  pending : PendingWithin q' ↔ PendingWithin q

theorem moved_clearPending (hcap : q.maxmem ≠ 0) : Moved q q.clearPending q.mem := by
  refine ⟨?_, ?_, pendingWithin_clearPending hcap⟩
  · unfold MsgQueue.clearPending
    split
    · rfl
    · rfl
  · unfold MsgQueue.clearPending
    split
    · rfl
    · rfl

theorem Moved.congr {q₁ q₁' : MsgQueue μ} {mem : UInt64} (h : Moved q q' mem)
    (hmax : q.maxmem = q₁.maxmem) (hpending : q.pendingSz = q₁.pendingSz)
    (h' : ledger q₁' = ledger q') : Moved q₁ q₁' mem := by
  obtain ⟨hmem', hrest⟩ := Prod.ext_iff.mp h'
  obtain ⟨hmax', hpending'⟩ := Prod.ext_iff.mp hrest
  refine ⟨hmem'.trans h.mem, hmax'.trans (h.maxmem.trans hmax), ?_⟩
  unfold PendingWithin
  show q₁'.pendingSz ≤ q₁'.maxmem ↔ q₁.pendingSz ≤ q₁.maxmem
  rw [show q₁'.pendingSz = q'.pendingSz from hpending', show q₁'.maxmem = q'.maxmem from hmax',
    ← hpending, ← hmax]
  exact h.pending

theorem moved_of_push (hcap : q.maxmem ≠ 0) {b : Bool}
    (h : q.push size alloc allocNext m = some (.ok b, q')) :
    Moved q q' (q.mem + q.checkSz (size m)) := by
  unfold MsgQueue.push at h
  dsimp only at h
  split at h
  · split at h
    · cases h
    · next q₁ hq₁ =>
      obtain ⟨store, -, hpair⟩ := Option.map_eq_some_iff.mp h
      cases hpair
      have hledger := ledger_writable hq₁
      obtain ⟨hmem, hrest⟩ := Prod.ext_iff.mp hledger
      obtain ⟨hmax, hpending⟩ := Prod.ext_iff.mp hrest
      have hcap₁ : q₁.maxmem ≠ 0 := fun hzero => hcap (hmax.symm.trans hzero)
      rw [← show q₁.mem = q.mem from hmem]
      have hmoved := moved_clearPending (q := { q₁ with
        store := store, count := q₁.count + 1, mem := q₁.mem + q.checkSz (size m) }) hcap₁
      exact hmoved.congr hmax hpending ledger_prepareNext
  · cases h

theorem moved_of_pop (hcap : q.maxmem ≠ 0) (h : q.pop size = some (some m, q')) :
    Moved q q' (q.mem - q.checkSz (size m)) := by
  unfold MsgQueue.pop at h
  split at h
  · cases h
  · obtain ⟨⟨x, y, store⟩, -, hpair⟩ := Option.map_eq_some_iff.mp h
    cases hpair
    have hmoved := moved_clearPending (q := { q with
      store := store, count := q.count - 1, mem := q.mem - q.checkSz (size m),
      cache := q.cache.or y }) hcap
    exact hmoved.congr rfl rfl rfl

theorem Charged.canPush_nil (h : Charged size q []) : q.canPush = true ↔ PendingWithin q := by
  have hmem : q.mem.toNat = 0 := h.mem
  have hpos : 0 < q.maxmem.toNat :=
    UInt64.lt_iff_toNat_lt.mp (UInt64.pos_iff_ne_zero.mpr h.capped)
  unfold MsgQueue.canPush PendingWithin
  split
  · rw [fitsLocked_iff h.capped, hmem, UInt64.le_iff_toNat_le, Nat.zero_add]
  · next hzero =>
    rw [fitsLocked_iff h.capped, hmem, not_not.mp hzero]
    exact iff_of_true hpos UInt64.zero_le

theorem charged_init {maxmem : UInt64} (hcap : maxmem ≠ 0) :
    Charged size (MsgQueue.init maxmem) [] :=
  ⟨holds_init maxmem, rfl, hcap⟩

theorem Charged.setMaxmem (h : Charged size q l) {maxmem : UInt64} (hcap : maxmem ≠ 0) :
    Charged size (q.setMaxmem maxmem) l := by
  have hmoved := moved_clearPending (q := { q with maxmem := maxmem }) hcap
  refine ⟨h.toHolds.setMaxmem maxmem, ?_, ?_⟩
  · exact (congrArg UInt64.toNat hmoved.mem).trans h.mem
  · exact fun hzero => hcap (hmoved.maxmem.symm.trans hzero)

/-- INTERNAL: **a push is refused with `-EAGAIN` exactly if the cap does not cover it**, and the
queue then only remembers the size. -/
theorem push_of_over (hcap : q.maxmem ≠ 0)
    (hover : q.maxmem.toNat < q.mem.toNat + MsgQueue.charge size m) :
    q.push size alloc allocNext m =
      some (.error .EAGAIN, { q with pendingSz := q.checkSz (size m) }) := by
  have hfits : q.fitsLocked (q.checkSz (size m)) = false := by
    rw [← Bool.not_eq_true]
    intro hroom
    have hsum := (canPushSz_iff hcap m).mp hroom
    omega
  unfold MsgQueue.push
  simp only [hfits, if_pos (UInt64.pos_iff_ne_zero.mpr hcap)]
  rfl

/-- INTERNAL: **a push the cap covers appends its message, or fails for want of a chunk and changes
nothing.** -/
theorem Charged.push_of_le (h : Charged size q l)
    (hle : q.mem.toNat + MsgQueue.charge size m ≤ q.maxmem.toNat) (alloc allocNext : Bool) :
    q.push size alloc allocNext m = some (.error .ENOMEM, q) ∨
      ∃ q', q.push size alloc allocNext m = some (.ok (decide (l = [])), q') ∧
        Charged size q' (l ++ [m]) ∧ (PendingWithin q' ↔ PendingWithin q) := by
  rcases h.toHolds.push size alloc allocNext m with ⟨q', hpush, hholds⟩ | ⟨e, q', hpush, -⟩
  · have hmoved := moved_of_push h.capped hpush
    refine Or.inr ⟨q', hpush, ⟨hholds, ?_, ?_⟩, hmoved.pending⟩
    · have hlt := q.maxmem.toNat_lt
      have hsz := toNat_checkSz h.capped (size m)
      unfold MsgQueue.charge at hle
      rw [hmoved.mem, UInt64.toNat_add, hsz, Nat.mod_eq_of_lt (by omega), h.mem]
      simp [MsgQueue.charge]
    · exact fun hzero => h.capped (hmoved.maxmem.symm.trans hzero)
  · left
    have hfits : q.fitsLocked (q.checkSz (size m)) = true := (canPushSz_iff h.capped m).mpr hle
    unfold MsgQueue.push at hpush ⊢
    simp only [hfits, if_true] at hpush ⊢
    split at hpush
    · rfl
    · next hsome =>
      obtain ⟨store, -, hpair⟩ := Option.map_eq_some_iff.mp hpush
      cases hpair

theorem Charged.pop_cons (h : Charged size q (m :: l)) :
    ∃ q', q.pop size = some (some m, q') ∧ Charged size q' l ∧
      (PendingWithin q' ↔ PendingWithin q) := by
  obtain ⟨q', hpop, hholds⟩ := h.toHolds.pop_cons size
  have hmoved := moved_of_pop h.capped hpop
  refine ⟨q', hpop, ⟨hholds, ?_, ?_⟩, hmoved.pending⟩
  · have hmem := h.mem
    have hsz := toNat_checkSz h.capped (size m)
    rw [List.map_cons, List.sum_cons] at hmem
    unfold MsgQueue.charge at hmem
    rw [hmoved.mem, UInt64.toNat_sub_of_le _ _ (UInt64.le_iff_toNat_le.mpr (by omega)), hsz, hmem]
    exact Nat.add_sub_cancel_left _ _
  · exact fun hzero => h.capped (hmoved.maxmem.symm.trans hzero)

end MsgBroker.Analysis.MsgQueueSpec
