import MsgBroker.Analysis.MsgQueueMemory
import MsgBroker.Model.MsgQueueRun

/-!
# Runs of an inproc queue

Under positive caps every run keeps two things: the queue holds what was pushed and not popped, and
its memory is what those messages are charged with.
-/

set_option autoImplicit false

namespace MsgBroker.Analysis.MsgQueueRuns

open Lib Model Analysis.MsgQueueSpec

variable {μ : Type} {size : μ → UInt64} {s t : MsgQueueRun μ} {op : MsgQueueOp μ}

/-- What every run under positive caps keeps. -/
structure Inv (size : μ → UInt64) (s : MsgQueueRun μ) : Prop where
  charged : Charged size s.queue s.queue.messages
  fifo : s.popped ++ s.queue.messages = s.pushed

theorem inv_of {l : List μ} (h : Charged size s.queue l) (hfifo : s.popped ++ l = s.pushed) :
    Inv size s := by
  have hl := h.toHolds.messages_eq
  constructor
  · rwa [hl]
  · rwa [hl]

theorem Inv.push (h : Inv size s) (alloc allocNext : Bool) (m : μ) :
    ∃ t, MsgQueueRun.step size s (.push alloc allocNext m) = some t ∧ Inv size t ∧
      (PendingWithin s.queue →
        (PendingWithin t.queue ↔ MsgQueue.charge size m ≤ s.queue.maxmem.toNat)) := by
  have hcap := h.charged.capped
  simp only [MsgQueueRun.step]
  rcases Nat.lt_or_ge s.queue.maxmem.toNat (s.queue.mem.toNat + MsgQueue.charge size m)
    with hover | hle
  · rw [push_of_over hcap hover]
    refine ⟨_, rfl, ?_, ?_⟩
    · exact inv_of ⟨⟨h.charged.stores, h.charged.count⟩, h.charged.mem, hcap⟩ h.fifo
    · intro _
      show s.queue.checkSz (size m) ≤ s.queue.maxmem ↔ _
      rw [UInt64.le_iff_toNat_le, toNat_checkSz hcap]
      rfl
  · have hfits : MsgQueue.charge size m ≤ s.queue.maxmem.toNat := by omega
    rcases h.charged.push_of_le hle alloc allocNext with hpush | ⟨q', hpush, hcharged, hpending⟩
    · rw [hpush]
      refine ⟨_, rfl, inv_of h.charged h.fifo, ?_⟩
      intro hwithin
      exact iff_of_true hwithin hfits
    · rw [hpush]
      refine ⟨_, rfl, inv_of hcharged ?_, ?_⟩
      · show s.popped ++ (s.queue.messages ++ [m]) = s.pushed ++ [m]
        rw [← List.append_assoc, h.fifo]
      · intro hwithin
        exact iff_of_true (hpending.mpr hwithin) hfits

theorem Inv.pop (h : Inv size s) :
    ∃ t, MsgQueueRun.step size s .pop = some t ∧ Inv size t ∧
      t.queue.messages = s.queue.messages.tail ∧
      (PendingWithin t.queue ↔ PendingWithin s.queue) := by
  have hcharged := h.charged
  have hfifo := h.fifo
  simp only [MsgQueueRun.step]
  cases hl : s.queue.messages with
  | nil =>
    rw [hl] at hcharged hfifo
    rw [hcharged.toHolds.pop_nil size]
    refine ⟨_, rfl, inv_of hcharged ?_, hl, Iff.rfl⟩
    show s.popped ++ [] ++ [] = s.pushed
    rw [List.append_nil, hfifo]
  | cons m l =>
    rw [hl] at hcharged hfifo
    obtain ⟨q', hpop, hcharged', hpending⟩ := hcharged.pop_cons
    rw [hpop]
    refine ⟨_, rfl, inv_of hcharged' ?_, hcharged'.toHolds.messages_eq, hpending⟩
    show s.popped ++ [m] ++ l = s.pushed
    rw [List.append_assoc, List.singleton_append, hfifo]

theorem Inv.step (h : Inv size s) (hop : MsgQueueRun.Capped s op) :
    ∃ t, MsgQueueRun.step size s op = some t ∧ Inv size t ∧
      (PendingWithin s.queue → (PendingWithin t.queue ↔ MsgQueueRun.WithinCap size s op)) := by
  cases op with
  | push alloc allocNext m => exact h.push alloc allocNext m
  | pop =>
    obtain ⟨t, hstep, hinv, -, hpending⟩ := h.pop
    refine ⟨t, hstep, hinv, ?_⟩
    intro hwithin
    exact iff_of_true (hpending.mpr hwithin) trivial
  | setMaxmem maxmem =>
    refine ⟨_, rfl, inv_of (h.charged.setMaxmem hop) h.fifo, ?_⟩
    intro _
    exact pendingWithin_clearPending (q := { s.queue with maxmem := maxmem }) hop

theorem inv_of_reach {maxmem : UInt64} (hcap : maxmem ≠ 0)
    (h : Reach (MsgQueueRun.system size maxmem) MsgQueueRun.Capped s) : Inv size s := by
  apply h.invariant (Inv size)
  · exact inv_of (charged_init hcap) rfl
  · intro s op t hinv hop hstep
    obtain ⟨t', hstep', hinv', -⟩ := hinv.step hop
    obtain rfl : t' = t := Option.some.inj (hstep'.symm.trans hstep)
    exact hinv'

/-- **The inproc queue is a bounded first-in first-out queue**, for any sizes and any answers of
the allocations, under positive caps.  Every call returns; the messages popped and then those in
the queue are the messages pushed, in order; `mem` and `count` are those of the messages in the
queue; and a push says what the queue does with its message.
SRC: msgqueue.c:7-43, 109-233 -/
theorem queue_bounded_fifo {maxmem : UInt64} (hcap : maxmem ≠ 0)
    (h : Reach (MsgQueueRun.system size maxmem) MsgQueueRun.Capped s) :
    s.popped ++ s.queue.messages = s.pushed ∧
    s.queue.mem.toNat = (s.queue.messages.map (MsgQueue.charge size)).sum ∧
    s.queue.count = s.queue.messages.length ∧
    (∀ op, MsgQueueRun.Capped s op → ∃ t, MsgQueueRun.step size s op = some t) ∧
    ∀ alloc allocNext m, ∃ rc q', s.queue.push size alloc allocNext m = some (rc, q') ∧
      (rc = .error .EAGAIN ↔
        s.queue.maxmem.toNat < s.queue.mem.toNat + MsgQueue.charge size m) ∧
      (rc = .ok true ↔ (∃ b, rc = .ok b) ∧ s.queue.messages = []) ∧
      ∀ e, rc = .error e → q'.messages = s.queue.messages := by
  have hinv := inv_of_reach hcap h
  have hcharged := hinv.charged
  refine ⟨hinv.fifo, hcharged.mem, hcharged.count, ?_, ?_⟩
  · intro op hop
    obtain ⟨t, hstep, -⟩ := hinv.step hop
    exact ⟨t, hstep⟩
  · intro alloc allocNext m
    rcases Nat.lt_or_ge s.queue.maxmem.toNat (s.queue.mem.toNat + MsgQueue.charge size m)
      with hover | hle
    · refine ⟨_, _, push_of_over hcharged.capped hover, iff_of_true rfl hover, ?_, ?_⟩
      · exact iff_of_false nofun fun hok => nomatch hok.1
      · intro _ _
        rfl
    · have hnot : ¬ s.queue.maxmem.toNat < s.queue.mem.toNat + MsgQueue.charge size m := by omega
      rcases hcharged.push_of_le hle alloc allocNext with hpush | ⟨q', hpush, -, -⟩
      · refine ⟨_, _, hpush, iff_of_false nofun hnot, ?_, fun _ _ => rfl⟩
        exact iff_of_false nofun fun hok => nomatch hok.1
      · refine ⟨_, q', hpush, iff_of_false nofun hnot, ?_, nofun⟩
        constructor
        · intro hok
          exact ⟨⟨true, hok⟩, of_decide_eq_true (Except.ok.inj hok)⟩
        · rintro ⟨-, hnil⟩
          rw [decide_eq_true hnil]

/-- The queue with a cap of three bytes. -/
abbrev smallQueue : System (MsgQueueRun (List UInt8)) (MsgQueueOp (List UInt8)) :=
  MsgQueueRun.system (fun m => UInt64.ofNat m.length) 3

/-- An empty body and one of two bytes fill the cap; the first is popped, and a push of two bytes
is refused. -/
theorem queue_bounded_fifo_small :
    ∃ s, Reach smallQueue MsgQueueRun.Capped s ∧ s.pushed = [[], [1, 2]] ∧
      s.popped ++ s.queue.messages = [[], [1, 2]] ∧ s.queue.mem.toNat = 2 ∧
      ∃ q', s.queue.push (fun m => UInt64.ofNat m.length) true true [3, 4] =
        some (.error .EAGAIN, q') := by
  have hrun : smallQueue.run smallQueue.init
      [.push true true [], .push true true [1, 2], .pop] = some _ := rfl
  have hreach : Reach smallQueue MsgQueueRun.Capped _ :=
    Reach.of_run Reach.init (by decide) hrun
  obtain ⟨hfifo, hmem, -, -, hpush⟩ := queue_bounded_fifo (by decide) hreach
  obtain ⟨rc, q', hrc, hagain, -⟩ := hpush true true [3, 4]
  refine ⟨_, hreach, rfl, hfifo, hmem, q', ?_⟩
  rw [hrc, hagain.mpr (by decide)]

/-! ## Whether an empty queue is writable -/

theorem Inv.drain (h : Inv size s) (maxmem : UInt64) :
    ∃ u, (MsgQueueRun.system size maxmem).run s (List.replicate s.queue.count .pop) = some u ∧
      Inv size u ∧ u.queue.messages = [] ∧ (PendingWithin u.queue ↔ PendingWithin s.queue) := by
  rw [h.charged.count]
  -- the induction is on the messages left
  induction hl : s.queue.messages generalizing s with
  | nil => exact ⟨s, rfl, h, hl, Iff.rfl⟩
  | cons m l ih =>
    obtain ⟨t, hstep, hinv, htail, hpending⟩ := h.pop
    rw [hl, List.tail_cons] at htail
    obtain ⟨u, hrun, hinv', hnil, hpending'⟩ := ih hinv htail
    refine ⟨u, ?_, hinv', hnil, hpending'.trans hpending⟩
    show (MsgQueueRun.step size s .pop).bind _ = some u
    rw [hstep]
    exact hrun

theorem Inv.canPush_iff (h : Inv size s) (hnil : s.queue.messages = []) :
    s.queue.canPush = true ↔ PendingWithin s.queue := by
  have hcharged := h.charged
  rw [hnil] at hcharged
  exact hcharged.canPush_nil

/-- The calls that are given a positive cap and keep within it. -/
def Sound (size : μ → UInt64) (s : MsgQueueRun μ) (op : MsgQueueOp μ) : Prop :=
  MsgQueueRun.Capped s op ∧ MsgQueueRun.WithinCap size s op

instance (s : MsgQueueRun μ) (op : MsgQueueOp μ) : Decidable (Sound size s op) :=
  inferInstanceAs (Decidable (_ ∧ _))

/-- **An empty inproc queue is writable in every run whose calls keep within the cap, and one call
that does not is enough to break it**: after any call, once the queue has been popped empty it is
writable exactly if the call kept within the cap.
SRC: msgqueue.c:36-43, 95-107, 126-233 -/
theorem empty_queue_writable_iff {maxmem : UInt64} (hcap : maxmem ≠ 0)
    (h : Reach (MsgQueueRun.system size maxmem) (Sound size) s) :
    (s.queue.messages = [] → s.queue.canPush = true) ∧
    ∀ op, MsgQueueRun.Capped s op → ∃ t u, MsgQueueRun.step size s op = some t ∧
      (MsgQueueRun.system size maxmem).run t (List.replicate t.queue.count .pop) = some u ∧
      u.queue.messages = [] ∧
      (u.queue.canPush = true ↔ MsgQueueRun.WithinCap size s op) := by
  have hboth : Inv size s ∧ PendingWithin s.queue := by
    apply h.invariant fun s => Inv size s ∧ PendingWithin s.queue
    · exact ⟨inv_of (charged_init hcap) rfl, UInt64.zero_le⟩
    · rintro s op t ⟨hinv, hwithin⟩ ⟨hop, hfits⟩ hstep
      obtain ⟨t', hstep', hinv', hpending⟩ := hinv.step hop
      obtain rfl : t' = t := Option.some.inj (hstep'.symm.trans hstep)
      exact ⟨hinv', (hpending hwithin).mpr hfits⟩
  obtain ⟨hinv, hwithin⟩ := hboth
  constructor
  · intro hnil
    exact (hinv.canPush_iff hnil).mpr hwithin
  · intro op hop
    obtain ⟨t, hstep, hinv', hpending⟩ := hinv.step hop
    obtain ⟨u, hrun, hinvu, hnil, hpendingu⟩ := hinv'.drain maxmem
    refine ⟨t, u, hstep, hrun, hnil, ?_⟩
    rw [hinvu.canPush_iff hnil, hpendingu]
    exact hpending hwithin

/-- A push of three bytes is popped, one of two is refused while they are queued: the empty queue
is writable again. -/
theorem empty_queue_writable_small :
    ∃ s, Reach smallQueue (Sound fun m => UInt64.ofNat m.length) s ∧
      s.queue.messages = [] ∧ s.queue.pendingSz = 0 ∧ s.queue.canPush = true := by
  have hrun : smallQueue.run smallQueue.init
      [.push true true [1, 2, 3], .push true true [4, 5], .pop] = some _ := rfl
  have hreach : Reach smallQueue (Sound fun m => UInt64.ofNat m.length) _ :=
    Reach.of_run Reach.init (by decide) hrun
  exact ⟨_, hreach, rfl, rfl, (empty_queue_writable_iff (by decide) hreach).1 rfl⟩

/-- One push of four bytes into the queue with a cap of three: it is refused, the queue is empty,
and it is not writable any more. -/
theorem oversized_push_blocks :
    ∃ s, Reach smallQueue MsgQueueRun.Capped s ∧ s.queue.messages = [] ∧
      s.queue.canPush = false := by
  have hrun : smallQueue.run smallQueue.init [.push true true [1, 2, 3, 4]] = some _ := rfl
  have hreach : Reach smallQueue MsgQueueRun.Capped _ :=
    Reach.of_run Reach.init (by decide) hrun
  exact ⟨_, hreach, rfl, rfl⟩

end MsgBroker.Analysis.MsgQueueRuns
