import MsgBroker.Analysis.RotorSpec
import MsgBroker.Lib.Rotation
import MsgBroker.Model.RotorRun

/-!
# Bounded bypass of the load balancer and the fair queue

The `active` marks, the attempt at the head and the second probe of the whole list make no
difference to which pipe is served: if every pipe keeps to one answer for the time of a call, the
call serves the first pipe in list order that is ready, and moves it to the end.
-/

set_option autoImplicit false

namespace MsgBroker.Analysis.RotorFairness

open Lib Model

variable {π μ ε α : Type} {ready : π → Bool} {give : π → α} {log : π → ε → ε} {e : ε}
  {call : π → ε → Except Errno α × ε}

/-- The first ready pipe of the list is served and goes to its end; without one the call fails
with `-EAGAIN`. -/
inductive ServesFirst (self : Rotor π) (ready : π → Bool) (give : π → α) (log : π → ε → ε) (e : ε) :
    Except Errno (α × π) × Rotor π × ε → Prop where
  | served (l₁ : List π) (p : π) (l₂ : List π) (r : Rotor π) (hids : self.ids = l₁ ++ p :: l₂)
      (hfirst : ∀ a ∈ l₁, ready a = false) (hp : ready p = true)
      (hr : r.ids = l₁ ++ l₂ ++ [p]) :
      ServesFirst self ready give log e (.ok (give p, p), r, log p e)
  | refused (r : Rotor π) (hnone : ∀ a ∈ self.ids, ready a = false) (hr : r.ids = self.ids) :
      ServesFirst self ready give log e (.error .EAGAIN, r, e)

theorem probe_servesFirst
    (hcall : ∀ p, call p e = if ready p then (.ok (give p), log p e) else (.error .EAGAIN, e))
    (self : Rotor π) (seen rest : List (PipeData π))
    (hids : self.ids = Rotor.ids ⟨seen⟩ ++ Rotor.ids ⟨rest⟩)
    (hseen : ∀ a ∈ Rotor.ids ⟨seen⟩, ready a = false) :
    ServesFirst self ready give log e (Rotor.probe call seen rest e) := by
  induction rest generalizing seen with
  | nil =>
    rw [ids_mk_nil, List.append_nil] at hids
    exact .refused _ (hids ▸ hseen) hids.symm
  | cons d rest ih =>
    rw [ids_mk_cons] at hids
    unfold Rotor.probe
    rw [hcall]
    by_cases hd : ready d.pipe = true
    · rw [if_pos hd]
      exact .served _ _ _ _ hids hseen hd (by simp)
    · rw [if_neg hd]
      apply ih
      · simpa using hids
      · intro a ha
        rw [ids_mk_append, List.mem_append] at ha
        rcases ha with ha | ha
        · exact hseen a ha
        · rw [ids_mk_cons, ids_mk_nil, List.mem_singleton] at ha
          rw [ha]
          exact Bool.eq_false_iff.mpr hd

/-- INTERNAL: **a call serves the first ready pipe, whatever the marks are.** -/
theorem serve_servesFirst (call : π → ε → Except Errno α × ε) (ready : π → Bool) (give : π → α)
    (log : π → ε → ε) (e : ε)
    (hcall : ∀ p, call p e = if ready p then (.ok (give p), log p e) else (.error .EAGAIN, e))
    (self : Rotor π) : ServesFirst self ready give log e (self.serve call e) := by
  obtain ⟨pipes⟩ := self
  cases pipes with
  | nil => exact .refused _ (fun a ha => absurd ha List.not_mem_nil) rfl
  | cons d rest =>
    unfold Rotor.serve
    dsimp only
    split
    · rw [hcall]
      by_cases hd : ready d.pipe = true
      · -- the attempt at the head is the whole call
        rw [if_pos hd]
        exact .served [] d.pipe (Rotor.ids ⟨rest⟩) _ rfl (fun a ha => absurd ha List.not_mem_nil) hd
          (by simp)
      · rw [if_neg hd]
        exact probe_servesFirst hcall _ [] _ rfl (fun a ha => absurd ha List.not_mem_nil)
    · exact probe_servesFirst hcall _ [] _ rfl (fun a ha => absurd ha List.not_mem_nil)

variable [DecidableEq π]

theorem ServesFirst.eq_scan {self : Rotor π} {r : Except Errno (α × π) × Rotor π × ε}
    (h : ServesFirst self ready give log e r) (hnodup : self.ids.Nodup) :
    r.1 = (self.ids.find? ready).elim (.error .EAGAIN) (fun p => .ok (give p, p)) ∧
      r.2.1.ids = (scan ready self.ids).2 ∧
      r.2.2 = (self.ids.find? ready).elim e fun p => log p e := by
  cases h with
  | served l₁ p l₂ r hids hfirst hp hr =>
    have hscan := scan_of_split hids hnodup hfirst hp
    have hfind : self.ids.find? ready = some p := by
      rw [hids, List.find?_append, List.find?_eq_none.mpr (by simpa using hfirst), Option.none_or,
        List.find?_cons_of_pos hp]
    rw [hfind, hscan]
    exact ⟨rfl, hr, rfl⟩
  | refused r hnone hr =>
    have hfind : self.ids.find? ready = none := List.find?_eq_none.mpr (by simpa using hnone)
    have hscan : scan ready self.ids = (none, self.ids) := by
      unfold scan
      rw [hfind]
    rw [hfind, hscan]
    exact ⟨rfl, hr, rfl⟩

/-! ## The two functions -/

section Calls

variable {self : Rotor π}

theorem lbSend_first (hnodup : self.ids.Nodup) (ready : π → Bool) (msgs : π → μ) (msg : μ) :
    (self.lbSend RotorEnv.pipes msg (RotorEnv.start ready msgs)).1 =
        (self.ids.find? ready).elim .again (fun _ => .ok) ∧
      (self.lbSend RotorEnv.pipes msg (RotorEnv.start ready msgs)).2.1.ids =
        (scan ready self.ids).2 ∧
      (self.lbSend RotorEnv.pipes msg (RotorEnv.start ready msgs)).2.2.served =
        (self.ids.find? ready).toList := by
  have hcall (p : π) : Rotor.ofRc (RotorEnv.pipes.send p msg (RotorEnv.start ready msgs)) =
      if ready p then (.ok (), (RotorEnv.start ready msgs).serve p)
      else (.error .EAGAIN, RotorEnv.start ready msgs) := by
    show Rotor.ofRc (if ready p = true then _ else _) = _
    split
    · rfl
    · rfl
  have hfirst := serve_servesFirst (fun p e => Rotor.ofRc (RotorEnv.pipes.send p msg e)) ready
    (fun _ => ()) RotorEnv.serve _ hcall self
  obtain ⟨hres, hids, henv⟩ := hfirst.eq_scan hnodup
  unfold Rotor.lbSend
  rcases hserve : self.serve (fun p e => Rotor.ofRc (RotorEnv.pipes.send p msg e))
    (RotorEnv.start ready msgs) with ⟨res, lb, e'⟩
  rw [hserve] at hres hids henv
  subst hres henv
  cases self.ids.find? ready with
  | none => exact ⟨rfl, hids, rfl⟩
  | some p => exact ⟨rfl, hids, rfl⟩

theorem fqRecvPipe_first (hnodup : self.ids.Nodup) (ready : π → Bool) (msgs : π → μ) :
    (self.fqRecvPipe RotorEnv.pipes (RotorEnv.start ready msgs)).1 =
        (self.ids.find? ready).elim (.error .EAGAIN) (fun p => .ok (msgs p, p)) ∧
      (self.fqRecvPipe RotorEnv.pipes (RotorEnv.start ready msgs)).2.1.ids =
        (scan ready self.ids).2 ∧
      (self.fqRecvPipe RotorEnv.pipes (RotorEnv.start ready msgs)).2.2.served =
        (self.ids.find? ready).toList := by
  have hfirst := serve_servesFirst RotorEnv.pipes.recv ready msgs RotorEnv.serve
    (RotorEnv.start ready msgs) (fun _ => rfl) self
  obtain ⟨hres, hids, henv⟩ := hfirst.eq_scan hnodup
  refine ⟨hres, hids, ?_⟩
  unfold Rotor.fqRecvPipe
  rw [henv]
  cases self.ids.find? ready with
  | none => rfl
  | some p => rfl

theorem exec_eq_scan (hnodup : self.ids.Nodup) (op : RotorOp π μ) :
    (op.exec self).1 = (scan op.ready self.ids).1.toList ∧
      (op.exec self).2.ids = (scan op.ready self.ids).2 := by
  have hfind : (scan op.ready self.ids).1 = self.ids.find? op.ready := by
    unfold scan
    split
    · next hp => exact hp.symm
    · next hnone => exact hnone.symm
  rw [hfind]
  cases op with
  | lbSend r msg =>
    obtain ⟨-, hids, hserved⟩ := lbSend_first hnodup r (fun _ => msg) msg
    exact ⟨hserved, hids⟩
  | fqRecvPipe r msgs =>
    obtain ⟨-, hids, hserved⟩ := fqRecvPipe_first hnodup r msgs
    exact ⟨hserved, hids⟩

theorem run_eq_scans (hnodup : self.ids.Nodup) (ops : List (RotorOp π μ)) :
    (self.run ops).1 = (scans (ops.map RotorOp.ready) self.ids).1 ∧
      (self.run ops).2.ids = (scans (ops.map RotorOp.ready) self.ids).2 := by
  induction ops generalizing self with
  | nil => exact ⟨rfl, rfl⟩
  | cons op ops ih =>
    obtain ⟨hserved, hids⟩ := exec_eq_scan hnodup op
    have hnodup' : (op.exec self).2.ids.Nodup := by
      rw [hids]
      exact (scan_perm op.ready self.ids).nodup_iff.mpr hnodup
    obtain ⟨ih₁, ih₂⟩ := ih hnodup'
    rw [hids] at ih₁ ih₂
    constructor
    · show (op.exec self).1 ++ ((op.exec self).2.run ops).1 = _
      rw [hserved, ih₁]
      rfl
    · exact ih₂

end Calls

/-- **Load balancing and fair queueing have bounded bypass.**  On every list of pipes, with any
marks: a call of `mb_lb_send` or `mb_fq_recv_pipe` serves the first ready pipe in list order and
moves it to the end, and fails with `-EAGAIN` if there is none; any sequence of calls permutes the
list; and a pipe `p` that is ready at every call is served within as many calls as there are pipes,
all of which succeed, and no pipe is served twice before it.
SRC: lb.c:67-112, fq.c:68-118 -/
theorem bounded_bypass (self : Rotor π) (hnodup : self.ids.Nodup) :
    (∀ ready (msgs : π → μ) msg,
      (self.lbSend RotorEnv.pipes msg (RotorEnv.start ready msgs)).1 =
          (self.ids.find? ready).elim .again (fun _ => .ok) ∧
        (self.lbSend RotorEnv.pipes msg (RotorEnv.start ready msgs)).2.2.served =
          (self.ids.find? ready).toList ∧
        (self.lbSend RotorEnv.pipes msg (RotorEnv.start ready msgs)).2.1.ids =
          (self.ids.find? ready).elim self.ids (fun p => self.ids.erase p ++ [p])) ∧
    (∀ ready (msgs : π → μ),
      (self.fqRecvPipe RotorEnv.pipes (RotorEnv.start ready msgs)).1 =
          (self.ids.find? ready).elim (.error .EAGAIN) (fun p => .ok (msgs p, p)) ∧
        (self.fqRecvPipe RotorEnv.pipes (RotorEnv.start ready msgs)).2.2.served =
          (self.ids.find? ready).toList ∧
        (self.fqRecvPipe RotorEnv.pipes (RotorEnv.start ready msgs)).2.1.ids =
          (self.ids.find? ready).elim self.ids (fun p => self.ids.erase p ++ [p])) ∧
    ∀ ops : List (RotorOp π μ), (self.run ops).2.ids.Perm self.ids ∧
      ∀ p ∈ self.ids, (∀ op ∈ ops, op.ready p = true) →
        (self.run ops).1.length = ops.length ∧
        ((self.run ops).1.takeWhile (· ≠ p)).Nodup ∧
        (self.ids.length ≤ ops.length → p ∈ (self.run ops).1) := by
  have hscan (ready : π → Bool) : (scan ready self.ids).2 =
      (self.ids.find? ready).elim self.ids fun p => self.ids.erase p ++ [p] := by
    unfold scan
    cases self.ids.find? ready with
    | none => rfl
    | some p => rfl
  refine ⟨?_, ?_, ?_⟩
  · intro ready msgs msg
    obtain ⟨hrc, hids, hserved⟩ := lbSend_first hnodup ready msgs msg
    exact ⟨hrc, hserved, hids.trans (hscan ready)⟩
  · intro ready msgs
    obtain ⟨hres, hids, hserved⟩ := fqRecvPipe_first hnodup ready msgs
    exact ⟨hres, hserved, hids.trans (hscan ready)⟩
  · intro ops
    obtain ⟨hserved, hids⟩ := run_eq_scans hnodup ops
    rw [hserved, hids]
    refine ⟨scans_perm _ _, ?_⟩
    intro p hp hready
    have hscans : ∀ r ∈ ops.map RotorOp.ready, r p = true := by simpa using hready
    obtain ⟨hlen, hnd, hin⟩ := bypass hnodup hp hscans
    rw [List.length_map] at hlen hin
    exact ⟨hlen, hnd, hin⟩

/-- Three pipes, the last of which is always ready while the other two come and go: it is served by
the third call. -/
theorem bounded_bypass_three :
    2 ∈ (Rotor.run [.lbSend (fun _ => true) "a", .lbSend (fun p => p != 0) "b",
      .lbSend (fun _ => true) "c"] (⟨[⟨0, true⟩, ⟨1, false⟩, ⟨2, true⟩]⟩ : Rotor ℕ)).1 := by
  have hnodup : (⟨[⟨0, true⟩, ⟨1, false⟩, ⟨2, true⟩]⟩ : Rotor ℕ).ids.Nodup := by decide
  obtain ⟨-, -, hruns⟩ := bounded_bypass (μ := String) _ hnodup
  obtain ⟨-, hfair⟩ := hruns [.lbSend (fun _ => true) "a", .lbSend (fun p => p != 0) "b",
    .lbSend (fun _ => true) "c"]
  obtain ⟨-, -, hserved⟩ := hfair 2 (by decide) (by simp [RotorOp.ready])
  exact hserved (by decide)

end MsgBroker.Analysis.RotorFairness
