import MsgBroker.Analysis.EfdSpec
import MsgBroker.Analysis.MsgQueueSpec
import MsgBroker.Model.InprocSock

/-!
# No message without a readable descriptor

A peer signals the receive descriptor only when its push finds the queue empty, and it does so
without the lock of the socket, while a receiver clears the descriptor after it has taken a message
from one of several queues.
-/

set_option autoImplicit false

namespace MsgBroker.Analysis.InprocPollin

open Lib Model Model.InprocSock
open Analysis.EfdSpec Analysis.MsgQueueSpec

variable {T P μ : Type}

/-- The thread is in a call on the descriptor that it cannot leave before the flag and the
descriptor agree. -/
def Pending : InprocPc P μ → Prop
  | .signal c _ => OwesSignal c
  | .unsignal c _ => OwesUnsignal c
  | _ => False

/-- The thread is going to signal, or to ask the pipe after it has last cleared the descriptor. -/
def Due (p : P) : InprocPc P μ → Prop
  | .idle | .sendMaxmem _ _ | .push _ _ | .leave => False
  | .events true todo => p ∈ todo
  | _ => True

/-- A pipe with a message has the flag set or the descriptor readable. -/
def Served (s : InprocSock T P μ) (p : P) : Prop := (s.queues p).empty = false → Ready s.rcvfd

/-- What holds between the steps of the threads. -/
structure Inv (pipes : List P) (s : Threads T (InprocSock T P μ) (InprocPc P μ)) : Prop where
  attached : s.shared.pipes = pipes
  holds : ∀ p, ∃ l, Holds (s.shared.queues p) l
  flag : Armed s.shared.rcvfd ∨ ∃ t, Pending (s.pc t)
  queues : ∀ p ∈ pipes, Served s.shared p ∨ ∃ t, Due p (s.pc t)

/-! ## What one step can do -/

variable [DecidableEq P] {kind : EfdKind} {size : μ → UInt64}

/-- What a step of a thread can do: it goes on in its program, it works on one queue, or it makes
one access of the descriptor. -/
inductive Moves (kind : EfdKind) (size : μ → UInt64) (c : InprocPc P μ) (s : InprocSock T P μ) :
    InprocPc P μ → InprocSock T P μ → Prop where
  | quiet {c' : InprocPc P μ} (owner : Option T) :
      ¬ Pending c → (∀ p ∈ s.pipes, (s.queues p).empty = false → Due p c → Due p c') →
      Moves kind size c s c' { s with owner := owner }
  | maxmem {c' : InprocPc P μ} (p : P) : ¬ Pending c → (∀ r, Due r c → Due r c') →
      Moves kind size c s c' (s.syncMaxmem p)
  | push {p : P} {m : μ} {alloc allocNext : Bool} {r : Except Errno Bool × MsgQueue μ} :
      c = .push p m → (s.queues p).push size alloc allocNext m = some r →
      Moves kind size c s (if r.1.toOption = some true then .signal .cas .sent else .idle)
        (s.setQueue p r.2)
  | pop {p : P} {r : Option μ × MsgQueue μ} : c = .pop p → (s.queues p).pop size = some r →
      Moves kind size c s (.unsignal .store (.recvCheck p)) (s.setQueue p r.2)
  | signal {k : SignalPc} {next : AfterSignal P} {c' : InprocPc P μ} {s' : InprocSock T P μ} :
      c = .signal k next → s.signalStep kind k next = (c', s') → Moves kind size c s c' s'
  | unsignal {k : UnsignalPc} {next : AfterUnsignal P} {c' : InprocPc P μ}
      {s' : InprocSock T P μ} :
      c = .unsignal k next → s.unsignalStep kind k next = (c', s') → Moves kind size c s c' s'

theorem moves_of_program [DecidableEq T] {me : T} {act : InprocAct P μ} {c c' : InprocPc P μ}
    {s s' : InprocSock T P μ} (h : program kind size me act c s = some (c', s')) :
    Moves kind size c s c' s' := by
  unfold program at h
  split at h
  · split at h
    · cases h
      exact .quiet s.owner nofun nofun
    · cases h
      exact .quiet s.owner nofun nofun
  · cases h
    exact .maxmem _ nofun nofun
  · obtain ⟨r, hr, heq⟩ := Option.map_eq_some_iff.mp h
    cases heq
    exact .push rfl hr
  · split at h
    · cases h
      exact .quiet (some me) nofun nofun
    · cases h
  · split at h
    · cases h
      exact .quiet s.owner nofun fun _ _ _ _ => trivial
    · cases h
  · split at h
    · cases h
      exact .quiet s.owner nofun fun _ _ _ _ => trivial
    · cases h
  · cases h
    exact .quiet none nofun nofun
  · cases h
    refine .quiet s.owner nofun fun _ _ _ _ => ?_
    split <;> trivial
  · obtain ⟨r, hr, heq⟩ := Option.map_eq_some_iff.mp h
    cases heq
    exact .pop rfl hr
  · cases h
    refine .quiet s.owner nofun fun _ _ _ _ => ?_
    split <;> trivial
  · cases h
    exact .maxmem _ nofun fun _ _ => trivial
  · next again p todo =>
    cases h
    refine .quiet s.owner nofun fun q _ hne hdue => ?_
    split
    · next hempty =>
      -- the pipe that was asked has no message, so a pipe with one is still to be asked
      cases again with
      | false => trivial
      | true =>
        rcases List.mem_cons.mp hdue with rfl | htodo
        · rw [hempty] at hne
          cases hne
        · exact htodo
    · trivial
  · cases h
    exact .quiet s.owner nofun fun _ _ _ _ => trivial
  · cases h
    exact .quiet s.owner nofun fun _ _ _ hdue => absurd hdue List.not_mem_nil
  · next order =>
    split at h
    · next hperm =>
      cases h
      exact .quiet s.owner nofun fun q hq _ _ => hperm.mem_iff.mpr hq
    · cases h
  · exact .signal rfl (Option.some.inj h)
  · exact .unsignal rfl (Option.some.inj h)
  · cases h

/-! ## Step lemmas -/

section Step

variable {c c' : InprocPc P μ} {s s' : InprocSock T P μ}

omit [DecidableEq P] in
theorem signalStep_facts {k : SignalPc} {next : AfterSignal P}
    (h : s.signalStep kind k next = (c', s')) :
    s' = { s with rcvfd := (s.rcvfd.signal kind k).2 } ∧
      (Armed s.rcvfd ∨ OwesSignal k → Armed s'.rcvfd ∨ Pending c') := by
  have harmed := armed_signal kind s.rcvfd k
  unfold signalStep at h
  split at h
  · next k' fd hfd =>
    cases h
    rw [hfd] at harmed ⊢
    exact ⟨rfl, harmed⟩
  · next fd hfd =>
    cases h
    rw [hfd] at harmed ⊢
    exact ⟨rfl, fun hold => Or.inl ((harmed hold).resolve_right id)⟩

omit [DecidableEq P] in
theorem unsignalStep_facts {k : UnsignalPc} {next : AfterUnsignal P}
    (h : s.unsignalStep kind k next = (c', s')) :
    s' = { s with rcvfd := (s.rcvfd.unsignal kind k).2 } ∧ (Armed s'.rcvfd ∨ Pending c') ∧
      ∀ p, Due p c' := by
  have harmed := armed_unsignal kind s.rcvfd k
  unfold unsignalStep at h
  split at h
  · next k' fd hfd =>
    cases h
    rw [hfd] at harmed ⊢
    exact ⟨rfl, harmed, fun _ => trivial⟩
  · next fd hfd =>
    cases h
    rw [hfd] at harmed ⊢
    refine ⟨rfl, Or.inl (harmed.resolve_right id), fun p => ?_⟩
    cases next <;> trivial

theorem setQueue_cases (s : InprocSock T P μ) (q : MsgQueue μ) (p r : P) :
    ((s.setQueue p q).queues r = q ∧ r = p) ∨ (s.setQueue p q).queues r = s.queues r := by
  by_cases hr : r = p
  · subst hr
    exact Or.inl ⟨Function.update_self .., rfl⟩
  · exact Or.inr (Function.update_of_ne hr ..)

theorem Moves.flag (h : Moves kind size c s c' s') (hold : Armed s.rcvfd ∨ Pending c) :
    Armed s'.rcvfd ∨ Pending c' := by
  cases h with
  | quiet owner hpending _ => exact Or.inl (hold.resolve_right hpending)
  | maxmem p hpending _ => exact Or.inl (hold.resolve_right hpending)
  | push hc _ =>
    subst hc
    exact Or.inl (hold.resolve_right nofun)
  | pop hc _ =>
    subst hc
    exact Or.inl (hold.resolve_right nofun)
  | signal hc hstep =>
    subst hc
    exact (signalStep_facts hstep).2 hold
  | unsignal hc hstep => exact (unsignalStep_facts hstep).2.1

theorem Moves.holds (h : Moves kind size c s c' s') (hold : ∀ p, ∃ l, Holds (s.queues p) l) :
    ∀ p, ∃ l, Holds (s'.queues p) l := by
  have hset : ∀ {q : MsgQueue μ} {p : P}, (∃ l, Holds q l) →
      ∀ r, ∃ l, Holds ((s.setQueue p q).queues r) l := by
    intro q p hq r
    rcases setQueue_cases s q p r with ⟨hr, -⟩ | hr
    · rw [hr]
      exact hq
    · rw [hr]
      exact hold r
  cases h with
  | quiet owner _ _ => exact hold
  | maxmem p _ _ =>
    obtain ⟨l, hl⟩ := hold p
    exact hset ⟨l, hl.setMaxmem _⟩
  | @push p _ _ _ _ _ hr =>
    obtain ⟨l, hl⟩ := hold p
    exact hset (hl.of_push hr).1
  | @pop p _ _ hr =>
    obtain ⟨l, hl⟩ := hold p
    exact hset (hl.of_pop hr)
  | signal _ hstep =>
    obtain ⟨rfl, -⟩ := signalStep_facts hstep
    exact hold
  | unsignal _ hstep =>
    obtain ⟨rfl, -⟩ := unsignalStep_facts hstep
    exact hold

theorem Moves.due (h : Moves kind size c s c' s') (hq : ∀ p, ∃ l, Holds (s.queues p) l) {p : P}
    (hp : p ∈ s.pipes) (hold : Served s p ∨ Due p c) : Served s' p ∨ Due p c' := by
  cases h with
  | quiet owner _ hdue =>
    rcases hold with hserved | hold
    · exact Or.inl hserved
    · by_cases hne : (s.queues p).empty = false
      · exact Or.inr (hdue p hp hne hold)
      · exact Or.inl fun h => absurd h hne
  | maxmem r _ hdue =>
    rcases hold with hserved | hold
    · refine Or.inl fun hne => hserved ?_
      rcases setQueue_cases s ((s.queues r).setMaxmem (capacity s.rcvbuf)) r p with
        ⟨hp', rfl⟩ | hp'
      · rwa [syncMaxmem, hp', empty_setMaxmem] at hne
      · rwa [syncMaxmem, hp'] at hne
    · exact Or.inr (hdue p hold)
  | @push r m _ _ res hc hr =>
    subst hc
    have hserved : Served s p := hold.resolve_right id
    obtain ⟨l, hl⟩ := hq r
    by_cases hfirst : res.1.toOption = some true
    · -- the push has found the queue empty: its thread goes on to signal
      rw [if_pos hfirst]
      exact Or.inr trivial
    · refine Or.inl fun hne => hserved ?_
      rcases setQueue_cases s res.2 r p with ⟨hp', rfl⟩ | hp'
      · rw [hp'] at hne
        exact ((hl.of_push hr).2 hne).resolve_left hfirst
      · rwa [hp'] at hne
  | pop _ _ => exact Or.inr trivial
  | @signal k _ _ _ _ hstep =>
    obtain ⟨rfl, -⟩ := signalStep_facts hstep
    exact Or.inl fun _ => ready_signal kind s.rcvfd k
  | unsignal _ hstep => exact Or.inr ((unsignalStep_facts hstep).2.2 p)

theorem Moves.attached (h : Moves kind size c s c' s') : s'.pipes = s.pipes := by
  cases h with
  | quiet _ _ _ => rfl
  | maxmem _ _ _ => rfl
  | push _ _ => rfl
  | pop _ _ => rfl
  | signal _ hstep =>
    obtain ⟨rfl, -⟩ := signalStep_facts hstep
    rfl
  | unsignal _ hstep =>
    obtain ⟨rfl, -⟩ := unsignalStep_facts hstep
    rfl

theorem program_enabled [DecidableEq T] (kind : EfdKind) (size : μ → UInt64) (me : T)
    (hc : c ≠ .idle) (hq : ∀ p, ∃ l, Holds (s.queues p) l) :
    ∃ act r, program kind size me act c s = some r := by
  cases c with
  | idle => exact absurd rfl hc
  | sendMaxmem p m => exact ⟨.run, _, rfl⟩
  | push p m =>
    obtain ⟨l, hl⟩ := hq p
    refine ⟨.push true true, ?_⟩
    unfold program
    rcases hl.push size true true m with ⟨q', hpush, -⟩ | ⟨e, q', hpush, -⟩
    · exact ⟨_, Option.map_eq_some_iff.mpr ⟨_, hpush, rfl⟩⟩
    · exact ⟨_, Option.map_eq_some_iff.mpr ⟨_, hpush, rfl⟩⟩
  | body => exact ⟨.sync s.pipes, _, if_pos (List.Perm.refl _)⟩
  | recvEmpty p => exact ⟨.run, _, rfl⟩
  | pop p =>
    obtain ⟨l, hl⟩ := hq p
    refine ⟨.run, ?_⟩
    unfold program
    cases l with
    | nil => exact ⟨_, Option.map_eq_some_iff.mpr ⟨_, hl.pop_nil size, rfl⟩⟩
    | cons m l =>
      obtain ⟨q', hpop, -⟩ := hl.pop_cons size
      exact ⟨_, Option.map_eq_some_iff.mpr ⟨_, hpop, rfl⟩⟩
  | recvCheck p => exact ⟨.run, _, rfl⟩
  | recvMaxmem p => exact ⟨.run, _, rfl⟩
  | events again todo => cases todo <;> cases again <;> exact ⟨.run, _, rfl⟩
  | recheck => exact ⟨.sync s.pipes, _, if_pos (List.Perm.refl _)⟩
  | leave => exact ⟨.run, _, rfl⟩
  | signal k next => exact ⟨.run, _, rfl⟩
  | unsignal k next => exact ⟨.run, _, rfl⟩

end Step

/-! ## Runs -/

section Runs

variable [DecidableEq T] {pipes : List P} {rcvbuf rcvmaxsize : ℤ}
  {s : Threads T (InprocSock T P μ) (InprocPc P μ)}

theorem inv_start : Inv pipes (system (T := T) kind size pipes rcvbuf rcvmaxsize).init where
  attached := rfl
  holds _ := ⟨[], holds_init _⟩
  flag := Or.inl nofun
  queues _ _ := Or.inl nofun

theorem inv_of_reach (hs : Reach (system kind size pipes rcvbuf rcvmaxsize) (fun _ _ => True) s) :
    Inv pipes s := by
  apply hs.invariant (Inv pipes) inv_start
  rintro s ⟨t, act⟩ s' hinv - hstep
  obtain ⟨c', g', hprog, rfl⟩ := interleave_step hstep
  have hmoves := moves_of_program hprog
  refine ⟨hmoves.attached.trans hinv.attached, hmoves.holds hinv.holds, ?_, fun p hp => ?_⟩
  · exact owed_update hinv.flag hmoves.flag
  · exact owed_update (hinv.queues p hp) (hmoves.due hinv.holds (hinv.attached ▸ hp))

/-- **No call gets stuck**, and none leaves the chunks of a queue: whatever the other threads have
done, a thread that is in a call can take its next step.
SRC: sinproc.c:147-213, sock.c:43-60, msgqueue.c:126-233, efd.c:75-104 -/
theorem can_go_on (hs : Reach (system kind size pipes rcvbuf rcvmaxsize) (fun _ _ => True) s)
    {t : T} (ht : s.pc t ≠ .idle) :
    ∃ act s', (system kind size pipes rcvbuf rcvmaxsize).step s (t, act) = some s' := by
  obtain ⟨act, r, hr⟩ := program_enabled kind size t ht (inv_of_reach hs).holds
  exact ⟨act, _, Option.map_eq_some_iff.mpr ⟨r, hr, rfl⟩⟩

/-- **No `POLLIN` is lost on inproc pipes.**  In every interleaving of peers that send and of
threads that receive from or send on the socket, whenever no call is in progress and the queue of
an attached pipe has a message, the receive descriptor is readable.
SRC: sinproc.c:147-213, sock.c:43-60, msgqueue.c:126-233, efd.c:75-104 -/
theorem rcvfd_readable (hs : Reach (system kind size pipes rcvbuf rcvmaxsize) (fun _ _ => True) s)
    (hidle : ∀ t, s.pc t = .idle) {p : P} (hp : p ∈ pipes)
    (hmsg : (s.shared.queues p).empty = false) : s.shared.rcvfd.readable := by
  have hinv := inv_of_reach hs
  have harmed : Armed s.shared.rcvfd := by
    rcases hinv.flag with harmed | ⟨t, ht⟩
    · exact harmed
    · rw [hidle t] at ht
      exact ht.elim
  have hserved : Served s.shared p := by
    rcases hinv.queues p hp with hserved | ⟨t, ht⟩
    · exact hserved
    · rw [hidle t] at ht
      exact ht.elim
  rcases hserved hmsg with hflag | hreadable
  · exact harmed hflag
  · exact hreadable

end Runs

/-- Three threads and a socket with two pipes. -/
abbrev twoPipes := system (T := Fin 3) (P := Bool) (μ := List UInt8) .eventfd
  (fun m => UInt64.ofNat m.length) [false, true] 100 (-1)

theorem can_go_on_two_pipes :
    ∃ s, twoPipes.run twoPipes.init [(0, .send false [7] 100), (0, .run), (1, .enter)] = some s ∧
      ∃ act s', twoPipes.step s (0, act) = some s' := by
  have hrun : twoPipes.run twoPipes.init [(0, .send false [7] 100), (0, .run), (1, .enter)] =
      some _ := rfl
  exact ⟨_, hrun, can_go_on (Reach.of_run_init hrun) (by decide +kernel)⟩

/-- Two peers send on two pipes, a receiver takes the message of the first one: the descriptor is
readable for the other. -/
theorem rcvfd_readable_two_pipes :
    ∃ s, Reach twoPipes (fun _ _ => True) s ∧ (s.shared.queues false).empty = true ∧
      (s.shared.queues true).empty = false ∧ s.shared.rcvfd.readable := by
  have hrun : twoPipes.run twoPipes.init
      [(0, .send false [7] 100), (0, .run), (0, .push true true), (0, .run), (0, .run),
        (1, .send true [8] 100), (1, .run), (1, .push true true), (1, .run),
        (2, .enter), (2, .recv false), (2, .run), (2, .run), (2, .run), (2, .run), (2, .run),
        (2, .run), (2, .run), (2, .sync [false, true]), (2, .run), (2, .run), (2, .run), (2, .run),
        (2, .run)] = some _ := rfl
  have hreach := Reach.of_run_init hrun
  exact ⟨_, hreach, by decide +kernel, by decide +kernel,
    rcvfd_readable hreach (by decide +kernel) (p := true) (by decide) (by decide +kernel)⟩

end MsgBroker.Analysis.InprocPollin
