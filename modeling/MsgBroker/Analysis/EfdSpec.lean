import MsgBroker.Model.Efd

/-!
# What the accesses of an event descriptor do

A call of `mb_efd_signal` that sets the flag owes a write, and a call of `mb_efd_unsignal` that has
begun to empty the kernel object owes a look at the flag.
-/

set_option autoImplicit false

namespace MsgBroker.Analysis.EfdSpec

open Lib Model

variable (kind : EfdKind) (fd : Efd)

/-- A set flag stands for a readable descriptor. -/
def Armed (fd : Efd) : Prop := fd.signaled = true → fd.readable

/-- The flag is set, or the descriptor is readable. -/
def Ready (fd : Efd) : Prop := fd.signaled = true ∨ fd.readable

/-- The call is going to write. -/
def OwesSignal (pc : SignalPc) : Prop := pc = .write

/-- The call is going to look at the flag, or to write. -/
def OwesUnsignal (pc : UnsignalPc) : Prop := pc ≠ .store

theorem readable_writeOnce : (fd.writeOnce kind).readable := by
  unfold Efd.writeOnce Efd.readable
  cases kind with
  | event => exact Nat.one_pos
  | eventfd => exact Nat.succ_pos _
  | pipe => exact Nat.succ_pos _

theorem ready_signal (pc : SignalPc) : Ready (fd.signal kind pc).2 := by
  cases pc with
  | cas =>
    unfold Efd.signal
    dsimp only
    split
    · next h => exact Or.inl h
    · exact Or.inl rfl
  | write => exact Or.inr (readable_writeOnce kind fd)

theorem armed_signal (pc : SignalPc) (h : Armed fd ∨ OwesSignal pc) :
    Armed (fd.signal kind pc).2 ∨ (fd.signal kind pc).1.elim False OwesSignal := by
  cases pc with
  | cas =>
    unfold Efd.signal
    dsimp only
    split
    · exact Or.inl (h.resolve_right nofun)
    · exact Or.inr rfl
  | write => exact Or.inl fun _ => readable_writeOnce kind fd

theorem armed_unsignal (pc : UnsignalPc) :
    Armed (fd.unsignal kind pc).2 ∨ (fd.unsignal kind pc).1.elim False OwesUnsignal := by
  cases pc with
  | store => exact Or.inl nofun
  | read =>
    right
    show (if (fd.drain kind).1 = true then UnsignalPc.read else .load) ≠ .store
    split
    · nofun
    · nofun
  | load =>
    unfold Efd.unsignal
    dsimp only
    split
    · exact Or.inr nofun
    · next hflag => exact Or.inl fun h => absurd h hflag
  | write => exact Or.inl fun _ => readable_writeOnce kind fd

/-! ## Any number of threads -/

/-- The thread is in a call that it cannot leave before the flag and the descriptor agree. -/
def Owes : EfdPlace → Prop
  | .outside => False
  | .signal pc => OwesSignal pc
  | .unsignal pc => OwesUnsignal pc

variable {kind fd}

theorem armed_efdProgram {move : EfdMove} {place place' : EfdPlace} {fd' : Efd}
    (hstep : efdProgram kind move place fd = some (place', fd')) (h : Armed fd ∨ Owes place) :
    Armed fd' ∨ Owes place' := by
  unfold efdProgram at hstep
  split at hstep
  · cases hstep
    exact Or.inl (h.resolve_right id)
  · cases hstep
    exact Or.inl (h.resolve_right id)
  · next pc =>
    cases hstep
    refine (armed_signal kind fd pc h).imp_right fun hpc => ?_
    cases hnext : (fd.signal kind pc).1 with
    | none => rwa [hnext] at hpc
    | some pc' => rwa [hnext] at hpc
  · next pc =>
    cases hstep
    refine (armed_unsignal kind fd pc).imp_right fun hpc => ?_
    cases hnext : (fd.unsignal kind pc).1 with
    | none => rwa [hnext] at hpc
    | some pc' => rwa [hnext] at hpc
  · cases hstep

variable {T : Type} [DecidableEq T]

theorem armed_or_owed {s : Threads T Efd EfdPlace}
    (h : Reach (efdThreads T kind) (fun _ _ => True) s) :
    Armed s.shared ∨ ∃ t, Owes (s.pc t) := by
  refine h.invariant (fun s => Armed s.shared ∨ ∃ t, Owes (s.pc t)) (Or.inl nofun) ?_
  intro s l s' hinv _ hstep
  obtain ⟨place, fd, hprogram, rfl⟩ := interleave_step hstep
  exact owed_update hinv (armed_efdProgram hprogram)

/-- **No wakeup is lost.**  However the accesses of any number of threads that signal and unsignal
one descriptor are interleaved: when no call is in progress and the flag is set, the descriptor is
readable.  SRC: efd.c:18-35, 75-104 -/
theorem flag_readable {s : Threads T Efd EfdPlace}
    (h : Reach (efdThreads T kind) (fun _ _ => True) s) (hidle : ∀ t, s.pc t = .outside)
    (hflag : s.shared.signaled = true) : s.shared.readable := by
  rcases armed_or_owed h with harmed | ⟨t, howes⟩
  · exact harmed hflag
  · rw [hidle t] at howes
    exact howes.elim

/-- One thread clears the descriptor while another one signals it: the flag is set before the
`eventfd` is read, so the read takes the signal away and the clearing call writes again. -/
theorem flag_readable_after_race :
    ∃ s : Threads Bool Efd EfdPlace, Reach (efdThreads Bool .eventfd) (fun _ _ => True) s ∧
      (∀ t, s.pc t = .outside) ∧ s.shared.signaled = true ∧ s.shared.readable := by
  have hrun : ((efdThreads Bool .eventfd).run (efdThreads Bool .eventfd).init
      [(true, .unsignal), (true, .access), (false, .signal), (false, .access), (false, .access),
        (true, .access), (true, .access), (true, .access)]).map
      (fun s => (s.pc true, s.pc false, s.shared.signaled)) = some (.outside, .outside, true) := by
    decide +kernel
  obtain ⟨s, hs, heq⟩ := Option.map_eq_some_iff.mp hrun
  simp only [Prod.mk.injEq] at heq
  obtain ⟨htrue, hfalse, hflag⟩ := heq
  have hidle : ∀ t, s.pc t = .outside := Bool.forall_bool.mpr ⟨hfalse, htrue⟩
  have hreach := Reach.of_run_init hs
  exact ⟨s, hreach, hidle, hflag, flag_readable hreach hidle hflag⟩

end MsgBroker.Analysis.EfdSpec
