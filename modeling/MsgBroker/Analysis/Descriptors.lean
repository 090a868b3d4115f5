import MsgBroker.Analysis.GlobalRuns

/-!
# Which descriptors are open

What follows for the callers: which descriptors `mb_socket` hands out, and where a call on a
descriptor that is not open is turned away.
-/

set_option autoImplicit false

namespace MsgBroker.Analysis.Descriptors

open Lib Model Model.Global
open Analysis.GlobalTable Analysis.GlobalRuns

/-! ## What `mb_socket` hands out -/

theorem emfile_iff {g : Global} (hg : Between g) (a : SocketArgs) :
    (∃ g', mbSocket a g = some (.error .EMFILE, g')) ↔
      Supported a ∧ g.openDescriptors.length = maxSockets := by
  rw [hg.toOk.length_openDescriptors]
  constructor
  · rintro ⟨g', h⟩
    rcases mbSocket_error hg.toOk h with ⟨he, -, -⟩ | ⟨-, hfull, -, -⟩
    · cases he
    obtain ⟨hsup, hge⟩ := hfull.mp rfl
    refine ⟨hsup, ?_⟩
    cases ht : g.table with
    | none =>
      rw [hg.absent ht] at hge
      cases hge
    | some t => exact Nat.le_antisymm (hg.balanced t ht).used_le hge
  · rintro ⟨hsup, hfull⟩
    cases hcall : mbSocket a g with
    | none =>
      obtain ⟨-, -, hnone, -⟩ := (mbSocket_eq_none_iff hg.toOk).mp hcall
      rw [hg.absent hnone] at hfull
      cases hfull
    | some r =>
      obtain ⟨res, g'⟩ := r
      cases res with
      | ok s =>
        obtain ⟨-, -, -, hlt, -⟩ := mbSocket_ok hg.toOk hcall
        omega
      | error e =>
        rcases mbSocket_error hg.toOk hcall with ⟨-, hflags, -⟩ | ⟨-, hemfile, -, -⟩
        · rw [hg.terming, Bool.or_false] at hflags
          rw [hg.termed hflags] at hfull
          cases hfull
        · obtain rfl := hemfile.mpr ⟨hsup, Nat.le_of_eq hfull.symm⟩
          exact ⟨g', rfl⟩

theorem isOpen_val (g : Global) (d : Fin maxSockets) : g.isOpen d = (g.lookup d).isSome := by
  unfold isOpen
  rw [slot_val]
  rfl

/-- **The descriptors are partitioned.**  Between the calls of every run, the free entries of
the stack and the open descriptors are all descriptors, each once, and `nsocks` counts the
open ones.  `mb_socket` never returns an open descriptor; it fails with `EMFILE` exactly
when all descriptors are open and the address family is known; and when it fails the table
is what it was.
SRC: global.c:128-182, 227-295, 297-315 -/
theorem descriptors_partition {g : Global} (hg : Reach globalCalls (fun _ _ => True) g) :
    (∀ t, g.table = some t →
      ((List.ofFn t.unused).take (maxSockets - g.nsocks) ++ g.openDescriptors).Perm
        (List.finRange maxSockets) ∧ g.nsocks = g.openDescriptors.length) ∧
    (∀ a s g', mbSocket a g = some (.ok s, g') → g.isOpen s = false) ∧
    (∀ a, (∃ g', mbSocket a g = some (.error .EMFILE, g')) ↔
      Supported a ∧ g.openDescriptors.length = maxSockets) ∧
    ∀ a e g', mbSocket a g = some (.error e, g') →
      g'.table = g.table ∧ g'.nsocks = g.nsocks := by
  have hb := between_of_reach hg
  refine ⟨fun t ht => ⟨?_, hb.toOk.length_openDescriptors.symm⟩, ?_, emfile_iff hb, ?_⟩
  · have hopen : g.openDescriptors = (slots g t).taken := openDescriptors_eq_taken ht
    rw [hopen]
    exact (hb.balanced t ht).perm
  · intro a s g' h
    obtain ⟨-, hfree, -, -, -⟩ := mbSocket_ok hb.toOk h
    rw [isOpen_val, hfree]
    rfl
  · intro a e g' h
    exact mbSocket_error_table hb.toSettled h

/-- A call for a `PAIR` socket that finds all the memory it asks for. -/
def pairCall : SocketArgs := ⟨AF_MB, 16, true, true, true⟩

theorem reach_of_calls (cs : List GlobalCall) {g : Global}
    (h : globalCalls.run start cs = some g) : Reach globalCalls (fun _ _ => True) g :=
  Reach.of_run_init h

theorem exists_open (n : ℕ) (hn : n ≤ maxSockets) :
    ∃ g, Reach globalCalls (fun _ _ => True) g ∧ g.nsocks = n ∧
      (g.termed || g.terming) = false := by
  induction n with
  | zero => exact ⟨start, Reach.init, rfl, rfl⟩
  | succ n ih =>
    obtain ⟨g, hreach, hcount, hflags⟩ := ih (by omega)
    have hb := between_of_reach hreach
    have hacc : Accepted pairCall := by decide
    cases hcall : mbSocket pairCall g with
    | none =>
      obtain ⟨-, -, -, halloc⟩ := (mbSocket_eq_none_iff hb.toOk).mp hcall
      cases halloc
    | some r =>
      obtain ⟨res, g'⟩ := r
      cases res with
      | ok s =>
        obtain ⟨-, -, hflags', -, hnext⟩ := mbSocket_ok hb.toOk hcall
        refine ⟨g', hreach.step trivial (l := .socket pairCall) ?_, by omega, hflags'⟩
        show (mbSocket pairCall g).map Prod.snd = some g'
        rw [hcall]
        rfl
      | error e =>
        rcases mbSocket_error hb.toOk hcall with ⟨-, hterm, -⟩ | ⟨-, -, hrej, -⟩
        · rw [hflags] at hterm
          cases hterm
        · exact absurd ⟨hacc, by omega⟩ hrej

/-- With all descriptors open, an unknown address family is refused before the table is
looked at. -/
theorem full_table_unknown_family :
    ∃ g, Reach globalCalls (fun _ _ => True) g ∧ g.openDescriptors.length = maxSockets ∧
      ∃ g', mbSocket ⟨99, 16, true, true, true⟩ g = some (.error .EAFNOSUPPORT, g') := by
  obtain ⟨g, hreach, hcount, hflags⟩ := exists_open maxSockets (Nat.le_refl _)
  refine ⟨g, hreach, ?_, ?_⟩
  · rw [(between_of_reach hreach).toOk.length_openDescriptors, hcount]
  · show ∃ g', (if (g.termed || g.terming) = true then _ else _) = _
    rw [hflags]
    exact ⟨_, rfl⟩

/-- The partition in a state with a table: after one `mb_socket`. -/
theorem descriptors_partition_one :
    ∃ (g : Global) (t : SockTable), globalCalls.run start [.socket pairCall] = some g ∧
      g.table = some t ∧
      ((List.ofFn t.unused).take (maxSockets - g.nsocks) ++ g.openDescriptors).Perm
        (List.finRange maxSockets) ∧ g.nsocks = g.openDescriptors.length := by
  refine ⟨_, _, rfl, rfl, ?_⟩
  exact (descriptors_partition (reach_of_calls [.socket pairCall] rfl)).1 _ rfl

/-! ## Descriptors that are not open -/

theorem slot_eq_none_iff {s : ℤ} : slot s = none ↔ s < 0 ∨ (maxSockets : ℤ) ≤ s := by
  unfold slot
  split
  · simp only [reduceCtorEq, false_iff]
    omega
  · simp only [true_iff]
    omega

theorem holdSocket_of_not_open {g : Global} {s : ℤ} (hs : g.isOpen s = false) :
    holdSocket s g =
      if slot s = none ∨ g.table.isSome then some (.error .EBADF) else none := by
  unfold holdSocket
  unfold isOpen at hs
  cases hslot : slot s with
  | none => simp
  | some d =>
    cases ht : g.table with
    | none => simp
    | some t =>
      have hnone : t.socks d = none := by
        simpa [hslot, lookup, ht] using hs
      simp [hnone]

theorem refused_ne_einval (c : ApiCall) (h : c.headerOk = false) :
    ApiReply.fails .EINVAL ≠ c.refused .EBADF := by
  cases c <;> simp [ApiCall.headerOk, ApiCall.refused] at h ⊢

/-- **When a descriptor that is not open is turned away.**  Between the calls of every run, a
call on a descriptor that is not open fails with `EBADF` (`mb_get_statistic` returns `0`)
exactly when its message header passes the test made first and the descriptor is out of
range or some socket is open.
SRC: global.c:128-182, 297-344, 1149-1165 -/
theorem not_open_refused_iff {g : Global} (hg : Reach globalCalls (fun _ _ => True) g) {s : ℤ}
    (hs : g.isOpen s = false) (c : ApiCall) :
    c.run s g = some (c.refused .EBADF) ↔
      c.headerOk = true ∧ ((s < 0 ∨ (maxSockets : ℤ) ≤ s) ∨ ∃ d, g.isOpen d = true) := by
  have hb := between_of_reach hg
  have hopen : (∃ d, g.isOpen d = true) ↔ g.table.isSome := by
    rw [hb.toSettled.isSome_table_iff]
    constructor
    · rintro ⟨d, hd⟩
      obtain ⟨e, he⟩ : ∃ e, slot d = some e := by
        apply Option.ne_none_iff_exists'.mp
        intro hnone
        simp [isOpen, hnone] at hd
      exact ⟨e, by simpa [isOpen, he] using hd⟩
    · rintro ⟨d, hd⟩
      exact ⟨d, (isOpen_val g d).trans hd⟩
  rw [hopen, ← slot_eq_none_iff]
  unfold ApiCall.run
  cases hhdr : c.headerOk with
  | false => simpa using refused_ne_einval c hhdr
  | true =>
    rw [holdSocket_of_not_open hs]
    by_cases hcond : slot s = none ∨ g.table.isSome = true
    · simp [hcond]
    · simp [hcond]

/-- With one socket open, `mb_send` on another descriptor fails with `EBADF`. -/
theorem not_open_refused_five :
    ∃ g : Global, globalCalls.run start [.socket pairCall] = some g ∧
      g.isOpen 5 = false ∧ ApiCall.run .send 5 g = some (.fails .EBADF) := by
  refine ⟨_, rfl, rfl, ?_⟩
  exact (not_open_refused_iff (reach_of_calls [.socket pairCall] rfl) rfl .send).mpr
    ⟨rfl, Or.inr ⟨0, rfl⟩⟩

/-- When the only socket has been closed, `mb_send` on its descriptor reads the table that
was freed. -/
theorem closed_descriptor_reads_table :
    ∃ g : Global, globalCalls.run start [.socket pairCall, .close 0 false] = some g ∧
      g.isOpen 0 = false ∧ ApiCall.run .send 0 g = none :=
  ⟨_, rfl, rfl, rfl⟩

end MsgBroker.Analysis.Descriptors
