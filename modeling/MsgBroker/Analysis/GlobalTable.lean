import MsgBroker.Model.Global

/-!
# The table of descriptors

What the locked regions of `mb_socket` and `mb_close` do to the table.
-/

set_option autoImplicit false

namespace MsgBroker.Analysis.GlobalTable

open Lib Model Model.Global

/-- The table and its count as a table of slots. -/
def slots (g : Global) (t : SockTable) : SlotTable maxSockets Sock :=
  ⟨t.socks, t.unused, g.nsocks⟩

/-- What holds whenever `g_self.lock` is free. -/
structure Ok (g : Global) : Prop where
  absent : g.table = none → g.nsocks = 0
  balanced : ∀ t, g.table = some t → (slots g t).Balanced

/-- What holds when no call is in progress. -/
structure Settled (g : Global) : Prop extends Ok g where
  pos : ∀ t, g.table = some t → 0 < g.nsocks

/-- The address family is one that `mb_socket` knows. -/
def Supported (a : SocketArgs) : Prop := a.domain = AF_MB ∨ a.domain = AF_MB_RAW

/-- The call has a known protocol and finds the memory it needs. -/
def Accepted (a : SocketArgs) : Prop :=
  Supported a ∧ (findSocktype a).isSome ∧ a.sockAlloc ∧ a.create

instance (a : SocketArgs) : Decidable (Supported a) := by
  unfold Supported
  infer_instance

instance (a : SocketArgs) : Decidable (Accepted a) := by
  unfold Accepted
  infer_instance

section Regions

variable {g g' : Global}

theorem Ok.of_eq (h : Ok g) (ht : g'.table = g.table) (hn : g'.nsocks = g.nsocks) : Ok g' where
  absent h0 := hn.trans (h.absent (ht.symm.trans h0))
  balanced t h0 := by
    show SlotTable.Balanced ⟨t.socks, t.unused, g'.nsocks⟩
    rw [hn]
    exact h.balanced t (ht.symm.trans h0)

theorem Settled.of_eq (h : Settled g) (ht : g'.table = g.table) (hn : g'.nsocks = g.nsocks) :
    Settled g' where
  toOk := h.toOk.of_eq ht hn
  pos t h0 := hn ▸ h.pos t (ht.symm.trans h0)

theorem Ok.inited (h : Ok g) : Ok { g with inited := true } := h.of_eq rfl rfl

theorem Settled.inited (h : Settled g) : Settled { g with inited := true } := h.of_eq rfl rfl

theorem ok_start : Ok start := ⟨fun _ => rfl, nofun⟩

theorem settled_start : Settled start := ⟨ok_start, nofun⟩

theorem nsocks_init (h : Ok g) (b : Bool) : (init b g).nsocks = g.nsocks := by
  unfold init
  split
  · rfl
  · next hnone =>
    split
    · exact (h.absent (Option.not_isSome_iff_eq_none.mp hnone)).symm
    · rfl

theorem flags_init (h : (g.termed || g.terming) = false) (b : Bool) :
    ((init b g).termed || (init b g).terming) = false := by
  unfold init
  split
  · exact h
  · split
    · rfl
    · exact h

theorem Ok.init (h : Ok g) (b : Bool) : Ok (init b g) := by
  unfold Global.init
  split
  · exact h
  · split
    · refine ⟨nofun, ?_⟩
      rintro t ⟨⟩
      exact SlotTable.balanced_empty
    · exact h

@[simp]
theorem nsocks_term (g : Global) : (term g).nsocks = g.nsocks := by
  unfold term
  split
  · rfl
  · split <;> rfl

theorem flags_term (g : Global) :
    (term g).termed = g.termed ∧ (term g).terming = g.terming := by
  unfold term
  split
  · exact ⟨rfl, rfl⟩
  · split <;> exact ⟨rfl, rfl⟩

theorem term_eq_self (h : 0 < g.nsocks) : term g = g := by
  unfold term
  split
  · rfl
  · rw [if_pos h]

theorem table_term (h : g.nsocks = 0) : (term g).table = none := by
  unfold term
  split
  · assumption
  · rw [if_neg (by omega)]

theorem Ok.term (h : Ok g) : Settled (term g) := by
  rcases Nat.eq_zero_or_pos g.nsocks with h0 | hpos
  · have hnone := table_term h0
    refine ⟨⟨fun _ => ?_, ?_⟩, ?_⟩
    · rw [nsocks_term, h0]
    · intro t ht
      rw [hnone] at ht
      cases ht
    · intro t ht
      rw [hnone] at ht
      cases ht
  · rw [term_eq_self hpos]
    exact ⟨h, fun _ _ => hpos⟩

variable {a : SocketArgs} {sock : Sock}

theorem createSocket_ok {s : Fin maxSockets}
    (h : createSocket a g = some (.ok s, g')) :
    ∃ (t : SockTable) (k : Fin maxSockets) (sock : Sock), g.table = some t ∧
      (k : ℕ) + 1 = maxSockets - g.nsocks ∧ s = t.unused k ∧
      g' = { g with
        table := some { t with socks := Function.update t.socks s (some sock) }
        nsocks := g.nsocks + 1 } := by
  unfold createSocket at h
  split at h
  · cases h
  split at h
  · cases h
  next hlt =>
  split at h
  · cases h
  next t ht =>
  dsimp only at h
  split at h
  · cases h
  next st _ =>
  split at h
  · cases h
  cases h
  exact ⟨t, ⟨maxSockets - g.nsocks - 1, by omega⟩, ⟨st, false⟩, ht,
    by dsimp only; omega, rfl, rfl⟩

theorem createSocket_error {e : Errno}
    (h : createSocket a g = some (.error e, g')) :
    g' = g ∧ (e = .EMFILE ↔ Supported a ∧ maxSockets ≤ g.nsocks) ∧ ¬ (Accepted a ∧
      g.nsocks < maxSockets) := by
  unfold createSocket at h
  split at h
  · next hdom =>
    cases h
    simp [Supported, Accepted, hdom]
  next hdom =>
  have hsup : Supported a := by
    unfold Supported
    tauto
  split at h
  · next hfull =>
    cases h
    simp [hsup, hfull]
  next hlt =>
  split at h
  · cases h
  dsimp only at h
  split at h
  · next hnone =>
    cases h
    simp [hlt, Accepted, hnone]
  split at h
  · next hmem =>
    cases h
    simp only [Bool.or_eq_true, Bool.not_eq_true'] at hmem
    refine ⟨rfl, by simp [hlt], ?_⟩
    rintro ⟨⟨_, _, halloc, hcreate⟩, _⟩
    rcases hmem with hno | hno
    · rw [hno] at halloc
      cases halloc
    · rw [hno] at hcreate
      cases hcreate
  · cases h

theorem createSocket_eq_none_iff :
    createSocket a g = none ↔ Supported a ∧ g.nsocks < maxSockets ∧ g.table = none := by
  unfold createSocket
  split
  · next hdom => simp [Supported, hdom]
  next hdom =>
  have hsup : Supported a := by
    unfold Supported
    tauto
  split
  · next hfull => simp [hfull]
  next hlt =>
  rw [Nat.not_le] at hlt
  split
  · next hnone => simp [hsup, hlt, hnone]
  next t ht =>
  refine iff_of_false ?_ (by simp [ht])
  dsimp only
  split
  · simp
  · split <;> simp

theorem Ok.createSocket {s : Fin maxSockets} (hg : Ok g)
    (h : createSocket a g = some (.ok s, g')) : Settled g' ∧ g.lookup s = none := by
  obtain ⟨t, k, sock, ht, hk, rfl, rfl⟩ := createSocket_ok h
  have hbal := hg.balanced t ht
  refine ⟨⟨⟨nofun, ?_⟩, fun _ _ => Nat.succ_pos _⟩, ?_⟩
  · rintro t' ⟨⟩
    exact hbal.put hk sock
  · show g.table.bind _ = none
    rw [ht]
    exact hbal.slots_top hk

theorem unpublish_ok {s : ℤ} (h : unpublish s g = some (.ok sock, g')) :
    ∃ (d k : Fin maxSockets) (t : SockTable), slot s = some d ∧ g.table = some t ∧
      t.socks d = some sock ∧ 0 < g.nsocks ∧ (k : ℕ) = maxSockets - g.nsocks ∧
      g' = { g with
        table := some ⟨Function.update t.socks d none, Function.update t.unused k d⟩
        nsocks := g.nsocks - 1 } := by
  unfold unpublish at h
  split at h
  · cases h
  · cases h
  next d t hd ht =>
  split at h
  · cases h
  next sock' hsock =>
  split at h
  · next hn =>
    cases h
    exact ⟨d, ⟨maxSockets - g.nsocks, by omega⟩, t, hd, ht, hsock, hn.1, rfl, rfl⟩
  · cases h

theorem unpublish_error {s : ℤ} {e : Errno} (h : unpublish s g = some (.error e, g')) :
    g' = g := by
  unfold unpublish at h
  split at h
  · cases h
    rfl
  · cases h
    rfl
  split at h
  · cases h
    rfl
  · split at h <;> cases h

theorem Ok.unpublish {s : ℤ} (hg : Ok g)
    (h : unpublish s g = some (.ok sock, g')) : Ok g' := by
  obtain ⟨d, k, t, _, ht, hsock, _, hk, rfl⟩ := unpublish_ok h
  refine ⟨nofun, ?_⟩
  rintro t' ⟨⟩
  refine (hg.balanced t ht).release hk ?_
  show t.socks d ≠ none
  simp [hsock]

/-! ## What is open -/

theorem lookup_init (b : Bool) (d : Fin maxSockets) : (Global.init b g).lookup d = g.lookup d := by
  unfold Global.init
  split
  · rfl
  next hnone =>
  split
  · show none = g.table.bind _
    rw [Option.not_isSome_iff_eq_none.mp hnone]
    rfl
  · rfl

theorem Ok.lookup_term (h : Ok g) (d : Fin maxSockets) : (Global.term g).lookup d = g.lookup d := by
  rcases Nat.eq_zero_or_pos g.nsocks with h0 | hpos
  · show (Global.term g).table.bind _ = g.table.bind _
    rw [table_term h0]
    cases ht : g.table with
    | none => rfl
    | some t => exact ((h.balanced t ht).slots_eq_none h0 d).symm
  · rw [term_eq_self hpos]

theorem lookup_unpublish {s : ℤ} {d : Fin maxSockets} (hd : slot s = some d)
    (h : unpublish s g = some (.ok sock, g')) (e : Fin maxSockets) :
    g'.lookup e = if e = d then none else g.lookup e := by
  obtain ⟨d', k, t, hd', ht, -, -, -, rfl⟩ := unpublish_ok h
  obtain rfl : d' = d := Option.some.inj (hd'.symm.trans hd)
  show Function.update t.socks d' none e = if e = d' then none else g.table.bind fun t => t.socks e
  rw [Function.update_apply, ht]
  rfl

theorem openDescriptors_eq_taken {t : SockTable} (ht : g.table = some t) :
    g.openDescriptors = (slots g t).taken := by
  simp [openDescriptors, lookup, ht, SlotTable.taken, slots]

theorem Ok.length_openDescriptors (h : Ok g) : g.openDescriptors.length = g.nsocks := by
  cases ht : g.table with
  | none =>
    rw [h.absent ht]
    simp [openDescriptors, lookup, ht]
  | some t =>
    rw [openDescriptors_eq_taken ht]
    exact (h.balanced t ht).length_taken

theorem Settled.isSome_table_iff (h : Settled g) :
    g.table.isSome ↔ ∃ d, (g.lookup d).isSome := by
  cases ht : g.table with
  | none => simp [lookup, ht]
  | some t =>
    refine iff_of_true rfl ?_
    obtain ⟨d, hd⟩ := (h.balanced t ht).exists_taken (h.pos t ht)
    refine ⟨d, ?_⟩
    show (g.table.bind _).isSome
    rw [ht]
    exact hd

end Regions

end MsgBroker.Analysis.GlobalTable
