import MsgBroker.Analysis.GlobalTable

/-!
# Descriptors over whole runs

Calls of `mb_socket`, `mb_close` and `mb_term` one after the other.
-/

set_option autoImplicit false

namespace MsgBroker.Analysis.GlobalRuns

open Lib Model Model.Global Analysis.GlobalTable

section Calls

variable {g g' : Global}

/-! ## `mb_socket` -/

theorem term_init (hg : Settled g) (b : Bool) :
    (Global.term (Global.init b g)).table = g.table ∧
      (Global.term (Global.init b g)).nsocks = g.nsocks := by
  have hn := nsocks_init hg.toOk b
  refine ⟨?_, by rw [nsocks_term, hn]⟩
  cases ht : g.table with
  | none =>
    apply table_term
    rw [hn, hg.absent ht]
  | some t =>
    rw [term_eq_self (hn ▸ hg.pos t ht), Global.init, if_pos (by rw [ht]; rfl), ht]

variable {a : SocketArgs} {r : Except Errno Unit}

theorem mbSocket_ok {s : Fin maxSockets} (hg : Ok g)
    (h : mbSocket a g = some (.ok s, g')) :
    Settled g' ∧ g.lookup s = none ∧ (g'.termed || g'.terming) = false ∧
      g.nsocks < maxSockets ∧ g'.nsocks = g.nsocks + 1 := by
  unfold mbSocket at h
  dsimp only at h
  split at h
  · cases h
  next hflags =>
  obtain ⟨⟨res, u⟩, hcreate, hafter⟩ := Option.map_eq_some_iff.mp h
  cases res with
  | error e => cases hafter
  | ok s' =>
    cases hafter
    obtain ⟨hset, hlook⟩ := (hg.inited.init a.tableAlloc).createSocket hcreate
    rw [lookup_init] at hlook
    have hn := nsocks_init hg.inited a.tableAlloc
    obtain ⟨t, k, sock, -, hk, -, rfl⟩ := createSocket_ok hcreate
    rw [hn] at hk
    have hlt : (k : ℕ) + 1 = maxSockets - g.nsocks := hk
    refine ⟨hset, hlook, flags_init (by simpa using hflags) a.tableAlloc, by omega, ?_⟩
    show _ + 1 = _
    rw [hn]

theorem mbSocket_error {e : Errno} (hg : Ok g)
    (h : mbSocket a g = some (.error e, g')) :
    (e = .ETERM ∧ (g.termed || g.terming) = true ∧ g' = { g with inited := true }) ∨
      ((g.termed || g.terming) = false ∧ (e = .EMFILE ↔ Supported a ∧ maxSockets ≤ g.nsocks) ∧
        ¬ (Accepted a ∧ g.nsocks < maxSockets) ∧
        g' = Global.term (Global.init a.tableAlloc { g with inited := true })) := by
  unfold mbSocket at h
  dsimp only at h
  split at h
  · next hflags =>
    cases h
    exact Or.inl ⟨rfl, hflags, rfl⟩
  next hflags =>
  obtain ⟨⟨res, u⟩, hcreate, hafter⟩ := Option.map_eq_some_iff.mp h
  cases res with
  | ok s => cases hafter
  | error e' =>
    cases hafter
    obtain ⟨rfl, hfull, hacc⟩ := createSocket_error hcreate
    rw [nsocks_init hg.inited] at hfull hacc
    exact Or.inr ⟨by simpa using hflags, hfull, hacc, rfl⟩

theorem mbSocket_error_table {e : Errno} (hg : Settled g)
    (h : mbSocket a g = some (.error e, g')) :
    g'.table = g.table ∧ g'.nsocks = g.nsocks := by
  rcases mbSocket_error hg.toOk h with ⟨-, -, rfl⟩ | ⟨-, -, -, rfl⟩
  · exact ⟨rfl, rfl⟩
  · exact term_init hg.inited _

theorem mbSocket_eq_none_iff (hg : Ok g) :
    mbSocket a g = none ↔ (g.termed || g.terming) = false ∧ Supported a ∧ g.table = none ∧
      a.tableAlloc = false := by
  unfold mbSocket
  dsimp only
  split
  · next hflags => simp [hflags]
  next hflags =>
  rw [Option.map_eq_none_iff, createSocket_eq_none_iff, nsocks_init hg.inited]
  show Supported a ∧ g.nsocks < maxSockets ∧ _ ↔ _
  unfold Global.init
  cases ht : g.table with
  | none =>
    have h0 := hg.absent ht
    cases a.tableAlloc <;> simp [h0, hflags]
  | some t => simp

/-! ## `mb_close` and `mb_term` -/

theorem mbClose_cases {s : ℤ} {linger : Bool}
    (h : mbClose s linger g = some (r, g')) :
    g' = g ∨ ∃ sock u, unpublish s g = some (.ok sock, u) ∧ g' = Global.term u := by
  unfold mbClose at h
  split at h
  · cases h
  · next e u hu =>
    cases h
    exact Or.inl (unpublish_error hu)
  · next sock u hu =>
    cases h
    exact Or.inr ⟨sock, u, hu, rfl⟩

theorem Settled.mbClose {s : ℤ} {linger : Bool} (hg : Settled g)
    (h : mbClose s linger g = some (r, g')) : Settled g' := by
  rcases mbClose_cases h with rfl | ⟨sock, u, hu, rfl⟩
  · exact hg
  · exact (hg.toOk.unpublish hu).term

theorem slot_val (d : Fin maxSockets) : slot (d : ℤ) = some d := by
  unfold slot
  rw [dif_pos ⟨by omega, by exact_mod_cast d.isLt⟩]
  simp

theorem lookup_mbClose {d : Fin maxSockets} {linger : Bool}
    (hg : Settled g) (h : Global.mbClose d linger g = some (r, g')) (e : Fin maxSockets) :
    g'.lookup e = if e = d then none else g.lookup e := by
  unfold Global.mbClose at h
  split at h
  · cases h
  · next err u hu =>
    cases h
    obtain rfl := unpublish_error hu
    split
    · next hed =>
      subst hed
      -- the descriptor was not open: otherwise `mb_close` would have taken it out
      by_contra hne
      unfold unpublish at hu
      rw [slot_val] at hu
      cases ht : g'.table with
      | none => simp [lookup, ht] at hne
      | some t =>
        obtain ⟨sock, hsock⟩ := Option.ne_none_iff_exists'.mp hne
        have hsock' : t.socks e = some sock := by
          simpa [lookup, ht] using hsock
        have hle : g'.nsocks ≤ maxSockets := (hg.balanced t ht).used_le
        simp only [ht, hsock', dif_pos (And.intro (hg.pos t ht) hle)] at hu
        cases hu
    · rfl
  · next sock u hu =>
    cases h
    rw [(hg.toOk.unpublish hu).lookup_term, lookup_unpublish (slot_val d) hu]

theorem flags_mbClose {s : ℤ} {linger : Bool}
    (h : Global.mbClose s linger g = some (r, g')) :
    g'.termed = g.termed ∧ g'.terming = g.terming := by
  rcases mbClose_cases h with rfl | ⟨sock, u, hu, rfl⟩
  · exact ⟨rfl, rfl⟩
  · obtain ⟨-, -, -, -, -, -, -, -, rfl⟩ := unpublish_ok hu
    exact flags_term _

theorem closeAll_spec {linger : Fin maxSockets → Bool} {ds : List (Fin maxSockets)}
    (hg : Settled g) (h : closeAll linger ds g = some g') :
    Settled g' ∧ ∀ e, e ∈ ds ∨ g.lookup e = none → g'.lookup e = none := by
  induction ds generalizing g with
  | nil =>
    cases h
    exact ⟨hg, fun e he => he.resolve_left List.not_mem_nil⟩
  | cons d ds ih =>
    unfold closeAll at h
    split at h
    · obtain ⟨⟨r, u⟩, hclose, hrest⟩ := Option.bind_eq_some_iff.mp h
      obtain ⟨hset, hnone⟩ := ih (Settled.mbClose hg hclose) hrest
      refine ⟨hset, fun e he => hnone e ?_⟩
      rw [lookup_mbClose hg hclose]
      by_cases hed : e = d
      · exact Or.inr (if_pos hed)
      · rw [if_neg hed]
        rcases he with he | he
        · exact Or.inl ((List.mem_cons.mp he).resolve_left hed)
        · exact Or.inr he
    · next hd =>
      obtain ⟨hset, hnone⟩ := ih hg h
      refine ⟨hset, fun e he => hnone e ?_⟩
      rcases he with he | he
      · rcases List.mem_cons.mp he with rfl | he
        · exact Or.inr (Option.not_isSome_iff_eq_none.mp hd)
        · exact Or.inl he
      · exact Or.inr he

end Calls

/-! ## Runs -/

/-- What holds between calls: the table is settled, and after `mb_term` nothing is open. -/
structure Between (g : Global) : Prop extends Settled g where
  terming : g.terming = false
  termed : g.termed = true → g.nsocks = 0

theorem between_start : Between start := ⟨settled_start, rfl, nofun⟩

variable {g g' : Global}

theorem Between.socket {a : SocketArgs} {r : Except Errno (Fin maxSockets)}
    (hg : Between g) (h : mbSocket a g = some (r, g')) : Between g' := by
  cases r with
  | ok s =>
    obtain ⟨hset, -, hflags, -, -⟩ := mbSocket_ok hg.toOk h
    rw [Bool.or_eq_false_iff] at hflags
    exact ⟨hset, hflags.2, fun h1 => absurd h1 (by simp [hflags.1])⟩
  | error e =>
    obtain ⟨ht, hn⟩ := mbSocket_error_table hg.toSettled h
    refine ⟨hg.toSettled.of_eq ht hn, ?_, ?_⟩
    · rcases mbSocket_error hg.toOk h with ⟨-, -, rfl⟩ | ⟨hflags, -, -, rfl⟩
      · exact hg.terming
      · have hinit := flags_init (g := { g with inited := true }) hflags a.tableAlloc
        rw [(flags_term _).2]
        exact (Bool.or_eq_false_iff.mp hinit).2
    · rw [hn]
      rcases mbSocket_error hg.toOk h with ⟨-, -, rfl⟩ | ⟨hflags, -, -, rfl⟩
      · exact hg.termed
      · have hinit := flags_init (g := { g with inited := true }) hflags a.tableAlloc
        rw [(flags_term _).1, (Bool.or_eq_false_iff.mp hinit).1]
        exact nofun

theorem Between.close {s : ℤ} {linger : Bool} {r : Except Errno Unit}
    (hg : Between g) (h : mbClose s linger g = some (r, g')) : Between g' := by
  obtain ⟨htermed, hterming⟩ := flags_mbClose h
  refine ⟨Settled.mbClose hg.toSettled h, hterming.trans hg.terming, fun h1 => ?_⟩
  have h0 := hg.termed (htermed.symm.trans h1)
  rcases mbClose_cases h with rfl | ⟨sock, u, hu, rfl⟩
  · exact h0
  · obtain ⟨-, -, -, -, -, -, hpos, -, -⟩ := unpublish_ok hu
    omega

theorem Between.term {linger : Fin maxSockets → Bool} (hg : Between g)
    (h : mbTerm linger g = some g') : Between g' := by
  unfold mbTerm at h
  split at h
  · cases h
    exact hg
  obtain ⟨u, hall, rfl⟩ := Option.map_eq_some_iff.mp h
  have hstart : Settled { g with terming := true } := hg.toSettled.of_eq rfl rfl
  obtain ⟨hset, hnone⟩ := closeAll_spec hstart hall
  refine ⟨hset.of_eq rfl rfl, rfl, fun _ => ?_⟩
  show u.nsocks = 0
  rw [← hset.toOk.length_openDescriptors, List.length_eq_zero_iff]
  apply List.filter_eq_nil_iff.mpr
  intro d hd
  rw [hnone d (Or.inl hd)]
  exact nofun

theorem between_of_reach {ok : Global → GlobalCall → Prop}
    (h : Reach globalCalls ok g) : Between g := by
  refine h.invariant Between between_start fun s c t hs _ hstep => ?_
  cases c with
  | socket a =>
    obtain ⟨⟨r, u⟩, hcall, rfl⟩ := Option.map_eq_some_iff.mp hstep
    exact hs.socket hcall
  | close d linger =>
    obtain ⟨⟨r, u⟩, hcall, rfl⟩ := Option.map_eq_some_iff.mp hstep
    exact hs.close hcall
  | term linger => exact hs.term hstep

end MsgBroker.Analysis.GlobalRuns
