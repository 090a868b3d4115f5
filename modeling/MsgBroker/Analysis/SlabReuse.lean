import Mathlib.Data.List.Nodup
import Mathlib.Data.List.Perm.Subperm
import MsgBroker.Model.Slab

/-!
# What a slab hands out

Every block below `count` is in use, whatever the order of the frees.
-/

set_option autoImplicit false

namespace MsgBroker.Analysis.SlabReuse

open Lib Model

/-- What every call keeps in a slab of the blocks `raws`. -/
structure Inv (raws : List ℕ) (s : SlabRun) : Prop where
  freelist : s.slab.freelist = some raws
  nodup : s.live.Nodup
  ours : s.live ⊆ raws.map Slab.user
  below : ∀ raw ∈ raws.take s.slab.count, Slab.user raw ∈ s.live
  marked : ∀ raw, Slab.user raw ∈ s.live → s.hdr raw = (slabMagic, s.slab.objSize % 2 ^ 32)

theorem user_injective : Function.Injective Slab.user := fun _ _ h => Nat.add_right_cancel h

/-! ## The two calls -/

section Calls

variable {raws : List ℕ} {s : SlabRun}

theorem capacity_eq (h : s.slab.freelist = some raws) : s.slab.capacity = raws.length := by
  have hfits := s.slab.fits
  rw [h] at hfits
  exact hfits

theorem alloc_eq (h : s.slab.freelist = some raws) (hnull : 0 ∉ raws) {raw : ℕ}
    (hraw : raws[s.slab.count]? = some raw) :
    s.slab.alloc s.hdr = (some (Slab.user raw), { s.slab with count := s.slab.count + 1 },
      Function.update s.hdr raw (slabMagic, s.slab.objSize % 2 ^ 32)) := by
  have hcap := capacity_eq h
  obtain ⟨hlt, hget⟩ := List.getElem?_eq_some_iff.mp hraw
  have hne : raw ≠ 0 := by
    rintro rfl
    exact hnull (List.mem_of_getElem? hraw)
  have hzero : s.slab.capacity ≠ 0 := by omega
  have hroom : ¬s.slab.count ≥ s.slab.capacity := by omega
  have hgetD : raws.getD s.slab.count 0 = raw := by simp [hraw]
  unfold Slab.alloc
  split
  · simp_all
  · rename_i raws' heq
    obtain rfl := Option.some.inj (h.symm.trans heq)
    rw [if_neg hzero, if_neg hroom]
    dsimp only
    rw [hgetD, if_neg hne]

theorem run_alloc_eq (h : s.slab.freelist = some raws) (hnull : 0 ∉ raws) {raw : ℕ}
    (hraw : raws[s.slab.count]? = some raw) :
    s.alloc = ⟨{ s.slab with count := s.slab.count + 1 },
      Function.update s.hdr raw (slabMagic, s.slab.objSize % 2 ^ 32),
      Slab.user raw :: s.live⟩ := by
  unfold SlabRun.alloc
  rw [alloc_eq h hnull hraw]
  rfl

theorem alloc_full (h : s.slab.freelist = some raws) (hraw : raws[s.slab.count]? = none) :
    s.slab.alloc s.hdr = (none, s.slab, s.hdr) := by
  have hcap := capacity_eq h
  have hle := List.getElem?_eq_none_iff.mp hraw
  unfold Slab.alloc
  split
  · rfl
  · split
    · rfl
    · rw [if_pos (by omega)]

theorem next_eq (h : s.slab.freelist = some raws) (hnull : 0 ∉ raws) :
    s.next = raws[s.slab.count]?.map Slab.user := by
  unfold SlabRun.next
  cases hraw : raws[s.slab.count]? with
  | none =>
    rw [alloc_full h hraw]
    rfl
  | some raw =>
    rw [alloc_eq h hnull hraw]
    rfl

theorem Inv.alloc (h : Inv raws s) (hnull : 0 ∉ raws) {raw : ℕ}
    (hraw : raws[s.slab.count]? = some raw) (hfree : Slab.user raw ∉ s.live) :
    Inv raws s.alloc := by
  have hmem : raw ∈ raws := List.mem_of_getElem? hraw
  rw [run_alloc_eq h.freelist hnull hraw]
  refine ⟨h.freelist, List.nodup_cons.mpr ⟨hfree, h.nodup⟩, ?_, ?_, ?_⟩
  · exact List.cons_subset.mpr ⟨List.mem_map_of_mem hmem, h.ours⟩
  · intro raw' hraw'
    rw [List.take_add_one, hraw, List.mem_append] at hraw'
    rcases hraw' with hbelow | hthis
    · exact List.mem_cons_of_mem _ (h.below raw' hbelow)
    · obtain rfl := List.mem_singleton.mp hthis
      exact List.mem_cons_self
  · intro raw' hraw'
    by_cases heq : raw' = raw
    · rw [heq]
      exact Function.update_self ..
    · refine (Function.update_of_ne heq _ _).trans (h.marked raw' ?_)
      rcases List.mem_cons.mp hraw' with hthis | hthat
      · exact absurd (user_injective hthis) heq
      · exact hthat

theorem free_eq (h : Inv raws s) {raw : ℕ} (hlive : Slab.user raw ∈ s.live) :
    ∃ i, raws[i]? = some raw ∧ s.slab.free (Slab.user raw) s.hdr =
      (if i < s.slab.count then { s.slab with count := i } else s.slab,
        Function.update s.hdr raw (0, 0)) := by
  obtain ⟨raw', hmem, hraw'⟩ := List.mem_map.mp (h.ours hlive)
  obtain rfl := user_injective hraw'
  obtain ⟨i, hi⟩ : ∃ i, raws.findIdx? (· == raw') = some i := by
    rw [← Option.isSome_iff_exists, List.findIdx?_isSome]
    exact List.any_eq_true.mpr ⟨raw', hmem, by simp⟩
  obtain ⟨hlt, hget, -⟩ := List.findIdx?_eq_some_iff_getElem.mp hi
  refine ⟨i, List.getElem?_eq_some_iff.mpr ⟨hlt, by simpa using hget⟩, ?_⟩
  have hraw : Slab.user raw' - slabHdrSize = raw' := Nat.add_sub_cancel ..
  have hne : Slab.user raw' ≠ 0 := Nat.succ_ne_zero _
  unfold Slab.free
  split
  · simp_all [h.freelist]
  · rename_i raws' heq
    obtain rfl := Option.some.inj (h.freelist.symm.trans heq)
    rw [if_neg hne]
    dsimp only
    rw [hraw, hi]
    dsimp only
    rw [if_neg (not_not.mpr (h.marked raw' hlive))]

theorem Inv.free (h : Inv raws s) (hblocks : raws.Nodup) {obj : ℕ} (hlive : obj ∈ s.live) :
    Inv raws (s.free obj) := by
  obtain ⟨raw, -, rfl⟩ := List.mem_map.mp (h.ours hlive)
  obtain ⟨i, hi, hfree⟩ := free_eq h hlive
  have hkept : ∀ {n raw'}, n ≤ i → n ≤ s.slab.count → raw' ∈ raws.take n →
      Slab.user raw' ∈ s.live.erase (Slab.user raw) := by
    intro n raw' hni hnc hraw'
    have hne : raw' ≠ raw := by
      rintro rfl
      obtain ⟨k, hk, hget⟩ := List.mem_take_iff_getElem.mp hraw'
      obtain ⟨hlt, hget'⟩ := List.getElem?_eq_some_iff.mp hi
      have hki := (hblocks.getElem_inj_iff).mp (hget.trans hget'.symm)
      omega
    rw [h.nodup.mem_erase_iff]
    exact ⟨fun heq => hne (user_injective heq),
      h.below raw' (List.take_subset_take_left raws hnc hraw')⟩
  have hmarked : ∀ raw', Slab.user raw' ∈ s.live.erase (Slab.user raw) →
      Function.update s.hdr raw (0, 0) raw' = (slabMagic, s.slab.objSize % 2 ^ 32) := by
    intro raw' hraw'
    obtain ⟨hne, hlive'⟩ := h.nodup.mem_erase_iff.mp hraw'
    rw [Function.update_of_ne fun heq => hne (congrArg Slab.user heq)]
    exact h.marked raw' hlive'
  have hours : s.live.erase (Slab.user raw) ⊆ raws.map Slab.user :=
    List.Subset.trans List.erase_subset h.ours
  unfold SlabRun.free
  rw [hfree]
  by_cases hlt : i < s.slab.count
  · rw [if_pos hlt]
    exact ⟨h.freelist, h.nodup.erase _, hours,
      fun _ => hkept (Nat.le_refl i) (Nat.le_of_lt hlt), hmarked⟩
  · rw [if_neg hlt]
    exact ⟨h.freelist, h.nodup.erase _, hours,
      fun _ => hkept (Nat.le_of_not_lt hlt) (Nat.le_refl _), hmarked⟩

theorem compact_alloc (h : Inv raws s) (hblocks : raws.Nodup) (hnull : 0 ∉ raws)
    (hc : s.Compact) : Inv raws s.alloc ∧ s.alloc.Compact := by
  cases hraw : raws[s.slab.count]? with
  | none =>
    have hsame : s.alloc = s := by
      unfold SlabRun.alloc
      rw [alloc_full h.freelist hraw]
      rfl
    rw [hsame]
    exact ⟨h, hc⟩
  | some raw =>
    have hdrop : raws.drop s.slab.count = raw :: raws.drop (s.slab.count + 1) := by
      obtain ⟨hlt, hget⟩ := List.getElem?_eq_some_iff.mp hraw
      rw [List.drop_eq_getElem_cons hlt, hget]
    unfold SlabRun.Compact Slab.blocks at hc
    rw [h.freelist, Option.getD_some, hdrop] at hc
    refine ⟨h.alloc hnull hraw (hc raw List.mem_cons_self), ?_⟩
    have hnotin : raw ∉ raws.drop (s.slab.count + 1) := by
      have hnodup := hblocks.sublist (List.drop_sublist s.slab.count raws)
      rw [hdrop] at hnodup
      exact (List.nodup_cons.mp hnodup).1
    rw [run_alloc_eq h.freelist hnull hraw]
    unfold SlabRun.Compact Slab.blocks
    intro raw' hraw' hlive
    simp only [h.freelist, Option.getD_some] at hraw'
    rcases List.mem_cons.mp hlive with hthis | hthat
    · exact hnotin (user_injective hthis ▸ hraw')
    · exact hc raw' (List.mem_cons_of_mem _ hraw') hthat

theorem sound_of_compact (h : Inv raws s) (hblocks : raws.Nodup) (hnull : 0 ∉ raws)
    (hc : s.Compact) : s.Sound raws.length := by
  have hnext := next_eq h.freelist hnull
  unfold SlabRun.Compact Slab.blocks at hc
  rw [h.freelist, Option.getD_some] at hc
  have hsub : s.live.Subperm (raws.map Slab.user) := h.nodup.subperm h.ours
  have hle := hsub.length_le
  rw [List.length_map] at hle
  cases hraw : raws[s.slab.count]? with
  | none =>
    rw [hraw] at hnext
    have hfull : raws.map Slab.user ⊆ s.live := by
      intro obj hobj
      obtain ⟨raw, hmem, rfl⟩ := List.mem_map.mp hobj
      refine h.below raw ?_
      rwa [List.take_of_length_le (List.getElem?_eq_none_iff.mp hraw)]
    have hge := ((hblocks.map user_injective).subperm hfull).length_le
    rw [List.length_map] at hge
    refine ⟨fun obj hobj => ?_, iff_of_true hnext (by omega)⟩
    rw [hnext] at hobj
    cases hobj
  | some raw =>
    rw [hraw] at hnext
    have hfree : Slab.user raw ∉ s.live := by
      refine hc raw ?_
      rw [List.mem_drop_iff_getElem]
      obtain ⟨hlt, hget⟩ := List.getElem?_eq_some_iff.mp hraw
      exact ⟨0, by omega, by simpa using hget⟩
    refine ⟨fun obj hobj => ?_, iff_of_false (by simp [hnext]) fun hlen => ?_⟩
    · rw [hnext] at hobj
      obtain rfl := Option.some.inj hobj
      exact hfree
    · have hperm := hsub.perm_of_length_le (by simp [hlen])
      exact hfree (hperm.mem_iff.mpr (List.mem_map_of_mem (List.mem_of_getElem? hraw)))

theorem iterate_alloc (h : s.slab.freelist = some raws) (hnull : 0 ∉ raws) (n : ℕ)
    (hn : s.slab.count + n ≤ raws.length) :
    (SlabRun.alloc^[n] s).slab.freelist = some raws ∧
      (SlabRun.alloc^[n] s).slab.count = s.slab.count + n ∧
      s.live ⊆ (SlabRun.alloc^[n] s).live := by
  induction n with
  | zero => exact ⟨h, rfl, List.Subset.refl _⟩
  | succ n ih =>
    obtain ⟨hlist, hcount, hsub⟩ := ih (by omega)
    rw [Function.iterate_succ_apply']
    have hraw : raws[(SlabRun.alloc^[n] s).slab.count]? = some _ :=
      List.getElem?_eq_getElem (by omega)
    rw [run_alloc_eq hlist hnull hraw]
    exact ⟨hlist, congrArg (· + 1) hcount, List.Subset.trans hsub (List.subset_cons_self _ _)⟩

theorem compact_of_sound (h : s.slab.freelist = some raws) (hnull : 0 ∉ raws)
    (hsound : ∀ n, (SlabRun.alloc^[n] s).Sound raws.length) : s.Compact := by
  unfold SlabRun.Compact Slab.blocks
  rw [h, Option.getD_some]
  intro raw hraw hlive
  obtain ⟨i, hi, hget⟩ := List.mem_drop_iff_getElem.mp hraw
  obtain ⟨hlist, hcount, hsub⟩ := iterate_alloc h hnull i (by omega)
  have hnext := next_eq hlist hnull
  rw [hcount, List.getElem?_eq_getElem (by omega), hget] at hnext
  exact (hsound i).1 _ hnext (hsub hlive)

end Calls

/-! ## Runs -/

theorem collect_map_some (raws : List ℕ) :
    Slab.collect raws.length (raws.map some) = raws := by
  induction raws with
  | nil => rfl
  | cons raw raws ih => exact congrArg (raw :: ·) ih

theorem init_served {objSize : ℕ} {raws : List ℕ} (hne : raws.length ≠ 0)
    (h : SlabServed objSize raws.length) :
    Slab.init objSize raws.length true (raws.map some) =
      ⟨objSize, 0, raws.length, some raws, rfl⟩ := by
  unfold SlabServed at h
  have hcons : raws.isEmpty = false := by
    rw [List.isEmpty_eq_false_iff]
    exact fun hnil => hne (congrArg List.length hnil)
  unfold Slab.init
  simp only [collect_map_some]
  rw [if_neg (by omega), if_neg (by omega), if_neg (by omega), if_neg (by decide), hcons]
  rfl

theorem init_unserved {objSize capacity : ℕ} (h : capacity = 0 ∨ ¬SlabServed objSize capacity)
    (answers : List (Option ℕ)) :
    Slab.init objSize capacity true answers = .empty objSize := by
  unfold SlabServed at h
  unfold Slab.init
  split
  · rfl
  · split
    · rfl
    · rw [if_pos (by omega)]

section Runs

variable {objSize : ℕ} {raws : List ℕ} {s : SlabRun}

theorem alloc_inert (hlist : s.slab.freelist = none) : s.alloc = s ∧ s.next = none := by
  have halloc : s.slab.alloc s.hdr = (none, s.slab, s.hdr) := by
    unfold Slab.alloc
    split
    · rfl
    · rename_i heq
      exact absurd (hlist.symm.trans heq) nofun
  unfold SlabRun.alloc SlabRun.next
  rw [halloc]
  exact ⟨rfl, rfl⟩

theorem inert_of_reach (hinit : raws.length = 0 ∨ ¬SlabServed objSize raws.length)
    (h : Reach (SlabRun.system objSize raws.length raws) SlabRun.Orderly s) :
    s.slab.freelist = none ∧ s.live = [] := by
  refine h.invariant (fun s => s.slab.freelist = none ∧ s.live = []) ?_ ?_
  · refine ⟨?_, rfl⟩
    change (Slab.init _ _ _ _).freelist = none
    rw [init_unserved hinit]
    rfl
  · rintro s op s' ⟨hlist, hlive⟩ hok hstep
    cases op with
    | alloc =>
      obtain rfl := Option.some.inj hstep
      rw [(alloc_inert hlist).1]
      exact ⟨hlist, hlive⟩
    | free obj =>
      have hmem : obj ∈ s.live := hok.1
      rw [hlive] at hmem
      cases hmem

theorem inv_of_reach (hblocks : raws.Nodup) (hnull : 0 ∉ raws) (hne : raws.length ≠ 0)
    (hserved : SlabServed objSize raws.length)
    (h : Reach (SlabRun.system objSize raws.length raws) SlabRun.Orderly s) : Inv raws s := by
  refine h.invariant (Inv raws) ?_ ?_
  · have hinit : (SlabRun.system objSize raws.length raws).init =
        ⟨⟨objSize, 0, raws.length, some raws, rfl⟩, fun _ => (0, 0), []⟩ := by
      unfold SlabRun.system SlabRun.init
      rw [init_served hne hserved]
    rw [hinit]
    exact ⟨rfl, List.nodup_nil, List.nil_subset _, by simp, by simp⟩
  · intro s op s' hs hok hstep
    cases op with
    | alloc =>
      obtain rfl := Option.some.inj hstep
      exact (compact_alloc hs hblocks hnull (hok.2 rfl)).1
    | free obj =>
      obtain rfl := Option.some.inj hstep
      exact hs.free hblocks hok.1

theorem sound_iterate (h : Inv raws s) (hblocks : raws.Nodup) (hnull : 0 ∉ raws)
    (hc : s.Compact) (n : ℕ) : (SlabRun.alloc^[n] s).Sound raws.length := by
  induction n generalizing s with
  | zero => exact sound_of_compact h hblocks hnull hc
  | succ n ih =>
    obtain ⟨h', hc'⟩ := compact_alloc h hblocks hnull hc
    exact ih h' hc'

end Runs

/-- **When a slab hands out only what is free.**  A slab of `capacity` blocks is used in any
way that frees only objects in use and asks for objects only while none from a block at
`count` or above is in use.  In every state reached, the objects asked for from there on are
never in use, and `NULL` is returned exactly when `capacity` are, if and only if again no
object from a block at `count` or above is in use and `mb_slab_init` took the parameters.
SRC: slab.c:12-133 -/
theorem slab_sound_iff (objSize capacity : ℕ) (raws : List ℕ) (hlen : raws.length = capacity)
    (hblocks : raws.Nodup) (hnull : 0 ∉ raws) {s : SlabRun}
    (hreach : Reach (SlabRun.system objSize capacity raws) SlabRun.Orderly s) :
    (∀ n, (SlabRun.alloc^[n] s).Sound capacity) ↔ s.Compact ∧ SlabServed objSize capacity := by
  subst hlen
  by_cases hinit : raws.length = 0 ∨ ¬SlabServed objSize raws.length
  · obtain ⟨hlist, hlive⟩ := inert_of_reach hinit hreach
    obtain ⟨hsame, hnext⟩ := alloc_inert hlist
    have hcompact : s.Compact := fun _ _ => by simp [hlive]
    have hiter : ∀ n, SlabRun.alloc^[n] s = s := Function.iterate_fixed hsame
    constructor
    · intro hsound
      have hcap := (hsound 0).2.mp hnext
      rw [Function.iterate_zero_apply, hlive] at hcap
      exact ⟨hcompact, Or.inl hcap.symm⟩
    · rintro ⟨-, hserved⟩ n
      have hcap : raws.length = 0 := hinit.resolve_right fun h' => h' hserved
      rw [hiter n]
      exact ⟨by simp [hnext], iff_of_true hnext (by rw [hlive, hcap]; rfl)⟩
  · have hne : raws.length ≠ 0 := fun h0 => hinit (Or.inl h0)
    have hserved : SlabServed objSize raws.length := not_not.mp fun h' => hinit (Or.inr h')
    have hinv := inv_of_reach hblocks hnull hne hserved hreach
    constructor
    · intro hsound
      exact ⟨compact_of_sound hinv.freelist hnull hsound, hserved⟩
    · rintro ⟨hc, -⟩
      exact sound_iterate hinv hblocks hnull hc

/-- A slab of three objects whose frees come in any order, as long as everything above the
lowest is freed before the next allocation. -/
theorem slab_sound_three :
    ∃ s, (SlabRun.system 16 3 [100, 200, 300]).run (SlabRun.init 16 3 [100, 200, 300])
        [.alloc, .alloc, .alloc, .free 208, .free 308, .alloc] = some s ∧
      ∀ n, (SlabRun.alloc^[n] s).Sound 3 := by
  have hrun : (SlabRun.system 16 3 [100, 200, 300]).run (SlabRun.init 16 3 [100, 200, 300])
      [.alloc, .alloc, .alloc, .free 208, .free 308, .alloc] = some _ := rfl
  have hreach : Reach (SlabRun.system 16 3 [100, 200, 300]) SlabRun.Orderly _ :=
    Reach.of_run Reach.init (by decide) hrun
  refine ⟨_, hrun, (slab_sound_iff 16 3 [100, 200, 300] rfl (by decide) (by decide) hreach).mpr ?_⟩
  exact ⟨by decide, Or.inr (by decide)⟩

/-- The first of three objects is freed and asked for again; the object asked for after that
is the second, which is still in use, as are all three. -/
theorem slab_reuses_live :
    ∃ s, Reach (SlabRun.system 16 3 [100, 200, 300]) SlabRun.FreesLive s ∧
      s.next = some 208 ∧ 208 ∈ s.live ∧ s.live.length = 3 := by
  have hrun : (SlabRun.system 16 3 [100, 200, 300]).run (SlabRun.init 16 3 [100, 200, 300])
      [.alloc, .alloc, .alloc, .free 108, .alloc] = some _ := rfl
  exact ⟨_, Reach.of_run Reach.init (by decide) hrun, by decide, by decide, by decide⟩

end MsgBroker.Analysis.SlabReuse
