import MsgBroker.Lib.WordSet
import MsgBroker.Model.Trie

/-!
# The trie as a set of strings

`Counts n S` says that the tree below `n` stands for the set `S`: the count of `n` is the size of
`S`, its mark says whether `S` has the empty string, and the child of a byte stands for what follows
that byte in `S`.
-/

set_option autoImplicit false

namespace MsgBroker.Analysis.TrieSpec

open Lib Model Lib.WordSet

/-- The tree below the node stands for the set. -/
inductive Counts : TrieNode → Finset (List UInt8) → Prop
  | mk {n : TrieNode} {S : Finset (List UInt8)} (count : n.refcount.toNat = S.card)
      (mark : n.subscribed = true ↔ [] ∈ S)
      (absent : ∀ b, n.children b = none → tails b S = ∅)
      (present : ∀ b child, n.children b = some child → Counts child (tails b S)) : Counts n S

/-- Every node of the path is there. -/
def HasPath : List UInt8 → TrieNode → Prop
  | [], _ => True
  | b :: bytes, n => ∃ child, n.children b = some child ∧ HasPath bytes child

section

variable {n : TrieNode} {S : Finset (List UInt8)}

theorem Counts.count (h : Counts n S) : n.refcount.toNat = S.card := by
  cases h with | mk count _ _ _ => exact count

theorem Counts.mark (h : Counts n S) : n.subscribed = true ↔ [] ∈ S := by
  cases h with | mk _ mark _ _ => exact mark

theorem Counts.absent (h : Counts n S) {b : UInt8} (hb : n.children b = none) :
    tails b S = ∅ := by
  cases h with | mk _ _ absent _ => exact absent b hb

theorem Counts.present (h : Counts n S) {b : UInt8} {child : TrieNode}
    (hb : n.children b = some child) : Counts child (tails b S) := by
  cases h with | mk _ _ _ present => exact present b child hb

theorem fresh_counts : Counts .fresh ∅ := by
  refine ⟨rfl, by simp [TrieNode.fresh], fun b _ => tails_empty b, fun b child hb => ?_⟩
  cases hb

theorem Counts.update {n' : TrieNode} {S' : Finset (List UInt8)} (h : Counts n S) (b : UInt8)
    (child : Option TrieNode) (hchildren : n'.children = Function.update n.children b child)
    (count : n'.refcount.toNat = S'.card) (mark : n'.subscribed = true ↔ [] ∈ S')
    (hsame : ∀ b', b' ≠ b → tails b' S' = tails b' S)
    (hnone : child = none → tails b S' = ∅)
    (hsome : ∀ c, child = some c → Counts c (tails b S')) : Counts n' S' := by
  refine ⟨count, mark, fun b' hb' => ?_, fun b' c hb' => ?_⟩
  all_goals
    rw [hchildren] at hb'
    by_cases heq : b' = b
  · subst heq
    rw [Function.update_self] at hb'
    exact hnone hb'
  · rw [Function.update_of_ne heq] at hb'
    rw [hsame b' heq]
    exact h.absent hb'
  · subst heq
    rw [Function.update_self] at hb'
    exact hsome c hb'
  · rw [Function.update_of_ne heq] at hb'
    rw [hsame b' heq]
    exact h.present hb'

/-! ## Looking up -/

theorem trieMatch_iff (h : Counts n S) (m : List UInt8) :
    n.trieMatch m = true ↔ Starts S m := by
  induction m generalizing n S with
  | nil => exact h.mark.trans starts_nil.symm
  | cons b m ih =>
    rw [starts_cons, ← h.mark]
    unfold TrieNode.trieMatch
    split
    · simp_all
    · rename_i hmark
      simp only [hmark, Bool.false_eq_true, false_or]
      split
      · rename_i hb
        rw [h.absent hb]
        exact iff_of_false (by simp_all) (not_starts_empty m)
      · rename_i child hb
        exact ih (h.present hb)

theorem subscribedAt_iff (h : Counts n S) (w : List UInt8) :
    n.subscribedAt w = true ↔ w ∈ S := by
  induction w generalizing n S with
  | nil => exact h.mark
  | cons b w ih =>
    rw [← mem_tails]
    unfold TrieNode.subscribedAt
    split
    · rename_i child hb
      exact ih (h.present hb)
    · rename_i hb
      rw [h.absent hb]
      simp

/-! ## Adding -/

theorem ensure_counts (h : Counts n S) (answers : List Bool) (w : List UInt8) :
    Counts (n.ensure answers w).2 S := by
  induction w generalizing answers n S with
  | nil => exact h
  | cons b w ih =>
    have keep : ∀ child, Counts child (tails b S) → Counts (n.setChild b (some child)) S := by
      intro child hchild
      refine h.update b (some child) rfl h.count h.mark (fun _ _ => rfl) nofun fun c hc => ?_
      exact Option.some.inj hc ▸ hchild
    unfold TrieNode.ensure
    split
    · rename_i child hb
      exact keep _ (ih (h.present hb) answers)
    · rename_i hb
      split
      · refine keep _ (ih ?_ answers.tail)
        rw [h.absent hb]
        exact fresh_counts
      · exact h

end

theorem ensure_hasPath (n : TrieNode) (answers : List Bool) (w : List UInt8)
    (h : (n.ensure answers w).1 = true) : HasPath w (n.ensure answers w).2 := by
  induction w generalizing answers n with
  | nil => trivial
  | cons b w ih =>
    unfold TrieNode.ensure at h ⊢
    split at h
    · rename_i child hb
      exact ⟨_, Function.update_self .., ih child answers h⟩
    · split at h
      · rename_i hans
        rw [if_pos hans]
        exact ⟨_, Function.update_self .., ih .fresh answers.tail h⟩
      · cases h

section

variable {n : TrieNode} {S : Finset (List UInt8)}

theorem toNat_add_one {r : UInt32} (h : r.toNat + 1 < 2 ^ 32) : (r + 1).toNat = r.toNat + 1 := by
  rw [UInt32.toNat_add]
  exact Nat.mod_eq_of_lt h

theorem bump_counts (h : Counts n S) {w : List UInt8} (hpath : HasPath w n) (hw : w ∉ S)
    (hroom : S.card + 1 < 2 ^ 32) : Counts (n.bump w) (insert w S) := by
  induction w generalizing n S with
  | nil =>
    refine ⟨?_, by simp [TrieNode.bump], fun b hb => ?_, fun b child hb => ?_⟩
    · rw [Finset.card_insert_of_notMem hw, ← h.count]
      exact toNat_add_one (h.count ▸ hroom)
    · rw [tails_insert_nil]
      exact h.absent hb
    · rw [tails_insert_nil]
      exact h.present hb
  | cons b w ih =>
    obtain ⟨child, hb, hpath'⟩ := hpath
    have hw' : w ∉ tails b S := fun hmem => hw (mem_tails.mp hmem)
    have hroom' : (tails b S).card + 1 < 2 ^ 32 := by
      have hle := card_tails_le b S
      omega
    have hchild := ih (h.present hb) hpath' hw' hroom'
    refine h.update b ((n.children b).map (TrieNode.bump w)) rfl ?_ ?_
      (fun b' hne => tails_insert_of_ne hne w S) ?_ ?_
    · rw [Finset.card_insert_of_notMem hw, ← h.count]
      exact toNat_add_one (h.count ▸ hroom)
    · rw [Finset.mem_insert, ← h.mark]
      simp [TrieNode.bump]
    · simp [hb]
    · intro c hc
      rw [hb, Option.map_some] at hc
      rw [tails_insert_self]
      exact Option.some.inj hc ▸ hchild

/-! ## Removing -/

theorem uncount_toNat (h : Counts n S) {w : List UInt8} (hw : w ∈ S) :
    n.uncount.refcount.toNat = (S.erase w).card := by
  have hcard : 0 < S.card := Finset.card_pos.mpr ⟨w, hw⟩
  have hpos : n.refcount > 0 := by
    rw [gt_iff_lt, UInt32.lt_iff_toNat_lt, h.count]
    exact hcard
  have hle : (1 : UInt32) ≤ n.refcount := by
    rw [UInt32.le_iff_toNat_le, h.count]
    exact hcard
  unfold TrieNode.uncount
  rw [Finset.card_erase_of_mem hw, ← h.count, if_pos hpos]
  exact UInt32.toNat_sub_of_le _ _ hle

theorem Counts.idle (h : Counts n S) (hidle : n.idle = true) : S = ∅ := by
  unfold TrieNode.idle at hidle
  have hzero : n.refcount = 0 := by simp_all
  rw [← Finset.card_eq_zero, ← h.count, hzero]
  rfl

theorem rmRec_of_mem (h : Counts n S) {w : List UInt8} (hw : w ∈ S) :
    ∃ n', n.rmRec w = .ok n' ∧ Counts n' (S.erase w) := by
  induction w generalizing n S with
  | nil =>
    have hmark : n.subscribed = true := h.mark.mpr hw
    refine ⟨{ n.uncount with subscribed := false }, by simp [TrieNode.rmRec, hmark], ?_⟩
    refine ⟨uncount_toNat h hw, by simp, fun b hb => ?_, fun b child hb => ?_⟩
    · rw [tails_erase_nil]
      exact h.absent hb
    · rw [tails_erase_nil]
      exact h.present hb
  | cons b w ih =>
    have hw' : w ∈ tails b S := mem_tails.mpr hw
    cases hb : n.children b with
    | none =>
      rw [h.absent hb] at hw'
      exact absurd hw' (Finset.notMem_empty w)
    | some child =>
      obtain ⟨child', hrm, hchild'⟩ := ih (h.present hb) hw'
      refine ⟨n.uncount.setChild b (if child'.idle then none else some child'),
        by simp [TrieNode.rmRec, hb, hrm], ?_⟩
      refine h.update b (if child'.idle then none else some child') rfl (uncount_toNat h hw) ?_
        (fun b' hne => tails_erase_of_ne hne w S) ?_ ?_
      · rw [Finset.mem_erase, ← h.mark]
        simp [TrieNode.setChild, TrieNode.uncount]
      · intro hdrop
        rw [tails_erase_self]
        refine hchild'.idle ?_
        by_contra hkeep
        rw [if_neg hkeep] at hdrop
        cases hdrop
      · intro c hc
        rw [tails_erase_self]
        split at hc
        · cases hc
        · exact Option.some.inj hc ▸ hchild'

theorem rmRec_of_notMem (h : Counts n S) {w : List UInt8} (hw : w ∉ S) :
    n.rmRec w = .error .ENOENT := by
  induction w generalizing n S with
  | nil =>
    have hmark : ¬n.subscribed = true := fun hm => hw (h.mark.mp hm)
    simp [TrieNode.rmRec, hmark]
  | cons b w ih =>
    cases hb : n.children b with
    | none => simp [TrieNode.rmRec, hb]
    | some child =>
      have hrm := ih (h.present hb) fun hmem => hw (mem_tails.mp hmem)
      simp [TrieNode.rmRec, hb, hrm]

end

end MsgBroker.Analysis.TrieSpec
