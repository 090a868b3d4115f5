import Mathlib.Data.Finset.Image
import MsgBroker.Analysis.SubSpec
import MsgBroker.Analysis.TrieSpec
import MsgBroker.Model.Wire

/-!
# The subscriptions of a SUB socket

`mb_sub_setopt` keeps the trie, `nsubs` and `has_subscriptions` in step with the set of strings
subscribed: the trie stands for the set, `nsubs` is its size, and the flag tells whether it is
empty.
-/

set_option autoImplicit false

namespace MsgBroker.Analysis.Subscriptions

open Lib Lib.WordSet Model
open Analysis.SubSpec Analysis.TrieSpec

variable {π : Type}

/-- The socket keeps exactly the strings of `S`. -/
structure Mirrors (x : SubSock π) (S : Finset (List UInt8)) : Prop where
  trie : Counts x.subscriptions S
  nsubs : x.nsubs.toInt = S.card
  flag : x.hasSubscriptions = true ↔ S ≠ ∅

theorem create_mirrors : Mirrors (.create : SubSock π) ∅ :=
  ⟨fresh_counts, by simp [SubSock.create], by simp [SubSock.create]⟩

theorem Mirrors.msgMatches_iff {x : SubSock π} {S : Finset (List UInt8)} (h : Mirrors x S)
    (m : List UInt8) : x.msgMatches m = true ↔ Starts S m := by
  unfold SubSock.msgMatches
  by_cases hflag : x.hasSubscriptions = true
  · simp only [hflag, Bool.not_true, Bool.false_eq_true, if_false]
    exact trieMatch_iff h.trie m
  · have hempty : S = ∅ := not_not.mp fun hne => hflag (h.flag.mpr hne)
    simp only [hflag, Bool.not_false, if_true, Bool.false_eq_true, false_iff]
    rw [hempty]
    exact not_starts_empty m

/-! ## One call of `mb_sub_setopt` -/

section Setopt

variable {x : SubSock π} {S : Finset (List UInt8)}

theorem add_spec {n : TrieNode} (h : Counts n S) (answers : List Bool) (data : List UInt8) :
    (∃ n', n.add answers data = (.error .ENOMEM, n') ∧ Counts n' S) ∨
      (∃ n', n.add answers data = (.ok false, n') ∧ data ∈ S ∧ Counts n' S) ∨
      ∃ n', n.add answers data = (.ok true, n') ∧ data ∉ S ∧
        (S.card + 1 < 2 ^ 32 → Counts n' (insert data S)) := by
  have hens := ensure_counts h answers data
  have hpath := ensure_hasPath n answers data
  unfold TrieNode.add
  rcases hrun : n.ensure answers data with ⟨done, n'⟩
  rw [hrun] at hens hpath
  have hmem := subscribedAt_iff hens data
  cases done with
  | false => exact Or.inl ⟨n', rfl, hens⟩
  | true =>
    by_cases hdata : n'.subscribedAt data = true
    · exact Or.inr (Or.inl ⟨n', by simp [hdata], hmem.mp hdata, hens⟩)
    · have hnew : data ∉ S := fun hin => hdata (hmem.mpr hin)
      exact Or.inr (Or.inr ⟨_, by simp [hdata], hnew, bump_counts hens (hpath rfl) hnew⟩)

theorem nsubs_add_one {k : Int32} {c : ℕ} (h : k.toInt = c) (hc : c + 1 < 2 ^ 31) :
    (k + 1).toInt = (c + 1 : ℕ) := by
  rw [Int32.toInt_add, h, Int32.toInt_one]
  rw [Int.bmod_eq_of_le] <;> omega

theorem nsubs_sub_one {k : Int32} {c : ℕ} (h : k.toInt = c) (hc : 0 < c) :
    (if k > 0 then k - 1 else k).toInt = (c - 1 : ℕ) := by
  have hlt := k.toInt_lt
  have hpos : k > 0 := by
    rw [gt_iff_lt, Int32.lt_iff_toInt_lt, h, Int32.toInt_zero]
    omega
  rw [if_pos hpos, Int32.toInt_sub, h, Int32.toInt_one]
  rw [Int.bmod_eq_of_le] <;> omega

theorem subscribe_spec (h : Mirrors x S) {optval : OptVal} {data : List UInt8}
    (hdata : optval.data? = some data) (answers : List Bool) :
    ((x.setopt subProto subSubscribe optval answers).1 = .err .ENOMEM ∧
        Mirrors (x.setopt subProto subSubscribe optval answers).2 S) ∨
      (x.setopt subProto subSubscribe optval answers).1 = .ok ∧
        ((insert data S).card < 2 ^ 31 →
          Mirrors (x.setopt subProto subSubscribe optval answers).2 (insert data S)) := by
  unfold SubSock.setopt
  simp only [ne_eq, not_true_eq_false, if_false, if_true, hdata]
  rcases add_spec h.trie answers data with ⟨n, hadd, hn⟩ | ⟨n, hadd, hin, hn⟩ | ⟨n, hadd, hnew, hn⟩
  all_goals rw [hadd]
  · exact Or.inl ⟨rfl, hn, h.nsubs, h.flag⟩
  · refine Or.inr ⟨rfl, fun _ => ?_⟩
    rw [Finset.insert_eq_of_mem hin]
    exact ⟨hn, h.nsubs, h.flag⟩
  · refine Or.inr ⟨rfl, fun hfits => ?_⟩
    rw [Finset.card_insert_of_notMem hnew] at hfits
    refine ⟨hn (by omega), ?_, by simp⟩
    rw [Finset.card_insert_of_notMem hnew]
    exact nsubs_add_one h.nsubs hfits

theorem unsubscribe_spec (h : Mirrors x S) {optval : OptVal} {data : List UInt8}
    (hdata : optval.data? = some data) (answers : List Bool) :
    if data ∈ S then
      (x.setopt subProto subUnsubscribe optval answers).1 = .ok ∧
        Mirrors (x.setopt subProto subUnsubscribe optval answers).2 (S.erase data)
    else x.setopt subProto subUnsubscribe optval answers = (.err .ENOENT, x) := by
  have hopt : ¬subUnsubscribe = subSubscribe := by decide
  unfold SubSock.setopt
  simp only [ne_eq, not_true_eq_false, if_false, if_true, hdata, if_neg hopt]
  split
  · rename_i hin
    obtain ⟨n, hrm, hn⟩ := rmRec_of_mem h.trie hin
    have hcard : 0 < S.card := Finset.card_pos.mpr ⟨data, hin⟩
    have hnsubs := nsubs_sub_one h.nsubs hcard
    rw [hrm]
    refine ⟨rfl, hn, ?_, ?_⟩
    · rw [Finset.card_erase_of_mem hin]
      exact hnsubs
    · rw [decide_eq_true_iff, gt_iff_lt, Int32.lt_iff_toInt_lt, hnsubs, Int32.toInt_zero,
        ← Finset.card_erase_of_mem hin, Int.natCast_pos, Finset.card_pos,
        Finset.nonempty_iff_ne_empty]
  · rename_i hin
    rw [rmRec_of_notMem h.trie hin]

/-- INTERNAL: **one call of `mb_sub_setopt`** leaves the socket with the strings it has from then
on, as long as these can be counted. -/
theorem setopt_mirrors (h : Mirrors x S) (level option : ℤ) (optval : OptVal)
    (answers : List Bool)
    (hfits : (SubRun.subsAfter (x.setopt level option optval answers).1 option optval S).card <
      2 ^ 31) :
    Mirrors (x.setopt level option optval answers).2
      (SubRun.subsAfter (x.setopt level option optval answers).1 option optval S) := by
  rcases setopt_refused x level option optval answers with
    ⟨e, heq⟩ | ⟨rfl, rfl | rfl, data, hdata⟩
  · rw [heq]
    exact h
  · rcases subscribe_spec h hdata answers with ⟨hrc, hx⟩ | ⟨hrc, hx⟩
    · rw [hrc]
      exact hx
    · rw [hrc] at hfits ⊢
      simp only [SubRun.subsAfter, hdata, Option.getD_some, ne_eq, not_true_eq_false, if_false,
        if_true] at hfits ⊢
      exact hx hfits
  · have hspec := unsubscribe_spec h hdata answers
    split at hspec
    · rw [hspec.1]
      simp only [SubRun.subsAfter, hdata, Option.getD_some, ne_eq, not_true_eq_false, if_false]
      exact hspec.2
    · rw [hspec]
      exact h

theorem setopt_idle (h : Mirrors x S) (hsize : S.card < 2 ^ 31) {level option : ℤ}
    {optval : OptVal} {answers : List Bool}
    (hidle : (x.setopt level option optval answers).1 ≠ .ok ∨
      option = subSubscribe ∧ ∃ data ∈ S, optval.data? = some data) :
    Mirrors (x.setopt level option optval answers).2 S := by
  have hsame : SubRun.subsAfter (x.setopt level option optval answers).1 option optval S = S := by
    unfold SubRun.subsAfter
    split
    · rfl
    · rename_i hok
      obtain ⟨hopt, data, hin, hdata⟩ := hidle.resolve_left hok
      rw [if_pos hopt, hdata, Option.getD_some, Finset.insert_eq_of_mem hin]
  have hx := setopt_mirrors h level option optval answers
  rw [hsame] at hx
  exact hx hsize

end Setopt

/-! ## Runs -/

section Runs

variable [DecidableEq π]

theorem step_mirrors {s s' : SubRun π} {op : SubOp π} (h : Mirrors s.sub s.subs)
    (hfits : s.Fits op) (hstep : s.step op = some s') : Mirrors s'.sub s'.subs := by
  rcases step_cases hstep with ⟨level, option, optval, answers, rfl⟩ | ⟨hsame, hsubs⟩
  · have hsize := hfits s' hstep
    obtain rfl := Option.some.inj hstep
    exact setopt_mirrors h level option optval answers hsize
  · rw [hsubs]
    refine ⟨?_, ?_, ?_⟩
    · rw [hsame.subscriptions]
      exact h.trie
    · rw [hsame.nsubs]
      exact h.nsubs
    · rw [hsame.flag]
      exact h.flag

theorem run_mirrors {s : SubRun π} (h : Reach (SubRun.system π) SubRun.Fits s) :
    Mirrors s.sub s.subs ∧ s.subs.card < 2 ^ 31 := by
  refine h.invariant (fun s => Mirrors s.sub s.subs ∧ s.subs.card < 2 ^ 31)
    ⟨create_mirrors, by simp [SubRun.system, SubRun.init]⟩ ?_
  intro s op s' hs hfits hstep
  exact ⟨step_mirrors hs.1 hfits hstep, hfits s' hstep⟩

end Runs

/-- **The subscriptions of a SUB socket are a set of strings.**  While fewer than 2^31
strings are subscribed, in every state reached: a message matches exactly when a string of
the set starts it; `nsubs` is the size of the set; a call of `mb_sub_setopt` that fails, or
that subscribes to a string of the set again, changes nothing for any message; and the end
of a subscription fails with `-ENOENT` exactly for a string that is not in the set.
SRC: sub.c:25-32, 136-171, trie.c:51-139 -/
theorem subscriptions_are_a_set {π : Type} [DecidableEq π] {s : SubRun π}
    (h : Reach (SubRun.system π) SubRun.Fits s) :
    (∀ m, s.sub.msgMatches m = true ↔ ∃ w ∈ s.subs, w <+: m) ∧
      s.sub.nsubs.toInt = s.subs.card ∧
      (∀ level option optval answers,
        ((s.sub.setopt level option optval answers).1 ≠ .ok ∨
          option = subSubscribe ∧ ∃ data ∈ s.subs, optval.data? = some data) →
        ∀ m, (s.sub.setopt level option optval answers).2.msgMatches m = s.sub.msgMatches m) ∧
      ∀ optval data answers, optval.data? = some data →
        ((s.sub.setopt subProto subUnsubscribe optval answers).1 = .err .ENOENT ↔
          data ∉ s.subs) := by
  obtain ⟨hs, hsize⟩ := run_mirrors h
  refine ⟨hs.msgMatches_iff, hs.nsubs, ?_, ?_⟩
  · intro level option optval answers hidle m
    have hs' := setopt_idle hs hsize hidle
    rw [Bool.eq_iff_iff, hs.msgMatches_iff, hs'.msgMatches_iff]
  · intro optval data answers hdata
    have hspec := unsubscribe_spec hs hdata answers
    split at hspec
    · rename_i hin
      rw [hspec.1]
      exact iff_of_false nofun (not_not.mpr hin)
    · rename_i hin
      rw [hspec]
      exact iff_of_true rfl hin

/-- A subscription to a string, every node of which can be allocated. -/
def subscribeTo (data : List UInt8) : SubOp Unit :=
  .setopt subProto subSubscribe (.bytes data) []

/-- An addition that runs out of memory leaves a node behind; the strings subscribed around
it still match. -/
theorem subscriptions_are_a_set_orphan :
    ∃ s, (SubRun.system Unit).run .init
        [subscribeTo [1], .setopt subProto subSubscribe (.bytes [1, 2, 3]) [true, false]] =
          some s ∧
      s.sub.nsubs.toInt = s.subs.card ∧
      ((s.sub.setopt subProto subUnsubscribe (.bytes [1, 2]) []).1 = .err .ENOENT ↔
        [1, 2] ∉ s.subs) := by
  have hrun : (SubRun.system Unit).run .init
      [subscribeTo [1], .setopt subProto subSubscribe (.bytes [1, 2, 3]) [true, false]] =
        some _ := rfl
  have hreach : Reach (SubRun.system Unit) SubRun.Fits _ :=
    Reach.of_run Reach.init (by decide) hrun
  obtain ⟨-, hnsubs, -, hrm⟩ := subscriptions_are_a_set hreach
  exact ⟨_, hrun, hnsubs, hrm (.bytes [1, 2]) [1, 2] [] rfl⟩

/-! ## Too many strings -/

theorem ensure_all (n : TrieNode) (w : List UInt8) : (n.ensure [] w).1 = true := by
  induction w generalizing n with
  | nil => rfl
  | cons b w ih =>
    unfold TrieNode.ensure
    split
    · exact ih _
    · exact ih _

theorem step_new {s : SubRun Unit} (h : Counts s.sub.subscriptions s.subs) {data : List UInt8}
    (hnew : data ∉ s.subs) :
    ∃ s', (SubRun.system Unit).step s (subscribeTo data) = some s' ∧
      s'.subs = insert data s.subs ∧ s'.sub.nsubs = s.sub.nsubs + 1 := by
  have hdone := ensure_all s.sub.subscriptions data
  have hens := ensure_counts h [] data
  rcases hrun : s.sub.subscriptions.ensure [] data with ⟨done, root⟩
  rw [hrun] at hdone hens
  obtain rfl : done = true := hdone
  have hmark : ¬root.subscribedAt data = true := fun hin =>
    hnew ((subscribedAt_iff hens data).mp hin)
  have hset : ∃ x, s.sub.setopt subProto subSubscribe (.bytes data) [] = (.ok, x) ∧
      x.nsubs = s.sub.nsubs + 1 := by
    simp [SubSock.setopt, OptVal.data?, TrieNode.add, hrun, hmark]
  obtain ⟨x, hset, hnsubs⟩ := hset
  refine ⟨{ s with sub := x, subs := insert data s.subs }, ?_, rfl, hnsubs⟩
  simp only [SubRun.system, subscribeTo, SubRun.step, hset]
  rfl

theorem putUint32_notMem {k : ℕ} (hk : k < 2 ^ 32) :
    putUint32 k ∉ (Finset.range k).image putUint32 := by
  intro hmem
  obtain ⟨j, hj, heq⟩ := Finset.mem_image.mp hmem
  have hlt := Finset.mem_range.mp hj
  have hget := congrArg getUint32 heq
  rw [getUint32_putUint32 j (by omega), getUint32_putUint32 k hk] at hget
  omega

theorem reach_many (k : ℕ) (hk : k < 2 ^ 31) :
    ∃ s, Reach (SubRun.system Unit) (fun _ _ => True) s ∧ Mirrors s.sub s.subs ∧
      s.subs = (Finset.range k).image putUint32 ∧ s.subs.card = k := by
  induction k with
  | zero => exact ⟨_, Reach.init, create_mirrors, rfl, rfl⟩
  | succ k ih =>
    obtain ⟨s, hreach, hs, hsubs, hcard⟩ := ih (by omega)
    have hnew : putUint32 k ∉ s.subs := hsubs ▸ putUint32_notMem (by omega)
    obtain ⟨s', hstep, hsubs', -⟩ := step_new hs.trie hnew
    have hcard' : s'.subs.card = k + 1 := by
      rw [hsubs', Finset.card_insert_of_notMem hnew, hcard]
    have hfits : s.Fits (subscribeTo (putUint32 k)) := by
      intro t ht
      obtain rfl := Option.some.inj (hstep.symm.trans ht)
      exact hcard' ▸ hk
    refine ⟨s', hreach.step trivial hstep, step_mirrors hs hfits hstep, ?_, hcard'⟩
    rw [hsubs', hsubs, Finset.range_add_one, Finset.image_insert]

/-- With 2^31 strings subscribed, `nsubs` is -2^31. -/
theorem nsubs_overflows :
    ∃ s, Reach (SubRun.system Unit) (fun _ _ => True) s ∧ s.subs.card = 2 ^ 31 ∧
      s.sub.nsubs.toInt = -2 ^ 31 := by
  obtain ⟨s, hreach, hs, hsubs, hcard⟩ := reach_many (2 ^ 31 - 1) (by omega)
  have hnew : putUint32 (2 ^ 31 - 1) ∉ s.subs := hsubs ▸ putUint32_notMem (by omega)
  obtain ⟨s', hstep, hsubs', hnsubs⟩ := step_new hs.trie hnew
  refine ⟨s', hreach.step trivial hstep, ?_, ?_⟩
  · rw [hsubs', Finset.card_insert_of_notMem hnew, hcard]
    omega
  · rw [hnsubs, Int32.toInt_add, hs.nsubs, hcard]
    rfl

end MsgBroker.Analysis.Subscriptions
