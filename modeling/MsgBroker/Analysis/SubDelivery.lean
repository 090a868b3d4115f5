import MsgBroker.Analysis.SubSpec
import MsgBroker.Lib.WordSet

/-!
# What a SUB socket delivers

Whatever the counts of the trie say, a mark is only ever at a string that is subscribed, so a
message that matches has a subscribed prefix.
-/

set_option autoImplicit false

namespace MsgBroker.Analysis.SubDelivery

open Lib Lib.WordSet Model Analysis.SubSpec

/-- Only strings of the set are marked. -/
def Within (n : TrieNode) (S : Finset (List UInt8)) : Prop :=
  ∀ w, n.subscribedAt w = true → w ∈ S

/-! ## Marks -/

theorem subscribedAt_of_trieMatch {n : TrieNode} {m : List UInt8} (h : n.trieMatch m = true) :
    ∃ w, n.subscribedAt w = true ∧ w <+: m := by
  induction m generalizing n with
  | nil => exact ⟨[], h, List.prefix_rfl⟩
  | cons b m ih =>
    unfold TrieNode.trieMatch at h
    split at h
    · rename_i hmark
      exact ⟨[], hmark, List.nil_prefix⟩
    · split at h
      · exact ⟨[], h, List.nil_prefix⟩
      · rename_i child hb
        obtain ⟨w, hw, hpre⟩ := ih h
        refine ⟨b :: w, ?_, List.cons_prefix_cons.mpr ⟨rfl, hpre⟩⟩
        unfold TrieNode.subscribedAt
        rw [hb]
        exact hw

theorem subscribedAt_setChild (n : TrieNode) (b : UInt8) (child : Option TrieNode)
    (v : List UInt8) (h : (n.setChild b child).subscribedAt v = true) :
    (n.subscribedAt v = true ∧ v.head? ≠ some b) ∨
      ∃ c v', child = some c ∧ v = b :: v' ∧ c.subscribedAt v' = true := by
  cases v with
  | nil => exact Or.inl ⟨h, nofun⟩
  | cons b' v =>
    unfold TrieNode.subscribedAt TrieNode.setChild at h
    by_cases heq : b' = b
    · subst heq
      simp only [Function.update_self] at h
      split at h
      · exact Or.inr ⟨_, v, rfl, rfl, h⟩
      · cases h
    · simp only [Function.update_of_ne heq] at h
      exact Or.inl ⟨h, fun hhead => heq (Option.some.inj hhead)⟩

theorem subscribedAt_cons {n child : TrieNode} {b : UInt8} {v : List UInt8}
    (hb : n.children b = some child) (h : child.subscribedAt v = true) :
    n.subscribedAt (b :: v) = true := by
  unfold TrieNode.subscribedAt
  rw [hb]
  exact h

theorem not_subscribedAt_fresh (v : List UInt8) : ¬TrieNode.fresh.subscribedAt v = true := by
  cases v <;> simp [TrieNode.subscribedAt, TrieNode.fresh]

theorem subscribedAt_ensure (n : TrieNode) (answers : List Bool) (w : List UInt8) {v : List UInt8}
    (h : (n.ensure answers w).2.subscribedAt v = true) : n.subscribedAt v = true := by
  induction w generalizing answers n v with
  | nil => exact h
  | cons b w ih =>
    unfold TrieNode.ensure at h
    split at h
    · rename_i child hb
      rcases subscribedAt_setChild _ _ _ _ h with ⟨h, -⟩ | ⟨c, v', hc, rfl, hv⟩
      · exact h
      · obtain rfl := Option.some.inj hc
        exact subscribedAt_cons hb (ih _ _ hv)
    · split at h
      · rcases subscribedAt_setChild _ _ _ _ h with ⟨h, -⟩ | ⟨c, v', hc, rfl, hv⟩
        · exact h
        · obtain rfl := Option.some.inj hc
          exact absurd (ih _ _ hv) (not_subscribedAt_fresh v')
      · exact h

theorem subscribedAt_bump (n : TrieNode) (w : List UInt8) {v : List UInt8}
    (h : (n.bump w).subscribedAt v = true) : v = w ∨ n.subscribedAt v = true := by
  induction w generalizing n v with
  | nil =>
    cases v with
    | nil => exact Or.inl rfl
    | cons b v => exact Or.inr h
  | cons b w ih =>
    rcases subscribedAt_setChild { n with refcount := n.refcount + 1 } b _ v h with
      ⟨h, -⟩ | ⟨c, v', hc, rfl, hv⟩
    · right
      cases v <;> exact h
    · obtain ⟨child, hb, rfl⟩ := Option.map_eq_some_iff.mp hc
      rcases ih child hv with rfl | hv
      · exact Or.inl rfl
      · exact Or.inr (subscribedAt_cons hb hv)

theorem subscribedAt_add (n : TrieNode) (answers : List Bool) (data : List UInt8) {v : List UInt8}
    (h : (n.add answers data).2.subscribedAt v = true) :
    n.subscribedAt v = true ∨ v = data ∧ (n.add answers data).1 = .ok true := by
  have hens : (n.ensure answers data).2.subscribedAt v = true → n.subscribedAt v = true :=
    subscribedAt_ensure n answers data
  unfold TrieNode.add at h ⊢
  rcases hrun : n.ensure answers data with ⟨done, n'⟩
  rw [hrun] at h hens
  cases done with
  | false => exact Or.inl (hens h)
  | true =>
    by_cases hdata : n'.subscribedAt data = true
    · simp only [hdata, if_true] at h
      exact Or.inl (hens h)
    · simp only [hdata, Bool.false_eq_true, if_false] at h ⊢
      rcases subscribedAt_bump n' data h with rfl | h
      · exact Or.inr ⟨rfl, trivial⟩
      · exact Or.inl (hens h)

theorem subscribedAt_rmRec {n n' : TrieNode} {w v : List UInt8} (hrm : n.rmRec w = .ok n')
    (h : n'.subscribedAt v = true) : v ≠ w ∧ n.subscribedAt v = true := by
  induction w generalizing n n' v with
  | nil =>
    unfold TrieNode.rmRec at hrm
    split at hrm
    · cases hrm
    · obtain rfl := Except.ok.inj hrm
      cases v with
      | nil => cases h
      | cons b v => exact ⟨nofun, h⟩
  | cons b w ih =>
    unfold TrieNode.rmRec at hrm
    split at hrm
    · cases hrm
    · rename_i child hb
      split at hrm
      · cases hrm
      · rename_i child' hrec
        obtain rfl := Except.ok.inj hrm
        rcases subscribedAt_setChild _ _ _ _ h with ⟨h, hhead⟩ | ⟨c, v', hc, rfl, hv⟩
        · refine ⟨by rintro rfl; exact hhead rfl, ?_⟩
          cases v <;> exact h
        · split at hc
          · cases hc
          · obtain rfl := Option.some.inj hc
            obtain ⟨hne, hv'⟩ := ih hrec hv
            exact ⟨fun heq => hne (List.cons_injective heq), subscribedAt_cons hb hv'⟩

/-! ## Calls -/

variable {π : Type}

theorem Within.starts {x : SubSock π} {S : Finset (List UInt8)} (h : Within x.subscriptions S)
    {m : List UInt8} (hm : x.msgMatches m = true) : Starts S m := by
  unfold SubSock.msgMatches at hm
  split at hm
  · cases hm
  · obtain ⟨w, hw, hpre⟩ := subscribedAt_of_trieMatch hm
    exact ⟨w, h w hw, hpre⟩

theorem setopt_within {x : SubSock π} {S : Finset (List UInt8)} (h : Within x.subscriptions S)
    (level option : ℤ) (optval : OptVal) (answers : List Bool) :
    Within (x.setopt level option optval answers).2.subscriptions
      (SubRun.subsAfter (x.setopt level option optval answers).1 option optval S) := by
  rcases setopt_refused x level option optval answers with
    ⟨e, heq⟩ | ⟨rfl, rfl | rfl, data, hdata⟩
  · rw [heq]
    exact h
  · have hafter : SubRun.subsAfter .ok subSubscribe optval S = insert data S := by
      simp [SubRun.subsAfter, hdata]
    unfold SubSock.setopt
    simp only [ne_eq, not_true_eq_false, if_false, if_true, hdata]
    split
    all_goals
      rename_i hadd
      intro v hv
      have hmarks := subscribedAt_add x.subscriptions answers data (v := v)
      rw [hadd] at hmarks
      have hold := (hmarks hv).imp_left (h v)
    · exact hold.resolve_right fun hnew => nomatch hnew.2
    · rw [hafter, Finset.mem_insert]
      exact hold.symm.imp_left And.left
    · rw [hafter, Finset.mem_insert]
      exact hold.symm.imp_left And.left
  · have hopt : ¬subUnsubscribe = subSubscribe := by decide
    have hafter : SubRun.subsAfter .ok subUnsubscribe optval S = S.erase data := by
      simp [SubRun.subsAfter, hopt, hdata]
    unfold SubSock.setopt
    simp only [ne_eq, not_true_eq_false, if_false, if_true, hdata, if_neg hopt]
    split
    · exact h
    · rename_i root hrm
      rw [hafter]
      intro v hv
      obtain ⟨hne, hv'⟩ := subscribedAt_rmRec hrm hv
      exact Finset.mem_erase.mpr ⟨hne, h v hv'⟩

/-! ## Runs -/

theorem run_within [DecidableEq π] {s : SubRun π}
    (h : Reach (SubRun.system π) (fun _ _ => True) s) : Within s.sub.subscriptions s.subs := by
  refine h.invariant (fun s => Within s.sub.subscriptions s.subs) ?_ ?_
  · exact fun w hw => absurd hw (not_subscribedAt_fresh w)
  · intro s op s' hs _ hstep
    rcases step_cases hstep with ⟨level, option, optval, answers, rfl⟩ | ⟨hsame, hsubs⟩
    · obtain rfl := Option.some.inj hstep
      exact setopt_within hs level option optval answers
    · rw [hsame.subscriptions, hsubs]
      exact hs

/-- **When SUB delivers only what is subscribed now.**  In every state that subscriptions,
ends of subscriptions, arrivals, polls and receives can lead to, what the next `mb_sub_recv`
returns has a prefix that is subscribed at that time, if and only if a message stashed by an
earlier poll, where there is one, still has one.  SRC: sub.c:25-59, 111-171 -/
theorem sub_delivers_subscribed_iff [DecidableEq π] {s : SubRun π}
    (h : Reach (SubRun.system π) (fun _ _ => True) s) (answers : List Bool) :
    (∀ m, (s.recv answers).1 = .ok m → ∃ w ∈ s.subs, w <+: m) ↔
      ∀ m, s.sub.pending = some m → ∃ w ∈ s.subs, w <+: m := by
  constructor
  · intro hall m hm
    exact hall m (recv_pending fifoPipes _ _ _ hm)
  · intro hpending m hm
    rcases recv_result fifoPipes _ _ _ hm with hstash | ⟨-, hmatch⟩
    · exact hpending m hstash
    · exact (run_within h).starts hmatch

/-- A subscription is made, a pipe is added, a matching message arrives, and a poll stashes
it. -/
def stashed : List (SubOp Unit) :=
  [.setopt subProto subSubscribe (.bytes [65]) [], .add true (), .arrive () [65, 66],
    .events [true]]

/-- The stashed message still has a subscribed prefix, and so has what is received. -/
theorem sub_delivers_subscribed_stashed :
    ∃ s, (SubRun.system Unit).run .init stashed = some s ∧
      ∀ m, (s.recv []).1 = .ok m → ∃ w ∈ s.subs, w <+: m := by
  have hrun : (SubRun.system Unit).run .init stashed = some _ := rfl
  have hreach := Reach.of_run_init hrun
  refine ⟨_, hrun, (sub_delivers_subscribed_iff hreach []).mpr fun m hm => ?_⟩
  obtain rfl := Option.some.inj hm
  exact ⟨[65], by decide, by decide⟩

/-- The subscription ends before the stashed message is received, which is delivered to a
socket without any subscription. -/
theorem sub_delivers_unsubscribed :
    ∃ s, (SubRun.system Unit).run .init
        (stashed ++ [.setopt subProto subUnsubscribe (.bytes [65]) []]) = some s ∧
      s.subs = ∅ ∧ (s.recv []).1 = .ok [65, 66] :=
  ⟨_, rfl, by decide, rfl⟩

end MsgBroker.Analysis.SubDelivery
