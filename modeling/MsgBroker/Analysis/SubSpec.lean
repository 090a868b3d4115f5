import MsgBroker.Analysis.RotorSpec
import MsgBroker.Model.Sub

/-!
# One event of a SUB socket

Only `mb_sub_setopt` touches the subscriptions.
-/

set_option autoImplicit false

namespace MsgBroker.Analysis.SubSpec

open Lib Model

variable {π : Type}

/-- The two sockets have the same subscriptions. -/
structure SameSubs (x x' : SubSock π) : Prop where
  subscriptions : x'.subscriptions = x.subscriptions
  nsubs : x'.nsubs = x.nsubs
  flag : x'.hasSubscriptions = x.hasSubscriptions

theorem setopt_refused (x : SubSock π) (level option : ℤ) (optval : OptVal)
    (answers : List Bool) :
    (∃ e, x.setopt level option optval answers = (.err e, x)) ∨
      level = subProto ∧ (option = subSubscribe ∨ option = subUnsubscribe) ∧
        ∃ data, optval.data? = some data := by
  unfold SubSock.setopt
  by_cases hlevel : level = subProto
  · cases hdata : optval.data? with
    | none =>
      left
      rw [if_neg (not_not.mpr hlevel)]
      split
      · exact ⟨_, rfl⟩
      · split <;> exact ⟨_, rfl⟩
    | some data =>
      by_cases hopt : option = subSubscribe ∨ option = subUnsubscribe
      · exact Or.inr ⟨hlevel, hopt, data, rfl⟩
      · obtain ⟨hsub, hunsub⟩ := not_or.mp hopt
        left
        rw [if_neg (not_not.mpr hlevel), if_neg hsub, if_neg hunsub]
        exact ⟨_, rfl⟩
  · rw [if_pos hlevel]
    exact Or.inl ⟨_, rfl⟩

section Pull

variable {ε : Type} (ops : Pipes π (List UInt8) ε) (fuel : ℕ)

theorem pullLoop_spec (x : SubSock π) (e : ε) :
    SameSubs x (x.pullLoop ops fuel e).2.1 ∧
      ((x.pullLoop ops fuel e).1 = true →
        ∃ m, (x.pullLoop ops fuel e).2.1.pending = some m ∧ x.msgMatches m = true) := by
  induction fuel generalizing x e with
  | zero => exact ⟨⟨rfl, rfl, rfl⟩, nofun⟩
  | succ fuel ih =>
    unfold SubSock.pullLoop
    split
    · exact ⟨⟨rfl, rfl, rfl⟩, nofun⟩
    · rename_i msg fq e' _
      split
      · rename_i hm
        exact ⟨⟨rfl, rfl, rfl⟩, fun _ => ⟨msg, rfl, hm⟩⟩
      · obtain ⟨hsame, hstash⟩ := ih { x with fq := fq } e'
        exact ⟨⟨hsame.subscriptions, hsame.nsubs, hsame.flag⟩, hstash⟩

theorem pullDeliverable_same (x : SubSock π) (e : ε) :
    SameSubs x (x.pullDeliverable ops fuel e).2.1 := by
  unfold SubSock.pullDeliverable
  split
  · exact ⟨rfl, rfl, rfl⟩
  · exact (pullLoop_spec ops fuel x e).1

theorem recv_same (x : SubSock π) (e : ε) : SameSubs x (x.recv ops fuel e).2.1 := by
  have hpull := pullDeliverable_same ops fuel x e
  unfold SubSock.recv
  split
  all_goals
    rename_i heq
    rw [heq] at hpull
    exact ⟨hpull.subscriptions, hpull.nsubs, hpull.flag⟩

/-- INTERNAL: **what `mb_sub_recv` hands out** is the stashed message, and where there is none, a
message that matches now. -/
theorem recv_result (x : SubSock π) (e : ε) {m : List UInt8}
    (h : (x.recv ops fuel e).1 = .ok m) :
    x.pending = some m ∨ x.pending = none ∧ x.msgMatches m = true := by
  unfold SubSock.recv SubSock.pullDeliverable at h
  cases hp : x.pending with
  | some stashed =>
    simp only [hp, Option.isSome_some, if_true, Option.getD_some] at h
    exact Or.inl (congrArg some (Except.ok.inj h))
  | none =>
    have hspec := (pullLoop_spec ops fuel x e).2
    simp only [hp, Option.isSome_none, Bool.false_eq_true, if_false] at h
    split at h
    · cases h
    · rename_i heq
      rw [heq] at hspec
      obtain ⟨m', hm', hmatch⟩ := hspec rfl
      simp only at hm'
      rw [hm'] at h
      exact Or.inr ⟨rfl, Except.ok.inj h ▸ hmatch⟩

theorem recv_pending (x : SubSock π) (e : ε) {m : List UInt8} (h : x.pending = some m) :
    (x.recv ops fuel e).1 = .ok m := by
  simp [SubSock.recv, SubSock.pullDeliverable, h]

end Pull

section Rounds

variable [DecidableEq π]

end Rounds

/-- INTERNAL: **one event**: a call of `mb_sub_setopt`, or nothing that concerns the subscriptions.
-/
theorem step_cases [DecidableEq π] {s s' : SubRun π} {op : SubOp π} (h : s.step op = some s') :
    (∃ level option optval answers, op = .setopt level option optval answers) ∨
      SameSubs s.sub s'.sub ∧ s'.subs = s.subs := by
  cases op with
  | setopt level option optval answers => exact Or.inl ⟨level, option, optval, answers, rfl⟩
  | add alloc pipe =>
    obtain rfl := Option.some.inj h
    unfold SubSock.add
    split <;> exact Or.inr ⟨⟨rfl, rfl, rfl⟩, rfl⟩
  | rm pipe =>
    obtain rfl := Option.some.inj h
    exact Or.inr ⟨⟨rfl, rfl, rfl⟩, rfl⟩
  | onIn pipe =>
    obtain rfl := Option.some.inj h
    unfold SubSock.onIn
    split <;> exact Or.inr ⟨⟨rfl, rfl, rfl⟩, rfl⟩
  | arrive pipe msg =>
    obtain rfl := Option.some.inj h
    exact Or.inr ⟨⟨rfl, rfl, rfl⟩, rfl⟩
  | events answers =>
    obtain rfl := Option.some.inj h
    exact Or.inr ⟨pullDeliverable_same fifoPipes _ s.sub _, rfl⟩
  | recv answers =>
    obtain rfl := Option.some.inj h
    exact Or.inr ⟨recv_same fifoPipes _ s.sub _, rfl⟩

end MsgBroker.Analysis.SubSpec
