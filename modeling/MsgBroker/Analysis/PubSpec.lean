import MsgBroker.Model.Pub

/-!
# The drain of a PUB socket, and its buckets as one queue

The eight buckets, read from the highest priority to the lowest, are one queue.
-/

set_option autoImplicit false

namespace MsgBroker.Analysis.PubQueue

open Model
open Function (update update_of_ne update_self)

variable {π τ ε : Type}

/-- The retained messages, in the order in which they are drained. -/
def queue (self : Pub π τ) : List (Msg τ) := Pub.levels.flatMap self.buckets

theorem nodup_levels : Pub.levels.Nodup := by decide

theorem mem_levels (l : Fin 8) : l ∈ Pub.levels := by
  revert l
  decide

section Rule

variable (P : Pipes π (Msg τ) ε) (pipes : List π) (I : List (Msg τ) → ε → Prop)
  (R : Msg τ → ε → Prop)

/-- What one attempt to drain does: with a message taken, `I` holds of the rest and `R` of
the message; otherwise `I` is kept. -/
def Attempt : Prop :=
  ∀ m q e, I (m :: q) e →
    ((Pub.tryDrainOne P pipes m e).1 = true →
      I q (Pub.tryDrainOne P pipes m e).2 ∧ R m (Pub.tryDrainOne P pipes m e).2) ∧
    ((Pub.tryDrainOne P pipes m e).1 = false → I (m :: q) (Pub.tryDrainOne P pipes m e).2)

variable {P pipes I R}

theorem drainBucket_rule (hI : Attempt P pipes I R) (bucket rest : List (Msg τ)) (e : ε)
    (h : I (bucket ++ rest) e) :
    ∃ goOn left removed e', Pub.drainBucket P pipes bucket e = (goOn, left, removed, e') ∧
      I (left ++ rest) e' ∧ (goOn = true → left = []) ∧ ∀ r ∈ removed, R r.1 r.2 := by
  induction bucket generalizing e with
  | nil => exact ⟨true, [], [], e, rfl, h, fun _ => rfl, nofun⟩
  | cons m bucket ih =>
    obtain ⟨htaken, hkept⟩ := hI m (bucket ++ rest) e h
    unfold Pub.drainBucket
    rcases hone : Pub.tryDrainOne P pipes m e with ⟨took, e₁⟩
    rw [hone] at htaken hkept
    cases took with
    | false => exact ⟨false, m :: bucket, [], e₁, rfl, hkept rfl, nofun, nofun⟩
    | true =>
      obtain ⟨hnext, hR⟩ := htaken rfl
      obtain ⟨goOn, left, removed, e', hrest, hI', hleft, hremoved⟩ := ih e₁ hnext
      refine ⟨goOn, left, (m, e₁) :: removed, e', by simp only [hrest], hI', hleft, ?_⟩
      intro r hr
      rcases List.mem_cons.mp hr with rfl | hr
      · exact hR
      · exact hremoved r hr

theorem flatMap_update {ls : List (Fin 8)} {l : Fin 8} (hl : l ∉ ls)
    (b : Fin 8 → List (Msg τ)) (q : List (Msg τ)) :
    ls.flatMap (update b l q) = ls.flatMap b := by
  refine List.flatMap_congr fun a ha => ?_
  have hne : a ≠ l := fun heq => hl (heq ▸ ha)
  exact update_of_ne hne _ _

theorem drainLevels_rule (hI : Attempt P pipes I R) {ls : List (Fin 8)} (hnd : ls.Nodup)
    (b : Fin 8 → List (Msg τ)) (e : ε) (h : I (ls.flatMap b) e) :
    ∃ b' removed e', Pub.drainLevels P pipes ls b e = (b', removed, e') ∧
      I (ls.flatMap b') e' ∧ (∀ l ∉ ls, b' l = b l) ∧ ∀ r ∈ removed, R r.1 r.2 := by
  induction ls generalizing b e with
  | nil => exact ⟨b, [], e, rfl, h, fun _ _ => rfl, nofun⟩
  | cons l ls ih =>
    obtain ⟨hl, hnd'⟩ := List.nodup_cons.mp hnd
    obtain ⟨goOn, left, removed, e₁, hbucket, hI₁, hleft, hR₁⟩ :=
      drainBucket_rule hI (b l) (ls.flatMap b) e h
    unfold Pub.drainLevels
    rw [hbucket]
    cases goOn with
    | false =>
      refine ⟨update b l left, removed, e₁, rfl, ?_, ?_, hR₁⟩
      · rw [List.flatMap_cons, update_self, flatMap_update hl]
        exact hI₁
      · intro a ha
        exact update_of_ne (List.ne_of_not_mem_cons ha) _ _
    | true =>
      obtain rfl := hleft rfl
      obtain ⟨b', removed', e', hrest, hI', hframe, hR'⟩ :=
        ih hnd' (update b l []) e₁ (by rw [flatMap_update hl]; exact hI₁)
      have hbl : b' l = [] := (hframe l hl).trans (update_self _ _ _)
      refine ⟨b', removed ++ removed', e', by simp only [hrest], ?_, ?_, ?_⟩
      · rw [List.flatMap_cons, hbl]
        exact hI'
      · intro a ha
        rw [hframe a (List.not_mem_of_not_mem_cons ha),
          update_of_ne (List.ne_of_not_mem_cons ha)]
      · intro r hr
        rcases List.mem_append.mp hr with hr | hr
        · exact hR₁ r hr
        · exact hR' r hr

omit pipes in
/-- INTERNAL: **the drain rule**: what the probes and every attempt keep, the drain keeps, and `R`
holds of every message removed when it is removed. -/
theorem drainBuckets_rule (self : Pub π τ) (hI : Attempt P self.pipes I R)
    (hcan : ∀ p q e, I q e → I q (P.canSend p e).2) (e : ε) (h : I (queue self) e) :
    ∃ self' removed e', Pub.drainBuckets P self e = (self', removed, e') ∧
      self'.pipes = self.pipes ∧ I (queue self') e' ∧ ∀ r ∈ removed, R r.1 r.2 := by
  have hprobe : ∀ ps e, I (queue self) e → I (queue self) (Pub.anyCanSend P ps e).2 := by
    intro ps
    induction ps with
    | nil => exact fun e h => h
    | cons p ps ih =>
      intro e h
      have hp := hcan p _ e h
      unfold Pub.anyCanSend
      generalize P.canSend p e = r at hp ⊢
      obtain ⟨can, e'⟩ := r
      cases can with
      | true => exact hp
      | false => exact ih e' hp
  have hstart := hprobe self.pipes e h
  unfold Pub.drainBuckets
  generalize Pub.anyCanSend P self.pipes e = r at hstart ⊢
  obtain ⟨can, e₁⟩ := r
  cases can with
  | false => exact ⟨self, [], e₁, rfl, rfl, hstart, nofun⟩
  | true =>
    obtain ⟨b', removed, e', hlevels, hI', _, hR⟩ :=
      drainLevels_rule hI nodup_levels self.buckets e₁ hstart
    exact ⟨{ self with buckets := b' }, removed, e', by simp only [hlevels], rfl, hI', hR⟩

end Rule

theorem flatMap_retain {ls : List (Fin 8)} (hnd : ls.Nodup) {l : Fin 8} (hl : l ∈ ls)
    (b : Fin 8 → List (Msg τ)) (ms : List (Msg τ)) :
    List.Perm (ls.flatMap (update b l (b l ++ ms))) (ls.flatMap b ++ ms) := by
  induction ls with
  | nil => cases hl
  | cons a ls ih =>
    obtain ⟨ha, hnd'⟩ := List.nodup_cons.mp hnd
    rw [List.flatMap_cons, List.flatMap_cons]
    rcases List.mem_cons.mp hl with rfl | hl
    · rw [update_self, flatMap_update ha, List.append_assoc, List.append_assoc]
      exact List.Perm.append_left _ List.perm_append_comm
    · have hne : a ≠ l := fun heq => ha (heq ▸ hl)
      rw [update_of_ne hne, List.append_assoc]
      exact (ih hnd' hl).append_left _

theorem queue_retain (x : Pub π τ) (l : Fin 8) {y : Pub π τ} {ms : List (Msg τ)}
    (h : y.buckets = update x.buckets l (x.buckets l ++ ms)) :
    List.Perm (queue y) (queue x ++ ms) := by
  unfold queue
  rw [h]
  exact flatMap_retain nodup_levels (mem_levels l) x.buckets ms

end MsgBroker.Analysis.PubQueue
