import Mathlib.Data.List.Basic
import Mathlib.Tactic.Common

/-!
# Non-blocking transfers over a byte stream

A non-blocking call on a connection transfers some of the units asked for, reports that it would
block, or stops the connection for a reason `φ` (a system error, the end of the stream).
-/

set_option autoImplicit false

namespace MsgBroker.Lib

variable {β φ : Type}

/-- The outcome of one call: `more n` transfers `n + 1` units, or all that is asked for
where that is less. -/
inductive Answer (φ : Type) where
  | more (n : ℕ)
  | block
  | stop (f : φ)
deriving DecidableEq, Repr

/-- How a transfer loop ended. -/
inductive Ending (φ : Type) where
  | done
  | block
  | stop (f : φ)
deriving DecidableEq, Repr

/-- The answer does not stop the connection. -/
def Answer.Calm : Answer φ → Prop
  | .stop _ => False
  | _ => True

/-- No answer of the list stops the connection. -/
def Calm (as : List (Answer φ)) : Prop := ∀ a ∈ as, a.Calm

theorem Calm.tail {a : Answer φ} {as : List (Answer φ)} (h : Calm (a :: as)) : Calm as :=
  List.forall_mem_of_forall_mem_cons h

theorem Calm.append {as bs : List (Answer φ)} (h : Calm as) (h' : Calm bs) : Calm (as ++ bs) :=
  List.forall_mem_append.mpr ⟨h, h'⟩

/-! ## Writing -/

/-- Write the buffer until it is empty or a call fails: the units written, the ending, and
the answers not used. -/
def writeLoop : List (Answer φ) → List β → List β × Ending φ × List (Answer φ)
  | as, [] => ([], .done, as)
  | [], _ :: _ => ([], .block, [])
  | .more n :: as, b :: bs =>
    let r := writeLoop as (bs.drop n)
    (b :: (bs.take n ++ r.1), r.2)
  | .block :: as, _ :: _ => ([], .block, as)
  | .stop f :: as, _ :: _ => ([], .stop f, as)

theorem writeLoop_split (as : List (Answer φ)) (buf : List β) :
    ∃ rest, buf = (writeLoop as buf).1 ++ rest ∧
      ((writeLoop as buf).2.1 = .done ↔ rest = []) := by
  induction as generalizing buf with
  | nil =>
    cases buf with
    | nil => exact ⟨[], rfl, by simp [writeLoop]⟩
    | cons b bs => exact ⟨b :: bs, rfl, by simp [writeLoop]⟩
  | cons a as ih =>
    cases buf with
    | nil => exact ⟨[], rfl, by simp [writeLoop]⟩
    | cons b bs =>
      cases a with
      | more n =>
        obtain ⟨rest, hrest, hdone⟩ := ih (bs.drop n)
        refine ⟨rest, ?_, hdone⟩
        have hbs : bs = bs.take n ++ bs.drop n := (List.take_append_drop n bs).symm
        simp only [writeLoop, List.cons_append, List.append_assoc]
        rw [← hrest, ← hbs]
      | block => exact ⟨b :: bs, rfl, by simp [writeLoop]⟩
      | stop f => exact ⟨b :: bs, rfl, by simp [writeLoop]⟩

theorem writeLoop_calm (as : List (Answer φ)) (buf : List β) (h : Calm as) :
    (∀ f, (writeLoop as buf).2.1 ≠ .stop f) ∧ Calm (writeLoop as buf).2.2 := by
  induction as generalizing buf with
  | nil => cases buf <;> exact ⟨by simp [writeLoop], h⟩
  | cons a as ih =>
    cases buf with
    | nil => exact ⟨by simp [writeLoop], h⟩
    | cons b bs =>
      cases a with
      | more n => exact ih (bs.drop n) h.tail
      | block => exact ⟨by simp [writeLoop], h.tail⟩
      | stop f => exact (h (.stop f) (List.mem_cons_self)).elim

/-! ## Writers that retry

A writer that calls `writeLoop` again after every short write gives up only when a call
blocks before it moved anything: at the first call, or at the second of two refusals in
a row. -/

/-- How many units such a writer moves before it gives up; `fresh` says that the current
`writeLoop` has moved nothing yet. -/
def room (fresh : Bool) : List (Answer φ) → ℕ
  | [] => 0
  | .more n :: as => n + 1 + room false as
  | .block :: as => if fresh then 0 else room true as
  | .stop _ :: _ => 0

/-- Such a writer does not give up on these answers. -/
def Persists (fresh : Bool) : List (Answer φ) → Prop
  | [] => True
  | .more _ :: as => Persists false as
  | .block :: as => fresh = false ∧ Persists true as
  | .stop _ :: _ => False

/-- What such a writer comes to with `n` units: the ending, the units that are left, and the
answers not used. -/
def retry (fresh : Bool) : ℕ → List (Answer φ) → Ending φ × ℕ × List (Answer φ)
  | 0, as => (.done, 0, as)
  | n + 1, [] => (.block, n + 1, [])
  | n + 1, .more k :: as => retry false (n - k) as
  | n + 1, .block :: as => if fresh then (.block, n + 1, as) else retry true (n + 1) as
  | n + 1, .stop f :: as => (.stop f, n + 1, as)

theorem retry_zero (fresh : Bool) (as : List (Answer φ)) : retry fresh 0 as = (.done, 0, as) := by
  cases as <;> rfl

/-- INTERNAL: a call that moves everything is the last one. -/
theorem retry_of_done (as : List (Answer φ)) (buf : List β) (fresh : Bool)
    (h : (writeLoop as buf).2.1 = .done) :
    retry fresh buf.length as = (.done, 0, (writeLoop as buf).2.2) := by
  induction as generalizing buf fresh with
  | nil =>
    cases buf with
    | nil => rfl
    | cons b bs => cases h
  | cons a as ih =>
    cases buf with
    | nil => rfl
    | cons b bs =>
      cases a with
      | more n =>
        have hrest := ih (bs.drop n) false h
        rw [List.length_drop] at hrest
        exact hrest
      | block => cases h
      | stop f => cases h

/-- INTERNAL: so is a call that stops. -/
theorem retry_of_stop (as : List (Answer φ)) (buf : List β) (fresh : Bool) {f : φ}
    (h : (writeLoop as buf).2.1 = .stop f) :
    ∃ m, retry fresh buf.length as = (.stop f, m, (writeLoop as buf).2.2) := by
  induction as generalizing buf fresh with
  | nil => cases buf <;> cases h
  | cons a as ih =>
    cases buf with
    | nil => cases h
    | cons b bs =>
      cases a with
      | more n =>
        have hrest := ih (bs.drop n) false h
        rw [List.length_drop] at hrest
        exact hrest
      | block => cases h
      | stop g =>
        cases h
        exact ⟨bs.length + 1, rfl⟩

/-- INTERNAL: behind a call that blocked, the next one goes on after the units moved. -/
theorem retry_of_block (as : List (Answer φ)) (buf : List β)
    (h : (writeLoop as buf).2.1 = .block) :
    retry false buf.length as =
      retry true (buf.length - (writeLoop as buf).1.length) (writeLoop as buf).2.2 := by
  induction as generalizing buf with
  | nil =>
    cases buf with
    | nil => cases h
    | cons b bs => rfl
  | cons a as ih =>
    cases buf with
    | nil => cases h
    | cons b bs =>
      cases a with
      | more n =>
        have hlt : n < bs.length := by
          by_contra hge
          have hb : (writeLoop as (bs.drop n)).2.1 = .block := h
          rw [List.drop_eq_nil_of_le (by omega)] at hb
          cases as <;> cases hb
        have hrest := ih (bs.drop n) h
        have hlen : (b :: bs).length - (writeLoop (.more n :: as) (b :: bs)).1.length =
            (bs.drop n).length - (writeLoop as (bs.drop n)).1.length := by
          simp only [writeLoop, List.length_cons, List.length_append, List.length_take,
            List.length_drop]
          omega
        rw [hlen, List.length_drop] at *
        exact hrest
      | block => rfl
      | stop f => cases h

/-- INTERNAL: a call that moves something does not depend on what was moved before. -/
theorem retry_fresh_of_written (as : List (Answer φ)) (buf : List β)
    (h : (writeLoop as buf).1 ≠ []) : retry true buf.length as = retry false buf.length as := by
  cases buf with
  | nil => cases as <;> rfl
  | cons b bs =>
    rcases as with - | ⟨_ | _ | _, as⟩
    · exact absurd rfl h
    · rfl
    · exact absurd rfl h
    · rfl

/-- INTERNAL: a refusal at once ends it. -/
theorem retry_of_refused (as : List (Answer φ)) (buf : List β) (h : (writeLoop as buf).1 = [])
    (hb : (writeLoop as buf).2.1 = .block) :
    retry true buf.length as = (.block, buf.length, (writeLoop as buf).2.2) := by
  cases buf with
  | nil => cases as <;> cases hb
  | cons b bs =>
    rcases as with - | ⟨_ | _ | _, as⟩
    · rfl
    · cases h
    · rfl
    · cases hb

theorem writeLoop_room (as : List (Answer φ)) (buf : List β) (h : Calm as) :
    ((writeLoop as buf).2.1 = .done → buf.length ≤ room false as) ∧
      ((writeLoop as buf).2.1 = .block →
        room false as = (writeLoop as buf).1.length + room true (writeLoop as buf).2.2) := by
  induction as generalizing buf with
  | nil => cases buf <;> simp [writeLoop, room]
  | cons a as ih =>
    cases buf with
    | nil => simp [writeLoop]
    | cons b bs =>
      cases a with
      | more n =>
        obtain ⟨h1, h2⟩ := ih (bs.drop n) h.tail
        simp only [writeLoop, room, List.length_cons, List.length_append, List.length_take]
        refine ⟨fun hd => ?_, fun hb => ?_⟩
        · have := h1 hd
          rw [List.length_drop] at this
          omega
        · -- a call that blocks later moved all `n + 1` units first
          have hlt : n < bs.length := by
            by_contra hge
            have hnil : bs.drop n = [] := List.drop_eq_nil_of_le (by omega)
            rw [hnil] at hb
            cases as <;> simp [writeLoop] at hb
          have := h2 hb
          omega
      | block => simp [writeLoop, room]
      | stop f => exact (h (.stop f) List.mem_cons_self).elim

theorem room_fresh_of_written (as : List (Answer φ)) (buf : List β)
    (h : (writeLoop as buf).1 ≠ []) : room true as = room false as := by
  cases as with
  | nil => rfl
  | cons a as =>
    cases buf with
    | nil => simp [writeLoop] at h
    | cons b bs =>
      cases a with
      | more n => rfl
      | block => simp [writeLoop] at h
      | stop f => rfl

theorem room_fresh_of_refused (as : List (Answer φ)) {buf : List β} (hne : buf ≠ [])
    (h : (writeLoop as buf).1 = []) : room true as = 0 := by
  cases as with
  | nil => rfl
  | cons a as =>
    cases buf with
    | nil => exact absurd rfl hne
    | cons b bs =>
      cases a with
      | more n => simp [writeLoop] at h
      | block => rfl
      | stop f => rfl

theorem le_room_of_persists (fresh : Bool) (as : List (Answer φ)) (n : ℕ)
    (h : Persists fresh as) : n < room fresh (as ++ [.more n]) := by
  induction as generalizing fresh with
  | nil => simp [room]
  | cons a as ih =>
    cases a with
    | more k =>
      have := ih false h
      simp only [List.cons_append, room]
      omega
    | block =>
      obtain ⟨rfl, hp⟩ := h
      simpa [room] using ih true hp
    | stop f => exact h.elim

/-! ## Reading -/

/-- Read `need` units or until a call fails; on an empty stream a call that would transfer
something blocks.  The units read, the ending, the rest of the stream, and the answers not
used. -/
def readLoop : List (Answer φ) → ℕ → List β →
    List β × Ending φ × List β × List (Answer φ)
  | as, 0, rx => ([], .done, rx, as)
  | [], _ + 1, rx => ([], .block, rx, [])
  | .more _ :: as, _ + 1, [] => ([], .block, [], as)
  | .more n :: as, need + 1, b :: rx =>
    let got := rx.take (min n need)
    let r := readLoop as (need - got.length) (rx.drop (min n need))
    (b :: (got ++ r.1), r.2)
  | .block :: as, _ + 1, rx => ([], .block, rx, as)
  | .stop f :: as, _ + 1, rx => ([], .stop f, rx, as)

theorem readLoop_split (as : List (Answer φ)) (need : ℕ) (rx : List β) :
    rx = (readLoop as need rx).1 ++ (readLoop as need rx).2.2.1 ∧
      (readLoop as need rx).1.length ≤ need ∧
      ((readLoop as need rx).2.1 = .done ↔ (readLoop as need rx).1.length = need) := by
  induction as generalizing need rx with
  | nil => cases need <;> simp [readLoop]
  | cons a as ih =>
    cases need with
    | zero => simp [readLoop]
    | succ need =>
      cases a with
      | more n =>
        cases rx with
        | nil => simp [readLoop]
        | cons b rx =>
          have hlen : (rx.take (min n need)).length ≤ need := by
            rw [List.length_take]
            omega
          obtain ⟨h1, h2, h3⟩ :=
            ih (need - (rx.take (min n need)).length) (rx.drop (min n need))
          simp only [readLoop, List.cons_append, List.append_assoc, List.length_cons,
            List.length_append]
          refine ⟨?_, by omega, h3.trans (by omega)⟩
          rw [← h1, List.take_append_drop]
      | block => simp [readLoop]
      | stop f => simp [readLoop]

theorem readLoop_calm (as : List (Answer φ)) (need : ℕ) (rx : List β) (h : Calm as) :
    (∀ f, (readLoop as need rx).2.1 ≠ .stop f) ∧ Calm (readLoop as need rx).2.2.2 := by
  induction as generalizing need rx with
  | nil => cases need <;> exact ⟨by simp [readLoop], h⟩
  | cons a as ih =>
    cases need with
    | zero => exact ⟨by simp [readLoop], h⟩
    | succ need =>
      cases a with
      | more n =>
        cases rx with
        | nil => exact ⟨by simp [readLoop], h.tail⟩
        | cons b rx => exact ih _ _ h.tail
      | block => exact ⟨by simp [readLoop], h.tail⟩
      | stop f => exact (h (.stop f) (List.mem_cons_self)).elim

theorem readLoop_ne_nil {as : List (Answer φ)} {need n : ℕ} {rx : List β}
    (has : as.head? = some (.more n)) (hneed : 0 < need) (hrx : rx ≠ []) :
    (readLoop as need rx).1 ≠ [] := by
  cases as with
  | nil => simp at has
  | cons a as =>
    simp only [List.head?_cons, Option.some.injEq] at has
    subst has
    cases need with
    | zero => omega
    | succ need =>
      cases rx with
      | nil => exact absurd rfl hrx
      | cons b rx => simp [readLoop]

theorem readLoop_length_le (as : List (Answer φ)) (need : ℕ) (rx : List β) :
    (readLoop as need rx).2.2.2.length ≤ as.length := by
  induction as generalizing need rx with
  | nil => cases need <;> simp [readLoop]
  | cons a as ih =>
    cases need with
    | zero => simp [readLoop]
    | succ need =>
      cases a with
      | more n =>
        cases rx with
        | nil => simp [readLoop]
        | cons b rx => exact Nat.le_trans (ih _ _) (Nat.le_succ _)
      | block => simp [readLoop]
      | stop f => simp [readLoop]

theorem readLoop_uses (as : List (Answer φ)) {need : ℕ} (rx : List β) (hpos : 0 < need)
    (h : (readLoop as need rx).2.1 = .done) :
    (readLoop as need rx).2.2.2.length < as.length := by
  cases need with
  | zero => omega
  | succ need =>
    cases as with
    | nil => cases h
    | cons a as =>
      cases a with
      | more n =>
        cases rx with
        | nil => cases h
        | cons b rx => exact Nat.lt_succ_of_le (readLoop_length_le as _ _)
      | block => cases h
      | stop f => cases h

end MsgBroker.Lib
