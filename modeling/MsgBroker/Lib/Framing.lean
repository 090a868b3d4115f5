import Mathlib.Data.List.Basic
import Mathlib.Tactic.Common

/-!
# Length-prefixed frames

A stream of bodies, each preceded by a header that encodes its length in a fixed number of units.
-/

set_option autoImplicit false

namespace MsgBroker.Lib

variable {β : Type}

/-- A body behind the header of its length. -/
def frame (hdr : ℕ → List β) (body : List β) : List β := hdr body.length ++ body

/-- The stream of frames of a sequence of bodies. -/
def frames (hdr : ℕ → List β) (bodies : List (List β)) : List β := bodies.flatMap (frame hdr)

variable (hdr : ℕ → List β)

@[simp] theorem frames_cons (b : List β) (bs : List (List β)) :
    frames hdr (b :: bs) = hdr b.length ++ (b ++ frames hdr bs) := by
  simp [frames, frame]

theorem frames_concat (bs : List (List β)) (b : List β) :
    frames hdr (bs ++ [b]) = frames hdr bs ++ frame hdr b := by
  simp [frames]

theorem frames_cons_of_header {k : ℕ} (hlen : ∀ n, (hdr n).length = k) (hk : 0 < k)
    {h rest : List β} {bs : List (List β)} (heq : h ++ rest = frames hdr bs)
    (hh : h.length = k) :
    ∃ b bs', bs = b :: bs' ∧ h = hdr b.length ∧ rest = b ++ frames hdr bs' := by
  cases bs with
  | nil =>
    have hnil : h = [] := (List.append_eq_nil_iff.mp heq).1
    rw [hnil] at hh
    exact absurd hh (by simp; omega)
  | cons b bs' =>
    rw [frames_cons] at heq
    obtain ⟨h1, h2⟩ := List.append_inj heq (hh.trans (hlen b.length).symm)
    exact ⟨b, bs', rfl, h1, h2⟩

end MsgBroker.Lib
