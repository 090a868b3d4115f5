import MsgBroker.Analysis.InprocSpec

/-!
# Binding and connecting an inproc address

A bind never makes a pipe: where the address is owned by a connector, it takes the address over, and
the connector stays as it is, in neither list and without a pipe to the new owner.
-/

set_option autoImplicit false

namespace MsgBroker.Analysis.InprocJoin

open Lib Model Model.InprocRegistry Analysis.InprocSpec

variable {S A : Type} [DecidableEq S] [DecidableEq A] {proto : S → Protocol}

theorem ispeer_symm {p q : Protocol} (h : p.ispeer q) : q.ispeer p := by
  cases p <;> cases q <;> first | decide | exact absurd h (by decide)

/-- The bind of `b` and the connect of `a` in one of the two orders, with what they return. -/
def declareBoth (proto : S → Protocol) (bindFirst : Bool) (a b : S) (addr : A)
    (r : InprocRegistry S A) : Rc × Rc × InprocRegistry S A :=
  if bindFirst then
    let (rc, r₁) := r.mbBind proto b addr .granted
    (rc, r₁.mbConnect proto a addr .granted)
  else
    let (rc, r₁) := r.mbConnect proto a addr .granted
    (rc, r₁.mbBind proto b addr .granted)

section Orders

variable {r : InprocRegistry S A} {addr : A} {a b : S}

theorem sinprocs_mbBind (ans : EpAnswers) :
    (r.mbBind proto b addr ans).2.sinprocs = r.sinprocs := by
  have hmoves := moves_of_createEp proto b addr true ans r
  unfold mbBind
  generalize r.createEp proto b addr true ans = res at hmoves ⊢
  obtain ⟨rc, r'⟩ := res
  dsimp only at hmoves ⊢
  cases hmoves with
  | failed _ => rfl
  | bound _ _ => rfl
  | upgraded _ _ _ => rfl
  | lazy hbind _ => cases hbind
  | joined hbind _ _ _ => cases hbind

theorem mbBind_free (hfree : r.findOwner addr = none) :
    r.mbBind proto b addr .granted =
      (.ok, { r with bound := r.bound ++ [boundItem proto b addr] }) := by
  show r.insBind _ = _
  unfold insBind
  dsimp only
  rw [hfree]
  rfl

theorem mbConnect_free (hfree : r.findOwner addr = none) :
    r.mbConnect proto a addr .granted =
      (.ok, { r with lazy := r.lazy ++ [lazyItem proto a addr] }) := by
  show r.insConnect proto _ _ = _
  unfold insConnect
  dsimp only
  rw [hfree]
  rfl

theorem mbBind_lazy (proto : S → Protocol) (b : S) {owner : InsItem S A}
    (howner : r.findOwner addr = some owner) (hbind : owner.bind = false) :
    (r.mbBind proto b addr .granted).1 = .ok := by
  show (r.insBind _).1 = _
  unfold insBind
  dsimp only
  rw [howner]
  dsimp only
  rw [hbind]
  split
  · next h => cases h
  · split <;> rfl

theorem mbConnect_owned {owner : InsItem S A} (howner : r.findOwner addr = some owner)
    (hpeer : (proto a).ispeer owner.protocol) (hpeer' : (proto owner.sock).ispeer (proto a)) :
    r.mbConnect proto a addr .granted =
      (.ok, { r with sinprocs := r.sinprocs ++ wire r.sinprocs.length a owner.sock }) := by
  show r.insConnect proto _ _ = _
  unfold insConnect
  dsimp only
  rw [howner]
  dsimp only
  rw [if_pos ⟨hpeer, hpeer'⟩]
  rfl

theorem bind_then_connect (hfree : r.findOwner addr = none)
    (hpeer : (proto a).ispeer (proto b)) :
    ∃ r', declareBoth proto true a b addr r = (.ok, .ok, r') ∧ Joined r' a b := by
  have howner : InprocRegistry.findOwner addr
      { r with bound := r.bound ++ [boundItem proto b addr] } = some (boundItem proto b addr) :=
    findOwner_claimed hfree rfl (perm_insertBound r _)
  unfold declareBoth
  rw [if_pos rfl, mbBind_free hfree]
  dsimp only
  rw [mbConnect_owned howner hpeer (ispeer_symm hpeer)]
  exact ⟨_, rfl, _, _, _, _, pairAt_wire rfl, rfl, rfl⟩

theorem connect_then_bind (proto : S → Protocol) (a b : S) (hfree : r.findOwner addr = none) :
    ∃ r', declareBoth proto false a b addr r = (.ok, .ok, r') ∧ r'.sinprocs = r.sinprocs := by
  have howner : InprocRegistry.findOwner addr
      { r with lazy := r.lazy ++ [lazyItem proto a addr] } = some (lazyItem proto a addr) :=
    findOwner_claimed hfree rfl (perm_insertLazy r _)
  have hok := mbBind_lazy proto b howner rfl
  unfold declareBoth
  rw [if_neg (by decide), mbConnect_free hfree]
  exact ⟨_, Prod.ext rfl (Prod.ext hok rfl), sinprocs_mbBind _⟩

end Orders

/-- **A bind and a connect on a free address join the two sockets exactly if the bind comes
first.**  In either order both calls succeed.  After the connect and then the bind the sockets are
joined only if they were joined before both calls; and whatever calls are made between the two,
the pairs that exist when the bind is made are kept.
SRC: ins.c:85-137, inproc_cinproc.c:31-121 -/
theorem joined_iff_bind_first (proto : S → Protocol) (r : InprocRegistry S A) {addr : A} {a b : S}
    (hfree : r.findOwner addr = none) (hpeer : (proto a).ispeer (proto b)) (bindFirst : Bool) :
    (∃ r', declareBoth proto bindFirst a b addr r = (.ok, .ok, r') ∧
      (Joined r' a b ↔ bindFirst = true ∨ Joined r a b)) ∧
    ∀ calls r₁, (inprocCalls proto).run (r.mbConnect proto a addr .granted).2 calls = some r₁ →
      ∀ c d, Joined r₁ c d → Joined (r₁.mbBind proto b addr .granted).2 c d := by
  refine ⟨?_, fun _ r₁ _ c d => (joined_congr (sinprocs_mbBind _) c d).mpr⟩
  cases bindFirst with
  | true =>
    obtain ⟨r', hboth, hjoined⟩ := bind_then_connect hfree hpeer
    exact ⟨r', hboth, iff_of_true hjoined (Or.inl rfl)⟩
  | false =>
    obtain ⟨r', hboth, hsame⟩ := connect_then_bind proto a b hfree
    refine ⟨r', hboth, ?_⟩
    rw [joined_congr hsame]
    exact ⟨Or.inr, fun h => h.resolve_left nofun⟩

/-- A `PAIR` socket connects where another one has bound. -/
theorem joined_iff_bind_first_pair :
    ∃ r, declareBoth (fun _ : Fin 2 => Protocol.pair) true 0 1 "inproc://x" .init = (.ok, .ok, r) ∧
      Joined r 0 1 := by
  have hfree : findOwner "inproc://x" (.init : InprocRegistry (Fin 2) String) = none := rfl
  obtain ⟨r, hboth, hjoined⟩ :=
    (joined_iff_bind_first (fun _ => .pair) .init (a := 0) (b := 1) hfree (by decide) true).1
  exact ⟨r, hboth, hjoined.mpr (Or.inl rfl)⟩

/-- A `PAIR` socket binds where another one has connected: both calls succeed, and there is no
pipe at all. -/
theorem connect_then_bind_not_joined :
    ∃ r, declareBoth (fun _ : Fin 2 => Protocol.pair) false 0 1 "inproc://x" .init = (.ok, .ok, r) ∧
      r.lazy = [] ∧ r.sinprocs = [] ∧ ¬ Joined r 0 1 := by
  refine ⟨_, rfl, rfl, rfl, ?_⟩
  rintro ⟨i, j, x, y, hpair, -, -⟩
  cases hpair.near

end MsgBroker.Analysis.InprocJoin
