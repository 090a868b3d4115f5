import MsgBroker.Model.LoadBalance

/-!
# What one call of the load balancer or the fair queue does

`Rotor.serve` is the body of `mb_lb_send` and `mb_fq_recv_pipe`.
-/

set_option autoImplicit false

namespace MsgBroker.Analysis

open Model

variable {π μ ε α : Type} [DecidableEq π]

omit [DecidableEq π] in
@[simp] theorem ids_mk_append (l l' : List (PipeData π)) :
    Rotor.ids ⟨l ++ l'⟩ = Rotor.ids ⟨l⟩ ++ Rotor.ids ⟨l'⟩ := by
  simp [Rotor.ids]

omit [DecidableEq π] in
@[simp] theorem ids_mk_cons (d : PipeData π) (l : List (PipeData π)) :
    Rotor.ids ⟨d :: l⟩ = d.pipe :: Rotor.ids ⟨l⟩ := rfl

omit [DecidableEq π] in
@[simp] theorem ids_mk_nil : Rotor.ids (⟨[]⟩ : Rotor π) = [] := rfl

/-- The outcome of a call on a rotor: `Q` after a success, `I` after `-EAGAIN`, `E`
after another error; the served pipe moved to the end of the list, and no other change
of the order. -/
def Served (self : Rotor π) (I : ε → Prop) (Q : α → π → ε → Prop) (E : Errno → ε → Prop) :
    Except Errno (α × π) × Rotor π × ε → Prop
  | (.ok (a, p), r, e) =>
    Q a p e ∧ ∃ l₁ l₂, self.ids = l₁ ++ p :: l₂ ∧ r.ids = l₁ ++ l₂ ++ [p]
  | (.error .EAGAIN, r, e) => I e ∧ r.ids = self.ids
  | (.error c, r, e) => E c e ∧ r.ids = self.ids

/-- The outcome of one pipe call, in the same terms. -/
def Called (p : π) (I : ε → Prop) (Q : α → π → ε → Prop) (E : Errno → ε → Prop) :
    Except Errno α × ε → Prop
  | (.ok a, e) => Q a p e
  | (.error .EAGAIN, e) => I e
  | (.error c, e) => E c e

omit [DecidableEq π] in
theorem probe_rule (call : π → ε → Except Errno α × ε) (self : Rotor π)
    (I : ε → Prop) (Q : α → π → ε → Prop) (E : Errno → ε → Prop)
    (seen rest : List (PipeData π)) (e : ε)
    (hids : self.ids = Rotor.ids ⟨seen⟩ ++ Rotor.ids ⟨rest⟩) (hI : I e)
    (hcall : ∀ p ∈ self.ids, ∀ e, I e → Called p I Q E (call p e)) :
    Served self I Q E (Rotor.probe call seen rest e) := by
  induction rest generalizing seen e with
  | nil => exact ⟨hI, by simpa using hids.symm⟩
  | cons d rest ih =>
    have hmem : d.pipe ∈ self.ids := by simp [hids]
    have hd := hcall d.pipe hmem e hI
    unfold Rotor.probe
    rcases hc : call d.pipe e with ⟨res, e'⟩
    rw [hc] at hd
    match res, hd with
    | .ok a, hd => exact ⟨hd, Rotor.ids ⟨seen⟩, Rotor.ids ⟨rest⟩, by simpa using hids, by simp⟩
    | .error c, hd =>
      by_cases hEA : c = .EAGAIN
      · subst hEA
        exact ih _ _ (by simpa using hids) hd
      · have hE : E c e' ∧ Rotor.ids ⟨seen ++ d :: rest⟩ = self.ids := by
          refine ⟨?_, by simpa using hids.symm⟩
          cases c <;> first | exact absurd rfl hEA | exact hd
        cases c <;> first | exact absurd rfl hEA | exact hE

omit [DecidableEq π] in
theorem serve_rule (call : π → ε → Except Errno α × ε) (self : Rotor π)
    (I : ε → Prop) (Q : α → π → ε → Prop) (E : Errno → ε → Prop) (e : ε) (hI : I e)
    (hcall : ∀ p ∈ self.ids, ∀ e, I e → Called p I Q E (call p e)) :
    Served self I Q E (self.serve call e) := by
  obtain ⟨pipes⟩ := self
  cases pipes with
  | nil => exact ⟨hI, rfl⟩
  | cons d rest =>
    unfold Rotor.serve
    by_cases hact : d.active = true
    · have hd := hcall d.pipe (by simp) e hI
      simp only [hact, if_true]
      rcases hc : call d.pipe e with ⟨res, e'⟩
      rw [hc] at hd
      match res, hd with
      | .ok a, hd => exact ⟨hd, [], Rotor.ids ⟨rest⟩, by simp, by simp⟩
      | .error c, hd =>
        by_cases hEA : c = .EAGAIN
        · subst hEA
          exact probe_rule call _ I Q E _ _ _ (by simp) hd hcall
        · cases c <;> first | exact absurd rfl hEA | exact ⟨hd, rfl⟩
    · simp only [hact]
      exact probe_rule call _ I Q E _ _ _ (by simp) hI hcall

/-- `Called` for `mb_pipe_send`. -/
def PipeSent (p : π) (I : ε → Prop) (Q : π → ε → Prop) (E : Errno → ε → Prop) : Rc × ε → Prop
  | (.ok, e) => Q p e
  | (.err .EAGAIN, e) => I e
  | (.err c, e) => E c e

/-- `Served` for `mb_lb_send`. -/
def LbSent (self : Rotor π) (I : ε → Prop) (Q : π → ε → Prop) (E : Errno → ε → Prop) :
    Rc × Rotor π × ε → Prop
  | (.ok, r, e) => ∃ p l₁ l₂, Q p e ∧ self.ids = l₁ ++ p :: l₂ ∧ r.ids = l₁ ++ l₂ ++ [p]
  | (.err .EAGAIN, r, e) => I e ∧ r.ids = self.ids
  | (.err c, r, e) => E c e ∧ r.ids = self.ids

omit [DecidableEq π] in
theorem lbSend_rule (ops : Pipes π μ ε) (msg : μ) (self : Rotor π)
    (I : ε → Prop) (Q : π → ε → Prop) (E : Errno → ε → Prop) (e : ε) (hI : I e)
    (hcall : ∀ p ∈ self.ids, ∀ e, I e → PipeSent p I Q E (ops.send p msg e)) :
    LbSent self I Q E (self.lbSend ops msg e) := by
  have hserved := serve_rule (fun p e => Rotor.ofRc (ops.send p msg e)) self I (fun _ => Q) E e hI
    fun p hp e he => by
      have hsent := hcall p hp e he
      rcases hsend : ops.send p msg e with ⟨rc, e'⟩
      rw [hsend] at hsent
      cases rc with
      | ok => exact hsent
      | err c => cases c <;> exact hsent
  unfold Rotor.lbSend
  rcases hs : self.serve (fun p e => Rotor.ofRc (ops.send p msg e)) e with ⟨res, lb', e'⟩
  rw [hs] at hserved
  cases res with
  | ok a =>
    obtain ⟨hQ, l₁, l₂, hids, hids'⟩ := hserved
    exact ⟨a.2, l₁, l₂, hQ, hids, hids'⟩
  | error c => cases c <;> exact hserved

omit [DecidableEq π] in
theorem PipeSent.of_all {p : π} {I : ε → Prop} {r : Rc × ε} (h : I r.2) :
    PipeSent p I (fun _ => I) (fun _ => I) r := by
  obtain ⟨rc, e⟩ := r
  cases rc with
  | ok => exact h
  | err c => cases c <;> exact h

omit [DecidableEq π] in
theorem lbSend_ids_ne_nil (ops : Pipes π μ ε) (msg : μ) (lb : Rotor π) (e : ε)
    (h : (lb.lbSend ops msg e).1 = .ok) :
    (lb.lbSend ops msg e).2.1.ids ≠ [] := by
  have hsent := lbSend_rule ops msg lb (fun _ => True) (fun _ _ => True) (fun _ _ => True) e trivial
    fun _ _ _ _ => PipeSent.of_all trivial
  rcases hs : lb.lbSend ops msg e with ⟨rc, lb', e'⟩
  rw [hs] at h hsent
  cases rc with
  | ok =>
    obtain ⟨_, l₁, l₂, -, -, hids⟩ := hsent
    rw [hids]
    exact List.append_ne_nil_of_right_ne_nil _ (List.cons_ne_nil _ _)
  | err c => cases h

/-- Pipes are called one after another, until one does not answer `-EAGAIN`. -/
def callInTurn (send : π → ε → Rc × ε) : List π → ε → Rc × ε
  | [], e => (.again, e)
  | p :: ps, e =>
    match send p e with
    | (.err .EAGAIN, e') => callInTurn send ps e'
    | r => r

/-- The pipes `mb_lb_send` calls in turn: the first one is called twice if it is marked active. -/
def probed (lb : Rotor π) : List π :=
  (lb.pipes.head?.toList.filter (·.active)).map (·.pipe) ++ lb.ids

omit [DecidableEq π] in
/-- What a loop of the load balancer comes to for the pipes. -/
def codeAndPipes (r : Except Errno (α × π) × Rotor π × ε) : Rc × ε :=
  match r with
  | (.ok _, _, e) => (.ok, e)
  | (.error c, _, e) => (.err c, e)

omit [DecidableEq π] in
/-- INTERNAL: the loop calls the pipes in turn.  SRC: lb.c:93-109 -/
theorem probe_calls (send : π → ε → Rc × ε) (seen rest : List (PipeData π)) (e : ε) :
    codeAndPipes (Rotor.probe (fun p e => Rotor.ofRc (send p e)) seen rest e) =
      callInTurn send (Rotor.ids ⟨rest⟩) e := by
  induction rest generalizing seen e with
  | nil => rfl
  | cons d rest ih =>
    rw [Rotor.probe, ids_mk_cons, callInTurn]
    rcases send d.pipe e with ⟨rc, e'⟩
    cases rc with
    | ok => rfl
    | err c => cases c <;> first | exact ih _ _ | rfl

omit [DecidableEq π] in
/-- INTERNAL: **`mb_lb_send` calls its pipes in turn**, an active head once before the others.
SRC: lb.c:67-112 -/
theorem lbSend_calls (ops : Pipes π μ ε) (msg : μ) (lb : Rotor π) (e : ε) :
    ((lb.lbSend ops msg e).1, (lb.lbSend ops msg e).2.2) =
      callInTurn (fun p => ops.send p msg) (probed lb) e := by
  have hcode : ((lb.lbSend ops msg e).1, (lb.lbSend ops msg e).2.2) =
      codeAndPipes (lb.serve (fun p e => Rotor.ofRc (ops.send p msg e)) e) := by
    unfold Rotor.lbSend
    rcases lb.serve (fun p e => Rotor.ofRc (ops.send p msg e)) e with ⟨_ | _, _, _⟩ <;> rfl
  rw [hcode]
  obtain ⟨pipes⟩ := lb
  cases pipes with
  | nil => rfl
  | cons d rest =>
    obtain ⟨p, active⟩ := d
    cases active with
    | false => exact probe_calls (fun p => ops.send p msg) [] (⟨p, false⟩ :: rest) e
    | true =>
      have hrest := probe_calls (fun p => ops.send p msg) [] (⟨p, false⟩ :: rest)
      show codeAndPipes (Rotor.serve _ ⟨⟨p, true⟩ :: rest⟩ e) =
        callInTurn _ (p :: Rotor.ids ⟨⟨p, true⟩ :: rest⟩) e
      rw [Rotor.serve, callInTurn]
      dsimp only
      rw [if_pos rfl]
      rcases ops.send p msg e with ⟨rc, e'⟩
      cases rc with
      | ok => rfl
      | err c => cases c <;> first | exact hrest e' | rfl

omit [DecidableEq π] in
theorem lbCanSendLoop_rule (ops : Pipes π μ ε) (I : ε → Prop)
    (hcall : ∀ p e, I e → I (ops.canSend p e).2) (seen rest : List (PipeData π)) (e : ε)
    (hI : I e) :
    (Rotor.lbCanSendLoop ops seen rest e).2.1.ids = Rotor.ids ⟨seen⟩ ++ Rotor.ids ⟨rest⟩ ∧
      I (Rotor.lbCanSendLoop ops seen rest e).2.2 := by
  induction rest generalizing seen e with
  | nil => exact ⟨by simp [Rotor.lbCanSendLoop], hI⟩
  | cons d rest ih =>
    have hd := hcall d.pipe e hI
    unfold Rotor.lbCanSendLoop
    rcases hc : ops.canSend d.pipe e with ⟨b, e'⟩
    rw [hc] at hd
    cases b with
    | true => exact ⟨by simp, hd⟩
    | false =>
      obtain ⟨h1, h2⟩ := ih (seen ++ [⟨d.pipe, false⟩]) e' hd
      exact ⟨by simpa using h1, h2⟩

end MsgBroker.Analysis
