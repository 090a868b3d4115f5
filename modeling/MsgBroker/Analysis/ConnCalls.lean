import MsgBroker.Model.Connections

/-!
# What the calls on connections do

`mb_sinproc_connect` and `mb_sinproc_stop` are made of the calls of `pipe.c`.
-/

set_option autoImplicit false

namespace MsgBroker.Analysis

open Model

variable {S P E : Type} [DecidableEq S] [DecidableEq P] {w : Wiring S P E} {s t : Conns S P E}
  {p q : P}

theorem pipebaseStop_eq_some :
    s.pipebaseStop w p = some t ↔
      s.state p = .active ∧ (s.onStats (w.sockOf p) .stopped).setState p .idle = t :=
  Option.ite_none_right_eq_some.trans (and_congr_right fun _ => Option.some_inj)

theorem pipebaseCancel_eq_some :
    s.pipebaseCancel w p = some t ↔
      s.state p = .active ∧
        (s.onStats (w.sockOf p) (.cancelled (w.bindOf p))).setState p .idle = t :=
  Option.ite_none_right_eq_some.trans (and_congr_right fun _ => Option.some_inj)

theorem sinprocStop_keeps {I : Conns S P E → Prop}
    (hpeers : ∀ s p q, I s → I (s.setPeers p q none none))
    (hstop : ∀ s p t, I s → s.pipebaseStop w p = some t → I t) (h : I s)
    (hs : s.sinprocStop w p = some t) : I t := by
  have hone : ∀ s p t, I s → s.stopIfActive w p = some t → I t := by
    intro s p t h hs
    unfold Conns.stopIfActive at hs
    split at hs
    · exact hstop s p t h hs
    · cases hs
      exact h
  unfold Conns.sinprocStop at hs
  split at hs
  · exact hone s p t h hs
  · rename_i q _
    obtain ⟨u, hu, rfl⟩ := Option.map_eq_some_iff.mp hs
    obtain ⟨v, hv, hu⟩ := Option.bind_eq_some_iff.mp hu
    exact hpeers u p q (hone v q u (hone s p v h hv) hu)

variable [DecidableEq E]

/-- INTERNAL: **`mb_sinproc_connect` starts one end and then the other**: the first may be refused,
or the second, and then the start of the first is taken back. -/
theorem sinprocConnect_cases {add peerAdd : Rc} {r : Rc × Conns S P E}
    (hs : s.sinprocConnect w p q add peerAdd = some r) :
    (∃ c u, (s.setPeers p q (some q) (some p)).pipebaseStart w p add = some (.err c, u) ∧
        r = (.err c, u.setPeers p q none none)) ∨
      ∃ u, (s.setPeers p q (some q) (some p)).pipebaseStart w p add = some (.ok, u) ∧
        ((∃ v, u.pipebaseStart w q peerAdd = some (.ok, v) ∧ r = (.ok, v)) ∨
          ∃ c v t, u.pipebaseStart w q peerAdd = some (.err c, v) ∧
            (v.setPeers p q none none).pipebaseCancel w p = some t ∧ r = (.err c, t)) := by
  unfold Conns.sinprocConnect at hs
  split at hs
  · cases hs
  · rename_i c u hself
    cases hs
    exact Or.inl ⟨c, u, hself, rfl⟩
  · rename_i u hself
    refine Or.inr ⟨u, hself, ?_⟩
    split at hs
    · cases hs
    · rename_i c v hpeer
      obtain ⟨t, ht, rfl⟩ := Option.map_eq_some_iff.mp hs
      exact Or.inr ⟨c, v, t, hpeer, ht, rfl⟩
    · rename_i v hpeer
      cases hs
      exact Or.inl ⟨v, hpeer, rfl⟩

end MsgBroker.Analysis
