import MsgBroker.Model.HeapList

/-!
# Pipes that die during a fan-out

The operations of `src/utils/list.c` and the `add` and `rm` of the protocols are right on every
well-linked list: they are `ps ++ [p]`, `p :: ps` and the list without `p`.
-/

set_option autoImplicit false

namespace MsgBroker.Analysis.FanoutFailure

open Lib Model

variable {π μ ε : Type} [DecidableEq π]

/-! ## The list -/

/-- The list has these items, in this order. -/
structure Holds (s : MbList π) (ps : List π) : Prop where
  linked : Linked s.heap ps
  first : s.first = .ofOption ps.head?
  last : s.last = .ofOption ps.getLast?

omit [DecidableEq π] in
theorem init_holds : Holds (.init : MbList π) [] := ⟨Linked.nil _, rfl, rfl⟩

variable {l₁ l₂ ps : List π} {a p : π}

theorem relinkPrev_spec {s : MbList π}
    (hs : Holds s (l₁ ++ a :: l₂)) :
    ∃ s', s.relinkPrev ⟨.ofOption l₂.head?, .ofOption l₁.getLast?⟩ = some s' ∧
      s'.first = .ofOption (l₁ ++ l₂).head? ∧ s'.last = s.last ∧
      (∀ k b, l₁ = k ++ [b] →
        s'.heap b = some ⟨.ofOption l₂.head?, .ofOption k.getLast?⟩) ∧
      ∀ x, (∀ k, l₁ ≠ k ++ [x]) → s'.heap x = s.heap x := by
  rcases List.eq_nil_or_concat l₁ with rfl | ⟨k, b, rfl⟩
  · refine ⟨{ s with first := .ofOption l₂.head? }, by simp [MbList.relinkPrev], ?_⟩
    simp
  · rw [List.concat_eq_append] at hs ⊢
    have hb := hs.linked.cell k b (a :: l₂) (by simp)
    refine ⟨⟨Function.update s.heap b (some ⟨.ofOption l₂.head?, .ofOption k.getLast?⟩),
      s.first, s.last⟩, ?_, ?_, rfl, ?_, ?_⟩
    · simp [MbList.relinkPrev, storeNext, hb]
    · have hfirst := hs.first
      cases k <;> simpa using hfirst
    · intro k' b' heq
      obtain ⟨rfl, hb'⟩ := List.append_inj' heq rfl
      obtain rfl : b = b' := by simpa using hb'
      simp
    · intro x hx
      have hxb : x ≠ b := fun h => hx k (by rw [h])
      simp [hxb]

theorem relinkNext_spec {s : MbList π}
    (hlast : s.last = .ofOption (l₁ ++ a :: l₂).getLast?)
    (hcell : ∀ b k, l₂ = b :: k → s.heap b = some ⟨.ofOption k.head?, .to a⟩) :
    ∃ s', s.relinkNext ⟨.ofOption l₂.head?, .ofOption l₁.getLast?⟩ = some s' ∧
      s'.last = .ofOption (l₁ ++ l₂).getLast? ∧ s'.first = s.first ∧
      (∀ b k, l₂ = b :: k → s'.heap b = some ⟨.ofOption k.head?, .ofOption l₁.getLast?⟩) ∧
      ∀ x, (∀ k, l₂ ≠ x :: k) → s'.heap x = s.heap x := by
  cases l₂ with
  | nil =>
    refine ⟨{ s with last := .ofOption l₁.getLast? }, by simp [MbList.relinkNext], ?_⟩
    simp
  | cons c k =>
    have hc := hcell c k rfl
    refine ⟨⟨Function.update s.heap c (some ⟨.ofOption k.head?, .ofOption l₁.getLast?⟩),
      s.first, s.last⟩, ?_, ?_, rfl, ?_, ?_⟩
    · simp [MbList.relinkNext, storePrev, hc]
    · simpa [List.getLast?_append] using hlast
    · intro b k' heq
      obtain ⟨rfl, rfl⟩ := List.cons.inj heq
      simp
    · intro x hx
      have hxc : x ≠ c := fun h => hx k (by rw [h])
      simp [hxc]

theorem itemReset_spec {s : MbList π} (ha : s.heap a ≠ none) :
    ∃ s', s.itemReset a = some s' ∧ s'.first = s.first ∧ s'.last = s.last ∧
      s'.heap a = some ⟨.invalid, .invalid⟩ ∧ ∀ x ≠ a, s'.heap x = s.heap x := by
  obtain ⟨c, hc⟩ := Option.ne_none_iff_exists'.mp ha
  refine ⟨⟨Function.update s.heap a (some ⟨.invalid, .invalid⟩), s.first, s.last⟩,
    ?_, rfl, rfl, ?_, ?_⟩
  · simp [MbList.itemReset, storePrev, storeNext, hc]
  · simp
  · intro x hx
    simp [hx]

/-- INTERNAL: **`mb_list_erase` takes the item out.**  It always returns `MB_LIST_NOTINLIST`. -/
theorem erase_holds {s : MbList π}
    (hs : Holds s (l₁ ++ a :: l₂)) :
    ∃ s', s.erase a = some (.invalid, s') ∧ Holds s' (l₁ ++ l₂) ∧ s'.heap a ≠ none := by
  have hcell := hs.linked.cell l₁ a l₂ rfl
  have ha : a ∉ l₁ ++ l₂ := by
    have hnd := hs.linked.nodup
    rw [List.nodup_middle] at hnd
    exact (List.nodup_cons.mp hnd).1
  have ha₁ : ∀ k, l₁ ≠ k ++ [a] := fun k h => ha (by simp [h])
  have ha₂ : ∀ k, l₂ ≠ a :: k := fun k h => ha (by simp [h])
  -- an item of one side is not an item of the other
  have hside : ∀ x k k', l₁ = k ++ [x] → l₂ ≠ x :: k' := by
    rintro x k k' rfl rfl
    have hnd := hs.linked.nodup
    simp [List.nodup_append'] at hnd
  obtain ⟨s₁, hs₁, hfirst₁, hlast₁, hpred₁, hrest₁⟩ := relinkPrev_spec hs
  obtain ⟨s₂, hs₂, hlast₂, hfirst₂, hsucc₂, hrest₂⟩ :=
    relinkNext_spec (s := s₁) (hlast₁.trans hs.last) (fun b k h => by
      rw [hrest₁ b fun k' h' => hside b k' k h' h, hs.linked.cell (l₁ ++ [a]) b k (by simp [h])]
      simp)
  have hcell₁ : s₁.heap a = s.heap a := hrest₁ a ha₁
  have hcell₂ : s₂.heap a ≠ none := by
    rw [hrest₂ a ha₂, hcell₁, hcell]
    simp
  obtain ⟨s₃, hs₃, hfirst₃, hlast₃, hcell₃, hrest₃⟩ := itemReset_spec hcell₂
  have hother : ∀ x ∈ l₁ ++ l₂, s₃.heap x = s₂.heap x := by
    intro x hx
    refine hrest₃ x ?_
    rintro rfl
    exact ha hx
  refine ⟨s₃, ?_, ⟨hs.linked.remove ?_ ?_ ?_, ?_, ?_⟩, ?_⟩
  · simp [MbList.erase, hcell, hs₁, hcell₁, hs₂, hs₃, hcell₃]
  · intro k b h
    rw [hother b (by simp [h]), hrest₂ b (hside b k · h), hpred₁ k b h]
  · intro b k h
    rw [hother b (by simp [h]), hsucc₂ b k h]
  · intro b hb h₁ h₂
    rw [hother b hb, hrest₂ b h₂, hrest₁ b h₁]
  · rw [hfirst₃, hfirst₂, hfirst₁]
  · rw [hlast₃, hlast₂]
  · simp [hcell₃]

theorem insert_end_holds {s : MbList π} (hs : Holds s ps)
    (ha : a ∉ ps) (halloc : s.heap a ≠ none) :
    ∃ s', s.insert a .null = some s' ∧ Holds s' (ps ++ [a]) := by
  obtain ⟨c, hc⟩ := Option.ne_none_iff_exists'.mp halloc
  have hlast := hs.last
  rcases List.eq_nil_or_concat ps with rfl | ⟨k, b, rfl⟩
  · rw [List.getLast?_nil, Ptr.ofOption_none] at hlast
    refine ⟨_, by simp [MbList.insert, storePrev, storeNext, hc, hlast]; rfl,
      hs.linked.snoc ha ?_ ?_ ?_, by simp, by simp⟩
    all_goals simp
  · rw [List.concat_eq_append] at *
    rw [List.getLast?_concat, Ptr.ofOption_some] at hlast
    have hba : b ≠ a := by
      rintro rfl
      exact ha (by simp)
    have hb := hs.linked.cell k b [] rfl
    refine ⟨_, by simp [MbList.insert, storePrev, storeNext, hc, hlast, hb, hba]; rfl,
      hs.linked.snoc ha ?_ ?_ ?_, ?_, by simp⟩
    · simp [hba.symm]
    · intro l x heq
      obtain ⟨rfl, hx⟩ := List.append_inj' heq rfl
      obtain rfl : b = x := by simpa using hx
      simp
    · intro x hx hne
      have hxb : x ≠ b := fun h => hne k (by rw [h])
      have hxa : x ≠ a := fun h => ha (h ▸ hx)
      simp [hxb, hxa]
    · have hfirst := hs.first
      cases k <;> simpa using hfirst

/-! ## Attaching and detaching -/

/-- These pipes are attached, in this order. -/
structure Attached (s : PipeList π) (ps : List π) : Prop extends Holds s.list ps where
  data : ∀ p ∈ ps, s.data p = true

omit [DecidableEq π] in
theorem init_attached : Attached (.init : PipeList π) [] := ⟨init_holds, by simp⟩

theorem alloc_holds {s : MbList π} (hs : Holds s ps) (hp : p ∉ ps) :
    ∃ s', (s.alloc p).itemReset p = some s' ∧ Holds s' ps ∧ s'.heap p ≠ none := by
  obtain ⟨s', hs', hfirst, hlast, hcell, hrest⟩ :=
    itemReset_spec (s := s.alloc p) (a := p) (by simp [MbList.alloc])
  refine ⟨s', hs', ⟨hs.linked.congr ?_, hfirst.trans hs.first, hlast.trans hs.last⟩,
    by simp [hcell]⟩
  intro x hx
  have hxp : x ≠ p := fun h => hp (h ▸ hx)
  rw [hrest x hxp]
  simp [MbList.alloc, hxp]

theorem update_data {s : PipeList π} {qs : List π} (hs : Attached s ps)
    (hqs : ∀ q ∈ qs, q = p ∨ q ∈ ps) : ∀ q ∈ qs, Function.update s.data p true q = true := by
  intro q hq
  by_cases hqp : q = p
  · simp [hqp]
  · rw [Function.update_of_ne hqp]
    exact hs.data q ((hqs q hq).resolve_left hqp)

theorem add_attached {s : PipeList π} (hs : Attached s ps)
    (hp : p ∉ ps) : ∃ s', s.add true p = some (.ok, s') ∧ Attached s' (ps ++ [p]) := by
  obtain ⟨l₁, hl₁, hholds₁, halloc₁⟩ := alloc_holds hs.toHolds hp
  obtain ⟨l₂, hl₂, hholds₂⟩ := insert_end_holds hholds₁ hp halloc₁
  refine ⟨⟨l₂, Function.update s.data p true⟩, by simp [PipeList.add, hl₁, hl₂], hholds₂,
    update_data hs ?_⟩
  intro q hq
  simpa [or_comm] using hq

theorem rmItem_attached (clears : Bool) {s : PipeList π}
    (hs : Attached s (l₁ ++ p :: l₂)) :
    ∃ s', s.rmItem clears p = some s' ∧ Attached s' (l₁ ++ l₂) ∧
      s'.list.heap p = none ∧ s'.data p = !clears := by
  have hdata : s.data p = true := hs.data p (by simp)
  have hp : p ∉ l₁ ++ l₂ := by
    have hnd := hs.linked.nodup
    rw [List.nodup_middle] at hnd
    exact (List.nodup_cons.mp hnd).1
  have hlisted : s.list.isinlist p = some true := by
    rw [MbList.isinlist, hs.linked.cell l₁ p l₂ rfl]
    cases l₁.getLast? <;> rfl
  obtain ⟨m₁, hm₁, hholds₁, halloc₁⟩ := erase_holds hs.toHolds
  obtain ⟨m₂, hm₂, hfirst₂, hlast₂, -, hrest₂⟩ := itemReset_spec halloc₁
  refine ⟨⟨m₂.free p, if clears then Function.update s.data p false else s.data⟩, ?_,
    ⟨⟨hholds₁.linked.congr ?_, ?_, ?_⟩, ?_⟩, ?_, ?_⟩
  · simp [PipeList.rmItem, hdata, hlisted, hm₁, hm₂]
  · intro x hx
    have hxp : x ≠ p := fun h => hp (h ▸ hx)
    simp [MbList.free, hxp, hrest₂ x hxp]
  · exact hfirst₂.trans hholds₁.first
  · exact hlast₂.trans hholds₁.last
  · intro q hq
    have hqp : q ≠ p := fun h => hp (h ▸ hq)
    have hdataq : s.data q = true := hs.data q (by
      rw [List.mem_append] at hq
      rcases hq with hq | hq <;> simp [hq])
    cases clears <;> simp [hqp, hdataq]
  · simp [MbList.free]
  · cases clears <;> simp [hdata]

/-- A second `rm` of the same pipe finds no data, except in PUB and XPAIR: there it reads
the item that the first one freed.  SRC: bus.c:49-62, pub.c:104-116, xpair.c:52-63 -/
theorem rm_twice {s : PipeList π} {ps : List π} {p : π} (hs : Attached s ps) (hp : p ∈ ps) :
    (s.rm p).bind (·.rm p) = s.rm p ∧ (s.rmKeeping p).bind (·.rmKeeping p) = none := by
  obtain ⟨l₁, l₂, rfl⟩ := List.append_of_mem hp
  constructor
  · obtain ⟨s', hs', -, -, hdata⟩ := rmItem_attached true hs
    have hs'' : s.rm p = some s' := hs'
    rw [hs'', Option.bind_some, PipeList.rm, PipeList.rmItem, hdata]
    rfl
  · obtain ⟨s', hs', -, hfreed, hdata⟩ := rmItem_attached false hs
    have hs'' : s.rmKeeping p = some s' := hs'
    rw [hs'', Option.bind_some, PipeList.rmKeeping, PipeList.rmItem, hdata]
    simp [MbList.isinlist, hfreed]

/-! ## The loop -/

section Loop

variable (clears : Bool) (P : Pipes π μ ε) (dies : π → Bool) (msg : μ)

variable {s : PipeList π} {l₂ ps : List π} {p : π}

theorem fanOutFrom_lives {l₁ : List π}
    (hs : Attached s (l₁ ++ p :: l₂)) (hp : dies p = false) (fuel : ℕ)
    (calls : List (π × Rc)) (e : ε) :
    fanOutFrom P (PipeList.rmItem clears) dies msg (fuel + 1) (.to p) s calls e =
      fanOutFrom P (PipeList.rmItem clears) dies msg fuel (.ofOption l₂.head?) s
        (calls ++ [(p, (P.send p msg e).1)]) (P.send p msg e).2 := by
  have hcell := hs.linked.cell l₁ p l₂ rfl
  simp [fanOutFrom, hcell, sendOrDie, hp, MbList.next]

theorem fanOutFrom_dies {l₁ : List π}
    (hs : Attached s (l₁ ++ p :: l₂)) (hp : dies p = true) (fuel : ℕ)
    (calls : List (π × Rc)) (e : ε) :
    fanOutFrom P (PipeList.rmItem clears) dies msg (fuel + 1) (.to p) s calls e =
      .fault (calls ++ [(p, (P.send p msg e).1)]) := by
  have hcell := hs.linked.cell l₁ p l₂ rfl
  obtain ⟨s', hs', -, hfreed, -⟩ := rmItem_attached clears hs
  simp [fanOutFrom, hcell, sendOrDie, hp, hs', MbList.next, hfreed]

theorem fanOutFrom_eq_fanOut (l₁ : List π)
    (hs : Attached s (l₁ ++ l₂)) (hlive : ∀ p ∈ l₂, dies p = false)
    (calls : List (π × Rc)) (e : ε) :
    fanOutFrom P (PipeList.rmItem clears) dies msg (l₂.length + 1) (.ofOption l₂.head?) s
        calls e =
      .done s (calls ++ l₂.zip (fanOut P msg l₂ e).1) (fanOut P msg l₂ e).2 := by
  induction l₂ generalizing l₁ calls e with
  | nil => simp [fanOutFrom, fanOut]
  | cons p l₂ ih =>
    rw [List.length_cons, List.head?_cons, Ptr.ofOption_some,
      fanOutFrom_lives clears P dies msg hs (hlive p List.mem_cons_self),
      ih (l₁ ++ [p]) (by simpa using hs) fun q hq => hlive q (List.mem_cons_of_mem p hq)]
    simp [fanOut]

theorem fanOutFrom_fault (l₁ : List π) {l₃ : List π}
    (hs : Attached s (l₁ ++ (l₂ ++ p :: l₃))) (hlive : ∀ q ∈ l₂, dies q = false)
    (hp : dies p = true) (fuel : ℕ) (calls : List (π × Rc)) (e : ε) :
    fanOutFrom P (PipeList.rmItem clears) dies msg fuel (.ofOption (l₂ ++ p :: l₃).head?) s
        calls e =
      if fuel ≤ l₂.length then .unfinished
      else .fault (calls ++ (l₂ ++ [p]).zip (fanOut P msg (l₂ ++ [p]) e).1) := by
  induction l₂ generalizing l₁ fuel calls e with
  | nil =>
    cases fuel with
    | zero => rfl
    | succ fuel =>
      rw [List.nil_append, List.head?_cons, Ptr.ofOption_some,
        fanOutFrom_dies clears P dies msg hs hp]
      simp [fanOut]
  | cons q l₂ ih =>
    cases fuel with
    | zero => rfl
    | succ fuel =>
      rw [List.cons_append] at hs ⊢
      rw [List.head?_cons, Ptr.ofOption_some,
        fanOutFrom_lives clears P dies msg hs (hlive q List.mem_cons_self),
        ih (l₁ ++ [q]) (by simpa using hs) fun r hr => hlive r (List.mem_cons_of_mem q hr)]
      simp [fanOut]

/-- The loop ends, it called `mb_pipe_send` once on every pipe that was attached, and the
pipes that did not die are still attached.  A loop that reads a freed item does not end
this way. -/
def Survives (rm : PipeList π → π → Option (PipeList π)) (s : PipeList π) (ps : List π)
    (e : ε) : Prop :=
  ∃ fuel s' calls e', fanOutHeap P rm dies msg fuel s e = .done s' calls e' ∧
    (calls.map Prod.fst).Perm ps ∧ Attached s' (ps.filter fun p => !dies p)

omit [DecidableEq π] in
theorem exists_first_dying (h : ¬ ∀ p ∈ ps, dies p = false) :
    ∃ l₁ p l₂, ps = l₁ ++ p :: l₂ ∧ (∀ q ∈ l₁, dies q = false) ∧ dies p = true := by
  induction ps with
  | nil => exact absurd (by simp) h
  | cons q ps ih =>
    by_cases hq : dies q = true
    · exact ⟨[], q, ps, rfl, by simp, hq⟩
    · have hq' : dies q = false := by simpa using hq
      have hps : ¬ ∀ p ∈ ps, dies p = false := fun hall => h (by simpa [hq'] using hall)
      obtain ⟨l₁, p, l₂, rfl, hlive, hp⟩ := ih hps
      exact ⟨q :: l₁, p, l₂, rfl, by simpa [hq'] using hlive, hp⟩

theorem survives_of_live (hs : Attached s ps)
    (hlive : ∀ p ∈ ps, dies p = false) (e : ε) :
    Survives P dies msg (PipeList.rmItem clears) s ps e := by
  refine ⟨ps.length + 1, s, ps.zip (fanOut P msg ps e).1, (fanOut P msg ps e).2, ?_, ?_, ?_⟩
  · have hbegin : s.list.begin = .ofOption ps.head? := hs.first
    rw [fanOutHeap, hbegin,
      fanOutFrom_eq_fanOut clears P dies msg [] hs hlive, List.nil_append]
  · rw [List.map_fst_zip (Nat.le_of_eq (length_fanOut P msg ps e).symm)]
  · have hall : ps.filter (fun p => !dies p) = ps :=
      List.filter_eq_self.mpr fun p hp => by simp [hlive p hp]
    rwa [hall]

theorem not_survives_of_dies (hs : Attached s ps)
    (hdies : ¬ ∀ p ∈ ps, dies p = false) (e : ε) :
    ¬ Survives P dies msg (PipeList.rmItem clears) s ps e := by
  rintro ⟨fuel, s', calls, e', hdone, -, -⟩
  obtain ⟨l₁, p, l₂, rfl, hlive, hp⟩ := exists_first_dying dies hdies
  have hbegin : s.list.begin = .ofOption (l₁ ++ p :: l₂).head? := hs.first
  rw [fanOutHeap, hbegin, fanOutFrom_fault clears P dies msg [] hs hlive hp] at hdone
  split at hdone <;> cases hdone

end Loop

/-- **A fan-out survives exactly when no attached pipe dies in it**: for every list of
attached pipes, every subset of them that hits a hard write error, and the `rm` of any of
the eight protocols.
SRC: bus.c:103-116, list.c:41-46, 70-84, sipc.c:208-252, bipc.c:46-65 -/
theorem fanOut_survives_iff (clears : Bool) (P : Pipes π μ ε) (dies : π → Bool) (msg : μ)
    (s : PipeList π) (ps : List π) (e : ε) (hs : Attached s ps) :
    Survives P dies msg (PipeList.rmItem clears) s ps e ↔ ∀ p ∈ ps, dies p = false := by
  refine ⟨fun h => ?_, fun hlive => survives_of_live clears P dies msg hs hlive e⟩
  by_contra hdies
  exact not_survives_of_dies clears P dies msg hs hdies e h

/-! ## Two pipes, one of them broken -/

/-- A BUS socket with two pipes. -/
def twoPipes : Option (PipeList ℕ) :=
  (PipeList.init.add true 0).bind fun r => (r.2.add true 1).map Prod.snd

/-- The peer of pipe `0` is gone. -/
def brokenPipes : Pipes ℕ Unit Unit where
  send p _ e := (if p = 0 then .err .ECONNRESET else .ok, e)
  recv _ e := (.error .EAGAIN, e)
  hasMsg _ e := (false, e)
  canSend _ e := (true, e)

theorem twoPipes_attached : ∃ s, twoPipes = some s ∧ Attached s [0, 1] := by
  obtain ⟨s₁, hs₁, hattached₁⟩ := add_attached (p := 0) (init_attached (π := ℕ)) (by simp)
  obtain ⟨s₂, hs₂, hattached₂⟩ := add_attached (p := 1) hattached₁ (by simp)
  exact ⟨s₂, by simp [twoPipes, hs₁, hs₂], hattached₂⟩

theorem rm_twice_twoPipes :
    ∃ s, twoPipes = some s ∧ (s.rm 1).bind (·.rm 1) = s.rm 1 ∧
      (s.rmKeeping 1).bind (·.rmKeeping 1) = none := by
  obtain ⟨s, hs, hattached⟩ := twoPipes_attached
  exact ⟨s, hs, rm_twice hattached (by simp)⟩

/-- A third pipe would have died, the two that are attached do not. -/
theorem fanOut_survives_twoPipes :
    ∃ s, twoPipes = some s ∧ Attached s [0, 1] ∧
      Survives brokenPipes (fun p => p == 2) () PipeList.rm s [0, 1] () := by
  obtain ⟨s, hs, hattached⟩ := twoPipes_attached
  exact ⟨s, hs, hattached,
    (fanOut_survives_iff true brokenPipes _ () s [0, 1] () hattached).mpr (by decide)⟩

/-- The write to pipe `0` fails, and the loop reads the freed item of that pipe: pipe `1` is
never sent to. -/
theorem fanOut_reads_freed :
    (∃ s, twoPipes = some s ∧ Attached s [0, 1] ∧
      ¬ Survives brokenPipes (fun p => p == 0) () PipeList.rm s [0, 1] ()) ∧
    (twoPipes.map fun s => fanOutHeap brokenPipes PipeList.rm (fun p => p == 0) () 3 s ()) =
      some (.fault [(0, .err .ECONNRESET)]) := by
  obtain ⟨s, hs, hattached⟩ := twoPipes_attached
  refine ⟨⟨s, hs, hattached, ?_⟩, rfl⟩
  exact not_survives_of_dies true brokenPipes _ () hattached (by decide) ()

end MsgBroker.Analysis.FanoutFailure
